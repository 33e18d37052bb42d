/-
  StateVault.BlockMap.Fragmentation
  ─────────────────────────────────
  **HOW OFTEN FREE AND USED BLOCKS ALTERNATE.**

  The score is the number of places where a block differs from the one
  before it, divided by the number of blocks.  Before block 0 all is free.
-/
import StateVault.BlockMap
import StateVault.Decimal.Nearest

namespace StateVault.BlockMap

/-- Whether a block differs from the one before it. -/
def isBoundary (m : BlockMap) (block : Nat) : Bool :=
  m.isUsed block != (block != 0 && m.isUsed (block - 1))

/-- The number of places where free and used blocks meet. -/
def boundaries (m : BlockMap) : Nat :=
  (List.range m.total.toNat).countP m.isBoundary

/-- Boundaries a block, as the nearest double; 0 for a map without blocks. -/
def fragmentation (m : BlockMap) : Double :=
  if m.total = 0 then Double.zero
  else (Double.ofRatio? false m.boundaries m.total.toNat).getD Double.zero

end StateVault.BlockMap
