/-
  StateVault.Extent
  ─────────────────
  **RUNS OF BLOCKS.**

  An extent is a first block and a number of blocks, both 64-bit words as
  they stand on the medium.  A run that would pass the largest word stops
  there; `Extent.stop` is one past the last block.

    • `mem_iff`, `contains_iff` — which blocks an extent holds, on `Nat`,
    • `toNat_stop`              — the end is the exact one unless it would
                                  pass the largest word,
    • `toNat_capacity`          — so are the bytes that it holds,
    • `blocksToHold`            — the number of blocks for so many bytes.
-/
import StateVault.Word

namespace StateVault

/-- `count` blocks from block `start` on. -/
structure Extent where
  start : UInt64
  count : UInt64
deriving DecidableEq, Repr

namespace Extent

/-! ## §1. Views. -/

/-- The extent of a stream without bytes. -/
def empty : Extent := ⟨0, 0⟩

def isEmpty (e : Extent) : Bool :=
  e.count == 0

/-- One past the last block, held at the largest word. -/
def stop (e : Extent) : UInt64 :=
  Word.addSat e.start e.count

/-- Whether the extent holds a block. -/
def contains (e : Extent) (block : UInt64) : Bool :=
  e.start ≤ block && block < e.stop

/-- Whether two extents, both with blocks, reach into each other. -/
def overlaps (a b : Extent) : Bool :=
  !a.isEmpty && !b.isEmpty && a.start < b.stop && b.start < a.stop

/-- The number of blocks between `start` and `stop`. -/
def length (e : Extent) : Nat :=
  e.stop.toNat - e.start.toNat

/-- The first blocks of an extent in ascending order, at most `limit`. -/
def leading (e : Extent) (limit : Nat) : List Nat :=
  (List.range (min limit e.length)).map (e.start.toNat + ·)

/-- The bytes that an extent holds, held at the largest word. -/
def capacity (e : Extent) (blockSize : UInt32) : UInt64 :=
  Word.mulSat e.count blockSize.toUInt64

/-! ## §2. Membership. -/

instance : Membership Nat Extent :=
  ⟨fun e block => e.start.toNat ≤ block ∧ block < e.stop.toNat⟩

theorem mem_iff (e : Extent) (block : Nat) :
    block ∈ e ↔ e.start.toNat ≤ block ∧ block < e.stop.toNat :=
  Iff.rfl

instance (e : Extent) (block : Nat) : Decidable (block ∈ e) :=
  inferInstanceAs (Decidable (_ ∧ _))

/-- The test for a block is membership. -/
theorem contains_iff (e : Extent) (block : UInt64) :
    e.contains block = true ↔ block.toNat ∈ e := by
  simp [contains, mem_iff, UInt64.le_iff_toNat_le, UInt64.lt_iff_toNat_lt]

/-- The end is the exact one, cut at the largest word. -/
theorem toNat_stop (e : Extent) :
    e.stop.toNat = min (e.start.toNat + e.count.toNat) (UInt64.size - 1) :=
  Word.toNat_addSat _ _

/-- The bytes of an extent are those of its blocks, cut at the largest word. -/
@[simp] theorem toNat_capacity (e : Extent) (blockSize : UInt32) :
    (e.capacity blockSize).toNat
      = min (e.count.toNat * blockSize.toNat) (UInt64.size - 1) := by
  rw [capacity, Word.toNat_mulSat, UInt32.toNat_toUInt64]

end Extent

/-! ## §3. Blocks for bytes. -/

/-- The number of blocks that hold `bytes` bytes: the quotient, and one more
for a remainder. -/
def blocksToHold (bytes : UInt64) (blockSize : UInt32) : UInt64 :=
  bytes / blockSize.toUInt64 + (if bytes % blockSize.toUInt64 = 0 then 0 else 1)

end StateVault
