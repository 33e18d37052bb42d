/-
  StateVault.Settings
  ───────────────────
  **THE SETTINGS OF A VAULT.**

  Block size and first size matter when a vault is made; whether it grows by
  itself, and how far, matters as long as it is open.
-/
import StateVault.Superblock

namespace StateVault

structure Settings where
  /-- Bytes a block, a power of two from 512 to 65536. -/
  blockSize : UInt32
  /-- The size of a new vault in blocks. -/
  initialBlocks : UInt64
  /-- Whether a vault grows when an allocation does not fit. -/
  autoGrow : Bool
  /-- The size in blocks up to which it grows. -/
  maxBlocks : UInt64
deriving DecidableEq, Repr

namespace Settings

/-- Blocks of 4096 bytes, 4 MiB at first, growing up to 4 GiB. -/
def standard : Settings :=
  { blockSize := 4096, initialBlocks := 1024, autoGrow := true, maxBlocks := 1048576 }

instance : Inhabited Settings := ⟨standard⟩

/-- Block size, first size, limit, and the limit in bytes, in this order. -/
def check (c : Settings) : Except Error Unit := do
  checkBlockSize c.blockSize
  if c.initialBlocks < leastBlocks then throw (.settings (.initialTooSmall c.initialBlocks))
  if c.maxBlocks < c.initialBlocks then
    throw (.settings (.limitBelowInitial c.maxBlocks c.initialBlocks))
  if (Word.mul? c.maxBlocks c.blockSize.toUInt64).isNone then
    throw (.settings (.limitOverflows c.maxBlocks))

end Settings

end StateVault
