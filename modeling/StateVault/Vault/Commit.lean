/-
  StateVault.Vault.Commit
  ───────────────────────
  **A NEW DIRECTORY BECOMES CURRENT.**

  A commit writes the new directory into blocks that are free, and then the
  copy of the superblock that does not count, which points at it.  Until that
  copy is whole the other one describes a complete vault.  After it the
  blocks of the old directory are free.  A commit that fails leaves what is
  known of the vault as it was, growth apart.
-/
import StateVault.Vault.Space

namespace StateVault.Vault

/-- The superblock that a commit writes. -/
def nextSuperblock (v : Vault) (directory : Extent) (size : Nat) (generation : UInt64) :
    Superblock :=
  { v.superblock with
    totalBlocks := v.blocks.total
    directory
    directorySize := UInt32.ofNat size
    generation }

/-- Directory, sync, superblock, sync. -/
def writeCommit (extent : Extent) (bytes : ByteArray) (superblock : Superblock) (slot : Slot) :
    Action Unit := do
  fill extent bytes
  Action.sync
  Action.write (UInt64.ofNat slot.offset) superblock.encode
  Action.sync

/-- Make a directory current. -/
def commit (directory : Directory) : Action Unit := do
  let v ← Action.vault
  match Word.add? v.generation 1 with
  | none => Action.fail (.corrupt .generationsExhausted)
  | some generation =>
      let bytes ← Action.require (directory.encode generation)
      let extent ← allocate bytes.size
      let v ← Action.vault
      let superblock := v.nextSuperblock extent bytes.size generation
      let slot := v.slot.other
      (writeCommit extent bytes superblock slot).onError (released extent)
      -- from here on nothing fails: the copy in `slot` counts
      Action.modify fun v =>
        released v.superblock.directory { v with superblock, slot, directory }

end StateVault.Vault
