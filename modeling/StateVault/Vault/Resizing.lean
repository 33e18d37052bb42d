/-
  StateVault.Vault.Resizing
  ─────────────────────────
  **ANOTHER SIZE FOR A VAULT.**

  A vault grows by a longer medium and a commit.  It shrinks only if no
  stream is in the way.  A directory that is in the way is committed anew
  first, which puts it where the first free blocks are; then the map is cut,
  a commit makes the smaller size current, and the medium is cut last.
-/
import StateVault.Vault.Commit

namespace StateVault.Vault

/-- The highest block of the streams of a directory. -/
def highestStreamBlock (d : Directory) : Option UInt64 :=
  ((d.entries.filter (!·.extent.isEmpty)).map (·.extent.stop - 1)).max?

/-- Refuse a size that a stream does not fit in. -/
def checkStreams (d : Directory) (total : UInt64) : Except Error Unit :=
  match highestStreamBlock d with
  | some highest =>
      if total ≤ highest then .error (.blockInUse total highest) else .ok ()
  | none => .ok ()

/-- Commit the directory as it is. -/
def recommit : Action Unit := do
  let v ← Action.vault
  commit v.directory

/-- Drop the blocks from `total` on, if they are free. -/
def cutBlocks (total : UInt64) : Action Unit := do
  let v ← Action.vault
  let blocks ← Action.require (v.blocks.shrink total)
  Action.modify fun v => { v with blocks }

/-- The vault with at least `total` blocks in its map. -/
def withBlocks (total : UInt64) (v : Vault) : Vault :=
  { v with blocks := v.blocks.extend total }

/-- Make a vault smaller that has `current` blocks. -/
def shrinkTo (current total : UInt64) : Action Unit := do
  let v ← Action.vault
  Action.require (checkStreams v.directory total)
  -- a directory in the way goes to the first free blocks
  if total < v.superblock.directory.stop then recommit
  cutBlocks total
  recommit.onError (withBlocks current)
  -- only now, with the smaller size current, may the medium become shorter
  let v ← Action.vault
  Action.setLength v.superblock.imageBytes

/-- Give a vault `total` blocks. -/
def resize (total : UInt64) : Action Unit := do
  if total < leastBlocks then Action.fail (.settings (.sizeTooSmall total))
  else
    let v ← Action.vault
    let current := v.blocks.total
    if total = current then return ()
    else if current < total then
      lengthen total
      recommit
    else shrinkTo current total

end StateVault.Vault
