/-
  StateVault.Vault.Opening
  ────────────────────────
  **MAKING A VAULT, OPENING IT, CHECKING IT, CLOSING IT.**

    • `survey` — superblock, directory and block map as the medium has them,
                 each checked against the others,
    • `format` — an empty vault in the place of whatever was there,
    • `mount`  — the vault on a medium,
    • `verify` — the medium against what is known of the open vault,
    • `close`  — the last sync.
-/
import StateVault.Vault.Commit

namespace StateVault.Vault

/-! ## §1. Surveying. -/

/-- What the medium says about its vault. -/
structure Survey where
  superblock : Superblock
  slot : Slot
  directory : Directory
  blocks : BlockMap

/-- The extents that a superblock and a directory claim. -/
def claims (s : Superblock) (d : Directory) : List BlockMap.Claim :=
  ⟨Region.superblock.name, superblockExtent s.blockSize⟩
    :: ⟨Region.directory.name, s.directory⟩
    :: d.entries.map fun e => ⟨e.name, e.extent⟩

/-- The error of a directory that cannot be read, as an error about the
vault that it belongs to. -/
def directoryFault : Error → Error
  | .outOfRange overrun => .corrupt (.directoryOverrun overrun)
  | .duplicateName name => .corrupt (.directoryRepeats name)
  | e => e

/-- Refuse an image that cannot hold both superblocks. -/
def checkSize (size : Nat) : Except Error Unit :=
  if size < regionSize then .error (.corrupt (.imageTooSmall size)) else .ok ()

/-- The current superblock in an image of `size` bytes that starts with
`region`. -/
def currentIn (size : Nat) (region : ByteArray) : Except Error (Slot × Superblock) := do
  let (slot, s) ← Superblock.current region
  if size < s.imageBytes.toNat then throw (.corrupt (.imageTruncated size s.imageBytes))
  return (slot, s)

/-- What the bytes of a directory say, under the superblock that points at
them. -/
def assemble (slot : Slot) (s : Superblock) (bytes : ByteArray) : Except Error Survey := do
  let (directory, generation) ←
    (Directory.decode bytes s.blockSize).mapError directoryFault
  if generation ≠ s.generation then
    throw (.corrupt (.generationMismatch generation s.generation))
  let blocks ← BlockMap.ofClaims s.totalBlocks s.blockSize (claims s directory)
  return ⟨s, slot, directory, blocks⟩

/-- Superblocks, then the directory. -/
def survey : Script (Except Error Survey) :=
  .size fun size =>
    (Script.done (checkSize size)).andThen fun _ =>
    (Script.read 0 regionSize .done).andThen fun region =>
    (Script.done (currentIn size region)).andThen fun (slot, s) =>
    (Script.read (s.blockOffset s.directory.start).toNat s.directorySize.toNat .done).andThen
      fun bytes => .done (assemble slot s bytes)

/-! ## §2. Opening. -/

/-- The vault on a medium.  Of the settings only those for growth count, and
they are checked only if it may grow. -/
def mount (settings : Settings) : Script (Except Error Vault) :=
  (Script.done (if settings.autoGrow then settings.check else .ok ())).andThen fun _ =>
  survey.andThen fun x =>
  .done (.ok ⟨x.superblock, x.slot, x.directory, x.blocks, settings⟩)

/-! ## §3. Formatting. -/

/-- A vault whose medium has no superblock yet; the first commit will be in
the first slot. -/
def unwritten (settings : Settings) (blocks : BlockMap) : Vault :=
  { superblock := Superblock.initial settings.blockSize settings.initialBlocks
    slot := .second
    directory := .empty
    blocks
    settings }

/-- Length, zero bytes in the place of the superblocks, then the first commit. -/
def format (settings : Settings) : Script (Except Error Vault) :=
  let reserved := superblockExtent settings.blockSize
  (Script.done settings.check).andThen fun _ =>
  (Script.setLength (settings.initialBlocks * settings.blockSize.toUInt64).toNat .done).andThen
    fun _ =>
  (Script.write 0 (Bytes.zeros (reserved.capacity settings.blockSize).toNat) .done).andThen
    fun _ =>
  (Script.done ((BlockMap.blank settings.initialBlocks settings.blockSize).claim reserved)).andThen
    fun blocks =>
  (commit .empty (unwritten settings blocks)).bind fun (result, v) =>
  .done (result.map fun _ => v)

/-! ## §4. Verifying and closing. -/

/-- What a check of an open vault finds. -/
structure Report where
  generation : UInt64
  streamCount : Nat
  /-- The blocks that the medium claims. -/
  usedBlocks : UInt64
  /-- Blocks in use that nothing on the medium claims. -/
  leaked : List Nat
deriving DecidableEq, Repr

def Report.isClean (r : Report) : Bool :=
  r.leaked.isEmpty

/-- Compare what the medium says with what is known of the vault. -/
def compare (v : Vault) (x : Survey) : Except Error Report :=
  if x.superblock ≠ v.superblock ∨ x.slot ≠ v.slot then
    .error (.corrupt .superblockDiffers)
  else if x.directory ≠ v.directory then .error (.corrupt .directoryDiffers)
  else
    .ok
      { generation := x.superblock.generation
        streamCount := x.directory.size
        usedBlocks := x.blocks.total - x.blocks.free
        leaked := v.blocks.usedBlocks.filter (!x.blocks.isUsed ·) }

/-- Check the medium under an open vault. -/
def verify : Action Report := do
  let v ← Action.vault
  let x ← Action.call survey
  Action.require (v.compare x)

/-- The last sync; whether it fails or not, the vault is not open after it. -/
def close : Script (Except Error Unit) :=
  .sync .done

end StateVault.Vault
