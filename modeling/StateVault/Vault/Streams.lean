/-
  StateVault.Vault.Streams
  ────────────────────────
  **READING, WRITING AND DELETING STREAMS.**

  A stream is written into free blocks, and its old blocks become free only
  after the commit that makes the new ones current.  An action that fails
  leaves the streams as they were.
-/
import StateVault.Vault.Commit

namespace StateVault.Vault

/-- The entry of a stream, or the error that there is none. -/
def entry (v : Vault) (name : String) : Except Error Entry :=
  match v.directory.find? name with
  | some e => .ok e
  | none => .error (.noSuchStream name)

def contains (v : Vault) (name : String) : Bool :=
  v.directory.contains name

/-- The streams in the order of the directory. -/
def streams (v : Vault) : List Entry :=
  v.directory.entries

/-- The bytes of a stream. -/
def read (name : String) : Action ByteArray := do
  let v ← Action.vault
  let e ← Action.require (v.entry name)
  if e.extent.isEmpty then return ByteArray.empty
  else
    let blocks ← Action.read (v.blockOffset e.extent.start) (e.extent.capacity v.blockSize).toNat
    return blocks.extract 0 e.length.toNat

/-- Whether a directory has a place for a name. -/
def checkPlace (d : Directory) (name : String) : Except Error Unit := do
  Name.check name
  if !d.contains name ∧ Directory.maxEntries ≤ d.size then
    throw (.directoryFull Directory.maxEntries)

/-- Create a stream or replace it, with the given flags. -/
def writeWith (name : String) (data : ByteArray) (flags : Flags) : Action Unit := do
  let v ← Action.vault
  Action.require (checkPlace v.directory name)
  let old := v.directory.find? name
  let extent ← allocate data.size
  let e : Entry := ⟨name, extent, UInt64.ofNat data.size, flags⟩
  Action.onError
    (do
      fill extent data
      commit (v.directory.insert e))
    (released extent)
  -- the old blocks stay in use until the new ones are current
  match old with
  | some previous => Action.modify (released previous.extent)
  | none => return ()

/-- Create a stream, or replace it and keep its flags. -/
def write (name : String) (data : ByteArray) : Action Unit := do
  let v ← Action.vault
  let flags := match v.directory.find? name with
    | some e => e.flags
    | none => Flags.none
  writeWith name data flags

/-- Remove a stream; its blocks become free. -/
def delete (name : String) : Action Unit := do
  let v ← Action.vault
  let e ← Action.require (v.entry name)
  commit (v.directory.erase name)
  Action.modify (released e.extent)

end StateVault.Vault
