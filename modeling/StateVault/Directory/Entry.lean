/-
  StateVault.Directory.Entry
  ──────────────────────────
  **ONE STREAM IN THE DIRECTORY.**

      offset  size  field
           0     1  length of the name
           1    63  name (UTF-8, padded with zero bytes)
          64     8  first block
          72     8  number of blocks
          80     8  length in bytes
          88     4  flags
          92     4  reserved
-/
import StateVault.Directory.Flags
import StateVault.Directory.Name
import StateVault.Extent
import StateVault.Cursor

namespace StateVault

/-- A stream: its name, where its bytes are, how many they are, its flags.
The last block holds zero bytes past the stream's end. -/
structure Entry where
  name : String
  extent : Extent
  length : UInt64
  flags : Flags
deriving DecidableEq, Repr

namespace Entry

/-- The size of an entry. -/
def size : Nat := 96

/-- A stream without blocks has no bytes, and one with blocks no more than
they hold. -/
def check (e : Entry) (blockSize : UInt32) : Except Error Unit :=
  if e.extent.isEmpty then
    if e.length = 0 then .ok () else .error (.corrupt (.bytesWithoutBlocks e.name e.length))
  else if e.extent.capacity blockSize < e.length then
    .error (.corrupt (.streamTooLong e.name e.length e.extent.count))
  else .ok ()

/-- The bytes of a name of at most 63 bytes, with its length before and zero
bytes after it. -/
def encodeName (name : String) : List UInt8 :=
  let bytes := name.toUTF8.data.toList
  UInt8.ofNat bytes.length :: bytes ++ List.replicate (Name.maxSize - bytes.length) 0

/-- The 96 bytes of an entry. -/
def encode (e : Entry) : List UInt8 :=
  encodeName e.name
    ++ Bytes.ofWord64 e.extent.start ++ Bytes.ofWord64 e.extent.count
    ++ Bytes.ofWord64 e.length ++ Bytes.ofWord32 e.flags.bits ++ Bytes.ofWord32 0

/-- The name in a slot, for an entry at `index`. -/
def decodeName (index length : Nat) (slot : ByteArray) : Except Error String :=
  if length = 0 ∨ Name.maxSize < length then
    .error (.corrupt (.nameLength index length))
  else if (slot.data.toList.drop length).any (· != 0) then
    .error (.corrupt (.namePadding index))
  else
    match String.fromUTF8? (slot.extract 0 length) with
    | none => .error (.corrupt (.nameEncoding index))
    | some name =>
        match Name.fault? name with
        | some fault => .error (.corrupt (.nameInvalid index fault))
        | none => .ok name

/-- The entry at the cursor, number `index` of its directory. -/
def read (index : Nat) : Steps Entry := do
  let length ← Cursor.word8
  let slot ← Cursor.take Name.maxSize
  let name ← Cursor.require (decodeName index length.toNat slot)
  let start ← Cursor.word64
  let count ← Cursor.word64
  let bytes ← Cursor.word64
  let flags ← Cursor.word32
  let _ ← Cursor.word32
  return ⟨name, ⟨start, count⟩, bytes, ⟨flags⟩⟩

end Entry

end StateVault
