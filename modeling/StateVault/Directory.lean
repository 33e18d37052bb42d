/-
  StateVault.Directory
  ────────────────────
  **THE STREAMS OF A VAULT, IN ORDER.**

      offset      size  field
           0         4  number of entries
           4         4  size of an entry (96)
           8    n * 96  entries
      8 + n * 96    24  trailer

  Entries keep the order in which their names came in, so a directory that
  did not change has the same bytes again.

    • `find?`, `insert`, `erase` — the ordered map from names to entries,
    • `encode`, `decode`         — the directory as bytes and back.
-/
import StateVault.Directory.Entry
import StateVault.Directory.Trailer

namespace StateVault

/-- Streams in the order in which their names came in. -/
structure Directory where
  entries : List Entry
deriving DecidableEq, Repr

namespace Directory

/-! ## §1. The ordered map. -/

/-- The number of streams that a directory can hold. -/
def maxEntries : Nat := 64

def empty : Directory := ⟨[]⟩

def size (d : Directory) : Nat :=
  d.entries.length

def find? (d : Directory) (name : String) : Option Entry :=
  d.entries.find? (·.name == name)

def contains (d : Directory) (name : String) : Bool :=
  (d.find? name).isSome

def names (d : Directory) : List String :=
  d.entries.map (·.name)

/-- Replace the first entry of the same name at its place, or add the entry
at the end. -/
def insertIn (e : Entry) : List Entry → List Entry
  | [] => [e]
  | other :: rest => if other.name == e.name then e :: rest else other :: insertIn e rest

/-- The directory with the entry in it. -/
def insert (d : Directory) (e : Entry) : Directory :=
  ⟨insertIn e d.entries⟩

/-- The directory without the first entry of the name; the others keep their
order. -/
def erase (d : Directory) (name : String) : Directory :=
  ⟨d.entries.eraseP (·.name == name)⟩

/-! ## §2. Encoding. -/

/-- The size of a directory of `n` entries. -/
def encodedSize (n : Nat) : Nat :=
  8 + n * Entry.size + Trailer.size

/-- Each name in turn is a stream name and none of the earlier ones. -/
def checkNames (earlier : List String) : List Entry → Except Error Unit
  | [] => .ok ()
  | e :: rest => do
      Name.check e.name
      if earlier.contains e.name then throw (.duplicateName e.name)
      checkNames (e.name :: earlier) rest

/-- The bytes before the trailer. -/
def body (d : Directory) : List UInt8 :=
  Bytes.ofWord32 (UInt32.ofNat d.size) ++ Bytes.ofWord32 (UInt32.ofNat Entry.size)
    ++ d.entries.flatMap Entry.encode

/-- The bytes of the directory, closed for a generation. -/
def encode (d : Directory) (generation : UInt64) : Except Error ByteArray := do
  if maxEntries < d.size then throw (.directoryFull maxEntries)
  checkNames [] d.entries
  return (d.body ++ Trailer.encode d.body generation).toByteArray

/-! ## §3. Decoding. -/

/-- Read `n` more entries after those in `found`, which are in reverse order. -/
def readEntries (blockSize : UInt32) (found : List Entry) : (n : Nat) → Steps (List Entry)
  | 0 => return found.reverse
  | n + 1 => do
      let e ← Entry.read found.length
      if found.any (·.name == e.name) then throw (.duplicateName e.name)
      Cursor.require (e.check blockSize)
      readEntries blockSize (e :: found) n

/-- The number of entries, if it can be right for a buffer of this size. -/
def readCount : Steps Nat := do
  let count := (← Cursor.word32).toNat
  let entrySize ← Cursor.word32
  if entrySize.toNat ≠ Entry.size then throw (.corrupt (.entrySize entrySize))
  if maxEntries < count then throw (.corrupt (.tooManyEntries count))
  let present := (← get).capacity
  if present < encodedSize count then
    throw (.corrupt (.directoryCut count (encodedSize count) present))
  return count

/-- Count, then the trailer with its checksum, then the entries; the answer
is the directory and its generation. -/
def read (blockSize : UInt32) : Steps (Directory × UInt64) := do
  let count ← readCount
  Cursor.seek (8 + count * Entry.size)
  let generation ← Trailer.read
  Cursor.seek 8
  let entries ← readEntries blockSize [] count
  return (⟨entries⟩, generation)

/-- The directory at the start of the given bytes, and its generation; bytes
past the trailer are passed over. -/
def decode (bytes : ByteArray) (blockSize : UInt32) : Except Error (Directory × UInt64) :=
  Cursor.decode (read blockSize) bytes

end Directory

end StateVault
