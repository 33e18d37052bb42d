/-
  StateVault.Directory.Trailer
  ────────────────────────────
  **THE RECORD THAT CLOSES A DIRECTORY.**

      size  field
         8  end marker
         8  generation
         4  checksum of every byte of the directory before it
         4  reserved

  The generation ties the directory to the superblock of one commit.  A
  trailer is written and read field by field at a cursor: fields that fit
  before a failing one stay written.
-/
import StateVault.Checksum
import StateVault.Cursor

namespace StateVault.Trailer

/-- The eight bytes every trailer starts with, `VMGSFTBL`. -/
def magic : List UInt8 := [0x56, 0x4d, 0x47, 0x53, 0x46, 0x54, 0x42, 0x4c]

/-- The size of a trailer. -/
def size : Nat := 24

/-- Marker and generation, the part of a trailer under its checksum. -/
def signed (generation : UInt64) : List UInt8 :=
  magic ++ Bytes.ofWord64 generation

/-- The trailer of a directory whose bytes before it are `body`. -/
def encode (body : List UInt8) (generation : UInt64) : List UInt8 :=
  signed generation
    ++ Bytes.ofWord32 (Checksum.ofList (body ++ signed generation))
    ++ Bytes.ofWord32 0

/-- Write a trailer at the cursor; its checksum covers all bytes of the
buffer before it. -/
def write (generation : UInt64) : Steps Unit := do
  Cursor.put magic.toByteArray
  Cursor.putWord64 generation
  let checksum := Checksum.ofBytes (← get).passed
  Cursor.putWord32 checksum
  Cursor.putWord32 0

/-- Read the trailer at a cursor over a whole directory; the answer is its
generation. -/
def read : Steps UInt64 := do
  if (← Cursor.take 8).data.toList ≠ magic then throw (.corrupt .endMarkerMissing)
  let generation ← Cursor.word64
  let computed := Checksum.ofBytes (← get).passed
  let stored ← Cursor.word32
  if stored ≠ computed then throw (.checksum .directory stored computed)
  let _ ← Cursor.word32
  return generation

end StateVault.Trailer
