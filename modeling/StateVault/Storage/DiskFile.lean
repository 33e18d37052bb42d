/-
  StateVault.Storage.DiskFile
  ───────────────────────────
  **AN IMAGE IN A FILE.**

  A file is a string of bytes that the system reads and writes at a place.
  It reads only what is there, and a write past the end lengthens it.  An
  open image remembers the length that it last set or found, and checks
  every range against that before it asks the system.
-/
import StateVault.Storage.Medium

namespace StateVault

/-! ## §1. What the system does. -/

namespace SystemFile

/-- Read exactly `count` bytes at a place; too few are an error. -/
def fetch (content : ByteArray) (place count : Nat) : Except Error ByteArray :=
  if count = 0 ∨ place + count ≤ content.size then .ok (Bytes.slice content place count)
  else .error .device

/-- Write bytes at a place; a gap before it is filled with zero bytes. -/
def store (content : ByteArray) (place : Nat) (data : ByteArray) : ByteArray :=
  if data.size = 0 then content
  else if place + data.size ≤ content.size then Bytes.overlay content place data
  else Bytes.overlay (Bytes.resized content (place + data.size)) place data

end SystemFile

/-! ## §2. The open image. -/

/-- The content of a file, and the length that its image is taken to have. -/
structure DiskFile where
  content : ByteArray
  length : Nat

namespace DiskFile

/-- A new file, or an old one with nothing left in it. -/
def create : DiskFile :=
  ⟨ByteArray.empty, 0⟩

/-- A file that may not be there. -/
def openExisting : Option ByteArray → Except Error DiskFile
  | none => .error .device
  | some content => .ok ⟨content, content.size⟩

def read (place count : Nat) (f : DiskFile) : Except Error ByteArray × DiskFile :=
  match within place count f.length with
  | .error e => (.error e, f)
  | .ok _ => (SystemFile.fetch f.content place count, f)

def write (place : Nat) (data : ByteArray) (f : DiskFile) : Except Error Unit × DiskFile :=
  match within place data.size f.length with
  | .error e => (.error e, f)
  | .ok _ => (.ok (), { f with content := SystemFile.store f.content place data })

instance : Medium DiskFile where
  size f := f.length
  read := DiskFile.read
  write := DiskFile.write
  setLength length f := (.ok (), ⟨Bytes.resized f.content length, length⟩)
  sync f := (.ok (), f)

end DiskFile

end StateVault
