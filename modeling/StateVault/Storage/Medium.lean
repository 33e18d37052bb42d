/-
  StateVault.Storage.Medium
  ─────────────────────────
  **A FLAT RANGE OF BYTES OF KNOWN LENGTH.**

  A vault sees what it lives on as a range of bytes that reads and writes
  never lengthen; only `setLength` does.  Every call answers with a result
  and the medium after it, so that a failing call has a medium after it too.

    • `Medium`        — the five calls, and `isEmpty` by the first of them,
    • `Image`         — the plain byte string, the medium that the others are
                        measured by.
-/
import StateVault.Bytes
import StateVault.Error

namespace StateVault

/-- What a vault can live on. -/
class Medium (μ : Type) where
  /-- The length in bytes. -/
  size : μ → Nat
  /-- The `count` bytes at `offset`. -/
  read : (offset count : Nat) → μ → Except Error ByteArray × μ
  /-- Replace the bytes at `offset`. -/
  write : (offset : Nat) → (data : ByteArray) → μ → Except Error Unit × μ
  /-- Cut, or fill up with zero bytes. -/
  setLength : (length : Nat) → μ → Except Error Unit × μ
  /-- Make the writes so far durable. -/
  sync : μ → Except Error Unit × μ

/-- Whether there is not one byte. -/
def Medium.isEmpty {μ : Type} [Medium μ] (m : μ) : Bool :=
  Medium.size m == 0

/-- A range of `length` bytes at `offset`, checked against a capacity. -/
def within (offset length capacity : Nat) : Except Error Unit :=
  if offset + length ≤ capacity then .ok ()
  else .error (.outOfRange ⟨offset, length, capacity⟩)

/-- The bytes of a vault. -/
abbrev Image := ByteArray

namespace Image

def read (offset count : Nat) (image : Image) : Except Error ByteArray × Image :=
  match within offset count image.size with
  | .ok _ => (.ok (Bytes.slice image offset count), image)
  | .error e => (.error e, image)

def write (offset : Nat) (data : ByteArray) (image : Image) : Except Error Unit × Image :=
  match within offset data.size image.size with
  | .ok _ => (.ok (), Bytes.overlay image offset data)
  | .error e => (.error e, image)

instance : Medium Image where
  size := ByteArray.size
  read := Image.read
  write := Image.write
  setLength length image := (.ok (), Bytes.resized image length)
  sync image := (.ok (), image)

end Image

end StateVault
