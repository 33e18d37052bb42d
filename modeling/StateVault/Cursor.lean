/-
  StateVault.Cursor
  ─────────────────
  **A PLACE IN A BUFFER OF FIXED SIZE.**

  A step of a cursor either has all its bytes within the buffer, or fails
  with the range that it asked for and leaves cursor and buffer as they were.
  The cursor outlives a failure: a codec that stops half way shows where it
  stopped and what it wrote.

    • reading: `take`, `word8` … `word64`,
    • writing: `put`, `putWord8` … `putWord64`, `fill`, `align`.
-/
import StateVault.Bytes
import StateVault.Error

namespace StateVault

/-- A buffer and a position in it. -/
structure Cursor where
  buffer : ByteArray
  position : Nat

/-- Steps of a cursor; it survives a failing step. -/
abbrev Steps := EStateM Error Cursor

namespace Cursor

/-! ## §1. Views. -/

/-- The start of a buffer. -/
def ofBytes (bytes : ByteArray) : Cursor :=
  ⟨bytes, 0⟩

def capacity (c : Cursor) : Nat :=
  c.buffer.size

/-- The bytes between the cursor and the end. -/
def remaining (c : Cursor) : Nat :=
  c.capacity - c.position

/-- The bytes before the cursor. -/
def passed (c : Cursor) : ByteArray :=
  c.buffer.extract 0 c.position

/-- The error of a range that the buffer does not hold. -/
def overrun (c : Cursor) (offset length : Nat) : Error :=
  .outOfRange ⟨offset, length, c.capacity⟩

/-- Run steps from the start of a buffer and forget the cursor. -/
def decode {α : Type} (steps : Steps α) (bytes : ByteArray) : Except Error α :=
  match steps.run (ofBytes bytes) with
  | .ok a _ => .ok a
  | .error e _ => .error e

/-- A check between steps; it moves nothing. -/
def require {α : Type} : Except Error α → Steps α
  | .ok a => fun c => .ok a c
  | .error e => fun c => .error e c

/-! ## §2. Moving and reading. -/

/-- Move to an absolute position; the end of the buffer is one. -/
def seek (position : Nat) : Steps Unit := fun c =>
  if position ≤ c.capacity then .ok () { c with position }
  else .error (c.overrun position 0) c

/-- The next `n` bytes. -/
def take (n : Nat) : Steps ByteArray := fun c =>
  if c.position + n ≤ c.capacity then
    .ok (Bytes.slice c.buffer c.position n) { c with position := c.position + n }
  else .error (c.overrun c.position n) c

def word8 : Steps UInt8 := do
  return UInt8.ofNat (Bytes.value (← take 1))

def word16 : Steps UInt16 := do
  return UInt16.ofNat (Bytes.value (← take 2))

def word32 : Steps UInt32 := do
  return UInt32.ofNat (Bytes.value (← take 4))

def word64 : Steps UInt64 := do
  return UInt64.ofNat (Bytes.value (← take 8))

/-! ## §3. Writing. -/

/-- Replace the next bytes. -/
def put (bytes : ByteArray) : Steps Unit := fun c =>
  if c.position + bytes.size ≤ c.capacity then
    .ok () ⟨Bytes.overlay c.buffer c.position bytes, c.position + bytes.size⟩
  else .error (c.overrun c.position bytes.size) c

def putWord8 (w : UInt8) : Steps Unit :=
  put [w].toByteArray

def putWord16 (w : UInt16) : Steps Unit :=
  put (Bytes.ofWord16 w).toByteArray

def putWord32 (w : UInt32) : Steps Unit :=
  put (Bytes.ofWord32 w).toByteArray

def putWord64 (w : UInt64) : Steps Unit :=
  put (Bytes.ofWord64 w).toByteArray

/-- Write `n` zero bytes; `n` is compared with the space left before any byte
is made. -/
def fill (n : Nat) : Steps Unit := fun c =>
  if c.position + n ≤ c.capacity then
    .ok () ⟨Bytes.overlay c.buffer c.position (Bytes.zeros n), c.position + n⟩
  else .error (c.overrun c.position n) c

/-- Filling is putting zero bytes. -/
theorem fill_eq_put (n : Nat) : fill n = put (Bytes.zeros n) := by
  funext c
  simp only [fill, put, Bytes.size_zeros]

/-- Write zero bytes up to the next multiple of `alignment`; a cursor that
stands on one stays there, and so does every cursor when `alignment` is 0. -/
def align (alignment : Nat) : Steps Unit := fun c =>
  if alignment = 0 ∨ c.position % alignment = 0 then .ok () c
  else fill (alignment - c.position % alignment) c

end Cursor

end StateVault
