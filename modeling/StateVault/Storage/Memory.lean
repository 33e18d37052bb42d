/-
  StateVault.Storage.Memory
  ─────────────────────────
  **AN IMAGE IN MEMORY.**

  The image is the buffer of one cursor that every call moves to its range
  first.  A new length makes a new cursor.
-/
import StateVault.Cursor
import StateVault.Storage.Medium

namespace StateVault

structure Memory where
  cursor : Cursor

namespace Memory

/-- An image as it was handed in. -/
def ofImage (image : Image) : Memory :=
  ⟨Cursor.ofBytes image⟩

def empty : Memory :=
  ofImage ByteArray.empty

def image (m : Memory) : Image :=
  m.cursor.buffer

/-- Check a range, go there, and take a step. -/
def access {α : Type} (offset length : Nat) (step : Steps α) (m : Memory) :
    Except Error α × Memory :=
  match within offset length m.cursor.capacity with
  | .error e => (.error e, m)
  | .ok _ =>
      match (do Cursor.seek offset; step).run m.cursor with
      | .ok a cursor => (.ok a, ⟨cursor⟩)
      | .error e cursor => (.error e, ⟨cursor⟩)

instance : Medium Memory where
  size m := m.cursor.capacity
  read offset count := access offset count (Cursor.take count)
  write offset data := access offset data.size (Cursor.put data)
  setLength length m := (.ok (), ofImage (Bytes.resized m.image length))
  sync m := (.ok (), m)

end Memory

end StateVault
