/-
  StateVault.Superblock.Current
  ─────────────────────────────
  **WHICH OF THE TWO COPIES COUNTS.**

  Two copies of the superblock stand at the start of an image, 512 bytes
  apart.  A commit writes the copy that does not count, so a write cut short
  leaves the other one whole.  Of two copies that can be read the one with
  the higher generation counts, and it must be higher by exactly one.  A copy
  of a newer version is never passed over.
-/
import StateVault.Superblock

namespace StateVault

/-- The places of the two copies. -/
inductive Slot where
  | first
  | second
deriving DecidableEq, Repr

namespace Slot

def other : Slot → Slot
  | first => second
  | second => first

def index : Slot → Nat
  | first => 0
  | second => 1

/-- The byte at which the copy starts. -/
def offset (s : Slot) : Nat :=
  s.index * slotSize

@[simp] theorem other_other (s : Slot) : s.other.other = s := by
  cases s <;> rfl

end Slot

namespace Superblock

/-- A copy of a version that this library cannot read. -/
def versionFault? : Except Error Superblock → Option Error
  | .error (.unsupportedVersion major minor) => some (.unsupportedVersion major minor)
  | _ => none

/-- Choose between two copies as they were read.  Of two that cannot be read
the first one's error is told, unless it is a wrong checksum, which says less
than what is wrong with the second. -/
def choose (first second : Except Error Superblock) : Except Error (Slot × Superblock) :=
  match versionFault? first, versionFault? second with
  | some e, _ => .error e
  | none, some e => .error e
  | none, none =>
      match first, second with
      | .ok a, .ok b =>
          if Word.add? a.generation 1 = some b.generation then .ok (.second, b)
          else if Word.add? b.generation 1 = some a.generation then .ok (.first, a)
          else .error (.corrupt (.generationsApart a.generation b.generation))
      | .ok a, .error _ => .ok (.first, a)
      | .error _, .ok b => .ok (.second, b)
      | .error (.checksum _ _ _), .error e => .error e
      | .error e, .error _ => .error e

/-- One copy of the region at the start of an image. -/
def copyIn (region : ByteArray) (slot : Slot) : Except Error Superblock :=
  decode (Bytes.slice region slot.offset 64)

/-- The copy that counts, with its place. -/
def current (region : ByteArray) : Except Error (Slot × Superblock) :=
  if region.size < regionSize then .error (.corrupt (.regionTooSmall region.size))
  else choose (copyIn region .first) (copyIn region .second)

end Superblock

end StateVault
