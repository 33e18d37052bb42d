/-
  StateVault.Directory.Flags
  ──────────────────────────
  **ATTRIBUTE BITS OF A STREAM.**

  A stream carries 32 bits that mean something to its readers only.  Three
  of them have names; the others are kept as they are.
-/

namespace StateVault

structure Flags where
  bits : UInt32
deriving DecidableEq, Repr

namespace Flags

def none : Flags := ⟨0⟩

/-- The stream holds key-protector material. -/
def keyProtector : Flags := ⟨1⟩

/-- The payload is encrypted by its writer. -/
def encrypted : Flags := ⟨2⟩

/-- The payload carries an authentication tag of its writer. -/
def authenticated : Flags := ⟨4⟩

def isEmpty (f : Flags) : Bool :=
  f.bits == 0

/-- Whether all bits of `g` are set in `f`. -/
def contains (f g : Flags) : Bool :=
  f.bits &&& g.bits == g.bits

def union (f g : Flags) : Flags :=
  ⟨f.bits ||| g.bits⟩

def remove (f g : Flags) : Flags :=
  ⟨f.bits &&& ~~~ g.bits⟩

end Flags

end StateVault
