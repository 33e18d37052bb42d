/-
  StateVault.Decimal.Double
  ─────────────────────────
  **FINITE BINARY NUMBERS OF DOUBLE WIDTH.**

  A double is a 64-bit pattern whose exponent field is not all ones, so no
  infinity and no NaN is one.  It stands for `± significand · 2 ^ exponent`,
  all exact; nothing here computes with machine floats.
-/

namespace StateVault

/-- A finite double, by its bits. -/
structure Double where
  bits : UInt64
  isFinite : bits &&& 0x7FF0000000000000 ≠ 0x7FF0000000000000
deriving DecidableEq

namespace Double

/-- The double with the given bits, if they are those of a finite one. -/
def ofBits? (bits : UInt64) : Option Double :=
  if h : bits &&& 0x7FF0000000000000 ≠ 0x7FF0000000000000 then some ⟨bits, h⟩ else none

/-- Positive zero. -/
def zero : Double :=
  ⟨0, by decide⟩

def isNegative (x : Double) : Bool :=
  x.bits >>> 63 == 1

def exponentField (x : Double) : Nat :=
  ((x.bits >>> 52) &&& 0x7FF).toNat

def fraction (x : Double) : Nat :=
  (x.bits &&& 0x000FFFFFFFFFFFFF).toNat

/-- The whole number that is scaled: the fraction, with the bit before it
unless the exponent field is 0. -/
def significand (x : Double) : Nat :=
  if x.exponentField = 0 then x.fraction else 0x10000000000000 + x.fraction

/-- The power of two that it is scaled by. -/
def exponent (x : Double) : Int :=
  max (x.exponentField : Int) 1 - 1075

/-- Whether the next smaller double is only half as far away as the next
larger one, as it is above a power of two. -/
def isNarrowBelow (x : Double) : Bool :=
  x.fraction == 0 && 1 < x.exponentField

instance : Repr Double where
  reprPrec x _ := repr x.bits

end Double

end StateVault
