/-
  StateVault.Decimal.Nearest
  ──────────────────────────
  **THE DOUBLE NEAREST TO A RATIO.**

  A ratio of whole numbers goes to the nearest double, and half way between
  two to the one with the even significand.  What is too large for a double
  goes to none.  A decimal numeral is such a ratio.

    • `Double.ofRatio?`   — the double nearest to `num / den`,
    • `Double.ofDecimal?` — the double nearest to `digits · 10 ^ exponent`.
-/
import StateVault.Decimal.Double

namespace StateVault.Double

/-- The quotient, rounded to nearest, a half to the even neighbour. -/
def roundDiv (num den : Nat) : Nat :=
  let q := num / den
  let twice := 2 * (num % den)
  if twice < den then q
  else if den < twice then q + 1
  else q + q % 2

/-- The `k` with `2 ^ k ≤ num / den < 2 ^ (k + 1)`. -/
def binaryOrder (num den : Nat) : Int :=
  let k : Int := (num.log2 : Int) - den.log2
  if num <<< (-k).toNat < den <<< k.toNat then k - 1 else k

/-- The sign bit. -/
def signBit (negative : Bool) : UInt64 :=
  if negative then 0x8000000000000000 else 0

/-- Zero, of either sign. -/
def zero? (negative : Bool) : Option Double :=
  ofBits? (signBit negative)

/-- The double nearest to `num / den`.  With 53 significant bits, or as many
as the least exponent leaves, the rounded significand and the exponent add up
to the bits; a carry out of the significand goes into the exponent. -/
def ofRatio? (negative : Bool) (num den : Nat) : Option Double :=
  if num = 0 then zero? negative
  else
    let order := binaryOrder num den
    if 1023 < order then none
    else
      -- the place of the last bit, never below that of the least double
      let q := max (order - 52) (-1074)
      let m := roundDiv (num <<< (-q).toNat) (den <<< q.toNat)
      ofBits? (signBit negative ||| UInt64.ofNat ((q + 1074).toNat <<< 52 + m))

/-- The double nearest to `digits · 10 ^ exponent`.  Powers that are far
beyond the largest double, or far below the smallest one, are not computed. -/
def ofDecimal? (negative : Bool) (digits : Nat) (exponent : Int) : Option Double :=
  if digits = 0 then zero? negative
  else if 400 < exponent then none
  else if exponent + digits.log2 < -400 then zero? negative
  else ofRatio? negative (digits * Nat.pow 10 exponent.toNat) (Nat.pow 10 (-exponent).toNat)

end StateVault.Double
