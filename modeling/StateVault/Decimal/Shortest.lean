/-
  StateVault.Decimal.Shortest
  ───────────────────────────
  **THE FEWEST DIGITS THAT READ BACK.**

  Around a double lie the reals that are nearer to it than to any other
  double; half-way points belong to it when its significand is even.  For
  one, two, … digits the two decimals next to the double are tried, and the
  first that lies among those reals is taken, of two such the nearer.

    • `readsBack`  — whether a decimal lies among those reals,
    • `candidate?` — the decimal of so many digits that does,
    • `ofDouble`   — digits and exponent in scientific form.
-/
import StateVault.Decimal.Double

namespace StateVault

/-- A decimal in scientific form: the point stands after the first digit. -/
structure Scientific where
  negative : Bool
  digits : List Char
  exponent : Int
deriving DecidableEq, Repr

namespace Shortest

/-! ## §1. Exact comparison. -/

/-- Compare `a · 10 ^ i` with `b · 2 ^ j`. -/
def compareScaled (a : Nat) (i : Int) (b : Nat) (j : Int) : Ordering :=
  compare ((a * Nat.pow 10 i.toNat) <<< (-j).toNat) ((b * Nat.pow 10 (-i).toNat) <<< j.toNat)

/-- Whether `c · 10 ^ g` lies between the half-way points around a double.
In quarters of its last place they are 2 above it and 2 below, or 1 below
where the doubles below are closer. -/
def readsBack (x : Double) (c : Nat) (g : Int) : Bool :=
  let m := 4 * x.significand
  let j := x.exponent - 2
  let even := x.significand % 2 == 0
  let low := compareScaled c g (if x.isNarrowBelow then m - 1 else m - 2) j
  let high := compareScaled c g (m + 2) j
  (low == .gt || even && low == .eq) && (high == .lt || even && high == .eq)

/-! ## §2. The search. -/

/-- The least `k` with `x < 10 ^ k`, for a positive `x`: the binary order
gives a guess that is off by one at most. -/
def decimalOrder (x : Double) : Int :=
  let guess := ((x.significand.log2 : Int) + x.exponent) * 30103 / 100000
  let above := fun k : Int => compareScaled 1 k x.significand x.exponent == .gt
  ([guess - 1, guess, guess + 1].find? above).getD (guess + 2)

/-- The whole part of `x / 10 ^ g`. -/
def wholePart (x : Double) (g : Int) : Nat :=
  ((x.significand * Nat.pow 10 (-g).toNat) <<< x.exponent.toNat)
    / (Nat.pow 10 g.toNat <<< (-x.exponent).toNat)

/-- The multiple of `10 ^ g` next to `x` that reads back as `x`, if one does;
of two the nearer, and the larger if they are equally near. -/
def candidate? (x : Double) (g : Int) : Option Nat :=
  let c := wholePart x g
  match readsBack x c g, readsBack x (c + 1) g with
  | true, true =>
      if compareScaled (2 * c + 1) g (2 * x.significand) x.exponent == .gt then some c
      else some (c + 1)
  | true, false => some c
  | false, true => some (c + 1)
  | false, false => none

/-- Try `n` digits, then more, up to `left` lengths; the answer is a whole
number and the power of ten that it is scaled by.  Beyond that the double is
written out exactly. -/
def search (x : Double) (order : Int) (n : Nat) : (left : Nat) → Nat × Int
  | 0 =>
      ((x.significand * Nat.pow 5 (-x.exponent).toNat) <<< x.exponent.toNat, min x.exponent 0)
  | left + 1 =>
      let g := order - n
      match candidate? x g with
      | some c => (c, g)
      | none => search x order (n + 1) left

/-! ## §3. Digits. -/

/-- Digits without the zeros at their end. -/
def dropZeros (digits : List Char) : List Char :=
  (digits.reverse.dropWhile (· == '0')).reverse

/-- The fewest digits that read back as a double, the nearest of those. -/
def ofDouble (x : Double) : Scientific :=
  if x.significand = 0 then ⟨x.isNegative, ['0'], 0⟩
  else
    let (c, g) := search x (decimalOrder x) 1 17
    let digits := Nat.toDigits 10 c
    ⟨x.isNegative, dropZeros digits, g + digits.length - 1⟩

end Shortest

end StateVault
