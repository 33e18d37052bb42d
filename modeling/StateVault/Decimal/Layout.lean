/-
  StateVault.Decimal.Layout
  ─────────────────────────
  **WHERE THE POINT GOES.**

  A decimal in scientific form is written positionally when its exponent is
  small, and with an exponent otherwise.  Either way the text holds a point
  or an exponent, so that it is never taken for a whole number.
-/
import StateVault.Decimal.Shortest

namespace StateVault

/-- Decisions on how decimals are written. -/
structure Layout where
  /-- The least exponent that is written positionally. -/
  lowest : Int
  /-- The greatest exponent that is written positionally. -/
  highest : Int
  /-- The least number of digits of a written exponent. -/
  exponentWidth : Nat
deriving DecidableEq, Repr

namespace Layout

def zeros (n : Nat) : List Char :=
  List.replicate n '0'

/-- The point within the digits, or among zeros before or after them. -/
def positional (digits : List Char) (exponent : Int) : List Char :=
  if exponent < 0 then
    '0' :: '.' :: zeros (-exponent - 1).toNat ++ digits
  else
    let point := exponent.toNat + 1
    if digits.length ≤ point then digits ++ zeros (point - digits.length) ++ ['.', '0']
    else digits.take point ++ '.' :: digits.drop point

/-- A signed exponent of at least so many digits. -/
def exponentText (l : Layout) (exponent : Int) : List Char :=
  let digits := Nat.toDigits 10 exponent.natAbs
  (if exponent < 0 then '-' else '+') :: zeros (l.exponentWidth - digits.length) ++ digits

/-- One digit, the others after a point if there are any, then the exponent. -/
def scientific (l : Layout) (digits : List Char) (exponent : Int) : List Char :=
  let rest := digits.drop 1
  digits.take 1 ++ (if rest.isEmpty then [] else '.' :: rest) ++ 'e' :: l.exponentText exponent

/-- The text of a decimal. -/
def text (l : Layout) (s : Scientific) : List Char :=
  let body :=
    if l.lowest ≤ s.exponent ∧ s.exponent ≤ l.highest then positional s.digits s.exponent
    else l.scientific s.digits s.exponent
  if s.negative then '-' :: body else body

end Layout

end StateVault
