/-
  StateVault.Text.Hex
  ───────────────────
  **NUMBERS IN LOWER-CASE HEXADECIMAL.**

  `Hex.fixed w n` is the last `w` digits of `n`, the most significant first;
  digits past the width are dropped.  `Hex.value?` reads one digit of either
  case, and what `Hex.digit` writes (`value?_digit`).
-/

namespace StateVault.Text.Hex

/-- The digit of `d`, lower case. -/
def digit (d : Nat) : Char :=
  Nat.digitChar (d % 16)

/-- The last `width` hexadecimal digits of `n`, most significant first. -/
def digits : (width : Nat) → (n : Nat) → List Char
  | 0, _ => []
  | w + 1, n => digits w (n / 16) ++ [digit n]

/-- `digits` as text. -/
def fixed (width n : Nat) : String :=
  String.ofList (digits width n)

/-- The digits of `n` without leading zeros; `0` has one digit. -/
def plain (n : Nat) : List Char :=
  Nat.toDigits 16 n

/-- The value of one digit, of either case. -/
def value? (c : Char) : Option Nat :=
  if '0' ≤ c ∧ c ≤ '9' then some (c.toNat - 48)
  else if 'a' ≤ c ∧ c ≤ 'f' then some (c.toNat - 87)
  else if 'A' ≤ c ∧ c ≤ 'F' then some (c.toNat - 55)
  else none

/-- A digit that is written is read as itself. -/
theorem value?_digit : ∀ d, d < 16 → value? (digit d) = some d := by
  decide

end StateVault.Text.Hex
