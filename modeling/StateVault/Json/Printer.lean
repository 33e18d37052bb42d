/-
  StateVault.Json.Printer
  ───────────────────────
  **JSON AS PRINTABLE ASCII.**

  A value is written on one line, with a blank after each comma and each
  colon.  In strings the quote, the backslash and five control characters
  have short escapes.  Every other character outside the printable ASCII
  ones is written as its 16-bit units, each in four lower-case hexadecimal
  digits.

    • `escaped`, `quoted` — characters and strings,
    • `floatLayout`       — how doubles are written,
    • `render`            — values.
-/
import StateVault.Decimal.Layout
import StateVault.Json.Value
import StateVault.Text.Hex
import StateVault.Text.Utf16

namespace StateVault.Json

/-! ## §1. Strings. -/

/-- A 16-bit unit as an escape. -/
def unitEscape (u : UInt16) : List Char :=
  '\\' :: 'u' :: Text.Hex.digits 4 u.toNat

/-- A character as it stands in a string. -/
def escaped (c : Char) : List Char :=
  match c with
  | '"' => ['\\', '"']
  | '\\' => ['\\', '\\']
  | '\x08' => ['\\', 'b']
  | '\x0c' => ['\\', 'f']
  | '\n' => ['\\', 'n']
  | '\r' => ['\\', 'r']
  | '\t' => ['\\', 't']
  | c =>
      if 0x20 ≤ c.toNat ∧ c.toNat < 0x7f then [c]
      else (Text.Utf16.unitsOf c).flatMap unitEscape

/-- A string between its quotes. -/
def quoted (s : String) : List Char :=
  '"' :: s.toList.flatMap escaped ++ ['"']

/-! ## §2. Numbers. -/

/-- A whole number in decimal digits. -/
def integerText (n : Int) : List Char :=
  if n < 0 then '-' :: Nat.toDigits 10 n.natAbs else Nat.toDigits 10 n.natAbs

/-- Doubles are written positionally from `0.0001` up to below `10 ^ 16`, and
otherwise with a signed exponent of at least two digits. -/
def floatLayout : Layout :=
  { lowest := -4, highest := 15, exponentWidth := 2 }

/-- A double in the fewest digits that read back as it. -/
def floatText (x : Double) : List Char :=
  floatLayout.text (Shortest.ofDouble x)

/-! ## §3. Values. -/

mutual

/-- The text of a value. -/
def render : Json → List Char
  | null => ['n', 'u', 'l', 'l']
  | bool true => ['t', 'r', 'u', 'e']
  | bool false => ['f', 'a', 'l', 's', 'e']
  | integer n => integerText n.val
  | float x => floatText x
  | string s => quoted s
  | array [] => ['[', ']']
  | array (v :: rest) => '[' :: render v ++ renderItems rest ++ [']']
  | object [] => ['\x7b', '\x7d']
  | object ((k, v) :: rest) =>
      '\x7b' :: quoted k ++ ':' :: ' ' :: render v ++ renderMembers rest ++ ['\x7d']

/-- The items after the first one, each with the comma before it. -/
def renderItems : List Json → List Char
  | [] => []
  | v :: rest => ',' :: ' ' :: render v ++ renderItems rest

/-- The members after the first one, each with the comma before it. -/
def renderMembers : List (String × Json) → List Char
  | [] => []
  | (k, v) :: rest =>
      ',' :: ' ' :: quoted k ++ ':' :: ' ' :: render v ++ renderMembers rest

end

end StateVault.Json
