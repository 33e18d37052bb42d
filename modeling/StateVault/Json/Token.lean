/-
  StateVault.Json.Token
  ─────────────────────
  **THE TOKENS OF A JSON TEXT.**

  Blanks apart, a text is made of six marks, strings, and words.  A word is
  as long a run of letters, digits, signs and points as there is, and must be
  one of three names or a number.

    • `stringFrom` — the rest of a string after its first quote,
    • `number?`    — a word that is a number,
    • `Token.scan` — the tokens of a text.

  Main lemma: `length_stringFrom` (what is left after a string is shorter).
-/
import StateVault.Decimal.Nearest
import StateVault.Json.Value
import StateVault.Text.Hex
import StateVault.Text.Utf16

namespace StateVault.Json

inductive Token where
  | openBrace
  | closeBrace
  | openBracket
  | closeBracket
  | comma
  | colon
  /-- A string, which may be a key. -/
  | string (s : String)
  /-- A name or a number. -/
  | word (v : Json)
deriving Repr

/-! ## §1. Strings. -/

/-- The unit that four hexadecimal digits spell. -/
def unit? (a b c d : Char) : Option UInt16 := do
  let a ← Text.Hex.value? a
  let b ← Text.Hex.value? b
  let c ← Text.Hex.value? c
  let d ← Text.Hex.value? d
  return UInt16.ofNat (((a * 16 + b) * 16 + c) * 16 + d)

/-- What a short escape stands for. -/
def shortEscape? : Char → Option Char
  | '"' => some '"'
  | '\\' => some '\\'
  | '/' => some '/'
  | 'b' => some '\x08'
  | 'f' => some '\x0c'
  | 'n' => some '\n'
  | 'r' => some '\r'
  | 't' => some '\t'
  | _ => none

/-- The characters of a string up to its last quote, after those in `found`,
which are in reverse order; and what stands after that quote.  A high
surrogate must be followed at once by the escape of a low one. -/
def stringFrom (found : List Char) : List Char → Option (List Char × List Char)
  | [] => none
  | '"' :: rest => some (found.reverse, rest)
  | '\\' :: 'u' :: a :: b :: c :: d :: rest =>
      match unit? a b c d with
      | none => none
      | some u =>
          if Text.Utf16.isHigh u then
            match rest with
            | '\\' :: 'u' :: a :: b :: c :: d :: rest =>
                match unit? a b c d with
                | none => none
                | some v =>
                    if Text.Utf16.isLow v then
                      stringFrom (Text.Utf16.paired u v :: found) rest
                    else none
            | _ => none
          else if Text.Utf16.isLow u then none
          else stringFrom (Char.ofNat u.toNat :: found) rest
  | '\\' :: c :: rest =>
      match shortEscape? c with
      | some x => stringFrom (x :: found) rest
      | none => none
  | c :: rest =>
      if c = '\\' ∨ c.toNat < 0x20 then none else stringFrom (c :: found) rest

/-- A string uses up at least the quote that closes it. -/
theorem length_stringFrom {found text s rest : List Char}
    (h : stringFrom found text = some (s, rest)) : rest.length < text.length := by
  fun_induction stringFrom found text <;> simp_all <;> omega

/-! ## §2. Numbers. -/

/-- The number that decimal digits spell. -/
def digitsValue (digits : List Char) : Nat :=
  digits.foldl (fun n c => 10 * n + (c.toNat - 48)) 0

/-- Digits at the start of a text, at least one, and what stands after them. -/
def digits? (text : List Char) : Option (List Char × List Char) :=
  match text.takeWhile Char.isDigit with
  | [] => none
  | ds => some (ds, text.dropWhile Char.isDigit)

/-- The digits before the point: `0` alone, or digits that do not start with
it. -/
def wholeDigits? (text : List Char) : Option (List Char × List Char) :=
  match digits? text with
  | some ('0' :: _ :: _, _) => none
  | r => r

/-- The digits after the point, if there is one. -/
def fraction? : List Char → Option (List Char × List Char)
  | '.' :: rest => digits? rest
  | text => some ([], text)

/-- The exponent, if there is one; it ends the word. -/
def exponent? : List Char → Option (Option Int)
  | [] => some none
  | e :: rest =>
      if e = 'e' ∨ e = 'E' then
        let (negative, digits) := match rest with
          | '-' :: digits => (true, digits)
          | '+' :: digits => (false, digits)
          | digits => (false, digits)
        match digits? digits with
        | some (ds, []) =>
            let n : Int := digitsValue ds
            some (some (if negative then -n else n))
        | _ => none
      else none

/-- A whole number; one that no integer holds, and minus zero, are doubles. -/
def wholeNumber? (negative : Bool) (n : Nat) : Option Json :=
  if negative ∧ n = 0 then (Double.zero? true).map float
  else
    match Integer.ofInt? (if negative then -n else n) with
    | some i => some (integer i)
    | none => (Double.ofDecimal? negative n 0).map float

/-- A number after its sign. -/
def unsigned? (negative : Bool) (text : List Char) : Option Json := do
  let (whole, text) ← wholeDigits? text
  let (fraction, rest) ← fraction? text
  let exponent ← exponent? rest
  if fraction.isEmpty ∧ exponent.isNone then wholeNumber? negative (digitsValue whole)
  else
    let scale := exponent.getD 0 - fraction.length
    (Double.ofDecimal? negative (digitsValue (whole ++ fraction)) scale).map float

/-- The number that a word spells. -/
def number? : List Char → Option Json
  | '-' :: text => unsigned? true text
  | text => unsigned? false text

/-- The value that a word spells. -/
def word? : List Char → Option Json
  | ['n', 'u', 'l', 'l'] => some null
  | ['t', 'r', 'u', 'e'] => some (bool true)
  | ['f', 'a', 'l', 's', 'e'] => some (bool false)
  | text => number? text

/-! ## §3. Texts. -/

/-- Blanks between tokens. -/
def isBlank (c : Char) : Bool :=
  c == ' ' || c == '\t' || c == '\n' || c == '\r'

/-- Letters, digits, signs and points make words. -/
def isWordChar (c : Char) : Bool :=
  c.isAlphanum || c == '-' || c == '+' || c == '.'

/-- The mark that a character is. -/
def mark? : Char → Option Token
  | '\x7b' => some .openBrace
  | '\x7d' => some .closeBrace
  | '[' => some .openBracket
  | ']' => some .closeBracket
  | ',' => some .comma
  | ':' => some .colon
  | _ => none

namespace Token

/-- Dropping a run that starts at the head makes a text shorter. -/
theorem length_dropWhile_lt {p : Char → Bool} {c : Char} {rest : List Char}
    (h : p c = true) : ((c :: rest).dropWhile p).length < (c :: rest).length := by
  rw [List.dropWhile_cons_of_pos h, List.length_cons]
  exact Nat.lt_succ_of_le (List.dropWhile_sublist p).length_le

/-- The tokens of a text, after those in `found`, which are in reverse order. -/
def scanFrom (found : List Token) (text : List Char) : Option (List Token) :=
  match text with
  | [] => some found.reverse
  | c :: rest =>
      if isBlank c then scanFrom found rest
      else if c = '"' then
        match _hs : stringFrom [] rest with
        | some (s, rest) => scanFrom (.string (String.ofList s) :: found) rest
        | none => none
      else if _hw : isWordChar c = true then
        match word? ((c :: rest).takeWhile isWordChar) with
        | some v => scanFrom (.word v :: found) ((c :: rest).dropWhile isWordChar)
        | none => none
      else
        match mark? c with
        | some t => scanFrom (t :: found) rest
        | none => none
termination_by text.length
decreasing_by
  · simp
  · -- what is left after a string
    have := length_stringFrom _hs
    simp only [List.length_cons]
    omega
  · -- what is left after a word
    exact length_dropWhile_lt _hw
  · simp

/-- The tokens of a text, if all of it is tokens and blanks. -/
def scan (text : List Char) : Option (List Token) :=
  scanFrom [] text

end Token

end StateVault.Json
