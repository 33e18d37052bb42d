/-
  StateVault.Settings.Toml
  ────────────────────────
  **SETTINGS FROM A TOML DOCUMENT.**

      block_size = 4096
      initial_blocks = 256
      auto_grow = true
      max_blocks = 65536

  A settings document can only have these four keys, at the top level, each
  at most once, with integers and truth values.  Whatever else TOML has
  (tables, dotted keys, strings, floats, dates, arrays) can stand in no
  acceptable document, so it is not read here but refused with the rest.

    • `lines`      — the lines of a document,
    • `key?`       — a key, bare or in either kind of quotes,
    • `Scalar.ofText?` — an integer in four notations, or a truth value,
    • `Settings.ofToml`  — the settings; what is missing has its standard value.
-/
import StateVault.Settings
import StateVault.Text.Hex

namespace StateVault.Toml

/-! ## §1. Lines. -/

/-- A line without the carriage return that belonged to its line feed. -/
def dropReturn (line : List Char) : List Char :=
  if line.getLast? = some '\r' then line.dropLast else line

/-- The lines of a text.  `line` holds the current one in reverse order.  A
line ends in a line feed, which may have one carriage return before it; the
last line ends with the text. -/
def linesFrom (line : List Char) : List Char → List (List Char)
  | [] => [line.reverse]
  | '\n' :: rest => dropReturn line.reverse :: linesFrom [] rest
  | c :: rest => linesFrom (c :: line) rest

/-- The lines of a document; a byte order mark before it is passed over. -/
def lines : List Char → List (List Char)
  | '\ufeff' :: rest => linesFrom [] rest
  | text => linesFrom [] text

/-- Blanks within a line are spaces and tabs. -/
def isBlank (c : Char) : Bool :=
  c == ' ' || c == '\t'

/-- What may stand in a comment: anything but control characters other than
the tab. -/
def isCommentChar (c : Char) : Bool :=
  c == '\t' || (0x20 ≤ c.toNat && c.toNat ≠ 0x7f)

/-- Blanks, then nothing or a comment: how every line ends. -/
def isLineEnd (text : List Char) : Bool :=
  match text.dropWhile isBlank with
  | [] => true
  | '#' :: comment => comment.all isCommentChar
  | _ => false

/-! ## §2. Keys. -/

def isBareKeyChar (c : Char) : Bool :=
  c.isAlphanum || c == '_' || c == '-'

/-- The character with a number, if it is one and no surrogate. -/
def scalar? (n : Nat) : Option Char :=
  if n.isValidChar then some (Char.ofNat n) else none

/-- The number that hexadecimal digits spell. -/
def hexNumber? (digits : List Char) : Option Nat :=
  digits.foldlM (fun n c => (Text.Hex.value? c).map (16 * n + ·)) 0

/-- A key in double quotes, after the first one: its characters, and what
stands after the second quote. -/
def doubleQuoted? : List Char → Option (List Char × List Char)
  | [] => none
  | '"' :: rest => some ([], rest)
  | '\\' :: 'u' :: a :: b :: c :: d :: rest => do
      let x ← scalar? (← hexNumber? [a, b, c, d])
      let (key, rest) ← doubleQuoted? rest
      return (x :: key, rest)
  | '\\' :: 'U' :: a :: b :: c :: d :: e :: f :: g :: h :: rest => do
      let x ← scalar? (← hexNumber? [a, b, c, d, e, f, g, h])
      let (key, rest) ← doubleQuoted? rest
      return (x :: key, rest)
  | '\\' :: c :: rest => do
      let x ← match c with
        | 'b' => some '\x08'
        | 't' => some '\t'
        | 'n' => some '\n'
        | 'f' => some '\x0c'
        | 'r' => some '\r'
        | '"' => some '"'
        | '\\' => some '\\'
        | _ => none
      let (key, rest) ← doubleQuoted? rest
      return (x :: key, rest)
  | c :: rest =>
      if isCommentChar c && c != '\\' then do
        let (key, rest) ← doubleQuoted? rest
        return (c :: key, rest)
      else none

/-- The key at the start of a line, and what stands after it. -/
def key? : List Char → Option (List Char × List Char)
  | '"' :: rest => doubleQuoted? rest
  | '\x27' :: rest =>
      let key := rest.takeWhile (· != '\x27')
      match rest.dropWhile (· != '\x27') with
      | [] => none
      | _ :: rest => if key.all isCommentChar then some (key, rest) else none
  | text =>
      let key := text.takeWhile isBareKeyChar
      if key.isEmpty then none else some (key, text.dropWhile isBareKeyChar)

/-! ## §3. Values. -/

inductive Scalar where
  | integer (n : Int)
  | truth (b : Bool)
deriving DecidableEq, Repr

/-- The number that digits of a base spell, with single underscores between
digits.  `n` is what stood before, and `afterDigit` whether it ended in a digit. -/
def digitsFrom? (base : Nat) (n : Nat) (afterDigit : Bool) : List Char → Option Nat
  | [] => if afterDigit then some n else none
  | '_' :: rest => if afterDigit then digitsFrom? base n false rest else none
  | c :: rest =>
      match Text.Hex.value? c with
      | some d => if d < base then digitsFrom? base (base * n + d) true rest else none
      | none => none

/-- A number without a sign: digits of a base that is named before them, or
decimal ones without a leading zero. -/
def decimal? (text : List Char) : Option Nat :=
  match text with
  | '0' :: _ :: _ => none
  | _ => digitsFrom? 10 0 false text

/-- The integers that a document can hold. -/
def integer? (n : Int) : Option Scalar :=
  if -0x8000000000000000 ≤ n ∧ n < 0x8000000000000000 then some (.integer n) else none

/-- A value as it stands between blanks. -/
def Scalar.ofText? : List Char → Option Scalar
  | ['t', 'r', 'u', 'e'] => some (.truth true)
  | ['f', 'a', 'l', 's', 'e'] => some (.truth false)
  | '0' :: 'x' :: digits => (digitsFrom? 16 0 false digits).bind (integer? ·)
  | '0' :: 'o' :: digits => (digitsFrom? 8 0 false digits).bind (integer? ·)
  | '0' :: 'b' :: digits => (digitsFrom? 2 0 false digits).bind (integer? ·)
  | '+' :: digits => (decimal? digits).bind (integer? ·)
  | '-' :: digits => (decimal? digits).bind fun n => integer? (-n)
  | digits => (decimal? digits).bind (integer? ·)

/-! ## §4. Documents. -/

/-- A key and its value. -/
structure Pair where
  key : String
  value : Scalar
deriving DecidableEq, Repr

/-- The pair on a line that holds more than a comment. -/
def pair? (line : List Char) : Option Pair := do
  let (key, rest) ← key? (line.dropWhile isBlank)
  match rest.dropWhile isBlank with
  | '=' :: rest =>
      let rest := rest.dropWhile isBlank
      let endsValue := fun c => isBlank c || c == '#'
      let value ← Scalar.ofText? (rest.takeWhile (!endsValue ·))
      if isLineEnd (rest.dropWhile (!endsValue ·)) then
        return ⟨String.ofList key, value⟩
      else none
  | _ => none

/-- The pairs of a document, if each of its lines is well formed. -/
def pairs? (text : String) : Option (List Pair) :=
  ((lines text.toList).filter (!isLineEnd ·)).mapM pair?

end StateVault.Toml

namespace StateVault.Settings

open StateVault.Toml (Pair Scalar)

/-- An integer that is at least 0 and below a limit. -/
def natural? (limit : Nat) : Scalar → Option Nat
  | .integer n => if 0 ≤ n ∧ n.toNat < limit then some n.toNat else none
  | .truth _ => none

/-- Settings with one more pair taken in; unknown keys and values of another
type are refused. -/
def take? (c : Settings) (p : Pair) : Option Settings :=
  match p.key with
  | "block_size" =>
      (natural? UInt32.size p.value).map fun n => { c with blockSize := UInt32.ofNat n }
  | "initial_blocks" =>
      (natural? UInt64.size p.value).map fun n => { c with initialBlocks := UInt64.ofNat n }
  | "max_blocks" =>
      (natural? UInt64.size p.value).map fun n => { c with maxBlocks := UInt64.ofNat n }
  | "auto_grow" =>
      match p.value with
      | .truth b => some { c with autoGrow := b }
      | .integer _ => none
  | _ => none

/-- Settings from pairs whose keys are all different. -/
def ofPairs? (ps : List Pair) : Option Settings :=
  if (ps.map (·.key)).Nodup then ps.foldlM take? standard else none

/-- The settings in a document, if they are usable ones. -/
def ofToml (text : String) : Except Error Settings :=
  match (Toml.pairs? text).bind ofPairs? with
  | none => .error .settingsText
  | some c => do
      c.check
      return c

end StateVault.Settings
