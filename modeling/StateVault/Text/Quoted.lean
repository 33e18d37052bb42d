/-
  StateVault.Text.Quoted
  ──────────────────────
  **A NAME IN QUOTES, WITH NOTHING INVISIBLE LEFT IN IT.**

  Messages that speak of a name that may hold control characters show it in
  double quotes.  The quote and the backslash are escaped; so is every
  control character, by a short escape where there is one and by its number
  otherwise.
-/
import StateVault.Text.Hex

namespace StateVault.Text

/-- C0 and C1 control characters, and DEL between them. -/
def isControl (c : Char) : Bool :=
  c.toNat < 0x20 || (0x7f ≤ c.toNat && c.toNat ≤ 0x9f)

/-- One character as it stands between the quotes. -/
def quotedChar (c : Char) : List Char :=
  match c with
  | '\x00' => ['\\', '0']
  | '\t' => ['\\', 't']
  | '\n' => ['\\', 'n']
  | '\r' => ['\\', 'r']
  | '"' => ['\\', '"']
  | '\\' => ['\\', '\\']
  | c => if isControl c then ['\\', 'u', '\x7b'] ++ Hex.plain c.toNat ++ ['\x7d'] else [c]

/-- A text in double quotes. -/
def quoted (s : String) : String :=
  String.ofList ('"' :: s.toList.flatMap quotedChar ++ ['"'])

end StateVault.Text
