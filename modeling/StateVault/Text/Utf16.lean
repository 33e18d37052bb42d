/-
  StateVault.Text.Utf16
  ─────────────────────
  **TEXT IN 16-BIT UNITS.**

  A character below `U+10000` is one unit.  Any other is a high surrogate
  unit followed by a low one.  A surrogate that stands alone is no text.  In
  bytes the low half of a unit comes first.

    • `unitsOf`, `encode`, `decode` — characters as units and back,
    • `toBytes`, `ofBytes?`         — units as bytes and back.
-/
import StateVault.Bytes

namespace StateVault.Text.Utf16

/-! ## §1. Characters and units. -/

/-- The units of a character. -/
def unitsOf (c : Char) : List UInt16 :=
  if c.toNat < 0x10000 then [UInt16.ofNat c.toNat]
  else
    let n := c.toNat - 0x10000
    [UInt16.ofNat (0xD800 + n / 0x400), UInt16.ofNat (0xDC00 + n % 0x400)]

def encode (text : List Char) : List UInt16 :=
  text.flatMap unitsOf

def isHigh (u : UInt16) : Bool :=
  0xD800 ≤ u && u < 0xDC00

def isLow (u : UInt16) : Bool :=
  0xDC00 ≤ u && u < 0xE000

/-- The character of two surrogate units. -/
def paired (high low : UInt16) : Char :=
  Char.ofNat (0x10000 + (high.toNat - 0xD800) * 0x400 + (low.toNat - 0xDC00))

/-- The characters that units spell, after those in `found`, which are in
reverse order. -/
def decodeAfter (found : List Char) : List UInt16 → Option (List Char)
  | [] => some found.reverse
  | u :: rest =>
      if isHigh u then
        match rest with
        | v :: rest => if isLow v then decodeAfter (paired u v :: found) rest else none
        | [] => none
      else if isLow u then none
      else decodeAfter (Char.ofNat u.toNat :: found) rest

/-- The text that units spell, if no surrogate stands alone. -/
def decode (units : List UInt16) : Option (List Char) :=
  decodeAfter [] units

/-! ## §2. Units and bytes. -/

def toBytes (units : List UInt16) : ByteArray :=
  (units.flatMap Bytes.ofWord16).toByteArray

/-- The units in pairs of bytes, after those in `found`, which are in reverse
order. -/
def pairsFrom (found : List UInt16) : List UInt8 → Option (List UInt16)
  | [] => some found.reverse
  | [_] => none
  | a :: b :: rest => pairsFrom (UInt16.ofNat (Bytes.ofLe [a, b]) :: found) rest

/-- The units of a byte string of even length. -/
def ofBytes? (bytes : ByteArray) : Option (List UInt16) :=
  pairsFrom [] bytes.data.toList

end StateVault.Text.Utf16
