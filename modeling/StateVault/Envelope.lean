/-
  StateVault.Envelope
  ───────────────────
  **KEYS AND VALUES AS THE PAYLOAD OF A STREAM.**

  An envelope is the text of a JSON object in 16-bit units, low byte first,
  closed by one zero unit.  A payload is read with any number of zero units
  at its end.

    • `encode`, `decode` — envelopes as payloads and back,
    • `encodeJson`       — any value, if it is an object.
-/
import StateVault.Json.Printer
import StateVault.Json.Reader

namespace StateVault

/-- Keys with their values, in the order in which the keys came in. -/
structure Envelope where
  members : List (String × Json)
deriving Repr

namespace Envelope

def empty : Envelope := ⟨[]⟩

/-- One more member, or a new value for its key. -/
def insert (e : Envelope) (key : String) (value : Json) : Envelope :=
  ⟨Json.insertMember key value e.members⟩

def find? (e : Envelope) (key : String) : Option Json :=
  Json.member? key e.members

def toJson (e : Envelope) : Json :=
  .object e.members

/-- The envelope that a value is, if it is an object. -/
def ofJson : Json → Except Error Envelope
  | .object members => .ok ⟨members⟩
  | v => .error (.envelope (.notObject v.kind))

/-- The payload of an envelope. -/
def encode (e : Envelope) : ByteArray :=
  Text.Utf16.toBytes (Text.Utf16.encode e.toJson.render ++ [0])

/-- The payload of a value that is an object. -/
def encodeJson (v : Json) : Except Error ByteArray :=
  (ofJson v).map encode

/-- A text without the NUL characters at its end. -/
def dropNuls (text : List Char) : List Char :=
  (text.reverse.dropWhile (· == '\x00')).reverse

/-- The text of a payload. -/
def payloadText (payload : ByteArray) : Except Error (List Char) :=
  match Text.Utf16.ofBytes? payload with
  | none => .error (.envelope (.oddLength payload.size))
  | some units =>
      match Text.Utf16.decode units with
      | none => .error (.envelope .notUtf16)
      | some text => .ok (dropNuls text)

/-- The envelope in a payload. -/
def decode (payload : ByteArray) : Except Error Envelope := do
  let text ← payloadText payload
  match Json.ofText? text with
  | none => throw (.envelope .notJson)
  | some v => ofJson v

end Envelope

end StateVault
