/-
  StateVault.Json.Reader
  ──────────────────────
  **A VALUE FROM ITS TOKENS.**

  The reader takes one token at a time.  Containers part way through stand
  in a list of frames, the innermost first, so that reading is one fold over
  the tokens.  At most 127 containers may be open at once.

    • `step`      — one token,
    • `ofTokens?` — the value that all tokens spell,
    • `ofText?`   — the value of a text.
-/
import StateVault.Json.Token

namespace StateVault.Json

/-- A container part way through. -/
inductive Frame where
  /-- The items so far, the last one first. -/
  | items (done : List Json)
  /-- The members so far, and the key whose value comes next. -/
  | members (done : List (String × Json)) (key : String)

/-- What must come next. -/
inductive Progress where
  /-- A value. -/
  | value (frames : List Frame)
  /-- The first item of an array, or its end. -/
  | firstItem (frames : List Frame)
  /-- The first key of an object, or its end. -/
  | firstKey (frames : List Frame)
  /-- Another key of an object with these members. -/
  | key (done : List (String × Json)) (frames : List Frame)
  /-- The colon after a key. -/
  | colon (done : List (String × Json)) (key : String) (frames : List Frame)
  /-- A value is there: the end of its container or one more, or the end. -/
  | after (v : Json) (frames : List Frame)

/-- The containers that may be open at once. -/
def maxDepth : Nat := 127

/-- Whether one more container may be opened. -/
def hasRoom (frames : List Frame) : Bool :=
  frames.length < maxDepth

/-- A token where a value must start. -/
def startValue (frames : List Frame) : Token → Option Progress
  | .word v => some (.after v frames)
  | .string s => some (.after (string s) frames)
  | .openBracket => if hasRoom frames then some (.firstItem frames) else none
  | .openBrace => if hasRoom frames then some (.firstKey frames) else none
  | _ => none

/-- One token. -/
def step : Progress → Token → Option Progress
  | .value frames, t => startValue frames t
  | .firstItem frames, .closeBracket => some (.after (array []) frames)
  | .firstItem frames, t => startValue (.items [] :: frames) t
  | .firstKey frames, .closeBrace => some (.after (object []) frames)
  | .firstKey frames, .string k => some (.colon [] k frames)
  | .key done frames, .string k => some (.colon done k frames)
  | .colon done k frames, .colon => some (.value (.members done k :: frames))
  | .after v (.items done :: frames), .comma => some (.value (.items (v :: done) :: frames))
  | .after v (.items done :: frames), .closeBracket =>
      some (.after (array (v :: done).reverse) frames)
  | .after v (.members done k :: frames), .comma => some (.key (insertMember k v done) frames)
  | .after v (.members done k :: frames), .closeBrace =>
      some (.after (object (insertMember k v done)) frames)
  | _, _ => none

/-- The value, when nothing is left open. -/
def finish : Progress → Option Json
  | .after v [] => some v
  | _ => none

/-- The value that tokens spell. -/
def ofTokens? (tokens : List Token) : Option Json :=
  (tokens.foldlM step (.value [])).bind finish

/-- The value that a text spells. -/
def ofText? (text : List Char) : Option Json :=
  (Token.scan text).bind ofTokens?

end StateVault.Json
