/-
  StateVault.Proofs.Envelope.RoundTrip
  ────────────────────────────────────
  **ENVELOPES, THERE AND BACK.**

  An envelope that was written is the envelope that is read, with its keys in
  their order, whatever number of zero units closes the payload; unless it
  has more than 127 levels, and then no number of them makes it readable.

  Whatever payload an envelope was read from, in whatever spelling, writing
  it gives the one spelling that reads back as it, and writing it again
  gives that again.

  Doubles come into this by one premise, that the text of each one in the
  envelope reads back as it (`ReadsBack`).

    • `decode_reterminated` — from envelopes to payloads and back,
    • `encode_decoded`      — from payloads to envelopes and back.
-/
import StateVault.Envelope
import StateVault.Proofs.Json.Reading

namespace StateVault.Envelope

open Json (HasDistinctKeys ReadsBack Throughout maxDepth)
open Json.Token (scanFrom_blank scanFrom_mark scanFrom_string scanFrom_word)

/-! ## §1. The text of a payload. -/

/-- The payload of an envelope with `k` zero units in the place of the one at
its end. -/
def reterminated (e : Envelope) (k : Nat) : ByteArray :=
  e.encode.extract 0 (e.encode.size - 2) ++ Bytes.zeros (2 * k)

/-- A payload is the text of the envelope, and a zero unit. -/
theorem encode_eq (e : Envelope) :
    e.encode = Text.Utf16.toBytes (Text.Utf16.encode e.toJson.render) ++ Bytes.zeros 2 := by
  rw [encode, Text.Utf16.toBytes_append]
  exact congrArg _ (Text.Utf16.toBytes_zeros 1)

/-- Such a payload is a text with `k` NUL characters at its end. -/
theorem reterminated_eq (e : Envelope) (k : Nat) :
    e.reterminated k
      = Text.Utf16.toBytes (Text.Utf16.encode (e.toJson.render ++ List.replicate k '\x00')) := by
  have hsize : e.encode.size - 2
      = (Text.Utf16.toBytes (Text.Utf16.encode e.toJson.render)).size := by
    rw [encode_eq, ByteArray.size_append, Bytes.size_zeros, Nat.add_sub_cancel]
  rw [reterminated, hsize, encode_eq, ByteArray.extract_append_eq_left rfl,
    Text.Utf16.encode_append, Text.Utf16.toBytes_append, Text.Utf16.encode_nuls,
    Text.Utf16.toBytes_zeros]

/-- An envelope is written with one zero unit at its end. -/
theorem reterminated_one (e : Envelope) : e.reterminated 1 = e.encode := by
  rw [reterminated_eq, encode, Text.Utf16.encode_append]
  rfl

/-- The text of an object ends in a brace. -/
theorem getLast?_render (e : Envelope) : e.toJson.render.getLast? = some '\x7d' := by
  obtain ⟨members⟩ := e
  match members with
  | [] => rfl
  | (k, v) :: rest =>
    rw [toJson, Json.render]
    exact List.getLast?_concat

/-- The NUL characters that are dropped are those that were put behind the text. -/
theorem dropNuls_append (text : List Char) (k : Nat) (h : text.getLast? ≠ some '\x00') :
    dropNuls (text ++ List.replicate k '\x00') = text := by
  have hnuls : ∀ c ∈ List.replicate k '\x00', (c == '\x00') = true := by
    intro c hc
    rw [List.eq_of_mem_replicate hc]
    rfl
  -- the last character is no terminator, so dropping stops there
  have hstop : text.reverse.dropWhile (· == '\x00') = text.reverse := by
    rw [← List.head?_reverse] at h
    cases hrev : text.reverse with
    | nil => rfl
    | cons c rest =>
      rw [hrev] at h
      have hc : ¬ (c == '\x00') = true := by simpa using h
      exact List.dropWhile_cons_of_neg hc
  rw [dropNuls, List.reverse_append, List.reverse_replicate,
    List.dropWhile_append_of_pos hnuls, hstop, List.reverse_reverse]

/-- **The text of a payload** is that of its envelope, whatever number of zero
units closes it. -/
theorem payloadText_reterminated (e : Envelope) (k : Nat) :
    payloadText (e.reterminated k) = .ok e.toJson.render := by
  have hlast : e.toJson.render.getLast? ≠ some '\x00' := by
    rw [getLast?_render]
    decide
  simp only [payloadText, reterminated_eq, Text.Utf16.ofBytes?_toBytes, Text.Utf16.decode_encode,
    dropNuls_append _ k hlast]

/-! ## §2. Written and read. -/

/-- Reading a payload is reading its text. -/
theorem decode_of_text {payload : ByteArray} {text : List Char}
    (h : payloadText payload = .ok text) :
    decode payload = match Json.ofText? text with
      | none => .error (.envelope .notJson)
      | some v => ofJson v := by
  unfold decode
  rw [h]
  rfl

/-- A payload with the text of an envelope in it is read as that envelope,
unless there are too many levels.  The premises are that no object in it has a
key twice and that its doubles read back. -/
theorem decode_of_render {e : Envelope} {payload : ByteArray}
    (h : payloadText payload = .ok e.toJson.render)
    (hkeys : e.toJson.Throughout HasDistinctKeys) (hreads : e.toJson.Throughout ReadsBack) :
    decode payload
      = if e.toJson.depth ≤ maxDepth then .ok e else .error (.envelope .notJson) := by
  rw [decode_of_text h, Json.ofText?_render e.toJson hkeys hreads]
  by_cases hdepth : e.toJson.depth ≤ maxDepth
  · rw [if_pos hdepth, if_pos hdepth]
    rfl
  · rw [if_neg hdepth, if_neg hdepth]

/-- The payload that is written has such a text. -/
theorem payloadText_encode (e : Envelope) : payloadText e.encode = .ok e.toJson.render := by
  rw [← reterminated_one, payloadText_reterminated]

/-- **An envelope that was written is the envelope that is read**, with its
keys in their order and whatever number of zero units at the end, if it has no
more than 127 levels; deeper ones are refused.  The premises are that no
object in it has a key twice and that its doubles read back. -/
theorem decode_reterminated (e : Envelope) (hkeys : e.toJson.Throughout HasDistinctKeys)
    (hreads : e.toJson.Throughout ReadsBack) (k : Nat) :
    decode (e.reterminated k)
      = if e.toJson.depth ≤ maxDepth then .ok e else .error (.envelope .notJson) :=
  decode_of_render (payloadText_reterminated e k) hkeys hreads

/-- An envelope with keys out of order, a double, an integer, a character
beyond the basic ones and one that is escaped. -/
def mixed : Envelope :=
  ⟨[("b", .array [.float ⟨0x3FF8000000000000, by decide⟩, .integer ⟨-1, by decide⟩, .null]),
    ("a", .string "é😀\n")]⟩

/-- It comes back from a payload with three zero units, and from one with none. -/
theorem decode_reterminated_mixed :
    mixed.toJson.Throughout HasDistinctKeys ∧ mixed.toJson.Throughout ReadsBack
      ∧ decode (mixed.reterminated 3) = .ok mixed ∧ decode (mixed.reterminated 0) = .ok mixed := by
  have hkeys : mixed.toJson.Throughout HasDistinctKeys := by decide
  have hreads : mixed.toJson.Throughout ReadsBack := by
    simp only [mixed, toJson, Throughout, Json.parts, Json.memberParts, Json.itemParts]
    simp [ReadsBack]
    rfl
  have hdepth : mixed.toJson.depth ≤ maxDepth := by decide
  exact ⟨hkeys, hreads, (decode_reterminated mixed hkeys hreads 3).trans (if_pos hdepth),
    (decode_reterminated mixed hkeys hreads 0).trans (if_pos hdepth)⟩

/-! ## §3. Read and written. -/

/-- An envelope is an object, and is written as that object. -/
theorem ofJson_eq_ok {v : Json} {e : Envelope} (h : ofJson v = .ok e) : e.toJson = v := by
  cases v with
  | object members =>
    cases h
    rfl
  | _ => cases h

/-- An envelope that was read has no more than 127 levels and no key twice. -/
theorem wellFormed_of_decode {payload : ByteArray} {e : Envelope} (h : decode payload = .ok e) :
    e.toJson.depth ≤ maxDepth ∧ e.toJson.Throughout HasDistinctKeys := by
  -- only what passed both readers is an envelope
  cases htext : payloadText payload with
  | error fault =>
    rw [decode, htext] at h
    cases h
  | ok text =>
    rw [decode_of_text htext] at h
    cases hread : Json.ofText? text with
    | none =>
      rw [hread] at h
      cases h
    | some v =>
      rw [hread] at h
      rw [ofJson_eq_ok h]
      exact Json.wellFormed_of_read hread

/-- **An envelope that was read, from whatever payload, is written so that it
reads back**, and what is read back is written in the same bytes.  The premise
is that its doubles read back. -/
theorem encode_decoded {payload : ByteArray} {e : Envelope} (h : decode payload = .ok e)
    (hreads : e.toJson.Throughout ReadsBack) :
    decode e.encode = .ok e ∧ (decode e.encode).map encode = .ok e.encode := by
  obtain ⟨hdepth, hkeys⟩ := wellFormed_of_decode h
  have hback : decode e.encode = .ok e := by
    rw [decode_of_render (payloadText_encode e) hkeys hreads, if_pos hdepth]
  refine ⟨hback, ?_⟩
  rw [hback]
  rfl

/-- A payload in another spelling: blanks, a key that comes in twice, an
escape where none is needed, a raw character, a double with an exponent, and
no zero unit. -/
def loose : ByteArray :=
  Text.Utf16.toBytes (Text.Utf16.encode
    "\x7b \"k\" :1,\"\\u0061\":[ 15E-1],\"k\":\"é\"\x7d".toList)

/-- What is in it: the repeated key at its first place with its last value. -/
def tidied : Envelope :=
  ⟨[("k", .string "é"), ("a", .array [.float ⟨0x3FF8000000000000, by decide⟩])]⟩

/-- The text in it, character by character. -/
def looseText : List Char :=
  ['\x7b', ' ', '"', 'k', '"', ' ', ':', '1', ',', '"', '\\', 'u', '0', '0', '6', '1', '"', ':',
    '[', ' ', '1', '5', 'E', '-', '1', ']', ',', '"', 'k', '"', ':', '"', 'é', '"', '\x7d']

theorem payloadText_loose : payloadText loose = .ok looseText := by
  simp only [payloadText, loose, Text.Utf16.ofBytes?_toBytes, Text.Utf16.decode_encode]
  rfl

/-- The text is read token by token, and the second `k` replaces the value of
the first. -/
theorem decode_loose : decode loose = .ok tidied := by
  have hone : Json.word? ['1'] = some (.integer ⟨1, by decide⟩) := by
    have hdigits : Json.integerText 1 = ['1'] := rfl
    rw [← hdigits]
    exact Json.word?_of_number? (Json.number?_integerText ⟨1, by decide⟩)
  have hdouble : Double.ofDecimal? false 15 (-1) = some ⟨0x3FF8000000000000, by decide⟩ := by
    decide +kernel
  have hexponent : Json.word? ['1', '5', 'E', '-', '1']
      = some (.float ⟨0x3FF8000000000000, by decide⟩) := by
    simp [Json.word?, Json.number?, Json.unsigned?, Json.wholeDigits?, Json.digits?,
      Json.fraction?, Json.exponent?, Json.digitsValue, hdouble]
  have hscan := calc Json.Token.scanFrom [] looseText
    _ = _ := scanFrom_mark _ _ rfl
    _ = _ := scanFrom_blank _ _ rfl
    _ = _ := scanFrom_string _ rfl
    _ = _ := scanFrom_blank _ _ rfl
    _ = _ := scanFrom_mark _ _ rfl
    _ = _ := scanFrom_word _ _ (w := ['1']) (by decide) (List.all_eq_true.mp rfl) hone
      (Json.endsWord_closed rfl _)
    _ = _ := scanFrom_mark _ _ rfl
    -- the key with an escape in it
    _ = _ := scanFrom_string _ rfl
    _ = _ := scanFrom_mark _ _ rfl
    _ = _ := scanFrom_mark _ _ rfl
    _ = _ := scanFrom_blank _ _ rfl
    _ = _ := scanFrom_word _ _ (w := ['1', '5', 'E', '-', '1']) (by decide)
      (List.all_eq_true.mp rfl) hexponent (Json.endsWord_closed rfl _)
    _ = _ := scanFrom_mark _ _ rfl
    _ = _ := scanFrom_mark _ _ rfl
    _ = _ := scanFrom_string _ rfl
    _ = _ := scanFrom_mark _ _ rfl
    _ = _ := scanFrom_string _ rfl
    _ = _ := scanFrom_mark _ _ rfl
  rw [decode_of_text payloadText_loose, Json.ofText?, Json.Token.scan, hscan,
    Json.Token.scanFrom]
  rfl

/-- It is read, and what is read is written in its one spelling. -/
theorem encode_decoded_loose :
    decode loose = .ok tidied ∧ tidied.toJson.Throughout ReadsBack
      ∧ decode tidied.encode = .ok tidied
      ∧ (decode tidied.encode).map encode = .ok tidied.encode := by
  have hreads : tidied.toJson.Throughout ReadsBack := by
    simp only [tidied, toJson, Throughout, Json.parts, Json.memberParts, Json.itemParts]
    simp [ReadsBack]
    rfl
  exact ⟨decode_loose, hreads, encode_decoded decode_loose hreads⟩

end StateVault.Envelope
