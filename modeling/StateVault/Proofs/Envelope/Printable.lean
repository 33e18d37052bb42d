/-
  StateVault.Proofs.Envelope.Printable
  ────────────────────────────────────
  **NOTHING BUT PRINTABLE ASCII IS WRITTEN.**

  Whatever characters the keys and strings of a value have, its text is made
  of the characters from the blank to the tilde.  Strings are the place where
  this could fail: a character there stands for itself only if it is one of
  them, and otherwise for a backslash, letters and hexadecimal digits.

  Each such character is one 16-bit unit, the number of the character itself.
  So the zero unit behind the text is the only one in a payload, and dropping
  zero units at its end takes that one and nothing else.

    • `printable_render` — values of any nesting,
    • `encode_printable` — payloads.
-/
import StateVault.Proofs.Envelope.RoundTrip

namespace StateVault.Json

/-! ## §1. Printable characters. -/

/-- From the blank to the tilde. -/
def isPrintable (c : Char) : Bool :=
  0x20 ≤ c.toNat && c.toNat ≤ 0x7e

theorem isPrintable_iff {c : Char} : isPrintable c = true ↔ 0x20 ≤ c.toNat ∧ c.toNat ≤ 0x7e := by
  simp [isPrintable]

/-- A printable text has no NUL in it. -/
theorem nul_notMem {text : List Char} (h : text.all isPrintable = true) : '\x00' ∉ text := by
  intro hmem
  have hnul : isPrintable '\x00' = true := List.all_eq_true.mp h _ hmem
  cases hnul

/-- A text that is made of printable ones is printable. -/
theorem printable_flatMap {α : Type} {items : List α} {f : α → List Char}
    (h : ∀ a, (f a).all isPrintable = true) : (items.flatMap f).all isPrintable = true := by
  rw [List.all_flatMap]
  exact List.all_eq_true.mpr fun a _ => h a

/-! ## §2. Strings. -/

/-- Digits are printable. -/
theorem printable_hexDigit (d : Nat) : isPrintable (Text.Hex.digit d) = true := by
  have hall : ∀ d < 16, isPrintable (Nat.digitChar d) = true := by decide
  exact hall (d % 16) (Nat.mod_lt d (by decide))

theorem printable_hexDigits (w n : Nat) : (Text.Hex.digits w n).all isPrintable = true := by
  induction w generalizing n with
  | zero => rfl
  | succ w ih => simp [Text.Hex.digits, ih, printable_hexDigit]

/-- An escape is printable, whatever unit it stands for. -/
theorem printable_unitEscape (u : UInt16) : (unitEscape u).all isPrintable = true := by
  simp only [unitEscape, List.all_cons, printable_hexDigits, Bool.and_true]
  rfl

/-- Whatever a character is, it is printable as it stands in a string. -/
theorem printable_escaped (c : Char) : (escaped c).all isPrintable = true := by
  -- the seven short escapes, then all other characters
  unfold escaped
  split
  · rfl
  · rfl
  · rfl
  · rfl
  · rfl
  · rfl
  · rfl
  · split
    next hplain =>
      have hc : isPrintable c = true :=
        isPrintable_iff.mpr ⟨hplain.1, Nat.le_of_lt_succ hplain.2⟩
      rw [List.all_cons, hc, List.all_nil, Bool.and_true]
    next => exact printable_flatMap printable_unitEscape

/-- A string is printable, its quotes included. -/
theorem printable_quoted (s : String) : (quoted s).all isPrintable = true := by
  simp only [quoted, List.all_append, List.all_cons, printable_flatMap printable_escaped]
  rfl

/-! ## §3. Values. -/

/-- Numbers are words, and words are printable. -/
theorem isPrintable_of_isWordChar {c : Char} (h : isWordChar c = true) :
    isPrintable c = true := by
  -- capitals, small letters and digits by number, and the three marks
  change ((((((decide (65 ≤ c.val ∧ c.val ≤ 90)) || (97 ≤ c.val && c.val ≤ 122))
    || (48 ≤ c.val && c.val ≤ 57)) || c == '-') || c == '+') || c == '.') = true at h
  simp only [Bool.or_eq_true, Bool.and_eq_true, decide_eq_true_eq, beq_iff_eq,
    UInt32.le_iff_toNat_le] at h
  change (((((65 ≤ c.toNat ∧ c.toNat ≤ 90) ∨ (97 ≤ c.toNat ∧ c.toNat ≤ 122))
    ∨ (48 ≤ c.toNat ∧ c.toNat ≤ 57)) ∨ c = '-') ∨ c = '+') ∨ c = '.' at h
  rcases h with (((letter | digit) | rfl) | rfl) | rfl
  · exact isPrintable_iff.mpr (by omega)
  · exact isPrintable_iff.mpr (by omega)
  · rfl
  · rfl
  · rfl

theorem printable_word {text : List Char} (h : ∀ c ∈ text, isWordChar c = true) :
    text.all isPrintable = true :=
  List.all_eq_true.mpr fun c hc => isPrintable_of_isWordChar (h c hc)

mutual

/-- **The text of a value is printable**, at any nesting. -/
theorem printable_render (v : Json) : (render v).all isPrintable = true := by
  -- one case for each form; the mutual induction runs over the parts
  match v with
  | null | bool true | bool false | array [] | object [] => rfl
  | integer _ => exact printable_word fun _ hc => isWordChar_integerText hc
  | float x => exact printable_word (isWordChar_floatText x)
  | string s => exact printable_quoted s
  | array (v :: rest) =>
    simp only [render, List.all_append, List.all_cons, printable_render v,
      printable_renderItems rest]
    rfl
  | object ((k, v) :: rest) =>
    simp only [render, List.all_append, List.all_cons, printable_quoted k, printable_render v,
      printable_renderMembers rest]
    rfl

/-- The items after the first one are printable. -/
theorem printable_renderItems (items : List Json) :
    (renderItems items).all isPrintable = true := by
  match items with
  | [] => rfl
  | v :: rest =>
    simp only [renderItems, List.all_append, List.all_cons, printable_render v,
      printable_renderItems rest]
    rfl

theorem printable_renderMembers (members : List (String × Json)) :
    (renderMembers members).all isPrintable = true := by
  match members with
  | [] => rfl
  | (k, v) :: rest =>
    simp only [renderMembers, List.all_append, List.all_cons, printable_quoted k,
      printable_render v, printable_renderMembers rest]
    rfl

end

/-- A NUL, a DEL, a quote and a character beyond the basic ones. -/
example : quoted "\x00\x7f\"😀" = "\"\\u0000\\u007f\\\"\\ud83d\\ude00\"".toList := by
  decide

end StateVault.Json

namespace StateVault.Envelope

open Json (isPrintable)

/-! ## §4. Payloads. -/

/-- A printable character is one unit, the number of the character. -/
theorem unitsOf_printable {c : Char} (h : isPrintable c = true) :
    Text.Utf16.unitsOf c = [UInt16.ofNat c.toNat] :=
  if_pos (Nat.lt_of_le_of_lt (Json.isPrintable_iff.mp h).2 (by decide))

/-- A printable character is one unit, which is its number. -/
theorem unit_mem_encode {text : List Char} (htext : text.all isPrintable = true) {u : UInt16}
    (hu : u ∈ Text.Utf16.encode text) : 0x20 ≤ u ∧ u ≤ 0x7e := by
  obtain ⟨c, hc, hmem⟩ := List.mem_flatMap.mp hu
  have hprintable : isPrintable c = true := List.all_eq_true.mp htext c hc
  obtain ⟨hlow, hhigh⟩ := Json.isPrintable_iff.mp hprintable
  rw [unitsOf_printable hprintable] at hmem
  have hval : u.toNat = c.toNat := by
    rw [List.mem_singleton.mp hmem]
    exact UInt16.toNat_ofNat_of_lt' (Nat.lt_of_le_of_lt hhigh (by decide))
  rw [UInt16.le_iff_toNat_le, UInt16.le_iff_toNat_le, hval]
  exact ⟨hlow, hhigh⟩

/-- **An envelope is written in printable ASCII with one zero unit behind
it**, whatever its keys and values are.  The bytes are an even number and end
in two zero bytes.  Read as 16-bit units they are printable ones and one zero
unit; read as text, a text without any NUL in it and one NUL behind it, of
which the reader drops that NUL and nothing else. -/
theorem encode_printable (e : Envelope) :
    e.encode.size % 2 = 0 ∧ [0, 0] <:+ e.encode.data.toList
      ∧ ∃ (units : List UInt16) (text : List Char),
        Text.Utf16.ofBytes? e.encode = some (units ++ [0])
          ∧ (∀ u ∈ units, 0x20 ≤ u ∧ u ≤ 0x7e)
          ∧ Text.Utf16.decode (units ++ [0]) = some (text ++ ['\x00'])
          ∧ '\x00' ∉ text
          ∧ payloadText e.encode = .ok text := by
  have hprintable : e.toJson.render.all isPrintable = true := Json.printable_render e.toJson
  -- to whoever reads the payload as text, the zero unit is a NUL
  have hnul : Text.Utf16.encode e.toJson.render ++ [0]
      = Text.Utf16.encode (e.toJson.render ++ ['\x00']) := by
    rw [Text.Utf16.encode_append]
    rfl
  have hend : [0, 0] <:+ e.encode.data.toList := by
    rw [encode, Text.Utf16.toList_toBytes, List.flatMap_append]
    exact List.suffix_append _ _
  refine ⟨?_, hend, Text.Utf16.encode e.toJson.render, e.toJson.render, ?_, ?_, ?_, ?_, ?_⟩
  · rw [encode, Text.Utf16.size_toBytes, Nat.mul_mod_right]
  · exact Text.Utf16.ofBytes?_toBytes _
  · exact fun u hu => unit_mem_encode hprintable hu
  · rw [hnul, Text.Utf16.decode_encode]
  · exact Json.nul_notMem hprintable
  · exact payloadText_encode e

end StateVault.Envelope
