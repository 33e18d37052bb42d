/-
  StateVault.Proofs.Json.Scanning
  ───────────────────────────────
  **A VALUE THAT WAS WRITTEN IS READ AS ITS TOKENS.**

  `tokens v` are the marks, strings and words of a value, with nothing said
  of how they are spelt.  The text of a value scans to exactly these,
  whatever stands after it, unless that lengthens its last word.

    • `stringFrom_escaped` — one character of a string, in any of its forms,
    • `scanFrom_word`      — a word ends where no word character follows,
    • `scanFrom_render`    — a whole value.
-/
import StateVault.Proofs.Json.Parts
import StateVault.Proofs.Text.Utf16

namespace StateVault.Json

/-! ## §1. The characters of a string. -/

/-- A digit is read as the part of the number that it was made of. -/
theorem value?_digit_mod (d : Nat) : Text.Hex.value? (Text.Hex.digit d) = some (d % 16) := by
  have hmod : Text.Hex.digit d = Text.Hex.digit (d % 16) := by
    rw [Text.Hex.digit, Text.Hex.digit, Nat.mod_mod]
  rw [hmod, Text.Hex.value?_digit _ (Nat.mod_lt d (by decide))]

/-- The four digits of a unit spell it. -/
theorem digits_unit (u : UInt16) : ∃ a b c d : Char,
    Text.Hex.digits 4 u.toNat = [a, b, c, d] ∧ unit? a b c d = some u := by
  refine ⟨_, _, _, _, rfl, ?_⟩
  have hlt : u.toNat < 0x10000 := u.toNat_lt
  have hvalue : ((u.toNat / 16 / 16 / 16 % 16 * 16 + u.toNat / 16 / 16 % 16) * 16
      + u.toNat / 16 % 16) * 16 + u.toNat % 16 = u.toNat := by omega
  simp only [unit?, value?_digit_mod, Option.bind_eq_bind, Option.bind_some, Option.pure_def,
    hvalue, UInt16.ofNat_toNat]

/-- A character written as its units. -/
theorem stringFrom_unitsOf (found : List Char) (c : Char) (rest : List Char) :
    stringFrom found ((Text.Utf16.unitsOf c).flatMap unitEscape ++ rest)
      = stringFrom (c :: found) rest := by
  have hspelling := Text.Utf16.spelling_unitsOf c
  generalize Text.Utf16.unitsOf c = units at hspelling
  cases hspelling with
  | @alone u notHigh notLow is =>
    obtain ⟨_, _, _, _, hdigits, hunit⟩ := digits_unit u
    simp [unitEscape, hdigits, stringFrom, hunit, notHigh, notLow, is]
  | @pair u v high low is =>
    obtain ⟨_, _, _, _, hdigits, hunit⟩ := digits_unit u
    obtain ⟨_, _, _, _, hdigits', hunit'⟩ := digits_unit v
    simp [unitEscape, hdigits, hdigits', stringFrom, hunit, hunit', high, low, is]

/-- A character that stands for itself. -/
theorem stringFrom_plain {c : Char} (hquote : c ≠ '"') (hbackslash : c ≠ '\\')
    (hprintable : 0x20 ≤ c.toNat) (found rest : List Char) :
    stringFrom found (c :: rest) = stringFrom (c :: found) rest := by
  have hallowed : ¬ (c = '\\' ∨ c.toNat < 0x20) :=
    not_or.mpr ⟨hbackslash, Nat.not_lt.mpr hprintable⟩
  rw [stringFrom, if_neg hallowed]
  · exact hquote
  · exact fun _ _ _ _ _ h => absurd h hbackslash
  · exact fun _ _ h => absurd h hbackslash

/-- **One character of a string**, in whichever form it is written. -/
theorem stringFrom_escaped (found : List Char) (c : Char) (rest : List Char) :
    stringFrom found (escaped c ++ rest) = stringFrom (c :: found) rest := by
  unfold escaped
  split
  case h_8 hquote hbackslash _ _ _ _ _ =>
    split
    next hprintable => exact stringFrom_plain hquote hbackslash hprintable.1 found rest
    next => exact stringFrom_unitsOf found c rest
  -- the short escapes
  all_goals simp [stringFrom, shortEscape?]

/-- **The characters of a string** are read up to the quote that closes it. -/
theorem stringFrom_flatMap (found s rest : List Char) :
    stringFrom found (s.flatMap escaped ++ '"' :: rest) = some (found.reverse ++ s, rest) := by
  induction s generalizing found with
  | nil => simp [stringFrom]
  | cons c s ih =>
    rw [List.flatMap_cons, List.append_assoc, stringFrom_escaped, ih, List.reverse_cons,
      List.append_assoc, List.singleton_append]

/-! ## §2. The tokens of a value. -/

mutual

/-- The tokens of a value. -/
def tokens : Json → List Token
  | string s => [.string s]
  | array [] => [.openBracket, .closeBracket]
  | array (v :: rest) => .openBracket :: tokens v ++ itemTokens rest ++ [.closeBracket]
  | object [] => [.openBrace, .closeBrace]
  | object ((k, v) :: rest) =>
      .openBrace :: .string k :: .colon :: tokens v ++ memberTokens rest ++ [.closeBrace]
  | v => [.word v]

/-- The tokens of the items after the first one. -/
def itemTokens : List Json → List Token
  | [] => []
  | v :: rest => .comma :: tokens v ++ itemTokens rest

/-- The tokens of the members after the first one. -/
def memberTokens : List (String × Json) → List Token
  | [] => []
  | (k, v) :: rest => .comma :: .string k :: .colon :: tokens v ++ memberTokens rest

end

/-! ## §3. Single tokens in a text. -/

/-- What may stand after a value without lengthening its last word. -/
def EndsWord (rest : List Char) : Prop :=
  ∀ c ∈ rest.head?, isWordChar c = false

namespace Token

variable (found : List Token) (rest : List Char)

theorem scanFrom_blank {c : Char} (h : isBlank c = true) :
    scanFrom found (c :: rest) = scanFrom found rest := by
  rw [scanFrom, if_pos h]

/-- A string, in whatever spelling. -/
theorem scanFrom_string {text rest s : List Char} (h : stringFrom [] text = some (s, rest)) :
    scanFrom found ('"' :: text) = scanFrom (.string (String.ofList s) :: found) rest := by
  rw [scanFrom, if_neg (by decide), if_pos rfl]
  split
  next heq =>
    rw [h] at heq
    cases heq
    rfl
  next heq => simp [h] at heq

/-- A string as it is written. -/
theorem scanFrom_quoted (s : String) :
    scanFrom found (quoted s ++ rest) = scanFrom (.string s :: found) rest := by
  have hstring : stringFrom [] (s.toList.flatMap escaped ++ '"' :: rest) = some (s.toList, rest) :=
    stringFrom_flatMap [] s.toList rest
  have htext : quoted s ++ rest = '"' :: (s.toList.flatMap escaped ++ '"' :: rest) := by
    simp [quoted]
  rw [htext, scanFrom_string found hstring, String.ofList_toList]

/-- A mark is a token by itself. -/
theorem scanFrom_mark {c : Char} {t : Token} (h : mark? c = some t) :
    scanFrom found (c :: rest) = scanFrom (t :: found) rest := by
  have hother : isBlank c = false ∧ c ≠ '"' ∧ isWordChar c = false := by
    unfold mark? at h
    split at h
    · decide
    · decide
    · decide
    · decide
    · decide
    · decide
    · cases h
  rw [scanFrom, if_neg (by simp [hother.1]), if_neg hother.2.1, dif_neg (by simp [hother.2.2]), h]

/-- A word ends where no word character follows. -/
theorem scanFrom_word {w : List Char} {v : Json} (hsome : w ≠ [])
    (hword : ∀ c ∈ w, isWordChar c = true) (hread : word? w = some v)
    (hrest : EndsWord rest) :
    scanFrom found (w ++ rest) = scanFrom (.word v :: found) rest := by
  -- the word ends where its characters do
  obtain ⟨htake, hdrop⟩ := run_ends hword hrest
  obtain ⟨c, w, rfl⟩ := List.exists_cons_of_ne_nil hsome
  have hc : isWordChar c = true := hword c List.mem_cons_self
  -- so its first character opens neither a blank nor a string
  have hother : isBlank c = false ∧ c ≠ '"' := by
    constructor
    · refine Bool.eq_false_iff.mpr fun hblank => ?_
      simp only [isBlank, Bool.or_eq_true, beq_iff_eq] at hblank
      rcases hblank with ((rfl | rfl) | rfl) | rfl <;> exact absurd hc (by decide)
    · rintro rfl
      exact absurd hc (by decide)
  rw [List.cons_append] at htake hdrop ⊢
  rw [scanFrom, if_neg (by simp [hother.1]), if_neg hother.2, dif_pos hc, htake, hdrop, hread]

end Token

/-! ## §4. Whole values. -/

/-- What follows an item does not lengthen its last word. -/
theorem endsWord_renderItems {items : List Json} {rest : List Char} (h : EndsWord rest) :
    EndsWord (renderItems items ++ rest) := by
  cases items with
  | nil => exact h
  | cons v items =>
    intro c hc
    simp only [renderItems, List.cons_append, List.head?_cons, Option.mem_def,
      Option.some.injEq] at hc
    rw [← hc]
    rfl

/-- What follows a member does not lengthen its last word. -/
theorem endsWord_renderMembers {members : List (String × Json)} {rest : List Char}
    (h : EndsWord rest) : EndsWord (renderMembers members ++ rest) := by
  cases members with
  | nil => exact h
  | cons m members =>
    obtain ⟨k, v⟩ := m
    intro c hc
    simp only [renderMembers, List.cons_append, List.head?_cons, Option.mem_def,
      Option.some.injEq] at hc
    rw [← hc]
    rfl

theorem endsWord_closed {c : Char} (h : isWordChar c = false) (rest : List Char) :
    EndsWord (c :: rest) := by
  intro c' hc'
  rw [← Option.some.inj hc']
  exact h

open Token

/-- Scalars other than strings are words. -/
theorem scanFrom_scalar {v : Json} {w : List Char} (found : List Token) {rest : List Char}
    (hsome : w ≠ []) (hword : ∀ c ∈ w, isWordChar c = true) (hread : word? w = some v)
    (hrest : EndsWord rest) (htext : render v = w) (htokens : tokens v = [.word v]) :
    scanFrom found (render v ++ rest) = scanFrom ((tokens v).reverse ++ found) rest := by
  rw [htext, htokens]
  exact scanFrom_word found rest hsome hword hread hrest

mutual

/-- **The text of a value scans to its tokens.** -/
theorem scanFrom_render (v : Json) (hreads : v.Throughout ReadsBack) (found : List Token)
    {rest : List Char} (hrest : EndsWord rest) :
    scanFrom found (render v ++ rest) = scanFrom ((tokens v).reverse ++ found) rest := by
  match v, hreads with
  | null, _ =>
    exact scanFrom_scalar found (List.cons_ne_nil _ _) (List.all_eq_true.mp rfl) rfl hrest rfl rfl
  | bool true, _ =>
    exact scanFrom_scalar found (List.cons_ne_nil _ _) (List.all_eq_true.mp rfl) rfl hrest rfl rfl
  | bool false, _ =>
    exact scanFrom_scalar found (List.cons_ne_nil _ _) (List.all_eq_true.mp rfl) rfl hrest rfl rfl
  | integer n, _ =>
    exact scanFrom_scalar found (integerText_ne_nil _) (fun _ => isWordChar_integerText)
      (word?_of_number? (number?_integerText n)) hrest rfl rfl
  -- the one place where the assumption on doubles is used
  | float x, hreads =>
    exact scanFrom_scalar found (floatText_ne_nil x) (isWordChar_floatText x)
      (word?_of_number? hreads.self) hrest rfl rfl
  | string s, _ => exact scanFrom_quoted found rest s
  | array [], _ =>
    exact (scanFrom_mark found (']' :: rest) rfl).trans (scanFrom_mark _ rest rfl)
  -- a value ends at the comma or bracket after it, so the pieces can be scanned in turn
  | array (v :: items), hreads =>
    have hparts := (throughout_array.mp hreads).2
    have hclose : EndsWord (']' :: rest) := endsWord_closed rfl rest
    calc scanFrom found (render (array (v :: items)) ++ rest)
        = scanFrom found ('[' :: (render v ++ (renderItems items ++ ']' :: rest))) := by
          simp [render]
      _ = scanFrom (.openBracket :: found) (render v ++ (renderItems items ++ ']' :: rest)) :=
          scanFrom_mark _ _ rfl
      _ = scanFrom ((tokens v).reverse ++ .openBracket :: found)
            (renderItems items ++ ']' :: rest) :=
          scanFrom_render v (hparts v List.mem_cons_self) _ (endsWord_renderItems hclose)
      _ = scanFrom ((itemTokens items).reverse ++ ((tokens v).reverse ++ .openBracket :: found))
            (']' :: rest) :=
          scanFrom_renderItems items (fun w hw => hparts w (List.mem_cons_of_mem _ hw)) _ hclose
      _ = scanFrom (.closeBracket :: ((itemTokens items).reverse
            ++ ((tokens v).reverse ++ .openBracket :: found))) rest :=
          scanFrom_mark _ _ rfl
      _ = scanFrom ((tokens (array (v :: items))).reverse ++ found) rest := by
          simp [tokens]
  | object [], _ =>
    exact (scanFrom_mark found ('\x7d' :: rest) rfl).trans (scanFrom_mark _ rest rfl)
  | object ((k, v) :: members), hreads =>
    have hparts := (throughout_object.mp hreads).2
    have hclose : EndsWord ('\x7d' :: rest) := endsWord_closed rfl rest
    calc scanFrom found (render (object ((k, v) :: members)) ++ rest)
        = scanFrom found ('\x7b' :: (quoted k ++ ':' :: ' ' ::
            (render v ++ (renderMembers members ++ '\x7d' :: rest)))) := by
          simp [render]
      _ = scanFrom (.colon :: .string k :: .openBrace :: found)
            (render v ++ (renderMembers members ++ '\x7d' :: rest)) := by
          rw [scanFrom_mark _ _ rfl, scanFrom_quoted, scanFrom_mark _ _ rfl, scanFrom_blank _ _ rfl]
      _ = scanFrom ((tokens v).reverse ++ .colon :: .string k :: .openBrace :: found)
            (renderMembers members ++ '\x7d' :: rest) :=
          scanFrom_render v (hparts (k, v) List.mem_cons_self) _ (endsWord_renderMembers hclose)
      _ = scanFrom ((memberTokens members).reverse
            ++ ((tokens v).reverse ++ .colon :: .string k :: .openBrace :: found))
            ('\x7d' :: rest) :=
          scanFrom_renderMembers members (fun m hm => hparts m (List.mem_cons_of_mem _ hm)) _ hclose
      _ = scanFrom (.closeBrace :: ((memberTokens members).reverse
            ++ ((tokens v).reverse ++ .colon :: .string k :: .openBrace :: found))) rest :=
          scanFrom_mark _ _ rfl
      _ = scanFrom ((tokens (object ((k, v) :: members))).reverse ++ found) rest := by
          simp [tokens]

/-- The items after the first one scan to their tokens. -/
theorem scanFrom_renderItems (items : List Json) (hreads : ∀ v ∈ items, v.Throughout ReadsBack)
    (found : List Token) {rest : List Char} (hrest : EndsWord rest) :
    scanFrom found (renderItems items ++ rest)
      = scanFrom ((itemTokens items).reverse ++ found) rest := by
  -- the induction is mutual with that of `scanFrom_render`
  match items, hreads with
  | [], _ => rfl
  | v :: items, hreads =>
    calc scanFrom found (renderItems (v :: items) ++ rest)
        = scanFrom found (',' :: ' ' :: (render v ++ (renderItems items ++ rest))) := by
          simp [renderItems]
      _ = scanFrom (.comma :: found) (render v ++ (renderItems items ++ rest)) := by
          rw [scanFrom_mark _ _ rfl, scanFrom_blank _ _ rfl]
      _ = scanFrom ((tokens v).reverse ++ .comma :: found) (renderItems items ++ rest) :=
          scanFrom_render v (hreads v List.mem_cons_self) _ (endsWord_renderItems hrest)
      _ = scanFrom ((itemTokens items).reverse ++ ((tokens v).reverse ++ .comma :: found)) rest :=
          scanFrom_renderItems items (fun w hw => hreads w (List.mem_cons_of_mem _ hw)) _ hrest
      _ = scanFrom ((itemTokens (v :: items)).reverse ++ found) rest := by
          simp [itemTokens]

/-- The members after the first one scan to their tokens. -/
theorem scanFrom_renderMembers (members : List (String × Json))
    (hreads : ∀ m ∈ members, m.2.Throughout ReadsBack) (found : List Token) {rest : List Char}
    (hrest : EndsWord rest) :
    scanFrom found (renderMembers members ++ rest)
      = scanFrom ((memberTokens members).reverse ++ found) rest := by
  match members, hreads with
  | [], _ => rfl
  | (k, v) :: members, hreads =>
    calc scanFrom found (renderMembers ((k, v) :: members) ++ rest)
        = scanFrom found (',' :: ' ' :: (quoted k ++ ':' :: ' ' ::
            (render v ++ (renderMembers members ++ rest)))) := by
          simp [renderMembers]
      _ = scanFrom (.colon :: .string k :: .comma :: found)
            (render v ++ (renderMembers members ++ rest)) := by
          rw [scanFrom_mark _ _ rfl, scanFrom_blank _ _ rfl, scanFrom_quoted,
            scanFrom_mark _ _ rfl, scanFrom_blank _ _ rfl]
      _ = scanFrom ((tokens v).reverse ++ .colon :: .string k :: .comma :: found)
            (renderMembers members ++ rest) :=
          scanFrom_render v (hreads (k, v) List.mem_cons_self) _ (endsWord_renderMembers hrest)
      _ = scanFrom ((memberTokens members).reverse
            ++ ((tokens v).reverse ++ .colon :: .string k :: .comma :: found)) rest :=
          scanFrom_renderMembers members (fun m hm => hreads m (List.mem_cons_of_mem _ hm)) _ hrest
      _ = scanFrom ((memberTokens ((k, v) :: members)).reverse ++ found) rest := by
          simp [memberTokens]

end

/-- The text of a value by itself. -/
theorem scan_render (v : Json) (hreads : v.Throughout ReadsBack) :
    scan (render v) = some (tokens v) := by
  have hall : scanFrom [] (render v ++ []) = scanFrom ((tokens v).reverse ++ []) [] :=
    scanFrom_render v hreads [] (by simp [EndsWord])
  rwa [List.append_nil, List.append_nil, scanFrom.eq_def (tokens v).reverse, List.reverse_reverse]
    at hall

end StateVault.Json
