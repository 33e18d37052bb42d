/-
  StateVault.Proofs.Json.Words
  ────────────────────────────
  **NUMBERS AS WORDS.**

  Whole numbers are written in decimal digits that do not start with a zero,
  which is the one spelling the reader takes for an integer.  Doubles are
  written with digits, a sign, a point and an exponent, so that the text of
  one is a single word.

    • `number?_integerText`   — an integer is read back from its digits,
    • `isWordChar_floatText`  — the text of a double is one word,
    • `word?_of_number?`      — no number is mistaken for a name,
    • `IsScalar.of_word?`     — no word is an array or an object.
-/
import StateVault.Json.Printer
import StateVault.Json.Token

namespace StateVault.Json

/-! ## §1. Digits. -/

/-- A digit may stand in a word. -/
theorem digit_isWordChar {c : Char} (h : c.isDigit = true) : isWordChar c = true := by
  simp [isWordChar, Char.isAlphanum, h]

theorem isDigit_of_mem_toDigits {n : Nat} {c : Char} (h : c ∈ Nat.toDigits 10 n) :
    c.isDigit = true :=
  Nat.isDigit_of_mem_toDigits (by decide) (by decide) h

theorem digitsValue_toDigits (n : Nat) : digitsValue (Nat.toDigits 10 n) = n :=
  Nat.ofDigitChars_ten_toDigits

/-- Only the number zero starts with the digit zero. -/
theorem head?_toDigits_ne_zero {n : Nat} (h : 0 < n) : (Nat.toDigits 10 n).head? ≠ some '0' := by
  induction n using Nat.strongRecOn with
  | ind n ih =>
    -- the leading digit is that of the number without its last one
    by_cases hsmall : n < 10
    · have hone : Nat.toDigits 10 n = [n.digitChar] := Nat.toDigits_of_lt_base hsmall
      have hne : n.digitChar ≠ '0' := fun hzero => Nat.ne_of_gt h (Nat.digitChar_eq_zero.mp hzero)
      simpa [hone] using hne
    · have hstep : Nat.toDigits 10 n = Nat.toDigits 10 (n / 10) ++ [(n % 10).digitChar] :=
        Nat.toDigits_of_base_le (by decide) (Nat.le_of_not_lt hsmall)
      have hbefore := ih (n / 10) (by omega) (by omega)
      rw [hstep]
      cases hds : Nat.toDigits 10 (n / 10) with
      | nil => exact absurd hds Nat.toDigits_ne_nil
      | cons c ds => simpa [hds] using hbefore

/-- A run of characters of one kind ends where another kind follows. -/
theorem run_ends {p : Char → Bool} {run rest : List Char} (hrun : ∀ c ∈ run, p c = true)
    (hrest : ∀ c ∈ rest.head?, p c = false) :
    (run ++ rest).takeWhile p = run ∧ (run ++ rest).dropWhile p = rest := by
  rw [List.takeWhile_append_of_pos hrun, List.dropWhile_append_of_pos hrun]
  cases rest with
  | nil => simp
  | cons c rest => simp [hrest c rfl]

/-- Digits are read up to where they end. -/
theorem digits?_append {ds rest : List Char} (hdigits : ∀ c ∈ ds, c.isDigit = true)
    (hsome : ds ≠ []) (hrest : ∀ c ∈ rest.head?, c.isDigit = false) :
    digits? (ds ++ rest) = some (ds, rest) := by
  obtain ⟨htake, hdrop⟩ := run_ends hdigits hrest
  unfold digits?
  rw [htake, hdrop]
  cases ds with
  | nil => exact absurd rfl hsome
  | cons c ds => rfl

/-- A text of digits is read to its end. -/
theorem digits?_of_digits {ds : List Char} (hdigits : ∀ c ∈ ds, c.isDigit = true)
    (hsome : ds ≠ []) : digits? ds = some (ds, []) := by
  have hread : digits? (ds ++ []) = some (ds, []) := digits?_append hdigits hsome nofun
  rwa [List.append_nil] at hread

/-- No number is written with a zero in front. -/
theorem wholeDigits?_toDigits (n : Nat) :
    wholeDigits? (Nat.toDigits 10 n) = some (Nat.toDigits 10 n, []) := by
  have hall : digits? (Nat.toDigits 10 n) = some (Nat.toDigits 10 n, []) :=
    digits?_of_digits (fun _ => isDigit_of_mem_toDigits) Nat.toDigits_ne_nil
  rcases Nat.eq_zero_or_pos n with rfl | hpos
  · rfl
  · have hhead := head?_toDigits_ne_zero hpos
    unfold wholeDigits?
    split
    · -- the one refused form starts with the digit zero
      next heq =>
        rw [hall] at heq
        rw [(Prod.mk.inj (Option.some.inj heq)).1] at hhead
        exact absurd rfl hhead
    · exact hall

/-! ## §2. Integers. -/

/-- The digits of a number are read as that number. -/
theorem unsigned?_toDigits (negative : Bool) (n : Nat) :
    unsigned? negative (Nat.toDigits 10 n) = wholeNumber? negative n := by
  simp [unsigned?, wholeDigits?_toDigits, fraction?, exponent?, digitsValue_toDigits]

theorem ofInt?_val (n : Integer) : Integer.ofInt? n.val = some n := by
  rw [Integer.ofInt?, dif_pos n.inRange]

/-- Without a sign a number is not negative. -/
theorem number?_of_head_ne {t : List Char} (h : t.head? ≠ some '-') :
    number? t = unsigned? false t := by
  unfold number?
  split
  · exact absurd rfl h
  · rfl

/-- **An integer is read back from its digits.** -/
theorem number?_integerText (n : Integer) : number? (integerText n.val) = some (integer n) := by
  unfold integerText
  split
  -- a minus sign stands before a number that is not zero
  next hneg =>
    have habs : -((n.val.natAbs : Int)) = n.val := by omega
    have hpos : n.val.natAbs ≠ 0 := by omega
    have hzero : ¬ (true = true ∧ n.val.natAbs = 0) := fun h => hpos h.2
    have hread : wholeNumber? true n.val.natAbs = some (integer n) := by
      rw [wholeNumber?, if_neg hzero, if_pos rfl, habs, ofInt?_val]
    rw [number?, unsigned?_toDigits, hread]
  next hnonneg =>
    have habs : ((n.val.natAbs : Int)) = n.val := by omega
    have hplus : ¬ (false = true ∧ n.val.natAbs = 0) := fun h => Bool.noConfusion h.1
    have hread : wholeNumber? false n.val.natAbs = some (integer n) := by
      rw [wholeNumber?, if_neg hplus, if_neg Bool.false_ne_true, habs, ofInt?_val]
    -- without one the first character is a digit
    have hhead : (Nat.toDigits 10 n.val.natAbs).head? ≠ some '-' := by
      intro h
      exact absurd (isDigit_of_mem_toDigits (List.mem_of_head? h)) (by decide)
    rw [number?_of_head_ne hhead, unsigned?_toDigits, hread]

/-- An integer is a word. -/
theorem isWordChar_integerText {n : Int} {c : Char} (h : c ∈ integerText n) :
    isWordChar c = true := by
  unfold integerText at h
  split at h
  · rcases List.mem_cons.mp h with rfl | h
    · rfl
    · exact digit_isWordChar (isDigit_of_mem_toDigits h)
  · exact digit_isWordChar (isDigit_of_mem_toDigits h)

theorem integerText_ne_nil (n : Int) : integerText n ≠ [] := by
  unfold integerText
  split
  · exact List.cons_ne_nil _ _
  · exact Nat.toDigits_ne_nil

/-! ## §3. Doubles. -/

/-- The shortest decimal of a double is made of digits. -/
theorem isDigit_of_mem_ofDouble {x : Double} {c : Char}
    (h : c ∈ (Shortest.ofDouble x).digits) : c.isDigit = true := by
  unfold Shortest.ofDouble at h
  split at h
  · rw [List.mem_singleton.mp h]
    rfl
  · have hfrom := List.mem_reverse.mp h
    exact isDigit_of_mem_toDigits (List.mem_reverse.mp ((List.dropWhile_sublist _).subset hfrom))

theorem isWordChar_zeros {n : Nat} {c : Char} (h : c ∈ Layout.zeros n) : isWordChar c = true := by
  rw [List.eq_of_mem_replicate h]
  rfl

/-- The positional form is made of digits, zeros and a point. -/
theorem isWordChar_positional {ds : List Char} (hds : ∀ c ∈ ds, isWordChar c = true)
    (exponent : Int) : ∀ c ∈ Layout.positional ds exponent, isWordChar c = true := by
  have hzero : isWordChar '0' = true := rfl
  have hpoint : isWordChar '.' = true := rfl
  unfold Layout.positional
  intro c hc
  -- zeros before the digits, zeros after them, or a point between them
  split at hc
  · simp only [List.cons_append, List.mem_cons, List.mem_append] at hc
    rcases hc with rfl | rfl | hc | hc
    · exact hzero
    · exact hpoint
    · exact isWordChar_zeros hc
    · exact hds c hc
  · dsimp only at hc
    split at hc
    · simp only [List.mem_append, List.mem_cons, List.not_mem_nil, or_false] at hc
      rcases hc with (hc | hc) | rfl | rfl
      · exact hds c hc
      · exact isWordChar_zeros hc
      · exact hpoint
      · exact hzero
    · simp only [List.mem_append, List.mem_cons] at hc
      rcases hc with hc | rfl | hc
      · exact hds c (List.mem_of_mem_take hc)
      · exact hpoint
      · exact hds c (List.mem_of_mem_drop hc)

/-- An exponent is part of the word. -/
theorem isWordChar_exponentText (l : Layout) (exponent : Int) :
    ∀ c ∈ l.exponentText exponent, isWordChar c = true := by
  intro c hc
  simp only [Layout.exponentText, List.cons_append, List.mem_cons, List.mem_append] at hc
  rcases hc with rfl | hc | hc
  · split <;> rfl
  · exact isWordChar_zeros hc
  · exact digit_isWordChar (isDigit_of_mem_toDigits hc)

/-- The form with an exponent is made of digits, points, signs and an `e`. -/
theorem isWordChar_scientific {ds : List Char} (hds : ∀ c ∈ ds, isWordChar c = true)
    (l : Layout) (exponent : Int) : ∀ c ∈ l.scientific ds exponent, isWordChar c = true := by
  intro c hc
  simp only [Layout.scientific, List.append_assoc, List.mem_append, List.mem_cons] at hc
  rcases hc with hc | hc | rfl | hc
  · exact hds c (List.mem_of_mem_take hc)
  · split at hc
    · exact absurd hc List.not_mem_nil
    · rcases List.mem_cons.mp hc with rfl | hc
      · rfl
      · exact hds c (List.mem_of_mem_drop hc)
  · rfl
  · exact isWordChar_exponentText l exponent c hc

/-- The text of a double is one word. -/
theorem isWordChar_floatText (x : Double) : ∀ c ∈ floatText x, isWordChar c = true := by
  have hds : ∀ c ∈ (Shortest.ofDouble x).digits, isWordChar c = true :=
    fun c h => digit_isWordChar (isDigit_of_mem_ofDouble h)
  -- after the sign, in either form
  have hbody : ∀ c ∈ (if floatLayout.lowest ≤ (Shortest.ofDouble x).exponent
        ∧ (Shortest.ofDouble x).exponent ≤ floatLayout.highest
      then Layout.positional (Shortest.ofDouble x).digits (Shortest.ofDouble x).exponent
      else floatLayout.scientific (Shortest.ofDouble x).digits (Shortest.ofDouble x).exponent),
      isWordChar c = true := by
    split
    · exact isWordChar_positional hds _
    · exact isWordChar_scientific hds floatLayout _
  unfold floatText Layout.text
  dsimp only
  split
  · intro c hc
    rcases List.mem_cons.mp hc with rfl | hc
    · rfl
    · exact hbody c hc
  · exact hbody

theorem positional_ne_nil (ds : List Char) (exponent : Int) :
    Layout.positional ds exponent ≠ [] := by
  unfold Layout.positional
  dsimp only
  split
  · simp
  · split <;> simp

theorem floatText_ne_nil (x : Double) : floatText x ≠ [] := by
  unfold floatText Layout.text
  dsimp only
  split
  · exact List.cons_ne_nil _ _
  · split
    · exact positional_ne_nil _ _
    · simp [Layout.scientific]

/-! ## §4. Names and numbers. -/

/-- No number is mistaken for a name. -/
theorem word?_of_number? {t : List Char} {v : Json} (h : number? t = some v) :
    word? t = some v := by
  have hnull : number? ['n', 'u', 'l', 'l'] = none := rfl
  have htrue : number? ['t', 'r', 'u', 'e'] = none := rfl
  have hfalse : number? ['f', 'a', 'l', 's', 'e'] = none := rfl
  unfold word?
  split
  · exact absurd h (by simp [hnull])
  · exact absurd h (by simp [htrue])
  · exact absurd h (by simp [hfalse])
  · exact h

/-- Neither an array nor an object. -/
def IsScalar : Json → Prop
  | array _ => False
  | object _ => False
  | _ => True

/-- What a whole number spells is a scalar. -/
theorem IsScalar.of_wholeNumber? {negative : Bool} {n : Nat} {v : Json}
    (h : wholeNumber? negative n = some v) : v.IsScalar := by
  unfold wholeNumber? at h
  split at h
  · obtain ⟨x, -, rfl⟩ := Option.map_eq_some_iff.mp h
    trivial
  · split at h
    · cases h
      trivial
    · obtain ⟨x, -, rfl⟩ := Option.map_eq_some_iff.mp h
      trivial

/-- What a number spells is a scalar. -/
theorem IsScalar.of_unsigned? {negative : Bool} {t : List Char} {v : Json}
    (h : unsigned? negative t = some v) : v.IsScalar := by
  simp only [unsigned?, Option.bind_eq_bind, Option.bind_eq_some_iff] at h
  obtain ⟨whole, -, fraction, -, exponent, -, h⟩ := h
  split at h
  · exact IsScalar.of_wholeNumber? h
  · obtain ⟨x, -, rfl⟩ := Option.map_eq_some_iff.mp h
    trivial

/-- No word is an array or an object. -/
theorem IsScalar.of_word? {t : List Char} {v : Json} (h : word? t = some v) : v.IsScalar := by
  unfold word? at h
  split at h
  · cases h
    trivial
  · cases h
    trivial
  · cases h
    trivial
  · unfold number? at h
    split at h
    · exact IsScalar.of_unsigned? h
    · exact IsScalar.of_unsigned? h

end StateVault.Json
