/-
  StateVault.Proofs.Json.Layout
  ─────────────────────────────
  **LAYING OUT A DECIMAL KEEPS ITS VALUE.**

  A decimal is written in one of four forms: with zeros before its digits,
  with the point among them, with zeros behind them, or with an exponent.
  Each form is the text of a numeral.  Its mantissa is that of the decimal,
  with zeros behind it in the third form only, and its scale makes up for
  the place of the point and for those zeros.

    • `exists_numeral`      — any layout,
    • `floatLayout_denotes` — the layout of doubles,
    • `floatText_denotes`   — doubles.
-/
import StateVault.Proofs.Json.Numeral

namespace StateVault

open Json (Digits ExponentSign Exponent Numeral digitsValue digitsValue_append signed)

/-! ## §1. Decimals. -/

namespace Scientific

/-- Digits with the point after the first one, times a power of ten. -/
def magnitude (s : Scientific) : ℚ :=
  digitsValue s.digits / 10 ^ (s.digits.length - 1) * 10 ^ s.exponent

/-- The rational that a decimal stands for. -/
def value (s : Scientific) : ℚ :=
  signed s.negative s.magnitude

/-- Decimal digits, the first of them not zero; zero itself is that one digit
and has the exponent zero. -/
structure Normal (s : Scientific) : Prop where
  nonempty : s.digits ≠ []
  decimal : ∀ c ∈ s.digits, c.isDigit = true
  unpadded : s.digits.head? = some '0' → s.digits = ['0'] ∧ s.exponent = 0

/-- The value of a decimal, its point moved behind the last digit. -/
theorem magnitude_eq {s : Scientific} (hsome : s.digits ≠ []) :
    s.magnitude = digitsValue s.digits * (10 : ℚ) ^ (s.exponent + 1 - s.digits.length) := by
  have hten : (10 : ℚ) ≠ 0 := by norm_num
  have hlen : 1 ≤ s.digits.length := List.length_pos_iff.mpr hsome
  have hcast : ((s.digits.length - 1 : Nat) : Int) = s.digits.length - 1 := by omega
  have hsplit : s.exponent + 1 - s.digits.length = s.exponent - (s.digits.length - 1 : Nat) := by
    omega
  rw [magnitude, hsplit, zpow_sub₀ hten, zpow_natCast]
  ring

end Scientific

/-! ## §2. Zeros. -/

@[simp] theorem digitsValue_zeros (k : Nat) : digitsValue (Layout.zeros k) = 0 := by
  induction k with
  | zero => rfl
  | succ k ih =>
    have hcons : Layout.zeros (k + 1) = ['0'] ++ Layout.zeros k := rfl
    rw [hcons, digitsValue_append, ih]
    rfl

/-- Zeros in front do not count. -/
theorem digitsValue_zeros_append (k : Nat) (ds : List Char) :
    digitsValue (Layout.zeros k ++ ds) = digitsValue ds := by
  rw [digitsValue_append, digitsValue_zeros, Nat.mul_zero, Nat.zero_add]

/-- Each zero behind is a factor of ten. -/
theorem digitsValue_append_zeros (ds : List Char) (k : Nat) :
    digitsValue (ds ++ Layout.zeros k) = 10 ^ k * digitsValue ds := by
  rw [digitsValue_append, digitsValue_zeros, Layout.zeros, List.length_replicate, Nat.add_zero]

theorem isDigit_zeros (k : Nat) : ∀ c ∈ Layout.zeros k, c.isDigit = true := by
  intro c hc
  rw [List.eq_of_mem_replicate hc]
  rfl

namespace Layout

/-! ## §3. The four forms. -/

/-- A numeral with the sign and the magnitude of a decimal. -/
structure Denotes (n : Numeral) (s : Scientific) : Prop where
  negative : n.negative = s.negative
  magnitude : n.magnitude = s.magnitude

/-- A numeral that denotes a decimal has its value, sign included. -/
theorem Denotes.value {n : Numeral} {s : Scientific} (h : Denotes n s) : n.value = s.value := by
  rw [Numeral.value, Scientific.value, h.negative, h.magnitude]

/-- The scale makes up for zeros behind the digits. -/
theorem denotes_of_parts {n : Numeral} {s : Scientific} (hsome : s.digits ≠ []) (k : Nat)
    (hnegative : n.negative = s.negative) (hmantissa : n.mantissa = 10 ^ k * digitsValue s.digits)
    (hscale : n.scale + k = s.exponent + 1 - s.digits.length) : Denotes n s := by
  have hten : (10 : ℚ) ≠ 0 := by norm_num
  refine ⟨hnegative, ?_⟩
  rw [n.magnitude_eq, Scientific.magnitude_eq hsome, ← hscale, zpow_add₀ hten, zpow_natCast,
    hmantissa]
  push_cast
  ring

/-- No exponent, and digits on both sides of a point. -/
def IsPositional (n : Numeral) : Prop :=
  n.exponent = none ∧ ∃ ds, n.fraction = some ds

/-- An exponent with a sign and at least so many digits. -/
def IsScientific (width : Nat) (n : Numeral) : Prop :=
  ∃ x, n.exponent = some x ∧ x.mark = 'e' ∧ x.sign ≠ .implied ∧ width ≤ x.digits.chars.length

variable {s : Scientific}

/-- The digit zero. -/
def zero : Digits :=
  ⟨['0'], List.cons_ne_nil _ _, List.forall_mem_singleton.mpr rfl⟩

theorem zero_chars : zero.chars = zeros 1 :=
  rfl

/-- Digits around a point, `k` zeros more than the decimal has at their end. -/
theorem exists_positional (hsome : s.digits ≠ []) (whole fraction : Digits) (k : Nat)
    (hunpadded : whole.chars.head? = some '0' → whole.chars = ['0'])
    (hmantissa : digitsValue (whole.chars ++ fraction.chars) = 10 ^ k * digitsValue s.digits)
    (hscale : (k : Int) - fraction.chars.length = s.exponent + 1 - s.digits.length) :
    ∃ n : Numeral, n.body = whole.chars ++ '.' :: fraction.chars ∧ Denotes n s
      ∧ IsPositional n := by
  let n : Numeral := ⟨s.negative, whole, hunpadded, some fraction, none⟩
  have hbody : n.body = whole.chars ++ '.' :: fraction.chars := by
    simp [n, Numeral.body, Numeral.fractionChars, Numeral.exponentChars]
  have hplaces : n.scale = 0 - (fraction.chars.length : Int) := rfl
  exact ⟨n, hbody, denotes_of_parts hsome k rfl hmantissa (by omega), rfl, fraction, rfl⟩

/-- Zeros stand before the digits. -/
theorem positional_before (hnormal : s.Normal) (he : s.exponent < 0) :
    ∃ n : Numeral, n.body = positional s.digits s.exponent ∧ Denotes n s ∧ IsPositional n := by
  have hsome : zeros (-s.exponent - 1).toNat ++ s.digits ≠ [] :=
    List.append_ne_nil_of_right_ne_nil _ hnormal.nonempty
  have hdecimal : ∀ c ∈ zeros (-s.exponent - 1).toNat ++ s.digits, c.isDigit = true :=
    List.forall_mem_append.mpr ⟨isDigit_zeros _, hnormal.decimal⟩
  have hmantissa : digitsValue (zero.chars ++ (zeros (-s.exponent - 1).toNat ++ s.digits))
      = 10 ^ 0 * digitsValue s.digits := by
    rw [zero_chars, digitsValue_zeros_append, digitsValue_zeros_append, pow_zero, Nat.one_mul]
  have hlength : (zeros (-s.exponent - 1).toNat ++ s.digits).length
      = (-s.exponent - 1).toNat + s.digits.length := by
    rw [List.length_append, zeros, List.length_replicate]
  -- the text is a zero, a point and the digits behind their zeros
  have hform : positional s.digits s.exponent
      = zero.chars ++ '.' :: (zeros (-s.exponent - 1).toNat ++ s.digits) := by
    rw [positional, if_pos he]
    rfl
  rw [hform]
  exact exists_positional hnormal.nonempty zero ⟨_, hsome, hdecimal⟩ 0 (fun _ => rfl) hmantissa
    (by simp only [hlength]; omega)

/-- The point stands among the digits. -/
theorem positional_among (hnormal : s.Normal) (he : 0 ≤ s.exponent)
    (hlen : s.exponent.toNat + 1 < s.digits.length) :
    ∃ n : Numeral, n.body = positional s.digits s.exponent ∧ Denotes n s ∧ IsPositional n := by
  have hwhole : s.digits.take (s.exponent.toNat + 1) ≠ [] := by
    rw [ne_eq, List.take_eq_nil_iff]
    exact fun h => h.elim (Nat.succ_ne_zero _) hnormal.nonempty
  have hfraction : s.digits.drop (s.exponent.toNat + 1) ≠ [] := by
    rw [ne_eq, List.drop_eq_nil_iff]
    omega
  -- a decimal that starts with a zero is too short
  have hunpadded : (s.digits.take (s.exponent.toNat + 1)).head? = some '0' →
      s.digits.take (s.exponent.toNat + 1) = ['0'] := by
    intro hzero
    rw [List.head?_take, if_neg (Nat.succ_ne_zero _)] at hzero
    rw [(hnormal.unpadded hzero).1, List.length_singleton] at hlen
    omega
  have hform : positional s.digits s.exponent
      = s.digits.take (s.exponent.toNat + 1) ++ '.' :: s.digits.drop (s.exponent.toNat + 1) := by
    rw [positional, if_neg (Int.not_lt.mpr he)]
    exact if_neg (Nat.not_le.mpr hlen)
  rw [hform]
  exact exists_positional hnormal.nonempty
    ⟨_, hwhole, fun c hc => hnormal.decimal c (List.mem_of_mem_take hc)⟩
    ⟨_, hfraction, fun c hc => hnormal.decimal c (List.mem_of_mem_drop hc)⟩ 0 hunpadded
    (by rw [List.take_append_drop, pow_zero, Nat.one_mul]) (by simp only [List.length_drop]; omega)

/-- Zeros stand behind the digits, and one more behind the point. -/
theorem positional_behind (hnormal : s.Normal) (he : 0 ≤ s.exponent)
    (hlen : s.digits.length ≤ s.exponent.toNat + 1) :
    ∃ n : Numeral, n.body = positional s.digits s.exponent ∧ Denotes n s ∧ IsPositional n := by
  have hsome : s.digits ++ zeros (s.exponent.toNat + 1 - s.digits.length) ≠ [] :=
    List.append_ne_nil_of_left_ne_nil hnormal.nonempty _
  have hdecimal : ∀ c ∈ s.digits ++ zeros (s.exponent.toNat + 1 - s.digits.length),
      c.isDigit = true :=
    List.forall_mem_append.mpr ⟨hnormal.decimal, isDigit_zeros _⟩
  -- behind the digit zero there are no more
  have hunpadded : (s.digits ++ zeros (s.exponent.toNat + 1 - s.digits.length)).head? = some '0' →
      s.digits ++ zeros (s.exponent.toNat + 1 - s.digits.length) = ['0'] := by
    intro hzero
    rw [List.head?_append_of_ne_nil _ hnormal.nonempty] at hzero
    obtain ⟨hdigits, hexponent⟩ := hnormal.unpadded hzero
    rw [hdigits, hexponent]
    rfl
  have hmantissa : digitsValue
      (s.digits ++ zeros (s.exponent.toNat + 1 - s.digits.length) ++ zero.chars)
      = 10 ^ (s.exponent.toNat + 1 - s.digits.length + 1) * digitsValue s.digits := by
    rw [zero_chars, digitsValue_append_zeros, digitsValue_append_zeros, pow_succ]
    ring
  have hform : positional s.digits s.exponent
      = s.digits ++ zeros (s.exponent.toNat + 1 - s.digits.length) ++ '.' :: zero.chars := by
    rw [positional, if_neg (Int.not_lt.mpr he)]
    exact if_pos hlen
  have hplaces : zero.chars.length = 1 := rfl
  rw [hform]
  exact exists_positional hnormal.nonempty ⟨_, hsome, hdecimal⟩ zero _ hunpadded hmantissa
    (by omega)

/-- The text of an exponent is that of an exponent with its value. -/
theorem exists_exponent (l : Layout) (e : Int) :
    ∃ x : Exponent, x.chars = 'e' :: l.exponentText e ∧ x.value = e ∧ x.mark = 'e'
      ∧ x.sign ≠ .implied ∧ l.exponentWidth ≤ x.digits.chars.length := by
  have hdecimal : ∀ c ∈ zeros (l.exponentWidth - (Nat.toDigits 10 e.natAbs).length)
      ++ Nat.toDigits 10 e.natAbs, c.isDigit = true :=
    List.forall_mem_append.mpr ⟨isDigit_zeros _, fun _ => Json.isDigit_of_mem_toDigits⟩
  let ds : Digits :=
    ⟨_, List.append_ne_nil_of_right_ne_nil _ Nat.toDigits_ne_nil, hdecimal⟩
  have hvalue : ds.value = e.natAbs :=
    (digitsValue_zeros_append _ _).trans (Json.digitsValue_toDigits _)
  have hwidth : l.exponentWidth ≤ ds.chars.length := by
    simp only [ds, List.length_append, zeros, List.length_replicate]
    omega
  by_cases he : e < 0
  -- the sign is written out in both cases
  · refine ⟨⟨false, .minus, ds⟩, ?_, ?_, rfl, ExponentSign.noConfusion, hwidth⟩
    · rw [exponentText, if_pos he]
      rfl
    · rw [Exponent.value, if_pos rfl, hvalue]
      omega
  · refine ⟨⟨false, .plus, ds⟩, ?_, ?_, rfl, ExponentSign.noConfusion, hwidth⟩
    · rw [exponentText, if_neg he]
      rfl
    · rw [Exponent.value, if_neg ExponentSign.noConfusion, hvalue]
      omega

/-- Digits behind the point, if there are any. -/
theorem exists_fraction {ds : List Char} (hdecimal : ∀ c ∈ ds, c.isDigit = true) :
    ∃ f, Numeral.fractionChars f = (if ds.isEmpty then [] else '.' :: ds)
      ∧ Numeral.fractionDigits f = ds := by
  cases ds with
  | nil => exact ⟨none, rfl, rfl⟩
  | cons c cs => exact ⟨some ⟨c :: cs, List.cons_ne_nil _ _, hdecimal⟩, rfl, rfl⟩

/-- An exponent stands behind the digits. -/
theorem exists_scientific (l : Layout) (hnormal : s.Normal) :
    ∃ n : Numeral, n.body = l.scientific s.digits s.exponent ∧ Denotes n s
      ∧ IsScientific l.exponentWidth n := by
  obtain ⟨d, ds, hdigits⟩ := List.exists_cons_of_ne_nil hnormal.nonempty
  have hdecimal : ∀ c ∈ d :: ds, c.isDigit = true := hdigits ▸ hnormal.decimal
  obtain ⟨x, hchars, hvalue, hshape⟩ := exists_exponent l s.exponent
  obtain ⟨f, hpoint, hrest⟩ := exists_fraction fun c hc => hdecimal c (List.mem_cons_of_mem _ hc)
  -- one digit, the others as its fraction, and the exponent
  let n : Numeral :=
    { negative := s.negative
      whole := ⟨[d], List.cons_ne_nil _ _,
        List.forall_mem_singleton.mpr (hdecimal d List.mem_cons_self)⟩
      unpadded := fun h => congrArg (fun c => [c]) (Option.some.inj h)
      fraction := f
      exponent := some x }
  have hbody : n.body = l.scientific s.digits s.exponent := by
    simp [n, Numeral.body, Numeral.exponentChars, hpoint, hchars, scientific, hdigits]
  have hmantissa : n.mantissa = 10 ^ 0 * digitsValue s.digits := by
    rw [pow_zero, Nat.one_mul, hdigits, Numeral.mantissa, hrest]
    rfl
  -- the point has moved behind the first digit
  have hscale : n.scale = s.exponent - ds.length := by
    rw [Numeral.scale, hrest, ← hvalue]
    rfl
  have hlength : s.digits.length = ds.length + 1 := congrArg List.length hdigits
  exact ⟨n, hbody, denotes_of_parts hnormal.nonempty 0 rfl hmantissa (by omega), x, rfl, hshape⟩

/-! ## §4. Texts. -/

/-- **In any layout a decimal is the text of a numeral with its sign and its
value**, positional just where the layout says so. -/
theorem exists_numeral (l : Layout) (hnormal : s.Normal) :
    ∃ n : Numeral, n.text = l.text s ∧ Denotes n s
      ∧ if l.lowest ≤ s.exponent ∧ s.exponent ≤ l.highest then IsPositional n
        else IsScientific l.exponentWidth n := by
  by_cases hrange : l.lowest ≤ s.exponent ∧ s.exponent ≤ l.highest
  · -- one of the three forms without an exponent
    obtain ⟨n, hbody, hdenotes, hshape⟩ : ∃ n : Numeral,
        n.body = positional s.digits s.exponent ∧ Denotes n s ∧ IsPositional n := by
      by_cases he : s.exponent < 0
      · exact positional_before hnormal he
      · by_cases hlen : s.digits.length ≤ s.exponent.toNat + 1
        · exact positional_behind hnormal (Int.not_lt.mp he) hlen
        · exact positional_among hnormal (Int.not_lt.mp he) (Nat.not_le.mp hlen)
    refine ⟨n, ?_, hdenotes, ?_⟩
    · rw [Numeral.text, Layout.text, hdenotes.negative, hbody, if_pos hrange]
    · rwa [if_pos hrange]
  · obtain ⟨n, hbody, hdenotes, hshape⟩ := exists_scientific l hnormal
    refine ⟨n, ?_, hdenotes, ?_⟩
    · rw [Numeral.text, Layout.text, hdenotes.negative, hbody, if_neg hrange]
    · rwa [if_neg hrange]

/-- The positional form has a point. -/
theorem IsPositional.point_mem {n : Numeral} (h : IsPositional n) : '.' ∈ n.text := by
  obtain ⟨-, ds, hfraction⟩ := h
  have hbody : '.' ∈ n.body := by simp [Numeral.body, hfraction, Numeral.fractionChars]
  rw [Numeral.text]
  split
  · exact List.mem_cons_of_mem _ hbody
  · exact hbody

/-- The scientific form has an exponent mark. -/
theorem IsScientific.mark_mem {width : Nat} {n : Numeral} (h : IsScientific width n) :
    'e' ∈ n.text := by
  obtain ⟨x, hexponent, hmark, -⟩ := h
  have hbody : 'e' ∈ n.body := by
    simp [Numeral.body, hexponent, Numeral.exponentChars, Exponent.chars, hmark]
  rw [Numeral.text]
  split
  · exact List.mem_cons_of_mem _ hbody
  · exact hbody

/-- No numeral is of both forms. -/
theorem IsScientific.not_positional {width : Nat} {n : Numeral} (h : IsScientific width n) :
    ¬ IsPositional n := by
  obtain ⟨x, hexponent, -⟩ := h
  rintro ⟨hnone, -⟩
  rw [hexponent] at hnone
  cases hnone

end Layout

/-! ## §5. The layout of doubles. -/

namespace Json

open Layout (IsPositional IsScientific Denotes)

/-- **The layout of doubles keeps the value of a decimal.**  Its text is that
of one numeral and no other, with the same sign, also that of zero, and the
same value.  It has a point or an exponent and is not read as an integer.
For exponents from -4 to 15 it is positional; otherwise it has an exponent
with a sign and at least two digits. -/
theorem floatLayout_denotes {s : Scientific} (hnormal : s.Normal) :
    ∃ n : Numeral, n.text = floatLayout.text s
      ∧ (∀ m : Numeral, m.text = floatLayout.text s → m = n)
      ∧ n.value = s.value ∧ n.negative = s.negative
      ∧ ('.' ∈ floatLayout.text s ∨ 'e' ∈ floatLayout.text s)
      ∧ (∀ i, word? (floatLayout.text s) ≠ some (integer i))
      ∧ (IsPositional n ↔ -4 ≤ s.exponent ∧ s.exponent ≤ 15)
      ∧ (IsPositional n ∨ IsScientific 2 n) := by
  obtain ⟨n, htext, hdenotes, hshape⟩ := Layout.exists_numeral floatLayout hnormal
  -- no numeral is spelled as another one
  have hunique : ∀ m : Numeral, m.text = floatLayout.text s → m = n :=
    fun m hm => Numeral.text_injective (hm.trans htext.symm)
  refine ⟨n, htext, hunique, hdenotes.value, hdenotes.negative, ?_⟩
  rw [← htext]
  -- within the range there is a point, outside it a mark
  by_cases hrange : floatLayout.lowest ≤ s.exponent ∧ s.exponent ≤ floatLayout.highest
  · rw [if_pos hrange] at hshape
    obtain ⟨hnone, ds, hfraction⟩ := id hshape
    have hpoint : n.fraction ≠ none := by simp [hfraction]
    exact ⟨.inl hshape.point_mem, Numeral.word?_text_ne_integer (.inl hpoint),
      iff_of_true hshape hrange, .inl hshape⟩
  · rw [if_neg hrange] at hshape
    obtain ⟨x, hexponent, -⟩ := id hshape
    have hmark : n.exponent ≠ none := by simp [hexponent]
    exact ⟨.inr hshape.mark_mem, Numeral.word?_text_ne_integer (.inr hmark),
      iff_of_false hshape.not_positional hrange, .inr hshape⟩

/-- A decimal with a negative exponent of one digit. -/
def small : Scientific :=
  ⟨true, ['1', '5'], -7⟩

/-- It is written with an exponent of two digits. -/
theorem floatLayout_denotes_small :
    small.Normal ∧ ∃ n : Numeral, n.text = "-1.5e-07".toList
      ∧ n.value = -3 / 20000000 ∧ n.negative = true ∧ ¬ IsPositional n ∧ IsScientific 2 n := by
  have hdecimal : small.digits.all Char.isDigit = true := rfl
  have hnormal : small.Normal := ⟨by decide, List.all_eq_true.mp hdecimal, by decide⟩
  obtain ⟨n, htext, -, hvalue, hnegative, -, -, hpositional, hshape⟩ :=
    floatLayout_denotes hnormal
  have hspelled : floatLayout.text small = "-1.5e-07".toList := by decide
  have hthis : small.value = -3 / 20000000 := by
    have hdigits : digitsValue small.digits = 15 := rfl
    rw [Scientific.value, Scientific.magnitude, hdigits]
    norm_num [small, signed]
  have hnot : ¬ IsPositional n := fun h => absurd (hpositional.mp h).1 (by decide)
  exact ⟨hnormal, n, htext.trans hspelled, hvalue.trans hthis, hnegative, hnot,
    hshape.resolve_left hnot⟩

end Json

/-! ## §6. Doubles. -/

namespace Shortest

/-- Zero is below what reads back as a double other than zero. -/
theorem readsBack_zero {x : Double} (hx : x.significand ≠ 0) (g : Int) :
    readsBack x 0 g = false := by
  have hbelow : ∀ b, 0 < b → compareScaled 0 g b (x.exponent - 2) = .lt := by
    intro b hb
    have hpos : 0 < (b * Nat.pow 10 (-g).toNat) <<< (x.exponent - 2).toNat := by
      rw [Nat.shiftLeft_eq]
      exact Nat.mul_pos (Nat.mul_pos hb (Nat.pow_pos (by decide))) (Nat.two_pow_pos _)
    rw [compareScaled, Nat.zero_mul, Nat.zero_shiftLeft]
    exact Nat.compare_eq_lt.mpr hpos
  have hlow : 0 < if x.isNarrowBelow then 4 * x.significand - 1 else 4 * x.significand - 2 := by
    split <;> omega
  simp [readsBack, hbelow _ hlow]

/-- A candidate for a double other than zero has a value other than zero. -/
theorem candidate?_pos {x : Double} (hx : x.significand ≠ 0) {g : Int} {c : Nat}
    (h : candidate? x g = some c) : 0 < c := by
  -- the lower of the two is taken only if it reads back
  have hlower : ∀ {c}, readsBack x c g = true → 0 < c := by
    rintro (_ | c) hread
    · rw [readsBack_zero hx] at hread
      cases hread
    · exact Nat.succ_pos c
  unfold candidate? at h
  dsimp only at h
  split at h
  next hread _ =>
    split at h
    · rw [← Option.some.inj h]
      exact hlower hread
    · rw [← Option.some.inj h]
      exact Nat.succ_pos _
  next hread _ =>
    rw [← Option.some.inj h]
    exact hlower hread
  next =>
    rw [← Option.some.inj h]
    exact Nat.succ_pos _
  next => cases h

/-- The search ends with a number greater than zero. -/
theorem search_pos {x : Double} (hx : x.significand ≠ 0) (order : Int) (n left : Nat) :
    0 < (search x order n left).1 := by
  induction left generalizing n with
  | zero =>
    have hpos : 0 < x.significand * 5 ^ (-x.exponent).toNat :=
      Nat.mul_pos (Nat.pos_of_ne_zero hx) (Nat.pow_pos (by decide))
    rw [search, Nat.shiftLeft_eq]
    exact Nat.mul_pos hpos (Nat.two_pow_pos _)
  | succ left ih =>
    rw [search]
    split
    next c hc => exact candidate?_pos hx hc
    next => exact ih (n + 1)

/-- Dropping zeros at the end leaves the first digit where it is. -/
theorem head?_dropZeros {c : Char} {ds : List Char} (hc : c ≠ '0') :
    (dropZeros (c :: ds)).head? = some c := by
  have hstop : [c].dropWhile (· == '0') = [c] := List.dropWhile_cons_of_neg (by simpa using hc)
  rw [dropZeros, List.reverse_cons, List.dropWhile_append, hstop]
  split
  · rfl
  · rw [List.reverse_append]
    rfl

/-- The digits of a double are those of a decimal. -/
theorem normal_ofDouble (x : Double) : (ofDouble x).Normal := by
  have hdecimal : ∀ c ∈ (ofDouble x).digits, c.isDigit = true :=
    fun c h => Json.isDigit_of_mem_ofDouble h
  by_cases hx : x.significand = 0
  · have hzero : ofDouble x = ⟨x.isNegative, ['0'], 0⟩ := if_pos hx
    rw [hzero] at hdecimal ⊢
    exact ⟨List.cons_ne_nil _ _, hdecimal, fun _ => ⟨rfl, rfl⟩⟩
  · -- a whole number other than zero starts with another digit, and keeps it
    have hpos : 0 < (search x (decimalOrder x) 1 17).1 := search_pos hx _ 1 17
    have hdigits : (ofDouble x).digits
        = dropZeros (Nat.toDigits 10 (search x (decimalOrder x) 1 17).1) := by
      rw [ofDouble, if_neg hx]
    obtain ⟨c, ds, hcons⟩ := List.exists_cons_of_ne_nil
      (Nat.toDigits_ne_nil (n := (search x (decimalOrder x) 1 17).1) (b := 10))
    have hc : c ≠ '0' := by
      have hhead := Json.head?_toDigits_ne_zero hpos
      rw [hcons] at hhead
      exact fun h => hhead (congrArg some h)
    have hhead : (ofDouble x).digits.head? = some c := by
      rw [hdigits, hcons, head?_dropZeros hc]
    refine ⟨?_, hdecimal, fun hzero => absurd (hhead.symm.trans hzero) ?_⟩
    · intro hnil
      rw [hnil] at hhead
      cases hhead
    · exact fun h => hc (Option.some.inj h)

end Shortest

/-- The text of a double is a JSON number with the value of its digits. -/
theorem Json.floatText_denotes (x : Double) :
    ∃ n : Numeral, n.text = floatText x ∧ n.value = (Shortest.ofDouble x).value := by
  obtain ⟨n, htext, hdenotes, -⟩ :=
    Layout.exists_numeral floatLayout (Shortest.normal_ofDouble x)
  exact ⟨n, htext, hdenotes.value⟩

end StateVault
