/-
  StateVault.Proofs.Json.Numeral
  ──────────────────────────────
  **NUMBERS, PART BY PART.**

  A JSON number is a minus sign or none, digits before the point, a point
  with digits after it or neither, and an exponent or none.  A `Numeral` has
  these parts and can have no others, so a text is a JSON number if it is the
  text of a numeral.  It is the text of one only, and thus denotes one
  rational.

  The reader takes every numeral.  One with a point or an exponent it takes
  for the double nearest to a whole number times a power of ten, which are
  the rational that the numeral denotes.

    • `text_injective` — no text has two readings,
    • `magnitude_eq`   — the rational, as the reader computes it,
    • `number?_text`   — what the reader makes of a numeral.
-/
import Mathlib.Algebra.Order.Field.Rat
import Mathlib.Algebra.Order.Field.Power
import Mathlib.Tactic.FieldSimp
import Mathlib.Tactic.NormNum
import Mathlib.Tactic.Ring
import StateVault.Proofs.Json.Words

namespace StateVault.Json

/-! ## §1. Digits. -/

/-- One decimal digit or more. -/
@[ext]
structure Digits where
  chars : List Char
  nonempty : chars ≠ []
  decimal : ∀ c ∈ chars, c.isDigit = true

namespace Digits

variable {ds es : Digits} {rest more : List Char} {c : Char}

/-- The whole number that digits spell. -/
def value (ds : Digits) : Nat :=
  digitsValue ds.chars

/-- Digits in front of a text keep it from starting with anything else. -/
theorem append_ne_cons (hc : c.isDigit = false) : ds.chars ++ rest ≠ c :: more := by
  intro heq
  obtain ⟨d, cs, hcons⟩ := List.exists_cons_of_ne_nil ds.nonempty
  have hd : d.isDigit = true := ds.decimal d (hcons ▸ List.mem_cons_self)
  rw [hcons, List.cons_append, List.cons.injEq] at heq
  rw [heq.1, hc] at hd
  cases hd

theorem ne_cons (hc : c.isDigit = false) : ds.chars ≠ c :: more := by
  rw [← List.append_nil ds.chars]
  exact append_ne_cons hc

/-- Digits end where no digit follows. -/
theorem append_inj (hrest : ∀ c ∈ rest.head?, c.isDigit = false)
    (hmore : ∀ c ∈ more.head?, c.isDigit = false) (h : ds.chars ++ rest = es.chars ++ more) :
    ds = es ∧ rest = more := by
  obtain ⟨htake, hdrop⟩ := run_ends ds.decimal hrest
  obtain ⟨htake', hdrop'⟩ := run_ends es.decimal hmore
  rw [h] at htake hdrop
  exact ⟨Digits.ext (htake.symm.trans htake'), hdrop.symm.trans hdrop'⟩

end Digits

theorem digitsValue_append (ds es : List Char) :
    digitsValue (ds ++ es) = 10 ^ es.length * digitsValue ds + digitsValue es := by
  have happend : digitsValue (ds ++ es) = Nat.ofDigitChars 10 es (digitsValue ds) :=
    Nat.ofDigitChars_append 0
  rw [happend, Nat.ofDigitChars_eq_ofDigitChars_zero]
  rfl

/-! ## §2. Numerals. -/

/-- How the sign of an exponent is spelled. -/
inductive ExponentSign where
  | implied
  | plus
  | minus
deriving DecidableEq, Repr

def ExponentSign.chars : ExponentSign → List Char
  | implied => []
  | plus => ['+']
  | minus => ['-']

/-- The part of a numeral from its `e` on. -/
structure Exponent where
  capital : Bool
  sign : ExponentSign
  digits : Digits

namespace Exponent

def mark (x : Exponent) : Char :=
  if x.capital then 'E' else 'e'

def chars (x : Exponent) : List Char :=
  x.mark :: (x.sign.chars ++ x.digits.chars)

def value (x : Exponent) : Int :=
  if x.sign = .minus then -x.digits.value else x.digits.value

theorem mark_eq (x : Exponent) : x.mark = 'e' ∨ x.mark = 'E' := by
  unfold mark
  split
  · exact .inr rfl
  · exact .inl rfl

end Exponent

/-- The parts of a JSON number. -/
structure Numeral where
  negative : Bool
  whole : Digits
  /-- The digit zero is the first one only if it is the only one. -/
  unpadded : whole.chars.head? = some '0' → whole.chars = ['0']
  fraction : Option Digits
  exponent : Option Exponent

/-- A magnitude with its sign. -/
def signed (negative : Bool) (magnitude : ℚ) : ℚ :=
  if negative then -magnitude else magnitude

namespace Numeral

/-- The point and the digits behind it. -/
def fractionChars : Option Digits → List Char
  | none => []
  | some ds => '.' :: ds.chars

def exponentChars : Option Exponent → List Char
  | none => []
  | some x => x.chars

/-- A numeral without its sign. -/
def body (n : Numeral) : List Char :=
  n.whole.chars ++ (fractionChars n.fraction ++ exponentChars n.exponent)

def text (n : Numeral) : List Char :=
  if n.negative then '-' :: n.body else n.body

/-- What the digits behind the point add. -/
def fractionValue : Option Digits → ℚ
  | none => 0
  | some ds => ds.value / 10 ^ ds.chars.length

/-- The power of ten in the exponent. -/
def power (n : Numeral) : Int :=
  (n.exponent.map Exponent.value).getD 0

def magnitude (n : Numeral) : ℚ :=
  (n.whole.value + fractionValue n.fraction) * 10 ^ n.power

/-- The rational that a numeral denotes. -/
def value (n : Numeral) : ℚ :=
  signed n.negative n.magnitude

variable {n m : Numeral}

/-! ## §3. One reading. -/

/-- What starts an exponent ends the digits before it. -/
theorem exponentChars_ends (x : Option Exponent) :
    ∀ c ∈ (exponentChars x).head?, c.isDigit = false ∧ c ≠ '.' := by
  intro c hc
  match x with
  | none => cases hc
  | some x =>
    rw [← Option.some.inj hc]
    rcases x.mark_eq with hmark | hmark
    · rw [hmark]
      decide
    · rw [hmark]
      decide

/-- No digit follows on the digits before the point. -/
theorem tail_ends (f : Option Digits) (x : Option Exponent) :
    ∀ c ∈ (fractionChars f ++ exponentChars x).head?, c.isDigit = false := by
  intro c hc
  match f with
  | none => exact (exponentChars_ends x c hc).1
  | some ds =>
    rw [← Option.some.inj hc]
    rfl

/-- Sign and digits of an exponent can be told from its text. -/
theorem signChars_inj {s t : ExponentSign} {ds es : Digits}
    (h : s.chars ++ ds.chars = t.chars ++ es.chars) : s = t ∧ ds = es := by
  have hplus : '+'.isDigit = false := rfl
  have hminus : '-'.isDigit = false := rfl
  match s, t with
  | .implied, .implied => exact ⟨rfl, Digits.ext h⟩
  | .plus, .plus | .minus, .minus => exact ⟨rfl, Digits.ext (List.cons.inj h).2⟩
  | .implied, .plus => exact absurd h (Digits.ne_cons hplus)
  | .implied, .minus => exact absurd h (Digits.ne_cons hminus)
  | .plus, .implied => exact absurd h.symm (Digits.ne_cons hplus)
  | .minus, .implied => exact absurd h.symm (Digits.ne_cons hminus)
  | .plus, .minus | .minus, .plus => exact absurd (List.cons.inj h).1 (by decide)

/-- The exponent can be told from its characters, and whether there is one. -/
theorem exponentChars_inj {x y : Option Exponent} (h : exponentChars x = exponentChars y) :
    x = y := by
  match x, y with
  | none, none => rfl
  | none, some _ | some _, none => cases h
  | some ⟨a, s, ds⟩, some ⟨b, t, es⟩ =>
    obtain ⟨hmark, hrest⟩ := List.cons.inj h
    have hcapital : a = b := by
      match a, b with
      | false, false | true, true => rfl
      | false, true | true, false => exact absurd hmark (by simp [Exponent.mark])
    obtain ⟨rfl, rfl⟩ := signChars_inj hrest
    rw [hcapital]

/-- Fraction and exponent can be told from the text of both. -/
theorem tail_inj {f g : Option Digits} {x y : Option Exponent}
    (h : fractionChars f ++ exponentChars x = fractionChars g ++ exponentChars y) :
    f = g ∧ x = y := by
  match f, g with
  | none, none => exact ⟨rfl, exponentChars_inj h⟩
  | some ds, some es =>
    obtain ⟨rfl, hexponent⟩ := Digits.append_inj (fun c hc => (exponentChars_ends x c hc).1)
      (fun c hc => (exponentChars_ends y c hc).1) (List.cons.inj h).2
    exact ⟨rfl, exponentChars_inj hexponent⟩
  -- an exponent does not start with a point
  | none, some _ =>
    have hpoint : '.' ∈ (exponentChars x).head? := by
      change exponentChars x = _ at h
      rw [h]
      rfl
    exact absurd rfl (exponentChars_ends x '.' hpoint).2
  | some _, none =>
    have hpoint : '.' ∈ (exponentChars y).head? := by
      change _ = exponentChars y at h
      rw [← h]
      rfl
    exact absurd rfl (exponentChars_ends y '.' hpoint).2

/-- **No text has two readings.** -/
theorem text_injective (h : n.text = m.text) : n = m := by
  have hminus : '-'.isDigit = false := rfl
  obtain ⟨a, whole, unpadded, f, x⟩ := n
  obtain ⟨b, whole', unpadded', g, y⟩ := m
  have hboth : a = b ∧ whole.chars ++ (fractionChars f ++ exponentChars x)
      = whole'.chars ++ (fractionChars g ++ exponentChars y) := by
    match a, b with
    | false, false => exact ⟨rfl, h⟩
    | true, true => exact ⟨rfl, (List.cons.inj h).2⟩
    -- without its sign a numeral starts with a digit
    | false, true => exact absurd h (Digits.append_ne_cons hminus)
    | true, false => exact absurd h.symm (Digits.append_ne_cons hminus)
  obtain ⟨rfl, hbody⟩ := hboth
  obtain ⟨rfl, htail⟩ := Digits.append_inj (tail_ends f x) (tail_ends g y) hbody
  obtain ⟨rfl, rfl⟩ := tail_inj htail
  rfl

/-! ## §4. The rational as the reader computes it. -/

/-- The digits behind the point. -/
def fractionDigits : Option Digits → List Char
  | none => []
  | some ds => ds.chars

/-- The number that all digits before the exponent spell. -/
def mantissa (n : Numeral) : Nat :=
  digitsValue (n.whole.chars ++ fractionDigits n.fraction)

/-- The power of ten that the mantissa is scaled by. -/
def scale (n : Numeral) : Int :=
  n.power - (fractionDigits n.fraction).length

/-- The value of a numeral, as the reader computes it. -/
theorem magnitude_eq (n : Numeral) : n.magnitude = n.mantissa * (10 : ℚ) ^ n.scale := by
  have hten : (10 : ℚ) ≠ 0 := by norm_num
  have hsplit : n.whole.value + fractionValue n.fraction
      = n.mantissa / (10 : ℚ) ^ (fractionDigits n.fraction).length := by
    rw [mantissa, digitsValue_append]
    cases n.fraction with
    | none => simp [fractionValue, fractionDigits, Digits.value, digitsValue]
    | some ds =>
      simp only [fractionValue, fractionDigits, Digits.value]
      push_cast
      field_simp
  rw [magnitude, hsplit, scale, zpow_sub₀ hten, zpow_natCast]
  ring

/-! ## §5. What the reader makes of it. -/

/-- The digits before the point are read, if none follows them. -/
theorem wholeDigits?_append (n : Numeral) {rest : List Char}
    (hrest : ∀ c ∈ rest.head?, c.isDigit = false) :
    wholeDigits? (n.whole.chars ++ rest) = some (n.whole.chars, rest) := by
  have hall := digits?_append n.whole.decimal n.whole.nonempty hrest
  unfold wholeDigits?
  split
  next d ds _ heq =>
    rw [hall] at heq
    -- the one refused form has a zero and more digits
    obtain ⟨hpadded, -⟩ := Prod.mk.inj (Option.some.inj heq)
    have hone := n.unpadded (by rw [hpadded]; rfl)
    rw [hone] at hpadded
    cases hpadded
  next => exact hall

/-- The digits behind the point are read, if there is one. -/
theorem fraction?_tail (f : Option Digits) (x : Option Exponent) :
    fraction? (fractionChars f ++ exponentChars x) = some (fractionDigits f, exponentChars x) := by
  match f with
  | some ds =>
    exact digits?_append ds.decimal ds.nonempty fun c hc => (exponentChars_ends x c hc).1
  | none =>
    match x with
    | none => rfl
    | some ⟨false, _, _⟩ | some ⟨true, _, _⟩ => rfl

/-- The exponent is read, if there is one. -/
theorem exponent?_chars (x : Option Exponent) :
    exponent? (exponentChars x) = some (x.map Exponent.value) := by
  match x with
  | none => rfl
  | some x =>
    have hdigits : digits? x.digits.chars = some (x.digits.chars, []) :=
      digits?_of_digits x.digits.decimal x.digits.nonempty
    rw [exponentChars, Exponent.chars, Option.map_some, Exponent.value]
    cases x.sign with
    | plus => simp [exponent?, x.mark_eq, ExponentSign.chars, hdigits, Digits.value]
    | minus => simp [exponent?, x.mark_eq, ExponentSign.chars, hdigits, Digits.value]
    | implied =>
      -- what follows the mark is a digit, and so no sign
      rw [ExponentSign.chars, List.nil_append, exponent?, if_pos x.mark_eq, hdigits]
      · rfl
      · exact fun _ => Digits.ne_cons rfl
      · exact fun _ => Digits.ne_cons rfl

theorem fractionDigits_eq_nil {f : Option Digits} : fractionDigits f = [] ↔ f = none := by
  cases f with
  | none => simp [fractionDigits]
  | some ds => simp [fractionDigits, ds.nonempty]

/-- **What the reader makes of a numeral**: a whole number if there is neither
point nor exponent, and otherwise a double. -/
theorem unsigned?_body (negative : Bool) (n : Numeral) :
    unsigned? negative n.body
      = if n.fraction = none ∧ n.exponent = none then wholeNumber? negative n.whole.value
        else (Double.ofDecimal? negative n.mantissa n.scale).map float := by
  have hwhole := wholeDigits?_append n (tail_ends n.fraction n.exponent)
  simp only [unsigned?, body, hwhole, fraction?_tail, exponent?_chars, Option.bind_eq_bind,
    Option.bind_some, List.isEmpty_iff, fractionDigits_eq_nil, Option.isNone_iff_eq_none,
    Option.map_eq_none_iff]
  rfl

/-- **What the reader makes of a numeral**: whole numbers apart, the double
nearest to what it denotes. -/
theorem number?_text (n : Numeral) :
    number? n.text
      = if n.fraction = none ∧ n.exponent = none then wholeNumber? n.negative n.whole.value
        else (Double.ofDecimal? n.negative n.mantissa n.scale).map float := by
  cases hsign : n.negative with
  | true => rw [text, if_pos hsign, number?, unsigned?_body]
  | false =>
    have hhead : n.body.head? ≠ some '-' := by
      intro h
      obtain ⟨rest, hrest⟩ := List.head?_eq_some_iff.mp h
      exact Digits.append_ne_cons rfl hrest
    rw [text, if_neg (by simp [hsign]), number?_of_head_ne hhead, unsigned?_body]

/-- Only numerals without a point and an exponent are read as integers. -/
theorem word?_text_ne_integer (h : n.fraction ≠ none ∨ n.exponent ≠ none) (i : Integer) :
    word? n.text ≠ some (integer i) := by
  intro hread
  -- no name is an integer
  have hnumber : number? n.text = some (integer i) := by
    unfold word? at hread
    split at hread
    · cases hread
    · cases hread
    · cases hread
    · exact hread
  rw [number?_text, if_neg (by tauto), Option.map_eq_some_iff] at hnumber
  obtain ⟨x, -, hfloat⟩ := hnumber
  cases hfloat

end Numeral

end StateVault.Json
