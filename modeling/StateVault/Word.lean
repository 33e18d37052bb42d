/-
  StateVault.Word
  ───────────────
  **64-BIT WORDS THAT NEVER WRAP BY SURPRISE.**

  Block numbers, block counts and byte lengths are 64-bit words on the
  medium.  Their sums and products are taken here in one of two ways, each
  named for what becomes of a result that does not fit:

    • `addSat`, `mulSat` — hold the result at the largest word,
    • `add?`, `mul?`     — answer `none`.

  Main lemmas: `toNat_addSat`, `toNat_mulSat`, `toNat_add?`, `toNat_mul?`
  (each operation is the exact one on `Nat`, cut at the word size);
  `add?_eq_some_iff`; `toNat_sub`, `toNat_min`, `toNat_max`.
-/

namespace StateVault.Word

/-! ## §1. Operations. -/

/-- The largest 64-bit word. -/
def largest : UInt64 := 0xFFFFFFFFFFFFFFFF

/-- Sum, held at `largest` when it does not fit. -/
def addSat (a b : UInt64) : UInt64 :=
  if a.toNat + b.toNat < UInt64.size then a + b else largest

/-- Product, held at `largest` when it does not fit. -/
def mulSat (a b : UInt64) : UInt64 :=
  if a.toNat * b.toNat < UInt64.size then a * b else largest

/-- Sum, if it fits. -/
def add? (a b : UInt64) : Option UInt64 :=
  if a.toNat + b.toNat < UInt64.size then some (a + b) else none

/-- Product, if it fits. -/
def mul? (a b : UInt64) : Option UInt64 :=
  if a.toNat * b.toNat < UInt64.size then some (a * b) else none

/-! ## §2. What they are on `Nat`. -/

@[simp] theorem toNat_largest : largest.toNat = UInt64.size - 1 := rfl

/-- The sum is the exact one, cut at the largest word. -/
@[simp] theorem toNat_addSat (a b : UInt64) :
    (addSat a b).toNat = min (a.toNat + b.toNat) (UInt64.size - 1) := by
  unfold addSat
  split
  · rename_i h
    rw [UInt64.toNat_add, Nat.mod_eq_of_lt h]
    omega
  · rw [toNat_largest]
    omega

/-- The product is the exact one, cut at the largest word. -/
@[simp] theorem toNat_mulSat (a b : UInt64) :
    (mulSat a b).toNat = min (a.toNat * b.toNat) (UInt64.size - 1) := by
  unfold mulSat
  split
  · rename_i h
    rw [UInt64.toNat_mul, Nat.mod_eq_of_lt h]
    omega
  · rw [toNat_largest]
    omega

/-- There is a sum exactly if the exact one is a word. -/
theorem toNat_add? (a b : UInt64) :
    (add? a b).map UInt64.toNat
      = if a.toNat + b.toNat < UInt64.size then some (a.toNat + b.toNat) else none := by
  unfold add?
  split
  · rename_i h
    simp [Nat.mod_eq_of_lt h]
  · rfl

/-- There is a product exactly if the exact one is a word. -/
theorem toNat_mul? (a b : UInt64) :
    (mul? a b).map UInt64.toNat
      = if a.toNat * b.toNat < UInt64.size then some (a.toNat * b.toNat) else none := by
  unfold mul?
  split
  · rename_i h
    simp [Nat.mod_eq_of_lt h]
  · rfl

/-- A product that there is, is the product. -/
theorem toNat_of_mul? {a b product : UInt64} (h : mul? a b = some product) :
    product.toNat = a.toNat * b.toNat ∧ a.toNat * b.toNat < UInt64.size := by
  have hmul := toNat_mul? a b
  rw [h] at hmul
  split at hmul
  · rename_i hfits
    exact ⟨Option.some.inj hmul, hfits⟩
  · cases hmul

/-- A sum that there is, is the sum, and every word that is the sum is it. -/
theorem add?_eq_some_iff {a b sum : UInt64} :
    add? a b = some sum ↔ a.toNat + b.toNat = sum.toNat := by
  constructor
  · intro h
    have hadd := toNat_add? a b
    rw [h] at hadd
    split at hadd
    · exact (Option.some.inj hadd).symm
    · cases hadd
  · intro h
    have hfits : a.toNat + b.toNat < UInt64.size := h ▸ sum.toNat_lt_size
    rw [add?, if_pos hfits]
    congr 1
    apply UInt64.toNat_inj.mp
    rw [UInt64.toNat_add, Nat.mod_eq_of_lt hfits, h]

theorem toNat_pos {a : UInt64} (h : a ≠ 0) : 0 < a.toNat :=
  Nat.pos_of_ne_zero fun hzero => h (UInt64.toNat_inj.mp hzero)

/-- A difference that does not wrap. -/
theorem toNat_sub {a b : UInt64} (h : b.toNat ≤ a.toNat) : (a - b).toNat = a.toNat - b.toNat :=
  UInt64.toNat_sub_of_le _ _ (UInt64.le_iff_toNat_le.mpr h)

@[simp] theorem toNat_min (a b : UInt64) : (min a b).toNat = min a.toNat b.toNat := by
  show (if a ≤ b then a else b).toNat = _
  split <;> rename_i h <;> rw [UInt64.le_iff_toNat_le] at h <;> omega

@[simp] theorem toNat_max (a b : UInt64) : (max a b).toNat = max a.toNat b.toNat := by
  show (if a ≤ b then b else a).toNat = _
  split <;> rename_i h <;> rw [UInt64.le_iff_toNat_le] at h <;> omega

end StateVault.Word
