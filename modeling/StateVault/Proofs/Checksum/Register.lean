/-
  StateVault.Proofs.Checksum.Register
  ───────────────────────────────────
  **THE ALGEBRA OF THE CHECKSUM'S REGISTER.**

  A shift of the register is linear over exclusive or and loses nothing, so
  that two registers that differ once differ ever after.  Up to four bytes go
  into the register as one word: they can be told from what they leave there.

  A checksum behind its bytes leaves the same register whatever the bytes
  are, and no other word behind them does.

    • `stepBit_xor`, `stepBit_injective` — one shift,
    • `foldl_short`                      — up to four bytes at once,
    • `register_burst`                   — up to four bytes that are changed
                                           change the register,
    • `register_eq_residue_iff`          — a checksum is told by the register
                                           after it.
-/
import Mathlib.Data.Nat.Bitwise
import Mathlib.Logic.Function.Iterate
import StateVault.Bytes
import StateVault.Checksum

namespace StateVault.Checksum

/-! ## §1. One shift. -/

theorem and_one_eq_zero_iff (r : UInt32) : r &&& 1 = 0 ↔ r.toNat % 2 = 0 := by
  rw [← UInt32.toNat_inj, UInt32.toNat_and]
  show r.toNat &&& 1 = 0 ↔ _
  rw [Nat.and_one_is_mod]

/-- A register whose lowest bit is clear is only shifted. -/
theorem stepBit_of_even {r : UInt32} (h : r.toNat % 2 = 0) : stepBit r = r >>> 1 :=
  if_pos ((and_one_eq_zero_iff r).mpr h)

/-- One whose lowest bit is set takes the polynomial in as well. -/
theorem stepBit_of_odd {r : UInt32} (h : ¬ r.toNat % 2 = 0) :
    stepBit r = (r >>> 1) ^^^ polynomial :=
  if_neg fun heven => h ((and_one_eq_zero_iff r).mp heven)

/-- A shift is linear. -/
theorem stepBit_xor (a b : UInt32) : stepBit (a ^^^ b) = stepBit a ^^^ stepBit b := by
  have hlow : (a ^^^ b).toNat % 2 = (a.toNat + b.toNat) % 2 := by
    rw [UInt32.toNat_xor, Nat.xor_mod_two_eq]
  -- the polynomial comes in for each of the two that is odd, and twice is not at all
  by_cases ha : a.toNat % 2 = 0
  · by_cases hb : b.toNat % 2 = 0
    · rw [stepBit_of_even ha, stepBit_of_even hb, stepBit_of_even (by omega),
        UInt32.shiftRight_xor]
    · rw [stepBit_of_even ha, stepBit_of_odd hb, stepBit_of_odd (by omega),
        UInt32.shiftRight_xor, UInt32.xor_assoc]
  · by_cases hb : b.toNat % 2 = 0
    · rw [stepBit_of_odd ha, stepBit_of_even hb, stepBit_of_odd (by omega),
        UInt32.shiftRight_xor, UInt32.xor_assoc, UInt32.xor_assoc,
        UInt32.xor_comm polynomial]
    · rw [stepBit_of_odd ha, stepBit_of_odd hb, stepBit_of_even (by omega),
        UInt32.shiftRight_xor, UInt32.xor_assoc, UInt32.xor_comm polynomial,
        UInt32.xor_assoc, UInt32.xor_self, UInt32.xor_zero]

theorem toNat_shiftRight_one (r : UInt32) : (r >>> 1).toNat = r.toNat / 2 := by
  rw [UInt32.toNat_shiftRight]
  show r.toNat >>> 1 = _
  rw [Nat.shiftRight_eq_div_pow, Nat.pow_one]

/-- Only the zero register is shifted to zero: the polynomial has the highest
bit, and a shifted register has not. -/
theorem eq_zero_of_stepBit {r : UInt32} (h : stepBit r = 0) : r = 0 := by
  have hhalf := toNat_shiftRight_one r
  apply UInt32.toNat_inj.mp
  show r.toNat = 0
  by_cases heven : r.toNat % 2 = 0
  · rw [stepBit_of_even heven] at h
    rw [h] at hhalf
    have hzero : (0 : UInt32).toNat = 0 := rfl
    omega
  · -- the polynomial has its top bit, which a shifted word has not
    rw [stepBit_of_odd heven, UInt32.xor_eq_zero_iff] at h
    rw [h] at hhalf
    have hpolynomial : polynomial.toNat = 3988292384 := rfl
    have hword := r.toNat_lt
    omega

/-- A shift loses nothing. -/
theorem stepBit_injective : Function.Injective stepBit := by
  intro a b h
  apply UInt32.xor_eq_zero_iff.mp
  apply eq_zero_of_stepBit
  rw [stepBit_xor, h, UInt32.xor_self]

/-! ## §2. Many shifts. -/

/-- **Shifting is linear**, any number of times. -/
theorem iterate_stepBit_xor (n : Nat) (a b : UInt32) :
    stepBit^[n] (a ^^^ b) = stepBit^[n] a ^^^ stepBit^[n] b := by
  induction n generalizing a b with
  | zero => rfl
  | succ n ih => rw [Function.iterate_succ_apply, stepBit_xor, ih, ← Function.iterate_succ_apply,
      ← Function.iterate_succ_apply]

/-- Zero bits at the low end only move the others down. -/
theorem iterate_stepBit_ofNat (n m : Nat) (h : 2 ^ n * m < 2 ^ 32) :
    stepBit^[n] (UInt32.ofNat (2 ^ n * m)) = UInt32.ofNat m := by
  induction n with
  | zero => rw [Nat.pow_zero, Nat.one_mul, Function.iterate_zero_apply]
  | succ n ih =>
    have hdouble : 2 ^ (n + 1) * m = 2 * (2 ^ n * m) := by
      rw [Nat.pow_succ]
      ac_rfl
    have htoNat : (UInt32.ofNat (2 ^ (n + 1) * m)).toNat = 2 * (2 ^ n * m) := by
      rw [UInt32.toNat_ofNat', Nat.mod_eq_of_lt h, hdouble]
    -- an even number only shifts: no coefficient falls out, so nothing is added
    have hstep : stepBit (UInt32.ofNat (2 ^ (n + 1) * m)) = UInt32.ofNat (2 ^ n * m) := by
      rw [stepBit_of_even (by omega)]
      apply UInt32.toNat_inj.mp
      rw [toNat_shiftRight_one, htoNat, UInt32.toNat_ofNat', Nat.mod_eq_of_lt (by omega)]
      omega
    rw [Function.iterate_succ_apply, hstep, ih (by omega)]

/-! ## §3. Bytes. -/

/-- A byte is added to the register, and then shifted out of it. -/
theorem stepByte_eq (r : UInt32) (byte : UInt8) :
    stepByte r byte = stepBit^[8] (r ^^^ byte.toUInt32) :=
  rfl

/-- No two registers become the same over a byte. -/
theorem stepByte_injective (byte : UInt8) : Function.Injective (stepByte · byte) := by
  intro a b h
  exact (UInt32.xor_left_inj _).mp (stepBit_injective.iterate 8 h)

/-- No two registers become the same over any bytes. -/
theorem foldl_injective (bytes : List UInt8) :
    Function.Injective fun r => bytes.foldl stepByte r := by
  induction bytes with
  | nil => exact fun _ _ h => h
  | cons byte rest ih => exact fun _ _ h => stepByte_injective byte (ih h)

/-- A byte and the bytes after it, as one word. -/
theorem toUInt32_xor_ofNat (byte : UInt8) (n : Nat) (h : 256 * n < 2 ^ 32) :
    byte.toUInt32 ^^^ UInt32.ofNat (256 * n) = UInt32.ofNat (byte.toNat + 256 * n) := by
  have hbyte : byte.toNat < 2 ^ 8 := byte.toNat_lt
  apply UInt32.toNat_inj.mp
  rw [UInt32.toNat_xor, UInt8.toNat_toUInt32, UInt32.toNat_ofNat', UInt32.toNat_ofNat',
    Nat.mod_eq_of_lt h, Nat.mod_eq_of_lt (by omega)]
  -- no bit is set in both
  apply Nat.eq_of_testBit_eq
  intro i
  rw [Nat.testBit_xor, Nat.add_comm, show 256 = 2 ^ 8 from rfl,
    Nat.testBit_two_pow_mul_add n hbyte, Nat.testBit_two_pow_mul]
  by_cases hi : i < 8
  · rw [if_pos hi, decide_eq_false (by omega), Bool.false_and, Bool.xor_false]
  · rw [if_neg hi, decide_eq_true (by omega), Bool.true_and,
      Nat.testBit_lt_two_pow (Nat.lt_of_lt_of_le hbyte (Nat.pow_le_pow_right (by decide)
        (Nat.le_of_not_lt hi))), Bool.false_xor]

/-- Up to four bytes go into the register as one word. -/
theorem foldl_short (bytes : List UInt8) (h : bytes.length ≤ 4) (r : UInt32) :
    bytes.foldl stepByte r
      = stepBit^[8 * bytes.length] (r ^^^ UInt32.ofNat (Bytes.ofLe bytes)) := by
  induction bytes generalizing r with
  | nil => exact UInt32.xor_zero.symm
  | cons byte rest ih =>
    rw [List.length_cons] at h
    have hrest := Bytes.ofLe_lt rest
    have hpow : Nat.pow 256 rest.length ≤ Nat.pow 256 3 :=
      Nat.pow_le_pow_right (by decide) (by omega)
    have hthree : Nat.pow 256 3 = 16777216 := rfl
    -- what comes later may as well be there from the start, eight places higher up
    have hlater := iterate_stepBit_ofNat 8 (Bytes.ofLe rest) (by omega)
    rw [List.foldl_cons, ih (by omega), stepByte_eq, ← hlater, ← iterate_stepBit_xor,
      UInt32.xor_assoc, show 2 ^ 8 = 256 from rfl, toUInt32_xor_ofNat byte _ (by omega),
      ← Function.iterate_add_apply, List.length_cons, Nat.mul_add, Nat.mul_one]
    rfl

/-! ## §4. Bursts. -/

/-- The register after some bytes. -/
def register (bytes : List UInt8) : UInt32 :=
  bytes.foldl stepByte start

/-- **Up to four bytes that are changed change the register** after whatever
follows. -/
theorem register_burst {before burst burst' after : List UInt8}
    (hlength : burst.length = burst'.length) (hshort : burst.length ≤ 4)
    (h : register (before ++ burst ++ after) = register (before ++ burst' ++ after)) :
    burst = burst' := by
  unfold register at h
  rw [List.foldl_append, List.foldl_append, List.foldl_append, List.foldl_append] at h
  have hmiddle := foldl_injective after h
  rw [foldl_short burst hshort, foldl_short burst' (hlength ▸ hshort), hlength] at hmiddle
  have hword := (UInt32.xor_right_inj _).mp (stepBit_injective.iterate _ hmiddle)
  have hpow : Nat.pow 256 burst.length ≤ Nat.pow 256 4 := Nat.pow_le_pow_right (by decide) hshort
  have hfour : Nat.pow 256 4 = 4294967296 := rfl
  have hlt := Bytes.ofLe_lt burst
  have hlt' := Bytes.ofLe_lt burst'
  rw [← hlength] at hlt'
  -- the words are those that the bytes spell, and their digits are the bytes
  have hvalue : Bytes.ofLe burst = Bytes.ofLe burst' := by
    have := congrArg UInt32.toNat hword
    rwa [UInt32.toNat_ofNat', UInt32.toNat_ofNat', Nat.mod_eq_of_lt (by omega),
      Nat.mod_eq_of_lt (by omega)] at this
  rw [← Bytes.le_ofLe burst, ← Bytes.le_ofLe burst', hvalue, hlength]

/-! ## §5. Checksums behind their bytes. -/

/-- The register after any bytes with their checksum behind them. -/
def residue : UInt32 :=
  0xDEBB20E3

/-- The register after the four bytes of its own checksum. -/
theorem iterate_stepBit_ones : stepBit^[32] 0xFFFFFFFF = residue := by
  decide +kernel

/-- **A checksum is told by the register after it.** -/
theorem register_eq_residue_iff (bytes : List UInt8) (w : UInt32) :
    register (bytes ++ Bytes.ofWord32 w) = residue ↔ w = ofList bytes := by
  have hlength : (Bytes.ofWord32 w).length = 4 := Bytes.length_le 4 w.toNat
  have hword : UInt32.ofNat (Bytes.ofLe (Bytes.ofWord32 w)) = w := by
    rw [Bytes.ofWord32, Bytes.ofLe_le 4 w.toNat w.toNat_lt, UInt32.ofNat_toNat]
  rw [register, List.foldl_append, foldl_short _ (Nat.le_of_eq hlength), hlength, hword,
    ← iterate_stepBit_ones, (stepBit_injective.iterate 32).eq_iff, ofList]
  constructor
  · intro h
    rw [← h, ← UInt32.xor_assoc, UInt32.xor_self, UInt32.zero_xor]
  · intro h
    rw [h, ← UInt32.xor_assoc, UInt32.xor_self, UInt32.zero_xor]

/-- The nine digits from 1 to 9 with the checksum that the standard gives for
them. -/
example : register ([0x31, 0x32, 0x33, 0x34, 0x35, 0x36, 0x37, 0x38, 0x39]
    ++ Bytes.ofWord32 0xCBF43926) = residue := by
  decide +kernel

end StateVault.Checksum
