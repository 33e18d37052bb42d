/-
  StateVault.Proofs.BlockMap.Bits
  ───────────────────────────────
  **THE BITS OF A BLOCK MAP.**

  A block map is told here from its bits alone: `hasBit words block` is the
  bit of a block, wherever it stands among the words.  A map is `Tidy` when
  it has exactly the words for its blocks and no bit past the last block, so
  that bits and blocks in use are the same thing.

    • `hasBit_setFrom`, `hasBit_clear`               — what setting and
                                                       clearing do,
    • `Tidy.isUsed_releaseFrom`, `Tidy.free_releaseFrom`
                                                     — a run of blocks set free,
    • `Tidy.isUsed_highest`, `Tidy.exists_highest`   — the highest block in use.

  Every operation keeps a map tidy: `tidy_blank`, `Tidy.set`,
  `Tidy.releaseFrom`, `Tidy.extend`, `Tidy.cut`.
-/
import StateVault.BlockMap

namespace StateVault.BlockMap

/-! ## §1. One bit of one word. -/

/-- The mask of a block has one bit, at its place in the word. -/
theorem toNat_bit (block : Nat) : (bit block).toNat = 1 <<< (block % 64) := by
  have hlt : block % 64 < 64 := Nat.mod_lt _ (by decide)
  have hpow : 2 ^ (block % 64) < 2 ^ 64 := Nat.pow_lt_pow_right (by decide) hlt
  -- neither the shift nor its amount wraps: 64 bits have room for the bit
  simp only [bit, UInt64.toNat_shiftLeft, UInt64.toNat_ofNat', UInt64.toNat_one,
    Nat.one_shiftLeft]
  rw [Nat.mod_eq_of_lt (a := block % 64) (by omega), Nat.mod_eq_of_lt hlt, Nat.mod_eq_of_lt hpow]

/-- Testing the mask is testing the bit. -/
theorem and_bit_ne_zero_iff (word : UInt64) (block : Nat) :
    (word &&& bit block) ≠ 0 ↔ word.toNat.testBit (block % 64) = true := by
  have hzero : (word &&& bit block) = 0 ↔ word.toNat &&& 2 ^ (block % 64) = 0 := by
    rw [← UInt64.toNat_inj, UInt64.toNat_and, toNat_bit, Nat.one_shiftLeft]
    rfl
  rw [ne_eq, hzero]
  constructor
  · intro h
    cases htest : word.toNat.testBit (block % 64) with
    | true => rfl
    | false =>
        -- with that bit clear, every bit of the conjunction is
        refine absurd (Nat.eq_of_testBit_eq fun i => ?_) h
        rw [Nat.testBit_and, Nat.testBit_two_pow, Nat.zero_testBit]
        by_cases hi : block % 64 = i
        · rw [← hi, htest, Bool.false_and]
        · simp [hi]
  · intro htest h
    have hat := congrArg (Nat.testBit · (block % 64)) h
    simp only [Nat.testBit_and, htest, Nat.testBit_two_pow_self, Nat.zero_testBit] at hat
    exact absurd hat (by decide)

/-! ## §2. A bit among the words. -/

/-- Whether the bit of a block is set. -/
def hasBit (words : Array UInt64) (block : Nat) : Bool :=
  (words.getD (block / 64) 0).toNat.testBit (block % 64)

/-- A block is in use if it is one of the map and its bit is set. -/
theorem isUsed_eq (m : BlockMap) (block : Nat) :
    m.isUsed block = (decide (block < m.total.toNat) && hasBit m.words block) := by
  unfold isUsed hasBit wordOf
  congr 1
  rw [Bool.eq_iff_iff, bne_iff_ne]
  exact and_bit_ne_zero_iff _ _

theorem isUsed_lt {m : BlockMap} {block : Nat} (h : m.isUsed block = true) :
    block < m.total.toNat := by
  rw [isUsed_eq, Bool.and_eq_true, decide_eq_true_eq] at h
  exact h.1

theorem same_block_iff {a b : Nat} (h : a / 64 = b / 64) : a % 64 = b % 64 ↔ a = b := by
  omega

/-- Another value for the word of `at'`: of the 64 blocks of that word, each
takes its bit from the new value. -/
theorem hasBit_modify (words : Array UInt64) (at' : Nat) (f : UInt64 → UInt64) (block : Nat)
    (hat : at' / 64 < words.size) :
    hasBit (words.modify (at' / 64) f) block
      = if at' / 64 = block / 64
          then (f (words.getD (block / 64) 0)).toNat.testBit (block % 64)
          else hasBit words block := by
  unfold hasBit
  rw [Array.getD_eq_getD_getElem?, Array.getElem?_modify]
  by_cases h : at' / 64 = block / 64
  · rw [if_pos h, if_pos h]
    rw [h] at hat
    rw [Array.getD_eq_getD_getElem?, Array.getElem?_eq_getElem hat]
    rfl
  · rw [if_neg h, if_neg h, ← Array.getD_eq_getD_getElem?]

theorem hasBit_set (words : Array UInt64) (at' block : Nat) (hat : at' / 64 < words.size) :
    hasBit (words.modify (at' / 64) (· ||| bit at')) block
      = (decide (at' = block) || hasBit words block) := by
  rw [hasBit_modify words at' _ block hat]
  by_cases h : at' / 64 = block / 64
  · rw [if_pos h, UInt64.toNat_or, toNat_bit, Nat.one_shiftLeft, Nat.testBit_or,
      Nat.testBit_two_pow, Bool.or_comm]
    congr 1
    rw [decide_eq_decide]
    exact same_block_iff h
  · rw [if_neg h]
    have hne : at' ≠ block := fun he => h (by rw [he])
    simp [hne]

theorem hasBit_clear (words : Array UInt64) (at' block : Nat) (hat : at' / 64 < words.size) :
    hasBit (words.modify (at' / 64) (· &&& ~~~ bit at')) block
      = (decide (at' ≠ block) && hasBit words block) := by
  rw [hasBit_modify words at' _ block hat]
  by_cases h : at' / 64 = block / 64
  · have hlt : block % 64 < 64 := Nat.mod_lt _ (by decide)
    have hpow : 2 ^ (at' % 64) < 2 ^ 64 :=
      Nat.pow_lt_pow_right (by decide) (Nat.mod_lt _ (by decide))
    -- the complement has every bit below 64 but this one
    have hnot : (~~~ bit at').toNat = 2 ^ 64 - (2 ^ (at' % 64) + 1) := by
      rw [UInt64.toNat_not, toNat_bit, Nat.one_shiftLeft]
      show 18446744073709551616 - 1 - _ = _
      omega
    rw [if_pos h, UInt64.toNat_and, hnot, Nat.testBit_and, Nat.testBit_two_pow_sub_succ hpow,
      Nat.testBit_two_pow, Bool.and_comm]
    have heq : at' % 64 = block % 64 ↔ at' = block := same_block_iff h
    simp only [hlt, decide_true, Bool.true_and, heq, ne_eq, decide_not]
    rfl
  · rw [if_neg h]
    have hne : at' ≠ block := fun he => h (by rw [he])
    simp [hne]

@[simp] theorem size_setFrom (words : Array UInt64) (block n : Nat) :
    (setFrom words block n).size = words.size := by
  induction n generalizing words block with
  | zero => rfl
  | succ n ih => rw [setFrom, ih, Array.size_modify]

/-- A run of bits set; the run lies among the words. -/
theorem hasBit_setFrom (words : Array UInt64) (start n block : Nat)
    (hrun : start + n ≤ words.size * 64) :
    hasBit (setFrom words start n) block
      = (decide (start ≤ block ∧ block < start + n) || hasBit words block) := by
  -- by the length of the run; each step sets its first bit
  induction n generalizing words start with
  | zero =>
      have hnone : ¬ (start ≤ block ∧ block < start + 0) := by omega
      rw [setFrom, decide_eq_false hnone, Bool.false_or]
  | succ n ih =>
      have hat : start / 64 < words.size := by omega
      rw [setFrom, ih _ _ (by rw [Array.size_modify]; omega), hasBit_set _ _ _ hat, ← Bool.or_assoc]
      congr 1
      rw [Bool.eq_iff_iff, Bool.or_eq_true]
      simp only [decide_eq_true_eq]
      omega

/-! ## §3. Tidy maps. -/

/-- The words are those for the blocks, and no bit stands past the blocks. -/
structure Tidy (m : BlockMap) : Prop where
  size : m.words.size = wordsFor m.total
  clear : ∀ block, m.total.toNat ≤ block → hasBit m.words block = false

/-- Every block has its bit among the words. -/
theorem Tidy.le_words {m : BlockMap} (h : m.Tidy) : m.total.toNat ≤ m.words.size * 64 := by
  rw [h.size]
  unfold wordsFor
  omega

theorem Tidy.div_lt_size {m : BlockMap} (h : m.Tidy) {block : Nat}
    (hused : m.isUsed block = true) : block / 64 < m.words.size := by
  have hlt := isUsed_lt hused
  have hle := h.le_words
  omega

/-- In a tidy map no bit is set past the last block, so the bit says it all. -/
theorem Tidy.isUsed_eq_hasBit {m : BlockMap} (h : m.Tidy) (block : Nat) :
    m.isUsed block = hasBit m.words block := by
  rw [isUsed_eq]
  by_cases hlt : block < m.total.toNat
  · rw [decide_eq_true hlt, Bool.true_and]
  · rw [h.clear block (by omega), Bool.and_false]

@[simp] theorem hasBit_replicate_zero (n block : Nat) :
    hasBit (Array.replicate n 0) block = false := by
  unfold hasBit
  rw [Array.getD_eq_getD_getElem?, Array.getElem?_replicate]
  split <;> simp

/-- A map without blocks in use is tidy. -/
theorem tidy_blank (total : UInt64) (blockSize : UInt32) : (blank total blockSize).Tidy where
  size := by simp [blank]
  clear _ _ := hasBit_replicate_zero _ _

@[simp] theorem isUsed_blank (total : UInt64) (blockSize : UInt32) (block : Nat) :
    (blank total blockSize).isUsed block = false := by
  rw [(tidy_blank total blockSize).isUsed_eq_hasBit]
  exact hasBit_replicate_zero _ _

/-- The map after a run of blocks was taken into use. -/
theorem Tidy.isUsed_set {m : BlockMap} (h : m.Tidy) {start n : Nat} {free : UInt64}
    (hrun : start + n ≤ m.total.toNat) (block : Nat) :
    ({ m with words := setFrom m.words start n, free := free } : BlockMap).isUsed block
      = (decide (start ≤ block ∧ block < start + n) || m.isUsed block) := by
  have hwords : start + n ≤ m.words.size * 64 := Nat.le_trans hrun h.le_words
  rw [isUsed_eq, isUsed_eq]
  show (decide (block < m.total.toNat) && hasBit (setFrom m.words start n) block) = _
  rw [hasBit_setFrom _ _ _ _ hwords, Bool.and_or_distrib_left]
  congr 1
  rw [Bool.eq_iff_iff, Bool.and_eq_true]
  simp only [decide_eq_true_eq]
  omega

/-- Setting the bits of a run within the map keeps it tidy. -/
theorem Tidy.set {m : BlockMap} (h : m.Tidy) {start n : Nat} {free : UInt64}
    (hrun : start + n ≤ m.total.toNat) :
    ({ m with words := setFrom m.words start n, free := free } : BlockMap).Tidy where
  size := by
    show (setFrom m.words start n).size = _
    rw [size_setFrom, h.size]
  clear block hblock := by
    have hwords : start + n ≤ m.words.size * 64 := Nat.le_trans hrun h.le_words
    have hlate : m.total.toNat ≤ block := hblock
    have hout : ¬ (start ≤ block ∧ block < start + n) := by omega
    show hasBit (setFrom m.words start n) block = false
    rw [hasBit_setFrom _ _ _ _ hwords, decide_eq_false hout, Bool.false_or, h.clear block hlate]

/-- As many words with the same bits are the same words. -/
theorem words_eq_of_hasBit {words words' : Array UInt64} (hsize : words.size = words'.size)
    (hbits : ∀ block, hasBit words block = hasBit words' block) : words = words' := by
  apply Array.ext hsize
  intro i hi hi'
  apply UInt64.toNat_inj.mp
  apply Nat.eq_of_testBit_eq
  intro j
  by_cases hj : j < 64
  · -- the bit of block `64 * i + j`
    have hbit := hbits (64 * i + j)
    unfold hasBit at hbit
    rw [show (64 * i + j) / 64 = i by omega, show (64 * i + j) % 64 = j by omega,
      Array.getD_eq_getD_getElem?, Array.getD_eq_getD_getElem?, Array.getElem?_eq_getElem hi,
      Array.getElem?_eq_getElem hi'] at hbit
    exact hbit
  · have hpast : ∀ word : UInt64, word.toNat.testBit j = false := fun word =>
      Nat.testBit_lt_two_pow (Nat.lt_of_lt_of_le word.toNat_lt
        (Nat.pow_le_pow_right (by decide) (Nat.le_of_not_lt hj)))
    rw [hpast, hpast]

/-- A tidy map is told by its sizes, its count and the blocks in use. -/
theorem Tidy.eq_of_isUsed {m m' : BlockMap} (h : m.Tidy) (h' : m'.Tidy)
    (htotal : m.total = m'.total) (hfree : m.free = m'.free)
    (hsize : m.blockSize = m'.blockSize)
    (hused : ∀ block, m.isUsed block = m'.isUsed block) : m = m' := by
  -- the bits fix the words, since both have the words for their blocks and no more
  have hwords : m.words = m'.words := by
    apply words_eq_of_hasBit
    · rw [h.size, h'.size, htotal]
    · intro block
      rw [← h.isUsed_eq_hasBit, ← h'.isUsed_eq_hasBit, hused]
  cases m
  cases m'
  cases hwords
  cases htotal
  cases hfree
  cases hsize
  rfl

/-! ## §4. Release. -/

@[simp] theorem total_releaseBlock (m : BlockMap) (block : Nat) :
    (m.releaseBlock block).total = m.total := by
  unfold releaseBlock
  split <;> rfl

/-- A block that is released is not in use, and the other ones are as they were. -/
theorem Tidy.isUsed_releaseBlock {m : BlockMap} (h : m.Tidy) (at' block : Nat) :
    (m.releaseBlock at').isUsed block = (decide (at' ≠ block) && m.isUsed block) := by
  unfold releaseBlock
  split
  · rename_i hused
    have hat := h.div_lt_size hused
    rw [isUsed_eq, isUsed_eq]
    show (decide (block < m.total.toNat)
        && hasBit (m.words.modify (at' / 64) (· &&& ~~~ bit at')) block) = _
    rw [hasBit_clear _ _ _ hat, Bool.and_left_comm]
  · rename_i hfree
    -- a block that is free already stays free
    by_cases hsame : at' = block
    · subst hsame
      simpa using hfree
    · simp [hsame]

theorem Tidy.releaseBlock {m : BlockMap} (h : m.Tidy) (at' : Nat) : (m.releaseBlock at').Tidy := by
  unfold BlockMap.releaseBlock
  split
  · rename_i hused
    have hat := h.div_lt_size hused
    constructor
    · show (m.words.modify _ _).size = _
      rw [Array.size_modify, h.size]
    · intro block hblock
      show hasBit (m.words.modify (at' / 64) (· &&& ~~~ bit at')) block = false
      rw [hasBit_clear _ _ _ hat, h.clear block hblock, Bool.and_false]
  · exact h

@[simp] theorem total_releaseFrom (m : BlockMap) (start n : Nat) :
    (m.releaseFrom start n).total = m.total := by
  induction n generalizing m start with
  | zero => rfl
  | succ n ih => rw [releaseFrom, ih, total_releaseBlock]

/-- Releasing a run keeps a map tidy. -/
theorem Tidy.releaseFrom {m : BlockMap} (h : m.Tidy) (start n : Nat) :
    (m.releaseFrom start n).Tidy := by
  induction n generalizing m start with
  | zero => exact h
  | succ n ih => exact ih (h.releaseBlock start) (start + 1)

/-- A run of blocks set free; the others stay as they are. -/
theorem Tidy.isUsed_releaseFrom {m : BlockMap} (h : m.Tidy) (start n block : Nat) :
    (m.releaseFrom start n).isUsed block
      = (decide (¬ (start ≤ block ∧ block < start + n)) && m.isUsed block) := by
  induction n generalizing m start with
  | zero =>
      have hout : ¬ (start ≤ block ∧ block < start + 0) := by omega
      rw [BlockMap.releaseFrom, decide_eq_true hout, Bool.true_and]
  | succ n ih =>
      rw [BlockMap.releaseFrom, ih (h.releaseBlock start), h.isUsed_releaseBlock, ← Bool.and_assoc]
      congr 1
      rw [Bool.eq_iff_iff, Bool.and_eq_true]
      simp only [decide_eq_true_eq]
      omega

/-- Each block of a run in use counts as one more free block when the run is
set free. -/
theorem Tidy.free_releaseFrom {m : BlockMap} (h : m.Tidy) {start n : Nat}
    (hused : ∀ block, start ≤ block → block < start + n → m.isUsed block = true)
    (hroom : m.free.toNat + n < UInt64.size) :
    (m.releaseFrom start n).free.toNat = m.free.toNat + n := by
  induction n generalizing m start with
  | zero => rfl
  | succ n ih =>
      have hfirst : m.isUsed start = true := hused start (by omega) (by omega)
      have hone : (m.releaseBlock start).free.toNat = m.free.toNat + 1 := by
        unfold BlockMap.releaseBlock
        rw [if_pos hfirst]
        show (m.free + 1).toNat = _
        rw [UInt64.toNat_add]
        have hsize : UInt64.size = 2 ^ 64 := rfl
        exact Nat.mod_eq_of_lt (by rw [UInt64.toNat_one]; omega)
      -- the rest of the run is still in use, so each of its blocks counts too
      have hrest : ∀ block, start + 1 ≤ block → block < start + 1 + n →
          (m.releaseBlock start).isUsed block = true := by
        intro block h1 h2
        have hne : start ≠ block := by omega
        rw [h.isUsed_releaseBlock, decide_eq_true hne, Bool.true_and]
        exact hused block (by omega) (by omega)
      rw [BlockMap.releaseFrom, ih (h.releaseBlock start) hrest (by omega), hone]
      omega

/-! ## §5. Size. -/

theorem le_total_extend (m : BlockMap) (total : UInt64) :
    m.total.toNat ≤ (m.extend total).total.toNat := by
  unfold extend
  split
  · exact Nat.le_refl _
  · rename_i h
    rw [UInt64.le_iff_toNat_le] at h
    show m.total.toNat ≤ total.toNat
    omega

/-- A map is never made smaller by extending it. -/
theorem toNat_total_extend (m : BlockMap) (total : UInt64) :
    (m.extend total).total.toNat = max m.total.toNat total.toNat := by
  unfold extend
  split
  · rename_i h
    rw [UInt64.le_iff_toNat_le] at h
    omega
  · rename_i h
    rw [UInt64.le_iff_toNat_le] at h
    show total.toNat = _
    omega

/-- New blocks are counted as free ones. -/
theorem count_extend {m : BlockMap} {used : Nat}
    (hcount : m.free.toNat + used = m.total.toNat) (total : UInt64) :
    (m.extend total).free.toNat + used = (m.extend total).total.toNat := by
  unfold BlockMap.extend
  split
  · exact hcount
  · rename_i hle
    rw [UInt64.le_iff_toNat_le] at hle
    have hsub := Word.toNat_sub (a := total) (b := m.total) (by omega)
    have hlt := total.toNat_lt
    show (m.free + (total - m.total)).toNat + used = total.toNat
    rw [UInt64.toNat_add, hsub, Nat.mod_eq_of_lt (by omega)]
    omega

/-- With all blocks in use below a cut, the blocks cut off are free ones, and
their count does not go below zero. -/
theorem count_cut {m : BlockMap} {total : UInt64} {used : Nat}
    (hcount : m.free.toNat + used = m.total.toNat) (hless : total.toNat < m.total.toNat)
    (hbelow : used ≤ total.toNat) :
    (m.free - (m.total - total)).toNat + used = total.toNat := by
  have hcutoff := Word.toNat_sub (Nat.le_of_lt hless)
  have hfree := Word.toNat_sub (a := m.free) (b := m.total - total) (by omega)
  omega

@[simp] theorem hasBit_append_zeros (words : Array UInt64) (n block : Nat) :
    hasBit (words ++ Array.replicate n 0) block = hasBit words block := by
  unfold hasBit
  rw [Array.getD_eq_getD_getElem?, Array.getD_eq_getD_getElem?, Array.getElem?_append]
  by_cases h : block / 64 < words.size
  · rw [if_pos h]
  · have hnone : words[block / 64]? = none := Array.getElem?_eq_none_iff.mpr (by omega)
    rw [if_neg h, hnone, Array.getElem?_replicate]
    split <;> rfl

theorem wordsFor_mono {a b : UInt64} (h : a.toNat ≤ b.toNat) : wordsFor a ≤ wordsFor b := by
  unfold wordsFor
  omega

/-- New words are added for new blocks, no more than these need. -/
theorem Tidy.extend {m : BlockMap} (h : m.Tidy) (total : UInt64) : (m.extend total).Tidy := by
  unfold BlockMap.extend
  split
  · exact h
  · rename_i hle
    rw [UInt64.le_iff_toNat_le] at hle
    have hwords := wordsFor_mono (a := m.total) (b := total) (by omega)
    constructor
    · -- the words that are added are those that are missing
      show (m.words ++ Array.replicate _ 0).size = wordsFor total
      rw [Array.size_append, Array.size_replicate, h.size]
      omega
    · intro block hblock
      have hlate : total.toNat ≤ block := hblock
      show hasBit (m.words ++ Array.replicate _ 0) block = false
      rw [hasBit_append_zeros]
      exact h.clear block (by omega)

/-- New blocks are free, and the other ones are as they were. -/
theorem Tidy.isUsed_extend {m : BlockMap} (h : m.Tidy) (total : UInt64) (block : Nat) :
    (m.extend total).isUsed block = m.isUsed block := by
  rw [(h.extend total).isUsed_eq_hasBit, h.isUsed_eq_hasBit]
  unfold BlockMap.extend
  split
  · rfl
  · exact hasBit_append_zeros _ _ _

/-- The highest block in use among the first words: it is in use, and no
later block of these words is. -/
theorem highestIn_spec (words : Array UInt64) (k : Nat) :
    match highestIn words k with
    | some block => block < k * 64 ∧ hasBit words block = true
        ∧ ∀ b, block < b → b < k * 64 → hasBit words b = false
    | none => ∀ b, b < k * 64 → hasBit words b = false := by
  induction k with
  | zero => intro b hb; omega
  | succ k ih =>
      simp only [highestIn]
      by_cases hword : words.getD k 0 = 0
      · rw [if_pos hword]
        -- the last word is empty, so its blocks are all free
        have hlast : ∀ b, k * 64 ≤ b → b < (k + 1) * 64 → hasBit words b = false := by
          intro b h1 h2
          have hdiv : b / 64 = k := by omega
          rw [hasBit, hdiv, hword]
          exact Nat.zero_testBit _
        cases hrest : highestIn words k with
        | none =>
            rw [hrest] at ih
            intro b hb
            by_cases hbk : b < k * 64
            · exact ih b hbk
            · exact hlast b (by omega) hb
        | some block =>
            rw [hrest] at ih
            obtain ⟨hlt, hset, hlate⟩ := ih
            refine ⟨by omega, hset, fun b h1 h2 => ?_⟩
            by_cases hbk : b < k * 64
            · exact hlate b h1 hbk
            · exact hlast b (by omega) h2
      · rw [if_neg hword]
        -- the last word with a bit set: its highest bit is its binary logarithm
        have hne : (words.getD k 0).toNat ≠ 0 := fun h => hword (UInt64.toNat_inj.mp h)
        have hlog : (words.getD k 0).toNat.log2 < 64 :=
          (Nat.log2_lt hne).mpr (UInt64.toNat_lt _)
        have hdiv : (k * 64 + (words.getD k 0).toNat.log2) / 64 = k := by omega
        have hmod : (k * 64 + (words.getD k 0).toNat.log2) % 64
            = (words.getD k 0).toNat.log2 := by omega
        refine ⟨by omega, ?_, fun b h1 h2 => ?_⟩
        · rw [hasBit, hdiv, hmod]
          exact Nat.testBit_log2 hne
        · have hbdiv : b / 64 = k := by omega
          rw [hasBit, hbdiv]
          apply Nat.testBit_lt_two_pow
          have hself := Nat.lt_log2_self (n := (words.getD k 0).toNat)
          exact Nat.lt_of_lt_of_le hself (Nat.pow_le_pow_right (by decide) (by omega))

/-- The highest block in use is in use. -/
theorem Tidy.isUsed_highest {m : BlockMap} (h : m.Tidy) {block : Nat}
    (hhigh : m.highest = some block) : m.isUsed block = true := by
  have hspec := highestIn_spec m.words m.words.size
  rw [highest] at hhigh
  rw [hhigh] at hspec
  rw [h.isUsed_eq_hasBit]
  exact hspec.2.1

/-- No block in use is above the highest one. -/
theorem Tidy.exists_highest {m : BlockMap} (h : m.Tidy) {block : Nat}
    (hused : m.isUsed block = true) : ∃ high, m.highest = some high ∧ block ≤ high := by
  have hspec := highestIn_spec m.words m.words.size
  have hlt := isUsed_lt hused
  have hle := h.le_words
  rw [h.isUsed_eq_hasBit] at hused
  unfold highest
  cases hhigh : highestIn m.words m.words.size with
  | none =>
      rw [hhigh] at hspec
      rw [hspec block (by omega)] at hused
      exact absurd hused (by decide)
  | some high =>
      rw [hhigh] at hspec
      -- a block above the highest one would have its bit clear
      refine ⟨high, rfl, ?_⟩
      by_cases hcmp : block ≤ high
      · exact hcmp
      · rw [hspec.2.2 block (by omega) (by omega)] at hused
        exact absurd hused (by decide)

/-- A map is cut exactly when all the blocks in use are below the cut. -/
theorem Tidy.shrink_spec {m : BlockMap} (h : m.Tidy) {total : UInt64}
    (hless : total.toNat < m.total.toNat) :
    match m.shrink total with
    | .ok cut => (∀ block, m.isUsed block = true → block < total.toNat)
        ∧ cut = { m with
            words := m.words.take (wordsFor total)
            total := total
            free := m.free - (m.total - total) }
    | .error _ => ∃ block, m.isUsed block = true ∧ total.toNat ≤ block := by
  have hnot : ¬ m.total ≤ total := by
    rw [UInt64.le_iff_toNat_le]
    omega
  unfold shrink
  rw [if_neg hnot]
  cases hhigh : m.highest with
  | none =>
      -- without a highest block nothing is in use
      show _ ∧ _ = _
      refine ⟨fun block hused => ?_, rfl⟩
      obtain ⟨high, hsome, _⟩ := h.exists_highest hused
      rw [hhigh] at hsome
      cases hsome
  | some high =>
      by_cases hcmp : total.toNat ≤ high
      · simp only [if_pos hcmp]
        exact ⟨high, h.isUsed_highest hhigh, hcmp⟩
      · simp only [if_neg hcmp]
        refine ⟨fun block hused => ?_, trivial⟩
        obtain ⟨high', hsome, hle⟩ := h.exists_highest hused
        rw [hhigh] at hsome
        cases hsome
        omega

/-- Words that are cut off take their bits with them. -/
theorem hasBit_take (words : Array UInt64) (n block : Nat) :
    hasBit (words.take n) block = (decide (block / 64 < n) && hasBit words block) := by
  unfold hasBit
  rw [Array.getD_eq_getD_getElem?, Array.getD_eq_getD_getElem?, Array.take_eq_extract,
    Array.getElem?_extract, Nat.zero_add, Nat.sub_zero]
  by_cases h : block / 64 < n
  · rw [decide_eq_true h, Bool.true_and]
    split
    · rfl
    · have hnone : words[block / 64]? = none := Array.getElem?_eq_none_iff.mpr (by omega)
      rw [hnone]
  · rw [decide_eq_false h, Bool.false_and, if_neg (by omega)]
    exact Nat.zero_testBit _

/-- A cut below which all the blocks in use are keeps a map tidy, and each
block as it was. -/
theorem Tidy.cut {m : BlockMap} (h : m.Tidy) {total : UInt64} (free : UInt64)
    (hless : total.toNat < m.total.toNat)
    (hbelow : ∀ block, m.isUsed block = true → block < total.toNat) :
    ({ m with words := m.words.take (wordsFor total), total := total, free := free }
        : BlockMap).Tidy
      ∧ ∀ block, ({ m with
          words := m.words.take (wordsFor total), total := total, free := free }
            : BlockMap).isUsed block = m.isUsed block := by
  -- a word that is cut in the middle has no bit set past the cut
  have hbits : ∀ block, total.toNat ≤ block → hasBit m.words block = false := by
    intro block hblock
    cases hb : hasBit m.words block with
    | false => rfl
    | true =>
        rw [← h.isUsed_eq_hasBit] at hb
        have hlt := hbelow block hb
        omega
  have htidy : ({ m with
      words := m.words.take (wordsFor total), total := total, free := free }
        : BlockMap).Tidy := by
    constructor
    · show (m.words.take (wordsFor total)).size = wordsFor total
      have hmono := wordsFor_mono (a := total) (b := m.total) (by omega)
      rw [Array.take_eq_extract, Array.size_extract, h.size]
      omega
    · intro block hblock
      show hasBit (m.words.take _) block = false
      rw [hasBit_take, hbits block hblock, Bool.and_false]
  refine ⟨htidy, fun block => ?_⟩
  rw [htidy.isUsed_eq_hasBit, h.isUsed_eq_hasBit]
  show hasBit (m.words.take _) block = _
  rw [hasBit_take]
  -- below the cut all the words are kept; past it no bit was set
  by_cases hlt : block < total.toNat
  · have hword : block / 64 < wordsFor total := by
      unfold wordsFor
      omega
    rw [decide_eq_true hword, Bool.true_and]
  · rw [hbits block (by omega), Bool.and_false]

end StateVault.BlockMap
