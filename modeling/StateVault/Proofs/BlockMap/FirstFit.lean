/-
  StateVault.Proofs.BlockMap.FirstFit
  ───────────────────────────────────
  **THE SEARCH FINDS THE LOWEST FREE RUN, AND MISSES NONE.**

  The search for `needed` free blocks walks up the map with the length of the
  free run that ends before the present block.  Its invariant: that run is
  free and shorter than `needed`, and no free run of `needed` blocks starts
  before it.  Passing a full word keeps the invariant, since each of its 64
  blocks breaks every run that reaches it.

    • `firstFit_spec` — the answer is the lowest free run, or there is none,
    • `allocate_spec` — the same for the allocation, where the comparison
                        with the running count never changes the answer.
-/
import StateVault.Proofs.BlockMap.Bits

namespace StateVault.BlockMap

/-! ## §1. Free runs. -/

/-- `n` blocks from `start` on, all of them in the map and free. -/
def FreeRun (m : BlockMap) (start n : Nat) : Prop :=
  start + n ≤ m.total.toNat
    ∧ ∀ block, start ≤ block → block < start + n → m.isUsed block = false

/-- A run cannot pass a block in use. -/
theorem FreeRun.not_across {m : BlockMap} {start n block : Nat} (h : m.FreeRun start n)
    (hused : m.isUsed block = true) : block < start ∨ start + n ≤ block := by
  by_cases hlow : start ≤ block
  · by_cases hhigh : block < start + n
    · rw [h.2 block hlow hhigh] at hused
      exact absurd hused (by decide)
    · omega
  · omega

/-- All blocks of a word without a clear bit are in use. -/
theorem isUsed_of_fullWord {m : BlockMap} {block b : Nat} (hword : m.wordOf block = fullWord)
    (hsame : b / 64 = block / 64) (hlt : b < m.total.toNat) : m.isUsed b = true := by
  rw [isUsed_eq, decide_eq_true hlt, Bool.true_and, hasBit, hsame]
  have hfull : m.words.getD (block / 64) 0 = fullWord := hword
  rw [hfull]
  -- the full word is the number of 64 ones
  show Nat.testBit (2 ^ 64 - 1) (b % 64) = true
  rw [Nat.testBit_two_pow_sub_one, decide_eq_true_eq]
  omega

/-! ## §2. The search. -/

/-- Where the search stands: the `run` blocks before `block` are free and
fewer than `needed`, and no free run of `needed` blocks starts before them. -/
structure Searching (m : BlockMap) (needed block run : Nat) : Prop where
  short : run < needed
  behind : run ≤ block
  free : ∀ b, block - run ≤ b → b < block → m.isUsed b = false
  none_before : ∀ start, m.FreeRun start needed → block - run ≤ start

theorem searching_zero (m : BlockMap) {needed : Nat} (h : 0 < needed) :
    Searching m needed 0 0 where
  short := h
  behind := Nat.le_refl 0
  free b _ h2 := absurd h2 (Nat.not_lt_zero b)
  none_before start _ := Nat.zero_le start

/-- Past blocks in use the search starts over. -/
theorem Searching.restart {m : BlockMap} {needed block run next : Nat}
    (h : Searching m needed block run) (hnext : block < next)
    (hused : ∀ b, block ≤ b → b < next → b < m.total.toNat → m.isUsed b = true)
    (hlt : block < m.total.toNat) : Searching m needed next 0 where
  short := by
    have hshort := h.short
    omega
  behind := Nat.zero_le _
  free b h1 h2 := absurd h2 (by omega)
  none_before start hrun := by
    have hshort := h.short
    have hbehind := h.behind
    have hlow := h.none_before start hrun
    have hin := hrun.1
    by_cases hstart : start ≤ block
    · -- the run would have to pass `block`
      have hcross := hrun.not_across (hused block (Nat.le_refl _) hnext hlt)
      omega
    · by_cases hbefore : start < next
      · -- the run starts with a block in use
        have hcross := hrun.not_across (hused start (by omega) hbefore (by omega))
        omega
      · omega

theorem Searching.longer {m : BlockMap} {needed block run : Nat}
    (h : Searching m needed block run) (hfree : m.isUsed block = false)
    (hmore : run + 1 ≠ needed) : Searching m needed (block + 1) (run + 1) where
  short := by
    have hshort := h.short
    omega
  behind := by
    have hbehind := h.behind
    omega
  free b h1 h2 := by
    by_cases hb : b = block
    · rw [hb, hfree]
    · exact h.free b (by omega) (by omega)
  none_before start hrun := by
    have hlow := h.none_before start hrun
    omega

/-- What the search answers. -/
theorem firstFit_spec (m : BlockMap) (needed block run : Nat)
    (h : Searching m needed block run) :
    match m.firstFit needed block run with
    | some start => m.FreeRun start needed ∧ ∀ s, m.FreeRun s needed → start ≤ s
    | none => ∀ s, ¬ m.FreeRun s needed := by
  -- along the search itself: its invariant is what each call hands to the next
  fun_induction firstFit m needed block run with
  | case1 block run hlt hfull ih =>
      -- a full word
      refine ih (h.restart (by omega) (fun b h1 h2 hb => ?_) hlt)
      exact isUsed_of_fullWord hfull.2 (by omega) hb
  | case2 block run hlt hfull hused ih =>
      -- one block in use
      refine ih (h.restart (by omega) (fun b h1 h2 _ => ?_) hlt)
      rw [show b = block by omega]
      exact hused
  | case3 block run hlt hfull hused hlast =>
      -- the run is long enough with this block
      have hbehind := h.behind
      have hfree : m.isUsed block = false := by simpa using hused
      refine ⟨⟨by omega, fun b h1 h2 => ?_⟩, fun s hs => ?_⟩
      · by_cases hb : b = block
        · rw [hb, hfree]
        · exact h.free b (by omega) (by omega)
      · have hlow := h.none_before s hs
        omega
  | case4 block run hlt hfull hused hmore ih =>
      exact ih (h.longer (by simpa using hused) hmore)
  | case5 block run hend =>
      -- the end of the map: what is left of it is shorter than `needed`
      intro s hs
      have hlow := h.none_before s hs
      have hshort := h.short
      have hin := hs.1
      omega

/-! ## §3. Counting. -/

/-- The number of blocks in use. -/
def usedCount (m : BlockMap) : Nat :=
  (List.range m.total.toNat).countP m.isUsed

/-- The running count is the number of free blocks. -/
def Counted (m : BlockMap) : Prop :=
  m.free.toNat + m.usedCount = m.total.toNat

/-- Two predicates that never hold together are counted apart. -/
theorem countP_add_of_apart {p q : Nat → Bool} (hpq : ∀ b, p b = true → q b = false)
    (bs : List Nat) : bs.countP p + bs.countP q = bs.countP fun b => p b || q b := by
  induction bs with
  | nil => rfl
  | cons b bs ih =>
      simp only [List.countP_cons]
      cases hp : p b with
      | true =>
          rw [hpq b hp]
          simp
          omega
      | false =>
          simp only [Bool.false_or]
          simp
          omega

/-- A run within the range has as many members as it is long. -/
theorem countP_between (n start count : Nat) (h : start + count ≤ n) :
    (List.range n).countP (fun b => decide (start ≤ b ∧ b < start + count)) = count := by
  -- for a list that ends anywhere, so that an induction on its end goes through
  have hgen : ∀ k, (List.range k).countP (fun b => decide (start ≤ b ∧ b < start + count))
      = min (start + count) k - min start k := by
    intro k
    induction k with
    | zero => simp
    | succ k ih =>
        rw [List.range_succ, List.countP_append, ih, List.countP_singleton]
        by_cases hk : start ≤ k ∧ k < start + count
        · simp only [hk, and_self, decide_true, if_true]
          omega
        · simp only [hk, decide_false]
          simp
          omega
  rw [hgen n]
  omega

/-- A free run is not among the blocks in use. -/
theorem usedCount_add_le {m : BlockMap} {start n : Nat} (h : m.FreeRun start n) :
    m.usedCount + n ≤ m.total.toNat := by
  have hapart : ∀ b, m.isUsed b = true → decide (start ≤ b ∧ b < start + n) = false := by
    intro b hused
    have hcross := h.not_across hused
    rw [decide_eq_false_iff_not]
    omega
  -- blocks in use and blocks of the run are counted apart, among all blocks
  have hsum := countP_add_of_apart hapart (List.range m.total.toNat)
  have hle : (List.range m.total.toNat).countP
      (fun b => m.isUsed b || decide (start ≤ b ∧ b < start + n)) ≤ m.total.toNat :=
    Nat.le_trans List.countP_le_length (Nat.le_of_eq List.length_range)
  rw [countP_between _ _ _ h.1] at hsum
  unfold usedCount
  omega

/-- A free run would count for more free blocks than there are. -/
theorem Counted.not_freeRun {m : BlockMap} (hcount : m.Counted) {needed : UInt64}
    (hfew : m.free < needed) (start : Nat) : ¬ m.FreeRun start needed.toNat := by
  intro hrun
  have hle := usedCount_add_le hrun
  rw [UInt64.lt_iff_toNat_lt] at hfew
  unfold Counted at hcount
  omega

/-! ## §4. Allocation. -/

/-- **Allocation is first fit, exactly**: the lowest free run, now in use, or
the error that there is none. -/
theorem allocate_spec {m : BlockMap} (hcount : m.Counted) {needed : UInt64}
    (hneeded : needed ≠ 0) :
    match m.allocate needed with
    | .ok (e, after) => e.count = needed ∧ m.FreeRun e.start.toNat needed.toNat
        ∧ (∀ s, m.FreeRun s needed.toNat → e.start.toNat ≤ s)
        ∧ after = { m with
            words := setFrom m.words e.start.toNat needed.toNat
            free := m.free - needed }
    | .error e => e = .noSpace needed m.free ∧ ∀ s, ¬ m.FreeRun s needed.toNat := by
  have hpos := Word.toNat_pos hneeded
  unfold allocate
  rw [if_neg hneeded]
  by_cases hfew : m.free < needed
  · rw [if_pos hfew]
    exact ⟨rfl, hcount.not_freeRun hfew⟩
  · rw [if_neg hfew]
    -- enough blocks are free in all: whether they are in a row the search tells
    have hspec := firstFit_spec m needed.toNat 0 0 (searching_zero m hpos)
    cases hfound : m.firstFit needed.toNat 0 0 with
    | none =>
        rw [hfound] at hspec
        exact ⟨rfl, hspec⟩
    | some start =>
        rw [hfound] at hspec
        obtain ⟨hrun, hleast⟩ := hspec
        -- the run lies in the map, whose total is a word
        have hstart : (UInt64.ofNat start).toNat = start := by
          have htotal := m.total.toNat_lt
          have hin := hrun.1
          rw [UInt64.toNat_ofNat']
          exact Nat.mod_eq_of_lt (by omega)
        simp only
        rw [hstart]
        exact ⟨trivial, hrun, hleast, rfl⟩

end StateVault.BlockMap
