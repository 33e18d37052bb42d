/-
  StateVault.Proofs.BlockMap.LowestRun
  ────────────────────────────────────
  **FIRST FIT IS EXACT.**

  An allocation looks at the running count of free blocks first, and passes a
  full word of 64 blocks in one step.  `BlockMap.allocateByWalk` does neither:
  it walks over the map block by block.  Both answer alike on every map that
  calls have made (`BlockMap.Attained`), and the answer is the lowest run of
  free blocks that is long enough, or the error that there is none.

    • `walk_past`, `firstFit_eq_walk` — full words are passed for their blocks,
    • `Represents.allocate_eq_walk`   — the count never changes the answer,
    • `Attained.represents`           — after any calls the count is right,
    • `allocate_exact`                — the lowest run, and nothing else taken.
-/
import Mathlib.Order.Bounds.Basic
import StateVault.Proofs.BlockMap.Refinement

namespace StateVault.BlockMap

/-! ## §1. Block by block. -/

/-- The start of the first run of `needed` free blocks among the `left` blocks
from `block` on, where the `run` blocks before `block` are free. -/
def walk (m : BlockMap) (needed block run : Nat) : (left : Nat) → Option Nat
  | 0 => none
  | left + 1 =>
      if m.isUsed block then walk m needed (block + 1) 0 left
      else if run + 1 = needed then some (block + 1 - needed)
      else walk m needed (block + 1) (run + 1) left

/-- An allocation that looks at every block and at no count. -/
def allocateByWalk (m : BlockMap) (needed : UInt64) : Except Error (Extent × BlockMap) :=
  if needed = 0 then .ok (.empty, m)
  else
    match m.walk needed.toNat 0 0 m.total.toNat with
    | none => .error (.noSpace needed m.free)
    | some start =>
        .ok (⟨UInt64.ofNat start, needed⟩,
          { m with words := setFrom m.words start needed.toNat, free := m.free - needed })

/-- Blocks in use are walked past, and end the run before them. -/
theorem walk_past (m : BlockMap) (needed block run n left : Nat)
    (hused : ∀ b, block ≤ b → b ≤ block + n → m.isUsed b = true) :
    m.walk needed block run (n + 1 + left) = m.walk needed (block + (n + 1)) 0 left := by
  -- by the number of blocks; the first of them is in use
  induction n generalizing block run with
  | zero =>
    rw [Nat.zero_add, Nat.add_comm 1 left, walk, if_pos (hused block (by omega) (by omega))]
  | succ n ih =>
    rw [show n + 1 + 1 + left = (n + 1 + left) + 1 by omega, walk,
      if_pos (hused block (by omega) (by omega))]
    rw [ih (block + 1) 0 (fun b h1 h2 => hused b (by omega) (by omega))]
    congr 1
    omega

/-- **Full words are passed for their blocks**: the search finds what a walk
over the rest of the map finds. -/
theorem firstFit_eq_walk (m : BlockMap) (needed block run : Nat) :
    m.firstFit needed block run = m.walk needed block run (m.total.toNat - block) := by
  -- along the search; only the step over a full word is more than one of the walk
  fun_induction firstFit m needed block run with
  | case1 block run hlt hfull ih =>
    have hused : ∀ b, block ≤ b → b < block + 64 → b < m.total.toNat → m.isUsed b = true :=
      fun b h1 h2 hb => isUsed_of_fullWord hfull.2 (by omega) hb
    by_cases hlast : block + 64 ≤ m.total.toNat
    · have hleft : m.total.toNat - block = 63 + 1 + (m.total.toNat - (block + 64)) := by omega
      rw [ih, hleft, walk_past _ _ _ _ 63 _ fun b h1 h2 => hused b h1 (by omega) (by omega)]
    · -- the last word of the map, of which only some blocks count
      obtain ⟨n, hn⟩ : ∃ n, m.total.toNat - block = n + 1 + 0 :=
        ⟨m.total.toNat - block - 1, by omega⟩
      have hnone : m.total.toNat - (block + 64) = 0 := by omega
      rw [ih, hnone, hn,
        walk_past _ _ _ _ n _ fun b h1 h2 => hused b h1 (by omega) (by omega)]
      rfl
  | case2 block run hlt hfull hused ih =>
    have hleft : m.total.toNat - block = (m.total.toNat - (block + 1)) + 1 := by omega
    rw [ih, hleft, walk, if_pos hused]
  | case3 block run hlt hfull hused hlast =>
    have hleft : m.total.toNat - block = (m.total.toNat - (block + 1)) + 1 := by omega
    rw [hleft, walk, if_neg hused, if_pos hlast]
  | case4 block run hlt hfull hused hmore ih =>
    have hleft : m.total.toNat - block = (m.total.toNat - (block + 1)) + 1 := by omega
    rw [ih, hleft, walk, if_neg hused, if_neg hmore]
  | case5 block run hend =>
    have hleft : m.total.toNat - block = 0 := by omega
    rw [hleft, walk]

variable {m : BlockMap}

/-- **The count never changes the answer**: with fewer free blocks than needed
the walk finds no run either. -/
theorem Represents.allocate_eq_walk (h : m.Represents) (needed : UInt64) :
    m.allocate needed = m.allocateByWalk needed := by
  unfold BlockMap.allocate allocateByWalk
  have hwalk := firstFit_eq_walk m needed.toNat 0 0
  rw [Nat.sub_zero] at hwalk
  rw [hwalk]
  by_cases hneeded : needed = 0
  · rw [if_pos hneeded, if_pos hneeded]
  · rw [if_neg hneeded, if_neg hneeded]
    by_cases hfew : m.free < needed
    · rw [if_pos hfew]
      have hspec := firstFit_spec m needed.toNat 0 0 (searching_zero m (Word.toNat_pos hneeded))
      rw [hwalk] at hspec
      cases hfound : m.walk needed.toNat 0 0 m.total.toNat with
      | none => rfl
      -- fewer free blocks than needed: the walk cannot have found a run
      | some start =>
        rw [hfound] at hspec
        exact absurd hspec.1 (h.counted.not_freeRun hfew start)
    · exact if_neg hfew

/-! ## §2. The maps that calls make. -/

/-- The maps that come of a blank one by any plain calls.  All calls are plain
unless the map has the largest total, for which its words take 2^61 bytes. -/
inductive Attained : BlockMap → Prop where
  | blank (total : UInt64) (blockSize : UInt32) : Attained (blank total blockSize)
  | called {m : BlockMap} (before : Attained m) (c : Call) (hplain : c.Plain m) :
      Attained (c.after m)

/-- Every map that calls come to stands for its set of blocks. -/
theorem Attained.represents (hm : m.Attained) : m.Represents := by
  induction hm with
  | blank total blockSize => exact represents_blank total blockSize
  | called before c hplain ih => exact (Call.evolves_of_plain ih hplain).2

/-- The free blocks of a map. -/
def unused (m : BlockMap) : Finset Nat :=
  (Finset.range m.total.toNat).filter fun block => m.isUsed block = false

/-- The running count is the number of unused blocks. -/
theorem Represents.card_unused (h : m.Represents) : m.free.toNat = m.unused.card := by
  have hsplit := Finset.card_filter_add_card_filter_not (s := Finset.range m.total.toNat)
    (fun block => m.isUsed block = true)
  have hcount := h.count
  rw [Finset.card_range, ← h.tidy.used_eq_filter] at hsplit
  simp only [Bool.not_eq_true] at hsplit
  unfold unused
  omega

/-! ## §3. The lowest run. -/

/-- The `n` blocks from `start` on are in use beside those that were, and the
count is `n` lower; the map is else the one before. -/
structure Occupied (m : BlockMap) (start n : Nat) (after : BlockMap) : Prop where
  used : ∀ block, after.isUsed block = true
    ↔ m.isUsed block = true ∨ start ≤ block ∧ block < start + n
  free : after.free.toNat + n = m.free.toNat
  total : after.total = m.total
  blockSize : after.blockSize = m.blockSize

/-- Taking a free run is taking exactly its blocks. -/
theorem Represents.occupied (h : m.Represents) {start : Nat} {needed : UInt64}
    (hrun : m.FreeRun start needed.toNat) :
    m.Occupied start needed.toNat
      { m with words := setFrom m.words start needed.toNat, free := m.free - needed } where
  used block := by
    rw [h.tidy.isUsed_set hrun.1, Bool.or_eq_true, decide_eq_true_eq, or_comm]
  free := by
    have hroom := usedCount_add_le hrun
    have hcount := h.counted
    unfold Counted at hcount
    have hsub := Word.toNat_sub (a := m.free) (b := needed) (by omega)
    show (m.free - needed).toNat + needed.toNat = m.free.toNat
    omega
  total := rfl
  blockSize := rfl

/-- The lowest run is found wherever there is one. -/
theorem Represents.allocate_of_isLeast (h : m.Represents) {needed : UInt64}
    (hneeded : needed ≠ 0) {start : Nat}
    (hleast : IsLeast {s | m.FreeRun s needed.toNat} start) :
    ∃ e after, m.allocate needed = .ok (e, after) ∧ e.start.toNat = start ∧ e.count = needed
      ∧ m.Occupied start needed.toNat after := by
  obtain ⟨hrun, hlowest⟩ := hleast
  have hspec := allocate_spec h.counted hneeded
  cases hallocate : m.allocate needed with
  | error err =>
    rw [hallocate] at hspec
    exact absurd hrun (hspec.2 start)
  | ok found =>
    obtain ⟨e, after⟩ := found
    rw [hallocate] at hspec
    obtain ⟨hcount, hfound, hfirst, rfl⟩ := hspec
    -- both starts are the least one
    have hstart : e.start.toNat = start := Nat.le_antisymm (hfirst start hrun) (hlowest hfound)
    refine ⟨e, _, rfl, hstart, hcount, ?_⟩
    rw [hstart]
    exact h.occupied hrun

/-- Where there is no run long enough, the call fails and leaves the map. -/
theorem Represents.allocate_of_none (h : m.Represents) {needed : UInt64} (hneeded : needed ≠ 0)
    (hnone : ∀ s, ¬ m.FreeRun s needed.toNat) :
    m.allocate needed = .error (.noSpace needed m.free)
      ∧ (Call.allocate needed).after m = m := by
  have hspec := allocate_spec h.counted hneeded
  cases hallocate : m.allocate needed with
  | error err =>
    rw [hallocate] at hspec
    obtain ⟨rfl, -⟩ := hspec
    have hcall : (Call.allocate needed).outcome m = .error (.noSpace needed m.free) := by
      rw [Call.outcome, hallocate]
      rfl
    exact ⟨rfl, (Call.after_of_error hcall).2⟩
  | ok found =>
    rw [hallocate] at hspec
    exact absurd hspec.2.1 (hnone _)

/-- **First fit is exact**, after any calls: the lowest run of `needed` free
blocks is taken and nothing else, and without one the call fails with the
number of free blocks; a search without the count and without steps over full
words finds the same. -/
theorem allocate_exact (hm : m.Attained) {needed : UInt64} (hneeded : needed ≠ 0) :
    (∀ start, IsLeast {s | m.FreeRun s needed.toNat} start →
        ∃ e after, m.allocate needed = .ok (e, after) ∧ e.start.toNat = start
          ∧ e.count = needed ∧ m.Occupied start needed.toNat after)
      ∧ ((∀ s, ¬ m.FreeRun s needed.toNat) →
          m.allocate needed = .error (.noSpace needed m.free)
            ∧ (Call.allocate needed).after m = m)
      ∧ m.free.toNat = m.unused.card
      ∧ m.firstFit needed.toNat 0 0 = m.walk needed.toNat 0 0 m.total.toNat
      ∧ m.allocate needed = m.allocateByWalk needed := by
  have h := hm.represents
  exact ⟨fun _ hleast => h.allocate_of_isLeast hneeded hleast, h.allocate_of_none hneeded,
    h.card_unused, firstFit_eq_walk m needed.toNat 0 0, h.allocate_eq_walk needed⟩

/-- Two full words and, two blocks on, two blocks more are in use: three
blocks do not fit between them. -/
theorem allocate_exact_overWords :
    ∃ m : BlockMap, m.Attained ∧ m.isUsed 127 = true ∧ m.isUsed 128 = false
      ∧ ∃ e after, m.allocate 3 = .ok (e, after) ∧ e.start.toNat = 132 ∧ e.count = 3
        ∧ after.free.toNat = 67 := by
  have hfull := (Attained.blank 200 512).called (.claim ⟨0, 128⟩) (Or.inl (by decide))
  have hm := hfull.called (.claim ⟨130, 2⟩) (Or.inl (by decide +kernel))
  generalize hmap : (Call.claim ⟨130, 2⟩).after ((Call.claim ⟨0, 128⟩).after (blank 200 512)) = m
    at hm
  have hbits : ∀ block < 135,
      m.isUsed block = decide (block < 128 ∨ block = 130 ∨ block = 131) := by
    subst hmap
    decide +kernel
  have hsizes : m.total.toNat = 200 ∧ m.free.toNat = 70 := by
    subst hmap
    decide +kernel
  have hleast : IsLeast {s | m.FreeRun s (3 : UInt64).toNat} 132 := by
    constructor
    · refine ⟨?_, fun block h1 h2 => ?_⟩
      · rw [hsizes.1]
        decide
      · have hthree : (3 : UInt64).toNat = 3 := rfl
        rw [hbits block (by omega), decide_eq_false_iff_not]
        omega
    · -- a lower run of three would hold block 130 or 131, or lie below block 128
      intro s hs
      have hthree : (3 : UInt64).toNat = 3 := rfl
      have hhigh := hs.not_across (hbits 131 (by decide))
      have hmiddle := hs.not_across (hbits 130 (by decide))
      by_cases hlow : s < 128
      · have hfirst := hs.2 s (Nat.le_refl s) (by omega)
        rw [hbits s (by omega), decide_eq_false_iff_not] at hfirst
        omega
      · omega
  obtain ⟨e, after, hallocate, hstart, hcount, hafter⟩ :=
    (allocate_exact hm (by decide : (3 : UInt64) ≠ 0)).1 132 hleast
  refine ⟨m, hm, hbits 127 (by decide), hbits 128 (by decide), e, after, hallocate, hstart,
    hcount, ?_⟩
  have hfree := hafter.free
  have hthree : (3 : UInt64).toNat = 3 := rfl
  omega

end StateVault.BlockMap
