/-
  StateVault.Proofs.BlockMap.Ownership
  ────────────────────────────────────
  **EVERY BLOCK IN USE HAS ONE OWNER.**

  `Owns m owners` says that the blocks in use are exactly those of the given
  extents, that no two of the extents share a block, and that the running
  count is right.  The order of the owners does not matter (`Owns.perm`).

    • `Owns.allocate` — an allocation adds an owner,
    • `Owns.release`  — a release takes one away, and cannot fail,
    • `Owns.extend`, `Owns.shrink_ok` — another size keeps the owners,
    • `Owns.claim`    — a claim apart from the owners adds one.
-/
import StateVault.Proofs.BlockMap.FirstFit

namespace StateVault

/-! ## §1. Extents within a map, and apart. -/

namespace Extent

/-- The extent has no blocks, or ends within `total` blocks, taken exactly. -/
def Fits (total : UInt64) (e : Extent) : Prop :=
  e.count.toNat = 0 ∨ e.start.toNat + e.count.toNat ≤ total.toNat

/-- No block belongs to both extents. -/
def Apart (a b : Extent) : Prop :=
  ∀ block, block ∈ a → ¬ block ∈ b

theorem Apart.symm {a b : Extent} (h : a.Apart b) : b.Apart a :=
  fun block hb ha => h block ha hb

theorem Fits.mono {total total' : UInt64} {e : Extent} (h : e.Fits total)
    (hle : total.toNat ≤ total'.toNat) : e.Fits total' := by
  unfold Fits at h ⊢
  omega

theorem isEmpty_iff (e : Extent) : e.isEmpty = true ↔ e.count.toNat = 0 := by
  rw [isEmpty, beq_iff_eq, ← UInt64.toNat_inj]
  rfl

theorem not_mem_of_isEmpty {e : Extent} (h : e.count.toNat = 0) (block : Nat) : ¬ block ∈ e := by
  have hstart := e.start.toNat_lt_size
  rw [mem_iff, toNat_stop, h]
  omega

/-- The end of an extent with room is the exact one. -/
theorem Fits.toNat_stop {total : UInt64} {e : Extent} (h : e.Fits total)
    (hne : e.count.toNat ≠ 0) : e.stop.toNat = e.start.toNat + e.count.toNat := by
  have htotal := total.toNat_lt_size
  rw [Extent.toNat_stop]
  unfold Fits at h
  omega

/-- An extent with room is as long as it says. -/
theorem Fits.length_eq {total : UInt64} {e : Extent} (h : e.Fits total) :
    e.length = e.count.toNat := by
  unfold length
  by_cases hne : e.count.toNat = 0
  · have hstart := e.start.toNat_lt_size
    rw [Extent.toNat_stop, hne]
    omega
  · rw [h.toNat_stop hne]
    omega

/-- Membership in an extent with room, without the word arithmetic. -/
theorem Fits.mem_iff {total : UInt64} {e : Extent} (h : e.Fits total) (block : Nat) :
    block ∈ e ↔ e.start.toNat ≤ block ∧ block < e.start.toNat + e.count.toNat := by
  -- an extent without blocks may start anywhere, so its end may wrap
  by_cases hne : e.count.toNat = 0
  · have hnot := not_mem_of_isEmpty hne block
    constructor
    · intro hmem
      exact absurd hmem hnot
    · omega
  · rw [Extent.mem_iff, h.toNat_stop hne]

theorem Fits.lt_of_mem {total : UInt64} {e : Extent} (h : e.Fits total) {block : Nat}
    (hmem : block ∈ e) : block < total.toNat := by
  rw [h.mem_iff] at hmem
  unfold Fits at h
  omega

theorem Fits.stop_le {total : UInt64} {e : Extent} (h : e.Fits total)
    (hne : e.count.toNat ≠ 0) : e.stop.toNat ≤ total.toNat := by
  rw [h.toNat_stop hne]
  unfold Fits at h
  omega

end Extent

namespace BlockMap

/-! ## §2. Owners. -/

/-- The number of blocks of some extents. -/
def blocks : List Extent → Nat
  | [] => 0
  | e :: rest => e.count.toNat + blocks rest

theorem blocks_perm {owners owners' : List Extent} (h : owners.Perm owners') :
    blocks owners = blocks owners' := by
  induction h with
  | nil => rfl
  | cons e _ ih => simp only [blocks, ih]
  | swap d e rest =>
      simp only [blocks]
      omega
  | trans _ _ ih₁ ih₂ => exact ih₁.trans ih₂

/-- The extents `owners` own the blocks in use among them. -/
structure Owns (m : BlockMap) (owners : List Extent) : Prop where
  tidy : m.Tidy
  used : ∀ block, m.isUsed block = true ↔ ∃ e ∈ owners, block ∈ e
  within : ∀ e ∈ owners, e.Fits m.total
  apart : owners.Pairwise Extent.Apart
  count : m.free.toNat + blocks owners = m.total.toNat

variable {m : BlockMap} {owners : List Extent}

theorem Owns.perm {owners' : List Extent} (h : m.Owns owners) (hp : owners.Perm owners') :
    m.Owns owners' where
  tidy := h.tidy
  used block := by
    rw [h.used block]
    simp only [hp.mem_iff]
  within e he := h.within e (hp.mem_iff.mpr he)
  apart := (hp.pairwise_iff Extent.Apart.symm).mp h.apart
  count := by
    rw [← blocks_perm hp]
    exact h.count

theorem Owns.isUsed_of_mem (h : m.Owns owners) {e : Extent} (he : e ∈ owners) {block : Nat}
    (hmem : block ∈ e) : m.isUsed block = true :=
  (h.used block).mpr ⟨e, he, hmem⟩

theorem owns_blank (total : UInt64) (blockSize : UInt32) : (blank total blockSize).Owns [] where
  tidy := tidy_blank total blockSize
  used block := by
    rw [isUsed_blank]
    simp
  within e he := absurd he List.not_mem_nil
  apart := List.Pairwise.nil
  count := by simp [blank, blocks]

/-- The number of blocks of disjoint extents is the sum of their counts. -/
theorem countP_owners {total : UInt64} (hwithin : ∀ e ∈ owners, e.Fits total)
    (hapart : owners.Pairwise Extent.Apart) :
    (List.range total.toNat).countP (fun block => owners.any fun e => decide (block ∈ e))
      = blocks owners := by
  induction owners with
  | nil => simp [blocks]
  | cons e rest ih =>
      rw [List.pairwise_cons] at hapart
      have hfirst := hwithin e List.mem_cons_self
      have hrest := ih (fun d hd => hwithin d (List.mem_cons_of_mem _ hd)) hapart.2
      have hdisjoint : ∀ block, decide (block ∈ e) = true →
          (rest.any fun d => decide (block ∈ d)) = false := by
        intro block hmem
        rw [decide_eq_true_eq] at hmem
        rw [List.any_eq_false]
        intro d hd
        rw [decide_eq_true_eq]
        exact hapart.1 d hd block hmem
      have hone : (List.range total.toNat).countP (fun block => decide (block ∈ e))
          = e.count.toNat := by
        by_cases hne : e.count.toNat = 0
        · rw [hne, List.countP_eq_zero]
          intro block _
          rw [decide_eq_true_eq]
          exact Extent.not_mem_of_isEmpty hne block
        · simp only [hfirst.mem_iff]
          apply countP_between
          unfold Extent.Fits at hfirst
          omega
      -- apart from the others, the blocks of the first one are counted once
      have hsum := countP_add_of_apart hdisjoint (List.range total.toNat)
      simp only [List.any_cons, blocks]
      omega

/-- As many blocks are in use as the owners have. -/
theorem Owns.usedCount_eq (h : m.Owns owners) :
    m.usedCount = blocks owners := by
  rw [← countP_owners h.within h.apart]
  unfold usedCount
  congr 1
  funext block
  rw [Bool.eq_iff_iff, h.used block, List.any_eq_true]
  simp only [decide_eq_true_eq]

/-- The running count of free blocks is right. -/
theorem Owns.counted (h : m.Owns owners) : m.Counted := by
  unfold Counted
  rw [h.usedCount_eq]
  exact h.count

/-- The blocks in use, as the difference that is told of them. -/
theorem Owns.toNat_used (h : m.Owns owners) : (m.total - m.free).toNat = blocks owners := by
  have hcount := h.count
  rw [Word.toNat_sub (by omega)]
  omega

/-- Two maps of the same owners have the same blocks in use, whatever their
sizes. -/
theorem Owns.isUsed_eq {m' : BlockMap} (h : m.Owns owners) (h' : m'.Owns owners)
    (block : Nat) : m.isUsed block = m'.isUsed block := by
  rw [Bool.eq_iff_iff, h.used, h'.used]

/-- An extent without blocks owns nothing. -/
theorem Owns.add_empty {e : Extent} (h : m.Owns owners) (hempty : e.count.toNat = 0) :
    m.Owns (e :: owners) where
  tidy := h.tidy
  used block := by
    -- an extent without blocks holds none of the map's
    have hnot := Extent.not_mem_of_isEmpty hempty block
    rw [h.used block]
    simp only [List.mem_cons, exists_eq_or_imp, hnot, false_or]
  within d hd := by
    rcases List.mem_cons.mp hd with rfl | hd
    · exact Or.inl hempty
    · exact h.within d hd
  apart := by
    rw [List.pairwise_cons]
    exact ⟨fun d _ block hmem => absurd hmem (Extent.not_mem_of_isEmpty hempty block), h.apart⟩
  count := by
    have hcount := h.count
    simp only [blocks, hempty]
    omega

/-! ## §3. Allocation and claims. -/

/-- A free run, taken into use, has an owner of its own. -/
theorem Owns.take {e : Extent} (h : m.Owns owners)
    (hrun : m.FreeRun e.start.toNat e.count.toNat) :
    ({ m with words := setFrom m.words e.start.toNat e.count.toNat, free := m.free - e.count }
      : BlockMap).Owns (e :: owners) := by
  have hfits : e.Fits m.total := Or.inr hrun.1
  have hroom := usedCount_add_le hrun
  have hcount := h.counted
  unfold Counted at hcount
  constructor
  · exact h.tidy.set hrun.1
  · intro block
    rw [h.tidy.isUsed_set hrun.1, Bool.or_eq_true, decide_eq_true_eq, h.used block]
    simp only [List.mem_cons, exists_eq_or_imp, hfits.mem_iff]
  · intro d hd
    rcases List.mem_cons.mp hd with rfl | hd
    · exact hfits
    · exact h.within d hd
  · rw [List.pairwise_cons]
    refine ⟨fun d hd block hmem hmem' => ?_, h.apart⟩
    -- a block of another owner is in use, and the run is free
    have hused := h.isUsed_of_mem hd hmem'
    rw [hfits.mem_iff] at hmem
    rw [hrun.2 block hmem.1 hmem.2] at hused
    exact absurd hused (by decide)
  · have hsub := Word.toNat_sub (a := m.free) (b := e.count) (by omega)
    have hold := h.count
    simp only [blocks, hsub]
    omega

/-- An allocation that is answered. -/
theorem Owns.allocate {needed : UInt64} {e : Extent} {after : BlockMap} (h : m.Owns owners)
    (hok : m.allocate needed = .ok (e, after)) :
    after.Owns (e :: owners) ∧ e.count = needed ∧ after.total = m.total
      ∧ after.blockSize = m.blockSize := by
  by_cases hneeded : needed = 0
  · -- no blocks asked for, none taken
    subst hneeded
    rw [allocate_zero] at hok
    cases hok
    exact ⟨h.add_empty rfl, rfl, rfl, rfl⟩
  · have hspec := allocate_spec h.counted hneeded
    rw [hok] at hspec
    obtain ⟨hcount, hrun, _, hafter⟩ := hspec
    subst hafter
    rw [← hcount] at hrun ⊢
    exact ⟨h.take hrun, rfl, rfl, rfl⟩

/-- In a free run no block in use is found. -/
theorem firstUsed_of_free {start n : Nat}
    (h : ∀ block, start ≤ block → block < start + n → m.isUsed block = false) :
    m.firstUsed start n = none := by
  induction n generalizing start with
  | zero => rfl
  | succ n ih =>
      unfold firstUsed
      rw [h start (Nat.le_refl _) (by omega)]
      exact ih fun block h1 h2 => h block (by omega) (by omega)

/-- An extent apart from the owners can be claimed, and is then one of them. -/
theorem Owns.claim {e : Extent} (h : m.Owns owners) (hne : e.count.toNat ≠ 0)
    (hfits : e.Fits m.total) (hapart : ∀ d ∈ owners, e.Apart d) :
    ∃ after, m.claim e = .ok after ∧ after.Owns (e :: owners) ∧ after.total = m.total
      ∧ after.blockSize = m.blockSize := by
  have hlength := hfits.length_eq
  have hstop := hfits.stop_le hne
  have hrun : m.FreeRun e.start.toNat e.count.toNat := by
    refine ⟨?_, fun block h1 h2 => ?_⟩
    · unfold Extent.Fits at hfits
      omega
    · cases hused : m.isUsed block with
      | false => rfl
      | true =>
          -- then it has an owner, which the extent is apart from
          obtain ⟨d, hd, hmem⟩ := (h.used block).mp hused
          exact absurd hmem (hapart d hd block ((hfits.mem_iff block).mpr ⟨h1, h2⟩))
  have hnone : m.firstUsed e.start.toNat e.length = none := by
    rw [hlength]
    exact firstUsed_of_free hrun.2
  have hnot : ¬ m.total < e.stop := by
    rw [UInt64.lt_iff_toNat_lt]
    omega
  refine ⟨_, ?_, h.take hrun, rfl, rfl⟩
  unfold BlockMap.claim
  rw [if_neg hnot, hnone, hlength]

/-! ## §4. Release. -/

/-- An owner's blocks are set free; this cannot fail. -/
theorem Owns.release {e : Extent} (h : m.Owns (e :: owners)) :
    ∃ after, m.release e = .ok after ∧ after.Owns owners ∧ after.total = m.total := by
  have hfits := h.within e List.mem_cons_self
  have hapart := h.apart
  rw [List.pairwise_cons] at hapart
  have hcount := h.count
  simp only [blocks] at hcount
  by_cases hne : e.count.toNat = 0
  · refine ⟨m, ?_, ⟨h.tidy, fun block => ?_, fun d hd => h.within d (List.mem_cons_of_mem _ hd),
      hapart.2, by omega⟩, rfl⟩
    · unfold BlockMap.release
      rw [if_pos ((e.isEmpty_iff).mpr hne)]
    · rw [h.used block]
      simp only [List.mem_cons, exists_eq_or_imp, Extent.not_mem_of_isEmpty hne, false_or]
  · have hstop := hfits.stop_le hne
    have hnot : ¬ m.total < e.stop := by
      rw [UInt64.lt_iff_toNat_lt]
      omega
    refine ⟨m.releaseFrom e.start.toNat e.length, ?_, ?_, total_releaseFrom _ _ _⟩
    · unfold BlockMap.release
      rw [if_neg (fun hempty => hne ((e.isEmpty_iff).mp hempty)), if_neg hnot]
    · rw [hfits.length_eq]
      have htotal := total_releaseFrom m e.start.toNat e.count.toNat
      have hused : ∀ block, e.start.toNat ≤ block → block < e.start.toNat + e.count.toNat →
          m.isUsed block = true := fun block h1 h2 =>
        h.isUsed_of_mem List.mem_cons_self ((hfits.mem_iff block).mpr ⟨h1, h2⟩)
      constructor
      · exact h.tidy.releaseFrom _ _
      · intro block
        rw [h.tidy.isUsed_releaseFrom, Bool.and_eq_true, decide_eq_true_eq, ← hfits.mem_iff,
          h.used block]
        -- still in use: the blocks of the other owners, which are all outside the run
        constructor
        · intro hboth
          obtain ⟨hout, d, hd, hmem⟩ := hboth
          rcases List.mem_cons.mp hd with rfl | hd
          · exact absurd hmem hout
          · exact ⟨d, hd, hmem⟩
        · intro hboth
          obtain ⟨d, hd, hmem⟩ := hboth
          exact ⟨fun hmem' => hapart.1 d hd block hmem' hmem, d, List.mem_cons_of_mem _ hd, hmem⟩
      · intro d hd
        rw [htotal]
        exact h.within d (List.mem_cons_of_mem _ hd)
      · exact hapart.2
      · have hlt := m.total.toNat_lt_size
        rw [htotal, h.tidy.free_releaseFrom hused (by omega)]
        omega

/-! ## §5. Size. -/

/-- A larger map has the same owners. -/
theorem Owns.extend (h : m.Owns owners) (total : UInt64) : (m.extend total).Owns owners where
  tidy := h.tidy.extend total
  used block := by
    rw [h.tidy.isUsed_extend]
    exact h.used block
  within e he := (h.within e he).mono (le_total_extend m total)
  apart := h.apart
  count := count_extend h.count total

/-- A map that was cut has the same owners, and all of them lie below the
cut. -/
theorem Owns.shrink_ok {total : UInt64} {cut : BlockMap} (h : m.Owns owners)
    (hless : total.toNat < m.total.toNat) (hok : m.shrink total = .ok cut) :
    cut.Owns owners ∧ cut.total = total ∧ cut.blockSize = m.blockSize := by
  have hspec := h.tidy.shrink_spec hless
  rw [hok] at hspec
  obtain ⟨hbelow, rfl⟩ := hspec
  obtain ⟨htidy, hused⟩ := h.tidy.cut (m.free - (m.total - total)) hless hbelow
  have hwithin : ∀ e ∈ owners, e.Fits total := by
    intro e he
    have hfits := h.within e he
    by_cases hne : e.count.toNat = 0
    · exact Or.inl hne
    · -- its last block is in use, hence below the cut
      have hlast : (e.start.toNat + e.count.toNat - 1) ∈ e := by
        rw [hfits.mem_iff]
        omega
      have hlt := hbelow _ (h.isUsed_of_mem he hlast)
      right
      omega
  refine ⟨⟨htidy, fun block => ?_, hwithin, h.apart, ?_⟩, rfl, rfl⟩
  · rw [hused]
    exact h.used block
  · have hsum := countP_owners hwithin h.apart
    have hle : (List.range total.toNat).countP
        (fun block => owners.any fun e => decide (block ∈ e)) ≤ total.toNat :=
      Nat.le_trans List.countP_le_length (Nat.le_of_eq List.length_range)
    exact count_cut h.count hless (by omega)

/-- An owner past a cut keeps the map from being cut. -/
theorem Owns.shrink_of_above {total : UInt64} {e : Extent} (h : m.Owns owners)
    (hless : total.toNat < m.total.toNat) (he : e ∈ owners) {block : Nat} (hmem : block ∈ e)
    (habove : total.toNat ≤ block) : ∃ err, m.shrink total = .error err := by
  have hspec := h.tidy.shrink_spec hless
  cases hcut : m.shrink total with
  | error err => exact ⟨err, rfl⟩
  | ok cut =>
      rw [hcut] at hspec
      have hlt := hspec.1 block (h.isUsed_of_mem he hmem)
      omega

end BlockMap

end StateVault
