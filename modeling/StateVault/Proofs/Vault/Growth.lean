/-
  StateVault.Proofs.Vault.Growth
  ──────────────────────────────
  **GROWTH STEP BY STEP IS GROWTH AT ONCE.**

  A vault that may grow does so by steps, each of which at least doubles it,
  and stops at the first size at which the blocks fit.  The extent it finds is
  the one that a search of the map of the utmost size finds (`utmost`), and so
  is the error when there is none: new blocks come after the old ones, so a
  run that is there already stays the lowest.

    • `Owns.allocate_extend`     — a larger map answers as the smaller one,
    • `allocateGrowing_ends`     — growth ends with the answer of the utmost,
    • `allocateGrowing_bounded`  — and never goes past the limit,
    • `allocate_as_utmost`       — all of it, for every vault that is open.
-/
import StateVault.Proofs.BlockMap.Refinement
import StateVault.Proofs.Vault.Frame
import StateVault.Proofs.Vault.Requests

namespace StateVault

/-! ## §1. Larger maps. -/

namespace BlockMap

variable {m : BlockMap}

theorem extend_of_le {total : UInt64} (h : total.toNat ≤ m.total.toNat) : m.extend total = m := by
  unfold extend
  exact if_pos (UInt64.le_iff_toNat_le.mpr h)

/-- One extension after a smaller one is that extension alone. -/
theorem Tidy.extend_extend (h : m.Tidy) {less total : UInt64}
    (hle : less.toNat ≤ total.toNat) : (m.extend less).extend total = m.extend total := by
  by_cases hno : less.toNat ≤ m.total.toNat
  · rw [extend_of_le hno]
  · have hless : m.extend less = { m with
        words := m.words ++ Array.replicate (wordsFor less - m.words.size) 0
        total := less
        free := m.free + (less - m.total) } := by
      unfold BlockMap.extend
      rw [if_neg fun hin => hno (UInt64.le_iff_toNat_le.mp hin)]
    by_cases hsame : total.toNat ≤ less.toNat
    · obtain rfl : total = less := UInt64.toNat_inj.mp (Nat.le_antisymm hsame hle)
      -- the second extension asks for what there is
      refine extend_of_le ?_
      rw [hless]
    · -- words and counts of both extensions add up to those of the second
      have hwords := wordsFor_mono (a := m.total) (b := less) (by omega)
      have hmore := wordsFor_mono hle
      have hnew : wordsFor less - m.words.size
          + (wordsFor total - (m.words.size + (wordsFor less - m.words.size)))
          = wordsFor total - m.words.size := by
        rw [h.size]
        omega
      have hfree : m.free + (less - m.total) + (total - less) = m.free + (total - m.total) := by
        grind
      rw [hless]
      unfold BlockMap.extend
      rw [if_neg fun hin => hsame (UInt64.le_iff_toNat_le.mp hin),
        if_neg fun hin => hno (Nat.le_trans hle (UInt64.le_iff_toNat_le.mp hin))]
      simp only [Array.size_append, Array.size_replicate, Array.append_assoc,
        Array.replicate_append_replicate, hnew, hfree]

/-- A run of free blocks of the larger map that ends within the smaller one. -/
theorem Tidy.freeRun_extend (h : m.Tidy) (total : UInt64) {start n : Nat}
    (hend : start + n ≤ m.total.toNat) : (m.extend total).FreeRun start n ↔ m.FreeRun start n := by
  have hle := le_total_extend m total
  unfold FreeRun
  simp only [h.isUsed_extend]
  refine and_congr_left fun _ => ?_
  omega

variable {owners : List Extent}

/-- **A larger map answers as the smaller one**, where that one has an
answer. -/
theorem Owns.allocate_extend (h : m.Owns owners) {needed : UInt64} {e : Extent}
    {after : BlockMap} (hfit : m.allocate needed = .ok (e, after)) (total : UInt64) :
    ∃ after', (m.extend total).allocate needed = .ok (e, after') := by
  by_cases hneeded : needed = 0
  · subst hneeded
    cases hfit
    exact ⟨_, rfl⟩
  · have hsmall := allocate_spec h.counted hneeded
    have hlarge := allocate_spec (h.extend total).counted hneeded
    rw [hfit] at hsmall
    obtain ⟨hcount, hrun, hlowest, _⟩ := hsmall
    have hin := hrun.1
    have hrun' := (h.tidy.freeRun_extend total hin).mpr hrun
    cases hallocate : (m.extend total).allocate needed with
    | error err =>
      rw [hallocate] at hlarge
      exact absurd hrun' (hlarge.2 _)
    | ok found =>
      obtain ⟨e', after'⟩ := found
      rw [hallocate] at hlarge
      obtain ⟨hcount', hfound, hlowest', _⟩ := hlarge
      have hle := hlowest' _ hrun'
      -- the run found lies before the old one, so it is one of the smaller map
      have hge := hlowest _ ((h.tidy.freeRun_extend total (by omega)).mp hfound)
      have hstart : e'.start = e.start := UInt64.toNat_inj.mp (Nat.le_antisymm hle hge)
      have hsame : e' = e := by
        cases e'
        cases e
        exact congr (congrArg Extent.mk hstart) (hcount'.trans hcount.symm)
      exact ⟨after', by rw [hsame]⟩

end BlockMap

namespace Vault

variable {v : Vault} {needed : UInt64}

/-! ## §2. Growth to the end. -/

/-- The blocks of a vault that has grown as far as it may. -/
def utmost (v : Vault) : BlockMap :=
  v.blocks.extend (max v.blocks.total v.settings.maxBlocks)

/-- A vault that grows, and not any more, is at its limit. -/
theorem limit_le_total (hgrows : v.settings.autoGrow = true) (hfull : ¬ v.mayGrow = true) :
    v.settings.maxBlocks.toNat ≤ v.blocks.total.toNat := by
  apply Nat.le_of_not_lt
  intro hless
  apply hfull
  rw [mayGrow, hgrows, decide_eq_true (UInt64.lt_iff_toNat_lt.mpr hless)]
  rfl

/-- A vault that may grow no more is at its utmost. -/
theorem utmost_of_full (hgrows : v.settings.autoGrow = true) (hfull : ¬ v.mayGrow = true) :
    v.utmost = v.blocks := by
  have hlimit := limit_le_total hgrows hfull
  refine BlockMap.extend_of_le ?_
  rw [Word.toNat_max]
  omega

/-- Growth stops at the limit of the settings. -/
theorem toNat_grownTotal_le (v : Vault) (needed : UInt64) :
    (v.grownTotal needed).toNat ≤ v.settings.maxBlocks.toNat := by
  rw [grownTotal, Word.toNat_min]
  exact Nat.min_le_right _ _

theorem toNat_total_grown (v : Vault) (needed : UInt64) :
    (v.grown needed).blocks.total.toNat
      = max v.blocks.total.toNat (v.grownTotal needed).toNat :=
  BlockMap.toNat_total_extend _ _

/-- A step of growth leaves the utmost where it was. -/
theorem utmost_grown (htidy : v.blocks.Tidy) (hgrow : v.mayGrow = true) (needed : UInt64) :
    (v.grown needed).utmost = v.utmost := by
  have hless := total_lt_of_mayGrow hgrow
  have hstep := toNat_grownTotal_le v needed
  have hlimit : max (v.grown needed).blocks.total v.settings.maxBlocks
      = max v.blocks.total v.settings.maxBlocks := by
    apply UInt64.toNat_inj.mp
    rw [Word.toNat_max, Word.toNat_max, toNat_total_grown]
    omega
  show (v.blocks.extend (v.grownTotal needed)).extend
    (max (v.grown needed).blocks.total v.settings.maxBlocks) = _
  rw [hlimit]
  refine htidy.extend_extend ?_
  rw [Word.toNat_max]
  omega

/-- With a limit that has an address, every step of growth has one. -/
theorem exists_grown_bytes (hfits : v.settings.maxBlocks.toNat * v.width < UInt64.size)
    (needed : UInt64) :
    ∃ bytes, Word.mul? (v.grownTotal needed) v.blockSize.toUInt64 = some bytes := by
  have hmul := Word.toNat_mul? (v.grownTotal needed) v.blockSize.toUInt64
  have hle := Nat.mul_le_mul_right v.width (toNat_grownTotal_le v needed)
  have hlt : (v.grownTotal needed).toNat * v.blockSize.toUInt64.toNat < UInt64.size := by
    rw [UInt32.toNat_toUInt64]
    exact Nat.lt_of_le_of_lt hle hfits
  rw [if_pos hlt] at hmul
  obtain ⟨bytes, hbytes, _⟩ := Option.map_eq_some_iff.mp hmul
  exact ⟨bytes, hbytes⟩

/-- **Growth ends with the answer of the utmost map**: no sooner than it has
one, and with its error if it has none. -/
theorem allocateGrowing_ends {owners : List Extent} (h : v.blocks.Owns owners)
    (hgrows : v.settings.autoGrow = true)
    (hfits : v.settings.maxBlocks.toNat * v.width < UInt64.size) (t : Watched) :
    (allocateGrowing needed v).Ensures Failures.none (fun _ => True) t fun outcome _ =>
      outcome.1 = (v.utmost.allocate needed).map Prod.fst := by
  -- along the steps of growth; the utmost map is the same at each of them
  induction v using allocateGrowing.induct needed generalizing t with
  | case1 v e blocks hfit =>
    rw [allocateGrowing_of_fits hfit]
    obtain ⟨after, hsame⟩ := h.allocate_extend hfit (max v.blocks.total v.settings.maxBlocks)
    show _ = Except.map Prod.fst (v.utmost.allocate needed)
    rw [utmost, hsame]
    rfl
  | case2 v e hfit hgrow total hbytes =>
    -- no size on the way is too large for an address
    obtain ⟨bytes, hsome⟩ := exists_grown_bytes hfits needed
    rw [hsome] at hbytes
    cases hbytes
  | case3 v e hfit hgrow total bytes hbytes ih =>
    rw [allocateGrowing_of_grows hfit hgrow hbytes]
    intro result image hset
    cases hset with
    | failed hfailed err => exact absurd hfailed id
    | whole =>
      refine ⟨trivial, ?_⟩
      rw [← utmost_grown h.tidy hgrow needed]
      exact ih (h.extend _) hgrows hfits _
  | case4 v e hfit hgrow =>
    rw [allocateGrowing_of_full hfit hgrow]
    -- at the limit the map itself is the utmost one
    show _ = Except.map Prod.fst (v.utmost.allocate needed)
    rw [utmost_of_full hgrows hgrow, hfit]
    rfl

/-- **Growth never goes past the limit**, whatever the medium answers. -/
theorem allocateGrowing_bounded (v : Vault) (needed : UInt64) :
    (allocateGrowing needed v).Yields fun outcome => outcome.2.blocks.total.toNat
      ≤ max v.blocks.total.toNat v.settings.maxBlocks.toNat := by
  induction v using allocateGrowing.induct needed with
  | case1 v e blocks hfit =>
    rw [allocateGrowing_of_fits hfit]
    show blocks.total.toNat ≤ _
    rw [total_of_allocate hfit]
    exact Nat.le_max_left _ _
  | case2 v e hfit hgrow total hbytes =>
    rw [allocateGrowing_of_overflow hfit hgrow hbytes]
    exact Nat.le_max_left _ _
  | case3 v e hfit hgrow total bytes hbytes ih =>
    rw [allocateGrowing_of_grows hfit hgrow hbytes]
    intro result
    cases result with
    | error err => exact Nat.le_max_left _ _
    | ok u =>
      -- the grown total is itself at most the larger of the two
      refine Script.Yields.mono ih fun outcome hle => ?_
      have hstep := toNat_grownTotal_le v needed
      have htotal := toNat_total_grown v needed
      have hmost : outcome.2.blocks.total.toNat
          ≤ max (v.grown needed).blocks.total.toNat v.settings.maxBlocks.toNat := hle
      omega
  | case4 v e hfit hgrow =>
    rw [allocateGrowing_of_full hfit hgrow]
    exact Nat.le_max_left _ _

theorem Allocated.keeps {owners : List Extent} {result : Except Error Extent} {w : Vault}
    (ha : v.Allocated owners needed (result, w)) : v.Keeps w := by
  cases result with
  | ok _ => exact ha.1
  | error _ => exact ha.1

/-- Blocks in use stay in use through an allocation. -/
theorem Allocated.isUsed {owners : List Extent} (h : v.blocks.Owns owners)
    {result : Except Error Extent} {w : Vault} (ha : v.Allocated owners needed (result, w))
    {block : Nat} (hused : v.blocks.isUsed block = true) : w.blocks.isUsed block = true := by
  obtain ⟨e, he, hmem⟩ := (h.used block).mp hused
  cases result with
  | ok _ => exact ha.2.1.isUsed_of_mem (List.mem_cons_of_mem _ he) hmem
  | error _ => exact ha.2.isUsed_of_mem he hmem

/-! ## §3. Open vaults. -/

/-- No bytes, no call. -/
theorem allocate_zero (v : Vault) : allocate 0 v = .done (.ok .empty, v) := by
  have hnone : blocksToHold (UInt64.ofNat 0) v.blockSize = 0 := by
    simp [blocksToHold]
  show allocateGrowing _ v = _
  rw [hnone]
  exact allocateGrowing_of_fits (BlockMap.allocate_zero _)

/-- **Growth is transparent and bounded**: a vault that grows finds blocks for
so many bytes where they are found in the map of the utmost size, or fails
with the error of that map.  Whatever the medium has on it, if its calls do
not fail, the map becomes no larger than the limit, and no block that was in
use becomes free. -/
theorem allocate_as_utmost {μ ν : Type} [Medium μ] [Medium ν] {view : ν → Image}
    (hobeys : Obeys Failures.none view) {h : Handle μ} (hr : h.Reached)
    (hgrows : h.vault.settings.autoGrow = true)
    (hfits : h.vault.settings.maxBlocks.toNat * h.vault.blockSize.toNat < UInt64.size)
    (bytes : UInt64) (m : ν) :
    ∃ result w m', (allocate bytes.toNat h.vault).run m = ((result, w), m')
      ∧ result = (h.vault.utmost.allocate (blocksToHold bytes h.vault.blockSize)).map Prod.fst
      ∧ (bytes = 0 → result = .ok .empty ∧ w = h.vault ∧ m' = m)
      ∧ h.vault.blocks.total.toNat ≤ w.blocks.total.toNat
      ∧ w.blocks.total.toNat
        ≤ max h.vault.blocks.total.toNat h.vault.settings.maxBlocks.toNat
      ∧ ∀ block, h.vault.blocks.isUsed block = true → w.blocks.isUsed block = true := by
  have howns := hr.sound.held.owns
  -- the number of bytes is a word, so it is taken as it is
  have hscript : allocate bytes.toNat h.vault
      = allocateGrowing (blocksToHold bytes h.vault.blockSize) h.vault := by
    show allocateGrowing (blocksToHold (UInt64.ofNat bytes.toNat) _) _ = _
    rw [UInt64.ofNat_toNat]
  obtain ⟨_, _, hends⟩ :=
    (allocateGrowing_ends howns hgrows hfits ⟨view m, 0⟩).on_medium hobeys
  have hbounded := (allocateGrowing_bounded h.vault
    (blocksToHold bytes h.vault.blockSize)).run m
  have hallocated := (allocateGrowing_yields howns
    (blocksToHold bytes h.vault.blockSize)).run m
  rw [hscript]
  refine ⟨_, _, _, rfl, hends, ?_, hallocated.keeps.total, hbounded,
    fun block => hallocated.isUsed howns⟩
  rintro rfl
  have hnone : allocate (0 : UInt64).toNat h.vault = .done (.ok .empty, h.vault) :=
    allocate_zero h.vault
  rw [← hscript, hnone]
  exact ⟨rfl, rfl, rfl⟩

/-- Four blocks, and up to twenty if there is need of them. -/
def fourBlocks : Settings :=
  { blockSize := 512, initialBlocks := 4, autoGrow := true, maxBlocks := 20 }

/-- The last of four blocks is free, and growth makes a run of six of it. -/
theorem allocate_as_utmost_fromTail :
    ∃ results h, replay fourBlocks [] ByteArray.empty = some (results, h)
      ∧ h.vault.blocks.total.toNat = 4
      ∧ ∃ w image, (allocate 3000 h.vault).run h.medium = ((.ok ⟨3, 6⟩, w), image)
        ∧ w.blocks.total.toNat ≤ 20 := by
  -- the first free block is the last of the four; six are found from there on
  have hruns : (blindReplay fourBlocks [] (Outline.ofImage ByteArray.empty)).map (fun x =>
      (x.2.vault.blocks.total.toNat, x.2.vault.settings.autoGrow,
        x.2.vault.settings.maxBlocks.toNat, x.2.vault.blockSize,
        ((x.2.vault.utmost.allocate 6).map Prod.fst).toOption))
      = some (4, true, 20, 512, some ⟨3, 6⟩) := by decide +kernel
  obtain ⟨⟨results, o⟩, hblind, hfacts⟩ := Option.map_eq_some_iff.mp hruns
  obtain ⟨h, hreplay, hseen⟩ := replay_of_blind outline_view hblind
  obtain rfl : h.seen Outline.ofImage = o := hseen
  simp only [Prod.mk.injEq] at hfacts
  obtain ⟨htotal, hgrows, hlimit, hsize, hfound⟩ :
      h.vault.blocks.total.toNat = 4 ∧ h.vault.settings.autoGrow = true
        ∧ h.vault.settings.maxBlocks.toNat = 20 ∧ h.vault.blockSize = 512
        ∧ ((h.vault.utmost.allocate 6).map Prod.fst).toOption = some ⟨3, 6⟩ := hfacts
  have hfits : h.vault.settings.maxBlocks.toNat * h.vault.blockSize.toNat < UInt64.size := by
    rw [hlimit, hsize]
    decide
  have hneeded : blocksToHold 3000 h.vault.blockSize = 6 := by
    rw [hsize]
    decide
  obtain ⟨result, w, image, hrun, hresult, -, -, hbounded, -⟩ :=
    allocate_as_utmost image_obeys (reached_of_replay hreplay) hgrows hfits 3000 h.medium
  rw [hneeded] at hresult
  rw [← hresult] at hfound
  rw [htotal, hlimit] at hbounded
  cases result with
  | error e => cases hfound
  | ok e =>
    cases hfound
    exact ⟨results, h, hreplay, htotal, w, image, hrun, hbounded⟩

end Vault

end StateVault
