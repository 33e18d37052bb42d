/-
  StateVault.Proofs.BlockMap.Refinement
  ─────────────────────────────────────
  **A BLOCK MAP IS A SET OF BLOCKS.**

  Words, bits and running count of a map stand for one thing: the finite set
  `BlockMap.used` of the blocks whose bits are set.  `Represents m` says that
  they do so properly, and every call keeps it, in any order of calls and
  with any arguments (`Call.evolves`).  What a call does is then
  said of the set alone (`Call.Evolves`): a claim is a union, a release a
  difference, and a new size leaves the set as it is.

    • `Represents.claim`, `Represents.release` — extents taken and given back,
    • `Represents.extend`, `Represents.shrink` — other sizes,
    • `Represents.allocate`                    — the first free run,
    • `refines_set`                            — all calls of all runs.
-/
import Mathlib.Algebra.Order.Floor.Div
import Mathlib.Order.Interval.Finset.Nat
import StateVault.Proofs.BlockMap.Ownership

namespace StateVault.BlockMap

/-! ## §1. The set of a map. -/

/-- The blocks whose bits are set, wherever those stand among the words. -/
def used (m : BlockMap) : Finset Nat :=
  (Finset.range (m.words.size * 64)).filter fun block => hasBit m.words block = true

/-- The blocks of an extent, its end taken exactly. -/
def blocksOf (e : Extent) : Finset Nat :=
  Finset.Ico e.start.toNat (e.start.toNat + e.count.toNat)

/-- The extent ends within the map, and none of its blocks is in use. -/
def IsFree (m : BlockMap) (e : Extent) : Prop :=
  e.start.toNat + e.count.toNat ≤ m.total.toNat ∧ Disjoint (blocksOf e) m.used

/-- The words are those for the blocks, no bit stands past the blocks, and
the running count is that of the blocks whose bits are clear. -/
structure Represents (m : BlockMap) : Prop where
  tidy : m.Tidy
  count : m.free.toNat + m.used.card = m.total.toNat

/-- Totals that leave room for one more word of blocks below the word size. -/
def largestTotal : Nat := UInt64.size - 64

/-- In a tidy map the set holds the blocks that the query tells. -/
theorem Tidy.mem_used {m : BlockMap} (h : m.Tidy) (block : Nat) :
    block ∈ m.used ↔ m.isUsed block = true := by
  rw [h.isUsed_eq_hasBit, used, Finset.mem_filter, Finset.mem_range, and_iff_right_iff_imp]
  intro hbit
  rw [← h.isUsed_eq_hasBit] at hbit
  exact Nat.lt_of_lt_of_le (isUsed_lt hbit) h.le_words

theorem Tidy.lt_of_mem_used {m : BlockMap} (h : m.Tidy) {block : Nat} (hmem : block ∈ m.used) :
    block < m.total.toNat :=
  isUsed_lt ((h.mem_used block).mp hmem)

theorem Tidy.used_subset {m : BlockMap} (h : m.Tidy) {n : Nat}
    (hbelow : ∀ block, m.isUsed block = true → block < n) : m.used ⊆ Finset.range n := by
  intro block hmem
  exact Finset.mem_range.mpr (hbelow block ((h.mem_used block).mp hmem))

/-- Two maps with the same blocks in use have the same set. -/
theorem Tidy.used_eq {m m' : BlockMap} (h : m.Tidy) (h' : m'.Tidy)
    (hsame : ∀ block, m'.isUsed block = m.isUsed block) : m'.used = m.used := by
  ext block
  rw [h'.mem_used, h.mem_used, hsame]

/-- A free extent is a run of free blocks. -/
theorem Tidy.isFree_iff {m : BlockMap} (h : m.Tidy) (e : Extent) :
    m.IsFree e ↔ m.FreeRun e.start.toNat e.count.toNat := by
  refine and_congr_right fun _ => ?_
  rw [Finset.disjoint_left]
  constructor
  · intro hapart block hlow hhigh
    have hnot := hapart (Finset.mem_Ico.mpr ⟨hlow, hhigh⟩)
    rw [h.mem_used] at hnot
    exact Bool.eq_false_iff.mpr hnot
  · intro hfree block hmem
    obtain ⟨hlow, hhigh⟩ := Finset.mem_Ico.mp hmem
    rw [h.mem_used, hfree block hlow hhigh]
    exact Bool.false_ne_true

@[simp] theorem card_blocksOf (e : Extent) : (blocksOf e).card = e.count.toNat := by
  rw [blocksOf, Nat.card_Ico]
  omega

/-- Only the blocks of the map need be looked at. -/
theorem Tidy.used_eq_filter {m : BlockMap} (h : m.Tidy) :
    m.used = (Finset.range m.total.toNat).filter fun block => m.isUsed block = true := by
  ext block
  rw [h.mem_used, Finset.mem_filter, Finset.mem_range, iff_and_self]
  exact isUsed_lt

/-- The number of set bits is the number of blocks in use. -/
theorem Tidy.card_used {m : BlockMap} (h : m.Tidy) : m.used.card = m.usedCount := by
  have hlist : (List.range m.total.toNat).filter (fun b => decide (m.isUsed b = true))
      = (List.range m.total.toNat).filter m.isUsed := by
    simp only [Bool.decide_eq_true]
  rw [h.used_eq_filter, usedCount, List.countP_eq_length_filter, ← hlist]
  rfl

theorem Represents.counted {m : BlockMap} (h : m.Represents) : m.Counted := by
  have hcount := h.count
  rw [h.tidy.card_used] at hcount
  exact hcount

theorem represents_blank (total : UInt64) (blockSize : UInt32) :
    (blank total blockSize).Represents where
  tidy := tidy_blank total blockSize
  count := by
    have hnone : (blank total blockSize).used = ∅ := by
      ext block
      simp [(tidy_blank total blockSize).mem_used, isUsed_blank]
    rw [hnone, Finset.card_empty]
    rfl

/-! ## §2. Blocks taken. -/

section Taken

variable {m : BlockMap}

/-- A free extent taken into use. -/
theorem Represents.take (h : m.Represents) {e : Extent} (hfree : m.IsFree e) :
    ({ m with
        words := setFrom m.words e.start.toNat e.count.toNat
        free := m.free - e.count } : BlockMap).Represents
      ∧ ({ m with
        words := setFrom m.words e.start.toNat e.count.toNat
        free := m.free - e.count } : BlockMap).used = m.used ∪ blocksOf e := by
  have htidy : ({ m with
      words := setFrom m.words e.start.toNat e.count.toNat
      free := m.free - e.count } : BlockMap).Tidy := h.tidy.set hfree.1
  have hset : ({ m with
      words := setFrom m.words e.start.toNat e.count.toNat
      free := m.free - e.count } : BlockMap).used = m.used ∪ blocksOf e := by
    ext block
    rw [htidy.mem_used, h.tidy.isUsed_set hfree.1, Finset.mem_union, h.tidy.mem_used, blocksOf,
      Finset.mem_Ico, Bool.or_eq_true, decide_eq_true_eq, or_comm]
  refine ⟨⟨htidy, ?_⟩, hset⟩
  rw [hset, Finset.card_union_of_disjoint hfree.2.symm, card_blocksOf]
  -- the extent was among the free blocks, so the count does not go below zero
  have hroom := usedCount_add_le ((h.tidy.isFree_iff e).mp hfree)
  have hcount := h.count
  rw [← h.tidy.card_used] at hroom
  have hsub := Word.toNat_sub (a := m.free) (b := e.count) (by omega)
  show (m.free - e.count).toNat + _ = m.total.toNat
  omega

/-- A search that finds no block in use has found a free run. -/
theorem firstUsed_eq_none_iff {start n : Nat} :
    m.firstUsed start n = none
      ↔ ∀ block, start ≤ block → block < start + n → m.isUsed block = false := by
  refine ⟨fun hnone => ?_, firstUsed_of_free⟩
  -- along the search, one block at a time
  induction n generalizing start with
  | zero =>
    intro block h1 h2
    omega
  | succ n ih =>
    rw [firstUsed] at hnone
    split at hnone
    · cases hnone
    · rename_i hfirst
      intro block h1 h2
      by_cases hsame : block = start
      · rw [hsame]
        exact Bool.eq_false_iff.mpr hfirst
      · exact ih hnone block (by omega) (by omega)

/-- The end at which an extent stops tells as much as its exact end: the exact
one is a word, or the map ends below the largest word. -/
def Tells (m : BlockMap) (e : Extent) : Prop :=
  m.total.toNat < UInt64.size - 1 ∨ e.start.toNat + e.count.toNat < UInt64.size

/-- Below the largest size the held end tells as much as the exact one. -/
theorem tells_of_limit (hlimit : m.total.toNat < largestTotal) (e : Extent) : m.Tells e := by
  have hsize : largestTotal = UInt64.size - 64 := rfl
  left
  omega

/-- The test against the end, without the word arithmetic. -/
theorem lt_stop_iff {e : Extent} (htells : m.Tells e) :
    m.total < e.stop ↔ m.total.toNat < e.start.toNat + e.count.toNat := by
  have htotal := m.total.toNat_lt_size
  unfold Tells at htells
  rw [UInt64.lt_iff_toNat_lt, Extent.toNat_stop]
  omega

theorem length_of_within {e : Extent}
    (hwithin : e.start.toNat + e.count.toNat ≤ m.total.toNat) : e.length = e.count.toNat := by
  have htotal := m.total.toNat_lt_size
  rw [Extent.length, Extent.toNat_stop]
  omega

/-- A claim is taken exactly if its extent is free, and then added. -/
theorem Represents.claim (h : m.Represents) {e : Extent} (htells : m.Tells e) :
    match m.claim e with
    | .ok m' => m.IsFree e ∧ m'.Represents ∧ m'.used = m.used ∪ blocksOf e
        ∧ m'.total = m.total
    | .error _ => ¬ m.IsFree e := by
  unfold BlockMap.claim
  by_cases hpast : m.total < e.stop
  · rw [if_pos hpast]
    -- past the end of the map
    rw [lt_stop_iff htells] at hpast
    exact fun hfree => absurd hfree.1 (by omega)
  · rw [if_neg hpast]
    rw [lt_stop_iff htells, Nat.not_lt] at hpast
    rw [length_of_within hpast]
    cases hfound : m.firstUsed e.start.toNat e.count.toNat with
    | some block =>
      -- a block in use stands against the claim
      intro hfree
      rw [h.tidy.isFree_iff] at hfree
      rw [firstUsed_eq_none_iff.mpr hfree.2] at hfound
      cases hfound
    | none =>
      have hfree : m.IsFree e := (h.tidy.isFree_iff e).mpr ⟨hpast, firstUsed_eq_none_iff.mp hfound⟩
      obtain ⟨hafter, hset⟩ := h.take hfree
      exact ⟨hfree, hafter, hset, rfl⟩

/-- An allocation takes a free extent of the length asked for, and fails only
if there is none. -/
theorem Represents.allocate (h : m.Represents) (needed : UInt64) :
    match m.allocate needed with
    | .ok (e, m') => e.count = needed ∧ m.IsFree e ∧ m'.Represents
        ∧ m'.used = m.used ∪ blocksOf e ∧ m'.total = m.total
    | .error _ => ∀ e, e.count = needed → ¬ m.IsFree e := by
  by_cases hneeded : needed = 0
  · subst hneeded
    -- no blocks asked for: the answer is the empty extent
    have hnone : blocksOf .empty = ∅ := rfl
    refine ⟨rfl, ⟨Nat.zero_le _, ?_⟩, h, ?_, rfl⟩
    · rw [hnone]
      exact Finset.disjoint_empty_left _
    · rw [hnone, Finset.union_empty]
  · have hspec := allocate_spec h.counted hneeded
    cases hallocate : m.allocate needed with
    | error err =>
      rw [hallocate] at hspec
      intro e hcount hfree
      rw [h.tidy.isFree_iff, hcount] at hfree
      exact hspec.2 _ hfree
    | ok found =>
      obtain ⟨e, m'⟩ := found
      rw [hallocate] at hspec
      obtain ⟨hcount, hrun, _, hafter⟩ := hspec
      subst hafter hcount
      have hfree := (h.tidy.isFree_iff e).mpr hrun
      obtain ⟨hafter, hset⟩ := h.take hfree
      exact ⟨rfl, hfree, hafter, hset, rfl⟩

end Taken

/-! ## §3. Blocks given back. -/

section Given

variable {m : BlockMap}

/-- One block given back counts once, if it was in use, and else not at all. -/
theorem Represents.releaseBlock (h : m.Represents) (block : Nat) :
    (m.releaseBlock block).Represents ∧ (m.releaseBlock block).used = m.used.erase block := by
  have htidy := h.tidy.releaseBlock block
  have hset : (m.releaseBlock block).used = m.used.erase block := by
    ext b
    rw [htidy.mem_used, h.tidy.isUsed_releaseBlock, Finset.mem_erase, h.tidy.mem_used,
      Bool.and_eq_true, decide_eq_true_eq, ne_comm]
  refine ⟨⟨htidy, ?_⟩, hset⟩
  have hcount := h.count
  rw [hset, total_releaseBlock]
  by_cases hmem : block ∈ m.used
  · -- a block that was in use adds one to the count; another one changes nothing
    have hpos : 0 < m.used.card := Finset.card_pos.mpr ⟨block, hmem⟩
    have hlt := m.total.toNat_lt
    rw [Finset.card_erase_of_mem hmem, BlockMap.releaseBlock, if_pos ((h.tidy.mem_used _).mp hmem)]
    show (m.free + 1).toNat + _ = _
    rw [UInt64.toNat_add, UInt64.toNat_one, Nat.mod_eq_of_lt (by omega)]
    omega
  · rw [Finset.erase_eq_of_notMem hmem, BlockMap.releaseBlock,
      if_neg (fun hused => hmem ((h.tidy.mem_used _).mpr hused))]
    exact hcount

/-- **A run that is released** is taken out of the set, whatever part of it was
in use. -/
theorem Represents.releaseFrom (h : m.Represents) (start n : Nat) :
    (m.releaseFrom start n).Represents
      ∧ (m.releaseFrom start n).used = m.used \ Finset.Ico start (start + n) := by
  -- block after block, each taken out of what the ones before it left
  induction n generalizing m start with
  | zero =>
    refine ⟨h, ?_⟩
    rw [BlockMap.releaseFrom, Nat.add_zero, Finset.Ico_self, Finset.sdiff_empty]
  | succ n ih =>
    obtain ⟨hone, hset⟩ := h.releaseBlock start
    obtain ⟨hrest, hset'⟩ := ih hone (start + 1)
    refine ⟨hrest, ?_⟩
    rw [BlockMap.releaseFrom, hset', hset]
    ext block
    simp only [Finset.mem_sdiff, Finset.mem_erase, Finset.mem_Ico]
    constructor
    · rintro ⟨⟨hne, hmem⟩, hout⟩
      exact ⟨hmem, by omega⟩
    · rintro ⟨hmem, hout⟩
      exact ⟨⟨by omega, hmem⟩, by omega⟩

/-- A release fails exactly if blocks of its extent are past the map, and else
takes the extent away. -/
theorem Represents.release (h : m.Represents) {e : Extent} (htells : m.Tells e) :
    match m.release e with
    | .ok m' => (e.count.toNat = 0 ∨ e.start.toNat + e.count.toNat ≤ m.total.toNat)
        ∧ m'.Represents ∧ m'.used = m.used \ blocksOf e ∧ m'.total = m.total
    | .error _ => e.count.toNat ≠ 0 ∧ m.total.toNat < e.start.toNat + e.count.toNat := by
  unfold BlockMap.release
  by_cases hzero : e.isEmpty = true
  · rw [if_pos hzero]
    rw [Extent.isEmpty_iff] at hzero
    refine ⟨Or.inl hzero, h, ?_, rfl⟩
    rw [blocksOf, hzero, Nat.add_zero, Finset.Ico_self, Finset.sdiff_empty]
  · rw [if_neg hzero]
    rw [Extent.isEmpty_iff] at hzero
    by_cases hpast : m.total < e.stop
    · rw [if_pos hpast]
      exact ⟨hzero, (lt_stop_iff htells).mp hpast⟩
    · rw [if_neg hpast]
      rw [lt_stop_iff htells, Nat.not_lt] at hpast
      -- the extent ends in the map, so that its end is the exact one
      rw [length_of_within hpast]
      obtain ⟨hafter, hset⟩ := h.releaseFrom e.start.toNat e.count.toNat
      exact ⟨Or.inr hpast, hafter, hset, total_releaseFrom _ _ _⟩

end Given

/-! ## §4. Other sizes. -/

section Sizes

variable {m : BlockMap}

/-- **A larger map** stands for the same set. -/
theorem Represents.extend (h : m.Represents) (total : UInt64) :
    (m.extend total).Represents ∧ (m.extend total).used = m.used := by
  have hset : (m.extend total).used = m.used :=
    h.tidy.used_eq (h.tidy.extend total) (h.tidy.isUsed_extend total)
  refine ⟨⟨h.tidy.extend total, ?_⟩, hset⟩
  rw [hset]
  exact count_extend h.count total

/-- The highest block in use is the greatest of the set. -/
theorem Tidy.isGreatest_highest (h : m.Tidy) {block : Nat} (hhigh : m.highest = some block) :
    IsGreatest (m.used : Set Nat) block := by
  refine ⟨(h.mem_used block).mpr (h.isUsed_highest hhigh), fun b hmem => ?_⟩
  obtain ⟨high, hsome, hle⟩ := h.exists_highest ((h.mem_used b).mp hmem)
  rw [hhigh] at hsome
  cases hsome
  exact hle

/-- A map is cut exactly if the greatest block in use is below the cut, and is
else refused with that block. -/
theorem Represents.shrink (h : m.Represents) {total : UInt64}
    (hless : total.toNat < m.total.toNat) :
    match m.shrink total with
    | .ok m' => (∀ block ∈ m.used, block < total.toNat) ∧ m'.Represents ∧ m'.used = m.used
        ∧ m'.total = total
    | .error err => ∃ block, IsGreatest (m.used : Set Nat) block ∧ total.toNat ≤ block
        ∧ err = .blockInUse total (UInt64.ofNat block) := by
  have hspec := h.tidy.shrink_spec hless
  cases hcut : m.shrink total with
  | ok m' =>
    rw [hcut] at hspec
    obtain ⟨hbelow, rfl⟩ := hspec
    obtain ⟨htidy, hsame⟩ := h.tidy.cut (m.free - (m.total - total)) hless hbelow
    have hset := h.tidy.used_eq htidy hsame
    refine ⟨fun block hmem => hbelow block ((h.tidy.mem_used _).mp hmem), ⟨htidy, ?_⟩, hset, rfl⟩
    -- all blocks in use are below the cut, so there are no more than it has
    have hcard := Finset.card_le_card (h.tidy.used_subset hbelow)
    rw [Finset.card_range] at hcard
    rw [hset]
    exact count_cut h.count hless hcard
  | error err =>
    have hnot : ¬ m.total ≤ total := by
      rw [UInt64.le_iff_toNat_le]
      omega
    unfold BlockMap.shrink at hcut
    rw [if_neg hnot] at hcut
    cases hhigh : m.highest with
    | none =>
      rw [hhigh] at hcut
      cases hcut
    | some block =>
      rw [hhigh] at hcut
      by_cases hle : total.toNat ≤ block
      · simp only [if_pos hle] at hcut
        cases hcut
        exact ⟨block, h.tidy.isGreatest_highest hhigh, hle, rfl⟩
      · simp only [if_neg hle] at hcut
        cases hcut

end Sizes

/-! ## §5. Runs of calls. -/

/-- What can be asked of a block map. -/
inductive Call where
  | allocate (needed : UInt64)
  | allocateBytes (bytes : UInt64)
  | claim (e : Extent)
  | release (e : Extent)
  | extend (total : UInt64)
  | shrink (total : UInt64)

namespace Call

/-- What a call answers: an extent, or nothing but the map after it. -/
def outcome (m : BlockMap) : Call → Except Error (Option Extent × BlockMap)
  | .allocate needed => (m.allocate needed).map fun (e, m) => (some e, m)
  | .allocateBytes bytes => (m.allocateBytes bytes).map fun (e, m) => (some e, m)
  | .claim e => (m.claim e).map fun m => (none, m)
  | .release e => (m.release e).map fun m => (none, m)
  | .extend total => .ok (none, m.extend total)
  | .shrink total => (m.shrink total).map fun m => (none, m)

/-- Whether a call goes through. -/
def Succeeds (m : BlockMap) (c : Call) : Prop :=
  ∃ x, c.outcome m = .ok x

/-- The map after a call; a call that fails hands none back, so that the old
one stays. -/
def after (m : BlockMap) (c : Call) : BlockMap :=
  match c.outcome m with
  | .ok (_, m') => m'
  | .error _ => m

/-- A call for `needed` blocks finds some if there are any, and adds them. -/
def Takes (m : BlockMap) (c : Call) (needed : UInt64) : Prop :=
  (c.Succeeds m ↔ ∃ e : Extent, e.count = needed ∧ m.IsFree e)
    ∧ (c.Succeeds m → ∃ e : Extent, c.outcome m = .ok (some e, c.after m) ∧ e.count = needed
        ∧ m.IsFree e ∧ (c.after m).used = m.used ∪ blocksOf e ∧ (c.after m).total = m.total)

/-- What a call does to the blocks in use and to the number of blocks. -/
def Evolves (m : BlockMap) (c : Call) : Prop :=
  match c with
  | .allocate needed => c.Takes m needed
  | .allocateBytes bytes => c.Takes m (blocksToHold bytes m.blockSize)
  | .claim e =>
      (c.Succeeds m ↔ m.IsFree e)
        ∧ (c.Succeeds m → (c.after m).used = m.used ∪ blocksOf e ∧ (c.after m).total = m.total)
  | .release e =>
      (¬ c.Succeeds m ↔ e.count.toNat ≠ 0 ∧ m.total.toNat < e.start.toNat + e.count.toNat)
        ∧ (c.Succeeds m → (c.after m).used = m.used \ blocksOf e ∧ (c.after m).total = m.total)
  | .extend total =>
      c.Succeeds m ∧ (c.after m).used = m.used ∧ (c.after m).total = max m.total total
  | .shrink total =>
      if total.toNat < m.total.toNat then
        (¬ c.Succeeds m ↔ ∃ block, IsGreatest (m.used : Set Nat) block ∧ total.toNat ≤ block)
          ∧ (∀ block, IsGreatest (m.used : Set Nat) block → total.toNat ≤ block →
              c.outcome m = .error (.blockInUse total (UInt64.ofNat block)))
          ∧ (c.Succeeds m → (c.after m).used = m.used ∧ (c.after m).total = total)
      else c.Succeeds m ∧ c.after m = m

/-- Where a call names an extent, the end of that tells whether it is within
the map. -/
def Plain (m : BlockMap) : Call → Prop
  | .claim e | .release e => m.Tells e
  | _ => True

variable {m : BlockMap} {c : Call}

theorem plain_of_limit (hlimit : m.total.toNat < largestTotal) (c : Call) : c.Plain m := by
  cases c with
  | claim e => exact tells_of_limit hlimit e
  | release e => exact tells_of_limit hlimit e
  | _ => trivial

theorem after_of_ok {answer : Option Extent} {m' : BlockMap}
    (h : c.outcome m = .ok (answer, m')) : c.Succeeds m ∧ c.after m = m' := by
  refine ⟨⟨_, h⟩, ?_⟩
  rw [after, h]

theorem after_of_error {err : Error} (h : c.outcome m = .error err) :
    ¬ c.Succeeds m ∧ c.after m = m := by
  constructor
  · rintro ⟨x, hx⟩
    rw [h] at hx
    cases hx
  · rw [after, h]

/-- A call for blocks, whichever way their number is told. -/
theorem takes_of_outcome (h : m.Represents) {needed : UInt64}
    (hcall : c.outcome m = (m.allocate needed).map fun (e, m) => (some e, m)) :
    c.Takes m needed ∧ (c.after m).Represents := by
  have hspec := h.allocate needed
  cases hallocate : m.allocate needed with
  | error err =>
    rw [hallocate] at hspec hcall
    -- no free extent of this size, and the map stays
    obtain ⟨hnot, hsame⟩ := after_of_error hcall
    refine ⟨⟨⟨fun hok => absurd hok hnot, ?_⟩, fun hok => absurd hok hnot⟩, ?_⟩
    · rintro ⟨e, hcount, hfree⟩
      exact absurd hfree (hspec e hcount)
    · rw [hsame]
      exact h
  | ok found =>
    obtain ⟨e, m'⟩ := found
    rw [hallocate] at hspec hcall
    obtain ⟨hcount, hfree, hafter, hset, htotal⟩ := hspec
    obtain ⟨hok, rfl⟩ := after_of_ok hcall
    exact ⟨⟨⟨fun _ => ⟨e, hcount, hfree⟩, fun _ => hok⟩,
      fun _ => ⟨e, hcall, hcount, hfree, hset, htotal⟩⟩, hafter⟩

/-- A claim of free blocks is a union; every other one fails. -/
theorem evolves_claim (h : m.Represents) {e : Extent} (htells : m.Tells e) :
    (Call.claim e).Evolves m ∧ ((Call.claim e).after m).Represents := by
  have hspec := h.claim htells
  have hcall : (Call.claim e).outcome m = (m.claim e).map fun m => (none, m) := rfl
  cases hclaim : m.claim e with
  | error err =>
    rw [hclaim] at hspec hcall
    obtain ⟨hnot, hsame⟩ := after_of_error hcall
    refine ⟨⟨⟨fun hok => absurd hok hnot, fun hfree => absurd hfree hspec⟩,
      fun hok => absurd hok hnot⟩, ?_⟩
    rw [hsame]
    exact h
  | ok m' =>
    rw [hclaim] at hspec hcall
    obtain ⟨hfree, hafter, hset, htotal⟩ := hspec
    obtain ⟨hok, rfl⟩ := after_of_ok hcall
    exact ⟨⟨⟨fun _ => hfree, fun _ => hok⟩, fun _ => ⟨hset, htotal⟩⟩, hafter⟩

/-- A release within the map is a difference, whatever part of it was in use. -/
theorem evolves_release (h : m.Represents) {e : Extent} (htells : m.Tells e) :
    (Call.release e).Evolves m ∧ ((Call.release e).after m).Represents := by
  have hspec := h.release htells
  have hcall : (Call.release e).outcome m = (m.release e).map fun m => (none, m) := rfl
  cases hrelease : m.release e with
  | error err =>
    rw [hrelease] at hspec hcall
    obtain ⟨hnot, hsame⟩ := after_of_error hcall
    refine ⟨⟨⟨fun _ => hspec, fun _ => hnot⟩, fun hok => absurd hok hnot⟩, ?_⟩
    rw [hsame]
    exact h
  | ok m' =>
    rw [hrelease] at hspec hcall
    obtain ⟨hwithin, hafter, hset, htotal⟩ := hspec
    obtain ⟨hok, rfl⟩ := after_of_ok hcall
    refine ⟨⟨⟨fun hnot => absurd hok hnot, fun hpast => ?_⟩, fun _ => ⟨hset, htotal⟩⟩, hafter⟩
    omega

/-- Extending always goes through and leaves the set alone. -/
theorem evolves_extend (h : m.Represents) (total : UInt64) :
    (Call.extend total).Evolves m ∧ ((Call.extend total).after m).Represents := by
  obtain ⟨hafter, hset⟩ := h.extend total
  have htotal : (m.extend total).total = max m.total total := by
    apply UInt64.toNat_inj.mp
    rw [toNat_total_extend, Word.toNat_max]
  exact ⟨⟨⟨_, rfl⟩, hset, htotal⟩, hafter⟩

/-- A cut is refused for the last block in use, and for no other reason. -/
theorem evolves_shrink (h : m.Represents) (total : UInt64) :
    (Call.shrink total).Evolves m ∧ ((Call.shrink total).after m).Represents := by
  have hcall : (Call.shrink total).outcome m = (m.shrink total).map fun m => (none, m) := rfl
  rw [Evolves]
  by_cases hless : total.toNat < m.total.toNat
  · rw [if_pos hless]
    have hspec := h.shrink hless
    cases hcut : m.shrink total with
    | error err =>
      rw [hcut] at hspec hcall
      obtain ⟨block, hgreatest, hle, rfl⟩ := hspec
      obtain ⟨hnot, hsame⟩ := after_of_error hcall
      refine ⟨⟨⟨fun _ => ⟨block, hgreatest, hle⟩, fun _ => hnot⟩, fun b hb _ => ?_,
        fun hok => absurd hok hnot⟩, ?_⟩
      · rw [hb.unique hgreatest, outcome, hcut]
        rfl
      · rw [hsame]
        exact h
    | ok m' =>
      rw [hcut] at hspec hcall
      obtain ⟨hbelow, hafter, hset, htotal⟩ := hspec
      obtain ⟨hok, rfl⟩ := after_of_ok hcall
      have hnone : ∀ block, IsGreatest (m.used : Set Nat) block → ¬ total.toNat ≤ block :=
        fun block hgreatest hle => absurd (hbelow block hgreatest.1) (Nat.not_lt.mpr hle)
      exact ⟨⟨⟨fun hnot => absurd hok hnot, fun ⟨block, hb, hle⟩ => absurd hle (hnone block hb)⟩,
        fun block hb hle => absurd hle (hnone block hb), fun _ => ⟨hset, htotal⟩⟩, hafter⟩
  · rw [if_neg hless]
    -- no cut at all
    rw [BlockMap.shrink, if_pos (UInt64.le_iff_toNat_le.mpr (Nat.not_lt.mp hless))] at hcall
    obtain ⟨hok, hsame⟩ := after_of_ok hcall
    refine ⟨⟨hok, hsame⟩, ?_⟩
    rw [hsame]
    exact h

/-- **One call**: it does to the set what it says, and the map after it stands
for the set after it. -/
theorem evolves_of_plain (h : m.Represents) (hplain : c.Plain m) :
    c.Evolves m ∧ (c.after m).Represents := by
  cases c with
  | allocate needed => exact takes_of_outcome h rfl
  | allocateBytes bytes => exact takes_of_outcome h rfl
  | claim e => exact evolves_claim h hplain
  | release e => exact evolves_release h hplain
  | extend total => exact evolves_extend h total
  | shrink total => exact evolves_shrink h total

/-- **Any call**, below the largest size, does to the set what its kind says. -/
theorem evolves (h : m.Represents) (hlimit : m.total.toNat < largestTotal) (c : Call) :
    c.Evolves m ∧ (c.after m).Represents :=
  evolves_of_plain h (plain_of_limit hlimit c)

end Call

/-- The maps that come of a blank one by any calls, the total staying far below
the word size. -/
inductive Reached : BlockMap → Prop where
  | blank {total : UInt64} {blockSize : UInt32} (hlimit : total.toNat < largestTotal) :
      Reached (blank total blockSize)
  | called {m : BlockMap} (before : Reached m) (c : Call)
      (hlimit : (c.after m).total.toNat < largestTotal) : Reached (c.after m)

/-- No call brings a map to the largest size. -/
theorem Reached.limit {m : BlockMap} (hr : m.Reached) : m.total.toNat < largestTotal := by
  cases hr with
  | blank hlimit => exact hlimit
  | called _ _ hlimit => exact hlimit

/-- Whatever calls a map has been through, it stands for its set. -/
theorem Reached.represents {m : BlockMap} (hr : m.Reached) : m.Represents := by
  induction hr with
  | blank _ => exact represents_blank _ _
  | called before c _ ih => exact (c.evolves ih before.limit).2

/-- **A block map is a set of blocks**, after any calls: it has the words for
its blocks, no bit past them, and a running count that is right; each call
does to the set what it says, and none that fails changes the map. -/
theorem refines_set {m : BlockMap} (hr : m.Reached) :
    m.words.size = m.total.toNat ⌈/⌉ 64
      ∧ (∀ block ∈ m.used, block < m.total.toNat)
      ∧ m.free.toNat + m.used.card = m.total.toNat
      ∧ ∀ c : Call, c.Evolves m ∧ (¬ c.Succeeds m → c.after m = m) := by
  have h := hr.represents
  refine ⟨?_, fun _ => h.tidy.lt_of_mem_used, h.count, fun c =>
    ⟨(c.evolves h hr.limit).1, fun hfails => ?_⟩⟩
  · rw [h.tidy.size, wordsFor, Nat.ceilDiv_eq_add_pred_div]
    rfl
  · cases hcall : c.outcome m with
    | ok x => exact absurd ⟨x, hcall⟩ hfails
    | error err => exact (Call.after_of_error hcall).2

/-- Four blocks across two words are claimed and the last two of them given
back, with others that are free; a cut at the last one left is refused. -/
theorem refines_set_acrossWords :
    ∃ m : BlockMap, m.Reached ∧ m.used = {62, 63} ∧ m.free.toNat = 68
      ∧ (Call.shrink 63).outcome m = .error (.blockInUse 63 63) := by
  have hclaimed : ((Call.claim ⟨62, 4⟩).after (blank 70 512)).Reached :=
    (Reached.blank (by decide)).called _ (by decide +kernel)
  have hr := hclaimed.called (.release ⟨64, 6⟩) (by decide +kernel)
  have hused : ((Call.release ⟨64, 6⟩).after ((Call.claim ⟨62, 4⟩).after (blank 70 512))).used
      = {62, 63} := by decide +kernel
  have htotal : ((Call.release ⟨64, 6⟩).after ((Call.claim ⟨62, 4⟩).after (blank 70 512))).total
      = 70 := by decide +kernel
  -- from here on only the set and the total count
  generalize (Call.release ⟨64, 6⟩).after ((Call.claim ⟨62, 4⟩).after (blank 70 512)) = m
    at hr hused htotal
  obtain ⟨_, _, hcount, hcalls⟩ := refines_set hr
  have hshrink := (hcalls (.shrink 63)).1
  rw [Call.Evolves, htotal, if_pos (by decide), hused] at hshrink
  have hcard : ({62, 63} : Finset Nat).card = 2 := rfl
  rw [hused, htotal, hcard] at hcount
  refine ⟨m, hr, hused, ?_, hshrink.2.1 63 ⟨by decide, ?_⟩ (by decide)⟩
  · have hseventy : (70 : UInt64).toNat = 70 := rfl
    omega
  · intro block hmem
    simp only [Finset.coe_insert, Finset.coe_singleton, Set.mem_insert_iff,
      Set.mem_singleton_iff] at hmem
    omega

end StateVault.BlockMap
