/-
  StateVault.Proofs.Vault.Held
  ────────────────────────────
  **BLOCKS ARE TAKEN AND GIVEN BACK, NEVER LOST.**

  `Held v others` says that the blocks in use in an open vault are those of
  the superblock's copies, of the directory and of the extents `others`, each
  block with one owner.  Allocation adds an owner and `released` takes one
  away, whatever the medium answers in between.

    • `blocksToHold_spec`    — enough blocks, and not one too many,
    • `allocate_yields`      — one more owner, or none and an error,
    • `Held.released`        — one owner less,
    • `fill_yields`, `writeCommit_yields` — nothing that is known changes.
-/
import Mathlib.Algebra.Order.Floor.Div
import StateVault.Proofs.BlockMap.Claims
import StateVault.Proofs.Storage.Answers
import StateVault.Vault.Commit

namespace StateVault

/-! ## §1. Blocks for bytes. -/

theorem isBlockSize_bounds {size : UInt32} (h : isBlockSize size = true) :
    512 ≤ size.toNat ∧ size.toNat ≤ 65536 := by
  simp only [isBlockSize, Bool.and_eq_true, decide_eq_true_eq] at h
  exact ⟨UInt32.le_iff_toNat_le.mp h.1.2, UInt32.le_iff_toNat_le.mp h.2⟩

/-- The blocks hold the bytes, and one block less would not. -/
theorem blocksToHold_spec {blockSize : UInt32} (h : isBlockSize blockSize = true)
    (bytes : UInt64) :
    bytes.toNat ≤ (blocksToHold bytes blockSize).toNat * blockSize.toNat
      ∧ ∀ k, bytes.toNat ≤ k * blockSize.toNat → (blocksToHold bytes blockSize).toNat ≤ k := by
  obtain ⟨hlow, hhigh⟩ := isBlockSize_bounds h
  have hbytes := bytes.toNat_lt
  have hdiv : (bytes / blockSize.toUInt64).toNat = bytes.toNat / blockSize.toNat := by
    rw [UInt64.toNat_div, UInt32.toNat_toUInt64]
  have hmod : bytes % blockSize.toUInt64 = 0 ↔ bytes.toNat % blockSize.toNat = 0 := by
    rw [← UInt64.toNat_inj, UInt64.toNat_mod, UInt32.toNat_toUInt64]
    rfl
  -- there are few enough blocks for one more to be counted
  have hquot : bytes.toNat / blockSize.toNat < 2 ^ 64 / 512 + 1 :=
    Nat.lt_succ_of_le (Nat.le_trans (Nat.div_le_div_right (Nat.le_of_lt hbytes))
      (Nat.div_le_div_left hlow (by decide)))
  have heuclid := Nat.div_add_mod bytes.toNat blockSize.toNat
  have hrest := Nat.mod_lt bytes.toNat (show 0 < blockSize.toNat by omega)
  rw [Nat.mul_comm] at heuclid
  -- a number of blocks that holds the bytes is no less than the quotient, rounded up
  have hleast : ∀ k, bytes.toNat ≤ k * blockSize.toNat →
      bytes.toNat / blockSize.toNat + (if bytes.toNat % blockSize.toNat = 0 then 0 else 1)
        ≤ k := by
    intro k hk
    by_cases hzero : bytes.toNat % blockSize.toNat = 0
    · rw [if_pos hzero, Nat.add_zero]
      exact Nat.le_of_mul_le_mul_right (by omega) (show 0 < blockSize.toNat by omega)
    · rw [if_neg hzero]
      have hlt : bytes.toNat / blockSize.toNat * blockSize.toNat < k * blockSize.toNat := by
        omega
      exact Nat.lt_of_mul_lt_mul_right hlt
  have hvalue : (blocksToHold bytes blockSize).toNat
      = bytes.toNat / blockSize.toNat
        + (if bytes.toNat % blockSize.toNat = 0 then 0 else 1) := by
    unfold blocksToHold
    rw [UInt64.toNat_add, hdiv]
    by_cases hzero : bytes.toNat % blockSize.toNat = 0
    · rw [if_pos (hmod.mpr hzero), if_pos hzero]
      exact Nat.mod_eq_of_lt (by
        show bytes.toNat / blockSize.toNat + 0 < 2 ^ 64
        omega)
    · rw [if_neg (fun h => hzero (hmod.mp h)), if_neg hzero]
      exact Nat.mod_eq_of_lt (by
        show bytes.toNat / blockSize.toNat + 1 < 2 ^ 64
        omega)
  rw [hvalue]
  refine ⟨?_, hleast⟩
  by_cases hzero : bytes.toNat % blockSize.toNat = 0
  · rw [if_pos hzero, Nat.add_zero]
    omega
  · rw [if_neg hzero, Nat.add_mul]
    omega

/-- Blocks for bytes are a quotient, rounded up. -/
theorem toNat_blocksToHold {blockSize : UInt32} (h : isBlockSize blockSize = true)
    (bytes : UInt64) :
    (blocksToHold bytes blockSize).toNat = bytes.toNat ⌈/⌉ blockSize.toNat := by
  obtain ⟨henough, hleast⟩ := blocksToHold_spec h bytes
  obtain ⟨hlow, _⟩ := isBlockSize_bounds h
  have hpos : 0 < blockSize.toNat := by omega
  apply Nat.le_antisymm
  · apply hleast
    rw [Nat.mul_comm]
    exact (ceilDiv_le_iff_le_mul hpos).mp (Nat.le_refl _)
  · rw [Nat.mul_comm] at henough
    exact (ceilDiv_le_iff_le_mul hpos).mpr henough

/-- The blocks for a number of bytes hold them. -/
theorem le_blocksToHold {blockSize : UInt32} (h : isBlockSize blockSize = true) {n : Nat}
    (hn : n < UInt64.size) :
    n ≤ (blocksToHold (UInt64.ofNat n) blockSize).toNat * blockSize.toNat := by
  have hspec := (blocksToHold_spec h (UInt64.ofNat n)).1
  rwa [UInt64.toNat_ofNat', Nat.mod_eq_of_lt hn] at hspec

theorem le_capacity {e : Extent} {blockSize : UInt32} {bytes : UInt64}
    (h : bytes.toNat ≤ e.count.toNat * blockSize.toNat) : bytes ≤ e.capacity blockSize := by
  have hbytes := bytes.toNat_lt_size
  rw [UInt64.le_iff_toNat_le, Extent.toNat_capacity]
  omega

namespace Vault

/-! ## §2. Allocation, case by case. -/

section Cases

variable {v : Vault} {needed : UInt64}

/-- A run that is there is taken. -/
theorem allocateGrowing_of_fits {e : Extent} {blocks : BlockMap}
    (hfit : v.blocks.allocate needed = .ok (e, blocks)) :
    allocateGrowing needed v = .done (.ok e, { v with blocks }) := by
  rw [allocateGrowing]
  split
  · rename_i hfit'
    rw [hfit] at hfit'
    cases hfit'
    rfl
  · rename_i hfit'
    rw [hfit] at hfit'
    cases hfit'

/-- Without a run, a vault that may not grow says so. -/
theorem allocateGrowing_of_full {e : Error} (hfit : v.blocks.allocate needed = .error e)
    (hgrow : ¬ v.mayGrow = true) : allocateGrowing needed v = .done (.error e, v) := by
  rw [allocateGrowing]
  split
  · rename_i hfit'
    rw [hfit] at hfit'
    cases hfit'
  · rename_i hfit'
    rw [hfit] at hfit'
    cases hfit'
    rw [dif_neg hgrow]

/-- Without a run, growth to a size that has no length is refused. -/
theorem allocateGrowing_of_overflow {e : Error} (hfit : v.blocks.allocate needed = .error e)
    (hgrow : v.mayGrow = true)
    (hbytes : Word.mul? (v.grownTotal needed) v.blockSize.toUInt64 = none) :
    allocateGrowing needed v
      = .done (.error (.settings (.sizeOverflows (v.grownTotal needed))), v) := by
  rw [allocateGrowing]
  split
  · rename_i hfit'
    rw [hfit] at hfit'
    cases hfit'
  · rw [dif_pos hgrow]
    simp only [hbytes]

/-- The vault after one step of growth. -/
def grown (v : Vault) (needed : UInt64) : Vault :=
  { v with blocks := v.blocks.extend (v.grownTotal needed) }

/-- Without a run, the vault takes a step of growth and tries again. -/
theorem allocateGrowing_of_grows {e : Error} {bytes : UInt64}
    (hfit : v.blocks.allocate needed = .error e) (hgrow : v.mayGrow = true)
    (hbytes : Word.mul? (v.grownTotal needed) v.blockSize.toUInt64 = some bytes) :
    allocateGrowing needed v = .setLength bytes.toNat fun
      | .error e => .done (.error e, v)
      | .ok _ => allocateGrowing needed (v.grown needed) := by
  rw [allocateGrowing]
  split
  · rename_i hfit'
    rw [hfit] at hfit'
    cases hfit'
  · rw [dif_pos hgrow]
    simp only [hbytes]
    rfl

end Cases

/-! ## §3. What stays the same. -/

/-- `w` is `v`, with a block map of its own that is no smaller. -/
structure Keeps (v w : Vault) : Prop where
  superblock : w.superblock = v.superblock
  slot : w.slot = v.slot
  directory : w.directory = v.directory
  settings : w.settings = v.settings
  total : v.blocks.total.toNat ≤ w.blocks.total.toNat

theorem Keeps.refl (v : Vault) : v.Keeps v :=
  ⟨rfl, rfl, rfl, rfl, Nat.le_refl _⟩

theorem Keeps.trans {u v w : Vault} (h : u.Keeps v) (h' : v.Keeps w) : u.Keeps w :=
  ⟨h'.superblock.trans h.superblock, h'.slot.trans h.slot, h'.directory.trans h.directory,
    h'.settings.trans h.settings, Nat.le_trans h.total h'.total⟩

/-- `w` is `v` with a block map of its own. -/
structure Alike (v w : Vault) : Prop where
  superblock : w.superblock = v.superblock
  slot : w.slot = v.slot
  directory : w.directory = v.directory
  settings : w.settings = v.settings

theorem Alike.refl (v : Vault) : v.Alike v :=
  ⟨rfl, rfl, rfl, rfl⟩

theorem Alike.trans {u v w : Vault} (h : u.Alike v) (h' : v.Alike w) : u.Alike w :=
  ⟨h'.superblock.trans h.superblock, h'.slot.trans h.slot, h'.directory.trans h.directory,
    h'.settings.trans h.settings⟩

theorem Keeps.alike {v w : Vault} (h : v.Keeps w) : v.Alike w :=
  ⟨h.superblock, h.slot, h.directory, h.settings⟩

theorem keeps_of_blocks {v : Vault} {blocks : BlockMap}
    (h : v.blocks.total.toNat ≤ blocks.total.toNat) : v.Keeps { v with blocks } :=
  ⟨rfl, rfl, rfl, rfl, h⟩

/-- The owners of the blocks in use: the copies of the superblock, the
directory and the extents `others`; and the vault is no smaller than any. -/
structure Held (v : Vault) (others : List Extent) : Prop where
  blockSize : isBlockSize v.superblock.blockSize = true
  version : v.superblock.version = Superblock.currentVersion
  least : leastBlocks.toNat ≤ v.blocks.total.toNat
  owns : v.blocks.Owns
    (superblockExtent v.superblock.blockSize :: v.superblock.directory :: others)

theorem Held.perm {v : Vault} {others others' : List Extent} (h : v.Held others)
    (hp : others.Perm others') : v.Held others' where
  blockSize := h.blockSize
  version := h.version
  least := h.least
  owns := h.owns.perm ((hp.cons _).cons _)

/-- What is held depends on superblock and blocks alone. -/
theorem Held.of_keeps {v w : Vault} {others others' : List Extent} (h : v.Held others)
    (hkeeps : v.Keeps w)
    (howns : w.blocks.Owns
      (superblockExtent v.superblock.blockSize :: v.superblock.directory :: others')) :
    w.Held others' := by
  obtain ⟨hsuperblock, _, _, _, htotal⟩ := hkeeps
  constructor
  · rw [hsuperblock]
    exact h.blockSize
  · rw [hsuperblock]
    exact h.version
  · exact Nat.le_trans h.least htotal
  · rw [hsuperblock]
    exact howns

/-! ## §4. Allocating. -/

/-- What comes of an allocation: the extent has an owner of its own, and a
vault that grew for it grew no more than it had to. -/
def Allocated (v : Vault) (owners : List Extent) (needed : UInt64) :
    Except Error Extent × Vault → Prop
  | (.ok e, w) => v.Keeps w ∧ w.blocks.Owns (e :: owners) ∧ e.count = needed
      ∧ (v.blocks.total.toNat < w.blocks.total.toNat →
          ∃ block, block ∈ e ∧ v.blocks.total.toNat ≤ block)
  | (.error _, w) => v.Keeps w ∧ w.blocks.Owns owners

/-- Of two maps with the same owners, the one has a run of free blocks and the
other has none: the run has a block beyond the other's end. -/
theorem exists_new_block {m larger after : BlockMap} {owners : List Extent} {needed : UInt64}
    {e : Extent} {err : Error} (h : m.Owns owners) (hlarger : larger.Owns owners)
    (hnone : m.allocate needed = .error err)
    (hsome : larger.allocate needed = .ok (e, after)) :
    ∃ block, block ∈ e ∧ m.total.toNat ≤ block := by
  have hne : needed ≠ 0 := by
    intro hsame
    subst hsame
    cases hnone
  have hbefore := BlockMap.allocate_spec h.counted hne
  have hafter := BlockMap.allocate_spec hlarger.counted hne
  rw [hnone] at hbefore
  rw [hsome] at hafter
  obtain ⟨hcount, hrun, _⟩ := hafter
  obtain ⟨howns, _, htotal, _⟩ := hlarger.allocate hsome
  have hfits := howns.within e List.mem_cons_self
  have hpos := Word.toNat_pos hne
  -- the last block of the run is a new one, or else the run was there before
  refine ⟨e.start.toNat + needed.toNat - 1, ?_, ?_⟩
  · rw [hfits.mem_iff, hcount]
    omega
  · apply Nat.le_of_not_lt
    intro hlt
    refine hbefore.2 e.start.toNat ⟨by omega, fun block hlow hhigh => ?_⟩
    have hfree := hrun.2 block hlow hhigh
    rw [← Bool.not_eq_true, hlarger.used, ← h.used] at hfree
    exact Bool.eq_false_iff.mpr hfree

/-- A step of growth makes the vault larger, and changes nothing else. -/
theorem grown_keeps {v : Vault} {needed : UInt64} (hne : needed ≠ 0)
    (hgrow : v.mayGrow = true) :
    v.Keeps (v.grown needed) ∧ v.blocks.total.toNat < (v.grown needed).blocks.total.toNat := by
  have hlt := lt_grownTotal hne hgrow
  have htotal : (v.grown needed).blocks.total = v.grownTotal needed :=
    BlockMap.total_extend hlt
  rw [UInt64.lt_iff_toNat_lt] at hlt
  rw [htotal]
  exact ⟨keeps_of_blocks (by rw [BlockMap.total_extend (UInt64.lt_iff_toNat_lt.mpr hlt)]; omega),
    hlt⟩

/-- From a vault `v` that `u` has grown to for want of a free run. -/
theorem allocateGrowing_yields_from {u v : Vault} {owners : List Extent} {needed : UInt64}
    (hu : u.blocks.Owns owners) (hkeeps : u.Keeps v) (hv : v.blocks.Owns owners)
    (hwant : u.blocks.total.toNat < v.blocks.total.toNat →
      ∃ err, u.blocks.allocate needed = .error err) :
    (allocateGrowing needed v).Yields (u.Allocated owners needed) := by
  induction v using allocateGrowing.induct needed with
  | case1 v e blocks hfit =>
    rw [allocateGrowing_of_fits hfit]
    obtain ⟨howns, hcount, htotal, _⟩ := hv.allocate hfit
    refine ⟨hkeeps.trans (keeps_of_blocks (Nat.le_of_eq (congrArg UInt64.toNat htotal.symm))),
      howns, hcount, fun hlt => ?_⟩
    obtain ⟨err, hnone⟩ := hwant (by rw [htotal] at hlt; exact hlt)
    exact exists_new_block hu hv hnone hfit
  | case2 v err hfit hgrow total hbytes =>
    rw [allocateGrowing_of_overflow hfit hgrow hbytes]
    exact ⟨hkeeps, hv⟩
  | case3 v err hfit hgrow total bytes hbytes ih =>
    rw [allocateGrowing_of_grows hfit hgrow hbytes]
    intro result
    cases result with
    | error e => exact ⟨hkeeps, hv⟩
    | ok a =>
      have hne : needed ≠ 0 := by
        intro hsame
        subst hsame
        cases hfit
      obtain ⟨hgrown, hlt⟩ := grown_keeps hne hgrow
      refine ih (hkeeps.trans hgrown) (hv.extend _) fun _ => ?_
      by_cases hsame : u.blocks.total.toNat < v.blocks.total.toNat
      · exact hwant hsame
      · -- no growth so far, so that the same search has failed in `u`
        have htotal : u.blocks.total = v.blocks.total :=
          UInt64.toNat_inj.mp (Nat.le_antisymm hkeeps.total (Nat.le_of_not_lt hsame))
        cases hu' : u.blocks.allocate needed with
        | error e => exact ⟨e, rfl⟩
        | ok found =>
          obtain ⟨e, after⟩ := found
          obtain ⟨block, hin, hbeyond⟩ := exists_new_block hv hu hfit hu'
          obtain ⟨howns, _, htotal', _⟩ := hu.allocate hu'
          have hlt' := (howns.within _ List.mem_cons_self).lt_of_mem hin
          rw [htotal', htotal] at hlt'
          omega
  | case4 v err hfit hgrow =>
    rw [allocateGrowing_of_full hfit hgrow]
    exact ⟨hkeeps, hv⟩

/-- An allocation takes an owner in, or fails and takes none. -/
theorem allocateGrowing_yields {v : Vault} {owners : List Extent} (h : v.blocks.Owns owners)
    (needed : UInt64) : (allocateGrowing needed v).Yields (v.Allocated owners needed) :=
  allocateGrowing_yields_from h (Keeps.refl v) h fun hlt => absurd hlt (Nat.lt_irrefl _)

/-- **An allocation yields an extent with an owner of its own**, or leaves the
owners as they are. -/
theorem allocate_yields {v : Vault} {others : List Extent} (h : v.Held others) (bytes : Nat) :
    (allocate bytes v).Yields (v.Allocated
      (superblockExtent v.superblock.blockSize :: v.superblock.directory :: others)
      (blocksToHold (UInt64.ofNat bytes) v.superblock.blockSize)) :=
  allocateGrowing_yields h.owns _

/-! ## §5. Giving back. -/

/-- An owner after the first two may stand before them. -/
theorem perm_third (a b e : Extent) (others : List Extent) :
    (a :: b :: e :: others).Perm (e :: a :: b :: others) :=
  show ([a, b] ++ e :: others).Perm (e :: ([a, b] ++ others)) from List.perm_middle

/-- The extent that an allocation has taken is held too. -/
theorem Held.of_taken {v w : Vault} {others : List Extent} {e : Extent} (h : v.Held others)
    (hkeeps : v.Keeps w)
    (howns : w.blocks.Owns (e :: superblockExtent v.superblock.blockSize
      :: v.superblock.directory :: others)) : w.Held (e :: others) :=
  h.of_keeps hkeeps (howns.perm (perm_third _ _ e others).symm)

/-- The blocks of an owner are free after its release. -/
theorem Held.released {v : Vault} {e : Extent} {others : List Extent}
    (h : v.Held (e :: others)) :
    (released e v).Held others ∧ v.Keeps (released e v)
      ∧ (released e v).blocks.total = v.blocks.total := by
  obtain ⟨after, hok, howns, htotal⟩ := (h.owns.perm (perm_third _ _ e others)).release
  have hreleased : Vault.released e v = { v with blocks := after } := by
    rw [Vault.released, hok]
  have hkeeps : v.Keeps { v with blocks := after } :=
    keeps_of_blocks (Nat.le_of_eq (congrArg UInt64.toNat htotal.symm))
  rw [hreleased]
  exact ⟨h.of_keeps hkeeps howns, hkeeps, htotal⟩

/-! ## §6. Writing. -/

/-- Filling an extent changes nothing that is known of the vault. -/
theorem fill_yields (e : Extent) (data : ByteArray) (v : Vault) :
    (fill e data v).Yields fun outcome => outcome.2 = v := by
  unfold fill
  rw [Action.yields_vault]
  by_cases hempty : e.isEmpty
  · rw [if_pos hempty]
    rfl
  · rw [if_neg hempty]
    exact Action.yields_call fun _ => rfl

theorem writeCommit_yields (e : Extent) (bytes : ByteArray) (s : Superblock) (slot : Slot)
    (v : Vault) : (writeCommit e bytes s slot v).Yields fun outcome => outcome.2 = v := by
  unfold writeCommit
  rw [Action.yields_bind]
  refine (fill_yields e bytes v).mono ?_
  intro outcome hsame
  obtain ⟨result, w⟩ := outcome
  subst hsame
  -- fill, sync, record, sync: each may fail, and none knows of the vault
  cases result with
  | error err => rfl
  | ok u =>
    rw [Action.Onward, Action.yields_bind]
    refine Action.yields_call fun result => ?_
    cases result with
    | error err => rfl
    | ok u =>
      rw [Action.Onward, Action.yields_bind]
      refine Action.yields_call fun result => ?_
      cases result with
      | error err => rfl
      | ok u => exact Action.yields_call fun _ => rfl

end Vault

end StateVault
