/-
  StateVault.Proofs.Vault.Committing
  ──────────────────────────────────
  **A COMMIT CHANGES OWNERS IN ONE STEP, OR NOT AT ALL.**

  A commit that goes through gives the blocks of the old directory back and
  has taken those of the new one (`Advanced`); one that fails has given back
  whatever it took.  The extents of streams, old or new, are owners of their
  own that a commit leaves alone.

    • `commit_yields` — what is known of the vault after a commit.
-/
import StateVault.Proofs.Directory.Codec
import StateVault.Proofs.Superblock.Codec
import StateVault.Proofs.Vault.Held

namespace StateVault

/-! ## §1. A superblock in order. -/

/-- The copies of the superblock have a block, and the first 1024 bytes. -/
theorem superblockBlocks_spec {blockSize : UInt32} (h : isBlockSize blockSize = true) :
    1 ≤ (superblockBlocks blockSize).toNat ∧ (superblockBlocks blockSize).toNat ≤ 2
      ∧ 1024 ≤ (superblockBlocks blockSize).toNat * blockSize.toNat := by
  obtain ⟨hlow, hhigh⟩ := isBlockSize_bounds h
  obtain ⟨henough, hleast⟩ := blocksToHold_spec h 1024
  have hbytes : (1024 : UInt64).toNat = 1024 := rfl
  rw [hbytes] at henough hleast
  refine ⟨Nat.pos_of_ne_zero fun hzero => ?_, hleast 2 (by omega), henough⟩
  unfold superblockBlocks at hzero
  rw [hzero] at henough
  omega

/-- The blocks of other owners start after those of the superblock's copies. -/
theorem BlockMap.Owns.after_superblock {m : BlockMap} {blockSize : UInt32} {others : List Extent}
    (h : m.Owns (superblockExtent blockSize :: others)) {e : Extent} (he : e ∈ others)
    (hne : e.count.toNat ≠ 0) : (superblockBlocks blockSize).toNat ≤ e.start.toNat := by
  have hfirst := h.within _ List.mem_cons_self
  have hfits := h.within e (List.mem_cons_of_mem _ he)
  have hapart := (List.pairwise_cons.mp h.apart).1 e he
  apply Nat.le_of_not_lt
  intro hlt
  -- the first block of the extent would be one of the superblock's
  refine hapart e.start.toNat ?_ ?_
  · rw [hfirst.mem_iff]
    show 0 ≤ e.start.toNat ∧ e.start.toNat < 0 + (superblockBlocks blockSize).toNat
    omega
  · rw [hfits.mem_iff]
    omega

/-- The layout is right when the directory has blocks of its own within the
vault, and they hold its bytes. -/
theorem Superblock.checkLayout_of_owns {s : Superblock} {m : BlockMap} {others : List Extent}
    (hsize : isBlockSize s.blockSize = true) (hleast : leastBlocks.toNat ≤ s.totalBlocks.toNat)
    (htotal : m.total = s.totalBlocks)
    (howns : m.Owns (superblockExtent s.blockSize :: s.directory :: others))
    (hne : s.directory.count.toNat ≠ 0)
    (hbytes : s.directorySize.toNat ≤ s.directory.count.toNat * s.blockSize.toNat) :
    s.checkLayout = .ok () := by
  have hfits := howns.within s.directory (List.mem_cons_of_mem _ List.mem_cons_self)
  rw [htotal] at hfits
  -- an owner beside the superblock starts behind it and ends within the map
  have hafter := howns.after_superblock List.mem_cons_self hne
  have hblocks := superblockBlocks_spec hsize
  have hstop := hfits.stop_le hne
  unfold checkLayout
  rw [if_neg (by rw [UInt64.lt_iff_toNat_lt]; omega), if_neg, if_neg]
  · rw [UInt64.not_lt]
    exact le_capacity (by rw [UInt32.toNat_toUInt64]; exact hbytes)
  · rw [Extent.isEmpty_iff, UInt64.lt_iff_toNat_lt, UInt64.lt_iff_toNat_lt]
    omega

/-- The directory ends within the vault. -/
theorem Superblock.directory_stop_of_check {s : Superblock} (h : s.check = .ok ()) :
    s.directory.stop.toNat ≤ s.totalBlocks.toNat := by
  have hlayout := (check_eq_ok h).2.2
  unfold checkLayout at hlayout
  split at hlayout
  · cases hlayout
  · split at hlayout
    · cases hlayout
    · rename_i hplace
      rw [← UInt64.le_iff_toNat_le, ← UInt64.not_lt]
      intro hbeyond
      exact hplace (Or.inr (Or.inr hbeyond))

/-- The directory has blocks, and they hold its bytes. -/
theorem Superblock.directory_of_check {s : Superblock} (h : s.check = .ok ()) :
    s.directory.count.toNat ≠ 0
      ∧ s.directorySize.toNat ≤ s.directory.count.toNat * s.blockSize.toNat := by
  have hlayout := (check_eq_ok h).2.2
  unfold checkLayout at hlayout
  split at hlayout
  · cases hlayout
  · split at hlayout
    · cases hlayout
    · -- the second check says that there are blocks, the third that they are enough
      rename_i hextent
      split at hlayout
      · cases hlayout
      · rename_i hlong
        constructor
        · intro hzero
          exact hextent (Or.inl ((Extent.isEmpty_iff _).mpr hzero))
        · rw [UInt64.lt_iff_toNat_lt, Extent.toNat_capacity, UInt32.toNat_toUInt64] at hlong
          omega

namespace Vault

/-! ## §2. What a commit comes to. -/

/-- The superblock of `w` is the one that a commit of the directory `d` puts
in the place of that of `v`. -/
structure Follows (v : Vault) (d : Directory) (w : Vault) : Prop where
  directory : w.directory = d
  slot : w.slot = v.slot.other
  settings : w.settings = v.settings
  blockSize : w.superblock.blockSize = v.superblock.blockSize
  generation : Word.add? v.generation 1 = some w.generation
  encoded : d.encode w.generation = .ok (d.bytes w.generation)
  length : w.superblock.directorySize.toNat = (d.bytes w.generation).size
  check : w.superblock.check = .ok ()

/-- `w` is `v` after a commit of the directory `d`. -/
structure Advanced (v : Vault) (d : Directory) (w : Vault) : Prop extends Follows v d w where
  total : w.superblock.totalBlocks = w.blocks.total
  grown : v.blocks.total.toNat ≤ w.blocks.total.toNat
  /-- A vault that grew has its directory reach into the new blocks. -/
  reach : v.blocks.total.toNat < w.blocks.total.toNat →
    ∃ block, block ∈ w.superblock.directory ∧ v.blocks.total.toNat ≤ block

/-- Which block maps the two vaults have does not matter. -/
theorem Follows.of_alike {u v w x : Vault} {d : Directory} (h : v.Follows d w)
    (hbefore : u.Alike v) (hafter : w.Alike x) : u.Follows d x := by
  have hgeneration : x.generation = w.generation :=
    congrArg Superblock.generation hafter.superblock
  -- all that is said speaks of fields that are equal on both sides
  constructor
  · exact hafter.directory.trans h.directory
  · rw [hafter.slot, h.slot, hbefore.slot]
  · rw [hafter.settings, h.settings, hbefore.settings]
  · rw [hafter.superblock, h.blockSize, hbefore.superblock]
  · rw [hgeneration, Vault.generation, ← hbefore.superblock]
    exact h.generation
  · rw [hgeneration]
    exact h.encoded
  · rw [hgeneration, hafter.superblock]
    exact h.length
  · rw [hafter.superblock]
    exact h.check

/-- A commit takes the vault one generation on. -/
theorem Follows.toNat_generation {v w : Vault} {d : Directory} (h : v.Follows d w) :
    v.generation.toNat + 1 = w.generation.toNat :=
  Word.add?_eq_some_iff.mp h.generation

/-- What comes of a commit: the vault has advanced, or is as it was. -/
def Committed (v : Vault) (d : Directory) (others : List Extent) :
    Except Error Unit × Vault → Prop
  | (.ok _, w) => v.Advanced d w ∧ w.Held others
  | (.error _, w) => v.Keeps w ∧ w.Held others

section Advance

variable {v w : Vault} {d : Directory} {others : List Extent} {e : Extent}
  {generation : UInt64} {bytes : ByteArray}

/-- The blocks for a directory hold its bytes. -/
theorem Held.enough_of_encode (h : v.Held others) (hbytes : d.encode generation = .ok bytes)
    (hcount : e.count = blocksToHold (UInt64.ofNat bytes.size) v.superblock.blockSize) :
    bytes.size ≤ e.count.toNat * v.superblock.blockSize.toNat ∧ e.count.toNat ≠ 0 := by
  obtain ⟨_, hlow, hhigh⟩ := Directory.size_of_encode hbytes
  have hwords : UInt64.size = 2 ^ 64 := rfl
  have henough : bytes.size ≤ e.count.toNat * v.superblock.blockSize.toNat := by
    rw [hcount]
    exact le_blocksToHold h.blockSize (by omega)
  refine ⟨henough, fun hzero => ?_⟩
  rw [hzero, Nat.zero_mul] at henough
  omega

/-- With the new superblock in the place of the old one, the blocks of the old
directory are still taken. -/
theorem Held.next (h : v.Held others) (hkeeps : v.Keeps w)
    (howns : w.blocks.Owns (e :: superblockExtent v.superblock.blockSize
      :: v.superblock.directory :: others)) (size : Nat) (generation : UInt64) (slot : Slot)
    (d : Directory) :
    ({ w with superblock := w.nextSuperblock e size generation, slot, directory := d }
      : Vault).Held (v.superblock.directory :: others) := by
  have hblockSize : w.superblock.blockSize = v.superblock.blockSize := by
    rw [hkeeps.superblock]
  constructor
  · exact hblockSize ▸ h.blockSize
  · exact (congrArg Superblock.version hkeeps.superblock).trans h.version
  · exact Nat.le_trans h.least hkeeps.total
  · show w.blocks.Owns (superblockExtent w.superblock.blockSize :: e :: _)
    rw [hblockSize]
    exact howns.perm (List.Perm.swap _ _ _)

/-- The new superblock passes its checks. -/
theorem check_nextSuperblock (h : v.Held others) (hkeeps : v.Keeps w)
    (howns : w.blocks.Owns (e :: superblockExtent v.superblock.blockSize
      :: v.superblock.directory :: others)) (hbytes : d.encode generation = .ok bytes)
    (hcount : e.count = blocksToHold (UInt64.ofNat bytes.size) v.superblock.blockSize) :
    (w.nextSuperblock e bytes.size generation).check = .ok () := by
  have hnext := h.next hkeeps howns bytes.size generation w.slot.other d
  obtain ⟨henough, hne⟩ := h.enough_of_encode hbytes hcount
  obtain ⟨_, _, hhigh⟩ := Directory.size_of_encode hbytes
  -- a directory is short enough for its length to be a 32-bit word
  have hlength : (UInt32.ofNat bytes.size).toNat = bytes.size := by
    rw [UInt32.toNat_ofNat']
    omega
  refine Superblock.check_of_layout hnext.version hnext.blockSize
    (Superblock.checkLayout_of_owns (m := w.blocks) hnext.blockSize hnext.least rfl hnext.owns
      hne ?_)
  show (UInt32.ofNat bytes.size).toNat ≤ e.count.toNat * w.superblock.blockSize.toNat
  rw [hlength, hkeeps.superblock]
  exact henough

/-- Putting the new superblock in the place of the old one, after the new
directory has its blocks. -/
theorem advanced_of_allocated (h : v.Held others)
    (hgeneration : Word.add? v.generation 1 = some generation)
    (hbytes : d.encode generation = .ok bytes)
    (halloc : v.Allocated
      (superblockExtent v.superblock.blockSize :: v.superblock.directory :: others)
      (blocksToHold (UInt64.ofNat bytes.size) v.superblock.blockSize) (.ok e, w)) :
    let next := { w with
      superblock := w.nextSuperblock e bytes.size generation
      slot := w.slot.other
      directory := d }
    v.Advanced d (released w.superblock.directory next)
      ∧ (released w.superblock.directory next).Held others
      ∧ next.Keeps (released w.superblock.directory next)
      ∧ (released w.superblock.directory next).blocks.total = w.blocks.total := by
  obtain ⟨hkeeps, howns, hcount, hreach⟩ := halloc
  have hcheck := check_nextSuperblock h hkeeps howns hbytes hcount
  obtain ⟨_, _, hhigh⟩ := Directory.size_of_encode hbytes
  obtain ⟨_, rfl⟩ := (Directory.encode_eq_ok_iff d generation bytes).mp hbytes
  -- the old directory is given back, and the new one is among the owners
  have hold : w.superblock.directory = v.superblock.directory := by rw [hkeeps.superblock]
  intro next
  have hnext : next.Held (v.superblock.directory :: others) := h.next hkeeps howns _ _ _ _
  rw [hold]
  obtain ⟨hheld, hkept, htotal⟩ := hnext.released
  refine ⟨?_, hheld, hkept, htotal⟩
  have hadvance : (released v.superblock.directory next).superblock = next.superblock :=
    hkept.superblock
  have hafter : (released v.superblock.directory next).generation = generation :=
    congrArg Superblock.generation hadvance
  refine ⟨⟨?_, ?_, ?_, ?_, ?_, ?_, ?_, ?_⟩, ?_, ?_, ?_⟩
  · exact hkept.directory
  · rw [hkept.slot]
    exact congrArg Slot.other hkeeps.slot
  · rw [hkept.settings]
    exact hkeeps.settings
  · rw [hadvance]
    show w.superblock.blockSize = v.superblock.blockSize
    rw [hkeeps.superblock]
  · rw [hafter]
    exact hgeneration
  · rw [hafter]
    exact hbytes
  · rw [hafter, hadvance]
    show (UInt32.ofNat (d.bytes generation).size).toNat = _
    rw [UInt32.toNat_ofNat']
    omega
  · rw [hadvance]
    exact hcheck
  · rw [hadvance, htotal]
    rfl
  · rw [htotal]
    exact hkeeps.total
  · rw [hadvance, htotal]
    exact hreach

end Advance

/-- **A commit advances the vault or leaves it as it was**, with the same owners
besides the directory. -/
theorem commit_yields {v : Vault} {others : List Extent} (h : v.Held others) (d : Directory) :
    (commit d v).Yields (v.Committed d others) := by
  have hstay : v.Keeps v ∧ v.Held others := ⟨Keeps.refl v, h⟩
  unfold commit
  rw [Action.yields_vault]
  -- generation, encoding and blocks may each be refused before anything is written
  cases hgeneration : Word.add? v.generation 1 with
  | none => exact hstay
  | some generation =>
    simp only []
    rw [Action.yields_bind]
    cases hbytes : d.encode generation with
    | error e => exact hstay
    | ok bytes =>
      show (((allocate bytes.size >>= _) : Action Unit) v).Yields _
      rw [Action.yields_bind]
      refine (allocate_yields h bytes.size).mono ?_
      intro outcome halloc
      obtain ⟨result, w⟩ := outcome
      cases result with
      | error e =>
        obtain ⟨hkeeps, howns⟩ := halloc
        exact ⟨hkeeps, h.of_keeps hkeeps howns⟩
      | ok e =>
        obtain ⟨hadvanced, hheld, _⟩ := advanced_of_allocated h hgeneration hbytes halloc
        obtain ⟨hkeeps, howns, _⟩ := halloc
        rw [Action.Onward, Action.yields_vault, Action.yields_bind, Action.yields_onError]
        refine (writeCommit_yields _ _ _ _ w).mono ?_
        intro outcome hsame
        obtain ⟨result, w'⟩ := outcome
        subst hsame
        cases result with
        | ok u => exact ⟨hadvanced, hheld⟩
        -- after a failed write the blocks just taken are given back
        | error err =>
          obtain ⟨hheld, hkept, _⟩ := (h.of_taken hkeeps howns).released
          exact ⟨hkeeps.trans hkept, hheld⟩

end Vault

end StateVault
