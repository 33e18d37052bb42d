/-
  StateVault.Proofs.Vault.Frame
  ─────────────────────────────
  **NOTHING IN USE IS WRITTEN OVER.**

  `v.Guards p` says that the byte at position `p` is in a block in use, and
  not in the copy of the superblock that does not count.  Growing and filling
  new blocks keep all guarded bytes; writing a record keeps them too, and
  leaves the other copy of the superblock torn at worst.

    • `allocateGrowing_ensures` — growth keeps what there is (`Stretched`),
    • `fill_ensures`            — filling keeps all but the extent filled,
    • `writeCommit_ensures`     — a record is written whole (`Inscribed`) or
                                  not (`Unwritten`).
-/
import StateVault.Proofs.Storage.Failures
import StateVault.Proofs.Superblock.Copies
import StateVault.Proofs.Vault.Committing

namespace StateVault.Vault

variable {F : Failures} {I : Watched → Prop}

/-! ## §1. Places. -/

/-- The bytes of a block, as a number. -/
def width (v : Vault) : Nat :=
  v.superblock.blockSize.toNat

/-- Every byte of the vault has a 64-bit address. -/
def Addressable (v : Vault) : Prop :=
  v.blocks.total.toNat * v.width < UInt64.size

/-- The bytes that the copies of the superblock and all blocks take are
there. -/
def Room (v : Vault) (image : Image) : Prop :=
  v.blocks.total.toNat * v.width ≤ image.size

/-- The bytes that the superblock describes are there. -/
def Covers (v : Vault) (image : Image) : Prop :=
  v.superblock.totalBlocks.toNat * v.width ≤ image.size

/-- Positions in the copy of the superblock that does not count. -/
def InSpare (v : Vault) (p : Nat) : Prop :=
  v.slot.other.offset ≤ p ∧ p < v.slot.other.offset + 64

/-- Positions in an extent. -/
def InExtent (v : Vault) (e : Extent) (p : Nat) : Prop :=
  e.start.toNat * v.width ≤ p ∧ p < (e.start.toNat + e.count.toNat) * v.width

/-- Positions in blocks in use, outside of the copy that does not count. -/
def Guards (v : Vault) (p : Nat) : Prop :=
  v.blocks.isUsed (p / v.width) = true ∧ ¬ v.InSpare p

section Congr

variable {v w : Vault} {image image' : Image}

-- Of a vault and an image, no more matters for these than the superblock, the
-- number of blocks in the map and the length of the image.

theorem width_congr (h : w.superblock = v.superblock) : w.width = v.width :=
  congrArg (fun s : Superblock => s.blockSize.toNat) h

/-- Whether all blocks have addresses depends on their size and number. -/
theorem Addressable.congr (h : v.Addressable) (hwidth : w.width = v.width)
    (htotal : w.blocks.total = v.blocks.total) : w.Addressable := by
  unfold Addressable at h ⊢
  rw [hwidth, htotal]
  exact h

/-- Whether the image has room for all blocks depends on its length besides. -/
theorem Room.congr (h : v.Room image) (hwidth : w.width = v.width)
    (htotal : w.blocks.total = v.blocks.total) (hsize : image'.size = image.size) :
    w.Room image' := by
  unfold Room at h ⊢
  rw [hwidth, htotal, hsize]
  exact h

/-- Whether the image has all that the superblock tells of depends on the two. -/
theorem Covers.congr (h : v.Covers image) (hsuperblock : w.superblock = v.superblock)
    (hsize : image'.size = image.size) : w.Covers image' := by
  unfold Covers at h ⊢
  rw [width_congr hsuperblock, hsuperblock, hsize]
  exact h

end Congr

theorem slot_offset_le (s : Slot) : s.offset ≤ 512 := by
  cases s with
  | first => exact Nat.zero_le _
  | second => exact Nat.le_refl _

/-- The place of a copy fits the 64 bits of a call's offset. -/
@[simp]
theorem toNat_slot_offset (s : Slot) : (UInt64.ofNat s.offset).toNat = s.offset := by
  cases s with
  | first => rfl
  | second => rfl

/-- The two copies of the superblock are apart. -/
theorem slots_apart (s : Slot) :
    s.offset + 64 ≤ s.other.offset ∨ s.other.offset + 64 ≤ s.offset := by
  cases s with
  | first => exact Or.inl (by decide)
  | second => exact Or.inr (by decide)

section Held

variable {v : Vault} {others : List Extent}

/-- A block has 512 to 65536 bytes. -/
theorem Held.width_bounds (h : v.Held others) : 512 ≤ v.width ∧ v.width ≤ 65536 :=
  isBlockSize_bounds h.blockSize

/-- The positions in an extent are those in its blocks. -/
theorem Held.mem_iff_inExtent (h : v.Held others) {e : Extent} {total : UInt64}
    (hfits : e.Fits total) (p : Nat) : p / v.width ∈ e ↔ v.InExtent e p := by
  have hwidth := h.width_bounds
  rw [hfits.mem_iff, Nat.le_div_iff_mul_le (by omega), Nat.div_lt_iff_lt_mul (by omega)]
  exact Iff.rfl

/-- The positions of the copies of the superblock are in their blocks. -/
theorem Held.isUsed_region (h : v.Held others) {p : Nat} (hp : p < regionSize) :
    v.blocks.isUsed (p / v.width) = true := by
  have hwidth := h.width_bounds
  obtain ⟨_, _, hblocks⟩ := superblockBlocks_spec h.blockSize
  refine h.owns.isUsed_of_mem List.mem_cons_self ?_
  refine (h.mem_iff_inExtent (h.owns.within _ List.mem_cons_self) p).mpr ⟨?_, ?_⟩
  · show 0 * v.width ≤ p
    omega
  · show p < (0 + (superblockBlocks v.superblock.blockSize).toNat) * v.width
    rw [Nat.zero_add]
    exact Nat.lt_of_lt_of_le hp hblocks

/-- The blocks of an owner other than the superblock start after its copies. -/
theorem Held.region_le (h : v.Held others) {e : Extent}
    (he : e ∈ v.superblock.directory :: others) (hne : e.count.toNat ≠ 0) :
    regionSize ≤ e.start.toNat * v.width := by
  obtain ⟨_, _, hblocks⟩ := superblockBlocks_spec h.blockSize
  exact Nat.le_trans hblocks (Nat.mul_le_mul_right _ (h.owns.after_superblock he hne))

/-- Positions in the extent of an owner come after the copies. -/
theorem Held.region_le_of_inExtent (h : v.Held others) {e : Extent}
    (he : e ∈ v.superblock.directory :: others) {p : Nat} (hp : v.InExtent e p) :
    regionSize ≤ p := by
  obtain ⟨hlow, hhigh⟩ := hp
  have hne : e.count.toNat ≠ 0 := by
    intro hzero
    rw [hzero, Nat.add_zero] at hhigh
    omega
  exact Nat.le_trans (h.region_le he hne) hlow

/-- Positions in the extent of an owner are guarded. -/
theorem Held.guards_extent (h : v.Held others) {e : Extent}
    (he : e ∈ v.superblock.directory :: others) {p : Nat} (hp : v.InExtent e p) :
    v.Guards p := by
  have hfits := h.owns.within e (List.mem_cons_of_mem _ he)
  refine ⟨h.owns.isUsed_of_mem (List.mem_cons_of_mem _ he)
    ((h.mem_iff_inExtent hfits p).mpr hp), ?_⟩
  intro hboth
  obtain ⟨_, hspare⟩ := hboth
  have hslot := slot_offset_le v.slot.other
  have hregion := h.region_le_of_inExtent he hp
  have hsize : regionSize = 1024 := rfl
  omega

/-- Positions in the copy that counts are guarded. -/
theorem Held.guards_slot (h : v.Held others) {p : Nat} (hlow : v.slot.offset ≤ p)
    (hhigh : p < v.slot.offset + 64) : v.Guards p := by
  have hslot := slot_offset_le v.slot
  have hapart := slots_apart v.slot
  refine ⟨h.isUsed_region (by
    show p < 1024
    omega), ?_⟩
  intro hboth
  obtain ⟨hl, hh⟩ := hboth
  omega

/-- The last position of the region is guarded. -/
theorem Held.guards_last (h : v.Held others) : v.Guards 1023 := by
  have hslot := slot_offset_le v.slot.other
  refine ⟨h.isUsed_region (by decide), ?_⟩
  intro hboth
  obtain ⟨_, hh⟩ := hboth
  omega

/-- Guarded positions lie within the blocks of the vault. -/
theorem Held.lt_of_guards (h : v.Held others) {p : Nat} (hp : v.Guards p) :
    p < v.blocks.total.toNat * v.width := by
  have hwidth := h.width_bounds
  have hlt := BlockMap.isUsed_lt hp.1
  exact (Nat.div_lt_iff_lt_mul (by omega)).mp hlt

/-- The byte at which an extent starts, as an address. -/
theorem toNat_blockOffset (haddress : v.Addressable) {e : Extent}
    {total : UInt64} (hfits : e.Fits total) (htotal : total.toNat ≤ v.blocks.total.toNat)
    (hne : e.count.toNat ≠ 0) :
    (v.blockOffset e.start).toNat = e.start.toNat * v.width
      ∧ (e.capacity v.superblock.blockSize).toNat = e.count.toNat * v.width
      ∧ (e.start.toNat + e.count.toNat) * v.width ≤ v.blocks.total.toNat * v.width := by
  have hstop : e.start.toNat + e.count.toNat ≤ v.blocks.total.toNat :=
    Nat.le_trans (hfits.resolve_left hne) htotal
  have hbound := Nat.mul_le_mul_right v.width hstop
  unfold Addressable at haddress
  have hsum : (e.start.toNat + e.count.toNat) * v.width
      = e.start.toNat * v.width + e.count.toNat * v.width := Nat.add_mul _ _ _
  have hsize : UInt64.size = 2 ^ 64 := rfl
  -- both products stay below the bytes of the vault, which have an address
  refine ⟨?_, ?_, hbound⟩
  · show (e.start * v.superblock.blockSize.toUInt64).toNat = _
    rw [UInt64.toNat_mul, UInt32.toNat_toUInt64]
    exact Nat.mod_eq_of_lt (by
      show e.start.toNat * v.width < 2 ^ 64
      omega)
  · rw [Extent.toNat_capacity]
    exact Nat.min_eq_left (by
      show e.count.toNat * v.width ≤ _
      omega)

end Held

/-! ## §2. Growing. -/

/-- If the vault grows for so many blocks, its first step is to no fewer
blocks than the committed ones. -/
def SafeGrowth (v : Vault) (needed : UInt64) : Prop :=
  ∀ e, v.blocks.allocate needed = .error e → v.mayGrow = true →
    v.superblock.totalBlocks.toNat ≤ (v.grownTotal needed).toNat

/-- What an allocation does to an image, on the way from `v` to `w`. -/
structure Stretched (v : Vault) (needed : UInt64) (image : Image) (w : Vault) (image' : Image) :
    Prop where
  kept : Bytes.Keeps (· < v.blocks.total.toNat * v.width) image image'
  room : v.Room image → w.Room image'
  addressable : v.Addressable → w.Addressable
  covers : v.SafeGrowth needed → v.Covers image → v.Covers image'
  fixed : v.settings.autoGrow = false → w.blocks.total = v.blocks.total ∧ image' = image

/-- An allocation that found its blocks at once has not touched the image. -/
theorem stretched_refl {v w : Vault} {needed : UInt64} {image : Image}
    (hsuperblock : w.superblock = v.superblock) (htotal : w.blocks.total = v.blocks.total) :
    v.Stretched needed image w image where
  kept := Bytes.Keeps.refl _ _
  room h := h.congr (width_congr hsuperblock) htotal rfl
  addressable h := h.congr (width_congr hsuperblock) htotal
  covers _ h := h
  fixed _ := ⟨htotal, rfl⟩

theorem total_of_allocate {m blocks : BlockMap} {needed : UInt64} {e : Extent}
    (h : m.allocate needed = .ok (e, blocks)) : blocks.total = m.total := by
  unfold BlockMap.allocate at h
  split at h
  · cases h
    rfl
  · split at h
    · cases h
    · split at h
      · cases h
      · cases h
        rfl

/-- The length of the image after a step of growth. -/
theorem toNat_grown {v : Vault} {needed bytes : UInt64} (hne : needed ≠ 0)
    (hgrow : v.mayGrow = true)
    (hbytes : Word.mul? (v.grownTotal needed) v.blockSize.toUInt64 = some bytes) :
    bytes.toNat = (v.grown needed).blocks.total.toNat * v.width
      ∧ (v.grown needed).blocks.total.toNat * v.width < UInt64.size := by
  have hmul := Word.toNat_of_mul? hbytes
  rw [UInt32.toNat_toUInt64] at hmul
  rw [show (v.grown needed).blocks.total = v.grownTotal needed from
    BlockMap.total_extend (lt_grownTotal hne hgrow)]
  exact hmul

/-- After growth the image is as long as the map. -/
theorem room_grown {v : Vault} {needed bytes : UInt64} (image : Image) (hne : needed ≠ 0)
    (hgrow : v.mayGrow = true)
    (hbytes : Word.mul? (v.grownTotal needed) v.blockSize.toUInt64 = some bytes) :
    (v.grown needed).Room (Bytes.resized image bytes.toNat) := by
  obtain ⟨hvalue, _⟩ := toNat_grown hne hgrow hbytes
  unfold Room
  rw [Bytes.size_resized, hvalue]
  exact Nat.le_refl _

theorem ne_zero_of_allocate {m : BlockMap} {needed : UInt64} {e : Error}
    (h : m.allocate needed = .error e) : needed ≠ 0 := by
  intro hsame
  subst hsame
  cases h

/-- One step of growth, and what comes after it. -/
theorem stretched_grown {v w : Vault} {needed : UInt64} {bytes : UInt64} {e : Error}
    {image image' : Image} (hfit : v.blocks.allocate needed = .error e)
    (hgrow : v.mayGrow = true)
    (hbytes : Word.mul? (v.grownTotal needed) v.blockSize.toUInt64 = some bytes)
    (h : (v.grown needed).Stretched needed (Bytes.resized image bytes.toNat) w image') :
    v.Stretched needed image w image' := by
  have hne := ne_zero_of_allocate hfit
  obtain ⟨_, hlt⟩ := grown_keeps hne hgrow
  have htotal : (v.grown needed).blocks.total = v.grownTotal needed :=
    BlockMap.total_extend (lt_grownTotal hne hgrow)
  obtain ⟨hvalue, hfits⟩ := toNat_grown hne hgrow hbytes
  have hwidth : (v.grown needed).width = v.width := rfl
  -- the image is not made shorter, so what lay in it still does
  have hless : v.blocks.total.toNat * v.width ≤ bytes.toNat := by
    rw [hvalue]
    exact Nat.mul_le_mul_right _ (Nat.le_of_lt hlt)
  constructor
  · refine Bytes.Keeps.trans ((Bytes.keeps_resized image bytes.toNat).mono fun p hp => ?_)
      (h.kept.mono fun p hp => ?_)
    · exact Nat.lt_of_lt_of_le hp hless
    · rw [hwidth, ← hvalue]
      exact Nat.lt_of_lt_of_le hp hless
  · exact fun _ => h.room (room_grown image hne hgrow hbytes)
  · exact fun _ => h.addressable hfits
  · intro hsafe _
    -- only the first step of growth can come to less than what is committed
    have hfirst := hsafe e hfit hgrow
    have hcovers : (v.grown needed).Covers (Bytes.resized image bytes.toNat) := by
      show v.superblock.totalBlocks.toNat * v.width ≤ _
      rw [Bytes.size_resized, hvalue, htotal]
      exact Nat.mul_le_mul_right _ hfirst
    refine h.covers (fun e' hfit' hgrow' => ?_) hcovers
    have hmore := lt_grownTotal hne hgrow'
    rw [UInt64.lt_iff_toNat_lt, htotal] at hmore
    show v.superblock.totalBlocks.toNat ≤ _
    omega
  · intro hfixed
    rw [mayGrow, hfixed] at hgrow
    cases hgrow

/-- **An allocation stretches the image**, and writes no record. -/
theorem allocateGrowing_ensures {v : Vault} {needed : UInt64} {t : Watched} (hnow : I t)
    (hI : ∀ w image, v.Keeps w → v.Stretched needed t.image w image → I { t with image }) :
    (allocateGrowing needed v).Ensures F I t fun outcome t' =>
      t'.records = t.records ∧ v.Stretched needed t.image outcome.2 t'.image := by
  induction v using allocateGrowing.induct needed generalizing t with
  | case1 v e blocks hfit =>
    rw [allocateGrowing_of_fits hfit]
    exact ⟨rfl, stretched_refl rfl (total_of_allocate hfit)⟩
  | case2 v e hfit hgrow total =>
    rename_i hbytes
    rw [allocateGrowing_of_overflow hfit hgrow hbytes]
    exact ⟨rfl, stretched_refl rfl rfl⟩
  -- one step of growth, and then what the larger vault comes to
  | case3 v e hfit hgrow total bytes =>
    rename_i hbytes ih
    obtain ⟨hkeeps, _⟩ := grown_keeps (ne_zero_of_allocate hfit) hgrow
    rw [allocateGrowing_of_grows hfit hgrow hbytes]
    intro result image hset
    cases hset with
    | failed _ err => exact ⟨hnow, rfl, stretched_refl rfl rfl⟩
    | whole =>
      have hstep : ∀ w image', (v.grown needed).Stretched needed
          (Bytes.resized t.image bytes.toNat) w image' → v.Stretched needed t.image w image' :=
        fun w image' => stretched_grown hfit hgrow hbytes
      have hafter : I { t with image := Bytes.resized t.image bytes.toNat } :=
        hI _ _ hkeeps (hstep _ _ (stretched_refl rfl rfl))
      refine ⟨hafter, (ih hafter fun w image' hw hs => ?_).mono fun outcome t' ht' => ?_⟩
      · exact hI w image' (hkeeps.trans hw) (hstep _ _ hs)
      · exact ⟨ht'.1, hstep _ _ ht'.2⟩
  | case4 v e hfit hgrow =>
    rw [allocateGrowing_of_full hfit hgrow]
    exact ⟨rfl, stretched_refl rfl rfl⟩

/-- Where an allocation found its blocks: in a vault that has grown to the
length of its image, or in the vault as it was. -/
def Placed (v : Vault) (needed : UInt64) (image : Image) :
    Except Error Extent × Vault → Image → Prop
  | (.ok e, w), image' => w.Room image' ∨ (image' = image ∧
      ∃ blocks, v.blocks.allocate needed = .ok (e, blocks) ∧ w = { v with blocks })
  | (.error _, _), _ => True

/-- An allocation finds its blocks in a vault as long as its image, or in the
vault as it was. -/
theorem allocateGrowing_placed (v : Vault) (needed : UInt64) (t : Watched) :
    (allocateGrowing needed v).Ensures F (fun _ => True) t fun outcome t' =>
      v.Placed needed t.image outcome t'.image := by
  induction v using allocateGrowing.induct needed generalizing t with
  | case1 v e blocks hfit =>
    rw [allocateGrowing_of_fits hfit]
    exact Or.inr ⟨rfl, blocks, hfit, rfl⟩
  | case2 v e hfit hgrow total =>
    rename_i hbytes
    rw [allocateGrowing_of_overflow hfit hgrow hbytes]
    exact trivial
  | case3 v e hfit hgrow total bytes =>
    rename_i hbytes ih
    rw [allocateGrowing_of_grows hfit hgrow hbytes]
    intro result image hset
    refine ⟨trivial, ?_⟩
    cases hset with
    | failed _ err => exact trivial
    | whole =>
      -- having grown, the vault has room wherever its blocks are found
      have hroom := room_grown t.image (ne_zero_of_allocate hfit) hgrow hbytes
      refine (ih _).mono ?_
      intro outcome t' hplaced
      obtain ⟨result, w⟩ := outcome
      cases result with
      | error err => exact trivial
      | ok extent =>
        refine Or.inl (hplaced.elim id ?_)
        intro hboth
        obtain ⟨hsame, blocks, hallocated, rfl⟩ := hboth
        exact hroom.congr rfl (total_of_allocate hallocated) (congrArg ByteArray.size hsame)
  | case4 v e hfit hgrow =>
    rw [allocateGrowing_of_full hfit hgrow]
    exact trivial

/-! ## §3. Filling. -/

theorem size_padded (data : ByteArray) {size : Nat} (h : data.size ≤ size) :
    (padded data size).size = size := by
  rw [padded, ByteArray.size_append, Bytes.size_zeros]
  omega

theorem slice_padded (data : ByteArray) (size : Nat) :
    Bytes.slice (padded data size) 0 data.size = data := by
  rw [Bytes.slice_eq_iff]
  intro i hi
  rw [padded, Bytes.getElem?_append, Nat.zero_add, if_pos hi]

/-- The image has the bytes in the extent, and zero bytes after them to its end. -/
def Holds (v : Vault) (image : Image) (e : Extent) (data : ByteArray) : Prop :=
  Bytes.slice image (e.start.toNat * v.width) (e.count.toNat * v.width)
    = padded data (e.count.toNat * v.width)

/-- The bytes themselves, without those after them. -/
theorem Holds.bytes {v : Vault} {image : Image} {e : Extent} {data : ByteArray}
    (h : v.Holds image e data) (hdata : data.size ≤ e.count.toNat * v.width) :
    Bytes.slice image (e.start.toNat * v.width) data.size = data := by
  have hpart : 0 + data.size ≤ e.count.toNat * v.width := by rwa [Nat.zero_add]
  have hfirst := @Bytes.slice_slice image (e.start.toNat * v.width) _ _ _ hpart
  rw [show Bytes.slice image _ _ = padded data _ from h, slice_padded, Nat.add_zero] at hfirst
  exact hfirst.symm

/-- An extent without blocks has no bytes. -/
theorem holds_nothing {v : Vault} {image : Image} {e : Extent} (h : e.count.toNat = 0) :
    v.Holds image e ByteArray.empty := by
  rw [Holds, h, Nat.zero_mul, Bytes.slice_zero]
  rfl

/-- What filling an extent does to an image. -/
structure Filled (v : Vault) (e : Extent) (image image' : Image) : Prop where
  kept : Bytes.Keeps (fun p => ¬ v.InExtent e p) image image'
  size : image'.size = image.size

/-- A write within an extent, of as many bytes as it holds or fewer. -/
theorem filled_overlay {v : Vault} {e : Extent} {offset : Nat} {data : ByteArray} {image : Image}
    (hoffset : offset = e.start.toNat * v.width)
    (hdata : data.size ≤ e.count.toNat * v.width)
    (hin : offset + data.size ≤ image.size) :
    v.Filled e image (Bytes.overlay image offset data) where
  kept := by
    refine (Bytes.keeps_overlay hin).mono ?_
    intro p hp hboth
    obtain ⟨hlow, hhigh⟩ := hboth
    refine hp ⟨by omega, ?_⟩
    rw [Nat.add_mul]
    omega
  size := Bytes.size_overlay image offset data hin

/-- No write behind the copies of the superblock is a record. -/
theorem isRecord_of_region {offset : Nat} {result : Except Error Unit}
    (h : regionSize ≤ offset) : isRecord offset result = false := by
  have hfirst : (offset == Slot.first.offset) = false := by
    rw [beq_eq_false_iff_ne]
    have hzero : Slot.first.offset = 0 := rfl
    have hregion : regionSize = 1024 := rfl
    omega
  have hsecond : (offset == Slot.second.offset) = false := by
    rw [beq_eq_false_iff_ne]
    have hplace : Slot.second.offset = 512 := rfl
    have hregion : regionSize = 1024 := rfl
    omega
  rw [isRecord, hfirst, hsecond]
  rfl

/-- A write behind the copies of the superblock is not counted. -/
theorem written_of_region (t : Watched) {offset : Nat} (h : regionSize ≤ offset)
    (result : Except Error Unit) (image : Image) :
    t.written offset result image = { t with image } := by
  rw [Watched.written, isRecord_of_region h, if_neg Bool.false_ne_true]

/-- Filling touches nothing outside of the extent, and puts the bytes there
when it goes through. -/
theorem fill_ensures {v : Vault} {others : List Extent} {e : Extent} {data : ByteArray}
    {t : Watched} (h : v.Held others) (he : e ∈ others) (haddress : v.Addressable)
    (hdata : data.size ≤ e.count.toNat * v.width)
    (hI : ∀ image, v.Filled e t.image image → I { t with image }) :
    (fill e data v).Ensures F I t fun outcome t' =>
      t'.records = t.records ∧ v.Filled e t.image t'.image
        ∧ (outcome.1 = .ok () → e.count.toNat ≠ 0 → v.Holds t'.image e data
              ∧ (e.start.toNat + e.count.toNat) * v.width ≤ t'.image.size) := by
  have hsame : v.Filled e t.image t.image := ⟨Bytes.Keeps.refl _ _, rfl⟩
  unfold fill
  rw [Action.ensures_vault]
  by_cases hempty : e.isEmpty = true
  · rw [if_pos hempty]
    exact ⟨rfl, hsame, fun _ hne => absurd ((Extent.isEmpty_iff e).mp hempty) hne⟩
  · rw [if_neg hempty]
    rw [Extent.isEmpty_iff] at hempty
    have hmem := List.mem_cons_of_mem v.superblock.directory he
    have hfits := h.owns.within e (List.mem_cons_of_mem _ hmem)
    obtain ⟨hoffset, hcapacity, _⟩ :=
      toNat_blockOffset haddress hfits (Nat.le_refl _) hempty
    have hregion := h.region_le hmem hempty
    have hsize : (padded data (e.capacity v.blockSize).toNat).size
        = e.count.toNat * v.width := by
      rw [show (e.capacity v.blockSize).toNat = _ from hcapacity, size_padded data hdata]
    have hsum := Nat.add_mul e.start.toNat e.count.toNat v.width
    intro result image hwrites
    rw [written_of_region t (by rw [hoffset]; exact hregion)]
    cases hwrites with
    | whole hin =>
      have hfilled := filled_overlay hoffset (Nat.le_of_eq hsize) hin
      refine ⟨hI _ hfilled, rfl, hfilled, fun _ _ => ⟨?_, ?_⟩⟩
      · rw [hoffset] at hin ⊢
        -- all of the blocks are written: the bytes, and zeros up to the end
        have hself := Bytes.slice_overlay_self hin
        rw [hsize, show (e.capacity v.blockSize).toNat = _ from hcapacity] at hself
        rw [Holds, show (e.capacity v.blockSize).toNat = _ from hcapacity]
        exact hself
      · rw [hfilled.size, hsum]
        omega
    | refused _ err => exact ⟨hI _ hsame, rfl, hsame, fun hok => nomatch hok⟩
    | torn landed _ hin err =>
      -- what lands lies in the blocks as well
      have hpart : ((padded data (e.capacity v.blockSize).toNat).extract 0 landed).size
          ≤ e.count.toNat * v.width := by
        rw [ByteArray.size_extract, hsize]
        omega
      have hfilled := filled_overlay hoffset hpart hin
      exact ⟨hI _ hfilled, rfl, hfilled, fun hok => nomatch hok⟩

end StateVault.Vault
