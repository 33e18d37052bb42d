/-
  StateVault.Proofs.Vault.Attested
  ────────────────────────────────
  **WHAT AN IMAGE SAYS OF A VAULT, AND A SURVEY HEARS.**

  `Attested v image` says that the superblock of `v` is the one that counts
  in the image, in its place, and that the directory which it points at is
  read as that of `v`.  It asks for less than `Recorded`: any bytes will do
  that are read so.  A survey of an image that attests a sound vault, and is
  long enough, finds superblock, place and directory of that vault, and its
  blocks.

    • `Recorded.attested`  — what is recorded is attested,
    • `Attested.of_keeps`  — and stays so while what is in use is kept,
    • `survey_ensures`     — a survey answers what there is to be found,
    • `survey_of_attested` — it finds what is attested,
    • `attested_of_survey` — and what a survey finds, the image attests.
-/
import StateVault.Proofs.Vault.Recorded

namespace StateVault.Vault

variable {F : Failures} {I : Watched → Prop}

/-! ## §1. Attested vaults. -/

/-- Read as it is, the image has the superblock of the vault in its place,
and its directory. -/
structure Attested (v : Vault) (image : Image) : Prop where
  region : regionSize ≤ image.size
  current : Superblock.current (Bytes.slice image 0 regionSize) = .ok (v.slot, v.superblock)
  directory : Directory.decode
      (Bytes.slice image (v.superblock.blockOffset v.superblock.directory.start).toNat
        v.superblock.directorySize.toNat) v.superblock.blockSize
    = .ok (v.directory, v.generation)

/-- What is attested depends neither on the block map nor on the settings. -/
theorem Attested.congr {v w : Vault} {image : Image} (h : v.Attested image)
    (hsuperblock : w.superblock = v.superblock) (hslot : w.slot = v.slot)
    (hdirectory : w.directory = v.directory) : w.Attested image := by
  obtain ⟨hregion, hcurrent, hbytes⟩ := h
  constructor
  · exact hregion
  · rw [hslot, hsuperblock]
    exact hcurrent
  · rw [generation, hsuperblock, hdirectory]
    exact hbytes

/-- The copies of the superblock stand in the image as they do in its region. -/
theorem slice_region (image : Image) (slot : Slot) :
    Bytes.slice (Bytes.slice image 0 regionSize) slot.offset 64
      = Bytes.slice image slot.offset 64 := by
  have hslot := slot_offset_le slot
  have hsize : regionSize = 1024 := rfl
  rw [Bytes.slice_slice _ (by omega), Nat.zero_add]

theorem size_region {image : Image} (h : regionSize ≤ image.size) :
    regionSize ≤ (Bytes.slice image 0 regionSize).size := by
  rw [Bytes.size_slice]
  omega

theorem current_of_recorded {v : Vault} {image : Image} (hs : v.Sound) (h : v.Recorded image) :
    Superblock.current (Bytes.slice image 0 regionSize) = .ok (v.slot, v.superblock) := by
  refine Superblock.current_eq (size_region h.region) hs.check ?_ ?_
  · rw [slice_region]
    exact h.active
  · rw [slice_region]
    exact h.stale

/-- The blocks of the directory, in bytes of the image. -/
theorem directory_place {v : Vault} (hs : v.Sound) (haddress : v.Addressable) :
    (v.superblock.blockOffset v.superblock.directory.start).toNat
        = v.superblock.directory.start.toNat * v.width
      ∧ v.superblock.directory.start.toNat * v.width + v.superblock.directorySize.toNat
        ≤ (v.superblock.directory.start.toNat + v.superblock.directory.count.toNat) * v.width
      ∧ (v.superblock.directory.start.toNat + v.superblock.directory.count.toNat) * v.width
        ≤ v.superblock.totalBlocks.toNat * v.width := by
  obtain ⟨hnonempty, hlength⟩ := Superblock.directory_of_check hs.check
  have hfits := hs.below _ (List.mem_cons_of_mem _ List.mem_cons_self)
  obtain ⟨hoffset, _, _⟩ := toNat_blockOffset haddress hfits hs.committed hnonempty
  refine ⟨hoffset, ?_, Nat.mul_le_mul_right _ (hfits.resolve_left hnonempty)⟩
  rw [Nat.add_mul]
  exact Nat.add_le_add_left hlength _

/-- What is recorded is attested. -/
theorem Recorded.attested {v : Vault} {image : Image} (h : v.Recorded image) (hs : v.Sound)
    (haddress : v.Addressable) : v.Attested image where
  region := h.region
  current := current_of_recorded hs h
  directory := by
    rw [(directory_place hs haddress).1, h.length, h.directory]
    exact Directory.decode_bytes hs.valid _

/-! ## §2. What the image may lose. -/

/-- The copy that counts, and the choice of it beside the other one. -/
theorem Attested.chosen {v : Vault} {image : Image} (h : v.Attested image) :
    Superblock.decode (Bytes.slice image v.slot.offset 64) = .ok v.superblock
      ∧ Superblock.chooseAt v.slot (.ok v.superblock) (Superblock.decode (v.spare image))
        = .ok (v.slot, v.superblock) := by
  have hcurrent := h.current
  obtain ⟨hsize, hcopy⟩ := Superblock.copyIn_of_current hcurrent
  rw [Superblock.current_eq_chooseAt hsize v.slot, hcopy, Superblock.copyIn, slice_region]
    at hcurrent
  rw [Superblock.copyIn, slice_region] at hcopy
  exact ⟨hcopy, hcurrent⟩

/-- A superblock counts when it is read at its place, and chosen there. -/
theorem current_of_chosen {image : Image} {slot : Slot} {s : Superblock}
    (hregion : regionSize ≤ image.size)
    (hactive : Superblock.decode (Bytes.slice image slot.offset 64) = .ok s)
    (hchosen : Superblock.chooseAt slot (.ok s)
      (Superblock.decode (Bytes.slice image slot.other.offset 64)) = .ok (slot, s)) :
    Superblock.current (Bytes.slice image 0 regionSize) = .ok (slot, s) := by
  rw [Superblock.current_eq_chooseAt (size_region hregion) slot, Superblock.copyIn,
    Superblock.copyIn, slice_region, slice_region, hactive]
  exact hchosen

/-- The blocks of the directory are there. -/
def HasDirectory (v : Vault) (image : Image) : Prop :=
  (v.superblock.directory.start.toNat + v.superblock.directory.count.toNat) * v.width ≤ image.size

theorem Covers.hasDirectory {v : Vault} {image : Image} (h : v.Covers image) (hs : v.Sound)
    (haddress : v.Addressable) : v.HasDirectory image :=
  Nat.le_trans (directory_place hs haddress).2.2 h

/-- An image that keeps what is in use says the same, however short it becomes,
as long as nothing in the place of the copy that does not count is chosen
before the one that does. -/
theorem Attested.of_hasDirectory {v : Vault} {image image' : Image} (h : v.Attested image)
    (hs : v.Sound) (haddress : v.Addressable) (hdirectory : v.HasDirectory image)
    (hkept : Bytes.Keeps v.Guards image image')
    (hchosen : Superblock.chooseAt v.slot (.ok v.superblock) (Superblock.decode (v.spare image'))
      = .ok (v.slot, v.superblock)) : v.Attested image' := by
  have hregion := h.region
  have hsize : regionSize = 1024 := rfl
  have hslot := slot_offset_le v.slot
  have hregion' := region_of_keeps hs.held hregion hkept
  obtain ⟨hoffset, hlength, _⟩ := directory_place hs haddress
  -- superblock and directory are guarded, so they are as they were
  have hcopy : Bytes.slice image' v.slot.offset 64 = Bytes.slice image v.slot.offset 64 :=
    hkept.slice (by omega) fun p hlow hhigh => hs.held.guards_slot hlow hhigh
  refine ⟨hregion', current_of_chosen hregion' (by rw [hcopy]; exact h.chosen.1) hchosen, ?_⟩
  rw [hoffset, hkept.slice (Nat.le_trans hlength hdirectory), ← hoffset]
  · exact h.directory
  · intro p hlow hhigh
    exact hs.held.guards_extent List.mem_cons_self ⟨hlow, Nat.lt_of_lt_of_le hhigh hlength⟩

/-- An image that covers the vault has its directory. -/
theorem Attested.of_keeps {v : Vault} {image image' : Image} (h : v.Attested image)
    (hs : v.Sound) (haddress : v.Addressable) (hcovers : v.Covers image)
    (hkept : Bytes.Keeps v.Guards image image')
    (hchosen : Superblock.chooseAt v.slot (.ok v.superblock) (Superblock.decode (v.spare image'))
      = .ok (v.slot, v.superblock)) : v.Attested image' :=
  h.of_hasDirectory hs haddress (hcovers.hasDirectory hs haddress) hkept hchosen

/-! ## §3. Surveys. -/

/-- What a survey finds in an image if no read fails. -/
def found (image : Image) : Except Error Survey := do
  checkSize image.size
  let (slot, s) ← currentIn image.size (Bytes.slice image 0 regionSize)
  assemble slot s (Bytes.slice image (s.blockOffset s.directory.start).toNat
    s.directorySize.toNat)

/-- The superblock of an image that counts, if the image is long enough for
it. -/
def CurrentOf (image : Image) (slot : Slot) (s : Superblock) : Prop :=
  regionSize ≤ image.size
    ∧ currentIn image.size (Bytes.slice image 0 regionSize) = .ok (slot, s)

theorem found_of_short {image : Image} (h : image.size < regionSize) :
    found image = .error (.corrupt (.imageTooSmall image.size)) := by
  unfold found
  rw [checkSize, if_pos h]
  rfl

theorem found_of_none {image : Image} {e : Error} (h : regionSize ≤ image.size)
    (hcurrent : currentIn image.size (Bytes.slice image 0 regionSize) = .error e) :
    found image = .error e := by
  unfold found
  rw [checkSize, if_neg (Nat.not_lt.mpr h), hcurrent]
  rfl

/-- Where a copy counts, all is up to the directory. -/
theorem found_of_current {image : Image} {slot : Slot} {s : Superblock}
    (h : CurrentOf image slot s) :
    found image = assemble slot s (Bytes.slice image (s.blockOffset s.directory.start).toNat
      s.directorySize.toNat) := by
  unfold found
  rw [checkSize, if_neg (Nat.not_lt.mpr h.1), h.2]
  simp only [bind, Except.bind]

/-- A survey that finds something has found the copy that counts, and a
directory. -/
theorem current_of_found {image : Image} {x : Survey} (h : found image = .ok x) :
    ∃ slot s, CurrentOf image slot s
      ∧ assemble slot s (Bytes.slice image (s.blockOffset s.directory.start).toNat
          s.directorySize.toNat) = .ok x := by
  by_cases hregion : regionSize ≤ image.size
  · cases hcurrent : currentIn image.size (Bytes.slice image 0 regionSize) with
    | error e =>
      rw [found_of_none hregion hcurrent] at h
      cases h
    | ok place =>
      obtain ⟨slot, s⟩ := place
      rw [found_of_current ⟨hregion, hcurrent⟩] at h
      exact ⟨slot, s, ⟨hregion, hcurrent⟩, h⟩
  · rw [found_of_short (Nat.lt_of_not_le hregion)] at h
    cases h

/-- A survey reads only, and what it answers is what there is to be found,
unless a read fails.  The read of the directory may also leave the image. -/
theorem survey_ensures {t : Watched} (hI : I t) :
    survey.Ensures F I t fun result t' => t' = t ∧
      (result = found t.image ∨ ∃ e, result = .error e ∧ (F.read ∨ ∃ slot s,
        CurrentOf t.image slot s ∧ t.image.size
          < (s.blockOffset s.directory.start).toNat + s.directorySize.toNat)) := by
  show Script.Ensures F I (Script.andThen (.done (checkSize t.image.size)) _) t _
  rw [Script.ensures_andThen, checkSize]
  -- the two reads of a survey: the copies of the superblock, then the directory
  by_cases hsmall : t.image.size < regionSize
  · rw [if_pos hsmall]
    exact ⟨rfl, Or.inl (found_of_short hsmall).symm⟩
  · rw [if_neg hsmall]
    have hregion := Nat.le_of_not_lt hsmall
    show Script.Ensures F I (Script.andThen _ _) t _
    rw [Script.ensures_andThen]
    refine ⟨hI, fun result hreads => ?_⟩
    cases hreads with
    -- the region fits, so only the medium can have failed this read
    | failed hfailed e =>
      refine ⟨rfl, Or.inr ⟨e, rfl, Or.inl (hfailed.resolve_right ?_)⟩⟩
      omega
    | whole _ =>
      show Script.Ensures F I (Script.andThen (.done (currentIn t.image.size _)) _) t _
      rw [Script.ensures_andThen]
      cases hcurrent : currentIn t.image.size (Bytes.slice t.image 0 regionSize) with
      | error e => exact ⟨rfl, Or.inl (found_of_none hregion hcurrent).symm⟩
      | ok place =>
        obtain ⟨slot, s⟩ := place
        show Script.Ensures F I (Script.andThen _ _) t _
        rw [Script.ensures_andThen]
        refine ⟨hI, fun result hreads => ?_⟩
        cases hreads with
        | failed hfailed e =>
          exact ⟨rfl, Or.inr ⟨e, rfl, hfailed.imp id fun hshort =>
            ⟨slot, s, ⟨hregion, hcurrent⟩, hshort⟩⟩⟩
        | whole _ => exact ⟨rfl, Or.inl (found_of_current ⟨hregion, hcurrent⟩).symm⟩

/-- What a survey finds is the vault `v`, its block map rebuilt. -/
structure Resurveyed (v : Vault) (x : Survey) : Prop extends Surveyed x where
  sameSuperblock : x.superblock = v.superblock
  sameSlot : x.slot = v.slot
  sameDirectory : x.directory = v.directory

/-- The copy that counts in an attested image is the superblock of the vault. -/
theorem current_of_attested {v : Vault} {image : Image} (h : v.Attested image)
    (hcovers : v.Covers image) : CurrentOf image v.slot v.superblock := by
  have hlong : ¬ image.size < v.superblock.imageBytes.toNat := by
    rw [Superblock.toNat_imageBytes]
    unfold Covers width at hcovers
    omega
  refine ⟨h.region, ?_⟩
  unfold currentIn
  rw [h.current]
  simp only [bind, Except.bind, if_neg hlong]
  rfl

/-- The owners of a sound vault can all have their blocks in a map of the
committed size. -/
theorem assemble_of_decode_sound {v : Vault} (hs : v.Sound) {bytes : ByteArray}
    (hbytes : Directory.decode bytes v.superblock.blockSize = .ok (v.directory, v.generation)) :
    ∃ x, assemble v.slot v.superblock bytes = .ok x ∧ v.Resurveyed x := by
  have hwithin := hs.below
  unfold owners at hwithin
  have hapart := hs.held.owns.apart
  rw [← extents_claims] at hwithin hapart
  obtain ⟨blocks, hclaims⟩ := BlockMap.ofClaims_ok v.superblock.blockSize hwithin hapart
  have hsame : ¬ v.generation ≠ v.superblock.generation := not_not_intro rfl
  have hassemble : assemble v.slot v.superblock bytes
      = .ok ⟨v.superblock, v.slot, v.directory, blocks⟩ := by
    rw [assemble_of_decode hbytes, if_neg hsame, hclaims]
    rfl
  exact ⟨_, hassemble, (surveyed_of_assemble hs.check hassemble).1, rfl, rfl, rfl⟩

/-- A survey finds the vault that is attested, or a read failed. -/
theorem survey_of_attested {v : Vault} {t : Watched} (hs : v.Sound) (h : v.Attested t.image)
    (hcovers : v.Covers t.image) (haddress : v.Addressable) (hI : I t) :
    survey.Ensures F I t fun result t' => t' = t ∧
      match result with
      | .ok x => v.Resurveyed x
      | .error _ => F.read := by
  have hcurrent := current_of_attested h hcovers
  obtain ⟨hoffset, hlength, hstop⟩ := directory_place hs haddress
  have hplace := Nat.le_trans hlength (Nat.le_trans hstop hcovers)
  rw [← hoffset] at hplace
  obtain ⟨x, hassemble, hresurveyed⟩ := assemble_of_decode_sound hs h.directory
  refine (survey_ensures hI).mono ?_
  intro result t' hend
  obtain ⟨rfl, hfound | ⟨e, rfl, hfailed⟩⟩ := hend
  · rw [hfound, found_of_current hcurrent, hassemble]
    exact ⟨rfl, hresurveyed⟩
  · -- the superblock that counts is the one in hand, whose directory is in the image
    refine ⟨rfl, hfailed.resolve_right ?_⟩
    rintro ⟨slot, s, hother, hshort⟩
    have hsame := hother.2.symm.trans hcurrent.2
    cases hsame
    omega

/-- What a survey finds is what the image attests, and takes no more bytes
than there are. -/
theorem attested_of_survey {t : Watched} (hI : I t) :
    survey.Ensures F I t fun result t' => t' = t ∧ ∀ x, result = .ok x →
      x.superblock.imageBytes.toNat ≤ t.image.size
        ∧ ∀ settings, (Vault.mk x.superblock x.slot x.directory x.blocks settings).Attested
            t.image := by
  refine (survey_ensures hI).mono ?_
  intro result t' hend
  obtain ⟨rfl, hfound | ⟨e, rfl, _⟩⟩ := hend
  · refine ⟨rfl, fun x hx => ?_⟩
    rw [hfound] at hx
    obtain ⟨slot, s, ⟨hregion, hcurrent⟩, hassemble⟩ := current_of_found hx
    obtain ⟨hchosen, hbytes⟩ := current_of_currentIn hcurrent
    obtain ⟨_, rfl, rfl, hdecode⟩ :=
      surveyed_of_assemble (Superblock.check_of_current hchosen) hassemble
    exact ⟨hbytes, fun settings => ⟨hregion, hchosen, hdecode⟩⟩
  · exact ⟨rfl, fun x hx => nomatch hx⟩

end StateVault.Vault
