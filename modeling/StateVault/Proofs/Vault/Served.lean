/-
  StateVault.Proofs.Vault.Served
  ──────────────────────────────
  **AN IMAGE SERVES THE VAULT THAT IS MADE OR MOUNTED ON IT.**

  Mounting checks that the image is as long as its superblock says, so all
  blocks of all streams are in it.  Formatting ends with the first commit,
  beside zero bytes in the place of the other copy of the superblock.

    • `Mounted.live`   — a vault that is mounted is served,
    • `format_ensures` — so is a new one, and the image records it.
-/
import StateVault.Proofs.Vault.Packed
import StateVault.Proofs.Vault.Reopening

namespace StateVault.Vault

variable {F : Failures} {I : Watched → Prop}

/-! ## §1. Mounting. -/

/-- What a mounted vault finds in its image. -/
structure Mounted (settings : Settings) (v : Vault) (image : Image) : Prop where
  sound : v.Sound
  settings : v.settings = settings
  attested : v.Attested image
  imageBytes : v.superblock.imageBytes.toNat ≤ image.size
  total : v.blocks.total = v.superblock.totalBlocks

/-- A vault that is opened is attested by the image it is opened from. -/
theorem mount_mounted {t : Watched} (settings : Settings) (hI : I t) :
    (mount settings).Ensures F I t fun result t' => t' = t ∧
      ∀ v, result = .ok v → Mounted settings v t.image := by
  unfold mount
  rw [Script.ensures_andThen]
  cases (if settings.autoGrow = true then settings.check else .ok ()) with
  | error e => exact ⟨rfl, fun v hv => nomatch hv⟩
  | ok u =>
    show Script.Ensures F I (Script.andThen _ _) t _
    rw [Script.ensures_andThen]
    refine ((attested_of_survey hI).and_yields survey_yields).mono ?_
    intro result t' hend
    obtain ⟨⟨rfl, hfound⟩, hsurveyed⟩ := hend
    cases result with
    | error e => exact ⟨rfl, fun v hv => nomatch hv⟩
    | ok x =>
      -- the survey has compared the image with what its superblock says
      obtain ⟨hbytes, hattested⟩ := hfound x rfl
      refine ⟨rfl, fun v hv => ?_⟩
      cases hv
      exact ⟨hsurveyed.sound settings, rfl, hattested settings, hbytes, hsurveyed.total⟩

/-- An image serves a vault that is mounted from it.  No medium is so long
that its length is the largest word. -/
theorem Mounted.live {settings : Settings} {v : Vault} {image : Image}
    (h : Mounted settings v image) (hsize : image.size < UInt64.size - 1) :
    v.Live image ∧ v.Room image := by
  have hbytes := h.imageBytes
  rw [Superblock.toNat_imageBytes] at hbytes
  have hcovers : v.superblock.totalBlocks.toNat * v.width ≤ image.size := by
    unfold width
    omega
  have hroom : v.Room image := by
    unfold Room
    rw [h.total]
    exact hcovers
  refine ⟨⟨h.sound, ?_, h.attested.region, room_inBounds h.sound hcovers⟩, hroom⟩
  unfold Addressable Room at *
  omega

/-! ## §2. Formatting. -/

/-- A new vault, in an image that records it. -/
structure Formatted (settings : Settings) (v : Vault) (image : Image) : Prop where
  live : v.Live image
  recorded : v.Recorded image
  room : v.Room image
  packed : v.Packed image
  empty : v.directory = .empty
  generation : v.generation = 1
  settings : v.settings = settings

/-- The superblock's blocks are written with zero bytes. -/
theorem blank_region {blockSize : UInt32} (h : isBlockSize blockSize = true) {size : Nat}
    {image : Image} (hsize : size = ((superblockExtent blockSize).capacity blockSize).toNat)
    (hin : 0 + (Bytes.zeros size).size ≤ image.size) :
    (Bytes.overlay image 0 (Bytes.zeros size)).size = image.size
      ∧ regionSize ≤ image.size
      ∧ ∀ p, p < (superblockBlocks blockSize).toNat * blockSize.toNat →
          (Bytes.overlay image 0 (Bytes.zeros size)).data[p]? = some 0 := by
  obtain ⟨_, hfew, hblocks⟩ := superblockBlocks_spec h
  obtain ⟨_, hhigh⟩ := isBlockSize_bounds h
  have hregion : regionSize = 1024 := rfl
  -- the superblock's blocks are so few that their bytes are exact
  have hvalue : size = (superblockBlocks blockSize).toNat * blockSize.toNat := by
    have hmul : (superblockBlocks blockSize).toNat * blockSize.toNat ≤ 2 * 65536 :=
      Nat.mul_le_mul hfew hhigh
    have hwords : UInt64.size = 2 ^ 64 := rfl
    rw [hsize, Extent.toNat_capacity]
    show min ((superblockBlocks blockSize).toNat * blockSize.toNat) _ = _
    omega
  have hzeros := Bytes.size_zeros size
  refine ⟨Bytes.size_overlay _ _ _ hin, by omega, fun p hp => ?_⟩
  rw [Bytes.getElem?_overlay hin, if_pos (by omega), Bytes.getElem?_zeros, if_pos (by omega)]

/-- In the place of the other copy there are zero bytes as well. -/
theorem blank_copy {image : Image} {size : Nat} (h : regionSize ≤ size)
    (hzero : ∀ p, p < size → image.data[p]? = some 0) :
    Bytes.slice image 512 64 = Bytes.zeros 64 := by
  have hregion : regionSize = 1024 := rfl
  apply Bytes.ext_getElem?
  intro i
  rw [Bytes.getElem?_slice, Bytes.getElem?_zeros]
  by_cases hi : i < 64
  · rw [if_pos hi, if_pos hi, hzero (512 + i) (by omega)]
  · rw [if_neg hi, if_neg hi]

/-- An image made ready for the first commit of a vault: as long as the settings
say, with zero bytes in the superblock's blocks. -/
structure Prepared (settings : Settings) (blocks : BlockMap) (image : Image) : Prop where
  held : (unwritten settings blocks).Held []
  total : blocks.total = settings.initialBlocks
  size : image.size = settings.initialBlocks.toNat * settings.blockSize.toNat
  region : regionSize ≤ image.size
  blank : ∀ p, p < (superblockBlocks settings.blockSize).toNat * settings.blockSize.toNat →
    image.data[p]? = some 0
  addressable : (unwritten settings blocks).Addressable
  room : (unwritten settings blocks).Room image

/-- The size in bytes of a vault to be made does not wrap. -/
theorem toNat_initialBytes {settings : Settings} (h : settings.check = .ok ()) :
    settings.initialBlocks.toNat * settings.blockSize.toNat < UInt64.size
      ∧ (settings.initialBlocks * settings.blockSize.toUInt64).toNat
        = settings.initialBlocks.toNat * settings.blockSize.toNat := by
  obtain ⟨_, _, hmost, hfits⟩ := settings_check h
  have hbytes : settings.initialBlocks.toNat * settings.blockSize.toNat < UInt64.size :=
    Nat.lt_of_le_of_lt (Nat.mul_le_mul_right _ hmost) hfits
  refine ⟨hbytes, ?_⟩
  rw [UInt64.toNat_mul, UInt32.toNat_toUInt64]
  exact Nat.mod_eq_of_lt hbytes

/-- The length and the zeros written so far are what a first commit needs. -/
theorem prepared_of_blanked {settings : Settings} {blocks : BlockMap} {image : Image} {size : Nat}
    (hcheck : settings.check = .ok ())
    (hclaim : (BlockMap.blank settings.initialBlocks settings.blockSize).claim
      (superblockExtent settings.blockSize) = .ok blocks)
    (hsize : size = ((superblockExtent settings.blockSize).capacity settings.blockSize).toNat)
    (hlong : image.size = settings.initialBlocks.toNat * settings.blockSize.toNat)
    (hin : 0 + (Bytes.zeros size).size ≤ image.size) :
    Prepared settings blocks (Bytes.overlay image 0 (Bytes.zeros size)) := by
  obtain ⟨hsame, hregion, hblank⟩ := blank_region (settings_check hcheck).1 hsize hin
  obtain ⟨hheld, htotal⟩ := held_unwritten hcheck hclaim
  have hbytes : blocks.total.toNat * settings.blockSize.toNat
      = settings.initialBlocks.toNat * settings.blockSize.toNat := by
    rw [htotal]
  rw [← hsame] at hlong hregion
  exact
    { held := hheld
      total := htotal
      size := hlong
      region := hregion
      blank := hblank
      addressable := Nat.lt_of_le_of_lt (Nat.le_of_eq hbytes) (toNat_initialBytes hcheck).1
      room := Nat.le_of_eq (hbytes.trans hlong.symm) }

/-- Formatting comes to the first commit, in an image made ready for it, unless
a call before it fails. -/
theorem format_reaches_commit {settings : Settings} {Q : Except Error Vault → Watched → Prop}
    (hcheck : settings.check = .ok ())
    (hfailed : (F.setLength ∨ F.write ∨ ∃ count landed, F.tear count landed) →
      ∀ e t', Q (.error e) t')
    (hcommit : ∀ blocks t', Prepared settings blocks t'.image →
      (commit .empty (unwritten settings blocks)).Ensures F (fun _ => True) t'
        fun outcome t' => Q (outcome.1.map fun _ => outcome.2) t')
    (t : Watched) : (format settings).Ensures F (fun _ => True) t Q := by
  obtain ⟨hsize, hleast, _, _⟩ := settings_check hcheck
  obtain ⟨hone, htwo, _⟩ := superblockBlocks_spec hsize
  have hthree : leastBlocks.toNat = 3 := rfl
  unfold format
  rw [Script.ensures_andThen, hcheck]
  show Script.Ensures F _ (Script.andThen _ _) t _
  rw [Script.ensures_andThen]
  intro result image hsets
  refine ⟨trivial, ?_⟩
  cases hsets with
  | failed hcause e => exact hfailed (Or.inl hcause) e _
  | whole =>
    show Script.Ensures F _ (Script.andThen _ _) _ _
    rw [Script.ensures_andThen]
    intro result image hwrites
    refine ⟨trivial, ?_⟩
    have hlong : (Bytes.resized t.image
        (settings.initialBlocks * settings.blockSize.toUInt64).toNat).size
          = settings.initialBlocks.toNat * settings.blockSize.toNat := by
      rw [Bytes.size_resized, (toNat_initialBytes hcheck).2]
    cases hwrites with
    | refused hcause e =>
      refine hfailed (Or.inr (Or.inl (hcause.resolve_right ?_))) e _
      -- the superblock has two blocks at most, and the image three at least
      have hreserved : ((superblockExtent settings.blockSize).capacity settings.blockSize).toNat
          ≤ (superblockBlocks settings.blockSize).toNat * settings.blockSize.toNat := by
        rw [Extent.toNat_capacity]
        exact Nat.min_le_left _ _
      have hmore : (superblockBlocks settings.blockSize).toNat * settings.blockSize.toNat
          ≤ settings.initialBlocks.toNat * settings.blockSize.toNat :=
        Nat.mul_le_mul_right _ (by omega)
      rw [Bytes.size_zeros, hlong]
      omega
    | torn landed hlanded _ e => exact hfailed (Or.inr (Or.inr ⟨_, landed, hlanded⟩)) e _
    | whole hin =>
      show Script.Ensures F _ (Script.andThen _ _) _ _
      rw [Script.ensures_andThen]
      obtain ⟨blocks, hclaim, _⟩ := exists_unwritten hcheck
      rw [hclaim]
      show Script.Ensures F _ (Script.bind _ _) _ _
      rw [Script.ensures_bind]
      exact hcommit blocks _ (prepared_of_blanked hcheck hclaim rfl hlong hin)

/-- The first commit. -/
theorem firstCommit_ensures {settings : Settings} {blocks : BlockMap} {t : Watched}
    (h : Prepared settings blocks t.image) :
    (commit .empty (unwritten settings blocks)).Ensures F (fun _ => True) t fun outcome t' =>
      outcome.1 = .ok () → Formatted settings outcome.2 t'.image := by
  obtain ⟨hheld, _, _, hregion, hblank, haddress, hroom⟩ := h
  have hcommit := commit_ensures (F := F) (I := fun _ => True) (d := .empty) False hheld
    haddress hregion False.elim (fun _ _ => trivial) fun _ _ _ _ _ _ => trivial
  refine (hcommit.and_yields (commit_yields hheld .empty)).mono ?_
  intro outcome t' hend hok
  obtain ⟨result, w⟩ := outcome
  obtain ⟨hsettled, hcommitted⟩ := hend
  cases hok
  obtain ⟨hdecided, _⟩ := hsettled
  obtain ⟨hadvanced, hw⟩ := hcommitted
  have hfollows := hadvanced.toFollows
  have hgeneration : w.generation = 1 := by
    have hnext := hfollows.generation
    rw [show Word.add? (unwritten settings blocks).generation 1 = some 1 from rfl] at hnext
    exact (Option.some.inj hnext).symm
  have hsound : w.Sound :=
    hadvanced.sound (Keeps.refl w) rfl hw (Directory.valid_empty _)
  have hempty : w.streams = [] := congrArg Directory.entries hfollows.directory
  constructor
  · refine ⟨hsound, hdecided.addressable haddress,
      region_of_keeps hheld hregion hdecided.kept, fun e he => ?_⟩
    rw [hempty] at he
    cases he
  · refine recorded_of_decided hheld hregion hfollows hdecided ?_
    -- the first record goes to the first place; the second holds zeros, which are stale
    have hplace : (unwritten settings blocks).slot.offset = 512 := by
      show Slot.second.offset = 512
      rfl
    rw [hgeneration, hplace, blank_copy (superblockBlocks_spec hheld.blockSize).2.2 hblank]
    exact Superblock.stale_zeros
  · exact hdecided.room hroom
  · refine ⟨fun e he => ?_, hdecided.blocks, hdecided.directory, ?_⟩
    · rw [hempty] at he
      cases he
    · have hcleared : (unwritten settings blocks).Cleared t.image := fun p hp =>
        hblank p hp.lt
      exact (hcleared.of_keeps hheld hdecided.kept).congr hfollows.blockSize
  · exact hfollows.directory
  · exact hgeneration
  · exact hfollows.settings

/-- **Formatting records a new vault**, or fails. -/
theorem format_ensures (settings : Settings) (t : Watched) :
    (format settings).Ensures F (fun _ => True) t fun result t' =>
      ∀ v, result = .ok v → Formatted settings v t'.image := by
  cases hcheck : settings.check with
  | error e =>
    unfold format
    rw [Script.ensures_andThen, hcheck]
    exact fun v hv => nomatch hv
  | ok u =>
    -- all that can fail before the commit fails the format
    refine format_reaches_commit hcheck (fun _ e t' v hv => nomatch hv) (fun blocks t' h => ?_) t
    refine (firstCommit_ensures h).mono ?_
    intro outcome t'' hformatted v hv
    obtain ⟨result, w⟩ := outcome
    cases result with
    | error e => cases hv
    | ok u =>
      cases hv
      exact hformatted rfl

theorem Formatted.contents {settings : Settings} {v : Vault} {image : Image}
    (h : Formatted settings v image) : v.contents image = [] := by
  rw [Vault.contents, streams, h.empty]
  rfl

/-! ## §3. On a medium. -/

section Media

variable {μ : Type} [Medium μ] {image : μ → Image} {settings : Settings} {v : Vault} {m m' : μ}

/-- Formatting on a medium that obeys records a new vault. -/
theorem formatted_of_run (hobeys : Obeys F image)
    (hrun : (format settings).run m = (.ok v, m')) : Formatted settings v (image m') := by
  obtain ⟨_, _, hformatted⟩ := (format_ensures settings ⟨image m, 0⟩).on_medium hobeys
  rw [hrun] at hformatted
  exact hformatted v rfl

/-- Opening on such a medium changes no byte. -/
theorem mounted_of_run (hobeys : Obeys F image)
    (hrun : (mount settings).run m = (.ok v, m')) :
    image m' = image m ∧ Mounted settings v (image m) := by
  obtain ⟨_, _, hsame, hmounted⟩ := (mount_mounted (I := fun _ => True) (t := ⟨image m, 0⟩)
    settings trivial).on_medium hobeys
  rw [hrun] at hsame hmounted
  exact ⟨congrArg Watched.image hsame, hmounted v rfl⟩

end Media

end StateVault.Vault
