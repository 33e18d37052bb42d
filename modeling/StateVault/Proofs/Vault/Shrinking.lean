/-
  StateVault.Proofs.Vault.Shrinking
  ─────────────────────────────────
  **WHEN A RESIZE MAKES AN IMAGE TOO SHORT FOR ITS RECORD.**

  A shrink commits the directory with a block map that is already cut.  If
  that map has no run of free blocks for the directory, and the vault may
  grow, the medium gets the length of the grown map, which can be less than
  what the record on the medium still describes: until the commit goes
  through, the image does not open (`Undercuts`).  And a map that was left
  longer than the image, by a shrink that failed after such growth, can come
  into a record (`Overdraws`).  These are all the ways in which a resize
  without failures endangers an image.

    • `recommit_intact`, `recommit_truncates` — one commit, and when it is safe,
    • `cutTo_intact`, `cutTo_truncates`       — one with the map cut.
-/
import StateVault.Proofs.Vault.Durability

namespace StateVault

namespace Vault

variable {F : Failures} {I : Watched → Prop}

/-! ## §1. Images that are too short. -/

/-- The image records a vault, and is shorter than its superblock says. -/
def Truncated (image : Image) : Prop :=
  ∃ v : Vault, v.Sound ∧ v.Addressable ∧ v.Recorded image ∧ ¬ v.Covers image

theorem imageBytes_of_addressable {v : Vault} (hs : v.Sound) (haddress : v.Addressable) :
    v.superblock.imageBytes.toNat = v.superblock.totalBlocks.toNat * v.width := by
  have hcommitted := Nat.mul_le_mul_right v.width hs.committed
  unfold Addressable at haddress
  rw [Superblock.toNat_imageBytes]
  exact Nat.min_eq_left (by
    show v.superblock.totalBlocks.toNat * v.width ≤ _
    omega)

/-- An image shorter than its superblock says is refused for that. -/
theorem currentIn_of_short {v : Vault} {image : Image} (hs : v.Sound) (haddress : v.Addressable)
    (h : v.Attested image) (hshort : ¬ v.Covers image) :
    currentIn image.size (Bytes.slice image 0 regionSize)
      = .error (.corrupt (.imageTruncated image.size v.superblock.imageBytes)) := by
  have hless : image.size < v.superblock.imageBytes.toNat := by
    rw [imageBytes_of_addressable hs haddress]
    exact Nat.lt_of_not_le hshort
  unfold currentIn
  rw [h.current]
  simp only [bind, Except.bind, if_pos hless]
  rfl

/-- An image that is shorter than its superblock says is not mounted. -/
theorem mount_of_short {v : Vault} {t : Watched} (hs : v.Sound) (haddress : v.Addressable)
    (h : v.Attested t.image) (hshort : ¬ v.Covers t.image) (settings : Settings) :
    (mount settings).Ensures Failures.none (fun _ => True) t fun result _ =>
      ∃ e, result = .error e ∧ (Acceptable settings →
        e = .corrupt (.imageTruncated t.image.size v.superblock.imageBytes)) := by
  unfold mount
  rw [Script.ensures_andThen]
  cases hsettings : (if settings.autoGrow = true then settings.check else .ok ()) with
  | error e =>
    refine ⟨e, rfl, fun hacceptable => ?_⟩
    -- settings that are acceptable are not what is refused
    by_cases hgrow : settings.autoGrow = true
    · rw [if_pos hgrow, hacceptable hgrow] at hsettings
      cases hsettings
    · rw [if_neg hgrow] at hsettings
      cases hsettings
  | ok u =>
    show Script.Ensures _ _ (Script.andThen _ _) t _
    rw [Script.ensures_andThen]
    show Script.Ensures _ _ (Script.andThen (.done (checkSize t.image.size)) _) t _
    rw [checkSize, if_neg (Nat.not_lt.mpr h.region), Script.ensures_andThen]
    show Script.Ensures _ _ (Script.andThen _ _) t _
    rw [Script.ensures_andThen]
    refine ⟨trivial, fun result hreads => ?_⟩
    cases hreads with
    | failed hfailed e =>
      have hregion := h.region
      exact absurd (hfailed.resolve_left id) (by omega)
    -- the superblock is read, and asks for more bytes than there are
    | whole _ =>
      show Script.Ensures _ _ (Script.andThen (.done (currentIn t.image.size _)) _) t _
      rw [currentIn_of_short hs haddress h hshort, Script.ensures_andThen]
      exact ⟨_, rfl, fun _ => rfl⟩

/-- An image that is too short for its record does not open. -/
theorem shown_of_short {v : Vault} {image : Image} (hs : v.Sound) (haddress : v.Addressable)
    (h : v.Recorded image) (hshort : ¬ v.Covers image) {settings : Settings}
    (hsettings : Acceptable settings) :
    shown settings image
      = .error (.corrupt (.imageTruncated image.size v.superblock.imageBytes)) := by
  obtain ⟨_, _, e, hresult, herror⟩ := (mount_of_short (t := ⟨image, 0⟩) hs haddress
    (h.attested hs haddress) hshort settings).on_medium image_obeys
  have hmount : ((mount settings).run image).1 = .error e := hresult
  unfold shown
  cases hrun : (mount settings).run image with
  | mk result image' =>
    rw [hrun] at hmount
    cases hmount
    rw [herror hsettings]

/-- **A truncated image does not open.** -/
theorem Truncated.not_shown {image : Image} (h : Truncated image) {settings : Settings}
    (hsettings : Acceptable settings) (c : Contents) : shown settings image ≠ .ok c := by
  obtain ⟨v, hs, haddress, hrecorded, hshort⟩ := h
  rw [shown_of_short hs haddress hrecorded hshort hsettings]
  exact fun heq => nomatch heq

/-! ## §2. One commit. -/

/-- Committed as it is, the vault goes into a record that describes more than
there is of the image: its directory has blocks, but the map ends beyond the
image. -/
def Overdraws (v : Vault) (image : Image) : Prop :=
  (∃ generation, Word.add? v.generation 1 = some generation)
    ∧ image.size < v.blocks.total.toNat * v.width
    ∧ ∃ e blocks, v.blocks.allocate (v.directoryBlocks v.directory) = .ok (e, blocks)
      ∧ (e.start.toNat + e.count.toNat) * v.width ≤ image.size

/-- Committed as it is, the vault grows to less than what its record on the
medium describes. -/
def Undercuts (v : Vault) : Prop :=
  (∃ generation, Word.add? v.generation 1 = some generation) ∧ v.mayGrow = true
    ∧ (∃ e, v.blocks.allocate (v.directoryBlocks v.directory) = .error e)
    ∧ v.grownTotal (v.directoryBlocks v.directory) < v.superblock.totalBlocks

/-- Committed as it is, the vault endangers the image. -/
def Endangers (v : Vault) (image : Image) : Prop :=
  v.Overdraws image ∨ v.Undercuts

/-- The image records the vault, all of it, with these streams. -/
structure Intact (v : Vault) (image : Image) (streams : List Stream) : Prop where
  live : v.Live image
  recorded : v.Recorded image
  covers : v.Covers image
  contents : v.contents image = streams

theorem Intact.recalls {v : Vault} {image : Image} {streams : List Stream}
    (h : v.Intact image streams) : ∃ generation, Recalls image ⟨generation, streams⟩ :=
  ⟨v.generation, v, h.live, h.recorded, h.covers, congrArg (Contents.mk _) h.contents⟩

section Commits

variable {v w : Vault} {t : Watched} {streams : List Stream}

theorem Intact.undecided {t' : Watched} (h : v.Intact t.image streams)
    (hundecided : Undecided Failures.none True v t t') : v.Intact t'.image streams := by
  obtain ⟨hlive, hcontents⟩ := h.live.of_undecided hundecided
  exact ⟨hlive, h.recorded.of_undecided (fun _ hnever => absurd hnever id) id h.live.sound
    hundecided, hundecided.covers trivial h.covers, hcontents.trans h.contents⟩

/-- An intact image stays so by a commit, unless that describes more than there
is. -/
theorem Intact.renewed {x : Vault} {t₁ t' : Watched} (h : v.Intact t.image streams)
    (halike : v.Alike w) (hsafe : ¬ w.Overdraws t₁.image)
    (hr : Renewed Failures.none v t v.directory x t')
    (hfitted : w.Fitted v.directory t₁ x t') : x.Intact t'.image streams := by
  obtain ⟨hlive, hcontents⟩ := hr.contents_same h.live
  refine ⟨hlive, hr.recorded h.live.sound h.recorded.anchored, hr.sound.covers ?_,
    hcontents.trans h.contents⟩
  rcases hfitted with hroom | ⟨htotal, hsize, e, blocks, hallocated, hbounds⟩
  · exact hroom
  · apply Nat.le_of_not_lt
    -- a record without room for what it says is one that overdraws
    intro hshort
    have hwidth : x.width = w.width := hr.width.trans (width_congr halike.superblock).symm
    rw [hsize, htotal, hwidth] at hshort
    refine hsafe ⟨⟨x.generation, ?_⟩, hshort, e, blocks, ?_, hbounds⟩
    · rw [generation, halike.superblock]
      exact hr.follows.generation
    · rw [halike.directory]
      exact hallocated

/-- A commit that neither overdraws nor undercuts keeps the image intact at
every call. -/
theorem recommit_intact (h : v.Intact t.image streams) (halike : v.Alike w)
    (hheld : w.Held (streamExtents v.directory)) (haddress : w.Addressable)
    (hroom : v.Room t.image → w.Room t.image) (hdraw : ¬ w.Overdraws t.image)
    (hcut : ¬ w.Undercuts) :
    (recommit w).Ensures Failures.none
      (fun t' => ∃ x : Vault, x.Intact t'.image streams) t fun outcome t' =>
        match outcome.1 with
        | .ok _ => outcome.2.Intact t'.image streams ∧ w.Advanced v.directory outcome.2
        | .error _ => v.Intact t'.image streams ∧ w.Keeps outcome.2 := by
  cases hgeneration : Word.add? w.generation 1 with
  | none =>
    unfold recommit commit
    rw [Action.ensures_vault, Action.ensures_vault, hgeneration]
    exact ⟨h, Keeps.refl w⟩
  | some generation =>
    -- a vault that does not undercut grows to no less than its record says
    have hsafe : True → w.SafeGrowth (w.directoryBlocks v.directory) := by
      intro _ e hfails hgrow
      rw [← halike.directory] at hfails ⊢
      exact Nat.le_of_not_lt fun hless => hcut
        ⟨⟨generation, hgeneration⟩, hgrow, ⟨e, hfails⟩, UInt64.lt_iff_toNat_lt.mpr hless⟩
    have hrecommit := recommit_ensures (F := Failures.none)
      (I := fun t' => ∃ x : Vault, x.Intact t'.image streams) True h.live.sound halike hheld
      haddress h.live.region (undecided_refl v t) hroom hsafe
      (fun t' hundecided => ⟨v, h.undecided hundecided⟩)
      fun x t' hr hfitted => ⟨x, h.renewed halike hdraw hr hfitted⟩
    refine hrecommit.mono ?_
    intro outcome t' hdone
    obtain ⟨result, x⟩ := outcome
    cases result with
    | ok u =>
      obtain ⟨hr, hadvanced, hfitted⟩ := hdone
      exact ⟨h.renewed halike hdraw hr hfitted, hadvanced⟩
    | error err => exact ⟨h.undecided hdone.1, hdone.2.2⟩

/-- The part of a commit that begins with blocks for the directory. -/
theorem commit_eq {d : Directory} {generation : UInt64} {bytes : ByteArray}
    (hgeneration : Word.add? v.generation 1 = some generation)
    (hbytes : d.encode generation = .ok bytes) :
    commit d v = (allocate bytes.size >>= fun extent => (do
      let v ← Action.vault
      let superblock := v.nextSuperblock extent bytes.size generation
      let slot := v.slot.other
      (writeCommit extent bytes superblock slot).onError (released extent)
      Action.modify fun v =>
        released v.superblock.directory { v with superblock, slot, directory := d } :
          Action Unit)) v := by
  have hvault : ∀ f : Vault → Action Unit, (Action.vault >>= f) v = f v v := fun _ => rfl
  rw [commit, hvault, hgeneration]
  dsimp only
  rw [hbytes]
  rfl

/-- Growth to less than the record describes comes as the first call. -/
theorem recommit_of_grows {generation bytes : UInt64} {e : Error} {data : ByteArray}
    (hgeneration : Word.add? w.generation 1 = some generation)
    (hdata : w.directory.encode generation = .ok data)
    (hfails : w.blocks.allocate (w.directoryBlocks w.directory) = .error e)
    (hgrow : w.mayGrow = true)
    (hbytes : Word.mul? (w.grownTotal (w.directoryBlocks w.directory)) w.blockSize.toUInt64
      = some bytes) : ∃ next, recommit w = .setLength bytes.toNat next := by
  -- the directory is encoded first, which says how many blocks it takes
  have hneeded : w.directoryBlocks w.directory
      = blocksToHold (UInt64.ofNat data.size) w.superblock.blockSize := by
    rw [directoryBlocks, (Directory.size_of_encode hdata).1]
  rw [hneeded] at hfails hbytes
  have hcommit : recommit w = _ := commit_eq hgeneration hdata
  have hallocate : allocate data.size w = _ := allocateGrowing_of_grows hfails hgrow hbytes
  rw [hcommit]
  show ∃ next, Script.bind (allocate data.size w) _ = _
  rw [hallocate]
  exact ⟨_, rfl⟩

/-- A commit that undercuts truncates the image. -/
theorem recommit_of_undercuts {image : Image} (h : v.Intact image streams) (halike : v.Alike w)
    (hheld : w.Held (streamExtents v.directory)) (hcut : w.Undercuts) :
    ∃ y ∈ (recommit w).states image, Truncated y := by
  obtain ⟨⟨generation, hgeneration⟩, hgrow, ⟨e, hfails⟩, hless⟩ := hcut
  rw [UInt64.lt_iff_toNat_lt, halike.superblock] at hless
  have hwidths := h.live.sound.held.width_bounds
  have hwidth : w.width = v.width := width_congr halike.superblock
  have hdata := h.live.sound.valid.encode generation
  rw [← halike.directory] at hdata
  have hne := ne_zero_of_allocate hfails
  have hshort : (w.grownTotal (w.directoryBlocks w.directory)).toNat * v.width
      < v.superblock.totalBlocks.toNat * v.width :=
    Nat.mul_lt_mul_of_pos_right hless (by omega)
  -- the new length has an address, being less than that of the record
  have hsmall := Nat.mul_le_mul_right v.width h.live.sound.committed
  have haddress := h.live.addressable
  unfold Addressable at haddress
  obtain ⟨bytes, hbytes⟩ : ∃ bytes, Word.mul? (w.grownTotal (w.directoryBlocks w.directory))
      w.blockSize.toUInt64 = some bytes := by
    have hmul := Word.toNat_mul? (w.grownTotal (w.directoryBlocks w.directory))
      w.blockSize.toUInt64
    rw [UInt32.toNat_toUInt64, show w.blockSize.toNat = v.width from hwidth,
      if_pos (by omega)] at hmul
    obtain ⟨bytes, hbytes, _⟩ := Option.map_eq_some_iff.mp hmul
    exact ⟨bytes, hbytes⟩
  obtain ⟨hvalue, _⟩ := toNat_grown hne hgrow hbytes
  have htotal : (w.grown (w.directoryBlocks w.directory)).blocks.total
      = w.grownTotal (w.directoryBlocks w.directory) :=
    BlockMap.total_extend (lt_grownTotal hne hgrow)
  obtain ⟨_, hmore⟩ := grown_keeps hne hgrow
  obtain ⟨next, hscript⟩ := recommit_of_grows hgeneration hdata hfails hgrow hbytes
  refine ⟨Bytes.resized image bytes.toNat, ?_, v, h.live.sound, h.live.addressable, ?_, ?_⟩
  · rw [hscript]
    exact List.mem_cons_self
  · have hkept : Bytes.Keeps (· < w.blocks.total.toNat * w.width) image
        (Bytes.resized image bytes.toNat) := by
      refine (Bytes.keeps_resized _ _).mono fun p hp => Nat.lt_of_lt_of_le hp ?_
      rw [hvalue]
      exact Nat.mul_le_mul_right _ (Nat.le_of_lt hmore)
    let t : Watched := ⟨image, 0⟩
    have hregion : regionSize ≤ t.image.size := h.live.region
    have hundecided : Undecided Failures.none False v t
        { t with image := Bytes.resized image bytes.toNat } :=
      (undecided_refl v t).trans halike.superblock halike.slot
        (fun p hp => h.live.sound.held.guards_of_subset hheld halike.superblock halike.slot
          (fun _ he => he) hp)
        (undecided_of_blocks hheld hregion hkept False.elim)
    exact h.recorded.of_undecided (fun _ hnever => absurd hnever id) id h.live.sound hundecided
  · unfold Covers
    rw [Bytes.size_resized, hvalue, htotal, hwidth]
    exact Nat.not_le.mpr hshort

/-! ## §3. A commit that goes through. -/

section Passing

variable {others : List Extent} {e : Extent}

/-- Without failures, filling an extent within the image goes through. -/
theorem fill_passes {data : ByteArray} (h : v.Held others) (he : e ∈ others)
    (haddress : v.Addressable) (hne : e.count.toNat ≠ 0)
    (hdata : data.size ≤ e.count.toNat * v.width)
    (hin : (e.start.toNat + e.count.toNat) * v.width ≤ t.image.size) :
    (fill e data v).Ensures Failures.none (fun _ => True) t fun outcome t' =>
      outcome = (.ok (), v) ∧ t'.image.size = t.image.size := by
  have hfits := h.owns.within e (List.mem_cons_of_mem _ (List.mem_cons_of_mem _ he))
  obtain ⟨hoffset, hcapacity, _⟩ := toNat_blockOffset haddress hfits (Nat.le_refl _) hne
  have hsize : (padded data (e.capacity v.blockSize).toNat).size = e.count.toNat * v.width := by
    rw [show (e.capacity v.blockSize).toNat = _ from hcapacity, size_padded data hdata]
  have hsum := Nat.add_mul e.start.toNat e.count.toNat v.width
  unfold fill
  rw [Action.ensures_vault, if_neg (fun hempty => hne ((Extent.isEmpty_iff e).mp hempty))]
  intro result image hwrites
  rw [hoffset] at hwrites
  refine ⟨trivial, ?_⟩
  -- of the three ends of a write only one is left
  cases hwrites with
  | whole hfit => exact ⟨rfl, Bytes.size_overlay _ _ _ hfit⟩
  | refused hcause err =>
    rw [hsize] at hcause
    exact absurd (hcause.resolve_left id) (by omega)
  | torn _ hnever => exact absurd hnever id

/-- On a medium that does not fail the writes of a commit go through, if their
blocks are there. -/
theorem writeCommit_passes {bytes : ByteArray} {s : Superblock} (h : v.Held others)
    (he : e ∈ others) (haddress : v.Addressable) (hne : e.count.toNat ≠ 0)
    (hbytes : bytes.size ≤ e.count.toNat * v.width) (hregion : regionSize ≤ t.image.size)
    (hin : (e.start.toNat + e.count.toNat) * v.width ≤ t.image.size) :
    (writeCommit e bytes s v.slot.other v).Ensures Failures.none (fun _ => True) t
      fun outcome t' => outcome = (.ok (), v) ∧ t'.image.size = t.image.size := by
  have hslot := slot_offset_le v.slot.other
  have hsize : regionSize = 1024 := rfl
  have hencode := s.size_encode
  unfold writeCommit
  rw [Action.ensures_bind]
  refine (fill_passes h he haddress hne hbytes hin).mono ?_
  intro outcome t₁ hend
  obtain ⟨rfl, hsame⟩ := hend
  rw [Action.Beyond, Action.ensures_bind]
  refine ⟨trivial, fun result hsyncs => ?_⟩
  -- no sync fails, and both writes fit the image
  cases hsyncs with
  | failed hnever => exact absurd hnever id
  | whole =>
    show Action.Beyond _ _ _ _ (.ok (), v) t₁
    rw [Action.Beyond, Action.ensures_bind]
    intro result image hwrites
    rw [toNat_slot_offset] at hwrites
    refine ⟨trivial, ?_⟩
    cases hwrites with
    | refused hcause err => exact absurd (hcause.resolve_left id) (by omega)
    | torn _ hnever => exact absurd hnever id
    | whole hfit =>
      refine ⟨trivial, fun result hsyncs => ?_⟩
      cases hsyncs with
      | failed hnever => exact absurd hnever id
      | whole => exact ⟨rfl, (Bytes.size_overlay _ _ _ hfit).trans hsame⟩

/-- Without failures, a commit goes through that finds blocks for its directory
within the image. -/
theorem commit_passes {d : Directory} {generation : UInt64} {blocks : BlockMap}
    (h : v.Held others) (haddress : v.Addressable) (hregion : regionSize ≤ t.image.size)
    (hgeneration : Word.add? v.generation 1 = some generation)
    (hdata : d.encode generation = .ok (d.bytes generation))
    (hfits : v.blocks.allocate (v.directoryBlocks d) = .ok (e, blocks))
    (hin : (e.start.toNat + e.count.toNat) * v.width ≤ t.image.size) :
    (commit d v).Ensures Failures.none (fun _ => True) t fun outcome t' =>
      outcome.1 = .ok () ∧ outcome.2.blocks.total = v.blocks.total
        ∧ t'.image.size = t.image.size := by
  obtain ⟨hsize, _, _⟩ := Directory.size_of_encode hdata
  have hneeded : v.directoryBlocks d
      = blocksToHold (UInt64.ofNat (d.bytes generation).size) v.superblock.blockSize := by
    rw [directoryBlocks, hsize]
  rw [hneeded] at hfits
  -- the blocks are there without growth, so no length is set
  have hallocate : allocate (d.bytes generation).size v = _ := allocateGrowing_of_fits hfits
  have halloc := allocate_yields h (d.bytes generation).size
  rw [hallocate] at halloc
  obtain ⟨_, _, _, htotal⟩ := advanced_of_allocated h hgeneration hdata halloc
  obtain ⟨hkeeps, howns, hcount, _⟩ := halloc
  have hheld : ({ v with blocks } : Vault).Held (e :: others) := h.of_taken hkeeps howns
  obtain ⟨henough, hne⟩ := h.enough_of_encode hdata hcount
  have hwide : ({ v with blocks } : Vault).Addressable := by
    show blocks.total.toNat * v.width < _
    rw [total_of_allocate hfits]
    exact haddress
  rw [commit_eq hgeneration hdata, Action.ensures_bind, hallocate, Script.ensures_done,
    Action.Beyond, Action.ensures_vault, Action.ensures_bind, Action.ensures_onError]
  refine (writeCommit_passes hheld List.mem_cons_self hwide hne henough hregion hin).mono ?_
  intro outcome t' hend
  obtain ⟨rfl, hsame⟩ := hend
  exact ⟨rfl, htotal.trans (total_of_allocate hfits), hsame⟩

end Passing

/-- A commit that overdraws truncates the image. -/
theorem recommit_of_overdraws {image : Image} (h : v.Intact image streams) (halike : v.Alike w)
    (hheld : w.Held (streamExtents v.directory)) (haddress : w.Addressable)
    (hroom : v.Room image → w.Room image) (hdraw : w.Overdraws image) :
    ∃ y ∈ (recommit w).states image, Truncated y := by
  obtain ⟨⟨generation, hgeneration⟩, hshort, e, blocks, hfits, hin⟩ := hdraw
  have hdata := h.live.sound.valid.encode generation
  rw [← halike.directory] at hdata
  have hwidth : w.width = v.width := width_congr halike.superblock
  let x : Tally Image := ⟨image, 0⟩
  have hregion : regionSize ≤ (x.watched id).image.size := h.live.region
  have hpasses : (recommit w).Ensures Failures.none (fun _ => True) (x.watched id) _ :=
    commit_passes hheld haddress hregion hgeneration hdata hfits hin
  have hrecommit := recommit_ensures (F := Failures.none) (I := fun _ => True) False h.live.sound
    halike hheld haddress hregion (undecided_refl v (x.watched id)) hroom False.elim
    (fun _ _ => trivial) fun _ _ _ _ => trivial
  obtain ⟨_, hok, htotal, hsize⟩ := hpasses.on_tally image_obeys
  obtain ⟨_, hdone⟩ := hrecommit.on_tally image_obeys
  have hmem := (recommit w).run_mem_states x
  have hstates : (recommit w).states image = _ := (Script.run_tally (recommit w) x).2
  cases hrun : (recommit w).run x with
  | mk outcome y =>
    obtain ⟨result, z⟩ := outcome
    rw [hrun] at hok htotal hsize hdone hmem
    cases hok
    obtain ⟨hr, hadvanced, _⟩ := hdone
    -- the run writes its record, which describes more than the image has
    have hrecords : y.records = 0 + 1 := hr.decided.records id
    have hsize : y.medium.size = image.size := hsize
    have htotal : z.blocks.total = w.blocks.total := htotal
    refine ⟨y.medium, ?_, z, hr.sound, hr.decided.addressable h.live.addressable, ?_, ?_⟩
    · rw [hstates]
      -- the last image is that after some call: at the start no record was written
      refine List.mem_map.mpr ⟨y, hmem.resolve_right fun hsame => ?_, rfl⟩
      have hnone : y.records = 0 := congrArg Tally.records hsame
      omega
    · exact hr.recorded h.live.sound h.recorded.anchored
    · unfold Covers
      rw [hadvanced.total, htotal, hr.width, ← hwidth, hsize]
      exact Nat.not_le.mpr hshort

/-- A commit that overdraws or undercuts truncates the image. -/
theorem recommit_truncates {image : Image} (h : v.Intact image streams) (halike : v.Alike w)
    (hheld : w.Held (streamExtents v.directory)) (haddress : w.Addressable)
    (hroom : v.Room image → w.Room image) (hdanger : w.Endangers image) :
    ∃ y ∈ (recommit w).states image, Truncated y := by
  rcases hdanger with hdraw | hcut
  · exact recommit_of_overdraws h halike hheld haddress hroom hdraw
  · exact recommit_of_undercuts h halike hheld hcut

end Commits

/-! ## §4. Shrinks. -/

/-- Committed with its map cut, the vault endangers the image. -/
def EndangersCut (v : Vault) (image : Image) (total : UInt64) : Prop :=
  ∃ cut, v.blocks.shrink total = .ok cut
    ∧ ({ v with blocks := cut } : Vault).Endangers image

section Shrinks

variable {v : Vault} {t : Watched} {streams : List Stream} {current total : UInt64}

/-- With its map cut, the vault is still held, in as long an image. -/
theorem Intact.cut {image : Image} {cut : BlockMap} (h : v.Intact image streams)
    (hleast : leastBlocks.toNat ≤ total.toNat) (hless : total.toNat < v.blocks.total.toNat)
    (hcut : v.blocks.shrink total = .ok cut) :
    v.Alike { v with blocks := cut }
      ∧ ({ v with blocks := cut } : Vault).Held (streamExtents v.directory)
      ∧ ({ v with blocks := cut } : Vault).Addressable
      ∧ (v.Room image → ({ v with blocks := cut } : Vault).Room image) := by
  obtain ⟨hheld, htotal⟩ := h.live.sound.held.cut hleast hless hcut
  have hfewer : cut.total.toNat * v.width ≤ v.blocks.total.toNat * v.width := by
    rw [htotal]
    exact Nat.mul_le_mul_right _ (Nat.le_of_lt hless)
  exact ⟨⟨rfl, rfl, rfl, rfl⟩, hheld, Nat.lt_of_le_of_lt hfewer h.live.addressable,
    fun hroom => Nat.le_trans hfewer hroom⟩

/-- The cut keeps the image intact, unless its commit endangers it. -/
theorem cutTo_intact (h : v.Intact t.image streams)
    (hleast : leastBlocks.toNat ≤ total.toNat) (hless : total.toNat < v.blocks.total.toNat)
    (hsafe : ¬ v.EndangersCut t.image total) :
    (cutTo current total v).Ensures Failures.none
      (fun t' => ∃ x : Vault, x.Intact t'.image streams) t fun _ t' =>
        ∃ x : Vault, x.Intact t'.image streams := by
  unfold cutTo cutBlocks
  rw [Action.ensures_bind, Action.ensures_vault, Action.ensures_bind]
  cases hcut : v.blocks.shrink total with
  | error err => exact ⟨v, h⟩
  | ok cut =>
    obtain ⟨halike, hheld, haddress, hroom⟩ := h.cut hleast hless hcut
    show Script.Ensures _ _ (((recommit.onError (withBlocks current) >>= _) : Action Unit)
      { v with blocks := cut }) t _
    rw [Action.ensures_bind, Action.ensures_onError]
    refine (recommit_intact h halike hheld haddress hroom
      (fun hdraw => hsafe ⟨cut, hcut, Or.inl hdraw⟩)
      fun hless => hsafe ⟨cut, hcut, Or.inr hless⟩).mono ?_
    intro outcome t' hdone
    obtain ⟨result, x⟩ := outcome
    cases result with
    | error err => exact ⟨v, hdone.1⟩
    | ok u =>
      obtain ⟨hintact, hadvanced⟩ := hdone
      intro result image hsets
      cases hsets with
      | failed hnever => exact absurd hnever id
      | whole =>
        -- the image is cut to what its record says
        obtain ⟨hundecided, _⟩ := undecided_of_imageBytes (F := Failures.none) True
          hintact.live.sound hintact.live.addressable hintact.live.region hadvanced
        exact ⟨⟨x, hintact.undecided hundecided⟩, x, hintact.undecided hundecided⟩

theorem cutBlocks_eq {cut : BlockMap} (hcut : v.blocks.shrink total = .ok cut) :
    cutBlocks total v = .done (.ok (), { v with blocks := cut }) := by
  unfold cutBlocks
  show (Action.require (v.blocks.shrink total) >>= _ : Action Unit) v = _
  rw [hcut]
  rfl

/-- **If the commit of a cut endangers the image, it is truncated after some call
of the cut.** -/
theorem cutTo_truncates (current : UInt64) {image : Image} (h : v.Intact image streams)
    (hleast : leastBlocks.toNat ≤ total.toNat) (hless : total.toNat < v.blocks.total.toNat)
    (hdanger : v.EndangersCut image total) :
    ∃ y ∈ (cutTo current total v).states image, Truncated y := by
  obtain ⟨cut, hcut, hbad⟩ := hdanger
  obtain ⟨halike, hheld, haddress, hroom⟩ := h.cut hleast hless hcut
  obtain ⟨y, hy, htruncated⟩ := recommit_truncates h halike hheld haddress hroom hbad
  refine ⟨y, ?_, htruncated⟩
  unfold cutTo
  rw [Action.states_bind, cutBlocks_eq hcut]
  show y ∈ Script.states (((recommit.onError (withBlocks current) >>= _) : Action Unit)
    { v with blocks := cut }) image
  rw [Action.states_bind, Action.states_onError]
  exact List.mem_append_left _ hy

end Shrinks

end Vault

end StateVault
