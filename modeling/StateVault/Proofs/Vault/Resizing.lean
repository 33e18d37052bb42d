/-
  StateVault.Proofs.Vault.Resizing
  ────────────────────────────────
  **WHAT A RESIZE MAKES OF A VAULT, WITHOUT FAILURES.**

  On a medium that does not fail a resize goes one of nine ways (`Resizes`),
  three of which go through.  Two of these end with a commit of a longer or a
  cut map, and then the vault has the size that was asked for, unless the
  commit makes it larger.  The third does nothing, since the map has the size
  already; the superblock and the image may still have another one.  So it is
  known beforehand when a resize that goes through does not come to its size
  (`Misses`).

    • `resize_cases`      — the ways through a resize, read off its text,
    • `recommit_outcome`  — the commits on these ways,
    • `Resizes.hasSize_iff`, `resized_iff` — the size after a resize,
    • `resize_misses`     — a resize that goes through and does nothing.
-/
import StateVault.Proofs.Vault.Agreement
import StateVault.Proofs.Vault.Endangered
import StateVault.Proofs.Vault.Sizes

namespace StateVault.Vault

variable {v w x : Vault} {image image' : Image} {total : UInt64} {result : Except Error Unit}

/-! ## §1. The ways through a resize. -/

/-- Get the directory out of the way of a smaller size. -/
def makeWay (total : UInt64) : Action Unit := do
  let v ← Action.vault
  if total < v.superblock.directory.stop then recommit else return ()

/-- A shrink in three parts: check, make way, cut. -/
theorem shrinkTo_eq_makeWay (current total : UInt64) :
    shrinkTo current total = (do
      let v ← Action.vault
      Action.require (checkStreams v.directory total)
      makeWay total
      cutTo current total) := by
  rw [shrinkTo_eq]
  funext v
  show ((Action.require (checkStreams v.directory total) >>= _ : Action Unit)) v
    = ((Action.require (checkStreams v.directory total) >>= _ : Action Unit)) v
  cases checkStreams v.directory total with
  | error e => rfl
  | ok u =>
    show (((if total < v.superblock.directory.stop then _ else _) : Action Unit)) v
      = ((((if total < v.superblock.directory.stop then recommit else return ()) >>= fun _ =>
          cutTo current total) : Action Unit)) v
    -- the rest of the shrink stands in both branches, and here after them
    by_cases hway : total < v.superblock.directory.stop
    · rw [if_pos hway, if_pos hway]
    · rw [if_neg hway, if_neg hway]
      rfl

theorem makeWay_run (hway : ¬ total < v.superblock.directory.stop) (image : Image) :
    (makeWay total v).run image = ((.ok (), v), image) := by
  show Script.run (((if total < v.superblock.directory.stop then recommit else return ()) :
    Action Unit) v) image = _
  rw [if_neg hway]
  rfl

/-- A directory in the way of the new size is committed again. -/
theorem makeWay_eq_recommit (hway : total < v.superblock.directory.stop) :
    makeWay total v = recommit v := by
  show ((if total < v.superblock.directory.stop then recommit else return ()) : Action Unit) v = _
  rw [if_pos hway]

/-- A smaller size, and no stream in the way of it. -/
structure Shrinks (v : Vault) (total : UInt64) : Prop where
  least : leastBlocks ≤ total
  less : total < v.blocks.total
  check : checkStreams v.directory total = .ok ()

/-- What a resize can come to on an image: the result, the vault and the image
after it, in each of the ways through its source. -/
inductive Resizes (v : Vault) (image : Image) (total : UInt64) :
    Except Error Unit → Vault → Image → Prop where
  | tooSmall (hsmall : total < leastBlocks) :
      Resizes v image total (.error (.settings (.sizeTooSmall total))) v image
  | nothing (hsame : total = v.blocks.total) : Resizes v image total (.ok ()) v image
  | overflows (hmore : v.blocks.total < total)
      (hbytes : Word.mul? total v.blockSize.toUInt64 = none) :
      Resizes v image total (.error (.settings (.sizeOverflows total))) v image
  | lengthened (hmore : v.blocks.total < total) {bytes : UInt64}
      (hbytes : Word.mul? total v.blockSize.toUInt64 = some bytes)
      {result : Except Error Unit} {w : Vault} {image' : Image}
      (hcommit : (recommit (withBlocks total v)).run (Bytes.resized image bytes.toNat)
        = ((result, w), image')) : Resizes v image total result w image'
  | inTheWay (hless : total < v.blocks.total) {e : Error}
      (hcheck : checkStreams v.directory total = .error e) :
      Resizes v image total (.error e) v image
  | notMoved (hshrinks : v.Shrinks total)
      {e : Error} {w : Vault} {image' : Image}
      (hway : (makeWay total v).run image = ((.error e, w), image')) :
      Resizes v image total (.error e) w image'
  | notCut (hshrinks : v.Shrinks total)
      {w : Vault} {image' : Image} (hway : (makeWay total v).run image = ((.ok (), w), image'))
      {e : Error} (hcut : w.blocks.shrink total = .error e) :
      Resizes v image total (.error e) w image'
  | cutBack (hshrinks : v.Shrinks total)
      {w : Vault} {image₁ : Image} (hway : (makeWay total v).run image = ((.ok (), w), image₁))
      {cut : BlockMap} (hcut : w.blocks.shrink total = .ok cut) {e : Error} {x : Vault}
      {image' : Image} (hcommit : (recommit { w with blocks := cut }).run image₁
        = ((.error e, x), image')) :
      Resizes v image total (.error e) (withBlocks v.blocks.total x) image'
  | cut (hshrinks : v.Shrinks total)
      {w : Vault} {image₁ : Image} (hway : (makeWay total v).run image = ((.ok (), w), image₁))
      {cut : BlockMap} (hcut : w.blocks.shrink total = .ok cut) {x : Vault} {image' : Image}
      (hcommit : (recommit { w with blocks := cut }).run image₁ = ((.ok (), x), image')) :
      Resizes v image total (.ok ()) x (Bytes.resized image' x.superblock.imageBytes.toNat)

theorem lengthen_run (total : UInt64) (v : Vault) (image : Image) :
    (lengthen total v).run image = match Word.mul? total v.blockSize.toUInt64 with
      | none => ((.error (.settings (.sizeOverflows total)), v), image)
      | some bytes => ((.ok (), withBlocks total v), Bytes.resized image bytes.toNat) := by
  show Script.run ((match Word.mul? total v.blockSize.toUInt64 with
    | none => _ | some bytes => _ : Action Unit) v) image = _
  cases Word.mul? total v.blockSize.toUInt64 with
  | none => rfl
  | some bytes => rfl

theorem cutTo_run {cut : BlockMap} (current : UInt64) (hcut : v.blocks.shrink total = .ok cut)
    (image : Image) :
    (cutTo current total v).run image
      = match (recommit { v with blocks := cut }).run image with
        | ((.ok (), x), image') =>
            ((.ok (), x), Bytes.resized image' x.superblock.imageBytes.toNat)
        | ((.error e, x), image') => ((.error e, withBlocks current x), image') := by
  unfold cutTo
  rw [Action.run_bind, cutBlocks_eq hcut]
  show Script.run ((recommit.onError (withBlocks current) >>= _ : Action Unit) _) image = _
  rw [Action.run_bind, Action.run_onError]
  cases (recommit { v with blocks := cut }).run image with
  | mk outcome image' =>
    obtain ⟨result, x⟩ := outcome
    cases result with
    | ok u => rfl
    | error e => rfl

/-- A cut through blocks in use is refused, and nothing is done. -/
theorem cutTo_of_inUse {e : Error} (current : UInt64) (hcut : v.blocks.shrink total = .error e) :
    cutTo current total v = .done (.error e, v) := by
  have hcutBlocks : cutBlocks total v = .done (.error e, v) := by
    show (Action.require (v.blocks.shrink total) >>= _ : Action Unit) v = _
    rw [hcut]
    rfl
  show Script.bind (cutBlocks total v) _ = _
  rw [hcutBlocks]
  rfl

/-- A shrink goes one of the ways through a resize. -/
theorem shrinkTo_cases (hleast : leastBlocks ≤ total) (hless : total < v.blocks.total)
    (hrun : (shrinkTo v.blocks.total total v).run image = ((result, w), image')) :
    v.Resizes image total result w image' := by
  rw [shrinkTo_eq_makeWay] at hrun
  change Script.run ((Action.require (checkStreams v.directory total) >>= _ : Action Unit) v)
    image = _ at hrun
  cases hcheck : checkStreams v.directory total with
  | error e =>
    rw [hcheck] at hrun
    cases hrun
    -- a stream lies in the way, and nothing has changed yet
    exact .inTheWay hless hcheck
  | ok u =>
    have hshrinks : v.Shrinks total := ⟨hleast, hless, hcheck⟩
    rw [hcheck] at hrun
    change Script.run ((makeWay total >>= fun _ => cutTo v.blocks.total total : Action Unit) v)
      image = _ at hrun
    rw [Action.run_bind] at hrun
    split at hrun
    next w' image₁ hway =>
      -- then the cut may be refused, or its commit, or neither
      cases hcut : w'.blocks.shrink total with
      | error e =>
        rw [cutTo_of_inUse v.blocks.total hcut] at hrun
        cases hrun
        exact .notCut hshrinks hway hcut
      | ok cut =>
        rw [cutTo_run v.blocks.total hcut] at hrun
        split at hrun
        next x image₂ hcommit =>
          cases hrun
          exact .cut hshrinks hway hcut hcommit
        next e x image₂ hcommit =>
          cases hrun
          exact .cutBack hshrinks hway hcut hcommit
    next e w' image₁ hway =>
      cases hrun
      exact .notMoved hshrinks hway

/-- **Every run of a resize** goes one of these ways. -/
theorem resize_cases (hrun : (resize total v).run image = ((result, w), image')) :
    v.Resizes image total result w image' := by
  unfold resize at hrun
  by_cases hsmall : total < leastBlocks
  · rw [if_pos hsmall] at hrun
    cases hrun
    exact .tooSmall hsmall
  rw [if_neg hsmall] at hrun
  change Script.run ((if total = v.blocks.total then _ else _ : Action Unit) v) image = _ at hrun
  by_cases hsame : total = v.blocks.total
  · rw [if_pos hsame] at hrun
    cases hrun
    exact .nothing hsame
  rw [if_neg hsame] at hrun
  by_cases hmore : v.blocks.total < total
  · rw [if_pos hmore, Action.run_bind, lengthen_run] at hrun
    cases hbytes : Word.mul? total v.blockSize.toUInt64 with
    | none =>
      rw [hbytes] at hrun
      cases hrun
      exact .overflows hmore hbytes
    | some bytes =>
      rw [hbytes] at hrun
      exact .lengthened hmore hbytes hrun
  · rw [if_neg hmore] at hrun
    -- neither as large nor larger: the size is a smaller one
    refine shrinkTo_cases (UInt64.not_lt.mp hsmall) ?_ hrun
    rw [UInt64.lt_iff_toNat_lt] at hmore ⊢
    have hne : total.toNat ≠ v.blocks.total.toNat := fun heq => hsame (UInt64.toNat_inj.mp heq)
    omega

/-! ## §2. The commits of a resize. -/

/-- What is known of a commit of the directory as it is, after its run. -/
theorem recommit_outcome {others : List Extent} (hheld : v.Held others)
    (hvalid : v.directory.Valid v.superblock.blockSize)
    (hrun : (recommit v).run image = ((result, w), image')) :
    Scaled v.Outgrows v image w image' ∧ v.Committed v.directory others (result, w) := by
  obtain ⟨_, _, hscaled⟩ := (recommit_scaled hvalid ⟨image, 0⟩).on_medium image_obeys
  have hcommitted := (recommit_yields hheld).run image
  rw [hrun] at hscaled hcommitted
  exact ⟨hscaled, hcommitted⟩

/-- The vault that is to be cut: as it was, or after one commit. -/
theorem makeWay_cases (hs : v.Sound)
    (hrun : (makeWay total v).run image = ((.ok (), w), image')) :
    w = v ∨ v.Advanced v.directory w ∧ w.Held (streamExtents v.directory) := by
  by_cases hway : total < v.superblock.directory.stop
  · rw [makeWay_eq_recommit hway] at hrun
    obtain ⟨_, hcommitted⟩ := recommit_outcome hs.held hs.valid hrun
    exact Or.inr hcommitted
  · rw [makeWay_run hway] at hrun
    cases hrun
    exact Or.inl rfl

/-- The vault with its map cut can be committed. -/
theorem cut_spec (hs : v.Sound) (hshrinks : v.Shrinks total)
    (hway : (makeWay total v).run image = ((.ok (), w), image')) {cut : BlockMap}
    (hcut : w.blocks.shrink total = .ok cut) :
    ({ w with blocks := cut } : Vault).Held (streamExtents v.directory) ∧ cut.total = total
      ∧ w.directory.Valid w.superblock.blockSize := by
  have hleast := UInt64.le_iff_toNat_le.mp hshrinks.least
  have hless := UInt64.lt_iff_toNat_lt.mp hshrinks.less
  rcases makeWay_cases hs hway with rfl | ⟨hadvanced, hheld⟩
  · obtain ⟨hheld, htotal⟩ := hs.held.cut hleast hless hcut
    exact ⟨hheld, htotal, hs.valid⟩
  · obtain ⟨hheld, htotal⟩ := hheld.cut hleast (Nat.lt_of_lt_of_le hless hadvanced.grown) hcut
    refine ⟨hheld, htotal, ?_⟩
    rw [hadvanced.directory, hadvanced.blockSize]
    exact hs.valid

/-! ## §3. A resize that goes through. -/

/-- The vault has this size, in its map, in its superblock and in its image;
and so has one that is opened from the image. -/
structure HasSize (total : UInt64) (v : Vault) (image : Image) : Prop where
  superblock : v.superblock.totalBlocks = total
  map : v.blocks.total = total
  length : image.size = total.toNat * v.width
  opened : ∀ settings, Acceptable settings → ∃ w image',
    (close.andThen fun _ => mount settings).run image = (.ok w, image')
      ∧ w.stats.totalBlocks = total

/-- A resize that may go through and does not come to the size: the map has it
already, but not the superblock or the image; or the vault grows beyond it in
the commit that is to record it. -/
inductive Misses (v : Vault) (image : Image) (total : UInt64) : Prop where
  | stale (hsame : total = v.blocks.total)
      (hstale : ¬ (v.superblock.totalBlocks = total ∧ image.size = total.toNat * v.width))
  | outgrown (hmore : v.blocks.total < total) (hgrows : (withBlocks total v).Outgrows)
  | regrown (hless : total < v.blocks.total) {w : Vault} {image' : Image} {cut : BlockMap}
      (hway : (makeWay total v).run image = ((.ok (), w), image'))
      (hcut : w.blocks.shrink total = .ok cut)
      (hgrows : ({ w with blocks := cut } : Vault).Outgrows)

theorem misses_of_same (hsame : total = v.blocks.total) : v.Misses image total
    ↔ ¬ (v.superblock.totalBlocks = total ∧ image.size = total.toNat * v.width) := by
  constructor
  · intro hmisses
    cases hmisses with
    | stale _ hstale => exact hstale
    | outgrown hmore => exact absurd (hsame ▸ hmore) (UInt64.lt_irrefl _)
    | regrown hless => exact absurd (hsame ▸ hless) (UInt64.lt_irrefl _)
  · exact .stale hsame

/-- A larger size is missed if its commit grows the vault. -/
theorem misses_of_more (hmore : v.blocks.total < total) :
    v.Misses image total ↔ (withBlocks total v).Outgrows := by
  constructor
  · intro hmisses
    cases hmisses with
    | stale hsame => exact absurd (hsame ▸ hmore) (UInt64.lt_irrefl _)
    | outgrown _ hgrows => exact hgrows
    | regrown hless => exact absurd hless (UInt64.lt_asymm hmore)
  · exact .outgrown hmore

/-- A smaller size is missed if its commit grows the vault with its map cut. -/
theorem misses_of_less (hless : total < v.blocks.total)
    (hway : (makeWay total v).run image = ((.ok (), w), image')) {cut : BlockMap}
    (hcut : w.blocks.shrink total = .ok cut) :
    v.Misses image total ↔ ({ w with blocks := cut } : Vault).Outgrows := by
  constructor
  · intro hmisses
    cases hmisses with
    | stale hsame => exact absurd (hsame ▸ hless) (UInt64.lt_irrefl _)
    | outgrown hmore => exact absurd hmore (UInt64.lt_asymm hless)
    | regrown _ hway' hcut' hgrows =>
      -- a run has one end, so this is the vault that was cut
      rw [hway] at hway'
      cases hway'
      rw [hcut] at hcut'
      cases hcut'
      exact hgrows
  · exact .regrown hless hway hcut

/-- Opened again, the vault has the size that is in its superblock. -/
theorem opens_with (hlive : v.Live image) (hrecorded : v.Recorded image)
    (hcovers : v.Covers image) {settings : Settings} (hsettings : Acceptable settings) :
    ∃ w image', (close.andThen fun _ => mount settings).run image = (.ok w, image')
      ∧ w.stats.totalBlocks = v.superblock.totalBlocks := by
  obtain ⟨_, _, _, hreopened⟩ := (reopen_of_attested (t := ⟨image, 0⟩) hlive.sound
    (hrecorded.attested hlive.sound hlive.addressable) hcovers hlive.addressable
    settings).on_medium image_obeys
  cases hrun : (close.andThen fun _ => mount settings).run image with
  | mk result image' =>
    rw [hrun] at hreopened
    cases result with
    | error e => exact absurd hsettings hreopened
    | ok w =>
      have hreopened : v.Reopened settings w := hreopened
      exact ⟨w, image', rfl, hreopened.total⟩

/-- A recorded vault of the size has it when it is opened, too. -/
theorem hasSize_of_equal (hlive : v.Live image) (hrecorded : v.Recorded image)
    (hsuperblock : v.superblock.totalBlocks = total) (hmap : v.blocks.total = total)
    (hlength : image.size = total.toNat * v.width) : HasSize total v image where
  superblock := hsuperblock
  map := hmap
  length := hlength
  opened settings hsettings := by
    have hcovers : v.Covers image := Nat.le_of_eq (by rw [hsuperblock, hlength])
    obtain ⟨w, image', hrun, htotal⟩ := opens_with hlive hrecorded hcovers hsettings
    exact ⟨w, image', hrun, htotal.trans hsuperblock⟩

/-- What a commit leaves of the size that its map had. -/
theorem hasSize_of_committed {u : Vault} {d : Directory} {image₁ image₂ : Image}
    (hadvanced : u.Advanced d w) (hscaled : Scaled u.Outgrows u image₁ w image₂)
    (htotal : u.blocks.total = total) (hlive : w.Live image') (hrecorded : w.Recorded image')
    (hlength : w.superblock.totalBlocks = total → image₂.size = image₁.size
      → image'.size = total.toNat * w.width) :
    HasSize total w image' ↔ ¬ u.Outgrows := by
  constructor
  · intro hsize hgrows
    have hmore := (hscaled.larger hgrows).1
    rw [htotal, hsize.map] at hmore
    exact Nat.lt_irrefl _ hmore
  · intro hstays
    obtain ⟨hmap, hsame⟩ := hscaled.same hstays
    rw [htotal] at hmap
    have hsuperblock := hadvanced.total.trans hmap
    exact hasSize_of_equal hlive hrecorded hsuperblock hmap (hlength hsuperblock hsame)

theorem withBlocks_sound (hs : v.Sound) {bytes : UInt64}
    (hbytes : Word.mul? total v.blockSize.toUInt64 = some bytes) :
    (withBlocks total v).Sound := by
  have hyields := (lengthen_yields hs total).run ByteArray.empty
  rw [lengthen_run, hbytes] at hyields
  exact hyields.1

/-- The result of a resize, and the handle after it. -/
theorem perform_resize {h : Handle Image}
    (hrun : (resize total h.vault).run h.medium = ((result, w), image)) :
    (h.perform (.resize total)).2 = ⟨w, image⟩ := by
  have hperform : ((Request.resize total).action h.vault).run h.medium
      = ((result.map fun _ => .done, w), image) := by
    show Script.run ((resize total >>= _ : Action Answer) h.vault) h.medium = _
    rw [Action.run_bind, hrun]
    cases result with
    | ok u => rfl
    | error e => rfl
  unfold Handle.perform
  rw [hperform]

/-- **A resize that goes through comes to the size**, exactly if it does not
miss it. -/
theorem Resizes.hasSize_iff (h : v.Resizes image total (.ok ()) w image') (hs : v.Sound)
    (hlive : w.Live image') (hrecorded : w.Recorded image') :
    HasSize total w image' ↔ ¬ v.Misses image total := by
  cases h with
  | nothing hsame =>
    rw [misses_of_same hsame, Decidable.not_not]
    exact ⟨fun hsize => ⟨hsize.superblock, hsize.length⟩, fun hequal =>
      hasSize_of_equal hlive hrecorded hequal.1 hsame.symm hequal.2⟩
  | lengthened hmore hbytes hcommit =>
    have hs' := withBlocks_sound hs hbytes
    obtain ⟨hscaled, hadvanced, _⟩ := recommit_outcome hs'.held hs'.valid hcommit
    rw [misses_of_more hmore]
    refine hasSize_of_committed hadvanced hscaled (BlockMap.total_extend hmore) hlive hrecorded
      fun _ hsame => ?_
    have hwidth : w.width = v.width := congrArg UInt32.toNat hadvanced.blockSize
    rw [hsame, Bytes.size_resized, (Word.toNat_of_mul? hbytes).1, hwidth,
      UInt32.toNat_toUInt64]
    rfl
  | cut hshrinks hway hcut hcommit =>
    obtain ⟨hheld, htotal, hvalid⟩ := cut_spec hs hshrinks hway hcut
    obtain ⟨hscaled, hadvanced, _⟩ := recommit_outcome hheld hvalid hcommit
    rw [misses_of_less hshrinks.less hway hcut]
    refine hasSize_of_committed hadvanced hscaled htotal hlive hrecorded fun hsuperblock _ => ?_
    -- the image was cut to the bytes of the superblock
    rw [Bytes.size_resized, imageBytes_of_addressable hlive.sound hlive.addressable, hsuperblock]

/-- **A resize that goes through comes to the size**, after any run without
failures, exactly if it does not miss it. -/
theorem resized_iff {h : Handle Image} (hr : h.Faultless)
    (hrun : (resize total h.vault).run h.medium = ((.ok (), w), image)) :
    HasSize total w image ↔ ¬ h.vault.Misses h.medium total := by
  have hafter := (hr.performed (.resize total)).recorded
  rw [perform_resize hrun] at hafter
  exact (resize_cases hrun).hasSize_iff hr.recorded.1.sound hafter.1 hafter.2

/-! ## §4. A size that is come to, and one that is missed. -/

/-- A resize after some requests, with the lengths of the images alone. -/
def blindResize (settings : Settings) (rs : List Request) (total : UInt64) :
    Option ((List (Except Error Answer) × Handle Outline)
      × (Except Error Unit × Vault) × Outline) :=
  (blindReplay settings rs (Outline.ofImage ByteArray.empty)).bind fun x =>
    ((resize total x.2.vault).blind x.2.medium).map fun y => (x, y)

theorem resize_of_blind {settings : Settings} {rs : List Request}
    {results : List (Except Error Answer)} {o : Handle Outline} {o' : Outline}
    (hblind : blindResize settings rs total = some ((results, o), (result, w), o')) :
    ∃ h image, replay settings rs ByteArray.empty = some (results, h)
      ∧ h.vault = o.vault ∧ h.medium.size = o.medium.length
      ∧ (resize total h.vault).run h.medium = ((result, w), image) ∧ image.size = o'.length := by
  obtain ⟨h, image, hreplay, rfl, hrun, hsize⟩ := then_of_blind outline_view hblind
  exact ⟨h, image, hreplay, rfl, rfl, hrun, congrArg Outline.length hsize⟩

/-- A new vault of eight blocks becomes one of sixteen. -/
theorem resized_to_sixteen :
    ∃ (h : Handle Image) (w : Vault) (image : Image),
      (format eightBlocks).run ByteArray.empty = (.ok h.vault, h.medium)
        ∧ (resize 16 h.vault).run h.medium = ((.ok (), w), image) ∧ HasSize 16 w image := by
  have hruns : (blindResize eightBlocks [] 16).map (fun x =>
      (x.1.1.length, x.1.2.vault.blocks.total, x.1.2.vault.settings.autoGrow, x.2.1.1.isOk))
      = some (0, 8, false, true) := by decide +kernel
  obtain ⟨⟨⟨results, o⟩, ⟨result, w⟩, o'⟩, hblind, hfacts⟩ := Option.map_eq_some_iff.mp hruns
  simp only [Prod.mk.injEq, List.length_eq_zero_iff] at hfacts
  obtain ⟨rfl, htotal, hgrow, hok⟩ := hfacts
  obtain ⟨h, image, hreplay, hvault, _, hrun, _⟩ := resize_of_blind hblind
  cases result with
  | error e => cases hok
  | ok u =>
    rw [← hvault] at htotal hgrow
    refine ⟨h, w, image, format_of_replay hreplay, hrun,
      (resized_iff (faultless_of_replay hreplay) hrun).mpr fun hmisses => ?_⟩
    -- the map does not have the size yet, the vault does not grow, and sixteen are not
    -- fewer
    cases hmisses with
    | stale hsame => exact absurd (hsame.trans htotal) (by decide)
    | outgrown _ hgrows =>
      have hmay : (h.vault.settings.autoGrow && _) = true := hgrows.2.mayGrow
      rw [hgrow] at hmay
      cases hmay
    | regrown hless =>
      rw [htotal] at hless
      exact absurd hless (by decide)

/-- Three blocks, and one more if there is need of it. -/
def threeBlocks : Settings :=
  { blockSize := 512, initialBlocks := 3, autoGrow := true, maxBlocks := 4 }

theorem acceptable_threeBlocks : Acceptable threeBlocks := fun _ => rfl

/-- A write takes the fourth block for its bytes, finds none for the directory
and fails.  The map and the image keep the block.  So a resize to four blocks
has nothing to do, and the superblock still says three. -/
theorem resize_misses :
    ∃ results h, replay threeBlocks [.write "a" (.one 1)] ByteArray.empty = some (results, h)
      ∧ h.Faultless ∧ ∃ w image, (resize 4 h.vault).run h.medium = ((.ok (), w), image)
        ∧ w.blocks.total = 4 ∧ image.size = 4 * w.width ∧ w.superblock.totalBlocks = 3
        ∧ ∃ x image', (close.andThen fun _ => mount threeBlocks).run image = (.ok x, image')
          ∧ x.stats.totalBlocks = 3 := by
  have hruns : (blindResize threeBlocks [.write "a" (.one 1)] 4).map (fun x =>
      (x.2.1.1.isOk, x.2.1.2.blocks.total, x.2.1.2.superblock.totalBlocks, x.2.1.2.width,
        x.2.2.length)) = some (true, 4, 3, 512, 2048) := by decide +kernel
  obtain ⟨⟨⟨results, o⟩, ⟨result, w⟩, o'⟩, hblind, hfacts⟩ := Option.map_eq_some_iff.mp hruns
  simp only [Prod.mk.injEq] at hfacts
  obtain ⟨hok, hmap, hsuperblock, hwidth, hlength⟩ := hfacts
  obtain ⟨h, image, hreplay, _, _, hrun, hsize⟩ := resize_of_blind hblind
  cases result with
  | error e => cases hok
  | ok u =>
    have hfaultless := faultless_of_replay hreplay
    have hafter := (hfaultless.performed (.resize 4)).recorded
    rw [perform_resize hrun] at hafter
    -- the image was lengthened, so it covers the three blocks that are recorded
    have hcovers : w.Covers image := by
      unfold Covers
      rw [hsuperblock, hwidth, hsize, hlength]
      decide
    obtain ⟨x, image', hopens, htotal⟩ := opens_with hafter.1 hafter.2 hcovers
      acceptable_threeBlocks
    exact ⟨results, h, hreplay, hfaultless, w, image, hrun, hmap,
      by rw [hsize, hlength, hwidth], hsuperblock, x, image', hopens, htotal.trans hsuperblock⟩

end StateVault.Vault
