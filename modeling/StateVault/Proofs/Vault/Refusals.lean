/-
  StateVault.Proofs.Vault.Refusals
  ────────────────────────────────
  **WHAT A REFUSED RESIZE LEAVES BEHIND.**

  A resize can be refused on a medium that does not fail: for its size, for
  what is in the way, or for want of room for the directory.  Then vault and
  image are as before, unless a part of the resize has gone through and is not
  undone: the map and the image are longer, or the directory is elsewhere
  (`Disturbs`).

    • `unchanged_of_sizes`    — superblock and sizes determine the rest,
    • `Resizes.unchanged_iff` — the ways through a resize, one by one,
    • `refused_iff`           — the same after any run of requests,
    • `refusal_keeps_growth`  — a refused growth, which is not undone.
-/
import StateVault.Proofs.Vault.Resizing

namespace StateVault.Vault

variable {v w x : Vault} {image image' : Image} {total : UInt64} {e : Error}

/-! ## §1. Nothing changed, and what may change. -/

/-- Vault and image are as they were: the superblock, which is in the same
slot, the streams, the blocks in use and their number, and all sizes. -/
structure Unchanged (v : Vault) (image : Image) (w : Vault) (image' : Image) : Prop where
  alike : v.Alike w
  total : w.blocks.total = v.blocks.total
  free : w.blocks.free = v.blocks.free
  inUse : ∀ block, w.blocks.isUsed block = v.blocks.isUsed block
  length : image'.size = image.size

/-- A resize some part of which goes through and stays, if another one is
refused. -/
inductive Disturbs (v : Vault) (image : Image) (total : UInt64) : Prop where
  /-- The map and the image are lengthened for a size that has an address. -/
  | lengthened (hmore : v.blocks.total < total) {bytes : UInt64}
      (hbytes : Word.mul? total v.blockSize.toUInt64 = some bytes)
  /-- The commit that is to get the directory out of the way grows the vault. -/
  | outgrown (hshrinks : v.Shrinks total) (hway : total < v.superblock.directory.stop)
      (hgrows : v.Outgrows)
  /-- That commit goes through. -/
  | moved (hshrinks : v.Shrinks total) (hway : total < v.superblock.directory.stop)
      {w : Vault} {image' : Image} (hcommit : (recommit v).run image = ((.ok (), w), image'))
  /-- The commit of the cut vault grows it, and not back to what there was. -/
  | regrown (hshrinks : v.Shrinks total) (hway : ¬ total < v.superblock.directory.stop)
      {cut : BlockMap} (hcut : v.blocks.shrink total = .ok cut) {e : Error} {x : Vault}
      {image' : Image}
      (hcommit : (recommit { v with blocks := cut }).run image = ((.error e, x), image'))
      (hgrows : ({ v with blocks := cut } : Vault).Outgrows)
      (hsizes : ¬ (x.blocks.total ≤ v.blocks.total
        ∧ image.size = x.blocks.total.toNat * v.width))

theorem Unchanged.refl (v : Vault) (image : Image) : v.Unchanged image v image :=
  ⟨Alike.refl v, rfl, rfl, fun _ => rfl, rfl⟩

/-- The blocks in use are those of the superblock and of the directory, so two
maps have the same ones and differ in the number of free blocks. -/
theorem inUse_of_alike (hs : v.Sound) (hs' : w.Sound) (halike : v.Alike w) :
    (∀ block, w.blocks.isUsed block = v.blocks.isUsed block)
      ∧ w.blocks.free.toNat + v.blocks.total.toNat
        = v.blocks.free.toNat + w.blocks.total.toNat := by
  have howns := hs'.held.owns
  rw [halike.superblock, halike.directory] at howns
  have hcount := hs.held.owns.count
  have hcount' := howns.count
  exact ⟨fun block => howns.isUsed_eq hs.held.owns block, by omega⟩

/-- Where the sizes stay, the whole vault does: used blocks and free count follow
from its extents. -/
theorem unchanged_of_sizes (hs : v.Sound) (hs' : w.Sound) (halike : v.Alike w)
    (htotal : w.blocks.total = v.blocks.total) (hsize : image'.size = image.size) :
    v.Unchanged image w image' := by
  obtain ⟨hused, hfree⟩ := inUse_of_alike hs hs' halike
  rw [htotal] at hfree
  exact ⟨halike, htotal, UInt64.toNat_inj.mp (by omega), hused, hsize⟩

/-- Only a size that has an address, or one that no stream is in the way of,
disturbs anything. -/
theorem Disturbs.lengthens_or_shrinks (h : v.Disturbs image total) :
    (v.blocks.total < total ∧ Word.mul? total v.blockSize.toUInt64 ≠ none)
      ∨ v.Shrinks total := by
  cases h with
  | lengthened hmore hbytes =>
    refine Or.inl ⟨hmore, fun hnone => ?_⟩
    rw [hbytes] at hnone
    cases hnone
  | outgrown hshrinks | moved hshrinks | regrown hshrinks => exact Or.inr hshrinks

/-- With the directory not in the way, what is left of a shrink is left by the
commit of the cut vault. -/
theorem Disturbs.of_clear (h : v.Disturbs image total) (hless : total < v.blocks.total)
    (hway : ¬ total < v.superblock.directory.stop) :
    ∃ cut, v.blocks.shrink total = .ok cut ∧ ∃ e x image',
      (recommit { v with blocks := cut }).run image = ((.error e, x), image')
        ∧ ({ v with blocks := cut } : Vault).Outgrows
        ∧ ¬ (x.blocks.total ≤ v.blocks.total
          ∧ image.size = x.blocks.total.toNat * v.width) := by
  cases h with
  | lengthened hmore => exact absurd hmore (UInt64.lt_asymm hless)
  | outgrown _ hin => exact absurd hin hway
  | moved _ hin => exact absurd hin hway
  | regrown _ _ hcut hcommit hgrows hsizes => exact ⟨_, hcut, _, _, _, hcommit, hgrows, hsizes⟩

/-! ## §2. The ways through a resize. -/

/-- A growth was refused in its commit. -/
theorem not_unchanged_of_lengthened (hs : v.Sound) (hmore : v.blocks.total < total)
    {bytes : UInt64} (hbytes : Word.mul? total v.blockSize.toUInt64 = some bytes)
    {image₁ : Image}
    (hrun : (recommit (withBlocks total v)).run image₁ = ((.error e, w), image')) :
    ¬ v.Unchanged image w image' := by
  intro hunchanged
  have hs' := withBlocks_sound hs hbytes
  obtain ⟨_, hkeeps, _⟩ := recommit_outcome hs'.held hs'.valid hrun
  have htotal : (withBlocks total v).blocks.total = total := BlockMap.total_extend hmore
  have hgrown := hkeeps.total
  rw [htotal, hunchanged.total] at hgrown
  rw [UInt64.lt_iff_toNat_lt] at hmore
  omega

/-- The commit that is to move the directory was refused. -/
theorem unchanged_of_notMoved (hs : v.Sound) (hs' : w.Sound) (hshrinks : v.Shrinks total)
    (hway : total < v.superblock.directory.stop)
    (hrun : (recommit v).run image = ((.error e, w), image')) :
    v.Unchanged image w image' ↔ ¬ v.Disturbs image total := by
  obtain ⟨hscaled, hkeeps, _⟩ := recommit_outcome hs.held hs.valid hrun
  constructor
  · intro hunchanged hdisturbs
    -- of the ways to be disturbed only growth is left in a commit that failed
    cases hdisturbs with
    | lengthened hmore => exact UInt64.lt_asymm hmore hshrinks.less
    | outgrown _ _ hgrows =>
      have hmore := (hscaled.larger hgrows).1
      rw [hunchanged.total] at hmore
      exact Nat.lt_irrefl _ hmore
    | moved _ _ hcommit =>
      rw [hrun] at hcommit
      cases hcommit
    | regrown _ hout => exact hout hway
  · intro hnot
    obtain ⟨htotal, hsize⟩ := hscaled.same fun hgrows => hnot (.outgrown hshrinks hway hgrows)
    exact unchanged_of_sizes hs hs' hkeeps.alike htotal hsize

/-- A commit went through, and a later step was refused: the generation is
another one. -/
theorem not_unchanged_of_moved (hs : v.Sound) {image₁ : Image}
    (hrun : (recommit v).run image = ((.ok (), w), image₁))
    (hsame : x.superblock = w.superblock) : ¬ v.Unchanged image x image' := by
  intro hunchanged
  obtain ⟨_, hadvanced, _⟩ := recommit_outcome hs.held hs.valid hrun
  have hnext := hadvanced.toNat_generation
  have hequal : w.superblock = v.superblock := hsame.symm.trans hunchanged.alike.superblock
  have hgeneration : w.generation = v.generation := congrArg Superblock.generation hequal
  rw [hgeneration] at hnext
  omega

/-- The cut vault could not be committed, and got its blocks back. -/
theorem unchanged_of_cutBack (hs : v.Sound) (hs' : (withBlocks v.blocks.total x).Sound)
    (hshrinks : v.Shrinks total) (hway : ¬ total < v.superblock.directory.stop)
    {cut : BlockMap} (hcut : v.blocks.shrink total = .ok cut)
    (hrun : (recommit { v with blocks := cut }).run image = ((.error e, x), image')) :
    v.Unchanged image (withBlocks v.blocks.total x) image' ↔ ¬ v.Disturbs image total := by
  obtain ⟨hheld, hcutTotal, hvalid⟩ := cut_spec hs hshrinks (makeWay_run hway image) hcut
  obtain ⟨hscaled, hkeeps, _⟩ := recommit_outcome hheld hvalid hrun
  have halike : v.Alike (withBlocks v.blocks.total x) :=
    ⟨hkeeps.superblock, hkeeps.slot, hkeeps.directory, hkeeps.settings⟩
  -- the blocks come back unless there are more of them
  have hback : (withBlocks v.blocks.total x).blocks.total = v.blocks.total
      ↔ x.blocks.total ≤ v.blocks.total := by
    have hmax := BlockMap.toNat_total_extend x.blocks v.blocks.total
    rw [UInt64.le_iff_toNat_le, ← UInt64.toNat_inj]
    show (x.blocks.extend v.blocks.total).total.toNat = _ ↔ _
    omega
  constructor
  · intro hunchanged hdisturbs
    -- the commit in question is the one that was run
    obtain ⟨_, hcut', _, _, _, hcommit, hgrows, hsizes⟩ :=
      hdisturbs.of_clear hshrinks.less hway
    rw [hcut] at hcut'
    cases hcut'
    rw [hrun] at hcommit
    cases hcommit
    exact hsizes ⟨hback.mp hunchanged.total,
      hunchanged.length.symm.trans (hscaled.larger hgrows).2⟩
  · intro hnot
    by_cases hgrows : ({ v with blocks := cut } : Vault).Outgrows
    · obtain ⟨hle, hsize⟩ := Decidable.not_not.mp fun hsizes =>
        hnot (.regrown hshrinks hway hcut hrun hgrows hsizes)
      exact unchanged_of_sizes hs hs' halike (hback.mpr hle)
        ((hscaled.larger hgrows).2.trans hsize.symm)
    · obtain ⟨htotal, hsize⟩ := hscaled.same hgrows
      have hless : x.blocks.total ≤ v.blocks.total := by
        have htotal : x.blocks.total = total := htotal.trans hcutTotal
        rw [htotal]
        exact UInt64.le_of_lt hshrinks.less
      exact unchanged_of_sizes hs hs' halike (hback.mpr hless) hsize

/-- **A resize that is refused changes nothing**, exactly if no part of it
stays. -/
theorem Resizes.unchanged_iff (h : v.Resizes image total (.error e) w image') (hs : v.Sound)
    (hs' : w.Sound) : v.Unchanged image w image' ↔ ¬ v.Disturbs image total := by
  cases h with
  | tooSmall hsmall =>
    refine iff_of_true (.refl v image) fun hdisturbs => ?_
    -- the vault itself has the least number of blocks
    have hleast := hs.held.least
    rw [UInt64.lt_iff_toNat_lt] at hsmall
    rcases hdisturbs.lengthens_or_shrinks with ⟨hmore, _⟩ | hshrinks
    · rw [UInt64.lt_iff_toNat_lt] at hmore
      omega
    · have hmost := UInt64.le_iff_toNat_le.mp hshrinks.least
      omega
  | overflows hmore hbytes =>
    refine iff_of_true (.refl v image) fun hdisturbs => ?_
    rcases hdisturbs.lengthens_or_shrinks with ⟨_, hsome⟩ | hshrinks
    · exact hsome hbytes
    · exact UInt64.lt_asymm hmore hshrinks.less
  | lengthened hmore hbytes hcommit =>
    exact iff_of_false (not_unchanged_of_lengthened hs hmore hbytes hcommit) fun hnot =>
      hnot (.lengthened hmore hbytes)
  | inTheWay hless hcheck =>
    refine iff_of_true (.refl v image) fun hdisturbs => ?_
    rcases hdisturbs.lengthens_or_shrinks with ⟨hmore, _⟩ | hshrinks
    · exact UInt64.lt_asymm hmore hless
    · have hclear := hshrinks.check
      rw [hcheck] at hclear
      cases hclear
  | notMoved hshrinks hmakes =>
    by_cases hway : total < v.superblock.directory.stop
    · rw [makeWay_eq_recommit hway] at hmakes
      exact unchanged_of_notMoved hs hs' hshrinks hway hmakes
    · rw [makeWay_run hway] at hmakes
      cases hmakes
  | notCut hshrinks hmakes hcut =>
    by_cases hway : total < v.superblock.directory.stop
    · rw [makeWay_eq_recommit hway] at hmakes
      exact iff_of_false (not_unchanged_of_moved hs hmakes rfl) fun hnot =>
        hnot (.moved hshrinks hway hmakes)
    · rw [makeWay_run hway] at hmakes
      cases hmakes
      refine iff_of_true (.refl v image) fun hdisturbs => ?_
      obtain ⟨_, hsome, _⟩ := hdisturbs.of_clear hshrinks.less hway
      rw [hcut] at hsome
      cases hsome
  | cutBack hshrinks hmakes hcut hcommit =>
    by_cases hway : total < v.superblock.directory.stop
    · -- the second commit was refused, and the first one stays
      obtain ⟨hheld, _, hvalid⟩ := cut_spec hs hshrinks hmakes hcut
      obtain ⟨_, hkeeps, _⟩ := recommit_outcome hheld hvalid hcommit
      rw [makeWay_eq_recommit hway] at hmakes
      exact iff_of_false (not_unchanged_of_moved hs hmakes hkeeps.superblock) fun hnot =>
        hnot (.moved hshrinks hway hmakes)
    · rw [makeWay_run hway] at hmakes
      cases hmakes
      exact unchanged_of_cutBack hs hs' hshrinks hway hcut hcommit

/-- **A resize that is refused changes nothing**, after any run of requests on
an image, however it was opened, exactly if no part of it stays. -/
theorem refused_iff {h : Handle Image} (hr : h.Reached)
    (hrun : (resize total h.vault).run h.medium = ((.error e, w), image)) :
    h.vault.Unchanged h.medium w image ↔ ¬ h.vault.Disturbs h.medium total := by
  have hafter := (hr.performed (.resize total)).sound
  rw [perform_resize hrun] at hafter
  exact (resize_cases hrun).unchanged_iff hr.sound hafter

/-! ## §3. A refusal that changes nothing, and one that keeps a part. -/

/-- The fourth block has a stream, so a new vault of eight blocks does not
become one of three. -/
theorem refusal_changes_nothing :
    ∃ results h, replay eightBlocks [.write "a" (.one 1)] ByteArray.empty = some (results, h)
      ∧ ∃ e w image, (resize 3 h.vault).run h.medium = ((.error e, w), image)
        ∧ h.vault.Unchanged h.medium w image := by
  have hruns : (blindResize eightBlocks [.write "a" (.one 1)] 3).map (fun x =>
      (x.1.2.vault.blocks.total, (checkStreams x.1.2.vault.directory 3).isOk, x.2.1.1.isOk))
      = some (8, false, false) := by decide +kernel
  obtain ⟨⟨⟨results, o⟩, ⟨result, w⟩, o'⟩, hblind, hfacts⟩ := Option.map_eq_some_iff.mp hruns
  simp only [Prod.mk.injEq] at hfacts
  obtain ⟨htotal, hcheck, hfails⟩ := hfacts
  obtain ⟨h, image, hreplay, hvault, _, hrun, _⟩ := resize_of_blind hblind
  rw [← hvault] at htotal hcheck
  cases result with
  | ok u => cases hfails
  | error e =>
    refine ⟨results, h, hreplay, e, w, image, hrun,
      (refused_iff (reached_of_replay hreplay) hrun).mpr fun hdisturbs => ?_⟩
    -- three blocks are fewer, and the stream is in the way of them
    rcases hdisturbs.lengthens_or_shrinks with ⟨hmore, _⟩ | hshrinks
    · rw [htotal] at hmore
      exact absurd hmore (by decide)
    · rw [hshrinks.check] at hcheck
      cases hcheck

/-- Six blocks, and no more. -/
def sixBlocks : Settings :=
  { blockSize := 512, initialBlocks := 6, autoGrow := false, maxBlocks := 6 }

/-- Six streams, whose directory takes two blocks. -/
def crowd : List Request :=
  [.write "s1" .empty, .write "s2" .empty, .write "s3" .empty, .write "s4" .empty,
    .write "s5" .empty, .write "s6" (.one 1)]

/-- One block more is not enough for another directory, and the resize is
refused.  The block stays. -/
theorem refusal_keeps_growth :
    ∃ results h, replay sixBlocks crowd ByteArray.empty = some (results, h) ∧ h.Faultless
      ∧ ∃ e w image, (resize 7 h.vault).run h.medium = ((.error e, w), image)
        ∧ h.vault.blocks.total = 6 ∧ w.blocks.total = 7
        ∧ h.medium.size = 3072 ∧ image.size = 3584
        ∧ ¬ h.vault.Unchanged h.medium w image := by
  -- the directory of six streams takes two blocks, and no two in a row are free among
  -- seven
  have hruns : (blindResize sixBlocks crowd 7).map (fun x =>
      ((x.1.2.vault.blocks.total, x.1.2.medium.length), x.2.1.1.isOk, x.2.1.2.blocks.total,
        x.2.2.length)) = some ((6, 3072), false, 7, 3584) := by decide +kernel
  obtain ⟨⟨⟨results, o⟩, ⟨result, w⟩, o'⟩, hblind, hfacts⟩ := Option.map_eq_some_iff.mp hruns
  simp only [Prod.mk.injEq] at hfacts
  obtain ⟨⟨htotal, hlength⟩, hfails, htotal', hlength'⟩ := hfacts
  obtain ⟨h, image, hreplay, hvault, hsize, hrun, hsize'⟩ := resize_of_blind hblind
  cases result with
  | ok u => cases hfails
  | error e =>
    rw [← hvault] at htotal
    refine ⟨results, h, hreplay, faultless_of_replay hreplay, e, w, image, hrun, htotal, htotal',
      hsize.trans hlength, hsize'.trans hlength', fun hunchanged => ?_⟩
    exact absurd (htotal'.symm.trans (hunchanged.total.trans htotal)) (by decide)

end StateVault.Vault
