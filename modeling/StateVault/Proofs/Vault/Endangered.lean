/-
  StateVault.Proofs.Vault.Endangered
  ──────────────────────────────────
  **WHICH RESIZES ENDANGER THE IMAGE, AND WHICH DO NOT.**

  On a medium that never fails, an open vault is always the one that its
  image records (`Handle.Faultless.recorded`).  What can be wrong is the
  length of the image.  A resize keeps the image one that opens, after each
  of its storage calls, unless it is a shrink whose commit overdraws or
  undercuts; and each such shrink leaves, at one of its calls, an image that
  does not open.

    • `resize_steady`, `resize_truncates` — the two cases,
    • `resize_opens_iff`                  — both, for every handle that a run
                              without failures comes to.
-/
import StateVault.Proofs.Vault.Course
import StateVault.Proofs.Vault.Shrinking

namespace StateVault.Vault

variable {F : Failures} {I : Watched → Prop}

/-! ## §1. Requests keep the record. -/

section Requests

variable {v w : Vault} {t t' : Watched}

/-- An image that records the vault before a request records the one after it,
however short it is. -/
theorem Request.ensures_recorded (hF : F.Mild) (hlive : v.Live t.image) (h : v.Recorded t.image)
    (r : Request) :
    (r.action v).Ensures F (fun _ => True) t fun outcome t' =>
      outcome.2.Live t'.image ∧ outcome.2.Recorded t'.image := by
  refine (Request.ensures_course hlive r).mono fun outcome t' hend => ?_
  obtain ⟨hcourse, _⟩ := hend
  exact ⟨hcourse.live hlive, hcourse.recorded hF hlive h⟩

end Requests

/-! ## §2. Runs without failures. -/

namespace Handle

/-- The handles that come of formatting an image, of any requests after that,
and of closing and opening again, with other settings perhaps. -/
inductive Faultless : Handle Image → Prop where
  | formatted {settings : Settings} {v : Vault} {image image' : Image}
      (h : (format settings).run image = (.ok v, image')) : Faultless ⟨v, image'⟩
  | performed {h : Handle Image} (before : Faultless h) (r : Request) :
      Faultless (h.perform r).2
  | reopened {h : Handle Image} (before : Faultless h) {settings : Settings} {v : Vault}
      {image : Image}
      (hrun : (close.andThen fun _ => mount settings).run h.medium = (.ok v, image)) :
      Faultless ⟨v, image⟩

/-- The image always records the vault that is open on it. -/
theorem Faultless.recorded {h : Handle Image} (hr : h.Faultless) :
    h.vault.Live h.medium ∧ h.vault.Recorded h.medium := by
  induction hr with
  | @formatted settings v image image' hrun =>
    have hnew := formatted_of_run image_obeys hrun
    exact ⟨hnew.live, hnew.recorded⟩
  | @performed h before r ih =>
    -- the step lemma: the image records the vault that a request comes to
    obtain ⟨_, _, hkept⟩ := (r.ensures_recorded (t := ⟨h.medium, 0⟩) Failures.mild_none ih.1
      ih.2).on_medium image_obeys
    exact hkept
  | @reopened h before settings v image hrun ih =>
    obtain ⟨hlive, hrecorded⟩ := ih
    have hmount : (mount settings).run h.medium = (.ok v, image) := hrun
    -- an image that became too short does not open, and then there is no such handle
    by_cases hcovers : h.vault.Covers h.medium
    · obtain ⟨_, _, hsame, hopened⟩ := (mount_recall (F := Failures.none) (I := fun _ => True)
        (t := ⟨h.medium, 0⟩) ⟨h.vault, hlive, hrecorded, hcovers, rfl⟩ trivial
        settings).on_medium image_obeys
      have himage := congrArg Watched.image hsame
      rw [hmount] at himage hopened
      have himage : image = h.medium := himage
      obtain ⟨hdurable, _⟩ := hopened v rfl
      rw [himage]
      exact ⟨hdurable.live, hdurable.recorded⟩
    · obtain ⟨_, _, e, hfails, _⟩ := (mount_of_short (t := ⟨h.medium, 0⟩) hlive.sound
        hlive.addressable (hrecorded.attested hlive.sound hlive.addressable) hcovers
        settings).on_medium image_obeys
      rw [hmount] at hfails
      cases hfails

end Handle

/-! ## §3. Resizes that keep the image. -/

section Resizes

variable {α β : Type} {v : Vault} {image : Image} {streams : List Stream} {total : UInt64}

/-- After each call of a script and at its end, the image records a vault with
these streams, all of it. -/
def Steady (s : Script α) (image : Image) (streams : List Stream) : Prop :=
  (∀ y ∈ s.states image, ∃ x : Vault, x.Intact y streams)
    ∧ ∃ x : Vault, x.Intact (s.run image).2 streams

/-- What is ensured on a medium that does not fail holds of each image of the
run. -/
theorem steady_of_ensures {Q : α → Watched → Prop} {s : Script α}
    (h : s.Ensures Failures.none (fun t' => ∃ x : Vault, x.Intact t'.image streams) ⟨image, 0⟩ Q)
    (hend : ∀ a t', Q a t' → ∃ x : Vault, x.Intact t'.image streams) :
    Steady s image streams := by
  obtain ⟨hstates, _, hdone⟩ := h.on_medium image_obeys
  refine ⟨fun y hy => ?_, hend _ _ hdone⟩
  obtain ⟨_, hintact⟩ := hstates y hy
  exact hintact

theorem steady_done {a : α} (h : v.Intact image streams) : Steady (.done a) image streams :=
  ⟨fun _ hy => absurd hy List.not_mem_nil, v, h⟩

/-- One steady action after another, on the image that the first leaves. -/
theorem steady_bind {x : Action α} {f : α → Action β} (hx : Steady (x v) image streams)
    (hf : ∀ a w image', (x v).run image = ((.ok a, w), image') →
      Steady (f a w) image' streams) : Steady ((x >>= f) v) image streams := by
  obtain ⟨hstates, hend⟩ := hx
  unfold Steady
  rw [Action.states_bind, Action.run_bind]
  cases hrun : (x v).run image with
  | mk outcome image' =>
    obtain ⟨result, w⟩ := outcome
    cases result with
    | ok a =>
      obtain ⟨hstates', hend'⟩ := hf a w image' hrun
      exact ⟨List.forall_mem_append.mpr ⟨hstates, hstates'⟩, hend'⟩
    | error e =>
      rw [hrun] at hend
      exact ⟨List.forall_mem_append.mpr ⟨hstates, fun y hy => absurd hy List.not_mem_nil⟩, hend⟩

/-- A shrink that endangers the image: by the commit that gets the directory
out of the way, or by the one with the map cut. -/
def EndangersShrink (v : Vault) (image : Image) (total : UInt64) : Prop :=
  if total < v.superblock.directory.stop then
    v.Endangers image ∨ ∃ w image', (recommit v).run image = ((.ok (), w), image')
      ∧ w.EndangersCut image' total
  else v.EndangersCut image total

/-- A resize that endangers the image.  Only a shrink does, to a size that no
stream is in the way of. -/
def EndangersResize (v : Vault) (image : Image) (total : UInt64) : Prop :=
  leastBlocks ≤ total ∧ total < v.blocks.total ∧ checkStreams v.directory total = .ok ()
    ∧ v.EndangersShrink image total

/-- With room for its map in the image, a vault is safe to commit. -/
theorem not_endangers_of_room {w : Vault} (hs : w.Sound) (hroom : w.Room image) :
    ¬ w.Endangers image := by
  intro hcases
  rcases hcases with ⟨_, hshort, _⟩ | ⟨_, hgrow, ⟨e, hfails⟩, hless⟩
  · exact Nat.not_le.mpr hshort hroom
  · have hmore := lt_grownTotal (ne_zero_of_allocate hfails) hgrow
    have hcommitted := hs.committed
    rw [UInt64.lt_iff_toNat_lt] at hless hmore
    omega

/-- A commit of the directory is steady, unless it endangers the image. -/
theorem recommit_steady {w : Vault} (h : v.Intact image streams) (halike : v.Alike w)
    (hheld : w.Held (streamExtents v.directory)) (haddress : w.Addressable)
    (hroom : v.Room image → w.Room image) (hsafe : ¬ w.Endangers image) :
    Steady (recommit w) image streams := by
  refine steady_of_ensures (recommit_intact (t := ⟨image, 0⟩) h halike hheld haddress hroom
    (fun hdraw => hsafe (Or.inl hdraw)) fun hcut => hsafe (Or.inr hcut)) ?_
  intro outcome t' hdone
  obtain ⟨result, x⟩ := outcome
  cases result with
  | ok u => exact ⟨x, hdone.1⟩
  | error err => exact ⟨v, hdone.1⟩

/-- The cut of the map with its commit is steady, unless it endangers the image. -/
theorem cutTo_steady {current : UInt64} (h : v.Intact image streams)
    (hleast : leastBlocks.toNat ≤ total.toNat) (hless : total.toNat < v.blocks.total.toNat)
    (hsafe : ¬ v.EndangersCut image total) : Steady (cutTo current total v) image streams :=
  steady_of_ensures (cutTo_intact (t := ⟨image, 0⟩) h hleast hless hsafe) fun _ _ hintact => hintact

/-- Growth is steady: the image is lengthened before it is described. -/
theorem lengthen_steady (h : v.Intact image streams) (hmore : v.blocks.total < total) :
    Steady ((do lengthen total; recommit : Action Unit) v) image streams := by
  let t : Watched := ⟨image, 0⟩
  have hlengthen := lengthen_ensures (F := Failures.none) (t := t)
    (I := fun t' => ∃ x : Vault, x.Intact t'.image streams) h.live.sound h.live.region hmore
    fun t' hundecided => ⟨v, Intact.undecided (t := t) h hundecided⟩
  have hgrow := hlengthen.and_yields (lengthen_yields h.live.sound total)
  refine steady_bind (steady_of_ensures hgrow ?_) ?_
  · intro outcome t' hend
    obtain ⟨⟨hlengthened, _⟩, _⟩ := hend
    exact ⟨v, Intact.undecided (t := t) h hlengthened.undecided⟩
  · -- the image is as long as the map now, so the commit describes nothing that is missing
    intro u w image' hrun
    obtain ⟨_, _, ⟨hlengthened, hroom⟩, hsound, hkeeps⟩ := hgrow.on_medium image_obeys
    rw [hrun] at hlengthened hroom hsound hkeeps
    have hroom : w.Room image' := hroom rfl
    have hintact : v.Intact image' streams :=
      Intact.undecided (t := t) h hlengthened.undecided
    have hheld : w.Held (streamExtents v.directory) := by
      rw [← hkeeps.directory]
      exact hsound.held
    exact recommit_steady hintact hkeeps.alike hheld (hlengthened.addressable h.live.addressable)
      (fun _ => hroom) (not_endangers_of_room hsound hroom)

/-- A shrink is steady if neither of its commits endangers the image. -/
theorem shrinkTo_steady (h : v.Intact image streams) (hleast : leastBlocks.toNat ≤ total.toNat)
    (hless : total.toNat < v.blocks.total.toNat)
    (hsafe : checkStreams v.directory total = .ok () → ¬ v.EndangersShrink image total) :
    Steady (shrinkTo v.blocks.total total v) image streams := by
  rw [shrinkTo_eq]
  show Steady (((Action.require (checkStreams v.directory total) >>= _ : Action Unit)) v) image
    streams
  cases hcheck : checkStreams v.directory total with
  | error err => exact steady_done h
  | ok u =>
    have hsafe := hsafe hcheck
    unfold EndangersShrink at hsafe
    show Steady (((if total < v.superblock.directory.stop then _ else _) : Action Unit) v) image
      streams
    by_cases hway : total < v.superblock.directory.stop
    · rw [if_pos hway] at hsafe ⊢
      -- the first commit moves the directory, and the cut comes to a vault of the next
      -- generation
      have hfirst := recommit_intact (t := ⟨image, 0⟩) h (Alike.refl v) h.live.sound.held
        h.live.addressable id (fun hdraw => hsafe (Or.inl (Or.inl hdraw)))
        fun hcut => hsafe (Or.inl (Or.inr hcut))
      refine steady_bind (recommit_steady h (Alike.refl v) h.live.sound.held h.live.addressable id
        fun hbad => hsafe (Or.inl hbad)) ?_
      intro u w image' hrun
      obtain ⟨_, _, hdone⟩ := hfirst.on_medium image_obeys
      rw [hrun] at hdone
      obtain ⟨hintact, hadvanced⟩ := hdone
      exact cutTo_steady hintact hleast (Nat.lt_of_lt_of_le hless hadvanced.grown)
        fun hbad => hsafe (Or.inr ⟨w, image', hrun, hbad⟩)
    · rw [if_neg hway] at hsafe ⊢
      exact cutTo_steady h hleast hless hsafe

/-- **A resize that endangers nothing is steady.** -/
theorem resize_steady (h : v.Intact image streams) (hsafe : ¬ v.EndangersResize image total) :
    Steady (resize total v) image streams := by
  unfold resize
  by_cases hsmall : total < leastBlocks
  · rw [if_pos hsmall]
    exact steady_done h
  · rw [if_neg hsmall]
    show Steady (((if total = v.blocks.total then _ else _) : Action Unit) v) image streams
    by_cases hsame : total = v.blocks.total
    · rw [if_pos hsame]
      exact steady_done h
    · rw [if_neg hsame]
      by_cases hmore : v.blocks.total < total
      · rw [if_pos hmore]
        exact lengthen_steady h hmore
      · rw [if_neg hmore]
        have hleast := UInt64.not_lt.mp hsmall
        -- what is left is a shrink
        have hless : total < v.blocks.total := by
          rw [UInt64.lt_iff_toNat_lt] at hmore ⊢
          have hne : total.toNat ≠ v.blocks.total.toNat := fun heq =>
            hsame (UInt64.toNat_inj.mp heq)
          omega
        exact shrinkTo_steady h (UInt64.le_iff_toNat_le.mp hleast)
          (UInt64.lt_iff_toNat_lt.mp hless) fun hcheck hbad => hsafe ⟨hleast, hless, hcheck, hbad⟩

/-! ## §4. Resizes that do not. -/

/-- A shrink that endangers the image leaves it truncated after some call. -/
theorem shrinkTo_truncates (h : v.Intact image streams) (hleast : leastBlocks.toNat ≤ total.toNat)
    (hless : total.toNat < v.blocks.total.toNat) (hcheck : checkStreams v.directory total = .ok ())
    (hdanger : v.EndangersShrink image total) :
    ∃ y ∈ (shrinkTo v.blocks.total total v).states image, Truncated y := by
  rw [shrinkTo_eq]
  show ∃ y ∈ Script.states ((Action.require (checkStreams v.directory total) >>= _ : Action Unit) v)
    image, Truncated y
  rw [hcheck]
  show ∃ y ∈ Script.states (((if total < v.superblock.directory.stop then _ else _) : Action Unit)
    v) image, Truncated y
  unfold EndangersShrink at hdanger
  by_cases hway : total < v.superblock.directory.stop
  · rw [if_pos hway] at hdanger ⊢
    rw [Action.states_bind]
    -- which of the two commits endangers the image
    by_cases hfirst : v.Endangers image
    · obtain ⟨y, hy, htruncated⟩ := recommit_truncates h (Alike.refl v) h.live.sound.held
        h.live.addressable id hfirst
      exact ⟨y, List.mem_append_left _ hy, htruncated⟩
    · obtain ⟨w, image', hrun, hbad⟩ := hdanger.resolve_left hfirst
      obtain ⟨_, _, hdone⟩ := (recommit_intact (t := ⟨image, 0⟩) h (Alike.refl v)
        h.live.sound.held h.live.addressable id (fun hdraw => hfirst (Or.inl hdraw))
        fun hcut => hfirst (Or.inr hcut)).on_medium image_obeys
      rw [hrun] at hdone
      obtain ⟨hintact, hadvanced⟩ := hdone
      obtain ⟨y, hy, htruncated⟩ := cutTo_truncates v.blocks.total hintact hleast
        (Nat.lt_of_lt_of_le hless hadvanced.grown) hbad
      rw [hrun]
      exact ⟨y, List.mem_append_right _ hy, htruncated⟩
  · rw [if_neg hway] at hdanger ⊢
    exact cutTo_truncates v.blocks.total h hleast hless hdanger

/-- **A resize that endangers the image leaves it truncated after some call.** -/
theorem resize_truncates (h : v.Intact image streams) (hdanger : v.EndangersResize image total) :
    ∃ y ∈ (resize total v).states image, Truncated y := by
  obtain ⟨hleast, hless, hcheck, hbad⟩ := hdanger
  have htruncates := shrinkTo_truncates h (UInt64.le_iff_toNat_le.mp hleast)
    (UInt64.lt_iff_toNat_lt.mp hless) hcheck hbad
  unfold resize
  rw [if_neg (UInt64.not_lt.mpr hleast)]
  show ∃ y ∈ Script.states (((if total = v.blocks.total then _ else _) : Action Unit) v) image,
    Truncated y
  rw [if_neg (fun hsame => UInt64.lt_irrefl _ (hsame ▸ hless)),
    if_neg (UInt64.lt_asymm hless)]
  exact htruncates

end Resizes

/-! ## §5. Both. -/

/-- The images before a resize, after each of its storage calls and at its
end. -/
def Handle.during (h : Handle Image) (total : UInt64) : List Image :=
  h.medium :: ((resize total h.vault).states h.medium ++ [((resize total h.vault).run h.medium).2])

/-- **Resizes and the image.**  After any run without failures, opening the
image before a resize, after each of its storage calls and at its end shows
the streams of the handle, exactly if the image is as long as its record says
and the resize does not endanger it. -/
theorem resize_opens_iff {h : Handle Image} (hr : h.Faultless) {settings : Settings}
    (hsettings : Acceptable settings) (total : UInt64) :
    (∀ image ∈ h.during total, ∃ generation,
        shown settings image = .ok ⟨generation, h.vault.contents h.medium⟩)
      ↔ h.vault.Covers h.medium ∧ ¬ h.vault.EndangersResize h.medium total := by
  obtain ⟨hlive, hrecorded⟩ := hr.recorded
  constructor
  · intro hopens
    have hcovers : h.vault.Covers h.medium := by
      apply Classical.byContradiction
      -- the image before the resize is one of those that have to open
      intro hshort
      obtain ⟨generation, hshown⟩ := hopens h.medium List.mem_cons_self
      rw [shown_of_short hlive.sound hlive.addressable hrecorded hshort hsettings] at hshown
      cases hshown
    refine ⟨hcovers, fun hdanger => ?_⟩
    obtain ⟨y, hy, htruncated⟩ := resize_truncates ⟨hlive, hrecorded, hcovers, rfl⟩ hdanger
    obtain ⟨generation, hshown⟩ := hopens y (List.mem_cons_of_mem _ (List.mem_append_left _ hy))
    exact htruncated.not_shown hsettings _ hshown
  · intro hboth image himage
    obtain ⟨hcovers, hsafe⟩ := hboth
    have hintact : h.vault.Intact h.medium (h.vault.contents h.medium) :=
      ⟨hlive, hrecorded, hcovers, rfl⟩
    obtain ⟨hstates, hend⟩ := resize_steady hintact hsafe
    obtain ⟨x, hx⟩ : ∃ x : Vault, x.Intact image (h.vault.contents h.medium) := by
      -- before, during, or at the end
      rcases List.mem_cons.mp himage with rfl | himage
      · exact ⟨_, hintact⟩
      · rcases List.mem_append.mp himage with hstate | hlast
        · exact hstates image hstate
        · rw [List.mem_singleton.mp hlast]
          exact hend
    obtain ⟨generation, hrecalls⟩ := hx.recalls
    exact ⟨generation, hrecalls.shown hsettings⟩

theorem faultless_of_replay {settings : Settings} {rs : List Request} {image : Image}
    {h : Handle Image} {results : List (Except Error Answer)}
    (hreplay : replay settings rs image = some (results, h)) : h.Faultless :=
  replay_induction hreplay (fun _ _ hrun => .formatted hrun) fun _ r _ hr => hr.performed r

/-- Five blocks, which is all that a vault of them grows to by itself. -/
def fiveBlocks : Settings :=
  { blockSize := 512, initialBlocks := 5, autoGrow := true, maxBlocks := 5 }

theorem acceptable_fiveBlocks : Acceptable fiveBlocks := fun _ => rfl

/-- A vault of five blocks with one stream becomes one of sixteen, and opens
with the stream at each call of that. -/
theorem growth_opens :
    ∃ results h, replay fiveBlocks [.write "a" (.one 1)] ByteArray.empty = some (results, h)
      ∧ ∀ image ∈ h.during 16, ∃ generation,
          shown fiveBlocks image = .ok ⟨generation, [⟨"a", Flags.none, 1, ⟨#[1]⟩⟩]⟩ := by
  have hruns : (blindReplay fiveBlocks [.write "a" (.one 1)]
      (Outline.ofImage ByteArray.empty)).map
      (fun x => (x.1.map (·.isOk), x.2.vault.blocks.total, x.2.medium.length,
        x.2.vault.superblock.totalBlocks.toNat * x.2.vault.width))
      = some ([true], 5, 2560, 2560) := by
    decide +kernel
  obtain ⟨x, hblind, hfacts⟩ := Option.map_eq_some_iff.mp hruns
  obtain ⟨h, hreplay, hseen⟩ := replay_of_blind outline_view hblind
  have hvault : h.vault = x.2.vault := congrArg Handle.vault hseen
  have hsize : h.medium.size = x.2.medium.length :=
    congrArg (fun y : Handle Outline => y.medium.length) hseen
  simp only [Prod.mk.injEq] at hfacts
  obtain ⟨hresults, htotal, hlength, hcovered⟩ := hfacts
  -- the write is answered, so that its stream is in the map after it
  have hstreams : Handle.afterAll [.write "a" (.one 1)] x.1 []
      = [⟨"a", Flags.none, 1, ⟨#[1]⟩⟩] := by
    obtain ⟨results, y⟩ := x
    match results, hresults with
    | [.ok _], _ => rfl
  have hcontents := (Handle.contents_of_replay image_obeys hreplay).trans hstreams
  refine ⟨x.1, h, hreplay, ?_⟩
  rw [← hcontents]
  refine (resize_opens_iff (faultless_of_replay hreplay) acceptable_fiveBlocks 16).mpr
    ⟨?_, fun hdanger => ?_⟩
  · unfold Covers
    exact Nat.le_of_eq (by rw [hvault, hsize, hlength, hcovered])
  · have hless := hdanger.2.1
    rw [hvault, htotal] at hless
    exact absurd hless (by decide)

/-! ## §6. A shrink on the way of which the image does not open. -/

instance (v : Vault) : Decidable v.Undercuts :=
  decidable_of_iff ((Word.add? v.generation 1).isSome = true ∧ v.mayGrow = true
      ∧ (v.blocks.allocate (v.directoryBlocks v.directory)).isOk = false
      ∧ v.grownTotal (v.directoryBlocks v.directory) < v.superblock.totalBlocks) (by
    unfold Undercuts
    rw [Option.isSome_iff_exists]
    cases v.blocks.allocate (v.directoryBlocks v.directory) with
    | ok found => simp [Except.isOk, Except.toBool]
    | error e => simp [Except.isOk, Except.toBool])

/-- Whether the vault undercuts with its map cut. -/
def undercutsCut (v : Vault) (total : UInt64) : Bool :=
  match v.blocks.shrink total with
  | .ok cut => decide ({ v with blocks := cut } : Vault).Undercuts
  | .error _ => false

theorem endangersCut_of_undercutsCut {v : Vault} {total : UInt64}
    (h : v.undercutsCut total = true) (image : Image) : v.EndangersCut image total := by
  unfold undercutsCut at h
  cases hcut : v.blocks.shrink total with
  | ok cut =>
    rw [hcut] at h
    exact ⟨cut, hcut, Or.inr (of_decide_eq_true h)⟩
  | error e =>
    rw [hcut] at h
    cases h

/-- Sixteen blocks, and one stream of them. -/
def sparse : List Request :=
  [.resize 16, .write "a" (.one 1)]

/-- What there is to know of the vault before a shrink to four blocks, and of
the one after its first commit, which gets the directory out of the way. -/
theorem outline_of_sparse :
    ((blindReplay fiveBlocks sparse (Outline.ofImage ByteArray.empty)).bind fun x =>
      ((recommit x.2.vault).blind x.2.medium).map fun y =>
        ((x.2.vault.superblock.totalBlocks.toNat * x.2.vault.width, x.2.medium.length,
          x.2.vault.blocks.total), (checkStreams x.2.vault.directory 4).isOk,
          decide (4 < x.2.vault.superblock.directory.stop), y.1.1.isOk, y.1.2.undercutsCut 4))
      = some ((8192, 8192, 16), true, true, true, true) := by
  decide +kernel

/-- A shrink to four blocks has the directory take the last one that is free
below them.  No block is left for the next directory then, so the vault grows
to five, and the image has the length of five blocks while its record still
says sixteen. -/
theorem shrink_truncates :
    ∃ results h, replay fiveBlocks sparse ByteArray.empty = some (results, h)
      ∧ h.Faultless
      ∧ (∃ generation,
          shown fiveBlocks h.medium = .ok ⟨generation, h.vault.contents h.medium⟩)
      ∧ ∃ image ∈ h.during 4, ∀ c, shown fiveBlocks image ≠ .ok c := by
  obtain ⟨x, hblind, hrest⟩ := Option.bind_eq_some_iff.mp outline_of_sparse
  obtain ⟨y, hfirst, hfacts⟩ := Option.map_eq_some_iff.mp hrest
  simp only [Prod.mk.injEq, decide_eq_true_eq] at hfacts
  obtain ⟨⟨hcovered, hlength, htotal⟩, hcheck, hway, hpasses, hcut⟩ := hfacts
  obtain ⟨h, hreplay, hseen⟩ := replay_of_blind outline_view hblind
  have hvault : h.vault = x.2.vault := congrArg Handle.vault hseen
  have hmedium : Outline.ofImage h.medium = x.2.medium := congrArg Handle.medium hseen
  have hfaultless := faultless_of_replay hreplay
  obtain ⟨hlive, hrecorded⟩ := hfaultless.recorded
  have hcovers : h.vault.Covers h.medium := by
    have hsize : h.medium.size = x.2.medium.length := congrArg Outline.length hmedium
    unfold Covers
    exact Nat.le_of_eq (by rw [hvault, hsize, hlength, hcovered])
  have hintact : h.vault.Intact h.medium (h.vault.contents h.medium) :=
    ⟨hlive, hrecorded, hcovers, rfl⟩
  -- the commit that gets the directory out of the way goes through
  rw [← hvault, ← hmedium] at hfirst
  obtain ⟨hanswer, _⟩ := outline_view.blind hfirst
  have hrun : ∃ image, (recommit h.vault).run h.medium = ((.ok (), y.1.2), image) := by
    obtain ⟨⟨result, w⟩, o⟩ := y
    cases result with
    | ok u => exact ⟨_, Prod.ext hanswer rfl⟩
    | error e => cases hpasses
  obtain ⟨image, hrun⟩ := hrun
  have hdanger : h.vault.EndangersResize h.medium 4 := by
    refine ⟨by decide, ?_, ?_, ?_⟩
    · rw [hvault, htotal]
      decide
    · rw [← hvault] at hcheck
      cases hstreams : checkStreams h.vault.directory 4 with
      | ok u => rfl
      | error e =>
        rw [hstreams] at hcheck
        cases hcheck
    · rw [← hvault] at hway
      unfold EndangersShrink
      rw [if_pos hway]
      exact Or.inr ⟨_, image, hrun, endangersCut_of_undercutsCut hcut image⟩
  obtain ⟨generation, hrecalls⟩ := hintact.recalls
  obtain ⟨z, hz, htruncated⟩ := resize_truncates hintact hdanger
  exact ⟨x.1, h, hreplay, hfaultless, ⟨generation, hrecalls.shown acceptable_fiveBlocks⟩, z,
    List.mem_cons_of_mem _ (List.mem_append_left _ hz),
    htruncated.not_shown acceptable_fiveBlocks⟩

end StateVault.Vault
