/-
  StateVault.Proofs.Vault.Agreement
  ─────────────────────────────────
  **A HANDLE AND ITS IMAGE AGREE AFTER EVERY REQUEST.**

  The block map is on no medium.  An open vault keeps its own by adding and
  removing extents, request after request; a survey makes one anew from what
  the superblock and the directory claim.  On a medium that does not fail the
  two have the same blocks in use, after requests that go through and after
  those that fail.  This is so from every image that can be opened, since a
  request asks no more of it than that it attests the vault (`Attached`).

    • `Request.ensures_attached` — one request,
    • `compare_of_resurveyed`    — a verification of what is attested,
    • `handle_agrees`            — verifying and reopening, after any run.
-/
import StateVault.Proofs.Vault.Course
import StateVault.Vault.Stats

namespace StateVault.Vault

variable {F : Failures} {I : Watched → Prop}

/-! ## §1. What requests keep. -/

/-- An open vault that its image attests, in an image as long as its map. -/
structure Attached (v : Vault) (image : Image) : Prop where
  live : v.Live image
  attested : v.Attested image
  room : v.Room image

theorem Attached.covers {v : Vault} {image : Image} (h : v.Attached image) : v.Covers image :=
  h.live.sound.covers h.room

theorem Attached.hasDirectory {v : Vault} {image : Image} (h : v.Attached image) :
    v.HasDirectory image :=
  h.covers.hasDirectory h.live.sound h.live.addressable

/-- What closing and opening finds is attested like the vault before. -/
theorem Reopened.attached {v w : Vault} {settings : Settings} {image : Image}
    (h : v.Reopened settings w) (hlive : v.Live image) (hattested : v.Attested image)
    (hcovers : v.Covers image) : w.Attached image := by
  obtain ⟨hlive', hroom⟩ := h.live hlive hcovers
  exact ⟨hlive', hattested.congr h.superblock h.slot h.directory, hroom⟩

section Opening

variable {μ : Type} [Medium μ] {image : μ → Image} {settings : Settings} {v : Vault} {m m' : μ}

/-- Whichever calls may fail, formatting leaves such a vault if it goes
through. -/
theorem attached_of_format (hobeys : Obeys F image)
    (hrun : (format settings).run m = (.ok v, m')) : v.Attached (image m') := by
  have hnew := formatted_of_run hobeys hrun
  exact ⟨hnew.live, hnew.recorded.attested hnew.live.sound hnew.live.addressable, hnew.room⟩

/-- And so does mounting. -/
theorem attached_of_mount (hobeys : Obeys F image) (hsize : Medium.size m < UInt64.size - 1)
    (hrun : (mount settings).run m = (.ok v, m')) : v.Attached (image m') := by
  obtain ⟨himage, hfound⟩ := mounted_of_run hobeys hrun
  rw [hobeys.size] at hsize
  obtain ⟨hlive, hroom⟩ := hfound.live hsize
  rw [himage]
  exact ⟨hlive, hfound.attested, hroom⟩

end Opening

section Steps

variable {v w : Vault} {t t' : Watched} {d : Directory} {safe : Prop}

/-- A stretch without a record leaves the vault attached. -/
theorem Attached.kept (hF : F.Clean) (h : v.Attached t.image)
    (hundecided : Undecided F safe v t t') (halike : v.Alike w) (hsound : w.Sound)
    (haddress : w.Addressable) (hroom : w.Room t'.image) : w.Attached t'.image := by
  have hattested := h.attested.of_undecided hF h.live.sound h.live.addressable
    h.hasDirectory hundecided
  exact ⟨(h.live.kept hundecided halike hsound haddress).1,
    hattested.congr halike.superblock halike.slot halike.directory, hroom⟩

/-- A commit leaves the vault attached that it makes. -/
theorem Attached.renewed (h : v.Attached t.image) (hr : Renewed F v t d w t')
    (hlive : w.Live t'.image) : w.Attached t'.image :=
  ⟨hlive, hr.attested h.live.sound h.live.addressable h.attested, hr.decided.room h.room⟩

/-- **One request** leaves a vault that its image attests, whether it goes
through or fails. -/
theorem Request.ensures_attached (h : v.Attached t.image) {r : Request}
    (hpermitted : r.Permitted v) :
    (r.action v).Ensures Failures.none (fun _ => True) t fun outcome t' =>
      outcome.2.Attached t'.image := by
  refine (Request.ensures_course h.live r).mono fun outcome t' hend => ?_
  obtain ⟨hcourse, hroom⟩ := hend
  exact ⟨hcourse.live h.live,
    hcourse.attested Failures.clean_none h.live h.hasDirectory h.attested,
    hroom hpermitted h.room⟩

end Steps

/-! ## §2. What a survey is compared with. -/

/-- The report says of the image what is known of the open vault, and that
nothing is lost. -/
structure Report.Confirms (r : Report) (v : Vault) : Prop where
  clean : r.leaked = []
  generation : r.generation = v.generation
  streamCount : r.streamCount = v.directory.size
  usedBlocks : r.usedBlocks = v.stats.usedBlocks

/-- A survey counts the owners of the vault, and no others. -/
theorem Resurveyed.sameOwners {v : Vault} {x : Survey} (h : v.Resurveyed x) :
    x.blocks.Owns v.owners := by
  have howns := h.toSurveyed.owns
  rw [h.sameSuperblock, h.sameDirectory] at howns
  exact howns

/-- Comparing a sound vault with a survey that found it gives a clean report:
the map of the survey and the one that was kept have the same owners. -/
theorem compare_of_resurveyed {v : Vault} {x : Survey} (hs : v.Sound) (h : v.Resurveyed x) :
    ∃ r, v.compare x = .ok r ∧ r.Confirms v := by
  have hsame : ¬ (x.superblock ≠ v.superblock ∨ x.slot ≠ v.slot) := by
    intro hdiffers
    rcases hdiffers with hdiffers | hdiffers
    · exact hdiffers h.sameSuperblock
    · exact hdiffers h.sameSlot
  rw [compare, if_neg hsame, if_neg (not_not_intro h.sameDirectory)]
  refine ⟨_, rfl, ?_, congrArg Superblock.generation h.sameSuperblock,
    congrArg Directory.size h.sameDirectory, ?_⟩
  -- a block that is in use in the survey has an owner, so that it is in use here
  · apply List.filter_eq_nil_iff.mpr
    intro block hblock
    obtain ⟨_, hused⟩ := List.mem_filter.mp hblock
    rw [h.sameOwners.isUsed_eq hs.held.owns, hused]
    decide
  · apply UInt64.toNat_inj.mp
    show (x.blocks.total - x.blocks.free).toNat = (v.blocks.total - v.blocks.free).toNat
    rw [h.sameOwners.toNat_used, hs.held.owns.toNat_used]
    rfl

/-- Verifying a vault that its image attests confirms it, or a read failed. -/
theorem verify_of_attested {v : Vault} {t : Watched} (hs : v.Sound) (h : v.Attested t.image)
    (hcovers : v.Covers t.image) (haddress : v.Addressable) (hI : I t) :
    (verify v).Ensures F I t fun outcome t' => t' = t ∧ outcome.2 = v ∧
      match outcome.1 with
      | .ok r => r.Confirms v
      | .error _ => F.read := by
  unfold verify
  rw [Action.ensures_vault, Action.ensures_bind, Action.ensures_call]
  refine (survey_of_attested hs h hcovers haddress hI).mono ?_
  intro result t' hend
  obtain ⟨rfl, hfound⟩ := hend
  cases result with
  | error e => exact ⟨rfl, rfl, hfound⟩
  | ok x =>
    -- the survey finds the vault in hand, so the comparison has nothing to object to
    obtain ⟨r, hcompare, hconfirms⟩ := compare_of_resurveyed hs hfound
    rw [Action.Beyond]
    show Script.Ensures F I (.done (v.compare x, v)) t' _
    rw [hcompare]
    exact ⟨rfl, rfl, hconfirms⟩

/-- `w` is what closing and opening comes to, and has the blocks in use that
`v` has.  Only growth that no commit has recorded is lost. -/
structure Rebuilt (v : Vault) (settings : Settings) (w : Vault) : Prop
    extends Reopened v settings w where
  used : ∀ block, w.blocks.isUsed block = v.blocks.isUsed block
  allCommitted : v.blocks.total = v.superblock.totalBlocks → w.blocks.total = v.blocks.total

theorem Reopened.rebuilt {v w : Vault} {settings : Settings} (hs : v.Sound)
    (h : v.Reopened settings w) : v.Rebuilt settings w := by
  have howns := h.sound.held.owns
  rw [h.superblock, h.directory] at howns
  refine ⟨h, howns.isUsed_eq hs.held.owns, ?_⟩
  intro hcommitted
  rw [h.total, hcommitted]

/-- Closing and opening a vault that its image attests. -/
theorem reopen_of_attested {v : Vault} {t : Watched} (hs : v.Sound) (h : v.Attested t.image)
    (hcovers : v.Covers t.image) (haddress : v.Addressable) (settings : Settings) :
    (close.andThen fun _ => mount settings).Ensures Failures.none (fun _ => True) t
      fun result t' => t' = t ∧
        match result with
        | .ok w => v.Reopened settings w
        | .error _ => ¬ Acceptable settings := by
  rw [Script.ensures_andThen]
  -- closing is one sync
  refine ⟨trivial, fun result hsyncs => ?_⟩
  cases hsyncs with
  | failed hsync e => exact absurd hsync id
  | whole =>
    refine (mount_of_attested (F := Failures.none) hs h hcovers haddress trivial settings).mono ?_
    intro result t' hend
    obtain ⟨rfl, hresult⟩ := hend
    cases result with
    | ok w => exact ⟨rfl, hresult⟩
    | error e => exact ⟨rfl, hresult.resolve_left id⟩

/-! ## §3. Runs. -/

/-- A verification goes through, and confirms the vault. -/
theorem Attached.verifies {μ : Type} [Medium μ] {image : μ → Image}
    (hobeys : Obeys Failures.none image) {h : Handle μ}
    (hattached : h.vault.Attached (image h.medium)) :
    ∃ r, (h.perform .verify).1 = .ok (.report r) ∧ r.Confirms h.vault := by
  have hverify := verify_of_attested (F := Failures.none) (I := fun _ => True)
    (t := ⟨image h.medium, 0⟩) hattached.live.sound hattached.attested hattached.covers
    hattached.live.addressable trivial
  have hreturn : (Request.verify.action h.vault).Ensures Failures.none (fun _ => True)
      ⟨image h.medium, 0⟩ fun outcome _ =>
        ∃ r, outcome.1 = .ok (.report r) ∧ r.Confirms h.vault := by
    refine ensures_return (hverify.mono ?_)
    intro outcome t' hend
    obtain ⟨result, w⟩ := outcome
    obtain ⟨_, _, hreport⟩ := hend
    -- on a medium that does not fail there is no failed read to blame
    cases result with
    | ok r => exact ⟨r, rfl, hreport⟩
    | error e => exact absurd hreport id
  obtain ⟨_, _, hreport⟩ := hreturn.on_medium hobeys
  exact hreport

namespace Handle

variable {μ : Type} [Medium μ]

/-- The handles that come of formatting a medium or of opening one, of any
requests after that, and of closing and opening again.  A vault that may grow
is not made smaller.  No medium is so long that its length is the largest
word. -/
inductive Undisturbed : Handle μ → Prop where
  | formatted {settings : Settings} {v : Vault} {m m' : μ}
      (h : (format settings).run m = (.ok v, m')) : Undisturbed ⟨v, m'⟩
  | mounted {settings : Settings} {v : Vault} {m m' : μ}
      (hsize : Medium.size m < UInt64.size - 1)
      (h : (mount settings).run m = (.ok v, m')) : Undisturbed ⟨v, m'⟩
  | performed {h : Handle μ} (before : Undisturbed h) (r : Request)
      (hpermitted : r.Permitted h.vault) : Undisturbed (h.perform r).2
  | reopened {h : Handle μ} (before : Undisturbed h) {settings : Settings} {v : Vault} {m : μ}
      (hrun : (close.andThen fun _ => mount settings).run h.medium = (.ok v, m)) :
      Undisturbed ⟨v, m⟩

/-- At every point of a run the image attests the open vault. -/
theorem Undisturbed.attached {image : μ → Image} (hobeys : Obeys Failures.none image)
    {h : Handle μ} (hr : h.Undisturbed) : h.vault.Attached (image h.medium) := by
  induction hr with
  | @formatted settings v m m' hrun => exact attached_of_format hobeys hrun
  | @mounted settings v m m' hsize hrun => exact attached_of_mount hobeys hsize hrun
  | @performed h before r hpermitted ih =>
    -- the step lemma: whatever the request comes to, the vault is attached
    obtain ⟨_, _, hafter⟩ :=
      (Request.ensures_attached (t := ⟨image h.medium, 0⟩) ih hpermitted).on_medium hobeys
    exact hafter
  | @reopened h before settings v m hrun ih =>
    -- closing and opening changes no byte
    obtain ⟨_, _, hsame, hreopened⟩ := (reopen_of_attested (t := ⟨image h.medium, 0⟩)
      ih.live.sound ih.attested ih.covers ih.live.addressable settings).on_medium hobeys
    rw [hrun] at hsame hreopened
    have himage : image m = image h.medium := congrArg Watched.image hsame
    have hreopened : h.vault.Reopened settings v := hreopened
    rw [himage]
    exact hreopened.attached ih.live ih.attested ih.covers

/-- A list of updates, after a format. -/
theorem undisturbed_of_replay {settings : Settings} {rs : List Request} {m : μ} {h : Handle μ}
    {results : List (Except Error Answer)} (hrs : ∀ r ∈ rs, r.isUpdate = true)
    (hreplay : replay settings rs m = some (results, h)) : h.Undisturbed := by
  refine replay_induction hreplay (fun _ _ hrun => .formatted hrun) ?_
  intro h r hr before
  exact before.performed r (Request.permitted_of_isUpdate (hrs r hr) h.vault)

end Handle

/-- **Handle and image agree.**  After any run without failures, whether its
requests went through or not: a verification answers with a clean report of
what the handle holds; and closing and opening again, with any settings that
can be used, gives a vault with the same superblock, place, directory and
blocks in use, and as many blocks if the handle had none that no commit has
recorded. -/
theorem handle_agrees {μ : Type} [Medium μ] {image : μ → Image}
    (hobeys : Obeys Failures.none image) {h : Handle μ} (hr : h.Undisturbed) :
    (∃ r, (h.perform .verify).1 = .ok (.report r) ∧ r.Confirms h.vault)
      ∧ ∀ settings, Acceptable settings → ∃ w m,
          (close.andThen fun _ => mount settings).run h.medium = (.ok w, m)
            ∧ h.vault.Rebuilt settings w := by
  have hattached := hr.attached hobeys
  constructor
  · exact hattached.verifies hobeys
  · intro settings hsettings
    obtain ⟨_, _, _, hreopened⟩ := (reopen_of_attested (t := ⟨image h.medium, 0⟩)
      hattached.live.sound hattached.attested hattached.covers hattached.live.addressable
      settings).on_medium hobeys
    -- acceptable settings leave no cause for an error
    cases hrun : (close.andThen fun _ => mount settings).run h.medium with
    | mk result m =>
      rw [hrun] at hreopened
      cases result with
      | error e => exact absurd hsettings hreopened
      | ok w => exact ⟨w, m, rfl, Reopened.rebuilt hattached.live.sound hreopened⟩

/-- One stream of one byte: a block for it, one for the directory, and two for
the copies of the superblock. -/
theorem agreement_after_write :
    ∃ results h, replay eightBlocks [.write "a" (.one 1)] ByteArray.empty = some (results, h)
      ∧ results.map (·.isOk) = [true]
      ∧ (∃ r, (h.perform .verify).1 = .ok (.report r) ∧ r.leaked = [] ∧ r.generation = 2
          ∧ r.streamCount = 1 ∧ r.usedBlocks = 4)
      ∧ ∃ w m, (close.andThen fun _ => mount eightBlocks).run h.medium = (.ok w, m)
          ∧ w.blocks.total = 8 := by
  -- write and commit read nothing, so the numbers can be computed from the lengths
  have hruns : (blindReplay eightBlocks [.write "a" (.one 1)]
      (Outline.ofImage ByteArray.empty)).map (fun x => (x.1.map (·.isOk), x.2.vault.generation,
        x.2.vault.directory.size, x.2.vault.blocks.total - x.2.vault.blocks.free,
        x.2.vault.blocks.total, x.2.vault.superblock.totalBlocks))
        = some ([true], 2, 1, 4, 8, 8) := by
    decide +kernel
  obtain ⟨x, hblind, hfacts⟩ := Option.map_eq_some_iff.mp hruns
  simp only [Prod.mk.injEq] at hfacts
  obtain ⟨hresults, hgeneration, hcount, hused, htotal, hcommitted⟩ := hfacts
  obtain ⟨h, hreplay, hseen⟩ := replay_of_blind outline_view hblind
  have hvault : h.vault = x.2.vault := congrArg Handle.vault hseen
  have hwrites : ∀ r ∈ [Request.write "a" (.one 1)], r.isUpdate = true :=
    List.forall_mem_singleton.mpr rfl
  obtain ⟨⟨r, hreport, hconfirms⟩, hreopens⟩ :=
    handle_agrees image_obeys (Handle.undisturbed_of_replay hwrites hreplay)
  obtain ⟨w, m, hrun, hrebuilt⟩ := hreopens eightBlocks acceptable_eightBlocks
  rw [← hvault] at hgeneration hcount hused htotal hcommitted
  refine ⟨x.1, h, hreplay, hresults, ⟨r, hreport, hconfirms.clean, ?_, ?_, ?_⟩, w, m, hrun, ?_⟩
  · rw [hconfirms.generation, hgeneration]
  · rw [hconfirms.streamCount, hcount]
  · rw [hconfirms.usedBlocks, ← hused]
    rfl
  · rw [hrebuilt.allCommitted (htotal.trans hcommitted.symm), htotal]

end StateVault.Vault
