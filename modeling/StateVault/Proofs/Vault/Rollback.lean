/-
  StateVault.Proofs.Vault.Rollback
  ────────────────────────────────
  **AN UPDATE THAT FAILS IS UNDONE ON THE MEDIUM TOO, UNLESS ITS RECORD IS
  THERE.**

  An update fails as soon as one of its storage calls does.  Up to the write of
  the record that leaves the image as it was, for whoever opens it, and the
  handle at one with it.  After the record one call is left, the last sync.
  When that fails, the handle goes back and the image does not.

    • `Request.ensures_left`        — one update, whichever calls fail,
    • `Attached.undone`             — opening and verifying after it,
    • `undone_unless_recorded`      — the same after any run,
    • `recorded_update_is_not_undone` — an update whose last sync fails.
-/
import StateVault.Proofs.Vault.Agreement
import StateVault.Proofs.Vault.Transient

namespace StateVault

/-! ## §1. Failures without an effect. -/

/-- Any call may fail, and none that fails has an effect. -/
def Failures.inert : Failures :=
  ⟨True, True, fun _ _ => False, True, True⟩

theorem Failures.clean_inert : Failures.inert.synced.Clean :=
  ⟨id, fun _ _ => id⟩

/-- So many calls go through, and then none. -/
def FaultRule.cutOff : FaultRule Nat where
  next
    | 0, _ => (.fails Option.none, 0)
    | calls + 1, _ => (.passes, calls)

theorem FaultRule.cutOff_within : FaultRule.cutOff.Within Failures.inert where
  read _ _ _ _ _ := trivial
  write _ _ _ _ _ := trivial
  tear state _ _ _ h := by
    cases state with
    | zero => cases h
    | succ calls => cases h
  setLength _ _ _ _ := trivial
  sync _ _ _ := trivial

namespace Vault

variable {F : Failures} {v w x : Vault} {t t' : Watched} {r : Request}

/-! ## §2. One update. -/

/-- What is left of an update that has failed.  Without its record the image
attests the vault in hand, with the contents from before; with it, one that is
a generation ahead and has the update done. -/
def Request.Left (r : Request) (v : Vault) (t : Watched) (w : Vault) (t' : Watched) : Prop :=
  (t'.records = t.records ∧ w.Attached t'.image ∧ w.summary t'.image = v.summary t.image)
    ∨ (t'.records = t.records + 1 ∧ w.superblock = v.superblock ∧ ∃ x : Vault,
        x.Attached t'.image ∧ x.generation = v.generation + 1
          ∧ x.summary t'.image = r.commit (v.summary t.image))

/-- An update that failed with nothing decided leaves what there was. -/
theorem left_of_undecided (hF : F.synced.Clean) (h : v.Attached t.image) (r : Request)
    (hundecided : Undecided F.synced True v t t') (hunmade : Unmade F v t w t') :
    r.Left v t w t' := by
  have halike := hunmade.keeps.alike
  have haddress := hunmade.addressable h.live.addressable
  have hcontents := (h.live.kept hundecided halike hunmade.sound haddress).2
  refine Or.inl ⟨(hundecided.torn hF.sync).1,
    h.kept hF hundecided halike hunmade.sound haddress (hunmade.room h.room), ?_⟩
  unfold summary
  rw [hcontents, generation, halike.superblock, generation]

/-- An update that failed with its record written leaves an image that is a
generation ahead. -/
theorem left_of_made (hF : F.synced.Clean) (h : v.Attached t.image)
    (hmade : r.Made F.synced v t x t') (hunmade : Unmade F v t w t') : r.Left v t w t' := by
  obtain ⟨⟨d, hr⟩, hlive, hcontents, _⟩ := hmade
  have hnext := generation_of_follows hr.follows
  refine Or.inr ⟨hr.decided.records hF.sync, hunmade.keeps.superblock, x,
    h.renewed hr hlive, hnext, ?_⟩
  unfold summary Request.commit
  rw [hcontents, hnext]

/-- **One update**, whichever of its calls fail. -/
theorem Request.ensures_left (hF : F.synced.Clean) (h : v.Attached t.image)
    (hupdate : r.isUpdate = true) :
    (r.action v).Ensures F (fun _ => True) t fun outcome t' =>
      ∀ e, outcome.1 = .error e → r.Left v t outcome.2 t' := by
  refine ((Request.ensures_underway h.live hupdate).weaken fun _ _ => trivial).mono ?_
  intro outcome t' hend e hfailed
  obtain ⟨result, w⟩ := outcome
  obtain ⟨hunderway, hended⟩ := hend
  obtain rfl : result = .error e := hfailed
  rcases hunderway with hundecided | ⟨x, hmade⟩
  · exact left_of_undecided hF h r hundecided hended
  · exact left_of_made hF h hmade hended

/-! ## §3. Opening and verifying. -/

/-- Opening shows the contents of the vault that is attached. -/
theorem Attached.shown {image : Image} (h : v.Attached image) {settings : Settings}
    (hsettings : Acceptable settings) : shown settings image = .ok (v.summary image) :=
  shown_of_attested h.live.sound h.attested h.covers h.live.addressable hsettings

/-- A verification finds that another vault is on the image. -/
theorem verify_of_other {h : Handle Image} (hattached : x.Attached h.medium)
    (hother : x.superblock ≠ h.vault.superblock) :
    (h.perform .verify).1 = .error (.corrupt .superblockDiffers) := by
  have hverify : (verify h.vault).Ensures Failures.none (fun _ => True) ⟨h.medium, 0⟩
      fun outcome _ => outcome.1 = .error (.corrupt .superblockDiffers) := by
    unfold verify
    rw [Action.ensures_vault, Action.ensures_bind, Action.ensures_call]
    refine (survey_of_attested hattached.live.sound hattached.attested hattached.covers
      hattached.live.addressable trivial).mono ?_
    intro result t' hend
    obtain ⟨_, hfound⟩ := hend
    cases result with
    | error e => exact absurd hfound id
    | ok y =>
      -- the superblock is what is compared first
      show h.vault.compare y = _
      rw [compare, if_pos (Or.inl (hfound.sameSuperblock ▸ hother))]
  have hreturn : (Request.verify.action h.vault).Ensures Failures.none (fun _ => True)
      ⟨h.medium, 0⟩ fun outcome _ => outcome.1 = .error (.corrupt .superblockDiffers) := by
    refine ensures_return (hverify.mono ?_)
    intro outcome t' hend
    obtain ⟨result, w⟩ := outcome
    obtain rfl : result = _ := hend
    rfl
  obtain ⟨_, _, hresult⟩ := hreturn.on_medium image_obeys
  exact hresult

namespace Handle

variable {ω : Type} {rule : FaultRule ω}

/-- The same handle, with its medium under a rule and records counted from
here on. -/
def under (h : Handle Image) (rule : FaultRule ω) (state : ω) :
    Handle (Tally (Faulty rule Image)) :=
  ⟨h.vault, ⟨h.medium, state⟩, 0⟩

/-- The same handle, with a medium that does not fail. -/
def relieved (h : Handle (Tally (Faulty rule Image))) : Handle Image :=
  ⟨h.vault, h.image⟩

end Handle

section Failing

variable {ω : Type} {rule : FaultRule ω} {h : Handle Image}
  {h' : Handle (Tally (Faulty rule Image))} {e : Error} {settings : Settings}

/-- What opening and verifying say after an update that has failed: the same
as before and that all is well, or, if a record was written, that the update
is done and that the handle is not the one of this image. -/
def Request.Undone (r : Request) (settings : Settings) (h : Handle Image)
    (h' : Handle (Tally (Faulty rule Image))) : Prop :=
  ∃ c, shown settings h.medium = .ok c
    ∧ (h'.medium.records = 0 → shown settings h'.image = .ok c
        ∧ ∃ report, (h'.relieved.perform .verify).1 = .ok (.report report)
          ∧ report.Confirms h'.vault)
    ∧ (h'.medium.records ≠ 0 → shown settings h'.image = .ok (r.commit c)
        ∧ (h'.relieved.perform .verify).1 = .error (.corrupt .superblockDiffers))

/-- What is left of a failed update is what opening and verifying say. -/
theorem Attached.undone (hrule : rule.Within Failures.inert) {state : ω}
    (hattached : h.vault.Attached h.medium) (hupdate : r.isUpdate = true)
    (hfailed : (h.under rule state).perform r = (.error e, h'))
    (hsettings : Acceptable settings) : r.Undone settings h h' := by
  have hensures : (r.action h.vault).Ensures Failures.inert (fun _ => True)
      (h.under rule state).watched _ :=
    Request.ensures_left (t := (h.under rule state).watched) Failures.clean_inert hattached
      hupdate
  obtain ⟨_, hleft⟩ := hensures.on_tally hrule.obeys
  have hresult : ((h.under rule state).perform r).1 = .error e := congrArg Prod.fst hfailed
  have hhandle : ((h.under rule state).perform r).2 = h' := congrArg Prod.snd hfailed
  subst hhandle
  have hleft := hleft e hresult
  refine ⟨_, hattached.shown hsettings, ?_⟩
  rcases hleft with ⟨hnone, hkept, hsummary⟩ | ⟨hone, hsame, x, hahead, hnext, hsummary⟩
  · refine ⟨fun _ => ⟨?_, ?_⟩, fun hsome => absurd hnone hsome⟩
    · exact (hkept.shown hsettings).trans (congrArg Except.ok hsummary)
    · exact Attached.verifies (h := Handle.relieved _) image_obeys hkept
  · refine ⟨fun hnone => absurd (hnone.symm.trans hone) (Nat.zero_ne_one), fun _ => ⟨?_, ?_⟩⟩
    · exact (hahead.shown hsettings).trans (congrArg Except.ok hsummary)
    · refine verify_of_other (h := Handle.relieved _) hahead ?_
      intro hequal
      -- the generation on the image is the next one
      have hgeneration : x.generation = h.vault.generation :=
        congrArg Superblock.generation (hequal.trans hsame)
      rw [hnext] at hgeneration
      simp at hgeneration

/-- **Failed updates are undone, unless their record is there.**  After any
run without failures comes an update in which calls fail, without an effect,
so that it fails.  If its record was not written, opening the image shows the
generation and the streams from before, and a verification confirms the
handle.  If it was, opening shows the update done, and a verification fails. -/
theorem undone_unless_recorded (hrule : rule.Within Failures.inert) {state : ω}
    (hr : h.Undisturbed) (hupdate : r.isUpdate = true)
    (hfailed : (h.under rule state).perform r = (.error e, h'))
    (hsettings : Acceptable settings) : r.Undone settings h h' :=
  (hr.attached image_obeys).undone hrule hupdate hfailed hsettings

end Failing

/-! ## §4. The write of a stream, cut off. -/

/-- What there is to know of writing a stream to a new vault of eight blocks
when so many calls go through: whether it does, and how many records were
written. -/
def outlineOfCutOff (calls : Nat) : Option (Bool × Nat) :=
  (blindReplay eightBlocks [] (Outline.ofImage ByteArray.empty)).bind fun x =>
    (((Request.write "a" (.one 1)).action x.2.vault).blind
      (⟨⟨x.2.medium, calls⟩, 0⟩ : Tally (Faulty FaultRule.cutOff Outline))).map fun y =>
        (y.1.1.isOk, y.2.records)

theorem write_of_cutOff {calls records : Nat}
    (h : outlineOfCutOff calls = some (false, records)) :
    ∃ (h : Handle Image) (e : Error) (h' : Handle (Tally (Faulty FaultRule.cutOff Image))),
      (format eightBlocks).run ByteArray.empty = (.ok h.vault, h.medium)
        ∧ (h.under FaultRule.cutOff calls).perform (.write "a" (.one 1)) = (.error e, h')
        ∧ h'.medium.records = records := by
  obtain ⟨x, hblind, hrest⟩ := Option.bind_eq_some_iff.mp h
  obtain ⟨⟨⟨result, w⟩, y⟩, hwrite, hfacts⟩ := Option.map_eq_some_iff.mp hrest
  obtain ⟨hfails, hrecords⟩ := Prod.mk.inj hfacts
  obtain ⟨h, hreplay, hseen⟩ := replay_of_blind outline_view hblind
  rw [← hseen] at hwrite
  -- a write reads nothing, so a medium of the same length answers alike
  obtain ⟨hresult, hafter⟩ := Handle.perform_of_blind (h := h.under FaultRule.cutOff calls)
    (outline_view.faulty FaultRule.cutOff).tallied hwrite
  cases result with
  | ok a => cases hfails
  | error e =>
    exact ⟨h, e, _, format_of_replay hreplay, Prod.ext hresult rfl,
      (congrArg (fun y => y.medium.records) hafter).trans hrecords⟩

/-- The contents of a new vault, and what the write makes of them. -/
theorem shown_of_format {h : Handle Image} {start : Image}
    (hformat : (format eightBlocks).run start = (.ok h.vault, h.medium)) :
    shown eightBlocks h.medium = .ok ⟨1, []⟩ := by
  have hnew := formatted_of_run image_obeys hformat
  have hshown := hnew.durable.recalls.shown acceptable_eightBlocks
  rwa [summary, hnew.generation, hnew.contents] at hshown

/-- The record of a write fails.  Nothing has happened. -/
theorem undone_before_record :
    ∃ (h : Handle Image) (e : Error) (h' : Handle (Tally (Faulty FaultRule.cutOff Image))),
      (format eightBlocks).run ByteArray.empty = (.ok h.vault, h.medium)
        ∧ (h.under FaultRule.cutOff 3).perform (.write "a" (.one 1)) = (.error e, h')
        ∧ shown eightBlocks h'.image = .ok ⟨1, []⟩
        ∧ ∃ report, (h'.relieved.perform .verify).1 = .ok (.report report)
          ∧ report.leaked = [] := by
  have houtline : outlineOfCutOff 3 = some (false, 0) := by decide +kernel
  obtain ⟨h, e, h', hformat, hfailed, hnone⟩ := write_of_cutOff houtline
  obtain ⟨c, hbefore, hundone, _⟩ := undone_unless_recorded FaultRule.cutOff_within
    (Handle.Undisturbed.formatted hformat) rfl hfailed acceptable_eightBlocks
  obtain ⟨hafter, report, hverified, hconfirms⟩ := hundone hnone
  rw [shown_of_format hformat] at hbefore
  cases hbefore
  exact ⟨h, e, h', hformat, hfailed, hafter, report, hverified, hconfirms.clean⟩

/-- The sync after the record of a write fails.  The write has failed, but
whoever opens the image finds the stream; and the handle, which does not have
it, cannot be verified. -/
theorem recorded_update_is_not_undone :
    ∃ (h : Handle Image) (e : Error) (h' : Handle (Tally (Faulty FaultRule.cutOff Image))),
      (format eightBlocks).run ByteArray.empty = (.ok h.vault, h.medium)
        ∧ (h.under FaultRule.cutOff 4).perform (.write "a" (.one 1)) = (.error e, h')
        ∧ shown eightBlocks h.medium = .ok ⟨1, []⟩
        ∧ shown eightBlocks h'.image = .ok ⟨2, [⟨"a", Flags.none, 1, ⟨#[1]⟩⟩]⟩
        ∧ (h'.relieved.perform .verify).1 = .error (.corrupt .superblockDiffers) := by
  have houtline : outlineOfCutOff 4 = some (false, 1) := by decide +kernel
  obtain ⟨h, e, h', hformat, hfailed, hone⟩ := write_of_cutOff houtline
  have hattached := (Handle.Undisturbed.formatted hformat).attached image_obeys
  obtain ⟨c, hbefore, _, hahead⟩ := hattached.undone FaultRule.cutOff_within rfl hfailed
    acceptable_eightBlocks
  obtain ⟨hafter, hverified⟩ := hahead (by rw [hone]; exact Nat.one_ne_zero)
  rw [shown_of_format hformat] at hbefore
  cases hbefore
  exact ⟨h, e, h', hformat, hfailed, shown_of_format hformat, hafter, hverified⟩

end Vault

end StateVault
