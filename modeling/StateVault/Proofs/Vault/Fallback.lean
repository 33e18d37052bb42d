/-
  StateVault.Proofs.Vault.Fallback
  ────────────────────────────────
  **THE STATE BEFORE THE LAST COMMIT CAN STILL BE OPENED.**

  A commit writes its record over the copy of the superblock that does not
  count, and takes blocks that are free.  The blocks of the old directory and
  of a replaced stream become free only after it.  So all that the other copy
  describes is in the image when the request is done, and that copy counts
  again as soon as the new one cannot be read.

    • `Request.Made.superseded`   — what a request leaves of the old state,
    • `Attached.of_superseded`    — the image without the new record,
    • `shows_previous_generation` — opening it, after any run.
-/
import StateVault.Proofs.Vault.Agreement

namespace StateVault.Vault

variable {F : Failures}

/-! ## §1. What a commit leaves of the old state. -/

/-- The image holds what the vault `v` had in use in the image before, and the
place of its copy that does not count is that of a new record. -/
structure Superseded (v : Vault) (image : Image) (slot : Slot) (image' : Image) : Prop where
  slot : slot = v.slot.other
  kept : Bytes.Keeps v.Guards image image'
  covers : v.Covers image'

/-- The vault that is made has no fewer blocks, and they are in its image; so
those that the old superblock describes are in it too. -/
theorem Request.Made.superseded {r : Request} {v w : Vault} {t t' : Watched}
    (h : v.Attached t.image) (hmade : r.Made F v t w t')
    (hgrown : v.blocks.total.toNat ≤ w.blocks.total.toNat) :
    v.Superseded t.image w.slot t'.image := by
  obtain ⟨d, hr⟩ := hmade.renewed
  refine ⟨hr.follows.slot, hr.decided.kept, ?_⟩
  have hwidth : w.width = v.width := congrArg UInt32.toNat hr.follows.blockSize
  have hroom := hr.decided.room h.room
  have hcommitted := Nat.le_trans h.live.sound.committed hgrown
  unfold Room at hroom
  rw [hwidth] at hroom
  exact Nat.le_trans (Nat.mul_le_mul_right _ hcommitted) hroom

/-- Other bytes in the place of a copy of the superblock. -/
def overwritten (image : Image) (slot : Slot) (copy : ByteArray) : Image :=
  Bytes.overlay image slot.offset copy

/-- Other bytes in the place of the copy that does not count change that copy
only. -/
theorem keeps_overwritten {v : Vault} {image : Image} {copy : ByteArray}
    (hregion : regionSize ≤ image.size) (hsize : copy.size = 64) :
    Bytes.Keeps (fun p => ¬ v.InSpare p) image (overwritten image v.slot.other copy)
      ∧ (overwritten image v.slot.other copy).size = image.size
      ∧ v.spare (overwritten image v.slot.other copy) = copy := by
  have hslot := slot_offset_le v.slot.other
  have hbytes : regionSize = 1024 := rfl
  have hin : v.slot.other.offset + copy.size ≤ image.size := by omega
  refine ⟨(Bytes.keeps_overlay hin).mono ?_, Bytes.size_overlay _ _ _ hin, ?_⟩
  · intro p hspare hboth
    rw [hsize] at hboth
    exact hspare hboth
  · have hself := Bytes.slice_overlay_self hin
    rw [hsize] at hself
    exact hself

/-- With a copy in the place of the new record that cannot be read, the image
attests the old vault, and holds its streams. -/
theorem Attached.of_superseded {v : Vault} {image image' : Image} {slot : Slot}
    {copy : ByteArray} {e : Error} (h : v.Attached image)
    (hafter : v.Superseded image slot image') (hsize : copy.size = 64)
    (hrejected : Superblock.decode copy = .error e)
    (hversion : ∀ major minor, e ≠ .unsupportedVersion major minor) :
    v.Attested (overwritten image' slot copy) ∧ v.Covers (overwritten image' slot copy)
      ∧ v.contents (overwritten image' slot copy) = v.contents image := by
  obtain ⟨rfl, hkept, hcovers⟩ := hafter
  have hsound := h.live.sound
  have hregion' := region_of_keeps hsound.held h.live.region hkept
  obtain ⟨hrest, hlength, hcopy⟩ := keeps_overwritten (v := v) hregion' hsize
  -- what is guarded is kept by the update, and is not in the place of the new record
  have hkept' : Bytes.Keeps v.Guards image (overwritten image' v.slot.other copy) :=
    hkept.trans (hrest.mono fun p hp => hp.2)
  refine ⟨h.attested.of_keeps hsound h.live.addressable h.covers hkept' ?_, ?_, ?_⟩
  · rw [hcopy, hrejected]
    have hsupported : ¬ Superblock.Unsupported (.error e) := by
      rintro ⟨major, minor, hsame⟩
      cases hsame
      exact hversion major minor rfl
    exact Superblock.choose_alone (Superblock.versionFault_eq_none_iff.mpr hsupported) _ _
  · exact hcovers.congr rfl hlength
  · exact (contents_of_keeps hsound.held hsound.valid h.live.inBounds hkept').1

/-! ## §2. Runs. -/

section Runs

variable {μ : Type} [Medium μ] {image : μ → Image}

/-- A request of one commit that goes through, on a medium that does not
fail. -/
theorem Handle.superseded_of_perform (hobeys : Obeys Failures.none image) {h h' : Handle μ}
    (hattached : h.vault.Attached (image h.medium)) {r : Request} (hadvances : r.Advances h.vault)
    {a : Answer} (hok : h.perform r = (.ok a, h')) :
    h.vault.Superseded (image h.medium) h'.vault.slot (image h'.medium) := by
  -- what a request ensures without failures, at this medium
  obtain ⟨_, _, hend⟩ := (Request.ensures_end (F := Failures.none) (t := ⟨image h.medium, 0⟩)
    hattached.live hadvances).on_medium hobeys
  have hresult : ((r.action h.vault).run h.medium).1.1 = .ok a := congrArg Prod.fst hok
  have hvault : ((r.action h.vault).run h.medium).1.2 = h'.vault :=
    congrArg (fun x => x.2.vault) hok
  have hmedium : ((r.action h.vault).run h.medium).2 = h'.medium :=
    congrArg (fun x => x.2.medium) hok
  cases hrun : (r.action h.vault).run h.medium with
  | mk outcome m =>
    obtain ⟨result, w⟩ := outcome
    rw [hrun] at hend hresult hvault hmedium
    cases hresult
    cases hvault
    cases hmedium
    obtain ⟨hmade, hgrown⟩ := hend
    exact Request.Made.superseded (t := ⟨image h.medium, 0⟩) hattached hmade hgrown

/-- **One generation of fallback.**  After any run without failures, let one
more write, deletion or growth go through, and let any 64 bytes that cannot be
read, but for a newer version, take the place of the record that it wrote.
Opening the image gives superblock and directory from before it, and shows the
streams with the contents that they had. -/
theorem shows_previous_generation (hobeys : Obeys Failures.none image) {h h' : Handle μ}
    (hr : h.Undisturbed) {r : Request} (hadvances : r.Advances h.vault) {a : Answer}
    (hok : h.perform r = (.ok a, h')) {copy : ByteArray} (hsize : copy.size = 64) {e : Error}
    (hrejected : Superblock.decode copy = .error e)
    (hversion : ∀ major minor, e ≠ .unsupportedVersion major minor) {settings : Settings}
    (hsettings : Acceptable settings) :
    (∃ w m, (mount settings).run (overwritten (image h'.medium) h'.vault.slot copy) = (.ok w, m)
        ∧ h.vault.Reopened settings w)
      ∧ shown settings (overwritten (image h'.medium) h'.vault.slot copy)
          = .ok (h.vault.summary (image h.medium)) := by
  have hattached := hr.attached hobeys
  have hsound := hattached.live.sound
  have haddress := hattached.live.addressable
  obtain ⟨hattested, hcovers, hcontents⟩ := hattached.of_superseded
    (Handle.superseded_of_perform hobeys hattached hadvances hok) hsize hrejected hversion
  -- opening finds the vault from before the request, and its streams with it
  constructor
  · obtain ⟨w, m, hrun, _, hreopened⟩ :=
      mounts_of_attested image_obeys hsound hattested hcovers haddress hsettings
    exact ⟨w, m, hrun, hreopened⟩
  · rw [shown_of_attested hsound hattested hcovers haddress hsettings, hcontents]
    rfl

end Runs

/-- A stream is written twice, and the record of the second write is blanked.
What opens is the vault after the first one. -/
theorem fallback_after_second_write :
    ∃ results h, replay eightBlocks [.write "a" (.one 1)]
        (⟨ByteArray.empty, ()⟩ : Faulty FaultRule.none Image) = some (results, h)
      ∧ ∃ a h', h.perform (.write "a" (.one 2)) = (.ok a, h')
      ∧ shown eightBlocks (overwritten h'.medium.medium h'.vault.slot (Superblock.begun 0))
          = .ok ⟨2, [⟨"a", Flags.none, 1, ⟨#[1]⟩⟩]⟩ := by
  have hruns : (blindReplay eightBlocks [.write "a" (.one 1)]
      (Faulty.seen Outline.ofImage (⟨ByteArray.empty, ()⟩ : Faulty FaultRule.none Image))).map
        (fun x => (x.1.map (·.isOk), x.2.vault.generation,
          (((Request.write "a" (.one 2)).action x.2.vault).blind x.2.medium).map (·.1.1.isOk)))
      = some ([true], 2, some true) := by
    decide +kernel
  obtain ⟨x, hblind, hfacts⟩ := Option.map_eq_some_iff.mp hruns
  simp only [Prod.mk.injEq] at hfacts
  obtain ⟨hresults, hgeneration, hsecond⟩ := hfacts
  obtain ⟨y, hblind', hok⟩ := Option.map_eq_some_iff.mp hsecond
  obtain ⟨⟨result, w⟩, m⟩ := y
  have hview := outline_view.faulty FaultRule.none
  obtain ⟨h, hreplay, hseen⟩ := replay_of_blind hview hblind
  rw [← hseen] at hgeneration hblind'
  obtain ⟨hresult, _⟩ := Handle.perform_of_blind (h := h) hview hblind'
  have hwrites : ∀ r ∈ [Request.write "a" (.one 1)], r.isUpdate = true :=
    List.forall_mem_singleton.mpr rfl
  -- the streams after the first write are those of an ordered map
  have hcontents := (Handle.expects_of_replay hreplay).live.2
  have hstreams : Handle.afterAll [.write "a" (.one 1)] x.1 []
      = [⟨"a", Flags.none, 1, ⟨#[1]⟩⟩] := by
    obtain ⟨results, z⟩ := x
    match results, hresults with
    | [.ok _], _ => rfl
  rw [hstreams] at hcontents
  have hsummary : h.vault.summary h.medium.medium
      = ⟨2, [⟨"a", Flags.none, 1, ⟨#[1]⟩⟩]⟩ := by
    rw [summary, hcontents]
    exact congrArg (Contents.mk · _) hgeneration
  cases result with
  | error e => cases hok
  | ok a =>
    have hperform : h.perform (.write "a" (.one 2)) = (.ok a, (h.perform _).2) :=
      Prod.ext hresult rfl
    obtain ⟨_, hshown⟩ := shows_previous_generation (FaultRule.none_within.obeys)
      (Handle.undisturbed_of_replay hwrites hreplay) (Request.advances_of_isUpdate rfl) hperform
      (Superblock.size_begun (Nat.zero_lt_succ 8)) (Superblock.decode_begun (Nat.zero_lt_succ 8))
      (fun _ _ hsame => nomatch hsame) acceptable_eightBlocks
    rw [hsummary] at hshown
    exact ⟨x.1, h, hreplay, a, _, hperform, hshown⟩

end StateVault.Vault
