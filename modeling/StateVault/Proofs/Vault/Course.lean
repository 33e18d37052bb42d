/-
  StateVault.Proofs.Vault.Course
  ──────────────────────────────
  **WHAT A REQUEST CAN DO TO A VAULT AND ITS IMAGE.**

  Whatever is asked of an open vault, and whichever storage calls fail in it,
  vault and image go through two kinds of steps: a stretch in which nothing is
  decided, at the end of which the vault differs in its block map at most, and
  a commit that has gone through (`Course`).  What is kept by both kinds is
  kept by every request.

    • `Request.ensures_course` — one request,
    • `Course.live`, `Course.packed`, `Course.recorded`,
      `Course.hasDirectory`, `Course.attested` — what is kept.
-/
import StateVault.Proofs.Vault.Durability

namespace StateVault

/-- Syncs go through, and a write that fails lands nothing. -/
structure Failures.Clean (F : Failures) : Prop where
  sync : ¬ F.sync
  tear : ∀ count landed, ¬ F.tear count landed

theorem Failures.clean_none : Failures.none.Clean :=
  ⟨id, fun _ _ => id⟩

namespace Vault

variable {F : Failures} {v w : Vault} {t t' : Watched} {d : Directory} {safe : Prop}

/-! ## §1. Courses. -/

/-- From the vault `v` on the medium `t`, any number of undecided stretches and
of commits. -/
inductive Course (F : Failures) (v : Vault) (t : Watched) : Vault → Watched → Prop where
  | start : Course F v t v t
  | undecided {safe : Prop} {w x : Vault} {t₁ t' : Watched} (h : Course F v t w t₁)
      (hundecided : Undecided F safe w t₁ t') (halike : w.Alike x) (hsound : x.Sound)
      (haddress : x.Addressable) : Course F v t x t'
  | renewed {w x : Vault} {t₁ t' : Watched} {d : Directory} (h : Course F v t w t₁)
      (hr : Renewed F w t₁ d x t') (hlive : x.Live t'.image)
      (hpacked : w.Packed t₁.image → x.Packed t'.image) : Course F v t x t'

theorem Course.live (h : Course F v t w t') (hlive : v.Live t.image) : w.Live t'.image := by
  induction h with
  | start => exact hlive
  | undecided _ hundecided halike hsound haddress ih =>
    exact (ih.kept hundecided halike hsound haddress).1
  | renewed _ _ hlive _ _ => exact hlive

/-- A resize is such a course, of commits of the same directory. -/
theorem Passage.course (h : Passage F v t w t') (hlive : v.Live t.image) :
    Course F v t w t' := by
  induction h with
  | start => exact .start
  | renewed _ hr ih =>
    have hbefore := ih.live hlive
    exact ih.renewed hr (hr.contents_same hbefore).1 (hr.packed_same hbefore)

/-- A request of one commit is one step. -/
theorem Request.Ended.course {α : Type} {r : Request} {outcome : Except Error α × Vault}
    (hend : r.Ended F v t outcome t') (hlive : v.Live t.image) : Course F v t outcome.2 t' := by
  obtain ⟨result, w⟩ := outcome
  cases result with
  | ok a =>
    obtain ⟨⟨⟨d, hr⟩, hafter, _, hpacked⟩, _⟩ := hend
    exact Course.start.renewed hr hafter hpacked
  | error e =>
    exact Course.start.undecided hend.undecided hend.keeps.alike hend.sound
      (hend.addressable hlive.addressable)

/-- After a request the image is as long as the map if it was so before. -/
theorem Request.Ended.room {α : Type} {r : Request} {outcome : Except Error α × Vault}
    (hend : r.Ended F v t outcome t') (hroom : v.Room t.image) : outcome.2.Room t'.image := by
  obtain ⟨result, w⟩ := outcome
  cases result with
  | ok a =>
    obtain ⟨d, hr⟩ := hend.1.renewed
    exact hr.decided.room hroom
  | error e => exact Lengthened.room hend.toLengthened hroom

/-- **One request**, whatever comes of it.  If it is one that is permitted, the
image stays as long as the map of the vault. -/
theorem Request.ensures_course (h : v.Live t.image) (r : Request) :
    (r.action v).Ensures F (fun _ => True) t fun outcome t' =>
      Course F v t outcome.2 t'
        ∧ (r.Permitted v → v.Room t.image → outcome.2.Room t'.image) := by
  refine Request.ensures_cases trivial (fun hupdate => ?_) ?_ fun _ _ => ⟨.start, fun _ => id⟩
  · exact ((Request.ensures_end h (Request.advances_of_isUpdate hupdate)).weaken
      fun _ _ => trivial).mono fun _ _ hend => ⟨hend.course h, fun _ => hend.room⟩
  · rintro total rfl
    have hresize := resize_ensures (F := F) (I := fun _ => True) h.sound h.addressable h.region
      total fun _ _ _ _ _ => trivial
    refine (hresize.and_yields (resize_yields h.sound total)).mono fun outcome t' hend => ?_
    obtain ⟨⟨⟨x, t₁, hpassage, hundecided, halike⟩, haddress, hroom⟩, hsame⟩ := hend
    exact ⟨(hpassage.course h).undecided hundecided halike hsame.sound haddress, hroom⟩

/-! ## §2. What a course keeps. -/

/-- **A packed vault stays packed**, through undecided stretches and commits. -/
theorem Course.packed (h : Course F v t w t') (hlive : v.Live t.image)
    (hpacked : v.Packed t.image) : w.Packed t'.image := by
  induction h with
  | start => exact hpacked
  | undecided before hundecided halike _ _ ih =>
    exact (ih.of_keeps (before.live hlive) hundecided.kept).congr halike.superblock
      halike.directory
  | renewed _ _ _ hrepacked ih => exact hrepacked ih

/-- An image that records the vault at first does so at the end, however short
it is. -/
theorem Course.recorded (h : Course F v t w t') (hF : F.Mild) (hlive : v.Live t.image)
    (hrecorded : v.Recorded t.image) : w.Recorded t'.image := by
  induction h with
  | start => exact hrecorded
  | undecided before hundecided halike _ _ ih =>
    exact ih.kept hF (before.live hlive).sound hundecided halike
  | renewed before hr _ _ ih => exact hr.recorded (before.live hlive).sound ih.anchored

/-- The blocks of the directory are in use, so that they are not cut off. -/
theorem HasDirectory.of_keeps {image image' : Image} (h : v.HasDirectory image) (hs : v.Sound)
    (hkept : Bytes.Keeps v.Guards image image') : v.HasDirectory image' := by
  obtain ⟨hnonempty, _⟩ := Superblock.directory_of_check hs.check
  have hwidth := hs.held.width_bounds
  have hpos : 0 < v.superblock.directory.count.toNat * v.width :=
    Nat.mul_pos (Nat.pos_of_ne_zero hnonempty) (by omega)
  have hstop := Nat.add_mul v.superblock.directory.start.toNat
    v.superblock.directory.count.toNat v.width
  -- the last byte of the directory
  have hlast : v.Guards ((v.superblock.directory.start.toNat
      + v.superblock.directory.count.toNat) * v.width - 1) :=
    hs.held.guards_extent List.mem_cons_self ⟨by omega, by omega⟩
  unfold HasDirectory at h ⊢
  have hlt := hkept.lt_size hlast (by omega)
  omega

/-- The directory stays through what is undecided. -/
theorem HasDirectory.kept (h : v.HasDirectory t.image) (hs : v.Sound)
    (hundecided : Undecided F safe v t t') (halike : v.Alike w) : w.HasDirectory t'.image := by
  have hdirectory := h.of_keeps hs hundecided.kept
  unfold HasDirectory width at hdirectory ⊢
  rw [halike.superblock]
  exact hdirectory

/-- The blocks of a directory that a commit has written are there. -/
theorem Renewed.hasDirectory (hr : Renewed F v t d w t') : w.HasDirectory t'.image := by
  obtain ⟨hnonempty, _⟩ := Superblock.directory_of_check hr.sound.check
  have hwidth := hr.sound.held.width_bounds
  exact hr.decided.directory.inBounds hr.follows.length_le
    (Nat.mul_pos (Nat.pos_of_ne_zero hnonempty) (by omega))

/-- The directory in hand stays in the image: it is guarded until a commit
replaces it. -/
theorem Course.hasDirectory (h : Course F v t w t') (hlive : v.Live t.image)
    (hdirectory : v.HasDirectory t.image) : w.HasDirectory t'.image := by
  induction h with
  | start => exact hdirectory
  | undecided before hundecided halike _ _ ih =>
    exact ih.kept (before.live hlive).sound hundecided halike
  | renewed _ hr _ _ _ => exact hr.hasDirectory

/-! ## §3. What it keeps if no write is torn. -/

/-- Where no write is torn, the copy that does not count stays as it is. -/
theorem Torn.eq_of_clean (hF : F.Clean) {old new : ByteArray} (h : Torn F old new) :
    new = old := by
  cases h with
  | same => rfl
  | torn _ _ hlanded => exact absurd hlanded (hF.tear _ _)

/-- An undecided image attests what it attested. -/
theorem Attested.of_undecided (hF : F.Clean) (h : v.Attested t.image) (hs : v.Sound)
    (haddress : v.Addressable) (hdirectory : v.HasDirectory t.image)
    (hundecided : Undecided F safe v t t') : v.Attested t'.image := by
  have hspare : v.spare t'.image = v.spare t.image := (hundecided.torn hF.sync).2.eq_of_clean hF
  apply h.of_hasDirectory hs haddress hdirectory hundecided.kept
  rw [hspare]
  exact h.chosen.2

/-- The image after a record attests the new vault: the copy that counted
before is a generation older. -/
theorem Renewed.attested (hr : Renewed F v t d w t') (hs : v.Sound) (haddress : v.Addressable)
    (h : v.Attested t.image) : w.Attested t'.image := by
  have hregion := h.region
  have hsize : regionSize = 1024 := rfl
  have hslot := slot_offset_le v.slot
  have hregion' := region_of_keeps hs.held hregion hr.decided.kept
  have hbefore : Bytes.slice t'.image v.slot.offset 64 = Bytes.slice t.image v.slot.offset 64 := by
    apply hr.decided.kept.slice (by omega)
    intro p hlow hhigh
    exact hs.held.guards_slot hlow hhigh
  refine ⟨hregion', current_of_chosen hregion' ?_ ?_, ?_⟩
  · rw [hr.decided.record]
    exact Superblock.decode_encode hr.sound.check
  -- the copy that counted is now the other one, and a generation older
  · rw [hr.follows.slot, Slot.other_other, hbefore, h.chosen.1]
    exact Superblock.choose_later hr.follows.toNat_generation _
  · have hbytes := hr.decided.directory.bytes hr.follows.length_le
    rw [(directory_place hr.sound (hr.decided.addressable haddress)).1, hr.follows.length]
    rw [hr.follows.directory] at hbytes ⊢
    rw [hbytes]
    have hvalid := hr.sound.valid
    rw [hr.follows.directory] at hvalid
    exact Directory.decode_bytes hvalid _

/-- **The image attests the vault in hand**, unless a record was torn or a sync
failed. -/
theorem Course.attested (h : Course F v t w t') (hF : F.Clean) (hlive : v.Live t.image)
    (hdirectory : v.HasDirectory t.image) (hattested : v.Attested t.image) :
    w.Attested t'.image := by
  induction h with
  | start => exact hattested
  | undecided before hundecided halike _ _ ih =>
    have hbefore := before.live hlive
    exact (ih.of_undecided hF hbefore.sound hbefore.addressable
      (before.hasDirectory hlive hdirectory) hundecided).congr halike.superblock halike.slot
        halike.directory
  | renewed before hr _ _ ih =>
    have hbefore := before.live hlive
    exact hr.attested hbefore.sound hbefore.addressable ih

end Vault

end StateVault
