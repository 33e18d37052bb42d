/-
  StateVault.Proofs.Vault.CopyOnWrite
  ───────────────────────────────────
  **AN UPDATE WRITES INTO FREE BLOCKS ONLY.**

  Bytes and directory of an update go to blocks that were free, and the record
  of it to the copy of the superblock that does not count.  So a byte in a
  block in use is there before the update, after each of its storage calls and
  at its end, whichever calls fail and however much of a failing write lands.

    • `Request.ensures_kept`  — what one update keeps,
    • `Expects.hasDirectory`  — the directory is in the image, after any
                                requests,
    • `Live.lt_size`          — and so is every block in use,
    • `copy_on_write`         — the bytes of these blocks, call by call.
-/
import StateVault.Proofs.Vault.Agreement

namespace StateVault.Vault

variable {F : Failures} {v w : Vault} {t t' : Watched}

/-! ## §1. One update. -/

/-- A request that is done has changed no guarded byte. -/
theorem Request.Made.kept {r : Request} (h : r.Made F v t w t') :
    Bytes.Keeps v.Guards t.image t'.image := by
  obtain ⟨_, hrenewed⟩ := h.renewed
  exact hrenewed.decided.kept

theorem Request.Underway.kept {r : Request} (h : r.Underway F v t t') :
    Bytes.Keeps v.Guards t.image t'.image := by
  rcases h with hundecided | ⟨_, hmade⟩
  · exact hundecided.kept
  · exact hmade.kept

/-- At its end none has, whether it went through or not. -/
theorem Request.Ended.kept {α : Type} {r : Request} {outcome : Except Error α × Vault}
    (h : r.Ended F v t outcome t') : Bytes.Keeps v.Guards t.image t'.image := by
  obtain ⟨result, w⟩ := outcome
  cases result with
  | ok a => exact h.1.kept
  | error e => exact h.undecided.kept

/-- **One update** keeps what is guarded, after each of its calls and at its
end. -/
theorem Request.ensures_kept (h : v.Live t.image) {r : Request} (hupdate : r.isUpdate = true) :
    (r.action v).Ensures F (fun t' => Bytes.Keeps v.Guards t.image t'.image) t
      fun _ t' => Bytes.Keeps v.Guards t.image t'.image :=
  ((Request.ensures_end h (Request.advances_of_isUpdate hupdate)).weaken
    fun _ hunderway => hunderway.kept).mono fun _ _ hend => hend.kept

/-! ## §2. Blocks in use are in the image. -/

section Runs

variable {ω : Type} {rule : FaultRule ω} {h : Handle (Faulty rule Image)} {streams : List Stream}

/-- The directory of an open vault is in its image. -/
theorem Handle.Expects.hasDirectory (hr : h.Expects streams) :
    h.vault.HasDirectory h.medium.medium := by
  have hobeys := rule.within_any.obeys
  induction hr with
  | @formatted settings v m m' hrun => exact (attached_of_format hobeys hrun).hasDirectory
  | @mounted settings v m m' hsize hrun => exact (attached_of_mount hobeys hsize hrun).hasDirectory
  | @performed h streams before r ih =>
    obtain ⟨_, _, hcourse, _⟩ := (Request.ensures_course (t := ⟨h.medium.medium, 0⟩)
      before.live.1 r).on_medium hobeys
    exact hcourse.hasDirectory before.live.1 ih

/-- Positions in an extent are in an image that reaches to its end. -/
theorem lt_size_of_mem {others : List Extent} {e : Extent} {image : Image} (hheld : v.Held others)
    (hfits : e.Fits v.blocks.total)
    (hend : (e.start.toNat + e.count.toNat) * v.width ≤ image.size) {p : Nat}
    (hmem : p / v.width ∈ e) : p < image.size :=
  Nat.lt_of_lt_of_le ((hheld.mem_iff_inExtent hfits p).mp hmem).2 hend

/-- **Every block in use is in the image**: those of the superblock come before
the directory, and those of the streams are served. -/
theorem Live.lt_size {image : Image} (h : v.Live image) (hdirectory : v.HasDirectory image)
    {p : Nat} (hused : v.blocks.isUsed (p / v.width) = true) : p < image.size := by
  have hheld := h.sound.held
  obtain ⟨e, he, hmem⟩ := (hheld.owns.used _).mp hused
  have hfits := hheld.owns.within e he
  refine lt_size_of_mem hheld hfits ?_ hmem
  rcases List.mem_cons.mp he with rfl | he
  · -- the superblock
    obtain ⟨hnonempty, _⟩ := Superblock.directory_of_check h.sound.check
    have hafter := hheld.owns.after_superblock List.mem_cons_self hnonempty
    refine Nat.le_trans (Nat.mul_le_mul_right _ ?_) hdirectory
    show 0 + (superblockBlocks v.superblock.blockSize).toNat ≤ _
    omega
  · rcases List.mem_cons.mp he with rfl | he
    · exact hdirectory
    · -- a stream, which has a block
      obtain ⟨entry, hentry, rfl⟩ := List.mem_map.mp he
      exact h.inBounds entry hentry fun hzero =>
        absurd hmem (Extent.not_mem_of_isEmpty hzero _)

/-! ## §3. Updates of an open vault. -/

/-- **An update changes no byte in use**, whichever storage calls fail in it
and before it, and however much of a failing write lands: each byte of a block
in use that is not in the copy of the superblock that does not count is in the
image, after each storage call and when the update has gone through or
failed. -/
theorem copy_on_write (hr : h.Expects streams) {r : Request} (hupdate : r.isUpdate = true)
    {p : Nat} (hused : h.vault.blocks.isUsed (p / h.vault.width) = true)
    (hspare : ¬ h.vault.InSpare p) :
    ∃ byte, h.medium.medium.data[p]? = some byte
      ∧ (∀ m ∈ (r.action h.vault).states h.medium, m.medium.data[p]? = some byte)
      ∧ (h.perform r).2.medium.medium.data[p]? = some byte := by
  obtain ⟨hlive, _⟩ := hr.live
  have hlt : p < h.medium.medium.data.size := hlive.lt_size hr.hasDirectory hused
  have hbyte := Array.getElem?_eq_getElem hlt
  obtain ⟨hstates, _, hend⟩ := (Request.ensures_kept (t := ⟨h.medium.medium, 0⟩) hlive
    hupdate).on_medium rule.within_any.obeys
  -- the byte is guarded, and it is there to begin with
  refine ⟨_, hbyte, fun m hm => ?_, hend p _ ⟨hused, hspare⟩ hbyte⟩
  obtain ⟨_, hkept⟩ := hstates m hm
  exact hkept p _ ⟨hused, hspare⟩ hbyte

end Runs

/-- The record of a second write to a stream is torn.  The byte of the first
one, which starts the fourth block, is in the image all the time. -/
theorem copy_on_write_torn :
    ∃ results h, replay eightBlocks [.write "a" (.one 1)]
        (⟨ByteArray.empty, { Allowance.unlimited with writes := some 8, tears := true }⟩ :
          Faulty Allowance.rule Image) = some (results, h)
      ∧ (h.perform (.write "a" (.one 2))).1.isOk = false
      ∧ ∃ byte, h.medium.medium.data[1536]? = some byte
        ∧ (∀ m ∈ ((Request.write "a" (.one 2)).action h.vault).states h.medium,
            m.medium.data[1536]? = some byte)
        ∧ (h.perform (.write "a" (.one 2))).2.medium.medium.data[1536]? = some byte := by
  have hruns : (blindThen eightBlocks [.write "a" (.one 1)]
      (Request.write "a" (.one 2)).action (Faulty.seen Outline.ofImage (⟨ByteArray.empty,
        { Allowance.unlimited with writes := some 8, tears := true }⟩ :
          Faulty Allowance.rule Image))).map (fun x =>
      (x.1.2.vault.blocks.isUsed 3, x.1.2.vault.width, x.1.2.vault.slot.other.offset,
        x.2.1.1.isOk, x.2.2.state.tears)) = some (true, 512, 0, false, false) := by
    decide +kernel
  obtain ⟨⟨⟨results, o⟩, ⟨result, w⟩, o'⟩, hblind, hfacts⟩ := Option.map_eq_some_iff.mp hruns
  obtain ⟨h, m', hreplay, rfl, hrun, -⟩ :=
    then_of_blind (outline_view.faulty Allowance.rule) hblind
  simp only [Prod.mk.injEq] at hfacts
  obtain ⟨hused, hwidth, hspare, hfails, -⟩ :
      h.vault.blocks.isUsed 3 = true ∧ h.vault.width = 512 ∧ h.vault.slot.other.offset = 0
        ∧ result.isOk = false ∧ o'.state.tears = false := hfacts
  -- block 3 holds the stream, and 1536 is its first byte
  refine ⟨results, h, hreplay, ?_, copy_on_write (Handle.expects_of_replay hreplay)
    (r := .write "a" (.one 2)) rfl ?_ ?_⟩
  · show ((Request.action _ h.vault).run h.medium).1.1.isOk = false
    rw [hrun]
    exact hfails
  · rw [hwidth]
    exact hused
  · unfold InSpare
    rw [hspare]
    decide

end StateVault.Vault
