/-
  StateVault.Proofs.Envelope.Stored
  ─────────────────────────────────
  **AN ENVELOPE THAT WAS STORED IS THE ENVELOPE THAT COMES BACK, UNLESS IT IS
  TOO DEEP.**

  The writer stores every envelope, the reader takes up to 127 levels.  So
  after a write that went through the stream holds the payload of the
  envelope, whatever has become of the handle before, and a read of it
  returns the envelope or, if it has more levels, fails, and what the stream
  held before is gone.  The same after closing and opening, if the image is
  one that opens.

    • `writeEnvelope_stores`    — what a write makes of the streams,
    • `envelope_returns`        — writing, then reading, after any run,
    • `deep_envelope_is_lost`   — an envelope of 128 levels.
-/
import StateVault.Proofs.Envelope.RoundTrip
import StateVault.Proofs.Vault.Upheld
import StateVault.Vault.Envelopes

namespace StateVault

open Json (HasDistinctKeys ReadsBack Throughout maxDepth)

/-- What the payload of an envelope is read as. -/
def Envelope.returned (e : Envelope) : Except Error Envelope :=
  if e.toJson.depth ≤ maxDepth then .ok e else .error (.envelope .notJson)

namespace Vault

variable {F : Failures} {v w : Vault} {t t' : Watched} {name : String}
  {e : Envelope}

/-! ## §1. Reading. -/

/-- A stream of the handle that holds the payload of an envelope. -/
def HoldsEnvelope (v : Vault) (image : Image) (name : String) (e : Envelope) : Prop :=
  ∃ s ∈ v.contents image, s.name = name ∧ s.bytes = e.encode

/-- Reading an envelope that the vault holds gives what comes back of it. -/
theorem readEnvelope_ensures (h : v.Live t.image) (hholds : v.HoldsEnvelope t.image name e)
    (hkeys : e.toJson.Throughout HasDistinctKeys) (hreads : e.toJson.Throughout ReadsBack) :
    (readEnvelope name v).Ensures Failures.none (fun _ => True) t fun outcome _ =>
      outcome.1 = e.returned := by
  obtain ⟨s, hs, rfl, hbytes⟩ := hholds
  unfold readEnvelope
  rw [Action.ensures_bind]
  refine (read_of_mem h trivial hs).mono ?_
  intro outcome t' hend
  obtain ⟨result, w⟩ := outcome
  obtain ⟨_, _, hread⟩ := hend
  cases result with
  -- a stream the vault holds is read without an error
  | error err => exact absurd hread id
  | ok payload =>
    -- its bytes are those that were written, so all is up to the reader
    show Envelope.decode payload = e.returned
    rw [show payload = e.encode from hread.trans hbytes]
    exact Envelope.decode_of_render (Envelope.payloadText_encode e) hkeys hreads

/-! ## §2. Writing. -/

/-- Writing an envelope is a request of one commit, with its payload. -/
theorem writeEnvelope_ends (h : v.Live t.image) (name : String)
    (hsize : e.encode.size < UInt64.size) :
    (writeEnvelope name e v).Ensures F (fun _ => True) t
      ((Request.write name ⟨e.encode, hsize⟩).Ended F v t) := by
  unfold writeEnvelope
  rw [write_eq name e.encode v t.image]
  exact (writeWith_ends h (.write name ⟨e.encode, hsize⟩) name ⟨e.encode, hsize⟩ _ rfl).weaken
    fun _ _ => trivial

/-- After a write that went through, the stream holds the payload. -/
theorem writeEnvelope_stores (h : v.Upheld t.image) (name : String)
    (hsize : e.encode.size < UInt64.size) :
    (writeEnvelope name e v).Ensures Failures.none (fun _ => True) t fun outcome t' =>
      outcome.2.Upheld t'.image
        ∧ (outcome.1 = .ok () → outcome.2.HoldsEnvelope t'.image name e) := by
  refine (writeEnvelope_ends h.live name hsize).mono ?_
  intro outcome t' hend
  refine ⟨h.course (hend.course h.live), ?_⟩
  obtain ⟨result, w⟩ := outcome
  rintro rfl
  -- the write succeeded, so the stream is there under its name
  obtain ⟨⟨_, _, hcontents, _⟩, _⟩ := hend
  have hcontents : w.contents t'.image = Stream.put _ (v.contents t.image) := hcontents
  unfold HoldsEnvelope
  rw [hcontents]
  exact ⟨_, Stream.mem_put_self _ _, rfl, rfl⟩

/-! ## §3. Closing, opening and reading. -/

/-- Close, open with some settings, and read an envelope. -/
def rereadEnvelope (settings : Settings) (name : String) : Script (Except Error Envelope) :=
  (close.andThen fun _ => mount settings).andThen fun v =>
    (readEnvelope name v).bind fun outcome => .done outcome.1

/-- After closing and opening the same is read, if the image has all blocks that
its record tells of; otherwise it does not open. -/
theorem rereadEnvelope_ensures (h : v.Upheld t.image)
    (hholds : v.HoldsEnvelope t.image name e)
    (hkeys : e.toJson.Throughout HasDistinctKeys) (hreads : e.toJson.Throughout ReadsBack)
    {settings : Settings} (hsettings : Acceptable settings) :
    (rereadEnvelope settings name).Ensures Failures.none (fun _ => True) t fun result _ =>
      (v.Covers t.image → result = e.returned)
        ∧ (¬ v.Covers t.image → ∃ err, result = .error err) := by
  unfold rereadEnvelope
  rw [Script.ensures_andThen]
  refine (reopen_of_upheld h settings).mono ?_
  intro result t' hend
  cases result with
  | error err =>
    -- acceptable settings leave one cause: the image is shorter than its header says
    have hshort : ¬ v.Covers t.image := hend hsettings
    exact ⟨fun hcovers => absurd hcovers hshort, fun _ => ⟨err, rfl⟩⟩
  | ok w =>
    obtain ⟨rfl, hcovers, hreopened⟩ := hend
    have hlive := (hreopened.live h.live hcovers).1
    -- opening finds the superblock and the directory, hence the same streams
    have hholds' : w.HoldsEnvelope t'.image name e := by
      unfold HoldsEnvelope at hholds ⊢
      rw [contents_congr hreopened.superblock hreopened.directory]
      exact hholds
    show Script.Ensures _ _ (Script.bind _ _) t' _
    rw [Script.ensures_bind]
    refine (readEnvelope_ensures hlive hholds' hkeys hreads).mono ?_
    intro outcome _ hresult
    exact ⟨fun _ => hresult, fun hshort => absurd hcovers hshort⟩

/-! ## §4. After any run. -/

section Media

variable {μ : Type} [Medium μ] {image : μ → Image} {m m' : μ}

/-- An envelope whose write went through, on an image that upholds the vault
before it: read on the handle, and after closing and opening. -/
theorem Upheld.returns (hobeys : Obeys Failures.none image) (h : v.Upheld (image m))
    (hkeys : e.toJson.Throughout HasDistinctKeys) (hreads : e.toJson.Throughout ReadsBack)
    (hsize : e.encode.size < UInt64.size)
    (hwrite : (writeEnvelope name e v).run m = ((.ok (), w), m')) :
    ((readEnvelope name w).run m').1.1 = e.returned
      ∧ ∀ settings, Acceptable settings →
          (w.Covers (image m') → ((rereadEnvelope settings name).run m').1 = e.returned)
            ∧ (¬ w.Covers (image m') →
                ∃ err, ((rereadEnvelope settings name).run m').1 = .error err) := by
  obtain ⟨_, _, hstores⟩ := (writeEnvelope_stores (t := ⟨image m, 0⟩) h name hsize).on_medium
    hobeys
  rw [hwrite] at hstores
  obtain ⟨hupheld, hholds⟩ := hstores
  have hholds := hholds rfl
  -- at once, and after the image is opened again
  constructor
  · obtain ⟨_, _, hread⟩ := (readEnvelope_ensures (t := ⟨image m', 0⟩) hupheld.live hholds hkeys
      hreads).on_medium hobeys
    exact hread
  · intro settings hsettings
    obtain ⟨_, _, hreread⟩ := (rereadEnvelope_ensures (t := ⟨image m', 0⟩) hupheld hholds hkeys
      hreads hsettings).on_medium hobeys
    exact hreread

/-- **What is written is what is read.**  After any run on a medium that does
not fail, an envelope whose write went through is returned by a read of the
stream, if it has no more than 127 levels; a read of a deeper one fails.  The
same holds after closing and opening, with any settings that can be used, if
the image is as long as its superblock says; otherwise it does not open.  The
premises are that no object in the envelope has a key twice and that its
doubles read back. -/
theorem envelope_returns (hobeys : Obeys Failures.none image) {h : Handle μ} (hr : h.Obtained)
    (hkeys : e.toJson.Throughout HasDistinctKeys) (hreads : e.toJson.Throughout ReadsBack)
    (hsize : e.encode.size < UInt64.size)
    (hwrite : (writeEnvelope name e h.vault).run h.medium = ((.ok (), w), m)) :
    ((readEnvelope name w).run m).1.1
        = (if e.toJson.depth ≤ maxDepth then .ok e else .error (.envelope .notJson))
      ∧ ∀ settings, Acceptable settings →
          (((rereadEnvelope settings name).run m).1 = .ok e
            ↔ e.toJson.depth ≤ maxDepth ∧ w.Covers (image m)) := by
  obtain ⟨hread, hreread⟩ := (hr.upheld hobeys).returns hobeys hkeys hreads hsize hwrite
  refine ⟨hread, fun settings hsettings => ?_⟩
  obtain ⟨hlong, hshort⟩ := hreread settings hsettings
  constructor
  · intro hback
    -- a short image gives an error, so an answer tells that it is long enough
    have hcovers : w.Covers (image m) := by
      by_contra hnot
      obtain ⟨err, hfails⟩ := hshort hnot
      rw [hback] at hfails
      cases hfails
    refine ⟨?_, hcovers⟩
    -- and one that is too deep is refused by the reader
    by_contra hdeep
    have hreturned := hback.symm.trans (hlong hcovers)
    rw [Envelope.returned, if_neg hdeep] at hreturned
    cases hreturned
  · rintro ⟨hdepth, hcovers⟩
    exact (hlong hcovers).trans (if_pos hdepth)

end Media

/-! ## §5. Two envelopes. -/

/-- Arrays within arrays, and nothing in the innermost. -/
def arrays : Nat → Json
  | 0 => .array []
  | n + 1 => .array [arrays n]

/-- `n` arrays in one more have as many levels. -/
theorem depth_arrays (n : Nat) : (arrays n).depth = n + 1 := by
  induction n with
  | zero => rfl
  | succ n ih => rw [arrays, Json.depth, Json.itemsDepth, Json.itemsDepth, ih, Nat.max_zero]

theorem throughout_arrays {P : Json → Prop} (h : ∀ items, P (.array items)) (n : Nat) :
    (arrays n).Throughout P := by
  induction n with
  | zero => exact Json.throughout_array.mpr ⟨h _, fun v hv => nomatch hv⟩
  | succ n ih => exact Json.throughout_array.mpr ⟨h _, List.forall_mem_singleton.mpr ih⟩

/-- What there is to know of writing an envelope to a new vault of eight
blocks: whether it goes through, the bytes that the superblock says there are
then, and those of the image. -/
def outlineOfWrite (e : Envelope) : Option (Bool × Nat × Nat) :=
  (blindReplay eightBlocks [] (Outline.ofImage ByteArray.empty)).bind fun x =>
    ((writeEnvelope "a" e x.2.vault).blind x.2.medium).map fun y =>
      (y.1.1.isOk, y.1.2.superblock.totalBlocks.toNat * y.1.2.width, y.2.length)

theorem written_of_outline (h : outlineOfWrite e = some (true, 4096, 4096)) :
    ∃ (h : Handle Image) (w : Vault) (m : Image),
      (format eightBlocks).run ByteArray.empty = (.ok h.vault, h.medium)
        ∧ (writeEnvelope "a" e h.vault).run h.medium = ((.ok (), w), m) ∧ w.Covers m := by
  obtain ⟨x, hblind, hrest⟩ := Option.bind_eq_some_iff.mp h
  obtain ⟨⟨⟨result, w⟩, o⟩, hwrite, hfacts⟩ := Option.map_eq_some_iff.mp hrest
  simp only [Prod.mk.injEq] at hfacts
  obtain ⟨hok, hcovered, hlength⟩ := hfacts
  -- neither call reads, so the outline decides how they end on the image
  obtain ⟨h, hreplay, hseen⟩ := replay_of_blind outline_view hblind
  rw [← hseen] at hwrite
  obtain ⟨m, hrun, rfl⟩ := outline_view.run_of_blind (m := h.medium) hwrite
  cases result with
  | error err => cases hok
  | ok u =>
    exact ⟨h, w, m, format_of_replay hreplay, hrun, Nat.le_of_eq (hcovered.trans hlength.symm)⟩

/-- A list of a truth value and nothing, and a text. -/
def shallow : Envelope :=
  ⟨[("k", .string "é"), ("a", .array [.bool true, .null])]⟩

/-- It comes back, also after closing and opening. -/
theorem envelope_returns_shallow :
    ∃ (h : Handle Image) (w : Vault) (m : Image),
      (format eightBlocks).run ByteArray.empty = (.ok h.vault, h.medium)
        ∧ (writeEnvelope "a" shallow h.vault).run h.medium = ((.ok (), w), m)
        ∧ ((readEnvelope "a" w).run m).1.1 = .ok shallow
        ∧ ((rereadEnvelope eightBlocks "a").run m).1 = .ok shallow := by
  have hkeys : shallow.toJson.Throughout HasDistinctKeys := by decide
  have hreads : shallow.toJson.Throughout ReadsBack := by
    simp [shallow, Envelope.toJson, Throughout, Json.parts, Json.memberParts, Json.itemParts,
      ReadsBack]
  have hdepth : shallow.toJson.depth ≤ maxDepth := by decide
  have hsize : shallow.encode.size < UInt64.size := by
    rw [Envelope.encode, Text.Utf16.size_toBytes]
    decide +kernel
  obtain ⟨h, w, m, hformat, hwrite, hcovers⟩ :=
    written_of_outline (e := shallow) (by decide +kernel)
  obtain ⟨hread, hreread⟩ := envelope_returns image_obeys (.formatted hformat) hkeys hreads hsize
    hwrite
  exact ⟨h, w, m, hformat, hwrite, hread.trans (if_pos hdepth),
    (hreread eightBlocks acceptable_eightBlocks).mpr ⟨hdepth, hcovers⟩⟩

/-- One key, and in it 127 arrays within each other. -/
def deep : Envelope :=
  ⟨[("k", arrays 126)]⟩

/-- An envelope of too many levels does not come back. -/
theorem returned_deep : deep.returned = .error (.envelope .notJson) := by
  refine if_neg ?_
  rw [deep, Envelope.toJson, Json.depth, Json.membersDepth, Json.membersDepth, depth_arrays]
  decide

/-- It is written, and does not come back. -/
theorem deep_envelope_is_lost :
    deep.toJson.Throughout HasDistinctKeys ∧ deep.toJson.Throughout ReadsBack
      ∧ ∃ (h : Handle Image) (w : Vault) (m : Image),
        (format eightBlocks).run ByteArray.empty = (.ok h.vault, h.medium)
          ∧ (writeEnvelope "a" deep h.vault).run h.medium = ((.ok (), w), m)
          ∧ ((readEnvelope "a" w).run m).1.1 = .error (.envelope .notJson)
          ∧ ((rereadEnvelope eightBlocks "a").run m).1 = .error (.envelope .notJson) := by
  have hkeys : deep.toJson.Throughout HasDistinctKeys :=
    Json.throughout_object.mpr ⟨List.nodup_singleton _,
      List.forall_mem_singleton.mpr (throughout_arrays (fun _ => trivial) _)⟩
  have hreads : deep.toJson.Throughout ReadsBack :=
    Json.throughout_object.mpr ⟨trivial,
      List.forall_mem_singleton.mpr (throughout_arrays (fun _ => trivial) _)⟩
  have hsize : deep.encode.size < UInt64.size := by
    rw [Envelope.encode, Text.Utf16.size_toBytes]
    decide +kernel
  obtain ⟨h, w, m, hformat, hwrite, hcovers⟩ := written_of_outline (e := deep) (by decide +kernel)
  -- the write goes through, and what it returns is the error of the reader
  have hupheld := (Handle.Obtained.formatted hformat).upheld image_obeys
  obtain ⟨hread, hreread⟩ := hupheld.returns image_obeys hkeys hreads hsize hwrite
  exact ⟨hkeys, hreads, h, w, m, hformat, hwrite, hread.trans returned_deep,
    ((hreread eightBlocks acceptable_eightBlocks).1 hcovers).trans returned_deep⟩

end Vault

end StateVault
