/-
  StateVault.Proofs.Vault.Exactness
  ─────────────────────────────────
  **WHAT IS IN USE IS WHAT WAS WRITTEN LAST, AND NO BLOCK MORE.**

  Reads, writes and new lengths may fail, as in a crash.  Between any two
  requests the blocks in use are as many as the lengths of the streams ask
  for, whatever has been written and deleted before; and each of their bytes
  is one that its owner has put there, or zero.

    • `Packed.exact`    — a packed vault in numbers and bytes,
    • `Shelved.request` — one request,
    • `exact_space`     — any run of requests, closings and mounts.
-/
import Mathlib.Algebra.Order.Floor.Div
import Mathlib.GroupTheory.GroupAction.Ring
import StateVault.Proofs.Vault.Course
import StateVault.Vault.Stats

namespace StateVault

theorem BlockMap.blocks_eq_sum (owners : List Extent) :
    blocks owners = (owners.map fun e => e.count.toNat).sum := by
  induction owners with
  | nil => rfl
  | cons e rest ih => rw [blocks, ih, List.map_cons, List.sum_cons]

namespace Vault

variable {F : Failures} {v w : Vault} {image : Image}

/-! ## §1. Exact vaults. -/

/-- The blocks that streams of these lengths take, with those of the superblock
and of the directory. -/
def blocksFor (blockSize : Nat) (lengths : List Nat) : Nat :=
  regionSize ⌈/⌉ blockSize + (32 + 96 * lengths.length) ⌈/⌉ blockSize
    + (lengths.map (· ⌈/⌉ blockSize)).sum

/-- The stream stands in the blocks of the entry, as many as it takes, with
zero bytes after its own. -/
structure Stores (v : Vault) (image : Image) (e : Entry) (s : Stream) : Prop where
  name : e.name = s.name
  flags : e.flags = s.flags
  length : e.length.toNat = s.bytes.size
  count : e.extent.count.toNat = s.bytes.size ⌈/⌉ v.width
  bytes : v.Holds image e.extent s.bytes

/-- The blocks in use are those that the streams ask for, and show nothing else. -/
structure Exact (v : Vault) (image : Image) (streams : List Stream) : Prop where
  stored : List.Forall₂ (v.Stores image) v.streams streams
  directoryBlocks : v.superblock.directory.count.toNat
    = (32 + 96 * streams.length) ⌈/⌉ v.width
  directoryBytes : ∃ bytes, v.directory.encode v.generation = .ok bytes
    ∧ v.Holds image v.superblock.directory bytes
  usedBlocks : v.stats.usedBlocks.toNat = blocksFor v.width (streams.map (·.bytes.size))
  /-- Each byte in use is one of a stream's or the directory's blocks, or of the
  copies of the superblock, or zero. -/
  inUse : ∀ p, v.blocks.isUsed (p / v.width) = true →
    (∃ e ∈ v.streams, v.InExtent e.extent p) ∨ v.InExtent v.superblock.directory p
      ∨ (∃ slot : Slot, slot.offset ≤ p ∧ p < slot.offset + 64) ∨ image.data[p]? = some 0

/-- A packed stream has exactly the blocks it takes. -/
theorem Packed.stores (h : v.Packed image) (hlive : v.Live image) {e : Entry}
    (he : e ∈ v.streams) : v.Stores image e (v.streamIn image e) where
  name := rfl
  flags := rfl
  length := (hlive.size_streamIn he).symm
  count := by
    rw [(h.streams e he).count, toNat_blocksToHold hlive.sound.held.blockSize,
      hlive.size_streamIn he]
    rfl
  bytes := (h.streams e he).bytes

/-- A packed directory has exactly the blocks that its number of entries takes. -/
theorem Packed.directory_count (h : v.Packed image) (hs : v.Sound) :
    v.superblock.directory.count.toNat = (32 + 96 * v.streams.length) ⌈/⌉ v.width := by
  obtain ⟨hsize, _, hmost⟩ := Directory.size_of_encode (hs.valid.encode v.generation)
  have hvalue : Directory.encodedSize v.directory.size = 32 + 96 * v.streams.length := by
    show 8 + v.directory.size * 96 + 24 = 32 + 96 * v.directory.size
    omega
  rw [h.directoryBlocks, Vault.directoryBlocks, toNat_blocksToHold hs.held.blockSize,
    UInt64.toNat_ofNat', Nat.mod_eq_of_lt (by omega), hvalue]
  rfl

/-- The owners have as many blocks as the streams ask for. -/
theorem Packed.usedBlocks (h : v.Packed image) (hlive : v.Live image) :
    v.stats.usedBlocks.toNat
      = blocksFor v.width ((v.contents image).map (·.bytes.size)) := by
  have hsuperblock : (superblockExtent v.superblock.blockSize).count.toNat
      = regionSize ⌈/⌉ v.width :=
    toNat_blocksToHold hlive.sound.held.blockSize 1024
  have hstreams : (streamExtents v.directory).map (fun e => e.count.toNat)
      = ((v.contents image).map (·.bytes.size)).map (· ⌈/⌉ v.width) := by
    rw [streamExtents, contents, List.map_map, List.map_map, List.map_map]
    exact List.map_congr_left fun e he => (h.stores hlive he).count
  have hlength : ((v.contents image).map (·.bytes.size)).length = v.streams.length := by
    rw [List.length_map, contents, List.length_map]
  show (v.blocks.total - v.blocks.free).toNat = _
  rw [hlive.sound.held.owns.toNat_used, BlockMap.blocks_eq_sum, List.map_cons, List.map_cons,
    List.sum_cons, List.sum_cons, hsuperblock, h.directory_count hlive.sound, hstreams,
    blocksFor, hlength, Nat.add_assoc]

/-- A byte in use is one of an owner's blocks. -/
theorem Packed.inUse (h : v.Packed image) (hs : v.Sound) {p : Nat}
    (hp : v.blocks.isUsed (p / v.width) = true) :
    (∃ e ∈ v.streams, v.InExtent e.extent p) ∨ v.InExtent v.superblock.directory p
      ∨ (∃ slot : Slot, slot.offset ≤ p ∧ p < slot.offset + 64)
      ∨ image.data[p]? = some 0 := by
  -- a block in use has an owner, and the owners are three kinds
  obtain ⟨owner, howner, hblock⟩ := (hs.held.owns.used _).mp hp
  have hin := (hs.held.mem_iff_inExtent (hs.held.owns.within owner howner) p).mp hblock
  rcases List.mem_cons.mp howner with rfl | howner
  · by_cases hcopy : ∃ slot : Slot, slot.offset ≤ p ∧ p < slot.offset + 64
    · exact Or.inr (Or.inr (Or.inl hcopy))
    · exact Or.inr (Or.inr (Or.inr
        (h.cleared p ⟨hin, fun slot hslot => hcopy ⟨slot, hslot⟩⟩)))
  · rcases List.mem_cons.mp howner with rfl | howner
    · exact Or.inr (Or.inl hin)
    · obtain ⟨e, he, rfl⟩ := List.mem_map.mp howner
      exact Or.inl ⟨e, he, hin⟩

/-- **A packed vault is exact.** -/
theorem Packed.exact (h : v.Packed image) (hlive : v.Live image) :
    v.Exact image (v.contents image) where
  stored := List.forall₂_map_right_iff.mpr
    (List.forall₂_same.mpr fun _ he => h.stores hlive he)
  directoryBlocks := by
    rw [contents, List.length_map]
    exact h.directory_count hlive.sound
  directoryBytes := ⟨_, hlive.sound.valid.encode _, h.directoryBytes⟩
  usedBlocks := h.usedBlocks hlive
  inUse _ hp := h.inUse hlive.sound hp

/-! ## §2. One request. -/

/-- The image records the packed vault, with these streams. -/
structure Shelved (v : Vault) (image : Image) (streams : List Stream) : Prop where
  durable : v.Durable image
  packed : v.Packed image
  contents : v.contents image = streams

section Requests

variable {t t' : Watched} {streams : List Stream}

/-- **One request** leaves a packed vault with the streams of its result, and
the image records it. -/
theorem Shelved.request (hF : F.Mild) (h : v.Shelved t.image streams) {r : Request}
    (hpermitted : r.Permitted v) :
    (r.action v).Ensures F (fun _ => True) t fun outcome t' =>
      outcome.2.Shelved t'.image (r.after outcome.1 streams) := by
  have hrecall := (Request.ensures_recall hF h.durable hpermitted).weaken
    fun _ _ => trivial
  have hchange := Request.ensures_change (F := F) h.durable.live r
  have hcourse := Request.ensures_course (F := F) h.durable.live r
  refine ((hrecall.and_end hchange).and_end hcourse).mono ?_
  intro outcome t' hend
  obtain ⟨⟨hrecalled, hchanged⟩, hcourse, _⟩ := hend
  exact ⟨hrecalled.durable, hcourse.packed h.durable.live h.packed,
    hchanged.2.trans (by rw [h.contents])⟩

theorem Formatted.shelved {settings : Settings} (h : Formatted settings v image) :
    v.Shelved image [] :=
  ⟨h.durable, h.packed, h.contents⟩

/-- What opening comes to is shelved like the vault before. -/
theorem Shelved.reopened {settings : Settings} (h : v.Shelved image streams)
    (hr : v.Reopened settings w) : w.Shelved image streams where
  durable := (hr.durable h.durable.live h.durable.recorded
    (h.durable.live.sound.covers h.durable.room)).1
  packed := h.packed.congr hr.superblock hr.directory
  contents := (contents_congr hr.superblock hr.directory image).trans h.contents

/-- Mounting brings the vault back, or a read fails. -/
theorem Shelved.mount (h : v.Shelved t.image streams) (settings : Settings) :
    (mount settings).Ensures F (fun _ => True) t fun result t' => t' = t ∧
      ∀ w, result = .ok w → w.Shelved t.image streams := by
  obtain ⟨hlive, hrecorded, hroom⟩ := h.durable
  refine (mount_reopens hlive hrecorded (hlive.sound.covers hroom) trivial settings).mono ?_
  intro result t' hend
  obtain ⟨rfl, hreopened⟩ := hend
  exact ⟨rfl, fun w hw => h.reopened (hreopened w hw)⟩

end Requests

end Vault

/-! ## §3. Runs. -/

namespace Session

open Vault

/-- The streams after a step: a request changes them by its result. -/
def Step.after {μ : Type} [Medium μ] (s : Session μ) (streams : List Stream) :
    Step → List Stream
  | .request r => ((s.act r.action).1.map fun result => r.after result streams).getD streams
  | .close => streams
  | .mount _ => streams

section Runs

variable {ω : Type} {rule : FaultRule ω}

/-- The sessions that come of a format that went through and of any steps
after it, each with the streams that are expected: none at first, and then
those that each request made of them, by its result. -/
inductive Expects : Session (Faulty rule Image) → List Stream → Prop where
  | formatted {settings : Settings} {s s' : Session (Faulty rule Image)}
      (h : s.format settings = (.ok (), s')) : Expects s' []
  | step {s : Session (Faulty rule Image)} {streams : List Stream} (before : Expects s streams)
      (step : Step) (hpermitted : step.Permitted s) :
      Expects (step.take s) (step.after s streams)

/-- The image records a packed vault with these streams, the open one if one
is open. -/
def Shelved (s : Session (Faulty rule Image)) (streams : List Stream) : Prop :=
  ∃ v : Vault, v.Shelved s.medium.medium streams ∧ ∀ w, s.vault = some w → w = v

variable {s : Session (Faulty rule Image)} {streams : List Stream}

theorem shelved_open {x : Faulty rule Image} {v : Vault} (h : v.Shelved x.medium streams) :
    Shelved ⟨x, some v⟩ streams :=
  ⟨v, h, fun _ hw => (Option.some.inj hw).symm⟩

theorem shelved_closed {x : Faulty rule Image} {v : Vault} (h : v.Shelved x.medium streams) :
    Shelved ⟨x, none⟩ streams :=
  ⟨v, h, fun _ hw => nomatch hw⟩

/-- What one step keeps. -/
theorem Shelved.step (hrule : rule.Within Failures.crashes) (h : s.Shelved streams) (step : Step)
    (hpermitted : step.Permitted s) : (step.take s).Shelved (step.after s streams) := by
  have hobeys := hrule.obeys
  obtain ⟨v, hshelved, hopen⟩ := h
  cases step with
  | request r =>
    show Shelved (s.act r.action).2
      (((s.act r.action).1.map fun result => r.after result streams).getD streams)
    unfold act
    cases hvault : s.vault with
    | none => exact ⟨v, hshelved, hopen⟩
    | some w =>
      -- the open vault is the one that the image records
      obtain rfl := hopen w hvault
      obtain ⟨_, _, hend⟩ := (hshelved.request (t := ⟨s.medium.medium, 0⟩)
        Failures.mild_crashes (hpermitted w hvault)).on_medium hobeys
      exact shelved_open hend
  | close =>
    show Shelved s.close.2 streams
    unfold close
    cases hvault : s.vault with
    | none => exact ⟨v, hshelved, hopen⟩
    | some w =>
      obtain ⟨_, _, hsame⟩ := (close_ensures (F := Failures.crashes) (I := fun _ => True)
        (t := ⟨s.medium.medium, 0⟩) trivial).on_medium hobeys
      have himage : (Vault.close.run s.medium).2.medium = s.medium.medium :=
        congrArg Watched.image hsame
      exact shelved_closed (himage.symm ▸ hshelved)
  | mount settings =>
    show Shelved (s.mount settings).2 streams
    obtain ⟨_, _, hsame, hmounted⟩ := (hshelved.mount (F := Failures.crashes)
      (t := ⟨s.medium.medium, 0⟩) settings).on_medium hobeys
    unfold mount
    cases hrun : (Vault.mount settings).run s.medium with
    | mk result x =>
      rw [hrun] at hsame hmounted
      have himage : x.medium = s.medium.medium := congrArg Watched.image hsame
      cases result with
      | error e =>
        -- a read has failed, or the settings are refused; the image still records it
        have hstill : v.Shelved x.medium streams := himage.symm ▸ hshelved
        exact shelved_closed hstill
      | ok w =>
        have hfound : w.Shelved x.medium streams := himage.symm ▸ hmounted w rfl
        exact shelved_open hfound

/-- **The run lemma**: any session has the packed vault with the streams expected
of it. -/
theorem Expects.shelved (hrule : rule.Within Failures.crashes) (hr : s.Expects streams) :
    s.Shelved streams := by
  induction hr with
  | @formatted settings s s' hrun =>
    unfold format at hrun
    cases hscript : (Vault.format settings).run s.medium with
    | mk result x =>
      rw [hscript] at hrun
      cases result with
      | error e => cases hrun
      | ok v =>
        cases hrun
        exact shelved_open (formatted_of_run hrule.obeys hscript).shelved
  | step before step hpermitted ih => exact ih.step hrule step hpermitted

/-- Updates after a format, in a session. -/
theorem Expects.performAll {h : Handle (Faulty rule Image)} {rs : List Request}
    (hr : Expects ⟨h.medium, some h.vault⟩ streams) (hupdates : ∀ r ∈ rs, r.isUpdate = true) :
    Expects ⟨(h.performAll rs).2.medium, some (h.performAll rs).2.vault⟩
      (Handle.afterAll rs (h.performAll rs).1 streams) := by
  induction rs generalizing h streams with
  | nil => exact hr
  | cons r rs ih =>
    obtain ⟨hupdate, hrest⟩ := List.forall_mem_cons.mp hupdates
    exact ih (hr.step (.request r) fun v _ => Request.permitted_of_isUpdate hupdate v) hrest

/-- Requests on an open handle are steps of a session. -/
theorem expects_of_replay {settings : Settings} {rs : List Request} {m : Faulty rule Image}
    {h : Handle (Faulty rule Image)} {results : List (Except Error Answer)}
    (hreplay : replay settings rs m = some (results, h))
    (hupdates : ∀ r ∈ rs, r.isUpdate = true) :
    Expects ⟨h.medium, some h.vault⟩ (Handle.afterAll rs results []) := by
  unfold replay at hreplay
  cases hrun : (Vault.format settings).run m with
  | mk answer m' =>
    rw [hrun] at hreplay
    cases answer with
    | error e => cases hreplay
    | ok v =>
      -- the format of the replay is that of the session
      have hformat : (start m).format settings = (.ok (), ⟨m', some v⟩) := by
        show settle ((Vault.format settings).run m) = _
        rw [hrun]
        rfl
      have hend := Expects.performAll (h := ⟨v, m'⟩) (Expects.formatted hformat) hupdates
      rw [Option.some.inj hreplay] at hend
      exact hend

end Runs

end Session

/-- **Exact use of space.**  After any steps from a format that went through,
in which reads, writes and new lengths fail in any pattern, the image records
a vault, the open one if one is open, whose blocks are as many as the streams
written last ask for and show these streams, the directory, and nothing else. -/
theorem exact_space {ω : Type} {rule : FaultRule ω} (hrule : rule.Within Failures.crashes)
    {s : Session (Faulty rule Image)} {streams : List Stream} (hr : s.Expects streams) :
    ∃ v : Vault, v.Recorded s.medium.medium ∧ v.Exact s.medium.medium streams
      ∧ ∀ w, s.vault = some w → w = v := by
  obtain ⟨v, hshelved, hopen⟩ := hr.shelved hrule
  have hexact := hshelved.packed.exact hshelved.durable.live
  rw [hshelved.contents] at hexact
  exact ⟨v, hshelved.durable.recorded, hexact, hopen⟩

open Vault in
/-- A stream is deleted, another one is written, and the record of a second write
to that is torn.  Four blocks are in use, and show the other stream as it was. -/
theorem space_after_torn_write :
    ∃ results h, replay eightBlocks
        [.write "a" (.one 1), .delete "a", .write "b" (.one 2), .write "b" (.one 3)]
        (⟨ByteArray.empty, 13⟩ : Faulty FaultRule.fewWrites Image) = some (results, h)
      ∧ results.map (·.isOk) = [true, true, true, false]
      ∧ h.vault.Exact h.medium.medium [⟨"b", Flags.none, 1, ⟨#[2]⟩⟩]
      ∧ h.vault.stats.usedBlocks.toNat = 4 := by
  have hruns : (blindReplay eightBlocks
      [.write "a" (.one 1), .delete "a", .write "b" (.one 2), .write "b" (.one 3)]
      (Faulty.seen Outline.ofImage
        (⟨ByteArray.empty, 13⟩ : Faulty FaultRule.fewWrites Image))).map
      (fun x => (x.1.map (·.isOk), x.2.vault.width)) = some ([true, true, true, false], 512) := by
    decide +kernel
  obtain ⟨x, hblind, hfacts⟩ := Option.map_eq_some_iff.mp hruns
  obtain ⟨hresults, hwidth⟩ := Prod.mk.inj hfacts
  obtain ⟨h, hreplay, hseen⟩ := replay_of_blind (outline_view.faulty FaultRule.fewWrites) hblind
  obtain ⟨v, _, hexact, hopen⟩ := exact_space FaultRule.fewWrites_within
    (Session.expects_of_replay hreplay (List.all_eq_true.mp rfl))
  obtain rfl := hopen h.vault rfl
  -- three results are successes and the last is a failure, so its bytes are not expected
  have hstreams : Handle.afterAll
      [.write "a" (.one 1), .delete "a", .write "b" (.one 2), .write "b" (.one 3)] x.1 []
        = [⟨"b", Flags.none, 1, ⟨#[2]⟩⟩] := by
    obtain ⟨results, y⟩ := x
    match results, hresults with
    | [.ok _, .ok _, .ok _, .error _], _ => rfl
  rw [hstreams] at hexact
  have hvault : h.vault.width = 512 := (congrArg (·.vault.width) hseen).trans hwidth
  refine ⟨x.1, h, hreplay, hresults, hexact, ?_⟩
  rw [hexact.usedBlocks, hvault]
  rfl

end StateVault
