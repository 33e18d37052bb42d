/-
  StateVault.Proofs.Vault.OrderedMap
  ──────────────────────────────────
  **A HANDLE IS AN ORDERED MAP, WHATEVER THE STORAGE DOES.**

  Any call may fail, and a failing write may land any of its bytes.  All the
  same, writes and deletes that go through do to the streams what an ordered
  map does, and nothing else changes them.

    • `Request.ensures_cases`  — the three kinds of requests,
    • `Request.ensures_change`, `Request.ensures_bytes` — one request,
    • `ordered_map`            — any run of them, and what reads return.
-/
import StateVault.Proofs.Vault.Served
import StateVault.Proofs.Vault.Updates

namespace StateVault.Vault

variable {F : Failures} {I : Watched → Prop}

/-! ## §1. Requests on the map. -/

/-- The streams after a request, by its result. -/
def Request.after {α : Type} (r : Request) : Except Error α → List Stream → List Stream
  | .ok _, streams => r.change streams
  | .error _, streams => streams

/-- The image serves the vault, and its streams are those after the request. -/
def Request.Changed {α : Type} (r : Request) (v : Vault) (t : Watched)
    (outcome : Except Error α × Vault) (t' : Watched) : Prop :=
  outcome.2.Live t'.image
    ∧ outcome.2.contents t'.image = r.after outcome.1 (v.contents t.image)

/-! ## §2. One request. -/

theorem Request.after_map {α β : Type} (r : Request) (f : α → β) (result : Except Error α)
    (streams : List Stream) : r.after (result.map f) streams = r.after result streams := by
  cases result with
  | ok a => rfl
  | error e => rfl

/-- At its end a request has changed the streams by its result. -/
theorem Request.Ended.changed {α : Type} {r : Request} {v : Vault} {t t' : Watched}
    {outcome : Except Error α × Vault} (h : v.Live t.image) (hend : r.Ended F v t outcome t') :
    r.Changed v t outcome t' := by
  obtain ⟨result, w⟩ := outcome
  cases result with
  | ok a => exact ⟨hend.1.live, hend.1.contents⟩
  | error e => exact hend.contents h

/-- A resize changes no stream. -/
theorem resize_changed {v : Vault} {t : Watched} (h : v.Live t.image) (total : UInt64) :
    (resize total v).Ensures F (fun _ => True) t ((Request.resize total).Changed v t) := by
  have hresize := resize_ensures (F := F) (I := fun _ => True) h.sound h.addressable h.region
    total fun _ _ _ _ _ => trivial
  refine (hresize.and_yields (resize_yields h.sound total)).mono ?_
  intro outcome t' hend
  obtain ⟨result, w⟩ := outcome
  obtain ⟨hturnout, hsame⟩ := hend
  obtain ⟨hlive, hcontents⟩ := hturnout.contents h hsame.sound
  refine ⟨hlive, ?_⟩
  cases result with
  | ok u => exact hcontents
  | error err => exact hcontents

/-- Reading and verifying leave vault and image alone. -/
theorem read_still {v : Vault} {t : Watched} (hI : I t) (name : String) :
    (read name v).Ensures F I t fun outcome t' => t' = t ∧ outcome.2 = v := by
  unfold read
  rw [Action.ensures_vault, Action.ensures_bind]
  cases v.entry name with
  | error e => exact ⟨rfl, rfl⟩
  | ok e =>
    show Action.Beyond F _ _ _ (.ok e, v) t
    rw [Action.Beyond]
    by_cases hempty : e.extent.isEmpty = true
    · rw [if_pos hempty]
      exact ⟨rfl, rfl⟩
    · rw [if_neg hempty, Action.ensures_bind]
      refine ⟨hI, fun result _ => ?_⟩
      cases result with
      | error e => exact ⟨rfl, rfl⟩
      | ok blocks => exact ⟨rfl, rfl⟩

theorem verify_still {v : Vault} {t : Watched} (hI : I t) :
    (verify v).Ensures F I t fun outcome t' => t' = t ∧ outcome.2 = v := by
  unfold verify
  rw [Action.ensures_vault, Action.ensures_bind, Action.ensures_call]
  refine (attested_of_survey hI).mono ?_
  intro result t' hend
  obtain ⟨rfl, _⟩ := hend
  cases result with
  | error e => exact ⟨rfl, rfl⟩
  | ok x => exact ⟨rfl, rfl⟩

/-- A request is an update, a resize, or one that leaves vault and image alone. -/
theorem Request.ensures_cases {v : Vault} {t : Watched} {r : Request}
    {Q : Except Error Answer × Vault → Watched → Prop} (hI : I t)
    (hupdate : r.isUpdate = true → (r.action v).Ensures F I t Q)
    (hresize : ∀ total, r = .resize total → (Vault.resize total v).Ensures F I t fun outcome t' =>
      Q (outcome.1.map fun _ => .done, outcome.2) t')
    (hstill : r.isUpdate = false → ∀ result, Q (result, v) t) :
    (r.action v).Ensures F I t Q := by
  cases r with
  | resize total => exact ensures_return (hresize total rfl)
  -- reading and verifying leave all as it is
  | read name =>
    refine ensures_return ((read_still hI name).mono ?_)
    rintro outcome t' ⟨rfl, hsame⟩
    exact hsame ▸ hstill rfl _
  | verify =>
    refine ensures_return ((verify_still hI).mono ?_)
    rintro outcome t' ⟨rfl, hsame⟩
    exact hsame ▸ hstill rfl _
  | _ => exact hupdate rfl

/-- Only updates change streams. -/
theorem Request.change_eq {r : Request} (h : r.isUpdate = false) (streams : List Stream) :
    r.change streams = streams := by
  cases r with
  | resize total => rfl
  | read name => rfl
  | verify => rfl
  | _ => cases h

/-- **One request** does to the streams what its result says. -/
theorem Request.ensures_change {v : Vault} {t : Watched} (h : v.Live t.image) (r : Request) :
    (r.action v).Ensures F (fun _ => True) t (r.Changed v t) := by
  refine Request.ensures_cases trivial (fun hupdate => ?_) ?_ fun hnone result => ⟨h, ?_⟩
  · exact ((Request.ensures_end h (Request.advances_of_isUpdate hupdate)).weaken
      fun _ _ => trivial).mono fun _ _ hend => hend.changed h
  · rintro total rfl
    refine (resize_changed h total).mono fun outcome t' hchanged => ⟨hchanged.1, ?_⟩
    rw [Request.after_map]
    exact hchanged.2
  · cases result with
    | ok a => exact (Request.change_eq hnone _).symm
    | error e => rfl

/-- Reading a stream that the handle lists. -/
theorem read_of_mem {v : Vault} {t : Watched} (h : v.Live t.image) (hI : I t) {s : Stream}
    (hs : s ∈ v.contents t.image) :
    (read s.name v).Ensures F I t fun outcome t' => t' = t ∧ outcome.2 = v ∧
      match outcome.1 with
      | .ok bytes => bytes = s.bytes
      | .error _ => F.read := by
  obtain ⟨e, he, rfl⟩ := List.mem_map.mp hs
  exact read_ensures h.sound h.addressable h.inBounds (h.sound.valid.find?_of_mem he) hI

/-- The request for a stream returns its bytes if no read fails. -/
theorem Request.ensures_bytes {v : Vault} {t : Watched} (h : v.Live t.image) {s : Stream}
    (hs : s ∈ v.contents t.image) (hreads : ¬ F.read) :
    ((Request.read s.name).action v).Ensures F (fun _ => True) t fun outcome _ =>
      outcome.1 = .ok (.bytes s.bytes) := by
  refine ensures_return ((read_of_mem h trivial hs).mono ?_)
  intro outcome t' hend
  obtain ⟨result, w⟩ := outcome
  obtain ⟨_, _, hbytes⟩ := hend
  cases result with
  | ok bytes => exact congrArg _ (congrArg _ hbytes)
  | error err => exact absurd hbytes hreads

/-! ## §3. Runs. -/

namespace Handle

/-- The streams after some requests, by their results. -/
def afterAll : List Request → List (Except Error Answer) → List Stream → List Stream
  | r :: rs, result :: results, streams => afterAll rs results (r.after result streams)
  | _, _, streams => streams

section Media

variable {μ : Type} [Medium μ] {image : μ → Image}

/-- One request changes the streams by its result, on any medium that obeys. -/
theorem perform_contents (hobeys : Obeys F image) {h : Handle μ}
    (hlive : h.vault.Live (image h.medium)) (r : Request) :
    (h.perform r).2.vault.Live (image (h.perform r).2.medium)
      ∧ (h.perform r).2.vault.contents (image (h.perform r).2.medium)
        = r.after (h.perform r).1 (h.vault.contents (image h.medium)) := by
  obtain ⟨_, records, hafter, hchanged⟩ :=
    (r.ensures_change (t := ⟨image h.medium, 0⟩) hlive).on_medium hobeys
  exact ⟨hafter, hchanged⟩

/-- The contents after some requests are those that their results say. -/
theorem performAll_contents (hobeys : Obeys F image) {h : Handle μ}
    (hlive : h.vault.Live (image h.medium)) (rs : List Request) :
    (h.performAll rs).2.vault.contents (image (h.performAll rs).2.medium)
      = afterAll rs (h.performAll rs).1 (h.vault.contents (image h.medium)) := by
  induction rs generalizing h with
  | nil => rfl
  | cons r rs ih =>
    obtain ⟨hafter, hchanged⟩ := perform_contents hobeys hlive r
    have hrest := ih hafter
    rw [hchanged] at hrest
    exact hrest

/-- After a format there are the streams that the requests after it made. -/
theorem contents_of_replay (hobeys : Obeys F image) {settings : Settings} {rs : List Request}
    {m : μ} {h : Handle μ} {results : List (Except Error Answer)}
    (hreplay : replay settings rs m = some (results, h)) :
    h.vault.contents (image h.medium) = afterAll rs results [] := by
  unfold replay at hreplay
  cases hrun : (format settings).run m with
  | mk answer m' =>
    rw [hrun] at hreplay
    cases answer with
    | error e => cases hreplay
    | ok v =>
      have hnew := formatted_of_run hobeys hrun
      have hend := performAll_contents hobeys (h := ⟨v, m'⟩) hnew.live rs
      rw [Option.some.inj hreplay, hnew.contents] at hend
      exact hend

end Media

variable {ω : Type} {rule : FaultRule ω}

/-- The streams that are expected of a handle on a medium under a rule: none
after formatting, those of the image after mounting, and then those that each
request made of them, by its result. -/
inductive Expects : Handle (Faulty rule Image) → List Stream → Prop where
  | formatted {settings : Settings} {v : Vault} {m m' : Faulty rule Image}
      (h : (format settings).run m = (.ok v, m')) : Expects ⟨v, m'⟩ []
  | mounted {settings : Settings} {v : Vault} {m m' : Faulty rule Image}
      (hsize : m.medium.size < UInt64.size - 1)
      (h : (mount settings).run m = (.ok v, m')) : Expects ⟨v, m'⟩ (v.contents m.medium)
  | performed {h : Handle (Faulty rule Image)} {streams : List Stream}
      (before : Expects h streams) (r : Request) :
      Expects (h.perform r).2 (r.after (h.perform r).1 streams)

/-- The image serves the vault at every point of a run, with the streams that
are expected. -/
theorem Expects.live {h : Handle (Faulty rule Image)} {streams : List Stream}
    (hr : h.Expects streams) :
    h.vault.Live h.medium.medium ∧ h.vault.contents h.medium.medium = streams := by
  have hobeys := rule.within_any.obeys
  induction hr with
  | @formatted settings v m m' hrun =>
    have hnew := formatted_of_run hobeys hrun
    exact ⟨hnew.live, hnew.contents⟩
  | @mounted settings v m m' hsize hrun =>
    obtain ⟨himage, hmounted⟩ := mounted_of_run hobeys hrun
    show v.Live m'.medium ∧ v.contents m'.medium = v.contents m.medium
    rw [himage]
    exact ⟨(hmounted.live hsize).1, rfl⟩
  | @performed h streams before r ih =>
    obtain ⟨hlive, hcontents⟩ := ih
    rw [← hcontents]
    exact perform_contents hobeys hlive r

theorem Expects.performAll {h : Handle (Faulty rule Image)} {streams : List Stream}
    (hr : h.Expects streams) (rs : List Request) :
    (h.performAll rs).2.Expects (afterAll rs (h.performAll rs).1 streams) := by
  induction rs generalizing h streams with
  | nil => exact hr
  | cons r rs ih => exact ih (hr.performed r)

theorem expects_of_replay {settings : Settings} {rs : List Request} {m : Faulty rule Image}
    {h : Handle (Faulty rule Image)} {results : List (Except Error Answer)}
    (hreplay : replay settings rs m = some (results, h)) :
    h.Expects (afterAll rs results []) := by
  unfold replay at hreplay
  cases hrun : (format settings).run m with
  | mk answer m' =>
    rw [hrun] at hreplay
    cases answer with
    | error e => cases hreplay
    | ok v =>
      have hend := (Expects.formatted hrun).performAll rs
      rw [Option.some.inj hreplay] at hend
      exact hend

end Handle

/-- **A handle is an ordered map.**  After any run of requests, whichever
storage calls fail in it, the streams that the handle lists are those that
are expected, each name once; and a read of one of them in which no read of
the medium fails returns its bytes. -/
theorem ordered_map {ω : Type} {rule : FaultRule ω} {h : Handle (Faulty rule Image)}
    {streams : List Stream} (hr : h.Expects streams) :
    h.vault.contents h.medium.medium = streams
      ∧ (streams.map (·.name)).Nodup
      ∧ ∀ s ∈ streams, ((Request.read s.name).action h.vault).Spared h.medium →
          ∃ h', h.perform (.read s.name) = (.ok (.bytes s.bytes), h') := by
  obtain ⟨hlive, hcontents⟩ := hr.live
  refine ⟨hcontents, ?_, fun s hs hspared => ?_⟩
  · rw [← hcontents, names_contents]
    exact hlive.sound.valid.distinct
  · rw [← hcontents] at hs
    obtain ⟨_, hok⟩ := (Request.ensures_bytes (F := Failures.butReads)
      (t := ⟨h.medium.medium, 0⟩) hlive hs id).on_spared hspared
    exact ⟨_, Prod.ext hok rfl⟩

/-- A stream is written, and then written again with other bytes, for which no
call is left.  The stream is as it was. -/
theorem map_after_failed_write :
    ∃ results h, replay eightBlocks [.write "a" (.one 1), .write "a" (.one 2)]
        (⟨ByteArray.empty, { Allowance.unlimited with writes := some 6 }⟩ :
          Faulty Allowance.rule Image) = some (results, h)
      ∧ results.map (·.isOk) = [true, false]
      ∧ h.vault.contents h.medium.medium = [⟨"a", Flags.none, 1, ⟨#[1]⟩⟩]
      ∧ ∃ h', h.perform (.read "a") = (.ok (.bytes ⟨#[1]⟩), h') := by
  -- six writes: three for the format, three for the first stream, none for the second
  have hruns : (blindReplay eightBlocks [.write "a" (.one 1), .write "a" (.one 2)]
      (Faulty.seen Outline.ofImage (⟨ByteArray.empty,
        { Allowance.unlimited with writes := some 6 }⟩ :
          Faulty Allowance.rule Image))).map
      (fun x => (x.1.map (·.isOk), x.2.medium.state.reads)) = some ([true, false], none) := by
    decide +kernel
  obtain ⟨x, hblind, hfacts⟩ := Option.map_eq_some_iff.mp hruns
  obtain ⟨hresults, hreads⟩ := Prod.mk.inj hfacts
  obtain ⟨h, hreplay, hseen⟩ := replay_of_blind (outline_view.faulty Allowance.rule) hblind
  obtain ⟨hcontents, _, hread⟩ := ordered_map (Handle.expects_of_replay hreplay)
  have hstreams : Handle.afterAll [.write "a" (.one 1), .write "a" (.one 2)] x.1 []
      = [⟨"a", Flags.none, 1, ⟨#[1]⟩⟩] := by
    obtain ⟨results, y⟩ := x
    match results, hresults with
    | [.ok _, .error _], _ => rfl
  rw [hstreams] at hcontents hread
  have hunlimited : h.medium.state.reads = none :=
    (congrArg (fun y => y.medium.state.reads) hseen).trans hreads
  exact ⟨x.1, h, hreplay, hresults, hcontents, hread ⟨"a", Flags.none, 1, ⟨#[1]⟩⟩
    List.mem_cons_self (Script.spared_of_unlimited _ hunlimited)⟩

end StateVault.Vault
