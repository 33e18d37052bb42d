/-
  StateVault.Proofs.Vault.Durability
  ──────────────────────────────────
  **WHEREVER THE STORAGE FAILS, THE LAST COMMIT IS WHAT OPENS.**

  Reads, writes and new lengths may fail, and a failing write may land up to
  half of its bytes; syncs do not fail.  After each storage call the image
  then recalls the last commit whose record was written whole: opened without
  failures, it shows the generation and all streams of it.

    • `Durable`                — an open vault that its image records,
    • `Request.ensures_recall` — one request, call by call,
    • `crash_consistency`      — any run of requests, closings and mounts.
-/
import StateVault.Proofs.Vault.OrderedMap
import StateVault.Session

namespace StateVault

/-- Reads, writes and new lengths may fail, writes by half at most. -/
def Failures.crashes : Failures :=
  ⟨True, True, fun count landed => landed ≤ count / 2, True, False⟩

/-- No sync fails, and no failing write lands more than half. -/
structure Failures.Mild (F : Failures) : Prop where
  tear : ∀ count landed, F.tear count landed → landed ≤ count / 2
  sync : ¬ F.sync

theorem Failures.mild_crashes : Failures.crashes.Mild :=
  ⟨fun _ _ h => h, id⟩

theorem Failures.mild_none : Failures.none.Mild :=
  ⟨fun _ _ h => absurd h id, id⟩

namespace Vault

variable {F : Failures} {I : Watched → Prop}

/-! ## §1. What an image recalls. -/

/-- Generation and streams of a vault in an image. -/
def summary (v : Vault) (image : Image) : Contents :=
  ⟨v.generation, v.contents image⟩

theorem summary_congr {v w : Vault} (h : v.Alike w) (image : Image) :
    w.summary image = v.summary image := by
  unfold summary
  rw [contents_congr h.superblock h.directory, generation, h.superblock, generation]

/-- The image records a vault with these contents, all of it. -/
def Recalls (image : Image) (c : Contents) : Prop :=
  ∃ v : Vault, v.Live image ∧ v.Recorded image ∧ v.Covers image ∧ v.summary image = c

/-- What an image recalls is what opening it shows. -/
theorem Recalls.shown {image : Image} {c : Contents} (h : Recalls image c)
    {settings : Settings} (hsettings : Acceptable settings) :
    shown settings image = .ok c := by
  obtain ⟨v, hlive, hrecorded, hcovers, rfl⟩ := h
  exact shown_of_attested hlive.sound (hrecorded.attested hlive.sound hlive.addressable) hcovers
    hlive.addressable hsettings

/-- An open vault that its image records, in an image as long as its map. -/
structure Durable (v : Vault) (image : Image) : Prop where
  live : v.Live image
  recorded : v.Recorded image
  room : v.Room image

theorem Sound.covers {v : Vault} {image : Image} (h : v.Sound) (hroom : v.Room image) :
    v.Covers image :=
  Nat.le_trans (Nat.mul_le_mul_right _ h.committed) hroom

theorem Formatted.durable {settings : Settings} {v : Vault} {image : Image}
    (h : Formatted settings v image) : v.Durable image :=
  ⟨h.live, h.recorded, h.room⟩

theorem Durable.recalls {v : Vault} {image : Image} (h : v.Durable image) :
    Recalls image (v.summary image) :=
  ⟨v, h.live, h.recorded, h.live.sound.covers h.room, rfl⟩

section Steps

variable {v w : Vault} {t t' : Watched} {d : Directory} {safe : Prop}

/-- Undecided, the image records what it recorded, with any block map. -/
theorem Recorded.kept (hF : F.Mild) (h : v.Recorded t.image) (hs : v.Sound)
    (hundecided : Undecided F safe v t t') (halike : v.Alike w) : w.Recorded t'.image :=
  (h.of_undecided (fun landed => hF.tear 64 landed) hF.sync hs hundecided).congr
    halike.superblock halike.slot halike.directory

/-- Undecided, the image recalls what it recalled. -/
theorem recalls_of_undecided (hF : F.Mild) (hlive : v.Live t.image)
    (hrecorded : v.Recorded t.image) (hcovers : v.Covers t.image) (hsafe : safe)
    (hundecided : Undecided F safe v t t') :
    t'.records = t.records ∧ v.Live t'.image ∧ v.Recorded t'.image ∧ v.Covers t'.image
      ∧ v.summary t'.image = v.summary t.image := by
  obtain ⟨hlive', hcontents⟩ := hlive.of_undecided hundecided
  exact ⟨(hundecided.torn hF.sync).1, hlive',
    hrecorded.of_undecided (fun landed => hF.tear 64 landed) hF.sync hlive.sound hundecided,
    hundecided.covers hsafe hcovers, congrArg (Contents.mk _) hcontents⟩

/-- The next generation. -/
theorem generation_of_follows (h : v.Follows d w) : w.generation = v.generation + 1 := by
  have hnext := h.toNat_generation
  have hlt := w.generation.toNat_lt_size
  have hone : (1 : UInt64).toNat = 1 := rfl
  refine UInt64.toNat_inj.mp ?_
  rw [UInt64.toNat_add, hone, hnext]
  exact (Nat.mod_eq_of_lt hlt).symm

/-- A record makes the next vault a durable one. -/
theorem Durable.renewed (hF : F.Mild) (h : v.Durable t.image) (hr : Renewed F v t d w t')
    (hlive : w.Live t'.image) :
    w.Durable t'.image ∧ w.generation = v.generation + 1 ∧ t'.records = t.records + 1 := by
  exact ⟨⟨hlive, hr.recorded h.live.sound h.recorded.anchored, hr.decided.room h.room⟩,
    generation_of_follows hr.follows, hr.decided.records hF.sync⟩

end Steps

/-! ## §2. One request. -/

/-- What a commit of a request makes of the contents. -/
def Request.commit (r : Request) (c : Contents) : Contents :=
  ⟨c.generation + 1, r.change c.streams⟩

/-- What so many commits of a request make of them. -/
def Request.commits (r : Request) : Nat → Contents → Contents
  | 0, c => c
  | n + 1, c => r.commit (r.commits n c)

/-- The contents `c'` are those after the records that have come in since. -/
def Request.Tallied (r : Request) (t : Watched) (c : Contents) (t' : Watched) (c' : Contents) :
    Prop :=
  t.records ≤ t'.records ∧ c' = r.commits (t'.records - t.records) c

/-- Shrinking is for vaults that do not grow by themselves. -/
def Request.Permitted (v : Vault) : Request → Prop
  | .resize total => v.Straight total
  | _ => True

theorem Request.permitted_of_isUpdate {r : Request} (h : r.isUpdate = true) (v : Vault) :
    r.Permitted v := by
  cases r with
  | resize total => cases h
  | _ => trivial

/-- During a request the image recalls the contents of the last record. -/
def Request.Recalling (r : Request) (v : Vault) (t t' : Watched) : Prop :=
  ∃ c, r.Tallied t (v.summary t.image) t' c ∧ Recalls t'.image c

/-- After a request the vault is durable, with the contents of the last
record; an update has come to a record if and only if it went through. -/
structure Request.Recalled {α : Type} (r : Request) (v : Vault) (t : Watched)
    (outcome : Except Error α × Vault) (t' : Watched) : Prop where
  durable : outcome.2.Durable t'.image
  tallied : r.Tallied t (v.summary t.image) t' (outcome.2.summary t'.image)
  records : r.isUpdate = true →
    t'.records = if outcome.1.isOk then t.records + 1 else t.records

section Requests

variable {v w : Vault} {t t' : Watched}

theorem Request.tallied_same (r : Request) (c : Contents) (h : t'.records = t.records) :
    r.Tallied t c t' c := by
  refine ⟨Nat.le_of_eq h.symm, ?_⟩
  rw [h, Nat.sub_self]
  rfl

theorem Request.tallied_commit (r : Request) {c c' : Contents} {t₁ : Watched}
    (h : r.Tallied t c t₁ c') (hrecords : t'.records = t₁.records + 1) :
    r.Tallied t c t' (r.commit c') := by
  obtain ⟨hle, rfl⟩ := h
  refine ⟨by omega, ?_⟩
  rw [hrecords, Nat.succ_sub hle]
  rfl

/-- As long as nothing is decided the image recalls the contents from before. -/
theorem recalling_of_undecided {safe : Prop} (hF : F.Mild) (h : v.Durable t.image) (hsafe : safe)
    (r : Request) (hundecided : Undecided F safe v t t') : r.Recalling v t t' := by
  obtain ⟨hrecords, hlive, hrecorded, hcovers, hsummary⟩ := recalls_of_undecided hF h.live
    h.recorded (h.live.sound.covers h.room) hsafe hundecided
  exact ⟨_, r.tallied_same _ hrecords, v, hlive, hrecorded, hcovers, hsummary⟩

/-- A failed request leaves a durable vault with the old contents. -/
theorem recalled_of_unmade {α : Type} {e : Error} (hF : F.Mild) (h : v.Durable t.image)
    (r : Request) (hunmade : Unmade F v t w t') :
    r.Recalled v t ((Except.error e : Except Error α), w) t' := by
  have halike := hunmade.keeps.alike
  obtain ⟨hrecords, hlive, hrecorded, _, hsummary⟩ := recalls_of_undecided hF h.live
    h.recorded (h.live.sound.covers h.room) trivial hunmade.undecided
  have hsame : w.summary t'.image = v.summary t.image :=
    (summary_congr halike _).trans hsummary
  constructor
  · exact ⟨hlive.of_alike halike hunmade.sound (hunmade.addressable h.live.addressable),
      hrecorded.congr halike.superblock halike.slot halike.directory, hunmade.room h.room⟩
  · rw [hsame]
    exact r.tallied_same _ hrecords
  · exact fun _ => hrecords

/-- A request of one commit that went through. -/
theorem recalled_of_made {α : Type} {a : α} (hF : F.Mild) (h : v.Durable t.image) {r : Request}
    (hmade : r.Made F v t w t') : r.Recalled v t ((Except.ok a : Except Error α), w) t' := by
  obtain ⟨⟨d, hr⟩, hlive, hcontents, _⟩ := hmade
  obtain ⟨hdurable, hgeneration, hrecords⟩ := h.renewed hF hr hlive
  refine ⟨hdurable, ?_, fun _ => hrecords⟩
  have hsummary : w.summary t'.image = r.commit (v.summary t.image) := by
    unfold summary Request.commit
    rw [hgeneration, hcontents]
  rw [hsummary]
  exact r.tallied_commit (r.tallied_same _ rfl) hrecords

theorem Request.Recalled.recalling {α : Type} {r : Request} {outcome : Except Error α × Vault}
    (h : r.Recalled v t outcome t') : r.Recalling v t t' :=
  ⟨_, h.tallied, h.durable.recalls⟩

/-- **An update**: the image recalls the last record after each storage call and
at the end. -/
theorem update_recall (hF : F.Mild) (h : v.Durable t.image) {r : Request}
    (hupdate : r.isUpdate = true) :
    (r.action v).Ensures F (r.Recalling v t) t (r.Recalled v t) := by
  have hend := Request.ensures_end (F := F) h.live (Request.advances_of_isUpdate hupdate)
  refine (hend.weaken fun t' hunderway => ?_).mono fun outcome t' hend => ?_
  · rcases hunderway with hundecided | ⟨w, hmade⟩
    · exact recalling_of_undecided hF h trivial r hundecided
    · exact (recalled_of_made (a := ()) hF h hmade).recalling
  · obtain ⟨result, w⟩ := outcome
    cases result with
    | ok a => exact recalled_of_made hF h hend.1
    | error e => exact recalled_of_unmade hF h r hend

/-- A row of commits of the same directory. -/
theorem Durable.passage (hF : F.Mild) (h : v.Durable t.image) (total : UInt64)
    (hpassage : Passage F v t w t') :
    w.Durable t'.image
      ∧ (Request.resize total).Tallied t (v.summary t.image) t' (w.summary t'.image) := by
  induction hpassage with
  | start => exact ⟨h, Request.tallied_same _ _ rfl⟩
  | renewed _ hr ih =>
    obtain ⟨hdurable, htallied⟩ := ih
    obtain ⟨hlive, hcontents⟩ := hr.contents_same hdurable.live
    obtain ⟨hnext, hgeneration, hrecords⟩ := hdurable.renewed hF hr hlive
    refine ⟨hnext, ?_⟩
    have hcommit := Request.tallied_commit _ htallied hrecords
    unfold summary at hcommit ⊢
    rw [hgeneration, hcontents]
    exact hcommit

theorem Request.Tallied.same_records {r : Request} {c c' : Contents} {t₁ : Watched}
    (h : r.Tallied t c t₁ c') (hrecords : t'.records = t₁.records) : r.Tallied t c t' c' := by
  unfold Tallied at h ⊢
  rw [hrecords]
  exact h

/-- **A resize**, commit by commit of its row. -/
theorem resize_recall (hF : F.Mild) (h : v.Durable t.image) {total : UInt64}
    (hstraight : v.Straight total) :
    (resize total v).Ensures F ((Request.resize total).Recalling v t) t
      ((Request.resize total).Recalled v t) := by
  -- during: a row of commits, and then a stretch that decides nothing
  have hstep : ∀ w t₁ t', Passage F v t w t₁ → Undecided F (v.Straight total) w t₁ t' →
      (Request.resize total).Recalling v t t' := by
    intro w t₁ t' hpassage hundecided
    obtain ⟨hdurable, htallied⟩ := h.passage hF total hpassage
    obtain ⟨hrecords, hlive, hrecorded, hcovers, hsummary⟩ := recalls_of_undecided hF
      hdurable.live hdurable.recorded (hdurable.live.sound.covers hdurable.room) hstraight
      hundecided
    exact ⟨_, htallied.same_records hrecords, w, hlive, hrecorded, hcovers, hsummary⟩
  have hresize := resize_ensures (F := F) h.live.sound h.live.addressable h.live.region total hstep
  refine (hresize.and_yields (resize_yields h.live.sound total)).mono ?_
  intro outcome t' hend
  obtain ⟨result, w⟩ := outcome
  -- at the end: the same row, and the vault has the streams it had
  obtain ⟨hturnout, hsame⟩ := hend
  obtain ⟨⟨x, t₁, hpassage, hundecided, halike⟩, haddress, hroom⟩ := hturnout
  obtain ⟨hdurable, htallied⟩ := h.passage hF total hpassage
  obtain ⟨hrecords, hlive, hrecorded, _, hsummary⟩ := recalls_of_undecided hF hdurable.live
    hdurable.recorded (hdurable.live.sound.covers hdurable.room) hstraight hundecided
  refine ⟨⟨hlive.of_alike halike hsame.sound haddress,
    hrecorded.congr halike.superblock halike.slot halike.directory, hroom hstraight h.room⟩, ?_,
    fun hupdate => nomatch hupdate⟩
  have hcontents : w.summary t'.image = x.summary t₁.image :=
    (summary_congr halike _).trans hsummary
  show Request.Tallied _ t _ t' (w.summary t'.image)
  rw [hcontents]
  exact htallied.same_records hrecords

/-- **One request**: after each of its storage calls the image recalls the
last record. -/
theorem Request.ensures_recall (hF : F.Mild) (h : v.Durable t.image) {r : Request}
    (hpermitted : r.Permitted v) :
    (r.action v).Ensures F (r.Recalling v t) t (r.Recalled v t) := by
  have hnow : r.Recalling v t t := ⟨_, r.tallied_same _ rfl, h.recalls⟩
  refine Request.ensures_cases hnow (update_recall hF h) ?_ fun hnone result => ?_
  · rintro total rfl
    exact (resize_recall hF h hpermitted).mono fun outcome t' hend =>
      ⟨hend.durable, hend.tallied, fun hupdate => nomatch hupdate⟩
  · refine ⟨h, r.tallied_same _ rfl, fun hupdate => ?_⟩
    rw [hnone] at hupdate
    cases hupdate

end Requests

/-! ## §3. Closing and mounting. -/

/-- Closing changes no byte. -/
theorem close_ensures {t : Watched} (hI : I t) :
    close.Ensures F I t fun _ t' => t' = t :=
  ⟨hI, fun _ _ => rfl⟩

/-- The vault that opening comes to is served by its image. -/
theorem Reopened.live {v w : Vault} {settings : Settings} {image : Image}
    (h : v.Reopened settings w) (hlive : v.Live image) (hcovers : v.Covers image) :
    w.Live image ∧ w.Room image := by
  have hcovers' := h.covers hcovers
  refine ⟨⟨h.sound, h.addressable hlive.sound hlive.addressable, hlive.region,
    room_inBounds h.sound hcovers'⟩, ?_⟩
  unfold Room
  rw [h.total, ← h.superblock]
  exact hcovers'

/-- What opening comes to is durable, with the same contents. -/
theorem Reopened.durable {v w : Vault} {settings : Settings} {image : Image}
    (h : v.Reopened settings w) (hlive : v.Live image) (hrecorded : v.Recorded image)
    (hcovers : v.Covers image) : w.Durable image ∧ w.summary image = v.summary image := by
  obtain ⟨hlive', hroom⟩ := h.live hlive hcovers
  refine ⟨⟨hlive', hrecorded.congr h.superblock h.slot h.directory, hroom⟩, ?_⟩
  unfold summary
  rw [contents_congr h.superblock h.directory, generation, h.superblock, generation]

/-- Mounting brings back the vault that the image records, or a read fails. -/
theorem mount_reopens {v : Vault} {t : Watched} (hlive : v.Live t.image)
    (hrecorded : v.Recorded t.image) (hcovers : v.Covers t.image) (hI : I t)
    (settings : Settings) :
    (mount settings).Ensures F I t fun result t' => t' = t ∧
      ∀ w, result = .ok w → v.Reopened settings w := by
  have hattested := hrecorded.attested hlive.sound hlive.addressable
  refine (mount_of_attested hlive.sound hattested hcovers hlive.addressable hI settings).mono ?_
  intro result t' hend
  obtain ⟨rfl, hresult⟩ := hend
  refine ⟨rfl, fun w hw => ?_⟩
  rw [hw] at hresult
  exact hresult

/-- Mounting brings back what the image recalls, or a read fails. -/
theorem mount_recall {t : Watched} {c : Contents} (h : Recalls t.image c) (hI : I t)
    (settings : Settings) :
    (mount settings).Ensures F I t fun result t' => t' = t ∧
      ∀ w, result = .ok w → w.Durable t.image ∧ w.summary t.image = c := by
  obtain ⟨v, hlive, hrecorded, hcovers, rfl⟩ := h
  refine (mount_reopens hlive hrecorded hcovers hI settings).mono ?_
  intro result t' hend
  obtain ⟨rfl, hreopened⟩ := hend
  exact ⟨rfl, fun w hw => (hreopened w hw).durable hlive hrecorded hcovers⟩

end Vault

/-! ## §4. Runs. -/

namespace Session

open Vault

/-- What is done with a session once it is formatted. -/
inductive Step where
  | request (r : Request)
  | close
  | mount (settings : Settings)

namespace Step

variable {μ : Type} [Medium μ]

/-- The session after a step. -/
def take : Step → Session μ → Session μ
  | .request r, s => (s.act r.action).2
  | .close, s => s.close.2
  | .mount settings, s => (s.mount settings).2

/-- The media after each storage call of a step. -/
def states : Step → Session μ → List μ
  | .request r, s => (s.vault.map fun v => Script.states (r.action v) s.medium).getD []
  | .close, s => (s.vault.map fun _ => Vault.close.states s.medium).getD []
  | .mount settings, s => (Vault.mount settings).states s.medium

/-- What so many records in a step make of the contents. -/
def commits : Step → Nat → Contents → Contents
  | .request r, n, c => r.commits n c
  | .close, _, c => c
  | .mount _, _, c => c

/-- Shrinking is for vaults that do not grow by themselves. -/
def Permitted : Step → Session μ → Prop
  | .request r, s => ∀ v, s.vault = some v → r.Permitted v
  | .close, _ => True
  | .mount _, _ => True

end Step

section Runs

variable {ω : Type} {rule : FaultRule ω}

/-- The bytes under a session. -/
def image (s : Session (Tally (Faulty rule Image))) : Image :=
  s.medium.medium.medium

/-- The bytes, and the records that were written whole. -/
def watched (s : Session (Tally (Faulty rule Image))) : Watched :=
  s.medium.watched fun x => x.medium

/-- The records that were written whole. -/
def records (s : Session (Tally (Faulty rule Image))) : Nat :=
  s.medium.records

/-- The sessions that come of a format that went through and of any steps
after it, each with the contents of the last record that was written whole. -/
inductive History : Session (Tally (Faulty rule Image)) → Contents → Prop where
  | formatted {settings : Settings} {s s' : Session (Tally (Faulty rule Image))}
      (h : s.format settings = (.ok (), s')) : History s' ⟨1, []⟩
  | step {s : Session (Tally (Faulty rule Image))} {c : Contents} (before : History s c)
      (step : Step) (hpermitted : step.Permitted s) :
      History (step.take s) (step.commits ((step.take s).records - s.records) c)

/-- The image recalls the contents, and so does the open vault. -/
structure Kept (s : Session (Tally (Faulty rule Image))) (c : Contents) : Prop where
  recalls : Recalls s.image c
  durable : ∀ v, s.vault = some v → v.Durable s.image ∧ v.summary s.image = c

theorem kept_of_durable {x : Tally (Faulty rule Image)} {v : Vault} {c : Contents}
    (h : v.Durable x.medium.medium) (hsummary : v.summary x.medium.medium = c) :
    Kept ⟨x, some v⟩ c where
  recalls := hsummary ▸ h.recalls
  durable w hw := by
    cases hw
    exact ⟨h, hsummary⟩

variable {s : Session (Tally (Faulty rule Image))} {c : Contents}

/-- What one step keeps: the last record is recalled after each storage call
and at the end. -/
theorem Kept.step (hrule : rule.Within Failures.crashes) (h : s.Kept c) (step : Step)
    (hpermitted : step.Permitted s) :
    (∀ y ∈ step.states s, Recalls y.medium.medium (step.commits (y.records - s.records) c))
      ∧ (step.take s).Kept (step.commits ((step.take s).records - s.records) c) := by
  have hobeys := hrule.obeys
  cases step with
  -- the records that came in during the step say how often the contents changed
  | request r =>
    show (∀ y ∈ (s.vault.map fun v => Script.states (r.action v) s.medium).getD [],
        Recalls y.medium.medium (r.commits (y.records - s.records) c))
      ∧ Kept (s.act r.action).2 (r.commits ((s.act r.action).2.records - s.records) c)
    unfold act
    cases hopen : s.vault with
    | none =>
      refine ⟨fun y hy => absurd hy List.not_mem_nil, ?_⟩
      rw [Nat.sub_self]
      exact h
    | some v =>
      obtain ⟨hdurable, rfl⟩ := h.durable v hopen
      obtain ⟨hstates, hend⟩ := (Request.ensures_recall Failures.mild_crashes
        (t := s.watched) hdurable (hpermitted v hopen)).on_tally hobeys
      refine ⟨fun y hy => ?_, kept_of_durable hend.durable hend.tallied.2⟩
      obtain ⟨c, ⟨_, rfl⟩, hrecalls⟩ := hstates y hy
      exact hrecalls
  -- closing writes nothing
  | close =>
    show (∀ y ∈ (s.vault.map fun _ => Vault.close.states s.medium).getD [],
        Recalls y.medium.medium c) ∧ Kept s.close.2 c
    unfold close
    cases hopen : s.vault with
    | none => exact ⟨fun y hy => absurd hy List.not_mem_nil, h⟩
    | some v =>
      obtain ⟨hstates, hend⟩ := (close_ensures (F := Failures.crashes) (t := s.watched)
        (I := fun t => Recalls t.image c) h.recalls).on_tally hobeys
      have himage : (Vault.close.run s.medium).2.medium.medium = s.image :=
        congrArg Watched.image hend
      have hrecalls : Recalls (Vault.close.run s.medium).2.medium.medium c :=
        himage.symm ▸ h.recalls
      exact ⟨hstates, hrecalls, fun w hw => nomatch hw⟩
  -- opening finds the vault of the last record, or leaves the session closed
  | mount settings =>
    obtain ⟨hstates, hsame, hmounted⟩ := (mount_recall (F := Failures.crashes) (t := s.watched)
      (I := fun t => Recalls t.image c) h.recalls h.recalls settings).on_tally hobeys
    refine ⟨hstates, ?_⟩
    show Kept (s.mount settings).2 c
    unfold mount
    cases hrun : (Vault.mount settings).run s.medium with
    | mk result x =>
      rw [hrun] at hsame hmounted
      have himage : x.medium.medium = s.image := congrArg Watched.image hsame
      cases result with
      | error e =>
        have hrecalls : Recalls x.medium.medium c := himage.symm ▸ h.recalls
        exact ⟨hrecalls, fun w hw => nomatch hw⟩
      | ok w =>
        obtain ⟨hdurable, hsummary⟩ := hmounted w rfl
        have hdurable : w.Durable x.medium.medium := himage.symm ▸ hdurable
        have hsummary : w.summary x.medium.medium = c := himage.symm ▸ hsummary
        exact kept_of_durable hdurable hsummary

/-- An update makes its record current if it goes through, and leaves the last
one so if it fails. -/
theorem Kept.update (hrule : rule.Within Failures.crashes) (h : s.Kept c) {r : Request}
    (hupdate : r.isUpdate = true) {result : Except Error Answer}
    {s' : Session (Tally (Faulty rule Image))}
    (hact : s.act r.action = (some result, s')) :
    s'.Kept (if result.isOk then r.commit c else c) := by
  unfold act at hact
  cases hopen : s.vault with
  | none =>
    rw [hopen] at hact
    cases hact
  | some v =>
    rw [hopen] at hact
    cases hact
    obtain ⟨hdurable, rfl⟩ := h.durable v hopen
    obtain ⟨_, hend⟩ := (Request.ensures_recall Failures.mild_crashes (t := s.watched) hdurable
      (Request.permitted_of_isUpdate hupdate v)).on_tally hrule.obeys
    refine kept_of_durable hend.durable (hend.tallied.2.trans ?_)
    rw [hend.records hupdate]
    cases ((r.action v).run s.medium).1.1 with
    | ok a =>
      -- one record for a success, none for a failure
      show r.commits (s.watched.records + 1 - s.watched.records) _ = r.commit _
      rw [Nat.add_sub_cancel_left]
      rfl
    | error e =>
      show r.commits (s.watched.records - s.watched.records) _ = _
      rw [Nat.sub_self]
      rfl

/-- **The run lemma**: every session of a history is kept, with the contents of
its last record. -/
theorem History.kept (hrule : rule.Within Failures.crashes) (hr : s.History c) : s.Kept c := by
  induction hr with
  | @formatted settings s s' hrun =>
    unfold format at hrun
    cases hscript : (Vault.format settings).run s.medium with
    | mk result x =>
      rw [hscript] at hrun
      cases result with
      | error e => cases hrun
      | ok v =>
        cases hrun
        have hnew := formatted_of_run hrule.obeys.tally hscript
        refine kept_of_durable hnew.durable ?_
        unfold summary
        rw [hnew.generation, hnew.contents]
  | step before step hpermitted ih => exact (ih.step hrule step hpermitted).2

end Runs

/-- A request after a format, in a session. -/
theorem act_of_replay {μ : Type} [Medium μ] {settings : Settings} {r : Request} {m : μ}
    {results : List (Except Error Answer)} {h : Handle μ}
    (hreplay : replay settings [r] m = some (results, h)) :
    ∃ s result s', (start m).format settings = (.ok (), s)
      ∧ s.act r.action = (some result, s') ∧ results = [result] := by
  unfold replay at hreplay
  cases hrun : (Vault.format settings).run m with
  | mk answer m' =>
    rw [hrun] at hreplay
    cases answer with
    | error e => cases hreplay
    | ok v =>
      refine ⟨⟨m', some v⟩, _, _, ?_, rfl, (Prod.mk.inj (Option.some.inj hreplay)).1.symm⟩
      show settle ((Vault.format settings).run m) = _
      rw [hrun]
      rfl

end Session

open Session in
/-- **Crash consistency.**  After any steps from a format that went through,
in which reads, writes and new lengths fail in any pattern, opening the image
shows the contents of the last record that was written whole; and so it does
after every storage call of the next step.  An update that fails leaves these
contents as they were, and one that goes through makes its own current. -/
theorem crash_consistency {ω : Type} {rule : FaultRule ω}
    (hrule : rule.Within Failures.crashes) {s : Session (Tally (Faulty rule Image))}
    {c : Vault.Contents} (hr : s.History c) {settings : Settings}
    (hsettings : Vault.Acceptable settings) :
    Vault.shown settings s.image = .ok c
      ∧ (∀ step : Step, step.Permitted s → ∀ y ∈ step.states s,
          Vault.shown settings y.medium.medium = .ok (step.commits (y.records - s.records) c))
      ∧ ∀ r : Vault.Request, r.isUpdate = true → ∀ result s',
          s.act r.action = (some result, s') →
          Vault.shown settings s'.image = .ok (if result.isOk then r.commit c else c) := by
  have hkept := hr.kept hrule
  refine ⟨hkept.recalls.shown hsettings, fun step hpermitted y hy =>
    ((hkept.step hrule step hpermitted).1 y hy).shown hsettings, ?_⟩
  exact fun r hupdate result s' hact => (hkept.update hrule hupdate hact).recalls.shown hsettings

/-- So many writes go through; of every other one half of the bytes land. -/
def FaultRule.fewWrites : FaultRule Nat where
  next left call :=
    match call with
    | .write _ count =>
        match left with
        | n + 1 => (.passes, n)
        | 0 => (.fails (some (count / 2)), 0)
    | _ => (.passes, left)

theorem FaultRule.fewWrites_within : FaultRule.fewWrites.Within Failures.crashes where
  read _ _ _ _ h := nomatch h
  write _ _ _ _ _ := trivial
  tear n offset count landed h := by
    cases n with
    | zero =>
      cases h
      exact Nat.le_refl _
    | succ n => cases h
  setLength _ _ _ h := nomatch h
  sync _ _ h := nomatch h

theorem Vault.acceptable_eightBlocks : Vault.Acceptable Vault.eightBlocks :=
  fun hgrow => absurd hgrow Bool.false_ne_true

open Vault in
/-- The record of the first write after a format is torn; what opens is the new
vault. -/
theorem recall_after_torn_write :
    ∃ s result s',
      (Session.start ⟨⟨ByteArray.empty, 4⟩, 0⟩ :
        Session (Tally (Faulty FaultRule.fewWrites Image))).format eightBlocks = (.ok (), s)
      ∧ s.act (Request.write "boot" .empty).action = (some result, s') ∧ result.isOk = false
      ∧ shown eightBlocks s'.image = .ok ⟨1, []⟩ := by
  -- four writes go through; the fifth, with the record, lands by half
  have hruns : (blindReplay eightBlocks [.write "boot" .empty] (Faulty.seen Outline.ofImage
      (⟨ByteArray.empty, 4⟩ : Faulty FaultRule.fewWrites Image))).map (·.1.map (·.isOk))
        = some [false] := by
    decide +kernel
  obtain ⟨x, hblind, hresults⟩ := Option.map_eq_some_iff.mp hruns
  obtain ⟨h, hreplay, _⟩ := replay_of_blind (m := ⟨⟨ByteArray.empty, 4⟩, 0⟩)
    ((outline_view.faulty FaultRule.fewWrites).comp View.tally) hblind
  obtain ⟨s, result, s', hformat, hact, hresult⟩ := Session.act_of_replay hreplay
  rw [hresult] at hresults
  have hfailed : result.isOk = false := (List.cons.inj hresults).1
  obtain ⟨_, _, hupdate⟩ := crash_consistency FaultRule.fewWrites_within
    (Session.History.formatted hformat) acceptable_eightBlocks
  have hshown := hupdate (.write "boot" .empty) rfl result s' hact
  rw [hfailed] at hshown
  exact ⟨s, result, s', hformat, hact, hfailed, hshown⟩

end StateVault
