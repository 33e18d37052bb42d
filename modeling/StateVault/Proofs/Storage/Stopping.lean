/-
  StateVault.Proofs.Storage.Stopping
  ──────────────────────────────────
  **A FAILED SYNC IS THE LAST CALL.**

  A sync does nothing to the bytes, whether it goes through or not.  A script
  that stops at a sync that fails therefore leaves behind what it has after
  one of its calls when all syncs go through: what is ensured after each call
  without such failures is ensured in spite of them.

    • `Ensures.despite_syncs` — the bytes after each call, and at the end,
    • `Action.Stopping`       — actions that stop so, and what is made of them.
-/
import StateVault.Proofs.Storage.Failures

namespace StateVault

/-- The same failures, but syncs go through. -/
def Failures.synced (F : Failures) : Failures :=
  { F with sync := False }

/-! ## §1. Scripts. -/

namespace Script

variable {α β : Type} {F : Failures} {I : Watched → Prop}

/-- No call comes after a sync that fails, and the answer is one of `P`. -/
def Stops (P : α → Prop) : Script α → Prop
  | done _ => True
  | size next => ∀ n, (next n).Stops P
  | read _ _ next => ∀ result, (next result).Stops P
  | write _ _ next => ∀ result, (next result).Stops P
  | setLength _ next => ∀ result, (next result).Stops P
  | sync next => (next (.ok ())).Stops P ∧ ∀ e, ∃ a, next (.error e) = done a ∧ P a

/-- A second script may follow when it does nothing after a failed sync of the
first. -/
theorem Stops.bind {P : α → Prop} {Q : β → Prop} {s : Script α} {f : α → Script β}
    (h : s.Stops P) (hstop : ∀ a, P a → ∃ b, f a = done b ∧ Q b)
    (hf : ∀ a, (f a).Stops Q) : (s.bind f).Stops Q := by
  induction s with
  | done a => exact hf a
  | size next ih => exact fun n => ih n (h n)
  | read offset count next ih => exact fun result => ih result (h result)
  | write offset data next ih => exact fun result => ih result (h result)
  | setLength length next ih => exact fun result => ih result (h result)
  | sync next ih =>
    obtain ⟨hnext, hlast⟩ := h
    refine ⟨ih _ hnext, fun e => ?_⟩
    -- the first script is over after the failure, so all is up to the second
    obtain ⟨a, hdone, ha⟩ := hlast e
    obtain ⟨b, hb, hq⟩ := hstop a ha
    refine ⟨b, ?_, hq⟩
    show (next (.error e)).bind f = done b
    rw [hdone]
    exact hb

/-- What holds after each call while syncs go through holds in spite of syncs
that fail, if the script stops there. -/
theorem Ensures.despite_syncs {P : α → Prop} {Q : α → Watched → Prop} {s : Script α}
    {t : Watched} (h : s.Ensures F.synced I t Q) (hstops : s.Stops P) (hI : I t) :
    s.Ensures F I t fun _ t' => I t' := by
  induction s generalizing t with
  | done a => exact hI
  | size next ih => exact ih _ h (hstops _) hI
  | read offset count next ih =>
    refine ⟨h.1, fun result hr => ih result (h.2 result ?_) (hstops result) h.1⟩
    cases hr with
    | whole hin => exact Failures.Reads.whole hin
    | failed hcause e => exact Failures.Reads.failed (F := F.synced) hcause e
  | write offset data next ih =>
    intro result image hw
    have hwrite : F.write → F.synced.write := id
    obtain ⟨hnow, hrest⟩ := h result image (hw.mono hwrite fun _ _ => id)
    exact ⟨hnow, ih result hrest (hstops result) hnow⟩
  | setLength length next ih =>
    intro result image hset
    have hlength : F.setLength → F.synced.setLength := id
    obtain ⟨hnow, hrest⟩ := h result image (hset.mono hlength)
    exact ⟨hnow, ih result hrest (hstops result) hnow⟩
  | sync next ih =>
    obtain ⟨hnext, hlast⟩ := hstops
    refine ⟨h.1, fun result hsyncs => ?_⟩
    cases hsyncs with
    | whole => exact ih _ (h.2 _ .whole) hnext h.1
    | failed _ e =>
      -- nothing follows, and the bytes are those before the sync
      obtain ⟨a, hdone, _⟩ := hlast e
      rw [hdone]
      exact h.1

end Script

/-! ## §2. Actions. -/

namespace Action

variable {α β : Type} {x : Action α}

/-- A failure, with some vault after it. -/
def Failed (outcome : Except Error α × Vault) : Prop :=
  ∃ e w, outcome = (.error e, w)

/-- A sync that fails is the last call of the action, and fails it. -/
def Stopping (x : Action α) : Prop :=
  ∀ v, (x v).Stops Failed

/-- One stopping action after another stops: a failure of the first ends both. -/
theorem Stopping.bind {f : α → Action β} (hx : x.Stopping) (hf : ∀ a, (f a).Stopping) :
    (x >>= f).Stopping := by
  intro v
  refine (hx v).bind ?_ ?_
  · intro outcome hfailed
    obtain ⟨e, w, rfl⟩ := hfailed
    exact ⟨(.error e, w), rfl, e, w, rfl⟩
  · intro outcome
    obtain ⟨result, w⟩ := outcome
    cases result with
    | ok a => exact hf a w
    | error e => trivial

theorem Stopping.onError (hx : x.Stopping) (repair : Vault → Vault) :
    (x.onError repair).Stopping := by
  intro v
  refine (hx v).bind ?_ ?_
  · intro outcome hfailed
    obtain ⟨e, w, rfl⟩ := hfailed
    exact ⟨(.error e, repair w), rfl, e, repair w, rfl⟩
  · intro outcome
    obtain ⟨result, w⟩ := outcome
    cases result with
    | ok a => trivial
    | error e => trivial

theorem stopping_vault : Action.vault.Stopping :=
  fun _ => trivial

theorem stopping_modify (f : Vault → Vault) : (modify f).Stopping :=
  fun _ => trivial

theorem stopping_require (check : Except Error α) : (require check).Stopping :=
  fun _ => trivial

/-- A write is no sync, so nothing is asked of it. -/
theorem stopping_write (offset : UInt64) (data : ByteArray) : (write offset data).Stopping :=
  fun _ _ => trivial

/-- A sync by itself ends where it fails. -/
theorem stopping_sync : Action.sync.Stopping :=
  fun v => ⟨trivial, fun e => ⟨(.error e, v), rfl, e, v, rfl⟩⟩

end Action

end StateVault
