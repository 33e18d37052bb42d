/-
  StateVault.Proofs.Storage.Answers
  ─────────────────────────────────
  **WHAT A SCRIPT ANSWERS, WHATEVER ITS CALLS ANSWER.**

  `Yields Q s` says that the answer of the script `s` satisfies `Q` for every
  result of every call in it.  Nothing is said of the medium, so the answer
  satisfies `Q` on each medium, one that fails by a rule of its own included
  (`Yields.run`).

    • `yields_bind`        — one script after another,
    • `Action.yields_bind` — one action after another; a failure ends both.
-/
import StateVault.Vault.Action

namespace StateVault

/-! ## §1. Scripts. -/

namespace Script

variable {α β μ : Type}

/-- The answer satisfies `Q`, whatever the calls answer. -/
def Yields (Q : α → Prop) : Script α → Prop
  | done a => Q a
  | size next => ∀ n, Yields Q (next n)
  | read _ _ next => ∀ result, Yields Q (next result)
  | write _ _ next => ∀ result, Yields Q (next result)
  | setLength _ next => ∀ result, Yields Q (next result)
  | sync next => ∀ result, Yields Q (next result)

/-- What one script after another yields is what the second yields on the answers
of the first. -/
theorem yields_bind {Q : β → Prop} (s : Script α) (f : α → Script β) :
    (s.bind f).Yields Q ↔ s.Yields fun a => (f a).Yields Q := by
  induction s with
  | done a => rfl
  | size next ih => exact forall_congr' fun n => ih n
  | read offset count next ih => exact forall_congr' fun result => ih result
  | write offset data next ih => exact forall_congr' fun result => ih result
  | setLength length next ih => exact forall_congr' fun result => ih result
  | sync next ih => exact forall_congr' fun result => ih result

theorem Yields.mono {P Q : α → Prop} {s : Script α} (h : s.Yields P)
    (himp : ∀ a, P a → Q a) : s.Yields Q := by
  induction s with
  | done a => exact himp a h
  | size next ih => exact fun n => ih n (h n)
  | read offset count next ih => exact fun result => ih result (h result)
  | write offset data next ih => exact fun result => ih result (h result)
  | setLength length next ih => exact fun result => ih result (h result)
  | sync next ih => exact fun result => ih result (h result)

theorem yields_congr {P Q : α → Prop} (h : ∀ a, P a ↔ Q a) (s : Script α) :
    s.Yields P ↔ s.Yields Q :=
  ⟨fun hp => hp.mono fun a => (h a).mp, fun hq => hq.mono fun a => (h a).mpr⟩

theorem yields_of_forall {Q : α → Prop} (h : ∀ a, Q a) (s : Script α) : s.Yields Q := by
  induction s with
  | done a => exact h a
  | size next ih => exact fun n => ih n
  | read offset count next ih => exact fun result => ih result
  | write offset data next ih => exact fun result => ih result
  | setLength length next ih => exact fun result => ih result
  | sync next ih => exact fun result => ih result

/-- What a script yields, it answers on every medium. -/
theorem Yields.run [Medium μ] {Q : α → Prop} {s : Script α} (h : s.Yields Q) (m : μ) :
    Q (s.run m).1 := by
  induction s generalizing m with
  | done a => exact h
  | size next ih => exact ih _ (h _) _
  | read offset count next ih => exact ih _ (h _) _
  | write offset data next ih => exact ih _ (h _) _
  | setLength length next ih => exact ih _ (h _) _
  | sync next ih => exact ih _ (h _) _

/-- A run ends after its last call, if there is one. -/
theorem run_mem_states [Medium μ] (s : Script α) (m : μ) :
    (s.run m).2 ∈ s.states m ∨ (s.run m).2 = m := by
  induction s generalizing m with
  | done a => exact Or.inr rfl
  | size next ih => exact ih _ m
  | read offset count next ih =>
    exact Or.inl ((ih _ _).elim (List.mem_cons_of_mem _) fun h => h ▸ List.mem_cons_self)
  | write offset data next ih =>
    exact Or.inl ((ih _ _).elim (List.mem_cons_of_mem _) fun h => h ▸ List.mem_cons_self)
  | setLength length next ih =>
    exact Or.inl ((ih _ _).elim (List.mem_cons_of_mem _) fun h => h ▸ List.mem_cons_self)
  | sync next ih =>
    exact Or.inl ((ih _ _).elim (List.mem_cons_of_mem _) fun h => h ▸ List.mem_cons_self)

/-- A script that the answer of another one chooses; a failure ends both. -/
theorem yields_andThen {Q : Except Error β → Prop} (s : Script (Except Error α))
    (f : α → Script (Except Error β)) :
    (s.andThen f).Yields Q ↔ s.Yields fun
      | .ok a => (f a).Yields Q
      | .error e => Q (.error e) := by
  rw [andThen, yields_bind]
  refine yields_congr (fun result => ?_) s
  cases result with
  | ok a => exact Iff.rfl
  | error e => exact Iff.rfl

end Script

/-! ## §2. Actions. -/

namespace Action

variable {α β : Type}

/-- What an action after another one has to guarantee for both to yield `Q`. -/
def Onward (Q : Except Error β × Vault → Prop) (f : α → Action β) :
    Except Error α × Vault → Prop
  | (.ok a, v) => (f a v).Yields Q
  | (.error e, v) => Q (.error e, v)

/-- An action after another one runs on what the first has answered, or not at
all. -/
theorem yields_bind {Q : Except Error β × Vault → Prop} (x : Action α) (f : α → Action β)
    (v : Vault) : ((x >>= f) v).Yields Q ↔ (x v).Yields (Onward Q f) := by
  show ((x v).bind _).Yields Q ↔ _
  rw [Script.yields_bind]
  refine Script.yields_congr (fun outcome => ?_) (x v)
  obtain ⟨result, w⟩ := outcome
  cases result with
  | ok a => exact Iff.rfl
  | error e => exact Iff.rfl

theorem yields_vault {Q : Except Error β × Vault → Prop} (f : Vault → Action β) (v : Vault) :
    ((Action.vault >>= f) v).Yields Q ↔ (f v v).Yields Q :=
  Iff.rfl

/-- A storage call leaves what is known of the vault alone. -/
theorem yields_call {Q : Except Error α × Vault → Prop} {s : Script (Except Error α)}
    {v : Vault} (h : ∀ result, Q (result, v)) : (call s v).Yields Q := by
  show (s.bind _).Yields Q
  rw [Script.yields_bind]
  exact Script.yields_of_forall h s

/-- A repair of the vault changes only what a failure leaves. -/
theorem yields_onError {Q : Except Error α × Vault → Prop} (x : Action α)
    (repair : Vault → Vault) (v : Vault) :
    (x.onError repair v).Yields Q ↔ (x v).Yields fun
      | (.ok a, w) => Q (.ok a, w)
      | (.error e, w) => Q (.error e, repair w) := by
  unfold onError
  rw [Script.yields_bind]
  refine Script.yields_congr (fun outcome => ?_) (x v)
  obtain ⟨result, w⟩ := outcome
  cases result with
  | ok a => exact Iff.rfl
  | error e => exact Iff.rfl

/-! ## §3. Actions on a medium. -/

variable {μ : Type} [Medium μ]

/-- The media after each call of two actions in a row. -/
theorem states_bind (x : Action α) (f : α → Action β) (v : Vault) (m : μ) :
    Script.states ((x >>= f) v) m = (x v).states m ++ match (x v).run m with
      | ((.ok a, w), m') => Script.states (f a w) m'
      | ((.error _, _), _) => [] := by
  show Script.states ((x v).bind _) m = _
  rw [Script.states_bind]
  cases (x v).run m with
  | mk outcome m' =>
    obtain ⟨result, w⟩ := outcome
    cases result with
    | ok a => rfl
    | error e => rfl

/-- The run of two actions: the second runs on the medium the first has left,
unless that failed. -/
theorem run_bind (x : Action α) (f : α → Action β) (v : Vault) (m : μ) :
    Script.run ((x >>= f) v) m = match (x v).run m with
      | ((.ok a, w), m') => Script.run (f a w) m'
      | ((.error e, w), m') => ((.error e, w), m') := by
  show Script.run ((x v).bind _) m = _
  rw [Script.run_bind]
  cases (x v).run m with
  | mk outcome m' =>
    obtain ⟨result, w⟩ := outcome
    cases result with
    | ok a => rfl
    | error e => rfl

/-- Putting the vault right takes no storage call. -/
theorem states_onError (x : Action α) (repair : Vault → Vault) (v : Vault) (m : μ) :
    Script.states (x.onError repair v) m = (x v).states m := by
  unfold onError
  rw [Script.states_bind]
  cases (x v).run m with
  | mk outcome m' =>
    obtain ⟨result, w⟩ := outcome
    cases result with
    | ok a => exact List.append_nil _
    | error e => exact List.append_nil _

/-- The run of an action with its repair: the medium is what the action has left. -/
theorem run_onError (x : Action α) (repair : Vault → Vault) (v : Vault) (m : μ) :
    Script.run (x.onError repair v) m = match (x v).run m with
      | ((.ok a, w), m') => ((.ok a, w), m')
      | ((.error e, w), m') => ((.error e, repair w), m') := by
  unfold onError
  rw [Script.run_bind]
  cases (x v).run m with
  | mk outcome m' =>
    obtain ⟨result, w⟩ := outcome
    cases result with
    | ok a => rfl
    | error e => rfl

end Action

end StateVault
