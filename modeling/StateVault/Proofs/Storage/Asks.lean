/-
  StateVault.Proofs.Storage.Asks
  ──────────────────────────────
  **WHICH CALLS A SCRIPT MAKES ON A MEDIUM THAT NEVER BECOMES TOO LONG.**

  `s.Asks limit P Q` says of the script `s` that each of its calls satisfies
  `P` and its answer `Q`, whatever the calls answer, as long as the medium
  tells of fewer than `limit` bytes and no length of `limit` or more is set
  with success.  Nothing else is said of the medium: it may fail any call.

    • `asks_bind`, `asks_andThen`, `Asks.mono` — rules for scripts,
    • `Action.asks_bind`, `Action.asks_onError` — the same for actions,
    • `Asks.run`               — the calls of a run on a medium, and its answer.
-/
import StateVault.Proofs.Storage.Outline

namespace StateVault

/-- A length that is set is the size of the medium after the call.  Nothing is
said of a call that fails. -/
def SetsSize (μ : Type) [Medium μ] : Prop :=
  ∀ length (m : μ), (Medium.setLength length m).1.isOk = true →
    Medium.size (Medium.setLength length m).2 = length

/-- A medium whose calls do what they do to an image, some of them failing, sets
its size. -/
theorem Obeys.setsSize {μ : Type} [Medium μ] {F : Failures} {image : μ → Image}
    (h : Obeys F image) : SetsSize μ := by
  intro length m hok
  rw [h.size]
  have hsets := h.setLength length m
  generalize (Medium.setLength length m).1 = result at hok hsets
  generalize image (Medium.setLength length m).2 = image' at hsets
  cases hsets with
  | whole => exact Bytes.size_resized _ _
  | failed _ e => cases hok

/-! ## §1. Scripts. -/

namespace Script

variable {α β μ : Type} {limit : Nat} {P : Call → Prop}

/-- Each call satisfies `P` and the answer `Q`, on a medium of fewer than
`limit` bytes. -/
def Asks (limit : Nat) (P : Call → Prop) (Q : α → Prop) : Script α → Prop
  | done a => Q a
  | size next => ∀ n, n < limit → Asks limit P Q (next n)
  | read offset count next => P (.read offset count) ∧ ∀ result, Asks limit P Q (next result)
  | write offset data next =>
      P (.write offset data.size) ∧ ∀ result, Asks limit P Q (next result)
  | setLength length next => P (.setLength length) ∧ ∀ result : Except Error Unit,
      (result.isOk = true → length < limit) → Asks limit P Q (next result)
  | sync next => P .sync ∧ ∀ result, Asks limit P Q (next result)

/-- The calls of one script after another are those of the first, then those of
the second on its answer. -/
theorem asks_bind {Q : β → Prop} (s : Script α) (f : α → Script β) :
    (s.bind f).Asks limit P Q ↔ s.Asks limit P fun a => (f a).Asks limit P Q := by
  induction s with
  | done a => rfl
  | size next ih => exact forall_congr' fun n => imp_congr_right fun _ => ih n
  | read offset count next ih =>
    exact and_congr_right fun _ => forall_congr' fun result => ih result
  | write offset data next ih =>
    exact and_congr_right fun _ => forall_congr' fun result => ih result
  | setLength length next ih =>
    exact and_congr_right fun _ => forall_congr' fun result => imp_congr_right fun _ => ih result
  | sync next ih => exact and_congr_right fun _ => forall_congr' fun result => ih result

/-- Less may be said of the calls, and less of the answer. -/
theorem Asks.weaken {P' : Call → Prop} {Q Q' : α → Prop} {s : Script α} (h : s.Asks limit P Q)
    (hcalls : ∀ c, P c → P' c) (himp : ∀ a, Q a → Q' a) : s.Asks limit P' Q' := by
  induction s with
  | done a => exact himp a h
  | size next ih => exact fun n hn => ih n (h n hn)
  | read offset count next ih => exact ⟨hcalls _ h.1, fun result => ih result (h.2 result)⟩
  | write offset data next ih => exact ⟨hcalls _ h.1, fun result => ih result (h.2 result)⟩
  | setLength length next ih =>
    exact ⟨hcalls _ h.1, fun result hset => ih result (h.2 result hset)⟩
  | sync next ih => exact ⟨hcalls _ h.1, fun result => ih result (h.2 result)⟩

theorem Asks.mono {Q Q' : α → Prop} {s : Script α} (h : s.Asks limit P Q)
    (himp : ∀ a, Q a → Q' a) : s.Asks limit P Q' :=
  h.weaken (fun _ => id) himp

theorem asks_congr {Q Q' : α → Prop} (h : ∀ a, Q a ↔ Q' a) (s : Script α) :
    s.Asks limit P Q ↔ s.Asks limit P Q' :=
  ⟨fun hq => hq.mono fun a => (h a).mp, fun hq => hq.mono fun a => (h a).mpr⟩

/-- A script that the answer of another one chooses; a failure ends both. -/
theorem asks_andThen {Q : Except Error β → Prop} (s : Script (Except Error α))
    (f : α → Script (Except Error β)) :
    (s.andThen f).Asks limit P Q ↔ s.Asks limit P fun
      | .ok a => (f a).Asks limit P Q
      | .error e => Q (.error e) := by
  rw [andThen, asks_bind]
  refine asks_congr (fun result => ?_) s
  cases result with
  | ok a => exact Iff.rfl
  | error e => exact Iff.rfl

/-! ## §2. Runs. -/

/-- The calls in the run of a script, in order; asking for the size is none. -/
def calls [Medium μ] : Script α → μ → List Call
  | done _, _ => []
  | size next, m => (next (Medium.size m)).calls m
  | read offset count next, m =>
      .read offset count
        :: (next (Medium.read offset count m).1).calls (Medium.read offset count m).2
  | write offset data next, m =>
      .write offset data.size
        :: (next (Medium.write offset data m).1).calls (Medium.write offset data m).2
  | setLength length next, m =>
      .setLength length
        :: (next (Medium.setLength length m).1).calls (Medium.setLength length m).2
  | sync next, m => .sync :: (next (Medium.sync m).1).calls (Medium.sync m).2

/-- The medium has fewer than `limit` bytes before a script and after each of
its calls. -/
def Short [Medium μ] (limit : Nat) (s : Script α) (m : μ) : Prop :=
  ∀ m' ∈ m :: s.states m, Medium.size m' < limit

instance [Medium μ] (limit : Nat) (s : Script α) (m : μ) : Decidable (s.Short limit m) :=
  inferInstanceAs (Decidable (∀ m' ∈ m :: s.states m, Medium.size m' < limit))

/-- What is known of the calls and of the answer holds in a run throughout
which the medium is short enough. -/
theorem Asks.run [Medium μ] (hsets : SetsSize μ) {Q : α → Prop} {s : Script α}
    (h : s.Asks limit P Q) {m : μ} (hshort : s.Short limit m) :
    (∀ c ∈ s.calls m, P c) ∧ Q (s.run m).1 := by
  have hcons : ∀ {c : Call} {cs : List Call}, P c → (∀ d ∈ cs, P d) → ∀ d ∈ c :: cs, P d :=
    fun hc hcs => List.forall_mem_cons.mpr ⟨hc, hcs⟩
  induction s generalizing m with
  | done a => exact ⟨fun c hc => absurd hc List.not_mem_nil, h⟩
  | size next ih => exact ih _ (h _ (hshort m List.mem_cons_self)) hshort
  | read offset count next ih =>
    obtain ⟨hcalls, hanswer⟩ := ih _ (h.2 _) fun m' hm' => hshort m' (List.mem_cons_of_mem _ hm')
    exact ⟨hcons h.1 hcalls, hanswer⟩
  | write offset data next ih =>
    obtain ⟨hcalls, hanswer⟩ := ih _ (h.2 _) fun m' hm' => hshort m' (List.mem_cons_of_mem _ hm')
    exact ⟨hcons h.1 hcalls, hanswer⟩
  | setLength length next ih =>
    -- the length asked for is the size after the call, and that is below the limit
    have hset : (Medium.setLength length m).1.isOk = true → length < limit := by
      intro hok
      have hafter := hshort (Medium.setLength length m).2
        (List.mem_cons_of_mem _ List.mem_cons_self)
      rwa [hsets length m hok] at hafter
    obtain ⟨hcalls, hanswer⟩ := ih _ (h.2 _ hset) fun m' hm' =>
      hshort m' (List.mem_cons_of_mem _ hm')
    exact ⟨hcons h.1 hcalls, hanswer⟩
  | sync next ih =>
    obtain ⟨hcalls, hanswer⟩ := ih _ (h.2 _) fun m' hm' => hshort m' (List.mem_cons_of_mem _ hm')
    exact ⟨hcons h.1 hcalls, hanswer⟩

end Script

/-- A medium is short enough for a script that reads nothing if a view of it
is. -/
theorem View.short {α μ ν : Type} [Medium μ] [Medium ν] {f : μ → ν} (hf : View f) {limit : Nat}
    {s : Script α} {m : μ} (hblind : (s.blind (f m)).isSome = true)
    (h : s.Short limit (f m)) : s.Short limit m := by
  intro m' hm'
  rw [← hf.size]
  refine h (f m') ?_
  rw [← hf.states hblind, ← List.map_cons]
  exact List.mem_map_of_mem hm'

/-! ## §3. Actions. -/

namespace Action

variable {α β : Type} {limit : Nat} {P : Call → Prop}

/-- What an action after another one has to ask for both to end in `Q`. -/
def Further (limit : Nat) (P : Call → Prop) (Q : Except Error β × Vault → Prop)
    (f : α → Action β) : Except Error α × Vault → Prop
  | (.ok a, v) => (f a v).Asks limit P Q
  | (.error e, v) => Q (.error e, v)

/-- The calls of an action after another one; a failure of the first ends both. -/
theorem asks_bind {Q : Except Error β × Vault → Prop} (x : Action α) (f : α → Action β)
    (v : Vault) : ((x >>= f) v).Asks limit P Q ↔ (x v).Asks limit P (Further limit P Q f) := by
  show ((x v).bind _).Asks limit P Q ↔ _
  rw [Script.asks_bind]
  refine Script.asks_congr (fun outcome => ?_) (x v)
  obtain ⟨result, w⟩ := outcome
  cases result with
  | ok a => exact Iff.rfl
  | error e => exact Iff.rfl

theorem asks_vault {Q : Except Error β × Vault → Prop} (f : Vault → Action β) (v : Vault) :
    ((Action.vault >>= f) v).Asks limit P Q ↔ (f v v).Asks limit P Q :=
  Iff.rfl

/-- A script as an action makes the calls of the script. -/
theorem asks_call {Q : Except Error α × Vault → Prop} (s : Script (Except Error α))
    (v : Vault) :
    (call s v).Asks limit P Q ↔ s.Asks limit P fun result => Q (result, v) := by
  show (s.bind _).Asks limit P Q ↔ _
  rw [Script.asks_bind]
  exact Iff.rfl

theorem asks_onError {Q : Except Error α × Vault → Prop} (x : Action α)
    (repair : Vault → Vault) (v : Vault) :
    (x.onError repair v).Asks limit P Q ↔ (x v).Asks limit P fun
      | (.ok a, w) => Q (.ok a, w)
      | (.error e, w) => Q (.error e, repair w) := by
  unfold onError
  rw [Script.asks_bind]
  refine Script.asks_congr (fun outcome => ?_) (x v)
  obtain ⟨result, w⟩ := outcome
  cases result with
  | ok a => exact Iff.rfl
  | error e => exact Iff.rfl

end Action

end StateVault
