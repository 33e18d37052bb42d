/-
  StateVault.Proofs.Vault.Requests
  ────────────────────────────────
  **WHAT CAN BE ASKED OF AN OPEN VAULT.**

  The operations on an open vault as data, so that a run of them is a list
  and a statement about all runs is an induction.  A handle is a vault and
  the medium under it; each request leaves a handle behind, whether it goes
  through or fails.

    • `Request.yields_sound` — no request makes a sound vault unsound,
    • `Handle.Reached.sound` — and no run of them does,
    • `replay_of_blind`      — a list of requests that read nothing can be run
                               on a view of the medium.
-/
import StateVault.Proofs.Storage.Outline
import StateVault.Proofs.Vault.Opened

namespace StateVault.Vault

/-! ## §1. Requests. -/

/-- Bytes for a stream; their number is a 64-bit word, as that of any buffer. -/
structure Payload where
  bytes : ByteArray
  fits : bytes.size < UInt64.size

inductive Request where
  | write (name : String) (data : Payload)
  | writeWith (name : String) (data : Payload) (flags : Flags)
  | delete (name : String)
  | resize (total : UInt64)
  | read (name : String)
  | verify

/-- What a request that goes through answers. -/
inductive Answer where
  | done
  | bytes (bytes : ByteArray)
  | report (report : Report)

/-- The operation that is asked for. -/
def Request.action : Request → Action Answer
  | .write name data => do
      Vault.write name data.bytes
      return .done
  | .writeWith name data flags => do
      Vault.writeWith name data.bytes flags
      return .done
  | .delete name => do
      Vault.delete name
      return .done
  | .resize total => do
      Vault.resize total
      return .done
  | .read name => return .bytes (← Vault.read name)
  | .verify => return .report (← Vault.verify)

/-! ## §2. Handles. -/

/-- An open vault and the medium under it. -/
structure Handle (μ : Type) where
  vault : Vault
  medium : μ

namespace Handle

variable {μ : Type} [Medium μ]

/-- The result of a request, and the handle after it. -/
def perform (h : Handle μ) (r : Request) : Except Error Answer × Handle μ :=
  (((r.action h.vault).run h.medium).1.1,
    ⟨((r.action h.vault).run h.medium).1.2, ((r.action h.vault).run h.medium).2⟩)

/-- The handles that come of formatting or opening a medium, and of any run of
requests after that. -/
inductive Reached : Handle μ → Prop where
  | formatted {settings : Settings} {v : Vault} {m m' : μ}
      (h : (format settings).run m = (.ok v, m')) : Reached ⟨v, m'⟩
  | mounted {settings : Settings} {v : Vault} {m m' : μ}
      (h : (mount settings).run m = (.ok v, m')) : Reached ⟨v, m'⟩
  | performed {h : Handle μ} (reached : Reached h) (r : Request) : Reached (h.perform r).2

end Handle

/-! ## §3. Sound throughout. -/

theorem Written.sound {v w : Vault} {name : String} {data : ByteArray} {flags : Flags}
    {result : Except Error Unit} (h : v.Written name data flags (result, w)) : w.Sound := by
  cases result with
  | ok u => exact h.1
  | error e => exact h.1

theorem Turned.sound {v w : Vault} {d : Directory} {result : Except Error Unit}
    (h : v.Turned d (result, w)) : w.Sound := by
  cases result with
  | ok u => exact h.1
  | error e => exact h.1

/-- An answer that is given in the place of another one changes no vault. -/
theorem yields_return {α β : Type} {P : Vault → Prop} {x : Action α} {f : α → β} {v : Vault}
    (h : (x v).Yields fun outcome => P outcome.2) :
    ((x >>= fun a => (return f a : Action β)) v).Yields fun outcome => P outcome.2 := by
  rw [Action.yields_bind]
  refine h.mono ?_
  intro outcome hw
  obtain ⟨result, w⟩ := outcome
  cases result with
  | ok a => exact hw
  | error e => exact hw

/-- **Every request leaves a sound vault.** -/
theorem Request.yields_sound {v : Vault} (h : v.Sound) (r : Request) :
    (r.action v).Yields fun outcome => outcome.2.Sound := by
  cases r with
  | write name data =>
    exact yields_return ((write_yields h name data.bytes).mono fun _ hw => Written.sound hw)
  | writeWith name data flags =>
    exact yields_return
      ((writeWith_yields h name data.bytes flags).mono fun _ hw => Written.sound hw)
  | delete name =>
    exact yields_return ((delete_yields h name).mono fun _ hw => Turned.sound hw.1)
  | resize total =>
    exact yields_return ((resize_yields h total).mono fun _ hw => hw.sound)
  | read name =>
    exact yields_return ((read_yields name v).mono fun _ hw => hw ▸ h)
  | verify =>
    exact yields_return ((verify_yields v).mono fun _ hw => hw ▸ h)

/-- **Every reached handle has a sound vault**, whatever the medium does. -/
theorem Handle.Reached.sound {μ : Type} [Medium μ] {h : Handle μ} (hr : h.Reached) :
    h.vault.Sound := by
  induction hr with
  | @formatted settings v m m' hrun =>
    have hyields := (format_yields settings).run m
    rw [hrun] at hyields
    exact hyields.1
  | @mounted settings v m m' hrun =>
    have hyields := (mount_yields settings).run m
    rw [hrun] at hyields
    exact hyields.1
  | performed reached r ih => exact (r.yields_sound ih).run _

/-! ## §4. Lists of requests. -/

section Lists

variable {μ ν : Type} [Medium μ] [Medium ν]

/-- The results of some requests, and the handle after them. -/
def Handle.performAll (h : Handle μ) : List Request → List (Except Error Answer) × Handle μ
  | [] => ([], h)
  | r :: rs =>
      let (result, h) := h.perform r
      let (results, h) := h.performAll rs
      (result :: results, h)

/-- The results of some requests after a format that goes through, and the
handle after them. -/
def replay (settings : Settings) (rs : List Request) (m : μ) :
    Option (List (Except Error Answer) × Handle μ) :=
  match (format settings).run m with
  | (.ok v, m) => some (Handle.performAll ⟨v, m⟩ rs)
  | (.error _, _) => none

/-- The same for requests that read nothing; there is no such run of others. -/
def Handle.blind (h : Handle μ) : List Request → Option (List (Except Error Answer) × Handle μ)
  | [] => some ([], h)
  | r :: rs =>
      match (r.action h.vault).blind h.medium with
      | some ((result, v), m) => (Handle.blind ⟨v, m⟩ rs).map fun x => (result :: x.1, x.2)
      | none => none

/-- Formatting and some requests that read nothing. -/
def blindReplay (settings : Settings) (rs : List Request) (m : μ) :
    Option (List (Except Error Answer) × Handle μ) :=
  match (format settings).blind m with
  | some (.ok v, m) => Handle.blind ⟨v, m⟩ rs
  | _ => none

/-- The same vault on a view of its medium. -/
def Handle.seen (f : μ → ν) (h : Handle μ) : Handle ν :=
  ⟨h.vault, f h.medium⟩

variable {f : μ → ν} {settings : Settings} {rs : List Request}

/-- A request that reads nothing does on a medium what it does on a view of it. -/
theorem Handle.perform_of_blind (hf : View f) {h : Handle μ} {r : Request}
    {result : Except Error Answer} {w : Vault} {x : ν}
    (hblind : (r.action h.vault).blind (f h.medium) = some ((result, w), x)) :
    (h.perform r).1 = result ∧ (h.perform r).2.seen f = ⟨w, x⟩ := by
  obtain ⟨hanswer, hmedium⟩ := hf.blind hblind
  exact ⟨congrArg Prod.fst hanswer,
    congr (congrArg Handle.mk (congrArg Prod.snd hanswer)) hmedium⟩

theorem Handle.performAll_of_blind (hf : View f) {h : Handle μ}
    {x : List (Except Error Answer) × Handle ν} (hblind : (h.seen f).blind rs = some x) :
    (h.performAll rs).1 = x.1 ∧ (h.performAll rs).2.seen f = x.2 := by
  induction rs generalizing h x with
  | nil =>
    cases hblind
    exact ⟨rfl, rfl⟩
  | cons r rs ih =>
    rw [Handle.blind] at hblind
    cases hrun : (r.action (h.seen f).vault).blind (h.seen f).medium with
    | none =>
      rw [hrun] at hblind
      cases hblind
    | some y =>
      obtain ⟨⟨result, w⟩, m⟩ := y
      rw [hrun] at hblind
      obtain ⟨z, hz, rfl⟩ := Option.map_eq_some_iff.mp hblind
      -- the handle after the first request is seen as that of the blind run
      obtain ⟨hresult, hnext⟩ := Handle.perform_of_blind (h := h) hf hrun
      obtain ⟨hresults, hhandle⟩ := ih (h := (h.perform r).2) (hnext.symm ▸ hz)
      exact ⟨congr (congrArg List.cons hresult) hresults, hhandle⟩

/-- Formatting and requests that read nothing do on a medium what they do on a
view of it. -/
theorem replay_of_blind (hf : View f) {m : μ} {x : List (Except Error Answer) × Handle ν}
    (hblind : blindReplay settings rs (f m) = some x) :
    ∃ h, replay settings rs m = some (x.1, h) ∧ h.seen f = x.2 := by
  unfold blindReplay at hblind
  cases hformat : (format settings).blind (f m) with
  | none =>
    rw [hformat] at hblind
    cases hblind
  | some y =>
    obtain ⟨result, m'⟩ := y
    rw [hformat] at hblind
    -- the format answers the same, on a medium that is seen the same
    obtain ⟨hanswer, hmedium⟩ := hf.blind hformat
    cases result with
    | error e => cases hblind
    | ok v =>
      cases hrun : (format settings).run m with
      | mk answer m₁ =>
        rw [hrun] at hanswer hmedium
        cases hanswer
        cases hmedium
        obtain ⟨hresults, hhandle⟩ := Handle.performAll_of_blind (h := ⟨v, m₁⟩) hf hblind
        unfold replay
        rw [hrun, ← hresults]
        exact ⟨_, rfl, hhandle⟩

/-- The same, and an action after them that reads nothing. -/
def blindThen {α : Type} (settings : Settings) (rs : List Request) (x : Action α) (m : ν) :
    Option ((List (Except Error Answer) × Handle ν) × (Except Error α × Vault) × ν) :=
  (blindReplay settings rs m).bind fun y =>
    ((x y.2.vault).blind y.2.medium).map fun z => (y, z)

theorem then_of_blind {α : Type} (hf : View f) {m : μ} {x : Action α}
    {results : List (Except Error Answer)} {o : Handle ν} {result : Except Error α} {w : Vault}
    {o' : ν} (hblind : blindThen settings rs x (f m) = some ((results, o), (result, w), o')) :
    ∃ h m', replay settings rs m = some (results, h) ∧ h.seen f = o
      ∧ (x h.vault).run h.medium = ((result, w), m') ∧ f m' = o' := by
  obtain ⟨y, hbefore, hrest⟩ := Option.bind_eq_some_iff.mp hblind
  obtain ⟨z, hlast, hpair⟩ := Option.map_eq_some_iff.mp hrest
  cases hpair
  obtain ⟨h, hreplay, hseen⟩ := replay_of_blind hf hbefore
  obtain rfl : h.seen f = o := hseen
  obtain ⟨m', hrun, hview⟩ := hf.run_of_blind (m := h.medium) hlast
  exact ⟨h, m', hreplay, rfl, hrun, hview⟩

/-- Without requests a replay is the format. -/
theorem format_of_replay {μ : Type} [Medium μ] {settings : Settings} {m : μ} {h : Handle μ}
    {results : List (Except Error Answer)} (hreplay : replay settings [] m = some (results, h)) :
    (format settings).run m = (.ok h.vault, h.medium) := by
  unfold replay at hreplay
  cases hrun : (format settings).run m with
  | mk answer m' =>
    rw [hrun] at hreplay
    cases answer with
    | error e => cases hreplay
    | ok v =>
      cases hreplay
      rfl

theorem Handle.performAll_induction {P : Handle μ → Prop}
    (hperform : ∀ h, ∀ r ∈ rs, P h → P (h.perform r).2) {h : Handle μ} (hP : P h) :
    P (h.performAll rs).2 := by
  induction rs generalizing h with
  | nil => exact hP
  | cons r rs ih =>
    exact ih (fun h s hs => hperform h s (List.mem_cons_of_mem _ hs))
      (hperform h r List.mem_cons_self hP)

/-- What holds of formatted handles and is kept by the requests of a list holds
after them. -/
theorem replay_induction {P : Handle μ → Prop} {m : μ} {h : Handle μ}
    {results : List (Except Error Answer)} (hreplay : replay settings rs m = some (results, h))
    (hformat : ∀ v m', (format settings).run m = (.ok v, m') → P ⟨v, m'⟩)
    (hperform : ∀ h, ∀ r ∈ rs, P h → P (h.perform r).2) : P h := by
  unfold replay at hreplay
  cases hrun : (format settings).run m with
  | mk answer m' =>
    rw [hrun] at hreplay
    cases answer with
    | error e => cases hreplay
    | ok v =>
      have hend : P (Handle.performAll ⟨v, m'⟩ rs).2 :=
        Handle.performAll_induction hperform (hformat v m' hrun)
      rw [Option.some.inj hreplay] at hend
      exact hend

theorem reached_of_replay {m : μ} {h : Handle μ} {results : List (Except Error Answer)}
    (hreplay : replay settings rs m = some (results, h)) : h.Reached :=
  replay_induction hreplay (fun _ _ hrun => .formatted hrun) fun _ r _ hr => hr.performed r

/-- Eight blocks of the least size, and no more. -/
def eightBlocks : Settings :=
  { blockSize := 512, initialBlocks := 8, autoGrow := false, maxBlocks := 8 }

/-- No bytes. -/
def Payload.empty : Payload :=
  ⟨ByteArray.empty, by decide⟩

/-- One byte. -/
def Payload.one (byte : UInt8) : Payload :=
  ⟨⟨#[byte]⟩, by
    show 1 < UInt64.size
    decide⟩

end Lists

end StateVault.Vault
