/-
  StateVault.Storage.Script
  ─────────────────────────
  **STORAGE CALLS AS DATA.**

  A script is a tree of storage calls: at each node one call, and for each
  result of it the script that follows.  What an operation does to its
  medium, call by call, can so be read off without a medium at hand, and
  every statement about all scripts is one induction.

    • `Script.run`    — carry a script out on a medium,
    • `Script.states` — the media after each of its calls, in order.

  Main lemmas: `run_bind`, `states_bind` (a script followed by another is
  carried out in this order).
-/
import StateVault.Storage.Medium

namespace StateVault

/-! ## §1. Scripts. -/

inductive Script (α : Type) where
  | done (a : α)
  | size (next : Nat → Script α)
  | read (offset count : Nat) (next : Except Error ByteArray → Script α)
  | write (offset : Nat) (data : ByteArray) (next : Except Error Unit → Script α)
  | setLength (length : Nat) (next : Except Error Unit → Script α)
  | sync (next : Except Error Unit → Script α)

namespace Script

variable {α β μ : Type}

/-- One script, then the one that its answer chooses. -/
def bind : Script α → (α → Script β) → Script β
  | done a, f => f a
  | size next, f => size fun n => (next n).bind f
  | read offset count next, f => read offset count fun r => (next r).bind f
  | write offset data next, f => write offset data fun r => (next r).bind f
  | setLength length next, f => setLength length fun r => (next r).bind f
  | sync next, f => sync fun r => (next r).bind f

instance : Monad Script where
  pure := done
  bind := bind

/-- One script, then the one that its result chooses; a failure ends both. -/
def andThen (s : Script (Except Error α)) (f : α → Script (Except Error β)) :
    Script (Except Error β) :=
  s.bind fun
    | .ok a => f a
    | .error e => done (.error e)

/-! ## §2. Carrying out. -/

/-- The answer of a script on a medium, and the medium after it. -/
def run [Medium μ] : Script α → μ → α × μ
  | done a, m => (a, m)
  | size next, m => run (next (Medium.size m)) m
  | read offset count next, m =>
      let (result, m) := Medium.read offset count m
      run (next result) m
  | write offset data next, m =>
      let (result, m) := Medium.write offset data m
      run (next result) m
  | setLength length next, m =>
      let (result, m) := Medium.setLength length m
      run (next result) m
  | sync next, m =>
      let (result, m) := Medium.sync m
      run (next result) m

/-- The medium after each call of a script. -/
def states [Medium μ] : Script α → μ → List μ
  | done _, _ => []
  | size next, m => states (next (Medium.size m)) m
  | read offset count next, m =>
      let (result, m) := Medium.read offset count m
      m :: states (next result) m
  | write offset data next, m =>
      let (result, m) := Medium.write offset data m
      m :: states (next result) m
  | setLength length next, m =>
      let (result, m) := Medium.setLength length m
      m :: states (next result) m
  | sync next, m =>
      let (result, m) := Medium.sync m
      m :: states (next result) m

/-- A sequence runs its first part and then, on the medium that this leaves,
the second. -/
theorem run_bind [Medium μ] (s : Script α) (f : α → Script β) (m : μ) :
    (s.bind f).run m = (f (s.run m).1).run (s.run m).2 := by
  induction s generalizing m with
  | done a => rfl
  | size next ih => exact ih _ _
  | read offset count next ih => exact ih _ _
  | write offset data next ih => exact ih _ _
  | setLength length next ih => exact ih _ _
  | sync next ih => exact ih _ _

/-- The media that a sequence goes through: those of its first part, and then
those of the second. -/
theorem states_bind [Medium μ] (s : Script α) (f : α → Script β) (m : μ) :
    (s.bind f).states m = s.states m ++ (f (s.run m).1).states (s.run m).2 := by
  induction s generalizing m with
  | done a => rfl
  | size next ih => exact ih _ _
  | read offset count next ih => exact congrArg _ (ih _ _)
  | write offset data next ih => exact congrArg _ (ih _ _)
  | setLength length next ih => exact congrArg _ (ih _ _)
  | sync next ih => exact congrArg _ (ih _ _)

end Script

end StateVault
