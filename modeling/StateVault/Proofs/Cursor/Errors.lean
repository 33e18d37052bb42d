/-
  StateVault.Proofs.Cursor.Errors
  ───────────────────────────────
  **WHICH ERRORS A READER CAN FAIL WITH.**

  A reader is a row of steps and checks.  What it fails with is what one of
  them fails with, whatever the bytes are: steps fail with the range that they
  ask for, and checks and throws with an error of their own.  So the errors of
  a reader are read off its text, step by step.

    • `Raises`                        — all errors of some steps,
    • `Raises.bind`, `Raises.guarded` — one step, or one check, after another,
    • `Raises.of_decode`              — the errors of a decoder.
-/
import StateVault.Proofs.Cursor.Runs

namespace StateVault.Cursor

variable {α β : Type} {P : Error → Prop}

/-- Wherever the steps fail, and from whichever cursor, the error satisfies
`P`. -/
def Raises (P : Error → Prop) (x : Steps α) : Prop :=
  ∀ c e d, x c = .error e d → P e

namespace Raises

/-! ## §1. Sequencing. -/

/-- No error comes of nothing. -/
theorem ret (a : α) : Raises P (return a : Steps α) := by
  intro c e d h
  cases h

/-- The errors of a sequence are those of its parts. -/
theorem bind {x : Steps α} {f : α → Steps β} (hx : Raises P x) (hf : ∀ a, Raises P (f a)) :
    Raises P (x >>= f) := by
  intro c e d h
  rw [bind_apply] at h
  cases hrun : x c with
  | ok a c' =>
    rw [hrun] at h
    exact hf a c' e d h
  | error e' c' =>
    rw [hrun] at h
    cases h
    exact hx c e _ hrun

/-- A check that throws, and what comes after it. -/
theorem guarded {p : Prop} [Decidable p] {e : Error} {f : PUnit → Steps β} {x : Steps β}
    (he : p → P e) (hx : Raises P x) :
    Raises P (if p then (throw e : Steps PUnit) >>= f else x) := by
  by_cases hp : p
  · rw [if_pos hp]
    intro c e' d h
    cases h
    exact he hp
  · rw [if_neg hp]
    exact hx

/-- A check raises the errors of the check. -/
theorem checked {check : Except Error α} (h : ∀ e, check = .error e → P e) :
    Raises P (require check) := by
  intro c e d hrun
  rw [require_apply] at hrun
  cases hcheck : check with
  | ok a =>
    rw [hcheck] at hrun
    cases hrun
  | error e' =>
    rw [hcheck] at hrun
    cases hrun
    exact h e hcheck

/-- Looking at the cursor raises nothing. -/
theorem here : Raises P (get : Steps Cursor) := by
  intro c e d h
  cases h

/-! ## §2. Moving and reading. -/

section Ranges

variable (hP : ∀ overrun, P (.outOfRange overrun))

include hP

theorem seek (position : Nat) : Raises P (Cursor.seek position) := by
  intro c e d h
  unfold Cursor.seek at h
  split at h
  · cases h
  · cases h
    exact hP _

/-- Reading raises no error but that of its range. -/
theorem take (n : Nat) : Raises P (Cursor.take n) := by
  intro c e d h
  unfold Cursor.take at h
  split at h
  · cases h
  · cases h
    exact hP _

theorem word8 : Raises P Cursor.word8 :=
  (take hP 1).bind fun _ => ret _

theorem word32 : Raises P Cursor.word32 :=
  (take hP 4).bind fun _ => ret _

theorem word64 : Raises P Cursor.word64 :=
  (take hP 8).bind fun _ => ret _

end Ranges

/-! ## §3. Decoding. -/

/-- The errors of a decoder are those of its steps. -/
theorem of_decode {x : Steps α} (h : Raises P x) {bytes : ByteArray} {e : Error}
    (hfails : decode x bytes = .error e) : P e := by
  rw [decode_eq] at hfails
  cases hrun : x ⟨bytes, 0⟩ with
  | ok a c =>
    rw [hrun] at hfails
    cases hfails
  | error e' c =>
    rw [hrun] at hfails
    cases hfails
    exact h _ e c hrun

end Raises

end StateVault.Cursor
