/-
  StateVault.Proofs.Storage.Outline
  ─────────────────────────────────
  **THE OUTLINE OF AN IMAGE: ITS LENGTH, AND NO BYTES.**

  Most operations only write.  What they answer then depends on the length
  of the image alone, and can be computed without its bytes.  An outline is a
  view of an image (`View`): all calls but reads do the same to both.

    • `View.blind`         — a script that reads nothing answers on a medium as
                             on a view of it,
    • `outline_view`       — the outline is a view of the image,
    • `View.faulty`        — a view of a medium is one under a rule, too.
-/
import StateVault.Proofs.Storage.Tally

namespace StateVault

/-! ## §1. Views. -/

/-- All calls but reads do the same to a medium and to `f` of it. -/
structure View {μ ν : Type} [Medium μ] [Medium ν] (f : μ → ν) : Prop where
  size : ∀ m, Medium.size (f m) = Medium.size m
  write : ∀ offset data m, Medium.write offset data (f m)
    = ((Medium.write offset data m).1, f (Medium.write offset data m).2)
  setLength : ∀ length m, Medium.setLength length (f m)
    = ((Medium.setLength length m).1, f (Medium.setLength length m).2)
  sync : ∀ m, Medium.sync (f m) = ((Medium.sync m).1, f (Medium.sync m).2)

namespace Script

variable {α : Type}

/-- The run of a script that reads nothing; there is none of one that reads. -/
def blind {μ : Type} [Medium μ] : Script α → μ → Option (α × μ)
  | done a, m => some (a, m)
  | size next, m => (next (Medium.size m)).blind m
  | read _ _ _, _ => none
  | write offset data next, m =>
      (next (Medium.write offset data m).1).blind (Medium.write offset data m).2
  | setLength length next, m =>
      (next (Medium.setLength length m).1).blind (Medium.setLength length m).2
  | sync next, m => (next (Medium.sync m).1).blind (Medium.sync m).2

end Script

namespace Faulty

variable {ω μ ν : Type} {rule : FaultRule ω} {f : μ → ν}

/-- Another medium under the same rule, in the same state of the rule. -/
def seen (f : μ → ν) (x : Faulty rule μ) : Faulty rule ν :=
  ⟨f x.medium, x.state⟩

/-- A rule that sees the same call decides the same on a view. -/
theorem guard_seen {call : Call}
    {through : μ → Except Error Unit × μ} {through' : ν → Except Error Unit × ν}
    (h : ∀ m, through' (f m) = ((through m).1, f (through m).2)) (x : Faulty rule μ) :
    guard call through' (x.seen f)
      = ((guard call through x).1, (guard call through x).2.seen f) := by
  unfold guard seen
  dsimp only
  cases rule.next x.state call with
  | mk outcome state =>
    cases outcome with
    | passes => simp only [h]
    | fails landed => rfl

end Faulty

section Views

variable {α μ ν : Type} [Medium μ] [Medium ν] {f : μ → ν}

/-- A script that reads nothing answers on a medium as on a view of it. -/
theorem View.blind (hf : View f) {s : Script α} {m : μ} {a : α} {x : ν}
    (h : s.blind (f m) = some (a, x)) : (s.run m).1 = a ∧ f (s.run m).2 = x := by
  induction s generalizing m with
  | done b =>
    cases h
    exact ⟨rfl, rfl⟩
  -- every answer of the view is that of the medium, so the runs never part
  | size next ih =>
    rw [Script.blind, hf.size] at h
    exact ih _ h
  -- a read has no blind run
  | read offset count next ih => cases h
  | write offset data next ih =>
    rw [Script.blind, hf.write] at h
    exact ih _ h
  | setLength length next ih =>
    rw [Script.blind, hf.setLength] at h
    exact ih _ h
  | sync next ih =>
    rw [Script.blind, hf.sync] at h
    exact ih _ h

/-- The same, for the whole outcome. -/
theorem View.run_of_blind (hf : View f) {s : Script α} {m : μ} {a : α} {x : ν}
    (h : s.blind (f m) = some (a, x)) : ∃ m', s.run m = (a, m') ∧ f m' = x :=
  ⟨_, Prod.ext (hf.blind h).1 rfl, (hf.blind h).2⟩

/-- The states of the view are views of the states. -/
theorem View.states (hf : View f) {s : Script α} {m : μ}
    (h : (s.blind (f m)).isSome = true) : (s.states m).map f = s.states (f m) := by
  induction s generalizing m with
  | done b => rfl
  | size next ih =>
    -- the view answers as the medium does, here and after each call
    rw [Script.blind, hf.size] at h
    show _ = (next (Medium.size (f m))).states (f m)
    rw [hf.size]
    exact ih _ h
  | read offset count next ih => cases h
  | write offset data next ih =>
    rw [Script.blind, hf.write] at h
    show _ = (Medium.write offset data (f m)).2
      :: (next (Medium.write offset data (f m)).1).states (Medium.write offset data (f m)).2
    rw [hf.write]
    exact congrArg (List.cons _) (ih _ h)
  | setLength length next ih =>
    rw [Script.blind, hf.setLength] at h
    show _ = (Medium.setLength length (f m)).2
      :: (next (Medium.setLength length (f m)).1).states (Medium.setLength length (f m)).2
    rw [hf.setLength]
    exact congrArg (List.cons _) (ih _ h)
  | sync next ih =>
    rw [Script.blind, hf.sync] at h
    show _ = (Medium.sync (f m)).2
      :: (next (Medium.sync (f m)).1).states (Medium.sync (f m)).2
    rw [hf.sync]
    exact congrArg (List.cons _) (ih _ h)

/-- A view of a medium is a view of it under a rule. -/
theorem View.faulty (hf : View f) {ω : Type} (rule : FaultRule ω) :
    View (Faulty.seen f : Faulty rule μ → Faulty rule ν) where
  size x := hf.size x.medium
  write offset data x := by
    show Faulty.write offset data (x.seen f)
      = ((Faulty.write offset data x).1, (Faulty.write offset data x).2.seen f)
    -- a torn write is itself a write to the medium, so the view keeps up with it
    unfold Faulty.write Faulty.seen
    dsimp only
    cases rule.next x.state (.write offset data.size) with
    | mk outcome state =>
      cases outcome with
      | passes => simp only [hf.write]
      | fails landed =>
        cases landed with
        | none => rfl
        | some landed =>
          simp only [hf.write]
          cases Medium.write offset (data.extract 0 landed) x.medium with
          | mk result medium =>
            cases result with
            | ok u => rfl
            | error e => rfl
  setLength length x := Faulty.guard_seen (hf.setLength length) x
  sync x := Faulty.guard_seen hf.sync x

theorem View.comp {ρ : Type} [Medium ρ] {g : ν → ρ} (hg : View g) (hf : View f) :
    View fun m => g (f m) where
  size m := (hg.size _).trans (hf.size m)
  write offset data m := by rw [hg.write, hf.write]
  setLength length m := by rw [hg.setLength, hf.setLength]
  sync m := by rw [hg.sync, hf.sync]

/-- What is counted is a view of the tally. -/
theorem View.tally : View (Tally.medium : Tally μ → μ) where
  size _ := rfl
  write _ _ _ := rfl
  setLength _ _ := rfl
  sync _ := rfl

/-- The same count over a view of the medium. -/
def Tally.seen (f : μ → ν) (x : Tally μ) : Tally ν :=
  ⟨f x.medium, x.records⟩

/-- A view of a medium is a view of it with the records counted. -/
theorem View.tallied (hf : View f) : View (Tally.seen f) where
  size x := hf.size x.medium
  write offset data x := by
    show Tally.count (x.seen f) offset (Medium.write offset data (f x.medium)) = _
    rw [hf.write]
    rfl
  setLength length x := by
    show Tally.keep (x.seen f) (Medium.setLength length (f x.medium)) = _
    rw [hf.setLength]
    rfl
  sync x := by
    show Tally.keep (x.seen f) (Medium.sync (f x.medium)) = _
    rw [hf.sync]
    rfl

end Views

/-! ## §2. Outlines. -/

/-- The length of an image. -/
structure Outline where
  length : Nat
deriving DecidableEq, Repr

namespace Outline

def ofImage (image : Image) : Outline :=
  ⟨image.size⟩

/-- An outline has no bytes to read. -/
instance : Medium Outline where
  size := length
  read _ _ x := (.error .device, x)
  write offset data x := (within offset data.size x.length, x)
  setLength length _ := (.ok (), ⟨length⟩)
  sync x := (.ok (), x)

end Outline

/-- The length of an image answers every call but reads as the image does. -/
theorem outline_view : View Outline.ofImage where
  size _ := rfl
  write offset data image := by
    show (within offset data.size image.size, Outline.ofImage image)
      = ((Image.write offset data image).1, Outline.ofImage (Image.write offset data image).2)
    by_cases hin : offset + data.size ≤ image.size
    · rw [Image.write_of_fits hin, within, if_pos hin]
      exact congrArg (Except.ok (), Outline.mk ·) (Bytes.size_overlay image offset data hin).symm
    · rw [Image.write_of_overrun hin, within, if_neg hin]
  setLength length image :=
    congrArg (Except.ok (), Outline.mk ·) (Bytes.size_resized image length).symm
  sync _ := rfl

end StateVault
