/-
  StateVault.Storage.Faults
  ─────────────────────────
  **A MEDIUM WHOSE CALLS FAIL BY A RULE.**

  A fault rule decides, call by call and from a state of its own, which calls
  go through.  A failing call changes nothing, except that a failing write
  may land the first so many of its bytes.  Ranges are checked only for calls
  that go through, and for what a failing write lands.

    • `Faulty`    — a medium under a rule,
    • `Allowance` — the rule that lets a number of calls of each kind through
                    and fails the rest.
-/
import StateVault.Storage.Medium

namespace StateVault

/-! ## §1. Rules. -/

/-- A call as a rule sees it. -/
inductive Call where
  | read (offset count : Nat)
  | write (offset count : Nat)
  | setLength (length : Nat)
  | sync
deriving DecidableEq, Repr

/-- What becomes of a call; a failing write may land some of its bytes. -/
inductive Outcome where
  | passes
  | fails (landed : Option Nat)
deriving DecidableEq, Repr

/-- A rule for the outcomes of calls, with a state. -/
structure FaultRule (ω : Type) where
  next : ω → Call → Outcome × ω

/-- Every call goes through. -/
def FaultRule.none : FaultRule Unit where
  next _ _ := (.passes, ())

/-! ## §2. A medium under a rule. -/

structure Faulty {ω : Type} (rule : FaultRule ω) (μ : Type) where
  medium : μ
  state : ω

namespace Faulty

variable {ω : Type} {rule : FaultRule ω} {μ : Type}

/-- Let a call through, or fail it without an effect. -/
def guard {α : Type} (call : Call) (through : μ → Except Error α × μ) (x : Faulty rule μ) :
    Except Error α × Faulty rule μ :=
  match rule.next x.state call with
  | (.passes, state) =>
      let (result, medium) := through x.medium
      (result, ⟨medium, state⟩)
  | (.fails _, state) => (.error .device, ⟨x.medium, state⟩)

/-- A write: when it fails, what lands is written first, and a range error of
that is the error of the call. -/
def write [Medium μ] (offset : Nat) (data : ByteArray) (x : Faulty rule μ) :
    Except Error Unit × Faulty rule μ :=
  match rule.next x.state (.write offset data.size) with
  | (.passes, state) =>
      let (result, medium) := Medium.write offset data x.medium
      (result, ⟨medium, state⟩)
  | (.fails none, state) => (.error .device, ⟨x.medium, state⟩)
  | (.fails (some landed), state) =>
      match Medium.write offset (data.extract 0 landed) x.medium with
      | (.ok _, medium) => (.error .device, ⟨medium, state⟩)
      | (.error e, medium) => (.error e, ⟨medium, state⟩)

instance [Medium μ] : Medium (Faulty rule μ) where
  size x := Medium.size x.medium
  read offset count := guard (.read offset count) (Medium.read offset count)
  write := Faulty.write
  setLength length := guard (.setLength length) (Medium.setLength length)
  sync := guard .sync Medium.sync

end Faulty

/-! ## §3. Allowances. -/

/-- How many more calls of each kind go through; `none` stands for all. -/
structure Allowance where
  reads : Option Nat
  writes : Option Nat
  setLengths : Option Nat
  syncs : Option Nat
  /-- Whether the next failing write lands the first half of its bytes. -/
  tears : Bool
deriving DecidableEq, Repr

namespace Allowance

def unlimited : Allowance :=
  ⟨none, none, none, none, false⟩

/-- Use up one call: the allowance after it, or nothing when it was used up. -/
def spend : Option Nat → Option (Option Nat)
  | none => some none
  | some 0 => none
  | some (n + 1) => some (some n)

def next (a : Allowance) : Call → Outcome × Allowance
  | .read _ _ =>
      match spend a.reads with
      | some reads => (.passes, { a with reads })
      | none => (.fails none, a)
  | .write _ count =>
      match spend a.writes with
      | some writes => (.passes, { a with writes })
      | none =>
          if a.tears then (.fails (some (count / 2)), { a with tears := false })
          else (.fails none, a)
  | .setLength _ =>
      match spend a.setLengths with
      | some setLengths => (.passes, { a with setLengths })
      | none => (.fails none, a)
  | .sync =>
      match spend a.syncs with
      | some syncs => (.passes, { a with syncs })
      | none => (.fails none, a)

def rule : FaultRule Allowance where
  next := next

end Allowance

end StateVault
