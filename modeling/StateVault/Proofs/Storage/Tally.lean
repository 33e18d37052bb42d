/-
  StateVault.Proofs.Storage.Tally
  ───────────────────────────────
  **WHAT IS ENSURED HOLDS ON EVERY MEDIUM THAT BEHAVES.**

  A medium obeys `Failures` when each of its calls does to its bytes what
  these allow.  A `Tally` is a medium that also counts the writes at a place
  of the superblock that went through.

    • `Ensures.on_tally`  — what is ensured holds of the bytes and the count
                            after each call, and at the end,
    • `Ensures.on_medium` — the same for the bytes of the medium itself,
    • `image_obeys`, `FaultRule.Within.obeys` — the plain image obeys
                            `Failures.none`; a medium under a rule obeys
                            what the rule keeps within.
-/
import StateVault.Proofs.Storage.Failures

namespace StateVault

/-! ## §1. Media that obey. -/

/-- Each call does to the bytes `image m` of a medium what `F` allows. -/
structure Obeys {μ : Type} [Medium μ] (F : Failures) (image : μ → Image) : Prop where
  size : ∀ m, Medium.size m = (image m).size
  read : ∀ offset count m, F.Reads offset count (image m) (Medium.read offset count m).1
    ∧ image (Medium.read offset count m).2 = image m
  write : ∀ offset data m, F.Writes offset data (image m) (Medium.write offset data m).1
    (image (Medium.write offset data m).2)
  setLength : ∀ length m, F.Sets length (image m) (Medium.setLength length m).1
    (image (Medium.setLength length m).2)
  sync : ∀ m, F.Syncs (Medium.sync m).1 ∧ image (Medium.sync m).2 = image m

namespace Image

theorem read_of_fits {offset count : Nat} {image : Image} (h : offset + count ≤ image.size) :
    read offset count image = (.ok (Bytes.slice image offset count), image) := by
  rw [read, within, if_pos h]

theorem read_of_overrun {offset count : Nat} {image : Image}
    (h : ¬ offset + count ≤ image.size) :
    read offset count image = (.error (.outOfRange ⟨offset, count, image.size⟩), image) := by
  rw [read, within, if_neg h]

theorem write_of_fits {offset : Nat} {data : ByteArray} {image : Image}
    (h : offset + data.size ≤ image.size) :
    write offset data image = (.ok (), Bytes.overlay image offset data) := by
  rw [write, within, if_pos h]

theorem write_of_overrun {offset : Nat} {data : ByteArray} {image : Image}
    (h : ¬ offset + data.size ≤ image.size) :
    write offset data image = (.error (.outOfRange ⟨offset, data.size, image.size⟩), image) := by
  rw [write, within, if_neg h]

end Image

/-- The plain image reads as any choice of failures allows. -/
theorem reads_image (F : Failures) (offset count : Nat) (image : Image) :
    F.Reads offset count image (Image.read offset count image).1
      ∧ (Image.read offset count image).2 = image := by
  by_cases h : offset + count ≤ image.size
  · rw [Image.read_of_fits h]
    exact ⟨.whole h, rfl⟩
  · rw [Image.read_of_overrun h]
    exact ⟨.failed (Or.inr (Nat.lt_of_not_le h)) _, rfl⟩

/-- The plain image writes as any choice of failures allows. -/
theorem writes_image (F : Failures) (offset : Nat) (data : ByteArray) (image : Image) :
    F.Writes offset data image (Image.write offset data image).1
      (Image.write offset data image).2 := by
  by_cases h : offset + data.size ≤ image.size
  · rw [Image.write_of_fits h]
    exact .whole h
  · rw [Image.write_of_overrun h]
    exact .refused (Or.inr (Nat.lt_of_not_le h)) _

/-- **No call of the plain image fails** but a read or a write past its end. -/
theorem image_obeys : Obeys Failures.none (id : Image → Image) where
  size _ := rfl
  read offset count m := reads_image _ offset count m
  write offset data m := writes_image _ offset data m
  setLength _ _ := .whole
  sync _ := ⟨.whole, rfl⟩

/-- A rule fails only calls that `F` allows to fail, and lands no more. -/
structure FaultRule.Within {ω : Type} (rule : FaultRule ω) (F : Failures) : Prop where
  read : ∀ state offset count landed,
    (rule.next state (.read offset count)).1 = .fails landed → F.read
  write : ∀ state offset count landed,
    (rule.next state (.write offset count)).1 = .fails landed → F.write
  tear : ∀ state offset count landed,
    (rule.next state (.write offset count)).1 = .fails (some landed) → F.tear count landed
  setLength : ∀ state length landed,
    (rule.next state (.setLength length)).1 = .fails landed → F.setLength
  sync : ∀ state landed, (rule.next state .sync).1 = .fails landed → F.sync

theorem FaultRule.within_any {ω : Type} (rule : FaultRule ω) : rule.Within Failures.any where
  read _ _ _ _ _ := trivial
  write _ _ _ _ _ := trivial
  tear _ _ _ _ _ := trivial
  setLength _ _ _ _ := trivial
  sync _ _ _ := trivial

theorem FaultRule.none_within : FaultRule.none.Within Failures.none where
  read _ _ _ _ h := nomatch h
  write _ _ _ _ h := nomatch h
  tear _ _ _ _ h := nomatch h
  setLength _ _ _ h := nomatch h
  sync _ _ h := nomatch h

section Rules

variable {ω : Type} {rule : FaultRule ω} {F : Failures}

/-- A write under a rule goes through, is refused or lands a first part, as the
rule says. -/
theorem FaultRule.Within.writes (h : rule.Within F) (offset : Nat) (data : ByteArray)
    (x : Faulty rule Image) :
    F.Writes offset data x.medium (Faulty.write offset data x).1
      (Faulty.write offset data x).2.medium := by
  unfold Faulty.write
  cases hnext : rule.next x.state (.write offset data.size) with
  | mk outcome state =>
    cases outcome with
    | passes => exact writes_image F offset data x.medium
    | fails landed =>
      have hfails := congrArg Prod.fst hnext
      have hwrite := h.write _ _ _ _ hfails
      cases landed with
      | none => exact .refused (Or.inl hwrite) _
      | some landed =>
        have htear := h.tear _ _ _ _ hfails
        -- what lands is a write of its own: within the image, or not at all
        by_cases hin : offset + (data.extract 0 landed).size ≤ x.medium.size
        · have hland : Medium.write offset (data.extract 0 landed) x.medium
              = (.ok (), Bytes.overlay x.medium offset (data.extract 0 landed)) :=
            Image.write_of_fits hin
          simp only [hland]
          exact .torn landed htear hin _
        · have hland : Medium.write offset (data.extract 0 landed) x.medium
              = (.error (.outOfRange ⟨offset, (data.extract 0 landed).size, x.medium.size⟩),
                x.medium) := Image.write_of_overrun hin
          simp only [hland]
          exact .refused (Or.inl hwrite) _

/-- A medium under a rule obeys what the rule keeps within. -/
theorem FaultRule.Within.obeys (h : rule.Within F) :
    Obeys F (fun x : Faulty rule Image => x.medium) where
  size _ := rfl
  read offset count x := by
    show F.Reads offset count x.medium (Faulty.guard _ _ x).1
      ∧ (Faulty.guard _ _ x).2.medium = x.medium
    unfold Faulty.guard
    cases hnext : rule.next x.state (.read offset count) with
    | mk outcome state =>
      cases outcome with
      | passes => exact reads_image F offset count x.medium
      | fails landed =>
        exact ⟨.failed (Or.inl (h.read _ _ _ _ (congrArg Prod.fst hnext))) _, rfl⟩
  -- a write has a third outcome, the torn one, and a lemma of its own
  write := h.writes
  setLength length x := by
    show F.Sets length x.medium (Faulty.guard _ _ x).1 (Faulty.guard _ _ x).2.medium
    unfold Faulty.guard
    cases hnext : rule.next x.state (.setLength length) with
    | mk outcome state =>
      cases outcome with
      | passes => exact .whole
      | fails landed => exact .failed (h.setLength _ _ _ (congrArg Prod.fst hnext)) _
  sync x := by
    show F.Syncs (Faulty.guard _ _ x).1 ∧ (Faulty.guard _ _ x).2.medium = x.medium
    unfold Faulty.guard
    cases hnext : rule.next x.state .sync with
    | mk outcome state =>
      cases outcome with
      | passes => exact ⟨.whole, rfl⟩
      | fails landed => exact ⟨.failed (h.sync _ _ (congrArg Prod.fst hnext)) _, rfl⟩

end Rules

/-! ## §2. Counting. -/

/-- A medium and the number of writes at a place of the superblock that went
through. -/
structure Tally (μ : Type) where
  medium : μ
  records : Nat

namespace Tally

variable {μ : Type}

/-- The medium after a call, with the count as it was. -/
def keep {α : Type} (x : Tally μ) (outcome : α × μ) : α × Tally μ :=
  (outcome.1, { x with medium := outcome.2 })

/-- The medium after a write, counted if it was one of those. -/
def count (x : Tally μ) (offset : Nat) (outcome : Except Error Unit × μ) :
    Except Error Unit × Tally μ :=
  (outcome.1, ⟨outcome.2, if isRecord offset outcome.1 then x.records + 1 else x.records⟩)

instance [Medium μ] : Medium (Tally μ) where
  size x := Medium.size x.medium
  read offset count x := x.keep (Medium.read offset count x.medium)
  write offset data x := x.count offset (Medium.write offset data x.medium)
  setLength length x := x.keep (Medium.setLength length x.medium)
  sync x := x.keep (Medium.sync x.medium)

/-- The bytes and the count. -/
def watched (image : μ → Image) (x : Tally μ) : Watched :=
  ⟨image x.medium, x.records⟩

end Tally

/-- Counting takes nothing away from what a medium obeys. -/
theorem Obeys.tally {μ : Type} [Medium μ] {F : Failures} {image : μ → Image}
    (h : Obeys F image) : Obeys F fun x : Tally μ => image x.medium where
  size x := h.size x.medium
  read offset count x := h.read offset count x.medium
  write offset data x := h.write offset data x.medium
  setLength length x := h.setLength length x.medium
  sync x := h.sync x.medium

/-! ## §3. Soundness. -/

namespace Script

variable {α μ : Type} [Medium μ] {F : Failures} {I : Watched → Prop} {image : μ → Image}

/-- What is ensured holds after each call, and at the end, of the bytes and
the count of a tally. -/
theorem Ensures.on_tally (hobeys : Obeys F image) {Q : α → Watched → Prop} {s : Script α}
    {x : Tally μ} (h : s.Ensures F I (x.watched image) Q) :
    (∀ y ∈ s.states x, I (y.watched image))
      ∧ Q (s.run x).1 ((s.run x).2.watched image) := by
  induction s generalizing x with
  | done a => exact ⟨fun y hy => absurd hy List.not_mem_nil, h⟩
  | size next ih =>
      refine ih _ ?_
      have hsize : Medium.size x = (image x.medium).size := hobeys.size x.medium
      rw [hsize]
      exact h
  -- a read leaves bytes and count, so what was ensured before it still is
  | read offset count next ih =>
      obtain ⟨hreads, hsame⟩ := hobeys.read offset count x.medium
      have hwatched : (Medium.read offset count x).2.watched image = x.watched image :=
        congrArg (Watched.mk · x.records) hsame
      have hnext := ih (Medium.read offset count x).1 (x := (Medium.read offset count x).2)
        (hwatched ▸ h.2 _ hreads)
      exact ⟨List.forall_mem_cons.mpr ⟨hwatched ▸ h.1, hnext.1⟩, hnext.2⟩
  -- the medium does one of the things the failures allow, and all were ensured
  | write offset data next ih =>
      obtain ⟨hinv, hrest⟩ := h _ _ (hobeys.write offset data x.medium)
      have hnext := ih (Medium.write offset data x).1 (x := (Medium.write offset data x).2) hrest
      exact ⟨List.forall_mem_cons.mpr ⟨hinv, hnext.1⟩, hnext.2⟩
  | setLength length next ih =>
      obtain ⟨hinv, hrest⟩ := h _ _ (hobeys.setLength length x.medium)
      have hnext := ih (Medium.setLength length x).1 (x := (Medium.setLength length x).2) hrest
      exact ⟨List.forall_mem_cons.mpr ⟨hinv, hnext.1⟩, hnext.2⟩
  -- a sync, too, leaves bytes and count
  | sync next ih =>
      obtain ⟨hsyncs, hsame⟩ := hobeys.sync x.medium
      have hwatched : (Medium.sync x).2.watched image = x.watched image :=
        congrArg (Watched.mk · x.records) hsame
      have hnext := ih (Medium.sync x).1 (x := (Medium.sync x).2) (hwatched ▸ h.2 _ hsyncs)
      exact ⟨List.forall_mem_cons.mpr ⟨hwatched ▸ h.1, hnext.1⟩, hnext.2⟩

/-- Counting changes neither answers nor media. -/
theorem run_tally (s : Script α) (x : Tally μ) :
    s.run x.medium = ((s.run x).1, (s.run x).2.medium)
      ∧ s.states x.medium = (s.states x).map (·.medium) := by
  induction s generalizing x with
  | done a => exact ⟨rfl, rfl⟩
  | size next ih => exact ih _ x
  | read offset count next ih =>
      have hnext := ih (Medium.read offset count x).1 (Medium.read offset count x).2
      exact ⟨hnext.1, congrArg (_ :: ·) hnext.2⟩
  -- each call counts in the tally and is passed on as it is
  | write offset data next ih =>
      have hnext := ih (Medium.write offset data x).1 (Medium.write offset data x).2
      exact ⟨hnext.1, congrArg (_ :: ·) hnext.2⟩
  | setLength length next ih =>
      have hnext := ih (Medium.setLength length x).1 (Medium.setLength length x).2
      exact ⟨hnext.1, congrArg (_ :: ·) hnext.2⟩
  | sync next ih =>
      have hnext := ih (Medium.sync x).1 (Medium.sync x).2
      exact ⟨hnext.1, congrArg (_ :: ·) hnext.2⟩

/-- What is ensured holds after each call, and at the end, of the bytes of a
medium, for some count. -/
theorem Ensures.on_medium (hobeys : Obeys F image) {Q : α → Watched → Prop} {s : Script α}
    {m : μ} {records : Nat} (h : s.Ensures F I ⟨image m, records⟩ Q) :
    (∀ m' ∈ s.states m, ∃ records, I ⟨image m', records⟩)
      ∧ ∃ records, Q (s.run m).1 ⟨image (s.run m).2, records⟩ := by
  obtain ⟨hstates, hrun⟩ := Ensures.on_tally hobeys (x := ⟨m, records⟩) h
  obtain ⟨hrun', hstates'⟩ := run_tally s ⟨m, records⟩
  constructor
  · intro m' hm'
    rw [hstates', List.mem_map] at hm'
    obtain ⟨y, hy, rfl⟩ := hm'
    exact ⟨y.records, hstates y hy⟩
  · rw [hrun']
    exact ⟨_, hrun⟩

end Script

/-! ## §4. Runs in which no read fails. -/

/-- Any call but a read may fail. -/
def Failures.butReads : Failures :=
  { Failures.any with read := False }

namespace Script

variable {α ω : Type} {rule : FaultRule ω} {I : Watched → Prop}

/-- None of the reads in the run of a script is failed by the rule. -/
def Spared {μ : Type} [Medium μ] : Script α → Faulty rule μ → Prop
  | done _, _ => True
  | size next, x => (next (Medium.size x)).Spared x
  | read offset count next, x =>
      (rule.next x.state (.read offset count)).1 = .passes
        ∧ (next (Medium.read offset count x).1).Spared (Medium.read offset count x).2
  | write offset data next, x =>
      (next (Medium.write offset data x).1).Spared (Medium.write offset data x).2
  | setLength length next, x =>
      (next (Medium.setLength length x).1).Spared (Medium.setLength length x).2
  | sync next, x => (next (Medium.sync x).1).Spared (Medium.sync x).2

/-- What is ensured when no read fails holds at the end of a run in which none
does. -/
theorem Ensures.on_spared {Q : α → Watched → Prop} {s : Script α} {x : Faulty rule Image}
    {records : Nat} (h : s.Ensures Failures.butReads I ⟨x.medium, records⟩ Q)
    (hspared : s.Spared x) : ∃ records, Q (s.run x).1 ⟨(s.run x).2.medium, records⟩ := by
  have hobeys := rule.within_any.obeys
  induction s generalizing x records with
  | done a => exact ⟨records, h⟩
  | size next ih => exact ih _ h hspared
  | read offset count next ih =>
    obtain ⟨hpasses, hrest⟩ := hspared
    obtain ⟨hreads, hsame⟩ := reads_image Failures.butReads offset count x.medium
    -- this read is spared by the rule, so the medium itself answers it
    have hcall : (Medium.read offset count x).1 = (Image.read offset count x.medium).1
        ∧ (Medium.read offset count x).2.medium = (Image.read offset count x.medium).2 := by
      show (Faulty.guard _ _ x).1 = _ ∧ (Faulty.guard _ _ x).2.medium = _
      unfold Faulty.guard
      cases hnext : rule.next x.state (.read offset count) with
      | mk outcome state =>
        rw [hnext] at hpasses
        cases hpasses
        exact ⟨rfl, rfl⟩
    have himage : (Medium.read offset count x).2.medium = x.medium := hcall.2.trans hsame
    have hnext : (next (Medium.read offset count x).1).Ensures Failures.butReads I
        ⟨(Medium.read offset count x).2.medium, records⟩ Q := by
      rw [himage]
      exact h.2 _ (hcall.1 ▸ hreads)
    exact ih _ hnext hrest
  -- the other calls may fail as the rule likes
  | write offset data next ih =>
    have hwrites : Failures.butReads.Writes offset data x.medium _ _ :=
      (hobeys.write offset data x).mono (fun _ => trivial) fun _ _ _ => trivial
    exact ih _ (x := (Medium.write offset data x).2) (h _ _ hwrites).2 hspared
  | setLength length next ih =>
    have hsets : Failures.butReads.Sets length x.medium _ _ :=
      (hobeys.setLength length x).mono fun _ => trivial
    exact ih _ (x := (Medium.setLength length x).2) (h _ _ hsets).2 hspared
  | sync next ih =>
    obtain ⟨hsyncs, hsame⟩ := hobeys.sync x
    have hnext : (next (Medium.sync x).1).Ensures Failures.butReads I
        ⟨(Medium.sync x).2.medium, records⟩ Q := by
      rw [hsame]
      exact h.2 _ (hsyncs.mono fun _ => trivial)
    exact ih _ hnext hspared

end Script

section Unlimited

variable {α μ : Type}

theorem Faulty.state_guard {ω : Type} {rule : FaultRule ω} (call : Call)
    (through : μ → Except Error α × μ) (x : Faulty rule μ) :
    (guard call through x).2.state = (rule.next x.state call).2 := by
  unfold guard
  cases rule.next x.state call with
  | mk outcome state =>
    cases outcome with
    | passes => rfl
    | fails landed => rfl

variable [Medium μ]

theorem Faulty.state_write {ω : Type} {rule : FaultRule ω} (offset : Nat) (data : ByteArray)
    (x : Faulty rule μ) :
    (write offset data x).2.state = (rule.next x.state (.write offset data.size)).2 := by
  unfold write
  cases rule.next x.state (.write offset data.size) with
  | mk outcome state =>
    cases outcome with
    | passes => rfl
    | fails landed =>
      cases landed with
      | none => rfl
      | some landed =>
        dsimp only
        -- the bytes that land are written past the rule, which sees one call
        cases Medium.write offset (data.extract 0 landed) x.medium with
        | mk result medium =>
          cases result with
          | ok u => rfl
          | error e => rfl

/-- A count of other calls leaves the reads unlimited. -/
theorem Allowance.next_of_unlimited {a : Allowance} (h : a.reads = none) (call : Call) :
    (next a call).2.reads = none := by
  unfold next
  cases call with
  | read offset count =>
    rw [h]
    rfl
  -- the other calls spend their own counts only
  | write offset count =>
    dsimp only
    split
    · exact h
    · split
      · exact h
      · exact h
  | setLength length =>
    dsimp only
    split
    · exact h
    · exact h
  | sync =>
    dsimp only
    split
    · exact h
    · exact h

/-- An allowance of all reads fails none of them. -/
theorem Script.spared_of_unlimited (s : Script α) {x : Faulty Allowance.rule μ}
    (h : x.state.reads = none) : s.Spared x := by
  have hnext := Allowance.next_of_unlimited h
  induction s generalizing x with
  | done a => trivial
  | size next ih => exact ih _ h hnext
  -- unlimited reads pass, and stay unlimited after every call
  | read offset count next ih =>
    have hafter : (Medium.read offset count x).2.state.reads = none :=
      (congrArg Allowance.reads (Faulty.state_guard _ _ x)).trans (hnext _)
    refine ⟨?_, ih _ hafter (Allowance.next_of_unlimited hafter)⟩
    show (Allowance.next x.state (.read offset count)).1 = .passes
    unfold Allowance.next
    rw [h]
    rfl
  | write offset data next ih =>
    have hafter : (Medium.write offset data x).2.state.reads = none :=
      (congrArg Allowance.reads (Faulty.state_write _ _ x)).trans (hnext _)
    exact ih _ hafter (Allowance.next_of_unlimited hafter)
  | setLength length next ih =>
    have hafter : (Medium.setLength length x).2.state.reads = none :=
      (congrArg Allowance.reads (Faulty.state_guard _ _ x)).trans (hnext _)
    exact ih _ hafter (Allowance.next_of_unlimited hafter)
  | sync next ih =>
    have hafter : (Medium.sync x).2.state.reads = none :=
      (congrArg Allowance.reads (Faulty.state_guard _ _ x)).trans (hnext _)
    exact ih _ hafter (Allowance.next_of_unlimited hafter)

end Unlimited

end StateVault
