/-
  StateVault.Proofs.Storage.InMemory
  ──────────────────────────────────
  **AN IMAGE IN MEMORY IS A MEDIUM THAT DOES NOT FAIL.**

  The one cursor of it goes to the range of each call first.  So it does not
  matter where the call before has left it, and a call does to the buffer
  what it does to a plain image.

    • `access_of_fits`, `access_of_overrun` — one call, by its range,
    • `memory_obeys`                        — all of them.
-/
import StateVault.Proofs.Cursor.Runs
import StateVault.Proofs.Storage.Tally
import StateVault.Storage.Memory

namespace StateVault

namespace Memory

variable {α : Type} {m : Memory} {offset length : Nat}

/-- Within the buffer the step is taken from the start of the range. -/
theorem access_of_fits (step : Steps α) (h : offset + length ≤ m.image.size) :
    access offset length step m = match step ⟨m.image, offset⟩ with
      | .ok a cursor => (.ok a, ⟨cursor⟩)
      | .error e cursor => (.error e, ⟨cursor⟩) := by
  obtain ⟨⟨buffer, position⟩⟩ := m
  have hin : offset + length ≤ buffer.size := h
  have hwithin : within offset length (Cursor.mk buffer position).capacity = .ok () := if_pos hin
  unfold access
  rw [hwithin]
  show (match ((Cursor.seek offset >>= fun _ => step) : Steps α) ⟨buffer, position⟩ with
    | .ok a cursor => (Except.ok a, Memory.mk cursor)
    | .error e cursor => (.error e, ⟨cursor⟩)) = _
  rw [Cursor.bind_apply, Cursor.seek_apply (by omega)]
  rfl

theorem access_of_overrun (step : Steps α) (h : ¬ offset + length ≤ m.image.size) :
    access offset length step m = (.error (.outOfRange ⟨offset, length, m.image.size⟩), m) := by
  have hwithin : within offset length m.cursor.capacity
      = .error (.outOfRange ⟨offset, length, m.image.size⟩) := if_neg h
  unfold access
  rw [hwithin]

/-- A read of the chunks answers as a read of the image they hold. -/
theorem reads_memory (F : Failures) (offset count : Nat) (m : Memory) :
    F.Reads offset count m.image (Medium.read offset count m).1
      ∧ (Medium.read offset count m).2.image = m.image := by
  show F.Reads offset count m.image (access offset count (Cursor.take count) m).1
    ∧ (access offset count (Cursor.take count) m).2.image = m.image
  by_cases h : offset + count ≤ m.image.size
  · rw [access_of_fits _ h, Cursor.take_apply h]
    exact ⟨.whole h, rfl⟩
  · rw [access_of_overrun _ h]
    exact ⟨.failed (Or.inr (Nat.lt_of_not_le h)) _, rfl⟩

/-- A write to the chunks does to the image they hold what a write may do. -/
theorem writes_memory (F : Failures) (offset : Nat) (data : ByteArray) (m : Memory) :
    F.Writes offset data m.image (Medium.write offset data m).1
      (Medium.write offset data m).2.image := by
  show F.Writes offset data m.image (access offset data.size (Cursor.put data) m).1
    (access offset data.size (Cursor.put data) m).2.image
  by_cases h : offset + data.size ≤ m.image.size
  · have hput : Cursor.put data ⟨m.image, offset⟩
        = .ok () ⟨Bytes.overlay m.image offset data, offset + data.size⟩ := if_pos h
    rw [access_of_fits _ h, hput]
    exact .whole h
  · rw [access_of_overrun _ h]
    exact .refused (Or.inr (Nat.lt_of_not_le h)) _

end Memory

/-- No call fails for any other reason than its range. -/
theorem memory_obeys : Obeys Failures.none Memory.image where
  size _ := rfl
  read := Memory.reads_memory _
  write := Memory.writes_memory _
  setLength _ _ := .whole
  sync _ := ⟨.whole, rfl⟩

end StateVault
