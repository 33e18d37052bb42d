/-
  StateVault.Proofs.Cursor.Runs
  ─────────────────────────────
  **A CURSOR WITH ENOUGH BYTES LEFT DOES NOT FAIL.**

  Each reading step as an equation about a cursor at position `p`, for a
  buffer that holds the bytes asked for.  A reader of a fixed layout is
  carried out by rewriting with these, the bounds left to arithmetic.

    • `bind_apply`, `require_apply` — one step after another, and checks,
    • `take_apply`, `word32_apply`, `word64_apply`, `seek_apply`,
    • `take_ok`, `word8_ok` … `word64_ok` — the other way round, what a step
                                  that goes through has found,
    • `take_ahead`, `word8_ahead` … `word64_ahead` — the same for bytes that
                                  are known as a list,
    • `put_apply`, `put_overrun`, `put_put` — writing.
-/
import StateVault.Cursor
import StateVault.Proofs.Bytes.Pointwise

namespace StateVault.Cursor

variable {α β : Type}

/-! ## §1. Sequencing. -/

/-- One step after another: an error ends the sequence. -/
theorem bind_apply (x : Steps α) (f : α → Steps β) (c : Cursor) :
    (x >>= f) c = match x c with
      | .ok a c => f a c
      | .error e c => .error e c := by
  show EStateM.bind x f c = _
  unfold EStateM.bind
  cases x c with
  | ok a c => rfl
  | error e c => rfl

/-- Two steps go through when both do. -/
theorem bind_ok {x : Steps α} {f : α → Steps β} {c c' : Cursor} {b : β}
    (h : (x >>= f) c = .ok b c') : ∃ a d, x c = .ok a d ∧ f a d = .ok b c' := by
  rw [bind_apply] at h
  cases hx : x c with
  | ok a d =>
    rw [hx] at h
    exact ⟨a, d, rfl, h⟩
  | error e d =>
    rw [hx] at h
    cases h

/-- Nothing goes through after a step that throws. -/
theorem throw_bind_ok {e : Error} {f : α → Steps β} {c c' : Cursor} {b : β} :
    ¬ ((throw e : Steps α) >>= f) c = .ok b c' := by
  intro h
  obtain ⟨_, _, hthrow, _⟩ := bind_ok h
  cases hthrow

/-- A check that throws has passed when what comes after it goes through. -/
theorem guarded_ok {q : Prop} [Decidable q] {e : Error} {f : PUnit → Steps β} {x : Steps β}
    {c c' : Cursor} {b : β}
    (h : (if q then (throw e : Steps PUnit) >>= f else x) c = .ok b c') :
    ¬ q ∧ x c = .ok b c' := by
  by_cases hq : q
  · rw [if_pos hq] at h
    exact absurd h throw_bind_ok
  · rw [if_neg hq] at h
    exact ⟨hq, h⟩

/-- A check that goes through has passed, and moves nothing. -/
theorem require_ok {check : Except Error α} {c c' : Cursor} {a : α}
    (h : require check c = .ok a c') : check = .ok a ∧ c' = c := by
  cases check with
  | ok b =>
    cases h
    exact ⟨rfl, rfl⟩
  | error e => cases h

@[simp] theorem pure_apply (a : α) (c : Cursor) : (pure a : Steps α) c = .ok a c := rfl

@[simp] theorem get_apply (c : Cursor) : (get : Steps Cursor) c = .ok c c := rfl

/-- A check gives its own result and leaves the cursor where it is. -/
theorem require_apply (check : Except Error α) (c : Cursor) :
    require check c = match check with
      | .ok a => .ok a c
      | .error e => .error e c := by
  cases check with
  | ok a => rfl
  | error e => rfl

theorem decode_eq (steps : Steps α) (bytes : ByteArray) :
    decode steps bytes = match steps ⟨bytes, 0⟩ with
      | .ok a _ => .ok a
      | .error e _ => .error e :=
  rfl

/-! ## §2. Reading. -/

/-- The byte at a position. -/
def word8At (bytes : ByteArray) (p : Nat) : UInt8 :=
  UInt8.ofNat (Bytes.value (Bytes.slice bytes p 1))

/-- The 32-bit word at a position. -/
def word32At (bytes : ByteArray) (p : Nat) : UInt32 :=
  UInt32.ofNat (Bytes.value (Bytes.slice bytes p 4))

/-- The 64-bit word at a position. -/
def word64At (bytes : ByteArray) (p : Nat) : UInt64 :=
  UInt64.ofNat (Bytes.value (Bytes.slice bytes p 8))

variable {bytes : ByteArray} {p : Nat}

theorem seek_apply {target : Nat} (h : target ≤ bytes.size) :
    seek target ⟨bytes, p⟩ = .ok () ⟨bytes, target⟩ :=
  if_pos h

theorem take_apply {n : Nat} (h : p + n ≤ bytes.size) :
    take n ⟨bytes, p⟩ = .ok (Bytes.slice bytes p n) ⟨bytes, p + n⟩ :=
  if_pos h

/-- A word whose bytes are there is read, and passed. -/
theorem word32_apply (h : p + 4 ≤ bytes.size) :
    word32 ⟨bytes, p⟩ = .ok (word32At bytes p) ⟨bytes, p + 4⟩ := by
  show (take 4 >>= _) _ = _
  rw [bind_apply, take_apply h]
  rfl

theorem word64_apply (h : p + 8 ≤ bytes.size) :
    word64 ⟨bytes, p⟩ = .ok (word64At bytes p) ⟨bytes, p + 8⟩ := by
  show (take 8 >>= _) _ = _
  rw [bind_apply, take_apply h]
  rfl

/-- A move that goes through leads to its place. -/
theorem seek_ok {target : Nat} {c : Cursor} {u : Unit} (h : seek target ⟨bytes, p⟩ = .ok u c) :
    c = ⟨bytes, target⟩ := by
  unfold seek at h
  split at h
  · cases h
    rfl
  · cases h

/-- A step that goes through had its bytes, and has passed them. -/
theorem take_ok {n : Nat} {part : ByteArray} {c : Cursor} (h : take n ⟨bytes, p⟩ = .ok part c) :
    p + n ≤ bytes.size ∧ part = Bytes.slice bytes p n ∧ c = ⟨bytes, p + n⟩ := by
  unfold take at h
  split at h
  · rename_i hin
    cases h
    exact ⟨hin, rfl, rfl⟩
  · cases h

theorem word8_ok {w : UInt8} {c : Cursor} (h : word8 ⟨bytes, p⟩ = .ok w c) :
    p + 1 ≤ bytes.size ∧ w = word8At bytes p ∧ c = ⟨bytes, p + 1⟩ := by
  obtain ⟨part, d, htake, h⟩ := bind_ok h
  obtain ⟨hin, rfl, rfl⟩ := take_ok htake
  cases h
  exact ⟨hin, rfl, rfl⟩

theorem word32_ok {w : UInt32} {c : Cursor} (h : word32 ⟨bytes, p⟩ = .ok w c) :
    p + 4 ≤ bytes.size ∧ w = word32At bytes p ∧ c = ⟨bytes, p + 4⟩ := by
  obtain ⟨part, d, htake, h⟩ := bind_ok h
  obtain ⟨hin, rfl, rfl⟩ := take_ok htake
  cases h
  exact ⟨hin, rfl, rfl⟩

theorem word64_ok {w : UInt64} {c : Cursor} (h : word64 ⟨bytes, p⟩ = .ok w c) :
    p + 8 ≤ bytes.size ∧ w = word64At bytes p ∧ c = ⟨bytes, p + 8⟩ := by
  obtain ⟨part, d, htake, h⟩ := bind_ok h
  obtain ⟨hin, rfl, rfl⟩ := take_ok htake
  cases h
  exact ⟨hin, rfl, rfl⟩

/-! ## §3. Words among the bytes of a list. -/

/-- A word is what its four bytes spell. -/
theorem word32At_of_toList {w : UInt32}
    (h : (bytes.data.toList.drop p).take 4 = Bytes.ofWord32 w) : word32At bytes p = w := by
  rw [word32At, Bytes.value, Bytes.toList_slice, h, Bytes.ofWord32,
    Bytes.ofLe_le 4 w.toNat w.toNat_lt, UInt32.ofNat_toNat]

/-- A word is what its eight bytes spell. -/
theorem word64At_of_toList {w : UInt64}
    (h : (bytes.data.toList.drop p).take 8 = Bytes.ofWord64 w) : word64At bytes p = w := by
  rw [word64At, Bytes.value, Bytes.toList_slice, h, Bytes.ofWord64,
    Bytes.ofLe_le 8 w.toNat w.toNat_lt, UInt64.ofNat_toNat]

theorem ofWord8_word8At (h : p + 1 ≤ bytes.size) :
    [word8At bytes p] = (Bytes.slice bytes p 1).data.toList := by
  obtain ⟨hfits, hdigits⟩ := Bytes.le_value_slice h
  rw [← hdigits]
  rfl

/-- The word at a position has the bytes that stand there. -/
theorem ofWord32_word32At (h : p + 4 ≤ bytes.size) :
    Bytes.ofWord32 (word32At bytes p) = (Bytes.slice bytes p 4).data.toList := by
  obtain ⟨hfits, hdigits⟩ := Bytes.le_value_slice h
  rw [Bytes.ofWord32, word32At, UInt32.toNat_ofNat', Nat.mod_eq_of_lt hfits, hdigits]

theorem ofWord64_word64At (h : p + 8 ≤ bytes.size) :
    Bytes.ofWord64 (word64At bytes p) = (Bytes.slice bytes p 8).data.toList := by
  obtain ⟨hfits, hdigits⟩ := Bytes.le_value_slice h
  rw [Bytes.ofWord64, word64At, UInt64.toNat_ofNat', Nat.mod_eq_of_lt hfits, hdigits]

/-! ## §4. Reading what is ahead. -/

/-- What follows the next bytes. -/
theorem drop_ahead {part rest : List UInt8} {n : Nat}
    (h : bytes.data.toList.drop p = part ++ rest) (hn : part.length = n) :
    bytes.data.toList.drop (p + n) = rest := by
  rw [← List.drop_drop, h, ← hn, List.drop_left]

/-- **Bytes ahead of the cursor** are read as they are, and passed. -/
theorem take_ahead {part rest : List UInt8} {n : Nat}
    (h : bytes.data.toList.drop p = part ++ rest) (hn : part.length = n) (hpos : 0 < n) :
    take n ⟨bytes, p⟩ = .ok part.toByteArray ⟨bytes, p + n⟩ := by
  -- with a byte ahead the cursor is not past the end, so `drop` cuts nothing off
  have hlength := congrArg List.length h
  rw [List.length_drop, List.length_append, Array.length_toList, ByteArray.size_data] at hlength
  rw [take_apply (by omega)]
  congr 1
  apply ByteArray.ext
  apply Array.toList_inj.mp
  rw [Bytes.toList_slice, h, ← hn, List.take_left, List.data_toByteArray]

/-- A word ahead of the cursor is read as itself. -/
theorem word32_ahead {w : UInt32} {rest : List UInt8}
    (h : bytes.data.toList.drop p = Bytes.ofWord32 w ++ rest) :
    word32 ⟨bytes, p⟩ = .ok w ⟨bytes, p + 4⟩ := by
  show (take 4 >>= _) _ = _
  rw [bind_apply, take_ahead h (Bytes.length_ofWord32 w) (by decide)]
  simp only [Bytes.value_ofWord32, UInt32.ofNat_toNat]
  rfl

theorem word64_ahead {w : UInt64} {rest : List UInt8}
    (h : bytes.data.toList.drop p = Bytes.ofWord64 w ++ rest) :
    word64 ⟨bytes, p⟩ = .ok w ⟨bytes, p + 8⟩ := by
  show (take 8 >>= _) _ = _
  rw [bind_apply, take_ahead h (Bytes.length_ofWord64 w) (by decide)]
  simp only [Bytes.value_ofWord64, UInt64.ofNat_toNat]
  rfl

theorem word8_ahead {w : UInt8} {rest : List UInt8}
    (h : bytes.data.toList.drop p = w :: rest) :
    word8 ⟨bytes, p⟩ = .ok w ⟨bytes, p + 1⟩ := by
  have hone : [w].length = 1 := rfl
  show (take 1 >>= _) _ = _
  rw [bind_apply, take_ahead (show _ = [w] ++ rest from h) hone (by decide)]
  simp only [Bytes.value_toByteArray, Bytes.ofLe, Nat.mul_zero, Nat.add_zero, UInt8.ofNat_toNat]
  rfl

/-! ## §5. Writing. -/

section Writing

variable {c d : Cursor} {part : ByteArray}

/-- Bytes that fit are put in place, and passed. -/
theorem put_apply (h : c.position + part.size ≤ c.capacity) :
    put part c = .ok () ⟨Bytes.overlay c.buffer c.position part, c.position + part.size⟩ :=
  if_pos h

/-- Bytes that do not fit are refused with the range that they ask for. -/
theorem put_overrun (h : ¬ c.position + part.size ≤ c.capacity) :
    put part c = .error (.outOfRange ⟨c.position, part.size, c.capacity⟩) c :=
  if_neg h

/-- Bytes that fit are written, and then stand before the cursor. -/
theorem exists_put (part : ByteArray) (h : c.position + part.size ≤ c.capacity) :
    ∃ d, put part c = .ok () d ∧ d.passed = c.passed ++ part :=
  ⟨_, put_apply h, Bytes.extract_overlay h⟩

/-- Bytes put behind others are put with them. -/
theorem put_put (more : ByteArray) (hput : put part c = .ok () d)
    (h : c.position + (part ++ more).size ≤ c.capacity) :
    put more d = put (part ++ more) c := by
  rw [ByteArray.size_append, ← Nat.add_assoc] at h
  have hfirst : c.position + part.size ≤ c.capacity := by omega
  rw [put_apply hfirst] at hput
  cases hput
  have hroom : (Bytes.overlay c.buffer c.position part).size = c.capacity :=
    Bytes.size_overlay _ _ _ hfirst
  rw [put_apply (c := ⟨_, _⟩) (by rw [capacity, hroom]; exact h),
    put_apply (by rw [ByteArray.size_append]; omega), Bytes.overlay_overlay h,
    ByteArray.size_append, Nat.add_assoc]

end Writing

end StateVault.Cursor
