/-
  StateVault.Proofs.Cursor.Discipline
  ───────────────────────────────────
  **A CURSOR NEVER LEAVES ITS BUFFER, AND A STEP IS TAKEN WHOLE OR NOT AT ALL.**

  The steps of a cursor are put down as data (`Move`), so that a row of them,
  failing ones included, is a list.  Each has a place where it would put the
  cursor (`Move.target`, a sum of natural numbers, which cannot wrap), and
  that place alone decides whether it goes through.

    • `Move.taken`, `Move.refused` — a step within the buffer, and one past it,
    • `isLeast_alignedUp`          — where padding ends,
    • `read_of_slice`              — a value among the bytes is read as itself,
    • `moved_in`, `Spares.frame`   — what a row of steps keeps: the cursor in its
                                     buffer, and the places that it spares,
    • `discipline`                 — all of it, after any row of steps.
-/
import Mathlib.Order.Bounds.Defs
import StateVault.Proofs.Cursor.Runs

namespace StateVault.Cursor

/-! ## §1. Values. -/

/-- What is written or read as a whole. -/
inductive Value where
  | bytes (part : ByteArray)
  | word8 (w : UInt8)
  | word16 (w : UInt16)
  | word32 (w : UInt32)
  | word64 (w : UInt64)

/-- What is known of a value before it is read: its kind, and of bytes how
many they are. -/
inductive Shape where
  | bytes (count : Nat)
  | word8
  | word16
  | word32
  | word64

namespace Shape

/-- The number of bytes of a value. -/
def width : Shape → Nat
  | bytes count => count
  | word8 => 1
  | word16 => 2
  | word32 => 4
  | word64 => 8

/-- Read a value. -/
def read : Shape → Steps Value
  | bytes count => return .bytes (← take count)
  | word8 => return .word8 (← Cursor.word8)
  | word16 => return .word16 (← Cursor.word16)
  | word32 => return .word32 (← Cursor.word32)
  | word64 => return .word64 (← Cursor.word64)

/-- The value that some bytes spell. -/
def valueOf : Shape → ByteArray → Value
  | bytes _, part => .bytes part
  | word8, part => .word8 (UInt8.ofNat (Bytes.value part))
  | word16, part => .word16 (UInt16.ofNat (Bytes.value part))
  | word32, part => .word32 (UInt32.ofNat (Bytes.value part))
  | word64, part => .word64 (UInt64.ofNat (Bytes.value part))

theorem read_apply (shape : Shape) (c : Cursor) :
    shape.read c = match take shape.width c with
      | .ok part d => .ok (shape.valueOf part) d
      | .error e d => .error e d := by
  -- each value is taken whole before it is looked at
  cases shape with
  | bytes count =>
    show (take count >>= _) c = _
    rw [bind_apply, width]
    cases take count c <;> rfl
  | word8 =>
    show ((take 1 >>= _) >>= _) c = _
    rw [bind_apply, bind_apply, width]
    cases take 1 c <;> rfl
  | word16 =>
    show ((take 2 >>= _) >>= _) c = _
    rw [bind_apply, bind_apply, width]
    cases take 2 c <;> rfl
  | word32 =>
    show ((take 4 >>= _) >>= _) c = _
    rw [bind_apply, bind_apply, width]
    cases take 4 c <;> rfl
  | word64 =>
    show ((take 8 >>= _) >>= _) c = _
    rw [bind_apply, bind_apply, width]
    cases take 8 c <;> rfl

end Shape

namespace Value

def shape : Value → Shape
  | bytes part => .bytes part.size
  | word8 _ => .word8
  | word16 _ => .word16
  | word32 _ => .word32
  | word64 _ => .word64

/-- Write a value. -/
def write : Value → Steps Unit
  | bytes part => put part
  | word8 w => putWord8 w
  | word16 w => putWord16 w
  | word32 w => putWord32 w
  | word64 w => putWord64 w

/-- The bytes of a value, those of words with the least significant first. -/
def encoding : Value → ByteArray
  | bytes part => part
  | word8 w => [w].toByteArray
  | word16 w => (Bytes.ofWord16 w).toByteArray
  | word32 w => (Bytes.ofWord32 w).toByteArray
  | word64 w => (Bytes.ofWord64 w).toByteArray

/-- Writing a value is putting its bytes. -/
theorem write_eq_put (v : Value) : v.write = put v.encoding := by
  cases v <;> rfl

@[simp] theorem size_encoding (v : Value) : v.encoding.size = v.shape.width := by
  cases v with
  | bytes part => rfl
  | word8 w => rfl
  | word16 w => exact List.size_toByteArray.trans (Bytes.length_le 2 w.toNat)
  | word32 w => exact List.size_toByteArray.trans (Bytes.length_le 4 w.toNat)
  | word64 w => exact List.size_toByteArray.trans (Bytes.length_le 8 w.toNat)

theorem valueOf_encoding (v : Value) : v.shape.valueOf v.encoding = v := by
  cases v with
  | bytes part => rfl
  | word8 w =>
    simp only [shape, encoding, Shape.valueOf, Bytes.value_toByteArray, Bytes.ofLe, Nat.mul_zero,
      Nat.add_zero, UInt8.ofNat_toNat]
  | word16 w =>
    simp only [shape, encoding, Shape.valueOf, Bytes.value_toByteArray, Bytes.ofWord16,
      Bytes.ofLe_le 2 w.toNat w.toNat_lt, UInt16.ofNat_toNat]
  | word32 w =>
    simp only [shape, encoding, Shape.valueOf, Bytes.value_ofWord32, UInt32.ofNat_toNat]
  | word64 w =>
    simp only [shape, encoding, Shape.valueOf, Bytes.value_ofWord64, UInt64.ofNat_toNat]

end Value

/-- A value whose bytes stand in the buffer is read there. -/
theorem read_of_slice {v : Value} {buffer : ByteArray} {p : Nat}
    (hin : p + v.shape.width ≤ buffer.size)
    (h : Bytes.slice buffer p v.shape.width = v.encoding) :
    v.shape.read ⟨buffer, p⟩ = .ok v ⟨buffer, p + v.shape.width⟩ := by
  rw [Shape.read_apply, take_apply hin, h]
  simp only [Value.valueOf_encoding]

/-! ## §2. Steps as data. -/

/-- A step of a cursor. -/
inductive Move where
  | seek (position : Nat)
  | read (shape : Shape)
  | write (v : Value)
  | fill (count : Nat)
  | align (alignment : Nat)

/-- The least multiple of `alignment` from `p` on. -/
def alignedUp (alignment p : Nat) : Nat :=
  (p + (alignment - 1)) / alignment * alignment

namespace Move

/-- Take the step; reading has an answer. -/
def steps : Move → Steps (Option Value)
  | seek position => do
      Cursor.seek position
      return none
  | read shape => return some (← shape.read)
  | write v => do
      v.write
      return none
  | fill count => do
      Cursor.fill count
      return none
  | align alignment => do
      Cursor.align alignment
      return none

/-- Where the step puts the cursor, if there is room. -/
def target (m : Move) (c : Cursor) : Nat :=
  match m with
  | seek position => position
  | read shape => c.position + shape.width
  | write v => c.position + v.shape.width
  | fill count => c.position + count
  | align alignment => if alignment = 0 then c.position else alignedUp alignment c.position

/-- Whether the step is one that writes. -/
def isWriting : Move → Bool
  | seek _ | read _ => false
  | write _ | fill _ | align _ => true

/-- The places that the step writes: none if it fails. -/
def Writes (m : Move) (c : Cursor) (i : Nat) : Prop :=
  m.isWriting = true ∧ m.target c ≤ c.capacity ∧ c.position ≤ i ∧ i < m.target c

/-- The cursor after the step, whether it goes through or not. -/
def after (m : Move) (c : Cursor) : Cursor :=
  match m.steps c with
  | .ok _ d => d
  | .error _ d => d

end Move

/-- The cursor after a row of steps, of which any may fail. -/
def moved (moves : List Move) (c : Cursor) : Cursor :=
  moves.foldl (fun c m => m.after c) c

/-! ## §3. Where padding ends. -/

/-- The next multiple, by the remainder. -/
theorem alignedUp_eq {alignment : Nat} (h : 0 < alignment) (p : Nat) :
    alignedUp alignment p
      = if p % alignment = 0 then p else p + (alignment - p % alignment) := by
  have heuclid := Nat.div_add_mod p alignment
  have hrest := Nat.mod_lt p h
  -- `p` is a multiple of the alignment and a rest, and the rest alone matters
  rw [Nat.mul_comm] at heuclid
  unfold alignedUp
  by_cases hzero : p % alignment = 0
  · have hquot : (p + (alignment - 1)) / alignment = p / alignment := by
      rw [Nat.div_eq_iff h]
      omega
    rw [if_pos hzero, hquot]
    omega
  · have hquot : (p + (alignment - 1)) / alignment = p / alignment + 1 := by
      rw [Nat.div_eq_iff h, Nat.add_mul]
      omega
    rw [if_neg hzero, hquot, Nat.add_mul]
    omega

/-- **Padding ends at the next multiple**, and at no later one. -/
theorem isLeast_alignedUp {alignment : Nat} (h : 0 < alignment) (p : Nat) :
    IsLeast {k | alignment ∣ k ∧ p ≤ k} (alignedUp alignment p) := by
  have hvalue := alignedUp_eq h p
  refine ⟨⟨Nat.dvd_mul_left _ _, ?_⟩, ?_⟩
  · rw [hvalue]
    split <;> omega
  · rintro k ⟨⟨q, rfl⟩, hle⟩
    show (p + (alignment - 1)) / alignment * alignment ≤ alignment * q
    rw [Nat.mul_comm alignment q]
    refine Nat.mul_le_mul_right _ (Nat.le_of_lt_succ ((Nat.div_lt_iff_lt_mul h).mpr ?_))
    rw [Nat.succ_mul, Nat.mul_comm q]
    omega

/-! ## §4. One step. -/

namespace Move

variable {c d : Cursor} {m : Move}

/-- The bytes that a writing step puts in place of those that it passes. -/
def patch (m : Move) (c : Cursor) : ByteArray :=
  match m with
  | seek _ | read _ => ByteArray.empty
  | write v => v.encoding
  | fill count => Bytes.zeros count
  | align _ => Bytes.zeros (m.target c - c.position)

/-- What a step that goes through does: the cursor is where it should be, and
only the bytes that the step writes are other ones. -/
structure Taken (m : Move) (c d : Cursor) : Prop where
  position : d.position = m.target c
  capacity : d.capacity = c.capacity
  frame : ∀ i, ¬ m.Writes c i → d.buffer.data[i]? = c.buffer.data[i]?
  written : ∀ i, m.Writes c i → d.buffer.data[i]? = (m.patch c).data[i - c.position]?

/-- A step that leaves the bytes alone. -/
theorem taken_of_same (hposition : d.position = m.target c) (hbuffer : d.buffer = c.buffer)
    (hnone : ∀ i, ¬ m.Writes c i) : m.Taken c d where
  position := hposition
  capacity := congrArg ByteArray.size hbuffer
  frame i _ := by rw [hbuffer]
  written i hi := absurd hi (hnone i)

/-- A step that puts its bytes in place. -/
theorem taken_of_put (hwriting : m.isWriting = true)
    (htarget : m.target c = c.position + (m.patch c).size) (h : m.target c ≤ c.capacity) :
    m.Taken c ⟨Bytes.overlay c.buffer c.position (m.patch c),
      c.position + (m.patch c).size⟩ := by
  rw [htarget] at h
  -- the places written are those of the patch, as it fits
  have hplaces : ∀ i, m.Writes c i
      ↔ c.position ≤ i ∧ i < c.position + (m.patch c).size := by
    intro i
    unfold Writes
    rw [htarget]
    exact ⟨fun hi => hi.2.2, fun hi => ⟨hwriting, h, hi⟩⟩
  constructor
  · exact htarget.symm
  · exact Bytes.size_overlay _ _ _ h
  · intro i hi
    rw [hplaces] at hi
    exact (Bytes.getElem?_overlay h i).trans (if_neg hi)
  · intro i hi
    rw [hplaces] at hi
    exact (Bytes.getElem?_overlay h i).trans (if_pos hi)

/-- Padding either stays where it is, or is filling up to its target. -/
theorem align_cases (c : Cursor) (alignment : Nat) :
    ((align alignment).target c = c.position ∧ Cursor.align alignment c = .ok () c)
    ∨ (Cursor.align alignment c = Cursor.fill (alignment - c.position % alignment) c
      ∧ (align alignment).target c = c.position + (alignment - c.position % alignment)) := by
  unfold Cursor.align target
  by_cases hzero : alignment = 0
  · -- a zero alignment asks for nothing
    left
    exact ⟨if_pos hzero, if_pos (.inl hzero)⟩
  · -- otherwise the code tests the rest of the position, and so does the value
    have hvalue := alignedUp_eq (Nat.pos_of_ne_zero hzero) c.position
    by_cases hon : c.position % alignment = 0
    · left
      rw [if_pos hon] at hvalue
      exact ⟨(if_neg hzero).trans hvalue, if_pos (.inr hon)⟩
    · right
      rw [if_neg hon] at hvalue
      exact ⟨if_neg (not_or.mpr ⟨hzero, hon⟩), (if_neg hzero).trans hvalue⟩

/-- A step within the buffer goes through. -/
theorem taken (h : m.target c ≤ c.capacity) :
    ∃ answer d, m.steps c = .ok answer d ∧ m.Taken c d := by
  cases m with
  -- neither a seek nor a read writes a byte
  | seek position =>
    refine ⟨none, ⟨c.buffer, position⟩, ?_, taken_of_same rfl rfl fun i hi => nomatch hi.1⟩
    show (Cursor.seek position >>= _) c = _
    rw [bind_apply, show Cursor.seek position c = _ from if_pos h]
    rfl
  | read shape =>
    refine ⟨some (shape.valueOf (Bytes.slice c.buffer c.position shape.width)),
      ⟨c.buffer, c.position + shape.width⟩, ?_, taken_of_same rfl rfl fun i hi => nomatch hi.1⟩
    show (shape.read >>= _) c = _
    rw [bind_apply, shape.read_apply, show take shape.width c = _ from if_pos h]
    rfl
  -- the other moves put a patch at the position: the value, zeros, or the gap
  | write v =>
    have htarget : (write v).target c = c.position + v.encoding.size :=
      congrArg (c.position + ·) v.size_encoding.symm
    refine ⟨none, _, ?_, taken_of_put rfl htarget h⟩
    show (v.write >>= _) c = _
    rw [htarget] at h
    rw [bind_apply, v.write_eq_put, put_apply h]
    rfl
  | fill count =>
    have htarget : (fill count).target c = c.position + (Bytes.zeros count).size :=
      congrArg (c.position + ·) (Bytes.size_zeros count).symm
    refine ⟨none, _, ?_, taken_of_put rfl htarget h⟩
    show (Cursor.fill count >>= _) c = _
    rw [htarget] at h
    rw [bind_apply, fill_eq_put, put_apply h]
    rfl
  | align alignment =>
    rcases align_cases c alignment with ⟨hstays, hsame⟩ | ⟨hgoes, hsum⟩
    · refine ⟨none, c, ?_, taken_of_same hstays.symm rfl fun i hi => ?_⟩
      · show (Cursor.align alignment >>= _) c = _
        rw [bind_apply, hsame]
        rfl
      · have hlow := hi.2.2.1
        have hhigh := hi.2.2.2
        omega
    · have hgap : (align alignment).target c - c.position = alignment - c.position % alignment := by
        omega
      have htarget : (align alignment).target c
          = c.position + (Bytes.zeros ((align alignment).target c - c.position)).size := by
        rw [Bytes.size_zeros]
        omega
      refine ⟨none, _, ?_, taken_of_put rfl htarget h⟩
      show (Cursor.align alignment >>= _) c = _
      rw [htarget] at h
      rw [bind_apply, hgoes, ← hgap, fill_eq_put, put_apply h]
      rfl

/-- A step past the end fails with the range that it asked for, and nothing
has happened. -/
theorem refused (hin : c.position ≤ c.capacity) (h : c.capacity < m.target c) :
    ∃ offset length, offset + length = m.target c
      ∧ m.steps c = .error (.outOfRange ⟨offset, length, c.capacity⟩) c := by
  have hnot : ¬ m.target c ≤ c.capacity := Nat.not_le.mpr h
  cases m with
  | seek position =>
    refine ⟨position, 0, rfl, ?_⟩
    show (Cursor.seek position >>= _) c = _
    rw [bind_apply, show Cursor.seek position c = _ from if_neg hnot]
    rfl
  | read shape =>
    refine ⟨c.position, shape.width, rfl, ?_⟩
    show (shape.read >>= _) c = _
    rw [bind_apply, shape.read_apply, show take shape.width c = _ from if_neg hnot]
    rfl
  -- the range in the error ends where the move would have gone
  | write v =>
    refine ⟨c.position, v.shape.width, rfl, ?_⟩
    show (v.write >>= _) c = _
    rw [← v.size_encoding, bind_apply, v.write_eq_put,
      put_overrun (v.size_encoding ▸ hnot)]
  | fill count =>
    refine ⟨c.position, count, rfl, ?_⟩
    show (Cursor.fill count >>= _) c = _
    rw [bind_apply, show Cursor.fill count c = _ from if_neg hnot]
    rfl
  | align alignment =>
    rcases align_cases c alignment with ⟨hstays, hsame⟩ | ⟨hgoes, hsum⟩
    · -- a move that stays where it is cannot lead outside
      rw [hstays] at hnot
      exact absurd hin hnot
    · refine ⟨c.position, alignment - c.position % alignment, hsum.symm, ?_⟩
      show (Cursor.align alignment >>= _) c = _
      rw [hsum] at hnot
      rw [bind_apply, hgoes, show Cursor.fill _ c = _ from if_neg hnot]
      rfl

/-- Where the step goes decides whether it goes through. -/
theorem fails_iff (hin : c.position ≤ c.capacity) :
    (∃ e d, m.steps c = .error e d) ↔ c.capacity < m.target c := by
  constructor
  · rintro ⟨e, d, hfails⟩
    refine Nat.lt_of_not_le fun hfits => ?_
    obtain ⟨answer, d', hok, -⟩ := taken hfits
    rw [hok] at hfails
    cases hfails
  · intro h
    obtain ⟨offset, length, -, hfails⟩ := refused hin h
    exact ⟨_, c, hfails⟩

/-- A step that goes through had its place within the buffer, and was taken. -/
theorem Taken.of_ok (hin : c.position ≤ c.capacity) {answer : Option Value}
    (h : m.steps c = .ok answer d) : m.target c ≤ c.capacity ∧ m.Taken c d := by
  have hfits : m.target c ≤ c.capacity := by
    refine Nat.le_of_not_lt fun hpast => ?_
    obtain ⟨e, d', hfails⟩ := (fails_iff hin).mpr hpast
    rw [h] at hfails
    cases hfails
  obtain ⟨answer', d', hok, htaken⟩ := taken hfits
  rw [h] at hok
  cases hok
  exact ⟨hfits, htaken⟩

/-- Padding stops at the least multiple from its start on, and has zeros
behind it. -/
theorem Taken.of_align {alignment : Nat} (halign : 0 < alignment)
    (hfits : (align alignment).target c ≤ c.capacity) (h : (align alignment).Taken c d) :
    IsLeast {k | alignment ∣ k ∧ c.position ≤ k} d.position
    ∧ ∀ i, c.position ≤ i → i < d.position → d.buffer.data[i]? = some 0 := by
  have htarget : (align alignment).target c = alignedUp alignment c.position :=
    if_neg (Nat.ne_of_gt halign)
  constructor
  · rw [h.position, htarget]
    exact isLeast_alignedUp halign c.position
  · intro i hlow hhigh
    rw [h.position] at hhigh
    rw [h.written i ⟨rfl, hfits, hlow, hhigh⟩, patch, Bytes.getElem?_zeros, if_pos]
    omega

/-- The bytes of a value that was written stand where it was. -/
theorem Taken.slice_write {v : Value} (hfits : (write v).target c ≤ c.capacity)
    (h : (write v).Taken c d) :
    Bytes.slice d.buffer c.position v.shape.width = v.encoding := by
  rw [← v.size_encoding, Bytes.slice_eq_iff]
  intro i hi
  have hwritten := h.written (c.position + i) ⟨rfl, hfits, Nat.le_add_right _ _, by
    rw [v.size_encoding] at hi
    exact Nat.add_lt_add_left hi _⟩
  rwa [Nat.add_sub_cancel_left] at hwritten

/-! ## §5. A row of steps. -/

/-- A step, failing or not, keeps the cursor in its buffer. -/
theorem after_in (hin : c.position ≤ c.capacity) :
    (m.after c).position ≤ (m.after c).capacity ∧ (m.after c).capacity = c.capacity := by
  unfold after
  by_cases hfits : m.target c ≤ c.capacity
  · obtain ⟨answer, d, hok, htaken⟩ := taken hfits
    rw [hok]
    refine ⟨?_, htaken.capacity⟩
    rw [htaken.position, htaken.capacity]
    exact hfits
  · obtain ⟨offset, length, -, hfails⟩ := refused hin (Nat.not_le.mp hfits)
    rw [hfails]
    exact ⟨hin, rfl⟩

/-- A step changes no other places than those that it writes. -/
theorem after_frame (hin : c.position ≤ c.capacity) {i : Nat} (hi : ¬ m.Writes c i) :
    (m.after c).buffer.data[i]? = c.buffer.data[i]? := by
  unfold after
  by_cases hfits : m.target c ≤ c.capacity
  · obtain ⟨answer, d, hok, htaken⟩ := taken hfits
    rw [hok]
    exact htaken.frame i hi
  · obtain ⟨offset, length, -, hfails⟩ := refused hin (Nat.not_le.mp hfits)
    rw [hfails]

end Move

/-- After any row of steps the cursor is within its buffer, which is as large as
before. -/
theorem moved_in (moves : List Move) {c : Cursor} (hin : c.position ≤ c.capacity) :
    (moved moves c).position ≤ (moved moves c).capacity
    ∧ (moved moves c).capacity = c.capacity := by
  induction moves generalizing c with
  | nil => exact ⟨hin, rfl⟩
  | cons m rest ih =>
    obtain ⟨hnext, hcapacity⟩ := Move.after_in (m := m) hin
    obtain ⟨hend, hsame⟩ := ih hnext
    exact ⟨hend, hsame.trans hcapacity⟩

/-- None of the steps writes a place from `low` up to `high`. -/
def Spares (low high : Nat) : List Move → Cursor → Prop
  | [], _ => True
  | m :: rest, c =>
      (∀ i, low ≤ i → i < high → ¬ m.Writes c i) ∧ Spares low high rest (m.after c)

/-- Bytes that no step of a row writes are as they were. -/
theorem Spares.frame {low high : Nat} {moves : List Move} {c : Cursor}
    (h : Spares low high moves c) (hin : c.position ≤ c.capacity) {i : Nat} (hlow : low ≤ i)
    (hhigh : i < high) : (moved moves c).buffer.data[i]? = c.buffer.data[i]? := by
  induction moves generalizing c with
  | nil => rfl
  | cons m rest ih =>
    obtain ⟨hfirst, hrest⟩ := h
    calc (moved rest (m.after c)).buffer.data[i]?
      _ = (m.after c).buffer.data[i]? := ih hrest (Move.after_in hin).1
      _ = c.buffer.data[i]? := Move.after_frame hin (hfirst i hlow hhigh)

/-- A value is read back after steps that spare its bytes. -/
theorem read_back {v : Value} {p : Nat} {later : List Move} {d : Cursor}
    (hin : d.position ≤ d.capacity) (hroom : p + v.shape.width ≤ d.capacity)
    (hwritten : Bytes.slice d.buffer p v.shape.width = v.encoding)
    (hspares : Spares p (p + v.shape.width) later d) :
    (do Cursor.seek p; v.shape.read : Steps Value) (moved later d)
      = .ok v ⟨(moved later d).buffer, p + v.shape.width⟩ := by
  have hcapacity := (moved_in later hin).2
  -- the later moves have kept to places outside the value
  have hkept : Bytes.slice (moved later d).buffer p v.shape.width
      = Bytes.slice d.buffer p v.shape.width :=
    Bytes.slice_of_keeps hroom fun i b hlow hhigh hb =>
      (hspares.frame hin hlow hhigh).trans hb
  have hroom' : p + v.shape.width ≤ (moved later d).capacity := hcapacity ▸ hroom
  rw [bind_apply, show Cursor.seek p (moved later d) = _ from if_pos (by omega)]
  exact read_of_slice hroom' (hkept.trans hwritten)

/-! ## §6. The discipline. -/

/-- What holds of a cursor whose buffer has `capacity` bytes, at any time. -/
structure Disciplined (capacity : Nat) (c : Cursor) : Prop where
  /-- The cursor stands in its buffer, or at its end. -/
  inside : c.position ≤ capacity
  /-- The buffer is as long as ever. -/
  capacity_eq : c.capacity = capacity
  /-- A step fails when it would leave the buffer, and only then. -/
  fails_iff : ∀ m : Move, (∃ e d, m.steps c = .error e d) ↔ capacity < m.target c
  /-- A step that fails says what it asked for, and has done nothing. -/
  refused : ∀ (m : Move) e d, m.steps c = .error e d →
    d = c ∧ ∃ offset length, e = .outOfRange ⟨offset, length, capacity⟩
      ∧ offset + length = m.target c
  /-- A step that goes through moves the cursor to its target, and changes no
  byte but those that it passes by writing. -/
  taken : ∀ (m : Move) answer d, m.steps c = .ok answer d → m.Taken c d
  /-- Padding ends at the least multiple from its start on, with zeros behind. -/
  aligned : ∀ alignment, 0 < alignment → ∀ answer d,
    (Move.align alignment).steps c = .ok answer d →
      IsLeast {k | alignment ∣ k ∧ c.position ≤ k} d.position
      ∧ ∀ i, c.position ≤ i → i < d.position → d.buffer.data[i]? = some 0
  /-- A value that was written is read back from its place, after any steps
  that spare its bytes. -/
  readsBack : ∀ v answer d, (Move.write v).steps c = .ok answer d →
    ∀ later, Spares c.position d.position later d →
      (do Cursor.seek c.position; v.shape.read : Steps Value) (moved later d)
        = .ok v ⟨(moved later d).buffer, d.position⟩

/-- A cursor within its buffer is one whose steps keep the discipline. -/
theorem disciplined {c : Cursor} (hin : c.position ≤ c.capacity) :
    Disciplined c.capacity c where
  inside := hin
  capacity_eq := rfl
  fails_iff m := Move.fails_iff hin
  -- an outcome is unique, so the error at hand is the one foreseen
  refused m e d hfails := by
    obtain ⟨offset, length, hsum, hrefused⟩ :=
      Move.refused hin ((Move.fails_iff hin).mp ⟨e, d, hfails⟩)
    rw [hfails] at hrefused
    cases hrefused
    exact ⟨rfl, offset, length, rfl, hsum⟩
  taken m answer d hok := (Move.Taken.of_ok hin hok).2
  aligned alignment halign answer d hok := by
    obtain ⟨hfits, htaken⟩ := Move.Taken.of_ok hin hok
    exact htaken.of_align halign hfits
  readsBack v answer d hok later hspares := by
    obtain ⟨hfits, htaken⟩ := Move.Taken.of_ok hin hok
    have hend : d.position = c.position + v.shape.width := htaken.position
    have hroom : c.position + v.shape.width ≤ d.capacity := htaken.capacity ▸ hfits
    rw [hend] at hspares ⊢
    exact read_back (hend ▸ hroom) hroom (htaken.slice_write hfits) hspares

/-- **After any row of steps, failing ones among them, a cursor is in its
buffer, the buffer is as long as it was, and every further step is taken whole
or not at all.** -/
theorem discipline (bytes : ByteArray) (moves : List Move) :
    Disciplined bytes.size (moved moves (ofBytes bytes)) := by
  have hstart : (ofBytes bytes).position ≤ (ofBytes bytes).capacity := Nat.zero_le _
  obtain ⟨hin, hcapacity⟩ := moved_in moves hstart
  have hrow := disciplined hin
  rwa [hcapacity] at hrow

-- in twelve bytes: two are written, two more make up a multiple of four, and
-- nine do not fit behind them
example : (moved [.write (.word16 513), .align 4, .fill 9] (ofBytes (Bytes.zeros 12))).position
    = 4 := by
  decide +kernel

end StateVault.Cursor
