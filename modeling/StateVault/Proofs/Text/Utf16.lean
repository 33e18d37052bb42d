/-
  StateVault.Proofs.Text.Utf16
  ────────────────────────────
  **TEXT IN UNITS AND UNITS IN BYTES, THERE AND BACK.**

  A character is one unit that is no surrogate, or a high and a low one that
  pair up to it (`spelling_unitsOf`).  Whoever reads units needs no more than
  these two cases; the escapes of strings are read by them too.

    • `decode_encode`    — the text that was written is the text that is read,
    • `ofBytes?_toBytes` — and likewise for units in bytes,
    • `toBytes_zeros`    — zero units are zero bytes, two for each.
-/
import StateVault.Text.Utf16

namespace StateVault.Text.Utf16

/-! ## §1. The units of one character. -/

/-- The two ways in which units spell a character. -/
inductive Spelling (c : Char) : List UInt16 → Prop where
  /-- One unit that is no surrogate. -/
  | alone {u : UInt16} (notHigh : isHigh u = false) (notLow : isLow u = false)
      (is : Char.ofNat u.toNat = c) : Spelling c [u]
  /-- A high surrogate and a low one. -/
  | pair {u v : UInt16} (high : isHigh u = true) (low : isLow v = true)
      (is : paired u v = c) : Spelling c [u, v]

/-- No character is a surrogate. -/
theorem toNat_valid (c : Char) : c.toNat < 0xD800 ∨ 0xDFFF < c.toNat ∧ c.toNat < 0x110000 :=
  c.valid

/-- High surrogates, by their numbers. -/
theorem isHigh_ofNat {n : Nat} (h : n < 0x10000) :
    isHigh (UInt16.ofNat n) = (decide (0xD800 ≤ n) && decide (n < 0xDC00)) := by
  have hn : (UInt16.ofNat n).toNat = n := UInt16.toNat_ofNat_of_lt' h
  simp [isHigh, UInt16.le_iff_toNat_le, UInt16.lt_iff_toNat_lt, hn]

/-- Low surrogates, by their numbers. -/
theorem isLow_ofNat {n : Nat} (h : n < 0x10000) :
    isLow (UInt16.ofNat n) = (decide (0xDC00 ≤ n) && decide (n < 0xE000)) := by
  have hn : (UInt16.ofNat n).toNat = n := UInt16.toNat_ofNat_of_lt' h
  simp [isLow, UInt16.le_iff_toNat_le, UInt16.lt_iff_toNat_lt, hn]

/-- **The units of a character spell it.** -/
theorem spelling_unitsOf (c : Char) : Spelling c (unitsOf c) := by
  have hvalid := toNat_valid c
  unfold unitsOf
  split
  next hbasic =>
    -- a character that is no surrogate stands alone
    have hu : (UInt16.ofNat c.toNat).toNat = c.toNat := UInt16.toNat_ofNat_of_lt' hbasic
    refine .alone ?_ ?_ ?_
    · simp only [isHigh_ofNat hbasic, Bool.and_eq_false_iff, decide_eq_false_iff_not]
      omega
    · simp only [isLow_ofNat hbasic, Bool.and_eq_false_iff, decide_eq_false_iff_not]
      omega
    · rw [hu, Char.ofNat_toNat]
  next habove =>
    -- above, ten bits go to each surrogate, and no more are left
    have hhigh : 0xD800 + (c.toNat - 0x10000) / 0x400 < 0x10000 := by omega
    have hlow : 0xDC00 + (c.toNat - 0x10000) % 0x400 < 0x10000 := by omega
    refine .pair ?_ ?_ ?_
    · simp only [isHigh_ofNat hhigh, Bool.and_eq_true, decide_eq_true_eq]
      omega
    · simp only [isLow_ofNat hlow, Bool.and_eq_true, decide_eq_true_eq]
      omega
    · have hn : 0x10000 + (0xD800 + (c.toNat - 0x10000) / 0x400 - 0xD800) * 0x400
          + (0xDC00 + (c.toNat - 0x10000) % 0x400 - 0xDC00) = c.toNat := by omega
      rw [paired, UInt16.toNat_ofNat_of_lt' hhigh, UInt16.toNat_ofNat_of_lt' hlow, hn,
        Char.ofNat_toNat]

/-! ## §2. Texts. -/

/-- Texts are encoded character by character. -/
theorem encode_append (text more : List Char) :
    encode (text ++ more) = encode text ++ encode more := by
  simp [encode]

/-- A NUL is one zero unit. -/
theorem encode_nuls (k : Nat) : encode (List.replicate k '\x00') = List.replicate k 0 := by
  induction k with
  | zero => rfl
  | succ k ih =>
    have hcons : encode ('\x00' :: List.replicate k '\x00')
        = 0 :: encode (List.replicate k '\x00') := rfl
    rw [List.replicate_succ, hcons, ih, List.replicate_succ]

/-- The units of a character are read as that character. -/
theorem decodeAfter_unitsOf (found : List Char) (c : Char) (rest : List UInt16) :
    decodeAfter found (unitsOf c ++ rest) = decodeAfter (c :: found) rest := by
  have hspelling := spelling_unitsOf c
  generalize unitsOf c = units at hspelling
  cases hspelling with
  | alone notHigh notLow is => cases rest <;> simp [decodeAfter, notHigh, notLow, is]
  | pair high low is => simp [decodeAfter, high, low, is]

/-- **A text that was encoded is read back**, after whatever was read before it. -/
theorem decodeAfter_encode (found text : List Char) :
    decodeAfter found (encode text) = some (found.reverse ++ text) := by
  induction text generalizing found with
  | nil => simp [encode, decodeAfter]
  | cons c text ih =>
    have hcons : encode (c :: text) = unitsOf c ++ encode text := by simp [encode]
    rw [hcons, decodeAfter_unitsOf, ih, List.reverse_cons, List.append_assoc,
      List.singleton_append]

/-- The text that was written is the text that is read. -/
theorem decode_encode (text : List Char) : decode (encode text) = some text := by
  rw [decode, decodeAfter_encode, List.reverse_nil, List.nil_append]

/-! ## §3. Bytes. -/

theorem toBytes_append (units more : List UInt16) :
    toBytes (units ++ more) = toBytes units ++ toBytes more := by
  simp [toBytes]

/-- Units are written one after another, the lower byte first. -/
theorem toList_toBytes (units : List UInt16) :
    (toBytes units).data.toList = units.flatMap Bytes.ofWord16 := by
  simp [toBytes]

@[simp] theorem size_toBytes (units : List UInt16) : (toBytes units).size = 2 * units.length := by
  have hlen : (toBytes units).data.toList.length = 2 * units.length := by
    rw [toList_toBytes]
    induction units with
    | nil => rfl
    | cons u units ih =>
      have hu : (Bytes.ofWord16 u).length = 2 := Bytes.length_le 2 u.toNat
      simp only [List.flatMap_cons, List.length_append, List.length_cons, ih, hu]
      omega
  rwa [Array.length_toList] at hlen

/-- Zero units are zero bytes. -/
theorem toBytes_zeros (k : Nat) : toBytes (List.replicate k 0) = Bytes.zeros (2 * k) := by
  apply ByteArray.ext
  apply Array.toList_inj.mp
  rw [toList_toBytes, Bytes.zeros, Array.toList_replicate]
  induction k with
  | zero => rfl
  | succ k ih =>
    have hzero : Bytes.ofWord16 0 = [0, 0] := rfl
    rw [List.replicate_succ, List.flatMap_cons, ih, hzero, Nat.mul_succ, Nat.add_comm,
      ← List.replicate_append_replicate]
    rfl

theorem ofWord16_eq (u : UInt16) : ∃ a b : UInt8,
    Bytes.ofWord16 u = [a, b] ∧ UInt16.ofNat (Bytes.ofLe [a, b]) = u := by
  refine ⟨_, _, rfl, ?_⟩
  have hback : Bytes.ofLe (Bytes.le 2 u.toNat) = u.toNat := Bytes.ofLe_le 2 _ u.toNat_lt
  change UInt16.ofNat (Bytes.ofLe (Bytes.le 2 u.toNat)) = u
  rw [hback, UInt16.ofNat_toNat]

/-- Pairs of bytes are read as the units that they were written for. -/
theorem pairsFrom_units (found units : List UInt16) :
    pairsFrom found (units.flatMap Bytes.ofWord16) = some (found.reverse ++ units) := by
  induction units generalizing found with
  | nil => simp [pairsFrom]
  | cons u units ih =>
    obtain ⟨a, b, hbytes, hback⟩ := ofWord16_eq u
    simp only [List.flatMap_cons, hbytes, List.cons_append, List.nil_append, pairsFrom, hback, ih,
      List.reverse_cons, List.append_assoc]

/-- The units that were written are the units that are read. -/
theorem ofBytes?_toBytes (units : List UInt16) : ofBytes? (toBytes units) = some units := by
  rw [ofBytes?, toList_toBytes, pairsFrom_units, List.reverse_nil, List.nil_append]

end StateVault.Text.Utf16
