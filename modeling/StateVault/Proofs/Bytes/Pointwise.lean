/-
  StateVault.Proofs.Bytes.Pointwise
  ─────────────────────────────────
  **BYTE STRINGS, BYTE BY BYTE.**

  What an image holds at position `i` is `bytes.data[i]?`: some byte, or none
  past the end.  Each operation of `StateVault.Bytes` is read off at one
  position, and two byte strings agree on a range when they do so at each of
  its positions.

    • `getElem?_slice`, `getElem?_overlay`, `getElem?_resized`, … — one
      operation at one position,
    • `slice_eq_iff`      — when a part of a byte string is a given one,
    • `slice_of_keeps`    — a part whose bytes are kept is the same part,
    • `toList_slice_add`  — parts next to each other,
    • `value_ofWord64`, … — words written and read back.
-/
import StateVault.Bytes

namespace StateVault.Bytes

/-! ## §1. One position of each operation. -/

/-- Byte strings are the same if they are so at each position. -/
theorem ext_getElem? {a b : ByteArray} (h : ∀ i : Nat, a.data[i]? = b.data[i]?) : a = b :=
  ByteArray.ext (Array.ext_getElem? h)

/-- There is no byte past the end, and one everywhere before it. -/
theorem getElem?_eq_none_iff {bytes : ByteArray} {i : Nat} :
    bytes.data[i]? = none ↔ bytes.size ≤ i := by
  rw [← ByteArray.size_data]
  exact Array.getElem?_eq_none_iff

theorem lt_size_of_getElem? {bytes : ByteArray} {i : Nat} {b : UInt8}
    (h : bytes.data[i]? = some b) : i < bytes.size := by
  rw [← ByteArray.size_data]
  exact (Array.getElem?_eq_some_iff.mp h).1

theorem exists_getElem? {bytes : ByteArray} {i : Nat} (h : i < bytes.size) :
    ∃ b, bytes.data[i]? = some b := by
  rw [← ByteArray.size_data] at h
  exact ⟨_, Array.getElem?_eq_getElem h⟩

theorem getElem?_append (a b : ByteArray) (i : Nat) :
    (a ++ b).data[i]? = if i < a.size then a.data[i]? else b.data[i - a.size]? := by
  rw [ByteArray.data_append, Array.getElem?_append, ByteArray.size_data]

@[simp] theorem getElem?_zeros (n i : Nat) :
    (zeros n).data[i]? = if i < n then some 0 else none := by
  simp only [zeros, Array.getElem?_replicate]

/-- A part, at one position; past its end there is nothing. -/
theorem getElem?_extract (bytes : ByteArray) (start stop i : Nat) :
    (bytes.extract start stop).data[i]?
      = if start + i < stop then bytes.data[start + i]? else none := by
  rw [ByteArray.data_extract, Array.getElem?_extract]
  by_cases h : start + i < stop
  · rw [if_pos h]
    split
    · rfl
    · symm
      rw [Array.getElem?_eq_none_iff]
      omega
  · rw [if_neg h, if_neg]
    omega

theorem getElem?_slice (bytes : ByteArray) (start count i : Nat) :
    (slice bytes start count).data[i]?
      = if i < count then bytes.data[start + i]? else none := by
  rw [slice, getElem?_extract]
  by_cases h : i < count
  · rw [if_pos h, if_pos (by omega)]
  · rw [if_neg h, if_neg (by omega)]

/-- An overlay is what stood before it, the patch, and what stood behind. -/
theorem overlay_eq_append (bytes : ByteArray) (start : Nat) (patch : ByteArray) :
    overlay bytes start patch
      = bytes.extract 0 start ++ patch ++ bytes.extract (start + patch.size) bytes.size := by
  rw [overlay, ByteArray.copySlice_eq_append]
  congr 2
  · simp
  · simp

/-- An overlay, at one position: the patch where it lies, and the old byte
elsewhere. -/
theorem getElem?_overlay {bytes : ByteArray} {start : Nat} {patch : ByteArray}
    (h : start + patch.size ≤ bytes.size) (i : Nat) :
    (overlay bytes start patch).data[i]?
      = if start ≤ i ∧ i < start + patch.size then patch.data[i - start]?
        else bytes.data[i]? := by
  have hstart : (bytes.extract 0 start).size = start := by
    rw [ByteArray.size_extract]
    omega
  have hpatched : (bytes.extract 0 start ++ patch).size = start + patch.size := by
    rw [ByteArray.size_append, hstart]
  -- three parts: what stands before the patch, the patch, and what follows it
  rw [overlay_eq_append, getElem?_append, hpatched, getElem?_append, hstart]
  by_cases hbefore : i < start
  · rw [if_pos (by omega), if_pos hbefore, if_neg (by omega), getElem?_extract,
      if_pos (by omega), Nat.zero_add]
  · by_cases hin : i < start + patch.size
    · rw [if_pos hin, if_neg hbefore, if_pos (by omega)]
    · rw [if_neg hin, if_neg (by omega), getElem?_extract]
      -- the index into the third part counts from the end of the patch
      by_cases hend : i < bytes.size
      · rw [if_pos (by omega)]
        congr 1
        omega
      · rw [if_neg (by omega)]
        symm
        rw [getElem?_eq_none_iff]
        omega

/-- A new length, at one position: the old byte, or zero where there was none. -/
theorem getElem?_resized (bytes : ByteArray) (length i : Nat) :
    (resized bytes length).data[i]?
      = if i < length then some (bytes.data[i]?.getD 0) else none := by
  unfold resized
  split
  · rename_i hcut
    rw [getElem?_extract, Nat.zero_add]
    by_cases h : i < length
    · have hi : i < bytes.size := by omega
      obtain ⟨b, hb⟩ := exists_getElem? hi
      rw [if_pos h, if_pos h, hb, Option.getD_some]
    · rw [if_neg h, if_neg h]
  · rename_i hfill
    -- an image made longer is filled up with zeros
    rw [getElem?_append, getElem?_zeros]
    by_cases hold : i < bytes.size
    · obtain ⟨b, hb⟩ := exists_getElem? hold
      rw [if_pos hold, if_pos (by omega), hb, Option.getD_some]
    · have hnone : bytes.data[i]? = none := getElem?_eq_none_iff.mpr (by omega)
      rw [if_neg hold, hnone, Option.getD_none]
      by_cases h : i < length
      · rw [if_pos h, if_pos (by omega)]
      · rw [if_neg h, if_neg (by omega)]

/-! ## §2. Parts. -/

/-- A part has all its bytes if it lies within the byte string. -/
theorem size_slice_eq_iff {bytes : ByteArray} {start count : Nat} :
    (slice bytes start count).size = count ↔ count = 0 ∨ start + count ≤ bytes.size := by
  rw [size_slice]
  omega

@[simp] theorem slice_zero (bytes : ByteArray) (start : Nat) :
    slice bytes start 0 = ByteArray.empty := by
  rw [← ByteArray.size_eq_zero_iff, size_slice]
  omega

/-- A part is a given byte string if it is so at each of its positions. -/
theorem slice_eq_iff {bytes part : ByteArray} {start : Nat} :
    slice bytes start part.size = part
      ↔ ∀ i, i < part.size → bytes.data[start + i]? = part.data[i]? := by
  constructor
  · intro h i hi
    have hat := getElem?_slice bytes start part.size i
    rw [h, if_pos hi] at hat
    exact hat.symm
  · intro h
    apply ext_getElem?
    intro i
    rw [getElem?_slice]
    -- past its end a part has no byte, and neither has the slice
    by_cases hi : i < part.size
    · rw [if_pos hi, h i hi]
    · rw [if_neg hi]
      symm
      rw [getElem?_eq_none_iff]
      omega

/-- A part whose bytes are all there, and are kept, is the same part. -/
theorem slice_of_keeps {old new : ByteArray} {start count : Nat}
    (hsize : start + count ≤ old.size)
    (hkeep : ∀ i b, start ≤ i → i < start + count →
      old.data[i]? = some b → new.data[i]? = some b) :
    slice new start count = slice old start count := by
  apply ext_getElem?
  intro i
  rw [getElem?_slice, getElem?_slice]
  by_cases hi : i < count
  · have hin : start + i < old.size := by omega
    -- only a byte that is there can be kept, hence the bound on `old`
    obtain ⟨b, hb⟩ := exists_getElem? hin
    rw [if_pos hi, if_pos hi, hb, hkeep (start + i) b (by omega) (by omega) hb]
  · rw [if_neg hi, if_neg hi]

/-- Each byte that `old` has at a position in `P`, `new` has there too. -/
def Keeps (P : Nat → Prop) (old new : ByteArray) : Prop :=
  ∀ i b, P i → old.data[i]? = some b → new.data[i]? = some b

theorem Keeps.refl (P : Nat → Prop) (bytes : ByteArray) : Keeps P bytes bytes :=
  fun _ _ _ h => h

theorem Keeps.trans {P : Nat → Prop} {a b c : ByteArray} (h : Keeps P a b) (h' : Keeps P b c) :
    Keeps P a c :=
  fun i x hi hx => h' i x hi (h i x hi hx)

theorem Keeps.mono {P P' : Nat → Prop} {old new : ByteArray} (h : Keeps P old new)
    (himp : ∀ i, P' i → P i) : Keeps P' old new :=
  fun i b hi hb => h i b (himp i hi) hb

/-- A position that is kept, and has a byte, has one afterwards. -/
theorem Keeps.lt_size {P : Nat → Prop} {old new : ByteArray} (h : Keeps P old new) {i : Nat}
    (hi : P i) (hlt : i < old.size) : i < new.size := by
  obtain ⟨b, hb⟩ := exists_getElem? hlt
  exact lt_size_of_getElem? (h i b hi hb)

/-- A part within what is kept is the same part. -/
theorem Keeps.slice {P : Nat → Prop} {old new : ByteArray} (h : Keeps P old new)
    {start count : Nat} (hsize : start + count ≤ old.size)
    (hin : ∀ i, start ≤ i → i < start + count → P i) :
    slice new start count = slice old start count :=
  slice_of_keeps hsize fun i b hlow hhigh hb => h i b (hin i hlow hhigh) hb

/-- An overlay keeps all positions outside the patch. -/
theorem keeps_overlay {bytes : ByteArray} {start : Nat} {patch : ByteArray}
    (h : start + patch.size ≤ bytes.size) :
    Keeps (fun i => ¬ (start ≤ i ∧ i < start + patch.size)) bytes
      (overlay bytes start patch) := by
  intro i b hi hb
  rw [getElem?_overlay h, if_neg hi, hb]

/-- A new length keeps all positions below it. -/
theorem keeps_resized (bytes : ByteArray) (length : Nat) :
    Keeps (· < length) bytes (resized bytes length) := by
  intro i b hi hb
  rw [getElem?_resized, if_pos hi, hb, Option.getD_some]

/-- A part of a part is a part. -/
theorem slice_slice (bytes : ByteArray) {start count from' n : Nat} (h : from' + n ≤ count) :
    slice (slice bytes start count) from' n = slice bytes (start + from') n := by
  apply ext_getElem?
  intro i
  rw [getElem?_slice, getElem?_slice, getElem?_slice]
  by_cases hi : i < n
  · rw [if_pos hi, if_pos hi, if_pos (by omega), Nat.add_assoc]
  · rw [if_neg hi, if_neg hi]

theorem extract_eq_slice (bytes : ByteArray) (n : Nat) : bytes.extract 0 n = slice bytes 0 n := by
  rw [slice, Nat.zero_add]

/-- What an overlay puts in a place is found there. -/
theorem slice_overlay_self {bytes : ByteArray} {start : Nat} {patch : ByteArray}
    (h : start + patch.size ≤ bytes.size) :
    slice (overlay bytes start patch) start patch.size = patch := by
  rw [slice_eq_iff]
  intro i hi
  rw [getElem?_overlay h, if_pos (by omega), Nat.add_sub_cancel_left]

/-- An overlay at the start of a range is one at the start of its bytes. -/
theorem slice_overlay_within {bytes : ByteArray} {start : Nat} {patch : ByteArray}
    (h : start + patch.size ≤ bytes.size) {count : Nat} (hcount : patch.size ≤ count) :
    slice (overlay bytes start patch) start count
      = overlay (slice bytes start count) 0 patch := by
  have hwhole : 0 + patch.size ≤ (slice bytes start count).size := by
    rw [size_slice]
    omega
  apply ext_getElem?
  intro i
  rw [getElem?_slice, getElem?_overlay h, getElem?_overlay hwhole, getElem?_slice]
  by_cases hi : i < count
  · rw [if_pos hi, if_pos hi]
    -- the patch covers the first bytes of the range
    by_cases hlow : i < patch.size
    · rw [if_pos (by omega), if_pos (by omega), Nat.add_sub_cancel_left, Nat.sub_zero]
    · rw [if_neg (by omega), if_neg (by omega)]
  · rw [if_neg hi, if_neg (by omega), if_neg hi]

/-- An overlay apart from a range leaves the range alone. -/
theorem slice_overlay_of_apart {bytes : ByteArray} {start : Nat} {patch : ByteArray}
    (h : start + patch.size ≤ bytes.size) {from' count : Nat}
    (hapart : from' + count ≤ start ∨ start + patch.size ≤ from') :
    slice (overlay bytes start patch) from' count = slice bytes from' count := by
  apply ext_getElem?
  intro i
  rw [getElem?_slice, getElem?_slice]
  by_cases hi : i < count
  · rw [if_pos hi, if_pos hi, getElem?_overlay h, if_neg (by omega)]
  · rw [if_neg hi, if_neg hi]

/-- An overlay right behind another one continues it. -/
theorem overlay_overlay {bytes a b : ByteArray} {start : Nat}
    (h : start + a.size + b.size ≤ bytes.size) :
    overlay (overlay bytes start a) (start + a.size) b = overlay bytes start (a ++ b) := by
  have hsize : (overlay bytes start a).size = bytes.size := size_overlay _ _ _ (by omega)
  have hboth : start + (a ++ b).size ≤ bytes.size := by
    rw [ByteArray.size_append]
    omega
  apply ext_getElem?
  intro i
  rw [getElem?_overlay (by omega), getElem?_overlay (by omega), getElem?_overlay hboth,
    getElem?_append, ByteArray.size_append]
  -- in the second part, in the first one, or in neither
  by_cases hsecond : start + a.size ≤ i ∧ i < start + a.size + b.size
  · rw [if_pos hsecond, if_pos (by omega), if_neg (by omega), Nat.sub_add_eq]
  · rw [if_neg hsecond]
    by_cases hfirst : start ≤ i ∧ i < start + a.size
    · rw [if_pos hfirst, if_pos (by omega), if_pos (by omega)]
    · rw [if_neg hfirst, if_neg (by omega)]

/-- What stands before the end of an overlay: what stood before it, and then it. -/
theorem extract_overlay {bytes part : ByteArray} {start : Nat}
    (h : start + part.size ≤ bytes.size) :
    (overlay bytes start part).extract 0 (start + part.size) = bytes.extract 0 start ++ part := by
  have hstart : (bytes.extract 0 start).size = start := by
    rw [ByteArray.size_extract]
    omega
  apply ext_getElem?
  intro i
  rw [getElem?_extract, getElem?_append, getElem?_extract, hstart, Nat.zero_add,
    getElem?_overlay h]
  -- before the part, in the part, and past both sides
  by_cases hbefore : i < start
  · rw [if_pos (by omega), if_neg (by omega), if_pos hbefore, if_pos hbefore]
  · rw [if_neg hbefore]
    by_cases hin : i < start + part.size
    · rw [if_pos hin, if_pos (by omega)]
    · rw [if_neg hin]
      symm
      rw [getElem?_eq_none_iff]
      omega
/-- A part as a list. -/
theorem toList_slice (bytes : ByteArray) (start count : Nat) :
    (slice bytes start count).data.toList = (bytes.data.toList.drop start).take count := by
  rw [slice, ByteArray.data_extract, Array.toList_extract]
  simp

/-- Two parts next to each other are one. -/
theorem toList_slice_add (bytes : ByteArray) (start m n : Nat) :
    (slice bytes start m).data.toList ++ (slice bytes (start + m) n).data.toList
      = (slice bytes start (m + n)).data.toList := by
  rw [toList_slice, toList_slice, toList_slice, List.take_add, List.drop_drop]

theorem toList_slice_zero_add (bytes : ByteArray) (m n : Nat) :
    (slice bytes 0 m).data.toList ++ (slice bytes m n).data.toList
      = (slice bytes 0 (m + n)).data.toList := by
  have hadd := toList_slice_add bytes 0 m n
  rwa [Nat.zero_add] at hadd

/-! ## §3. Words written and read back. -/

@[simp] theorem value_toByteArray (bytes : List UInt8) : value bytes.toByteArray = ofLe bytes := by
  simp [value]

/-- A part of `count` bytes that are all there spells a number of as many
digits, and they are its digits. -/
theorem le_value_slice {bytes : ByteArray} {start count : Nat} (h : start + count ≤ bytes.size) :
    value (slice bytes start count) < Nat.pow 256 count
      ∧ le count (value (slice bytes start count)) = (slice bytes start count).data.toList := by
  have hlength : (slice bytes start count).data.toList.length = count := by
    rw [Array.length_toList, ByteArray.size_data, size_slice]
    omega
  have hfits := ofLe_lt (slice bytes start count).data.toList
  have hdigits := le_ofLe (slice bytes start count).data.toList
  rw [hlength] at hfits hdigits
  exact ⟨hfits, hdigits⟩

@[simp] theorem value_ofWord32 (w : UInt32) : value (ofWord32 w).toByteArray = w.toNat := by
  rw [value_toByteArray, ofWord32, ofLe_le 4 w.toNat w.toNat_lt]

@[simp] theorem value_ofWord64 (w : UInt64) : value (ofWord64 w).toByteArray = w.toNat := by
  rw [value_toByteArray, ofWord64, ofLe_le 8 w.toNat w.toNat_lt]

@[simp] theorem length_ofWord32 (w : UInt32) : (ofWord32 w).length = 4 :=
  length_le 4 w.toNat

@[simp] theorem length_ofWord64 (w : UInt64) : (ofWord64 w).length = 8 :=
  length_le 8 w.toNat

end StateVault.Bytes
