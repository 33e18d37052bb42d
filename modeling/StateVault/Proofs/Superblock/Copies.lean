/-
  StateVault.Proofs.Superblock.Copies
  ───────────────────────────────────
  **A COPY CUT SHORT IS NEVER TAKEN FOR THE CURRENT ONE.**

  The copy that does not count holds the record before the current one, or
  nothing yet.  A write to it that is cut in its first half, and any number of
  further ones after that, leave a copy that either cannot be read or is still
  the one before: its generation stands in the second half, and its version
  is the current one as soon as it has one at all.

    • `Stale`         — what such a copy looks like,
    • `Stale.torn`    — and still looks like after a write cut short,
    • `choose_active` — beside a stale copy the other one counts, as it does
                        beside one that cannot be read (`choose_alone`) or is
                        a generation older (`choose_later`),
    • `current_eq`    — the same for the region of an image.
-/
import StateVault.Proofs.Superblock.Codec

namespace StateVault.Superblock

/-! ## §1. Copies that do not count. -/

/-- The first `k` bytes of the magic, and zero bytes after them. -/
def begun (k : Nat) : ByteArray :=
  (magic.take k ++ List.replicate (64 - k) 0).toByteArray

/-- A copy of the generation before the given one, of the current version or
not begun past its magic. -/
structure Stale (generation : UInt64) (copy : ByteArray) : Prop where
  size : copy.size = 64
  before : (Cursor.word64At copy 48).toNat + 1 = generation.toNat
  shape : Bytes.slice copy 8 4 = (Bytes.ofWord32 currentVersion).toByteArray
    ∨ ∃ k, k ≤ 8 ∧ copy = begun k

theorem size_begun {k : Nat} (hk : k < 9) : (begun k).size = 64 := by
  have hmagic : magic.length = 8 := rfl
  rw [begun, List.size_toByteArray, List.length_append, List.length_take, List.length_replicate,
    hmagic]
  omega

/-- A record of which some bytes of the magic have landed, place by place. -/
theorem getElem?_begun {k : Nat} (hk : k ≤ 8) (i : Nat) :
    (begun k).data[i]? = if i < k then magic[i]? else if i < 64 then some 0 else none := by
  have hlength : (magic.take k).length = k := by
    rw [List.length_take]
    exact Nat.min_eq_left hk
  rw [begun, List.data_toByteArray, List.getElem?_toArray, List.getElem?_append, hlength]
  by_cases hi : i < k
  · rw [if_pos hi, if_pos hi, List.getElem?_take_of_lt hi]
  · rw [if_neg hi, if_neg hi, List.getElem?_replicate]
    by_cases hi' : i < 64
    · rw [if_pos (by omega), if_pos hi']
    · rw [if_neg (by omega), if_neg hi']

theorem slice_encode_version {s : Superblock} (h : s.version = currentVersion) :
    Bytes.slice s.encode 8 4 = (Bytes.ofWord32 currentVersion).toByteArray := by
  apply ByteArray.ext
  apply Array.toList_inj.mp
  rw [Bytes.toList_slice, drop_encode]
  simp [covered, magic, h]

/-- The record of the generation before is stale. -/
theorem stale_encode {s : Superblock} {generation : UInt64} (h : s.version = currentVersion)
    (hnext : s.generation.toNat + 1 = generation.toNat) : Stale generation s.encode where
  size := s.size_encode
  before := by
    have hgeneration := congrArg Superblock.generation s.fieldsAt_encode
    rw [show Cursor.word64At s.encode 48 = s.generation from hgeneration]
    exact hnext
  shape := Or.inl (slice_encode_version h)

theorem stale_zeros : Stale 1 (Bytes.zeros 64) where
  size := Bytes.size_zeros 64
  before := by decide +kernel
  shape := Or.inr ⟨0, Nat.zero_le 8, by decide +kernel⟩

/-! ## §2. Writes cut short. -/

/-- Magic and version of a record. -/
theorem getElem?_encode_head {s : Superblock} (h : s.version = currentVersion) {i : Nat}
    (hi : i < 12) :
    s.encode.data[i]? = (magic ++ Bytes.ofWord32 currentVersion)[i]? := by
  have htake : s.encode.data.toList.take 12 = magic ++ Bytes.ofWord32 currentVersion := by
    rw [toList_encode]
    simp [covered, magic, h]
  rw [← htake, List.getElem?_take_of_lt hi, Array.getElem?_toList]

/-- A copy after a write cut short: new bytes up to the cut, old ones after it. -/
theorem getElem?_torn {s : Superblock} {copy : ByteArray} {landed : Nat}
    (hsize : copy.size = 64) (hlanded : landed ≤ 32) (i : Nat) :
    (Bytes.overlay copy 0 (s.encode.extract 0 landed)).data[i]?
      = if i < landed then s.encode.data[i]? else copy.data[i]? := by
  have hpart : (s.encode.extract 0 landed).size = landed := by
    rw [ByteArray.size_extract, s.size_encode]
    omega
  rw [Bytes.getElem?_overlay (by omega), hpart]
  by_cases hi : i < landed
  · rw [if_pos ⟨Nat.zero_le i, by omega⟩, if_pos hi, Bytes.getElem?_extract, if_pos (by omega)]
    rw [Nat.sub_zero, Nat.zero_add]
  · rw [if_neg (by omega), if_neg hi]

section Torn

variable {copy : ByteArray} {s : Superblock} {landed : Nat}

/-- Version bytes that are the current ones come from the record or from the
copy, and are the same. -/
theorem version_torn (hsize : copy.size = 64) (hversion : s.version = currentVersion)
    (hlanded : landed ≤ 32)
    (hcopy : Bytes.slice copy 8 4 = (Bytes.ofWord32 currentVersion).toByteArray) :
    Bytes.slice (Bytes.overlay copy 0 (s.encode.extract 0 landed)) 8 4
      = (Bytes.ofWord32 currentVersion).toByteArray := by
  have hfour : (Bytes.ofWord32 currentVersion).toByteArray.size = 4 := rfl
  have hold := Bytes.slice_eq_iff.mp (hfour ▸ hcopy)
  have hrecord := Bytes.slice_eq_iff.mp (hfour ▸ slice_encode_version hversion)
  rw [← hfour, Bytes.slice_eq_iff]
  intro i hi
  rw [getElem?_torn hsize hlanded]
  by_cases hin : 8 + i < landed
  · rw [if_pos hin]
    exact hrecord i hi
  · rw [if_neg hin]
    exact hold i hi

/-- The first two version bytes are zero bytes, so that a copy with no more
than them is one that is begun. -/
theorem begun_torn {k : Nat} (hk : k ≤ 8) (hversion : s.version = currentVersion)
    (hshort : landed ≤ 10) :
    Bytes.overlay (begun k) 0 (s.encode.extract 0 landed) = begun (max k (min landed 8)) := by
  refine Bytes.ext_getElem? fun i => ?_
  rw [getElem?_torn (size_begun (by omega)) (by omega), getElem?_begun hk,
    getElem?_begun (by omega)]
  -- of the ten bytes that landed the first eight are magic, the other two are zeros
  by_cases hin : i < landed
  · rw [if_pos hin, getElem?_encode_head hversion (by omega), List.getElem?_append]
    by_cases hmagic : i < 8
    · rw [if_pos (show i < magic.length from hmagic), if_pos (by omega)]
    · rw [if_neg (show ¬ i < magic.length from hmagic), if_neg (by omega), if_pos (by omega)]
      have hi : i = 8 ∨ i = 9 := by omega
      rcases hi with rfl | rfl
      · rfl
      · rfl
  · rw [if_neg hin]
    by_cases hmagic : i < k
    · rw [if_pos hmagic, if_pos (by omega)]
    · rw [if_neg hmagic, if_neg (show ¬ i < max k (min landed 8) by omega)]

/-- Once three version bytes have landed they are all there, since the fourth
is a zero byte. -/
theorem version_of_begun {k : Nat} (hk : k ≤ 8) (hversion : s.version = currentVersion)
    (hlanded : landed ≤ 32) (hlong : 10 < landed) :
    Bytes.slice (Bytes.overlay (begun k) 0 (s.encode.extract 0 landed)) 8 4
      = (Bytes.ofWord32 currentVersion).toByteArray := by
  have hfour : (Bytes.ofWord32 currentVersion).toByteArray.size = 4 := rfl
  rw [← hfour, Bytes.slice_eq_iff]
  intro i hi
  have hin : i < 4 := hi
  rw [getElem?_torn (size_begun (by omega)) hlanded]
  -- all of the version but its last byte has landed, and that one is zero in both
  by_cases hthree : 8 + i < landed
  · rw [if_pos hthree, getElem?_encode_head hversion (by omega), List.getElem?_append_right
      (show magic.length ≤ 8 + i from Nat.le_add_right 8 i)]
    have hsub : 8 + i - magic.length = i := Nat.add_sub_cancel_left 8 i
    rw [hsub]
    simp
  · have hi3 : i = 3 := by omega
    subst hi3
    rw [if_neg hthree, getElem?_begun hk, if_neg (by omega), if_pos (by omega)]
    rfl

/-- A write of a record that is cut in its first half leaves a stale copy
stale. -/
theorem Stale.torn {generation : UInt64} (h : Stale generation copy)
    (hversion : s.version = currentVersion) (hlanded : landed ≤ 32) :
    Stale generation (Bytes.overlay copy 0 (s.encode.extract 0 landed)) where
  size := by
    rw [Bytes.size_overlay, h.size]
    rw [ByteArray.size_extract, s.size_encode, h.size]
    omega
  before := by
    have hpart : (s.encode.extract 0 landed).size ≤ 32 := by
      rw [ByteArray.size_extract]
      omega
    have hsize := h.size
    -- the generation stands in the second half, which no byte has reached
    rw [Cursor.word64At, Bytes.slice_overlay_of_apart (by omega) (Or.inr (by omega))]
    exact h.before
  shape := by
    rcases h.shape with hcopy | ⟨k, hk, rfl⟩
    · exact Or.inl (version_torn h.size hversion hlanded hcopy)
    · by_cases hshort : landed ≤ 10
      · exact Or.inr ⟨max k (min landed 8), by omega, begun_torn hk hversion hshort⟩
      · exact Or.inl (version_of_begun hk hversion hlanded (Nat.lt_of_not_le hshort))

end Torn

/-! ## §3. Choosing. -/

theorem computedAt_begun (k : Nat) : computedAt (begun k)
    = Checksum.ofList ((magic.take k ++ List.replicate (64 - k) 0).take 60) := by
  rw [computedAt, Bytes.toList_slice, begun, List.toList_data_toByteArray, List.drop_zero]
  rfl

/-- The checksum field of a begun record is zero and that of its bytes is not. -/
theorem begun_checksum {k : Nat} (hk : k < 9) :
    Cursor.word32At (begun k) 60 ≠ computedAt (begun k) := by
  have hstored : ∀ k, k < 9 → Cursor.word32At (begun k) 60 = 0 := by decide +kernel
  -- on lists, which are much cheaper to compute with than byte strings
  have hcomputed : ∀ k, k < 9 →
      Checksum.ofList ((magic.take k ++ List.replicate (64 - k) 0).take 60) ≠ 0 := by
    decide +kernel
  -- the place of the checksum is still zero, and no such copy has checksum zero
  rw [hstored k hk, computedAt_begun]
  exact (hcomputed k hk).symm

/-- A begun record is refused for its checksum. -/
theorem decode_begun {k : Nat} (hk : k < 9) : decode (begun k)
    = .error (.checksum .superblock (Cursor.word32At (begun k) 60) (computedAt (begun k))) := by
  rw [decode_eq (Nat.le_of_eq (size_begun hk).symm), examine, if_pos (begun_checksum hk)]

/-- A stale copy is no fault of version. -/
theorem Stale.versionFault {generation : UInt64} {copy : ByteArray}
    (h : Stale generation copy) : versionFault? (decode copy) = none := by
  refine versionFault_decode (Nat.le_of_eq h.size.symm) fun hchecksum => ?_
  rcases h.shape with hshape | ⟨k, hk, rfl⟩
  · rw [Cursor.word32At, hshape, Bytes.value_ofWord32, UInt32.ofNat_toNat]
  · exact absurd hchecksum (begun_checksum (by omega))

/-- A stale copy that still reads is of the generation before. -/
theorem Stale.generation_of_decode {generation : UInt64} {copy : ByteArray} {s : Superblock}
    (h : Stale generation copy) (hok : decode copy = .ok s) :
    s.generation.toNat + 1 = generation.toNat := by
  rw [(decode_ok (Nat.le_of_eq h.size.symm) hok).1]
  exact h.before

@[simp] theorem versionFault_ok (s : Superblock) : versionFault? (.ok s) = none := rfl

@[simp] theorem versionFault_checksum (region : Region) (stored computed : UInt32) :
    versionFault? (.error (.checksum region stored computed)) = none := rfl

/-- A copy that is of a version this library cannot read. -/
def Unsupported (copy : Except Error Superblock) : Prop :=
  ∃ major minor, copy = .error (.unsupportedVersion major minor)

theorem versionFault_eq_some {copy : Except Error Superblock} {e : Error}
    (h : versionFault? copy = some e) :
    ∃ major minor, copy = .error (.unsupportedVersion major minor)
      ∧ e = .unsupportedVersion major minor := by
  unfold versionFault? at h
  split at h
  · cases h
    exact ⟨_, _, rfl, rfl⟩
  · cases h

theorem versionFault_eq_none_iff {copy : Except Error Superblock} :
    versionFault? copy = none ↔ ¬ Unsupported copy := by
  constructor
  · rintro h ⟨major, minor, rfl⟩
    cases h
  · intro h
    cases hfault : versionFault? copy with
    | none => rfl
    | some e =>
      obtain ⟨major, minor, hcopy, _⟩ := versionFault_eq_some hfault
      exact absurd ⟨major, minor, hcopy⟩ h

/-- The choice between a superblock at its place and what stands at the other
one. -/
def chooseAt (slot : Slot) (here other : Except Error Superblock) :
    Except Error (Slot × Superblock) :=
  match slot with
  | .first => choose here other
  | .second => choose other here

/-- A copy that can be read counts beside one that cannot, unless that is of a
newer version. -/
theorem choose_alone {e : Error} (h : versionFault? (.error e) = none) (slot : Slot)
    (s : Superblock) : chooseAt slot (.ok s) (.error e) = .ok (slot, s) := by
  cases slot with
  | first => simp only [chooseAt, choose, versionFault_ok, h]
  | second => simp only [chooseAt, choose, versionFault_ok, h]

/-- Of two copies a generation apart the later one counts. -/
theorem choose_later {s older : Superblock}
    (hbefore : older.generation.toNat + 1 = s.generation.toNat) (slot : Slot) :
    chooseAt slot (.ok s) (.ok older) = .ok (slot, s) := by
  have hone : (1 : UInt64).toNat = 1 := rfl
  have hnext : Word.add? older.generation 1 = some s.generation :=
    Word.add?_eq_some_iff.mpr hbefore
  have hnot : ¬ Word.add? s.generation 1 = some older.generation := by
    rw [Word.add?_eq_some_iff]
    omega
  cases slot with
  | first => simp only [chooseAt, choose, versionFault?, hnext, if_neg hnot, if_pos]
  | second => simp only [chooseAt, choose, versionFault?, hnext, if_pos]

/-- Beside a stale copy the other one counts, in either place. -/
theorem choose_active {s : Superblock} {copy : ByteArray} (h : Stale s.generation copy)
    (slot : Slot) : chooseAt slot (.ok s) (decode copy) = .ok (slot, s) := by
  have hfault := h.versionFault
  cases hdecode : decode copy with
  | error e =>
    rw [hdecode] at hfault
    exact choose_alone hfault slot s
  | ok older => exact choose_later (h.generation_of_decode hdecode) slot

/-- The copies of a region, from either place. -/
theorem current_eq_chooseAt {region : ByteArray} (hsize : regionSize ≤ region.size)
    (slot : Slot) :
    current region = chooseAt slot (copyIn region slot) (copyIn region slot.other) := by
  rw [current, if_neg (Nat.not_lt.mpr hsize)]
  cases slot with
  | first => rfl
  | second => rfl

/-- The copy that counts in a region, beside a stale one. -/
theorem current_eq {region : ByteArray} {slot : Slot} {s : Superblock}
    (hsize : regionSize ≤ region.size) (hcheck : s.check = .ok ())
    (hactive : Bytes.slice region slot.offset 64 = s.encode)
    (hstale : Stale s.generation (Bytes.slice region slot.other.offset 64)) :
    current region = .ok (slot, s) := by
  rw [current_eq_chooseAt hsize slot, copyIn, hactive, decode_encode hcheck]
  exact choose_active hstale slot

/-- The superblock that is chosen can be read at its place. -/
theorem chooseAt_ok {slot place : Slot} {here other : Except Error Superblock} {s : Superblock}
    (h : chooseAt slot here other = .ok (place, s)) :
    (if place = slot then here else other) = .ok s := by
  -- the claim for the order in which the copies are stored; the other is a swap of it
  have hchoose : ∀ first second, choose first second = .ok (place, s) →
      (if place = .first then first else second) = .ok s := by
    intro first second hchosen
    unfold choose at hchosen
    split at hchosen
    · cases hchosen
    · cases hchosen
    · split at hchosen
      · split at hchosen
        · cases hchosen
          rfl
        · split at hchosen
          · cases hchosen
            rfl
          · cases hchosen
      · cases hchosen
        rfl
      · cases hchosen
        rfl
      · cases hchosen
      · cases hchosen
  cases slot with
  | first => exact hchoose _ _ h
  | second =>
    have hother := hchoose _ _ h
    cases place with
    | first => exact hother
    | second => exact hother

/-- The copy that counts in a region is the one at its place. -/
theorem copyIn_of_current {region : ByteArray} {slot : Slot} {s : Superblock}
    (h : current region = .ok (slot, s)) :
    regionSize ≤ region.size ∧ copyIn region slot = .ok s := by
  by_cases hsize : regionSize ≤ region.size
  · rw [current_eq_chooseAt hsize slot] at h
    have hcopy := chooseAt_ok h
    rw [if_pos rfl] at hcopy
    exact ⟨hsize, hcopy⟩
  · rw [current, if_pos (Nat.lt_of_not_le hsize)] at h
    cases h

theorem size_slot {region : ByteArray} (hsize : regionSize ≤ region.size) (slot : Slot) :
    (Bytes.slice region slot.offset 64).size = 64 := by
  have hregion : regionSize = 1024 := rfl
  have hplace : slot.offset ≤ 512 := by
    cases slot with
    | first => exact Nat.zero_le _
    | second => exact Nat.le_refl _
  rw [Bytes.size_slice]
  omega

/-- The current superblock of a region has its fields in agreement. -/
theorem check_of_current {region : ByteArray} {slot : Slot} {s : Superblock}
    (h : current region = .ok (slot, s)) : s.check = .ok () := by
  obtain ⟨hsize, hcopy⟩ := copyIn_of_current h
  exact (decode_ok (Nat.le_of_eq (size_slot hsize slot).symm) hcopy).2

end StateVault.Superblock
