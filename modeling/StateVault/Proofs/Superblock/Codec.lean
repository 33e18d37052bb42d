/-
  StateVault.Proofs.Superblock.Codec
  ──────────────────────────────────
  **WHAT IS WRITTEN AS A SUPERBLOCK IS READ AS THE SAME ONE.**

  The reader of the 64 bytes as one equation (`decode_eq`), with each field
  at its offset (`fieldsAt`); and the fields of what `encode` writes.

    • `decode_encode_eq` — the record that is written is read back, if its
                           fields agree with each other,
    • `decode_eq_ok_iff` — what a record that is read says of its bytes.
-/
import StateVault.Proofs.Cursor.Runs
import StateVault.Superblock.Current

namespace StateVault.Superblock

/-! ## §1. The reader as one equation. -/

/-- The fields at their offsets. -/
def fieldsAt (bytes : ByteArray) : Superblock :=
  { version := Cursor.word32At bytes 8
    blockSize := Cursor.word32At bytes 16
    totalBlocks := Cursor.word64At bytes 24
    directory := ⟨Cursor.word64At bytes 32, Cursor.word64At bytes 40⟩
    directorySize := Cursor.word32At bytes 20
    generation := Cursor.word64At bytes 48 }

/-- The checksum of the bytes before it. -/
def computedAt (bytes : ByteArray) : UInt32 :=
  Checksum.ofList (Bytes.slice bytes 0 checksumOffset).data.toList

/-- The checks on a record, in their order. -/
def examine (bytes : ByteArray) : Except Error Superblock :=
  if Cursor.word32At bytes 60 ≠ computedAt bytes then
    .error (.checksum .superblock (Cursor.word32At bytes 60) (computedAt bytes))
  else if (Bytes.slice bytes 0 8).data.toList ≠ magic then .error .badMagic
  else
    match (fieldsAt bytes).checkVersion with
    | .error e => .error e
    | .ok _ =>
        if Cursor.word32At bytes 12 ≠ recordSize then
          .error (.corrupt (.superblockSize (Cursor.word32At bytes 12)))
        else
          match (fieldsAt bytes).check with
          | .error e => .error e
          | .ok _ => .ok (fieldsAt bytes)

/-- The checksum is read at its place and compared with that of the bytes before
it. -/
theorem verifyChecksum_apply {bytes : ByteArray} (h : 64 ≤ bytes.size) :
    verifyChecksum ⟨bytes, 0⟩
      = if Cursor.word32At bytes 60 ≠ computedAt bytes then
          .error (.checksum .superblock (Cursor.word32At bytes 60) (computedAt bytes))
            ⟨bytes, 64⟩
        else .ok () ⟨bytes, 64⟩ := by
  have hseek : checksumOffset ≤ bytes.size := Nat.le_trans (by decide) h
  have hword : checksumOffset + 4 ≤ bytes.size := h
  unfold verifyChecksum
  simp (disch := assumption) only [Cursor.bind_apply, Cursor.seek_apply, Cursor.word32_apply,
    Cursor.get_apply, Checksum.ofBytes_eq_ofList, Bytes.extract_eq_slice]
  -- on the left the branch is a step yet to be taken, on the right its outcome
  show (if Cursor.word32At bytes 60 ≠ computedAt bytes then _ else _ : Steps Unit) _ = _
  by_cases hne : Cursor.word32At bytes 60 ≠ computedAt bytes
  · rw [if_pos hne, if_pos hne]
    rfl
  · rw [if_neg hne, if_neg hne]
    rfl

/-- The fields are read in the order they have in the record. -/
theorem fields_apply {bytes : ByteArray} (h : 64 ≤ bytes.size) :
    fields ⟨bytes, 8⟩ = .ok (fieldsAt bytes, Cursor.word32At bytes 12) ⟨bytes, 56⟩ := by
  unfold fields
  simp (disch := omega) only [Cursor.bind_apply, Cursor.word32_apply, Cursor.word64_apply]
  rfl

/-- The reader moves no cursor in the end: it is a chain of checks on the bytes. -/
theorem decode_eq {bytes : ByteArray} (h : 64 ≤ bytes.size) : decode bytes = examine bytes := by
  -- the two sides ask the same questions in the same order
  rw [decode, Cursor.decode_eq, read, Cursor.bind_apply, verifyChecksum_apply h, examine]
  by_cases hchecksum : Cursor.word32At bytes 60 ≠ computedAt bytes
  · rw [if_pos hchecksum, if_pos hchecksum]
  · rw [if_neg hchecksum, if_neg hchecksum]
    simp only []
    rw [Cursor.bind_apply, Cursor.seek_apply (Nat.zero_le _)]
    simp only []
    rw [Cursor.bind_apply, Cursor.take_apply (by omega)]
    simp only []
    by_cases hmagic : (Bytes.slice bytes 0 8).data.toList ≠ magic
    · rw [if_pos hmagic, if_pos hmagic]
      rfl
    · rw [if_neg hmagic, if_neg hmagic, Cursor.bind_apply, fields_apply h]
      simp only []
      rw [Cursor.bind_apply, Cursor.require_apply]
      cases hversion : (fieldsAt bytes).checkVersion with
      | error e => rfl
      | ok u =>
        simp only []
        by_cases hsize : Cursor.word32At bytes 12 ≠ recordSize
        · rw [if_pos hsize, if_pos hsize]
          rfl
        · rw [if_neg hsize, if_neg hsize, Cursor.bind_apply, Cursor.require_apply]
          cases hcheck : (fieldsAt bytes).check with
          | error e => rfl
          | ok u => rfl

/-! ## §2. The bytes that are written. -/

theorem length_covered (s : Superblock) : s.covered.length = 60 := by
  simp [covered, magic]

/-- A record is what the checksum covers, and the checksum of it. -/
theorem toList_encode (s : Superblock) :
    s.encode.data.toList
      = s.covered ++ Bytes.ofWord32 (Checksum.ofList s.covered) := by
  simp [encode]

theorem size_encode (s : Superblock) : s.encode.size = 64 := by
  rw [← ByteArray.size_data, ← Array.length_toList, toList_encode]
  simp [length_covered]

/-- What the checksum of a written record is computed over. -/
theorem slice_encode_covered (s : Superblock) :
    (Bytes.slice s.encode 0 checksumOffset).data.toList = s.covered := by
  rw [Bytes.toList_slice, toList_encode, List.drop_zero, checksumOffset, ← s.length_covered,
    List.take_left]

theorem slice_encode_magic (s : Superblock) :
    (Bytes.slice s.encode 0 8).data.toList = magic := by
  rw [Bytes.toList_slice, toList_encode]
  simp [covered, magic]

/-- The part of the record from an offset on, as the list of its fields. -/
theorem drop_encode (s : Superblock) (p : Nat) :
    s.encode.data.toList.drop p
      = (s.covered ++ Bytes.ofWord32 (Checksum.ofList s.covered)).drop p := by
  rw [toList_encode]

/-- A field of 32 bits is read back where its bytes lie among those written. -/
theorem word32At_encode {s : Superblock} {p : Nat} {w : UInt32}
    (h : ((s.covered ++ Bytes.ofWord32 (Checksum.ofList s.covered)).drop p).take 4
      = Bytes.ofWord32 w) : Cursor.word32At s.encode p = w :=
  Cursor.word32At_of_toList (by rw [drop_encode, h])

theorem word64At_encode {s : Superblock} {p : Nat} {w : UInt64}
    (h : ((s.covered ++ Bytes.ofWord32 (Checksum.ofList s.covered)).drop p).take 8
      = Bytes.ofWord64 w) : Cursor.word64At s.encode p = w :=
  Cursor.word64At_of_toList (by rw [drop_encode, h])

/-- The checksum field of a written record. -/
theorem word32At_encode_checksum (s : Superblock) :
    Cursor.word32At s.encode 60 = Checksum.ofList s.covered := by
  apply word32At_encode
  rw [← s.length_covered, List.drop_left, List.take_of_length_le (by simp)]

theorem word32At_encode_size (s : Superblock) : Cursor.word32At s.encode 12 = recordSize :=
  word32At_encode (by simp [covered, magic])

/-- The fields read from a written record are those of the superblock. -/
theorem fieldsAt_encode (s : Superblock) : fieldsAt s.encode = s := by
  have hversion : Cursor.word32At s.encode 8 = s.version :=
    word32At_encode (by simp [covered, magic])
  have hblockSize : Cursor.word32At s.encode 16 = s.blockSize :=
    word32At_encode (by simp [covered, magic, List.drop_append, List.drop_eq_nil_of_le])
  have hdirectorySize : Cursor.word32At s.encode 20 = s.directorySize :=
    word32At_encode (by simp [covered, magic, List.drop_append, List.drop_eq_nil_of_le])
  have htotalBlocks : Cursor.word64At s.encode 24 = s.totalBlocks :=
    word64At_encode (by simp [covered, magic, List.drop_append, List.drop_eq_nil_of_le])
  have hstart : Cursor.word64At s.encode 32 = s.directory.start :=
    word64At_encode (by simp [covered, magic, List.drop_append, List.drop_eq_nil_of_le])
  have hcount : Cursor.word64At s.encode 40 = s.directory.count :=
    word64At_encode (by simp [covered, magic, List.drop_append, List.drop_eq_nil_of_le])
  have hgeneration : Cursor.word64At s.encode 48 = s.generation :=
    word64At_encode (by simp [covered, magic, List.drop_append, List.drop_eq_nil_of_le])
  rw [fieldsAt, hversion, hblockSize, hdirectorySize, htotalBlocks, hstart, hcount, hgeneration]

/-! ## §3. There and back. -/

/-- A superblock that passes has passed each part of the check. -/
theorem check_eq_ok {s : Superblock} (h : s.check = .ok ()) :
    s.checkVersion = .ok () ∧ isBlockSize s.blockSize = true ∧ s.checkLayout = .ok () := by
  unfold check checkBlockSize at h
  cases hversion : s.checkVersion with
  | error e =>
    rw [hversion] at h
    cases h
  | ok u =>
    rw [hversion] at h
    by_cases hsize : isBlockSize s.blockSize = true
    · rw [if_pos hsize] at h
      exact ⟨rfl, hsize, h⟩
    · rw [if_neg hsize] at h
      cases h

/-- What is written is read if its fields agree, and else is refused for what
they are refused for. -/
theorem decode_encode_eq (s : Superblock) :
    decode s.encode = match s.check with
      | .ok _ => .ok s
      | .error e => .error e := by
  have hchecksum : computedAt s.encode = Checksum.ofList s.covered := by
    rw [computedAt, slice_encode_covered]
  -- what was written agrees with itself up to here; only `check` is left to decide
  rw [decode_eq (Nat.le_of_eq s.size_encode.symm), examine, word32At_encode_checksum, hchecksum,
    if_neg (not_not_intro rfl), slice_encode_magic, if_neg (not_not_intro rfl), fieldsAt_encode,
    word32At_encode_size, if_neg (not_not_intro rfl)]
  -- an unsupported version is refused early, which `check` would also do first
  cases hversion : s.checkVersion with
  | error e =>
    rw [check, hversion]
    rfl
  | ok u =>
    cases s.check with
    | error e => rfl
    | ok u => rfl

/-- **A superblock that passes the check is read back** from its record. -/
theorem decode_encode {s : Superblock} (h : s.check = .ok ()) : decode s.encode = .ok s := by
  rw [decode_encode_eq, h]

/-- The bytes of a record with the fields of `s`, with nothing in them that the
reader refuses. -/
structure Record (bytes : ByteArray) (s : Superblock) : Prop where
  checksum : Cursor.word32At bytes 60 = computedAt bytes
  magic : (Bytes.slice bytes 0 8).data.toList = Superblock.magic
  size : Cursor.word32At bytes 12 = recordSize
  fields : s = fieldsAt bytes
  agree : s.check = .ok ()

/-- Bytes decode to a superblock exactly when they are a record of it. -/
theorem decode_eq_ok_iff {bytes : ByteArray} {s : Superblock} (hsize : 64 ≤ bytes.size) :
    decode bytes = .ok s ↔ Record bytes s := by
  rw [decode_eq hsize, examine]
  constructor
  · -- each check that passed is one field of the record
    intro h
    split at h
    · cases h
    · rename_i hchecksum
      split at h
      · cases h
      · rename_i hmagic
        split at h
        · cases h
        · split at h
          · cases h
          · rename_i hrecord
            split at h
            · cases h
            · rename_i hcheck
              cases h
              exact ⟨Decidable.of_not_not hchecksum, Decidable.of_not_not hmagic,
                Decidable.of_not_not hrecord, rfl, hcheck⟩
  · -- the version stands apart: it is checked before the size of the record, and again in
    -- `check`
    rintro ⟨hchecksum, hmagic, hrecord, rfl, hcheck⟩
    rw [if_neg (not_not_intro hchecksum), if_neg (not_not_intro hmagic), (check_eq_ok hcheck).1,
      if_neg (not_not_intro hrecord), hcheck]

/-- A record that is read has its fields at their offsets, and they agree. -/
theorem decode_ok {bytes : ByteArray} {s : Superblock} (hsize : 64 ≤ bytes.size)
    (h : decode bytes = .ok s) : s = fieldsAt bytes ∧ s.check = .ok () :=
  ⟨((decode_eq_ok_iff hsize).mp h).fields, ((decode_eq_ok_iff hsize).mp h).agree⟩

/-! ## §4. Versions. -/

theorem checkVersion_of_current {s : Superblock} (h : s.version = currentVersion) :
    s.checkVersion = .ok () := by
  have hmajor : s.major = 1 := by
    rw [major, h]
    rfl
  rw [checkVersion, if_pos ⟨hmajor, UInt32.le_iff_toNat_le.mpr
    (Nat.le_of_eq (congrArg UInt32.toNat h))⟩]

theorem check_of_layout {s : Superblock} (hversion : s.version = currentVersion)
    (hsize : isBlockSize s.blockSize = true) (hlayout : s.checkLayout = .ok ()) :
    s.check = .ok () := by
  rw [check, checkVersion_of_current hversion, checkBlockSize, if_pos hsize]
  exact hlayout

/-- The current version is the only one that passes. -/
theorem version_of_checkVersion {s : Superblock} (h : s.checkVersion = .ok ()) :
    s.version = currentVersion := by
  unfold checkVersion at h
  by_cases hpass : s.major = 1 ∧ s.version ≤ currentVersion
  · -- the major part is the upper half of the word, so 1.0 is the least with major 1
    obtain ⟨hmajor, hle⟩ := hpass
    have hmajor' : s.version.toNat / 65536 % 65536 = 1 := by
      have := congrArg UInt16.toNat hmajor
      simpa [major, Nat.shiftRight_eq_div_pow] using this
    have hle' : s.version.toNat ≤ 65536 := UInt32.le_iff_toNat_le.mp hle
    apply UInt32.toNat_inj.mp
    show s.version.toNat = 65536
    omega
  · rw [if_neg hpass] at h
    cases h

/-- A supported version leaves no fault of version, whatever else is refused. -/
theorem versionFault_check {s : Superblock} {e : Error} (hversion : s.checkVersion = .ok ())
    (h : s.check = .error e) : versionFault? (.error e) = none := by
  unfold check checkBlockSize checkLayout at h
  rw [hversion] at h
  -- past the version, all that is left to refuse is corruption
  by_cases hsize : isBlockSize s.blockSize = true
  · rw [if_pos hsize] at h
    simp only [bind, Except.bind] at h
    split at h
    · cases h
      rfl
    · split at h
      · cases h
        rfl
      · split at h
        · cases h
          rfl
        · cases h
  · rw [if_neg hsize] at h
    cases h
    rfl

/-- A record whose checksum is right only with the current version is not of
another one. -/
theorem versionFault_decode {bytes : ByteArray} (hsize : 64 ≤ bytes.size)
    (h : Cursor.word32At bytes 60 = computedAt bytes →
      Cursor.word32At bytes 8 = currentVersion) :
    versionFault? (decode bytes) = none := by
  rw [decode_eq hsize, examine]
  by_cases hchecksum : Cursor.word32At bytes 60 = computedAt bytes
  · -- the checks that come after the version are none of the version's
    have hversion : (fieldsAt bytes).checkVersion = .ok () :=
      checkVersion_of_current (h hchecksum)
    rw [if_neg (not_not_intro hchecksum), hversion]
    split
    · rfl
    · simp only []
      split
      · rfl
      · cases hcheck : (fieldsAt bytes).check with
        | error e => exact versionFault_check hversion hcheck
        | ok u => rfl
  · rw [if_pos hchecksum]
    rfl

end StateVault.Superblock
