/-
  StateVault.Proofs.Superblock.RoundTrip
  ──────────────────────────────────────
  **SUPERBLOCKS, THERE AND BACK.**

  Writing asks nothing: any fields have their 64 bytes.  Reading those asks
  just what the check of the fields asks, and fails as that does, so that no
  record can be written that is read as another one.

  The other way round each byte of a record that is read is a byte of a field,
  or one that the reader compares with the only value it can have; all but the
  reserved word, which it passes over.  With that word zero the record has one
  spelling.

    • `encode_of_record`       — a record that was read is written as it was,
    • `reading_undoes_writing` — both ways in one.
-/
import StateVault.Proofs.Superblock.Codec

namespace StateVault.Superblock

/-! ## §1. The bytes of a record. -/

/-- The bytes under the checksum of a record whose reserved word is zero. -/
theorem covered_of_record {bytes : ByteArray} {s : Superblock} (hsize : 64 ≤ bytes.size)
    (h : Record bytes s) (hreserved : Cursor.word32At bytes 56 = 0) :
    s.covered = (Bytes.slice bytes 0 checksumOffset).data.toList := by
  rw [covered, ← h.magic, ← h.size, ← hreserved, h.fields, fieldsAt]
  simp (disch := omega) only [Cursor.ofWord32_word32At, Cursor.ofWord64_word64At]
  -- the ten fields stand one after another
  rw [Bytes.toList_slice_add, Bytes.toList_slice_add, Bytes.toList_slice_add,
    Bytes.toList_slice_add, Bytes.toList_slice_add, Bytes.toList_slice_add,
    Bytes.toList_slice_add, Bytes.toList_slice_add, Bytes.toList_slice_add]
  rfl

/-- Writing a superblock that was read gives the bytes back, if the reserved ones
are zero. -/
theorem encode_of_record {bytes : ByteArray} {s : Superblock} (hsize : 64 ≤ bytes.size)
    (h : Record bytes s) (hreserved : Cursor.word32At bytes 56 = 0) :
    s.encode = bytes.extract 0 64 := by
  have hcovered := covered_of_record hsize h hreserved
  have hchecksum : Checksum.ofList s.covered = Cursor.word32At bytes 60 := by
    rw [hcovered]
    exact h.checksum.symm
  apply ByteArray.ext
  apply Array.toList_inj.mp
  rw [toList_encode, hchecksum, hcovered, Cursor.ofWord32_word32At hsize, checksumOffset,
    Bytes.toList_slice_add, Bytes.extract_eq_slice]

/-! ## §2. Both ways. -/

/-- **Reading undoes writing, and writing undoes reading.**  The bytes of any
record are read as that record if its check passes, and are refused with the
error of the check if it fails.  A record that is read from any bytes, its
reserved word zero, is written as the first 64 of them. -/
theorem reading_undoes_writing :
    (∀ s : Superblock, decode s.encode = match s.check with
        | .ok _ => .ok s
        | .error e => .error e)
      ∧ ∀ (bytes : ByteArray) (s : Superblock), 64 ≤ bytes.size → decode bytes = .ok s →
          Cursor.word32At bytes 56 = 0 → s.encode = bytes.extract 0 64 := by
  refine ⟨decode_encode_eq, fun bytes s hsize h hreserved => ?_⟩
  exact encode_of_record hsize ((decode_eq_ok_iff hsize).mp h) hreserved

/-- A record of generation 7, with three more bytes behind it. -/
def seventh : ByteArray :=
  ⟨#[0x47, 0x55, 0x45, 0x53, 0x54, 0x52, 0x54, 0x53, 0x00, 0x00, 0x01, 0x00, 0x40, 0x00, 0x00, 0x00,
    0x00, 0x10, 0x00, 0x00, 0x20, 0x00, 0x00, 0x00, 0x00, 0x04, 0x00, 0x00, 0x00, 0x00, 0x00, 0x00,
    0x01, 0x00, 0x00, 0x00, 0x00, 0x00, 0x00, 0x00, 0x01, 0x00, 0x00, 0x00, 0x00, 0x00, 0x00, 0x00,
    0x07, 0x00, 0x00, 0x00, 0x00, 0x00, 0x00, 0x00, 0x00, 0x00, 0x00, 0x00, 0x2e, 0xbe, 0x5b, 0xff,
    0xaa, 0xbb, 0xcc]⟩

/-- What it says, with a directory in the given blocks. -/
def withDirectory (directory : Extent) : Superblock :=
  ⟨currentVersion, 4096, 1024, directory, 32, 7⟩

/-- It is read as what it says, and written as it stands; the same record with
no blocks for its directory is refused, as its check refuses it. -/
theorem reading_undoes_writing_seventh :
    (64 ≤ seventh.size ∧ decode seventh = .ok (withDirectory ⟨1, 1⟩)
      ∧ Cursor.word32At seventh 56 = 0
      ∧ (withDirectory ⟨1, 1⟩).encode = seventh.extract 0 64)
      ∧ decode (withDirectory ⟨1, 0⟩).encode
          = .error (.corrupt (.directoryExtent 1 1 1024)) := by
  have hsize : 64 ≤ seventh.size := by decide
  have hlayout : (withDirectory ⟨1, 1⟩).checkLayout = .ok () := by
    rw [checkLayout, if_neg (by decide), if_neg (by decide), if_neg (by decide)]
  -- an extent without blocks is refused when the record is read, not when it is written
  have hlayout' : (withDirectory ⟨1, 0⟩).checkLayout
      = .error (.corrupt (.directoryExtent 1 1 1024)) := by
    rw [checkLayout, if_neg (by decide), if_pos (by decide)]
    rfl
  have hcheck' : (withDirectory ⟨1, 0⟩).check
      = .error (.corrupt (.directoryExtent 1 1 1024)) := by
    rw [check, checkVersion_of_current rfl, checkBlockSize, if_pos (by decide), hlayout']
    rfl
  -- the hypotheses of reading back, at the 64 bytes of a real record
  have hrecord : Record seventh (withDirectory ⟨1, 1⟩) :=
    { checksum := by decide +kernel
      magic := by decide +kernel
      size := by decide +kernel
      fields := by decide +kernel
      agree := check_of_layout rfl (by decide) hlayout }
  have hread := (decode_eq_ok_iff hsize).mpr hrecord
  have hreserved : Cursor.word32At seventh 56 = 0 := by decide +kernel
  obtain ⟨hwritten, hback⟩ := reading_undoes_writing
  refine ⟨⟨hsize, hread, hreserved, hback seventh _ hsize hread hreserved⟩, ?_⟩
  rw [hwritten, hcheck']

end StateVault.Superblock
