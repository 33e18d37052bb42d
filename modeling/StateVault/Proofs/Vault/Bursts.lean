/-
  StateVault.Proofs.Vault.Bursts
  ──────────────────────────────
  **NO SHORT BURST GOES UNSEEN.**

  Up to four bytes in a row that are changed, the checksum among them or not,
  are not what the checksum was computed for.  A superblock is refused for
  that alone.

  A directory says itself how long it is, and where its checksum stands is
  computed from what it says.  If its length is among the bytes that are
  changed, then the bytes behind it are not, and where the trailer is looked
  for an entry begins: it begins with the length of a name, which is too small
  for the first byte of the end marker.

    • `Burst.kept`            — what is far from a change is not changed,
    • `Burst.slice_of_sealed` — bytes with a checksum, changed and still with
                                one, are the same,
    • `size_of_framed`        — a burst does not make a directory shorter,
    • `bursts_are_seen`       — both records.
-/
import StateVault.Proofs.Checksum.Register
import StateVault.Proofs.Directory.RoundTrip
import StateVault.Proofs.Superblock.RoundTrip

namespace StateVault

/-! ## §1. Bursts. -/

/-- As many bytes as there were, the same but for some among four in a row. -/
structure Burst (original altered : ByteArray) : Prop where
  size : altered.size = original.size
  window : ∃ w, ∀ i, altered.data[i]? ≠ original.data[i]? → w ≤ i ∧ i < w + 4

/-- Up to four bytes put in the place of others are a burst. -/
theorem burst_overlay {bytes patch : ByteArray} {start : Nat}
    (hsize : start + patch.size ≤ bytes.size) (hshort : patch.size ≤ 4) :
    Burst bytes (Bytes.overlay bytes start patch) := by
  refine ⟨Bytes.size_overlay _ _ _ hsize, start, fun i hi => ?_⟩
  rw [Bytes.getElem?_overlay hsize] at hi
  by_cases hin : start ≤ i ∧ i < start + patch.size
  · omega
  · rw [if_neg hin] at hi
    exact absurd rfl hi

/-- Four bytes behind one that was changed all are what they were. -/
theorem Burst.kept {original altered : ByteArray} (h : Burst original altered) {i j : Nat}
    (hchanged : altered.data[i]? ≠ original.data[i]?) (hfar : i + 4 ≤ j) :
    altered.data[j]? = original.data[j]? := by
  obtain ⟨w, hwindow⟩ := h.window
  by_contra hother
  have hfirst := hwindow i hchanged
  have hsecond := hwindow j hother
  omega

/-- A word that is another one has a byte that was changed. -/
theorem exists_changed_of_word32At {original altered : ByteArray} {p : Nat}
    (hroom : p + 4 ≤ original.size)
    (hne : Cursor.word32At altered p ≠ Cursor.word32At original p) :
    ∃ i, i < p + 4 ∧ altered.data[i]? ≠ original.data[i]? := by
  by_contra hnone
  have hsame : Bytes.slice altered p 4 = Bytes.slice original p 4 := by
    apply Bytes.slice_of_keeps hroom
    intro i b _ hi hb
    by_contra hchanged
    exact hnone ⟨i, hi, fun hkept => hchanged (hkept.trans hb)⟩
  exact hne (by rw [Cursor.word32At, Cursor.word32At, hsame])

/-- Lists that differ in four places in a row only, and leave the same in the
register, are the same. -/
theorem Checksum.eq_of_register {bytes bytes' : List UInt8} {w : Nat}
    (hlength : bytes'.length = bytes.length)
    (hwindow : ∀ i, bytes'[i]? ≠ bytes[i]? → w ≤ i ∧ i < w + 4)
    (h : register bytes' = register bytes) : bytes' = bytes := by
  -- before the window, the window, and after it
  have hsplit (l : List UInt8) : l.take w ++ (l.drop w).take 4 ++ l.drop (w + 4) = l := by
    rw [List.append_assoc, ← List.drop_drop, List.take_append_drop, List.take_append_drop]
  have hbefore : bytes'.take w = bytes.take w := by
    apply List.ext_getElem?
    intro i
    rw [List.getElem?_take, List.getElem?_take]
    by_cases hi : i < w
    · rw [if_pos hi, if_pos hi]
      by_contra hne
      have := hwindow i hne
      omega
    · rw [if_neg hi, if_neg hi]
  have hafter : bytes'.drop (w + 4) = bytes.drop (w + 4) := by
    apply List.ext_getElem?
    intro i
    rw [List.getElem?_drop, List.getElem?_drop]
    by_contra hne
    have := hwindow (w + 4 + i) hne
    omega
  rw [← hsplit bytes', ← hsplit bytes, hbefore, hafter] at h
  -- the parts outside agree, so the window alone has to account for the registers
  have hburst := register_burst (by simp [hlength]) (List.length_take_le 4 _) h
  rw [← hsplit bytes', ← hsplit bytes, hbefore, hafter, hburst]

/-! ## §2. Checksums among the bytes. -/

/-- The word at `n` is the checksum of the bytes before it. -/
structure Sealed (bytes : ByteArray) (n : Nat) : Prop where
  room : n + 4 ≤ bytes.size
  checksum : Cursor.word32At bytes n = Checksum.ofList (Bytes.slice bytes 0 n).data.toList

/-- Run over a checksum and the bytes it covers, the register always comes to the
same. -/
theorem Sealed.register {bytes : ByteArray} {n : Nat} (h : Sealed bytes n) :
    Checksum.register (Bytes.slice bytes 0 (n + 4)).data.toList = Checksum.residue := by
  rw [← Bytes.toList_slice_zero_add, ← Cursor.ofWord32_word32At h.room,
    Checksum.register_eq_residue_iff, h.checksum]

/-- **No burst keeps a checksum right**: the bytes up to it, and its own, are
what they were. -/
theorem Burst.slice_of_sealed {original altered : ByteArray} {n : Nat}
    (h : Burst original altered) (hsealed : Sealed original n) (hsealed' : Sealed altered n) :
    Bytes.slice altered 0 (n + 4) = Bytes.slice original 0 (n + 4) := by
  -- both registers are the residue, so they are equal
  obtain ⟨w, hwindow⟩ := h.window
  apply ByteArray.ext
  apply Array.toList_inj.mp
  refine Checksum.eq_of_register (w := w) ?_ ?_ (hsealed'.register.trans hsealed.register.symm)
  · rw [Array.length_toList, Array.length_toList, ByteArray.size_data, ByteArray.size_data,
      Bytes.size_slice, Bytes.size_slice, h.size]
  · intro i hi
    rw [Array.getElem?_toList, Array.getElem?_toList, Bytes.getElem?_slice,
      Bytes.getElem?_slice, Nat.zero_add] at hi
    by_cases hin : i < n + 4
    · rw [if_pos hin, if_pos hin] at hi
      exact hwindow i hi
    · rw [if_neg hin, if_neg hin] at hi
      exact absurd rfl hi

/-! ## §3. Superblocks. -/

/-- A written superblock is sealed. -/
theorem Superblock.sealed_encode (s : Superblock) : Sealed s.encode checksumOffset where
  room := Nat.le_of_eq s.size_encode.symm
  checksum := by
    rw [slice_encode_covered]
    exact s.word32At_encode_checksum

/-- A record that a burst has changed is refused for its checksum. -/
theorem Superblock.decode_of_burst {s : Superblock} {altered : ByteArray}
    (h : Burst s.encode altered) (hne : altered ≠ s.encode) :
    decode altered = .error
      (.checksum .superblock (Cursor.word32At altered 60) (computedAt altered)) := by
  have hsize : altered.size = 64 := h.size.trans s.size_encode
  have hwrong : Cursor.word32At altered 60 ≠ computedAt altered := by
    intro hright
    have hsealed : Sealed altered checksumOffset := ⟨Nat.le_of_eq hsize.symm, hright⟩
    have hsame := h.slice_of_sealed s.sealed_encode hsealed
    -- the checksum is the last word, so all bytes are the same
    have hwhole (bytes : ByteArray) (h64 : bytes.size = 64) :
        Bytes.slice bytes 0 (checksumOffset + 4) = bytes := by
      rw [← Bytes.extract_eq_slice, show checksumOffset + 4 = 64 from rfl, ← h64,
        ByteArray.extract_zero_size]
    rw [hwhole altered hsize, hwhole s.encode s.size_encode] at hsame
    exact hne hsame
  rw [decode_eq (Nat.le_of_eq hsize.symm), examine, if_pos hwrong]

/-! ## §4. Directories. -/

namespace Directory

variable {d : Directory} {generation : UInt64} {altered : ByteArray}

theorem word32At_bytes (d : Directory) (generation : UInt64) :
    Cursor.word32At (d.bytes generation) 0 = UInt32.ofNat d.size := by
  apply Cursor.word32At_of_toList
  rw [toList_bytes, body, List.drop_zero]
  simp only [List.append_assoc]
  rw [List.take_left' (Bytes.length_ofWord32 _)]

/-- The bytes that the checksum of a directory covers. -/
theorem length_signed (h : ∀ e ∈ d.entries, Name.fault? e.name = none) (generation : UInt64) :
    (d.body ++ Trailer.signed generation).length = 8 + d.size * Entry.size + 16 := by
  rw [List.length_append, length_body h, Trailer.signed, List.length_append,
    Bytes.length_ofWord64]
  rfl

/-- A written directory is sealed. -/
theorem sealed_bytes (h : ∀ e ∈ d.entries, Name.fault? e.name = none) (generation : UInt64) :
    Sealed (d.bytes generation) (8 + d.size * Entry.size + 16) := by
  have hlength := length_signed h generation
  -- the trailer ends in the checksum and a reserved word
  have hsplit : (d.bytes generation).data.toList = (d.body ++ Trailer.signed generation)
      ++ (Bytes.ofWord32 (Checksum.ofList (d.body ++ Trailer.signed generation))
        ++ Bytes.ofWord32 0) := by
    rw [toList_bytes, Trailer.encode]
    simp only [List.append_assoc]
  have hbefore : (Bytes.slice (d.bytes generation) 0
      (8 + d.size * Entry.size + 16)).data.toList = d.body ++ Trailer.signed generation := by
    rw [Bytes.toList_slice, hsplit, List.drop_zero, List.take_left' hlength]
  refine ⟨?_, ?_⟩
  · rw [size_bytes h]
    unfold encodedSize Trailer.size
    omega
  · rw [hbefore]
    apply Cursor.word32At_of_toList
    rw [hsplit, List.drop_left' hlength, List.take_left' (Bytes.length_ofWord32 _)]

/-- Entries have one width, so that of an entry starts a multiple of it further
on. -/
theorem drop_flatMap_encode {entries : List Entry}
    (h : ∀ e ∈ entries, Name.fault? e.name = none) (i : Nat) :
    (entries.flatMap Entry.encode).drop (i * Entry.size)
      = (entries.drop i).flatMap Entry.encode := by
  induction entries generalizing i with
  | nil => rw [List.drop_nil, List.flatMap_nil, List.drop_nil]
  | cons e rest ih =>
    obtain ⟨he, hrest⟩ := List.forall_mem_cons.mp h
    cases i with
    | zero => rw [Nat.zero_mul, List.drop_zero, List.drop_zero]
    | succ i =>
      have hwidth : e.encode.length = Entry.size := length_encode he
      rw [List.drop_succ_cons, ← ih hrest, List.flatMap_cons, Nat.succ_mul, Nat.add_comm,
        ← List.drop_drop, List.drop_left' hwidth]

/-- Where an entry begins there is the length of a name. -/
theorem exists_length_of_entry (h : ∀ e ∈ d.entries, Name.fault? e.name = none)
    (generation : UInt64) {i : Nat} (hi : i < d.size) :
    ∃ b : UInt8, (d.bytes generation).data[8 + i * Entry.size]? = some b
      ∧ b.toNat ≤ Name.maxSize := by
  obtain ⟨e, others, hentries⟩ : ∃ e others, d.entries.drop i = e :: others :=
    ⟨_, _, List.drop_eq_getElem_cons hi⟩
  have hmem : e ∈ d.entries := by
    apply List.mem_of_mem_drop (i := i)
    rw [hentries]
    exact List.mem_cons_self
  have hshort := (size_of_name (h e hmem)).2
  have hheader : (Bytes.ofWord32 (UInt32.ofNat d.size)
      ++ Bytes.ofWord32 (UInt32.ofNat Entry.size)).length = 8 := by
    rw [List.length_append, Bytes.length_ofWord32, Bytes.length_ofWord32]
  have hinside : i * Entry.size ≤ (d.entries.flatMap Entry.encode).length := by
    rw [length_flatMap_encode h]
    exact Nat.mul_le_mul_right _ (Nat.le_of_lt hi)
  -- what stands `i` entries behind the count is the entry itself, which its length opens
  have hahead : (d.bytes generation).data.toList.drop (8 + i * Entry.size)
      = e.encode ++ (others.flatMap Entry.encode ++ Trailer.encode d.body generation) := by
    rw [toList_bytes, body, List.append_assoc, ← List.drop_drop, List.drop_left' hheader,
      List.drop_append_of_le_length hinside, drop_flatMap_encode h, hentries, List.flatMap_cons,
      List.append_assoc]
  refine ⟨UInt8.ofNat e.name.utf8ByteSize, ?_, ?_⟩
  · rw [← Array.getElem?_toList, ← Nat.add_zero (8 + i * Entry.size), ← List.getElem?_drop,
      hahead]
    rfl
  · rw [UInt8.toNat_ofNat']
    exact Nat.le_trans (Nat.mod_le _ _) hshort

/-- A burst does not make a directory longer or shorter. -/
theorem size_of_framed (h : ∀ e ∈ d.entries, Name.fault? e.name = none)
    (hcount : d.size ≤ maxEntries) (hburst : Burst (d.bytes generation) altered) {n : Nat}
    {generation' : UInt64} (hframed : Framed altered n generation') : n = d.size := by
  have hroom := hframed.room
  rw [hburst.size, size_bytes h] at hroom
  unfold encodedSize Entry.size at hroom
  have hmax : maxEntries = 64 := rfl
  by_contra hother
  have hless : n < d.size := by omega
  -- the number of entries is another one, so one of its bytes was changed
  have hcountWord : Cursor.word32At altered 0 ≠ Cursor.word32At (d.bytes generation) 0 := by
    rw [hframed.count, word32At_bytes]
    intro hsame
    have hnumbers := congrArg UInt32.toNat hsame
    rw [UInt32.toNat_ofNat', UInt32.toNat_ofNat'] at hnumbers
    omega
  have hword : 0 + 4 ≤ (d.bytes generation).size := by
    rw [size_bytes h]
    unfold encodedSize
    omega
  obtain ⟨i, hi, hchanged⟩ := exists_changed_of_word32At hword hcountWord
  -- the trailer is looked for where an entry is
  have hkept : altered.data[8 + n * Entry.size]?
      = (d.bytes generation).data[8 + n * Entry.size]? := hburst.kept hchanged (by omega)
  obtain ⟨b, hb, hbound⟩ := exists_length_of_entry h generation hless
  have hmarker : altered.data[8 + n * Entry.size]? = some 0x56 := by
    have hfirst := Bytes.getElem?_slice altered (8 + n * Entry.size) 8 0
    rw [if_pos (by decide), ← Array.getElem?_toList, hframed.marker] at hfirst
    exact hfirst.symm
  rw [hmarker, hb] at hkept
  cases hkept
  exact absurd hbound (by decide)

/-- A directory that a burst has changed is refused, if the burst is not
within the last four bytes. -/
theorem decode_of_burst {bytes : ByteArray} (blockSize : UInt32)
    (hencode : d.encode generation = .ok bytes) (hburst : Burst bytes altered)
    (hchanged : ∃ i, i + 4 < bytes.size ∧ altered.data[i]? ≠ bytes.data[i]?) :
    ∃ e, decode altered blockSize = .error e := by
  obtain ⟨⟨hcount, hchecked⟩, rfl⟩ := (encode_eq_ok_iff d generation bytes).mp hencode
  have hnames := ((checkNames_iff [] d.entries).mp hchecked).1
  cases hread : decode altered blockSize with
  | error e => exact ⟨e, rfl⟩
  | ok result =>
    obtain ⟨d', generation'⟩ := result
    obtain ⟨hframed, _⟩ := decode_ok hread
    have hsize := size_of_framed hnames hcount hburst hframed
    have hroom := hframed.room
    have hchecksum := hframed.checksum
    rw [hsize] at hroom hchecksum
    unfold encodedSize Trailer.size at hroom
    have hsame := hburst.slice_of_sealed (sealed_bytes hnames generation) ⟨by omega, hchecksum⟩
    obtain ⟨i, hi, hne⟩ := hchanged
    rw [size_bytes hnames] at hi
    unfold encodedSize Trailer.size at hi
    -- all bytes but the last four have their checksum
    have hat := congrArg (fun part : ByteArray => part.data[i]?) hsame
    simp only [Bytes.getElem?_slice, Nat.zero_add] at hat
    rw [if_pos (by omega), if_pos (by omega)] at hat
    exact absurd hat hne

end Directory

/-! ## §5. Both records. -/

/-- **Every short burst is seen.**  A record that differs from a superblock's
bytes among four bytes in a row is refused for its checksum.  Bytes that
differ so from those of a directory are no directory, for any block size,
unless they differ in the last four bytes only, which no checksum covers. -/
theorem bursts_are_seen :
    (∀ (s : Superblock) (altered : ByteArray), Burst s.encode altered → altered ≠ s.encode →
        Superblock.decode altered = .error (.checksum .superblock
          (Cursor.word32At altered 60) (Superblock.computedAt altered)))
      ∧ ∀ (d : Directory) (generation : UInt64) (bytes altered : ByteArray) (blockSize : UInt32),
          d.encode generation = .ok bytes → Burst bytes altered →
          (∃ i, i + 4 < bytes.size ∧ altered.data[i]? ≠ bytes.data[i]?) →
          ∃ e, Directory.decode altered blockSize = .error e := by
  refine ⟨fun s altered hburst hne => Superblock.decode_of_burst hburst hne, ?_⟩
  intro d generation bytes altered blockSize hencode hburst hchanged
  exact Directory.decode_of_burst blockSize hencode hburst hchanged

/-- Half in the reserved word of a superblock and half in its checksum; and in
the number of entries of a directory, which is one less. -/
theorem bursts_are_seen_at_seams :
    (∃ stored computed,
      Superblock.decode (Bytes.overlay (Superblock.withDirectory ⟨1, 1⟩).encode 58
        ⟨#[1, 0, 0, 1]⟩) = .error (.checksum .superblock stored computed))
      ∧ ∃ bytes e, Directory.twoStreams.encode 7 = .ok bytes
          ∧ Directory.decode (Bytes.overlay bytes 0 ⟨#[1]⟩) 4096 = .error e := by
  obtain ⟨hsuperblock, hdirectory⟩ := bursts_are_seen
  refine ⟨⟨_, _, hsuperblock _ _ (burst_overlay ?_ (by decide)) ?_⟩, ?_⟩
  · rw [Superblock.size_encode]
    decide
  · -- byte 58 is one of those altered
    intro hsame
    have hat := congrArg (fun bytes : ByteArray => bytes.data[58]?) hsame
    revert hat
    decide +kernel
  · have hnames : Directory.checkNames [] Directory.twoStreams.entries = .ok () :=
      (Directory.checkNames_iff _ _).mpr ⟨by decide +kernel, by decide, by decide⟩
    have hencode := (Directory.encode_eq_ok_iff Directory.twoStreams 7 _).mpr
      ⟨⟨by decide, hnames⟩, rfl⟩
    have hsize := (Directory.size_of_encode hencode).1
    have hpatch : Burst (Directory.twoStreams.bytes 7)
        (Bytes.overlay (Directory.twoStreams.bytes 7) 0 ⟨#[1]⟩) :=
      burst_overlay (by rw [hsize]; decide) (by decide)
    obtain ⟨e, he⟩ := hdirectory _ 7 _ _ 4096 hencode hpatch
      ⟨0, by rw [hsize]; decide, by decide +kernel⟩
    exact ⟨_, e, hencode, he⟩

end StateVault
