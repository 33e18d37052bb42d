/-
  StateVault.Proofs.Directory.RoundTrip
  ─────────────────────────────────────
  **DIRECTORIES, THERE AND BACK.**

  A directory is read from its own bytes as what it was, with its entries in
  their order, whatever stands behind them.

  The other way round, a slot for a name can be filled in one way only, with
  the name at its start and zero bytes after it; and every other byte that is
  read is a byte of a field, or one that the reader compares with the only
  value it can have.  So directories have one spelling, if the words that the
  reader passes over are zero.

    • `encode_of_read`     — one entry that was read is written as it was,
    • `flatMap_of_entries` — and so are all of them,
    • `directory_returns`  — both ways in one.
-/
import StateVault.Proofs.Directory.Codec

namespace StateVault

/-! ## §1. Lengths and blocks. -/

/-- An entry passes its check if its blocks hold its bytes. -/
theorem Entry.check_of_length_le {e : Entry} {blockSize : UInt32}
    (h : e.length.toNat ≤ e.extent.count.toNat * blockSize.toNat) : e.check blockSize = .ok () := by
  unfold Entry.check
  by_cases hempty : e.extent.isEmpty = true
  · -- no blocks, no bytes
    have hcount : e.extent.count = 0 := beq_iff_eq.mp hempty
    have hnone : e.length = 0 := by
      apply UInt64.toNat_inj.mp
      rw [hcount] at h
      simpa using h
    rw [if_pos hempty, if_pos hnone]
  · have hcapacity : (e.extent.capacity blockSize).toNat
        = min (e.extent.count.toNat * blockSize.toNat) (UInt64.size - 1) := by
      rw [Extent.toNat_capacity]
    -- the capacity stops at the largest word, which no length exceeds
    have hword := e.length.toNat_lt_size
    have hfits : ¬ e.extent.capacity blockSize < e.length := by
      rw [UInt64.lt_iff_toNat_lt, hcapacity]
      omega
    rw [if_neg hempty, if_neg hfits]

/-! ## §2. One entry. -/

/-- A name that was read has the bytes that it was read from. -/
theorem toUTF8_of_fromUTF8 {bytes : ByteArray} {name : String}
    (h : String.fromUTF8? bytes = some name) : name.toUTF8 = bytes := by
  unfold String.fromUTF8? at h
  split at h
  · cases h
    rfl
  · cases h

/-- A slot has only one name in it, and a name only one slot. -/
theorem encodeName_of_decodeName {index : Nat} {length : UInt8} {slot : ByteArray} {name : String}
    (hsize : slot.size = Name.maxSize)
    (h : Entry.decodeName index length.toNat slot = .ok name) :
    Entry.encodeName name = length :: slot.data.toList := by
  unfold Entry.decodeName at h
  split at h
  · cases h
  · rename_i hlength
    split at h
    · cases h
    · rename_i hpadding
      split at h
      · cases h
      · rename_i found hfound
        split at h
        · cases h
        · cases h
          have hle : length.toNat ≤ Name.maxSize := by omega
          have hslot : slot.data.toList.length = Name.maxSize := by
            rw [Array.length_toList, ByteArray.size_data, hsize]
          have hname : name.toUTF8.data.toList = slot.data.toList.take length.toNat := by
            rw [toUTF8_of_fromUTF8 hfound, Bytes.extract_eq_slice, Bytes.toList_slice,
              List.drop_zero]
          have hcount : name.toUTF8.data.toList.length = length.toNat := by
            rw [hname, List.length_take, hslot]
            omega
          -- what follows the name in its slot is as many zeros as there is room for
          have hzeros : slot.data.toList.drop length.toNat
              = List.replicate (Name.maxSize - length.toNat) 0 := by
            rw [List.eq_replicate_iff]
            refine ⟨by rw [List.length_drop, hslot], fun b hb => ?_⟩
            rw [Bool.not_eq_true, List.any_eq_false] at hpadding
            simpa using hpadding b hb
          rw [Entry.encodeName, hcount, hname, ← hzeros, UInt8.ofNat_toNat, List.cons_append,
            List.take_append_drop]

/-- An entry that was read is written as the bytes it was read from, if its
reserved word is zero. -/
theorem encode_of_read {index : Nat} {bytes : ByteArray} {p : Nat} {e : Entry} {c : Cursor}
    (h : Entry.read index ⟨bytes, p⟩ = .ok e c) (hreserved : Cursor.word32At bytes (p + 92) = 0) :
    e.encode = (Bytes.slice bytes p 96).data.toList ∧ c = ⟨bytes, p + 96⟩ := by
  unfold Entry.read at h
  obtain ⟨length, c₁, hlength, h⟩ := Cursor.bind_ok h
  obtain ⟨hin₁, rfl, rfl⟩ := Cursor.word8_ok hlength
  obtain ⟨slot, c₂, hslot, h⟩ := Cursor.bind_ok h
  obtain ⟨hin₂, rfl, rfl⟩ := Cursor.take_ok hslot
  obtain ⟨name, c₃, hrequire, h⟩ := Cursor.bind_ok h
  obtain ⟨hname, rfl⟩ := Cursor.require_ok hrequire
  obtain ⟨start, c₄, hstart, h⟩ := Cursor.bind_ok h
  obtain ⟨hin₄, rfl, rfl⟩ := Cursor.word64_ok hstart
  obtain ⟨count, c₅, hcount, h⟩ := Cursor.bind_ok h
  obtain ⟨hin₅, rfl, rfl⟩ := Cursor.word64_ok hcount
  obtain ⟨size, c₆, hsize, h⟩ := Cursor.bind_ok h
  obtain ⟨hin₆, rfl, rfl⟩ := Cursor.word64_ok hsize
  obtain ⟨flags, c₇, hflags, h⟩ := Cursor.bind_ok h
  obtain ⟨hin₇, rfl, rfl⟩ := Cursor.word32_ok hflags
  obtain ⟨reserved, c₈, hword, h⟩ := Cursor.bind_ok h
  obtain ⟨hin₈, _, rfl⟩ := Cursor.word32_ok hword
  cases h
  refine ⟨?_, rfl⟩
  have hroom : (Bytes.slice bytes (p + 1) Name.maxSize).size = Name.maxSize := by
    rw [Bytes.size_slice]
    omega
  have hfirst : Cursor.word8At bytes p :: (Bytes.slice bytes (p + 1) Name.maxSize).data.toList
      = (Bytes.slice bytes p 1).data.toList
        ++ (Bytes.slice bytes (p + 1) Name.maxSize).data.toList := by
    rw [← Cursor.ofWord8_word8At hin₁]
    rfl
  have hlast : Bytes.ofWord32 0
      = (Bytes.slice bytes (p + 1 + Name.maxSize + 8 + 8 + 8 + 4) 4).data.toList := by
    rw [← Cursor.ofWord32_word32At hin₈]
    exact congrArg Bytes.ofWord32 hreserved.symm
  rw [Entry.encode, encodeName_of_decodeName hroom hname, hfirst, hlast]
  dsimp only
  rw [Cursor.ofWord64_word64At hin₄, Cursor.ofWord64_word64At hin₅,
    Cursor.ofWord64_word64At hin₆, Cursor.ofWord32_word32At hin₇]
  -- the fields stand one after another, put together from the last one on
  simp only [List.append_assoc]
  rw [Bytes.toList_slice_add, Bytes.toList_slice_add, Bytes.toList_slice_add,
    Bytes.toList_slice_add, Bytes.toList_slice_add, Bytes.toList_slice_add]
  rfl

namespace Directory

/-! ## §3. All entries. -/

variable {blockSize : UInt32} {d : Directory}

/-- The entries that are read after those found have the bytes they were read
from, if their reserved words are zero. -/
theorem flatMap_of_entries {bytes : ByteArray} {n p : Nat} {found entries : List Entry}
    {c : Cursor} (h : readEntries blockSize found n ⟨bytes, p⟩ = .ok entries c)
    (hreserved : ∀ i, i < n → Cursor.word32At bytes (p + 96 * i + 92) = 0) :
    ∃ others, entries = found.reverse ++ others
      ∧ others.flatMap Entry.encode = (Bytes.slice bytes p (96 * n)).data.toList := by
  induction n generalizing found p with
  | zero =>
    cases h
    refine ⟨[], (List.append_nil _).symm, ?_⟩
    rw [Nat.mul_zero, Bytes.slice_zero]
    rfl
  | succ n ih =>
    rw [readEntries] at h
    obtain ⟨e, c₁, he, h⟩ := Cursor.bind_ok h
    -- the bytes of the first entry, and the cursor behind it
    obtain ⟨hencode, rfl⟩ := encode_of_read he (hreserved 0 (Nat.zero_lt_succ n))
    obtain ⟨_, h⟩ := Cursor.guarded_ok h
    obtain ⟨u, c₂, hcheck, h⟩ := Cursor.bind_ok h
    obtain ⟨_, rfl⟩ := Cursor.require_ok hcheck
    -- the others start one entry further on
    obtain ⟨others, hentries, hothers⟩ := ih h fun i hi => by
      have hnext := hreserved (i + 1) (Nat.succ_lt_succ hi)
      rw [show p + 96 * (i + 1) + 92 = p + 96 + 96 * i + 92 by omega] at hnext
      exact hnext
    refine ⟨e :: others, ?_, ?_⟩
    · rw [hentries, List.reverse_cons, List.append_assoc]
      rfl
    · rw [List.flatMap_cons, hencode, hothers, Bytes.toList_slice_add, Nat.add_comm 96]
      rfl

/-- The words of a directory that its reader passes over: one at the end of
each entry, and the last one of the trailer. -/
structure Unreserved (bytes : ByteArray) (n : Nat) : Prop where
  entries : ∀ i, i < n → Cursor.word32At bytes (8 + 96 * i + 92) = 0
  trailer : Cursor.word32At bytes (8 + 96 * n + 20) = 0

/-- What was read as a directory is written as it was, if the words that the
reader passes over are zero. -/
theorem bytes_of_decode {bytes : ByteArray} {generation : UInt64}
    (h : decode bytes blockSize = .ok (d, generation)) (hreserved : Unreserved bytes d.size) :
    d.bytes generation = bytes.extract 0 (32 + 96 * d.size) := by
  obtain ⟨hframed, c, hentries⟩ := decode_ok h
  obtain ⟨others, hall, hothers⟩ := flatMap_of_entries hentries hreserved.entries
  have hsame : d.entries = others := hall
  have hwidth : d.size * Entry.size = 96 * d.size := Nat.mul_comm _ _
  have hroom : 8 + d.size * Entry.size + 24 ≤ bytes.size := hframed.room
  have hmarker := hframed.marker
  have hsigned := hframed.signed
  have hchecksum := hframed.checksum
  rw [hwidth] at hroom hmarker hsigned hchecksum
  -- each part of the encoding is the bytes it was read from, first count, width and entries
  have hbody : d.body = (Bytes.slice bytes 0 (8 + 96 * d.size)).data.toList := by
    rw [body, ← hframed.count, ← hframed.width, hsame, hothers,
      Cursor.ofWord32_word32At (by omega), Cursor.ofWord32_word32At (by omega),
      Bytes.toList_slice_zero_add, Bytes.toList_slice_zero_add]
  -- then the marker and the generation
  have htrailer : Trailer.signed generation
      = (Bytes.slice bytes (8 + 96 * d.size) 16).data.toList := by
    rw [Trailer.signed, ← hmarker, ← hsigned, Cursor.ofWord64_word64At (by omega),
      Bytes.toList_slice_add]
  have hcovered : d.body ++ Trailer.signed generation
      = (Bytes.slice bytes 0 (8 + 96 * d.size + 16)).data.toList := by
    rw [hbody, htrailer, Bytes.toList_slice_zero_add]
  -- and last the reserved word, which the reader skips
  have hlast : Bytes.ofWord32 0
      = (Bytes.slice bytes (8 + 96 * d.size + 16 + 4) 4).data.toList := by
    rw [← Cursor.ofWord32_word32At (by omega)]
    exact congrArg Bytes.ofWord32 hreserved.trailer.symm
  have hwhole : 8 + 96 * d.size + 16 + (4 + 4) = 32 + 96 * d.size := by omega
  apply ByteArray.ext
  apply Array.toList_inj.mp
  rw [toList_bytes, Trailer.encode, ← List.append_assoc, ← List.append_assoc, hcovered,
    ← hchecksum, Cursor.ofWord32_word32At (by omega), hlast, List.append_assoc,
    Bytes.toList_slice_add, Bytes.toList_slice_zero_add, hwhole, Bytes.extract_eq_slice]

/-! ## §4. Both ways. -/

/-- **A directory returns from its bytes, and bytes from their directory.**  At
most 64 entries under different names that can be used, each with no more bytes
than its blocks hold, are read from their own bytes in their order, with the
generation, whatever follows.  What is read from any bytes, its reserved words
zero, is written as those it was read from. -/
theorem directory_returns :
    (∀ (d : Directory) (blockSize : UInt32) (generation : UInt64) (padding : ByteArray),
        d.size ≤ maxEntries → (∀ e ∈ d.entries, Name.fault? e.name = none) → d.names.Nodup →
        (∀ e ∈ d.entries, e.length.toNat ≤ e.extent.count.toNat * blockSize.toNat) →
        ∃ bytes, d.encode generation = .ok bytes
          ∧ decode (bytes ++ padding) blockSize = .ok (d, generation))
      ∧ ∀ (bytes : ByteArray) (blockSize : UInt32) (d : Directory) (generation : UInt64),
          decode bytes blockSize = .ok (d, generation) → Unreserved bytes d.size →
          d.encode generation = .ok (bytes.extract 0 (32 + 96 * d.size)) := by
  refine ⟨?_, ?_⟩
  · intro d blockSize generation padding hcount hnames hdistinct hlengths
    -- what is asked of the directory is what the reader checks
    have hvalid : d.Valid blockSize :=
      ⟨hcount, hnames, hdistinct, fun e he => Entry.check_of_length_le (hlengths e he)⟩
    have hwhole : (d.bytes generation ++ padding).data.toList
        = d.body ++ Trailer.encode d.body generation ++ padding.data.toList := by
      rw [ByteArray.data_append, Array.toList_append, toList_bytes]
    exact ⟨d.bytes generation, hvalid.encode generation, decode_ahead hvalid hwhole⟩
  · intro bytes blockSize d generation h hreserved
    rw [(valid_of_decode h).encode, bytes_of_decode h hreserved]

/-- A stream with flag bits that have no name, and one without any bytes. -/
def twoStreams : Directory :=
  ⟨[⟨"attest", ⟨3, 2⟩, 8192, ⟨0xF0000001⟩⟩, ⟨"rtc_skew", ⟨0, 0⟩, 0, .none⟩]⟩

/-- Both streams are read, with three more bytes behind them, and the 224
bytes before those written again. -/
theorem directory_returns_two : ∃ bytes, twoStreams.encode 7 = .ok bytes
    ∧ decode (bytes ++ ⟨#[1, 2, 3]⟩) 4096 = .ok (twoStreams, 7)
    ∧ Unreserved (bytes ++ ⟨#[1, 2, 3]⟩) 2
    ∧ twoStreams.encode 7 = .ok ((bytes ++ ⟨#[1, 2, 3]⟩).extract 0 224) := by
  obtain ⟨hthere, hback⟩ := directory_returns
  obtain ⟨bytes, hencode, hread⟩ := hthere twoStreams 4096 7 ⟨#[1, 2, 3]⟩ (by decide)
    (by decide +kernel) (by decide) (by decide)
  have hbytes := ((encode_eq_ok_iff _ _ _).mp hencode).2
  have hreserved : Unreserved (bytes ++ ⟨#[1, 2, 3]⟩) 2 := by
    rw [hbytes]
    exact ⟨by decide +kernel, by decide +kernel⟩
  exact ⟨bytes, hencode, hread, hreserved, hback _ 4096 twoStreams 7 hread hreserved⟩

end Directory

end StateVault
