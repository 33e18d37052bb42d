/-
  StateVault.Proofs.Directory.Codec
  ─────────────────────────────────
  **WHAT IS WRITTEN AS A DIRECTORY IS READ AS THE SAME ONE.**

  Each part is read back where its bytes are ahead of the cursor: an entry
  (`read_entry`), the entries in order (`readEntries_ahead`), the trailer with
  its checksum (`read_trailer`).

    • `decode_ahead`  — a valid directory is read back, with its generation,
                        whatever follows it,
    • `size_bytes`    — and has the size that it should,
    • `write_trailer` — a trailer that is written at a cursor completes it.
-/
import StateVault.Proofs.Directory.Valid

namespace StateVault

/-! ## §1. Names and entries. -/

/-- A name takes its length and a slot, whatever its own size. -/
theorem length_encodeName {name : String} (h : name.utf8ByteSize ≤ Name.maxSize) :
    (Entry.encodeName name).length = 64 := by
  have hlength : name.toUTF8.data.toList.length = name.utf8ByteSize := Array.length_toList
  unfold Entry.encodeName
  simp only [List.length_append, List.length_cons, List.length_replicate, hlength]
  unfold Name.maxSize at *
  omega

/-- A good name is not empty and fits its slot. -/
theorem size_of_name {name : String} (h : Name.fault? name = none) :
    name.utf8ByteSize ≠ 0 ∧ name.utf8ByteSize ≤ Name.maxSize := by
  unfold Name.fault? at h
  by_cases hempty : name.isEmpty
  · rw [if_pos hempty] at h
    cases h
  · rw [if_neg hempty] at h
    by_cases hlong : Name.maxSize < name.utf8ByteSize
    · rw [if_pos hlong] at h
      cases h
    · refine ⟨fun hzero => hempty ?_, Nat.le_of_not_lt hlong⟩
      rw [String.isEmpty, hzero]
      rfl

theorem fromUTF8_toUTF8 (name : String) : String.fromUTF8? name.toUTF8 = some name := by
  have hvalid : name.toUTF8.IsValidUTF8 := name.isValidUTF8
  rw [String.fromUTF8?, dif_pos hvalid]
  rfl

/-- The bytes after the length of a name. -/
def nameSlot (name : String) : List UInt8 :=
  name.toUTF8.data.toList
    ++ List.replicate (Name.maxSize - name.toUTF8.data.toList.length) 0

/-- **A name is read back from its slot.** -/
theorem decodeName_slot {name : String} (h : Name.fault? name = none) (index : Nat) :
    Entry.decodeName index name.utf8ByteSize (nameSlot name).toByteArray = .ok name := by
  obtain ⟨hne, hle⟩ := size_of_name h
  have hlength : name.toUTF8.data.toList.length = name.utf8ByteSize := Array.length_toList
  -- past the name the slot is filled with zeros, as the reader asks for
  have hpadding : ((nameSlot name).drop name.utf8ByteSize).any (· != 0) = false := by
    rw [nameSlot, ← hlength, List.drop_left]
    simp
  have hbytes : (nameSlot name).toByteArray.extract 0 name.utf8ByteSize = name.toUTF8 := by
    apply ByteArray.ext
    apply Array.toList_inj.mp
    rw [Bytes.extract_eq_slice, Bytes.toList_slice, List.data_toByteArray, List.drop_zero,
      nameSlot, ← hlength, List.take_left]
  unfold Entry.decodeName
  rw [if_neg (by omega), List.data_toByteArray, hpadding, if_neg Bool.false_ne_true, hbytes,
    fromUTF8_toUTF8]
  simp only [h]

/-- An entry takes 96 bytes. -/
theorem length_encode {e : Entry} (h : Name.fault? e.name = none) : e.encode.length = 96 := by
  unfold Entry.encode
  simp only [List.length_append, length_encodeName (size_of_name h).2, Bytes.length_ofWord64,
    Bytes.length_ofWord32]

/-- An entry ahead of the cursor is read. -/
theorem read_entry {e : Entry} (h : Name.fault? e.name = none) (index : Nat)
    {bytes : ByteArray} {p : Nat} {rest : List UInt8}
    (hahead : bytes.data.toList.drop p = e.encode ++ rest) :
    Entry.read index ⟨bytes, p⟩ = .ok e ⟨bytes, p + 96⟩ := by
  obtain ⟨hne, hle⟩ := size_of_name h
  have hlength : e.name.toUTF8.data.toList.length = e.name.utf8ByteSize := Array.length_toList
  have hslot : (nameSlot e.name).length = Name.maxSize := by
    rw [nameSlot, List.length_append, List.length_replicate, hlength]
    omega
  have hone : [UInt8.ofNat e.name.utf8ByteSize].length = 1 := rfl
  have h0 : bytes.data.toList.drop p
      = [UInt8.ofNat e.name.utf8ByteSize] ++ (nameSlot e.name
        ++ (Bytes.ofWord64 e.extent.start ++ (Bytes.ofWord64 e.extent.count
        ++ (Bytes.ofWord64 e.length ++ (Bytes.ofWord32 e.flags.bits
        ++ (Bytes.ofWord32 0 ++ rest)))))) := by
    rw [hahead, Entry.encode, Entry.encodeName, nameSlot, hlength]
    simp only [List.append_assoc, List.cons_append, List.nil_append]
  -- what is ahead after each field; the numbers are offsets in the entry
  have h1 := Cursor.drop_ahead h0 hone
  have h64 := Cursor.drop_ahead h1 hslot
  have h72 := Cursor.drop_ahead h64 (Bytes.length_ofWord64 _)
  have h80 := Cursor.drop_ahead h72 (Bytes.length_ofWord64 _)
  have h88 := Cursor.drop_ahead h80 (Bytes.length_ofWord64 _)
  have h92 := Cursor.drop_ahead h88 (Bytes.length_ofWord32 _)
  have hbyte : (UInt8.ofNat e.name.utf8ByteSize).toNat = e.name.utf8ByteSize := by
    unfold Name.maxSize at hle
    rw [UInt8.toNat_ofNat']
    omega
  unfold Entry.read
  simp only [Cursor.bind_apply, Cursor.word8_ahead h0, Cursor.take_ahead h1 hslot (by decide),
    hbyte, decodeName_slot h, Cursor.require_apply, Cursor.word64_ahead h64,
    Cursor.word64_ahead h72, Cursor.word64_ahead h80, Cursor.word32_ahead h88,
    Cursor.word32_ahead h92]
  rfl

/-! ## §2. The trailer. -/

namespace Trailer

open Cursor

/-- **What the cursor writes is the trailer of the bytes before it**, if it fits. -/
theorem write_eq_put (generation : UInt64) {c : Cursor} (h : c.position + size ≤ c.capacity) :
    write generation c = put (encode c.passed.data.toList generation).toByteArray c := by
  have hmagic : magic.length = 8 := rfl
  unfold size at h
  obtain ⟨_, hmarked, _⟩ := exists_put (c := c) magic.toByteArray (by simp; omega)
  obtain ⟨d, hsigned, hpassed⟩ := exists_put (c := c)
    (magic.toByteArray ++ (Bytes.ofWord64 generation).toByteArray) (by simp; omega)
  -- the checksum is taken of what stands before the cursor then
  have hsum : Checksum.ofBytes d.passed
      = Checksum.ofList (c.passed.data.toList ++ signed generation) := by
    rw [Checksum.ofBytes_eq_ofList, hpassed]
    simp [signed]
  obtain ⟨_, hsummed, _⟩ := exists_put (c := c)
    (magic.toByteArray ++ (Bytes.ofWord64 generation).toByteArray
      ++ (Bytes.ofWord32 (Checksum.ofBytes d.passed)).toByteArray) (by simp; omega)
  -- each word is put behind what stands there already
  have hgeneration := put_put (Bytes.ofWord64 generation).toByteArray hmarked (by simp; omega)
  have hchecksum := put_put (Bytes.ofWord32 (Checksum.ofBytes d.passed)).toByteArray hsigned
    (by simp; omega)
  have hreserved := put_put (Bytes.ofWord32 0).toByteArray hsummed (by simp; omega)
  simp only [write, putWord64, putWord32, bind_apply, get_apply, hmarked, hgeneration, hsigned,
    hchecksum, hsummed, hreserved]
  rw [encode, ← hsum, signed, List.toByteArray_append, List.toByteArray_append,
    List.toByteArray_append]

end Trailer

/-- A trailer ahead of the cursor is read, if its checksum covers the bytes
before it. -/
theorem read_trailer {bytes : ByteArray} {p : Nat} {body rest : List UInt8}
    {generation : UInt64} (hbefore : bytes.data.toList = body ++ Trailer.encode body generation
      ++ rest) (hp : body.length = p) :
    Trailer.read ⟨bytes, p⟩ = .ok generation ⟨bytes, p + 24⟩ := by
  have hmagic : Trailer.magic.length = 8 := rfl
  have h0 : bytes.data.toList.drop p
      = Trailer.magic ++ (Bytes.ofWord64 generation
        ++ (Bytes.ofWord32 (Checksum.ofList (body ++ Trailer.signed generation))
        ++ (Bytes.ofWord32 0 ++ rest))) := by
    rw [hbefore, ← hp, List.append_assoc, List.drop_left, Trailer.encode, Trailer.signed]
    simp only [List.append_assoc]
  have h8 := Cursor.drop_ahead h0 hmagic
  have h16 := Cursor.drop_ahead h8 (Bytes.length_ofWord64 _)
  have h20 := Cursor.drop_ahead h16 (Bytes.length_ofWord32 _)
  -- where the checksum is computed, body and signed part have been passed
  have hpassed : (Cursor.passed ⟨bytes, p + 8 + 8⟩).data.toList
      = body ++ Trailer.signed generation := by
    rw [Cursor.passed, Bytes.extract_eq_slice, Bytes.toList_slice, List.drop_zero, hbefore,
      Trailer.encode]
    have hlength : (body ++ Trailer.signed generation).length = p + 8 + 8 := by
      rw [List.length_append, Trailer.signed, List.length_append, Bytes.length_ofWord64, hp,
        hmagic]
    rw [List.append_assoc, List.append_assoc, List.append_assoc, ← List.append_assoc body,
      ← hlength, List.take_left]
  unfold Trailer.read
  simp only [Cursor.bind_apply, Cursor.take_ahead h0 hmagic (by decide), ne_eq,
    List.data_toByteArray, not_true_eq_false, if_false, Cursor.word64_ahead h8, Cursor.get_apply,
    Checksum.ofBytes_eq_ofList, hpassed, Cursor.word32_ahead h16, Cursor.word32_ahead h20]
  rfl

namespace Directory

/-! ## §3. The whole directory. -/

theorem length_flatMap_encode {entries : List Entry}
    (h : ∀ e ∈ entries, Name.fault? e.name = none) :
    (entries.flatMap Entry.encode).length = entries.length * 96 := by
  induction entries with
  | nil => rfl
  | cons e rest ih =>
    obtain ⟨he, hrest⟩ := List.forall_mem_cons.mp h
    rw [List.flatMap_cons, List.length_append, length_encode he, ih hrest, List.length_cons]
    omega

/-- Entries ahead of the cursor are read in order, after those found. -/
theorem readEntries_ahead {blockSize : UInt32} {bytes : ByteArray} {p : Nat}
    {found entries : List Entry} {rest : List UInt8}
    (hahead : bytes.data.toList.drop p = entries.flatMap Entry.encode ++ rest)
    (hnames : ∀ e ∈ entries, Name.fault? e.name = none)
    (hsound : ∀ e ∈ entries, e.check blockSize = .ok ())
    (hdistinct : ((found.reverse ++ entries).map (·.name)).Nodup) :
    readEntries blockSize found entries.length ⟨bytes, p⟩
      = .ok (found.reverse ++ entries) ⟨bytes, p + entries.length * 96⟩ := by
  induction entries generalizing found p with
  | nil =>
    rw [List.append_nil]
    rfl
  | cons e others ih =>
    obtain ⟨hname, hnames⟩ := List.forall_mem_cons.mp hnames
    obtain ⟨hcheck, hsound⟩ := List.forall_mem_cons.mp hsound
    rw [List.flatMap_cons, List.append_assoc] at hahead
    -- all names differ, so the reader does not find this one among the earlier
    have hnew : ¬ (found.any fun x => x.name == e.name) = true := by
      intro hany
      obtain ⟨x, hx, hsame⟩ := List.any_eq_true.mp hany
      rw [List.map_append, List.nodup_append] at hdistinct
      exact hdistinct.2.2 x.name (List.mem_map.mpr ⟨x, List.mem_reverse.mpr hx, rfl⟩)
        e.name (List.mem_map.mpr ⟨e, List.mem_cons_self, rfl⟩) (beq_iff_eq.mp hsame)
    have hdistinct' : (((e :: found).reverse ++ others).map (·.name)).Nodup := by
      rw [List.reverse_cons, List.append_assoc]
      exact hdistinct
    have hnext := ih (Cursor.drop_ahead hahead (length_encode hname)) hnames hsound hdistinct'
    rw [List.reverse_cons, List.append_assoc] at hnext
    rw [List.length_cons, readEntries, Cursor.bind_apply, read_entry hname _ hahead]
    simp only [if_neg hnew, Cursor.bind_apply, hcheck, Cursor.require_apply]
    rw [hnext]
    congr 2
    omega

variable {blockSize : UInt32} {d : Directory}

theorem toList_bytes (d : Directory) (generation : UInt64) :
    (d.bytes generation).data.toList = d.body ++ Trailer.encode d.body generation := by
  rw [bytes, List.data_toByteArray]

/-- What stands before the trailer: the counts, and the entries. -/
theorem length_body (h : ∀ e ∈ d.entries, Name.fault? e.name = none) :
    d.body.length = 8 + d.size * Entry.size := by
  rw [body, List.length_append, List.length_append, Bytes.length_ofWord32,
    Bytes.length_ofWord32, length_flatMap_encode h]
  rfl

@[simp] theorem length_trailer (body : List UInt8) (generation : UInt64) :
    (Trailer.encode body generation).length = 24 := by
  simp [Trailer.encode, Trailer.signed, Trailer.magic]

/-- A cursor that has passed all of a directory but its trailer, and writes that,
has written the directory. -/
theorem write_trailer {generation : UInt64} {c : Cursor} (hbody : c.passed.data.toList = d.body)
    (h : c.position + Trailer.size ≤ c.capacity) :
    ∃ c', Trailer.write generation c = .ok () c' ∧ c'.passed = d.bytes generation := by
  have hsize : (Trailer.encode d.body generation).toByteArray.size = Trailer.size := by
    rw [List.size_toByteArray, length_trailer]
    rfl
  obtain ⟨c', hput, hpassed⟩ := Cursor.exists_put (c := c)
    (Trailer.encode d.body generation).toByteArray (by rw [hsize]; exact h)
  have hbefore : c.passed = d.body.toByteArray := by
    rw [← hbody]
    exact ByteArray.ext (by simp)
  refine ⟨c', ?_, ?_⟩
  · rw [Trailer.write_eq_put generation h, hbody, hput]
  · rw [hpassed, hbefore, bytes, List.toByteArray_append]

/-- The directory has the size that the number of its entries tells. -/
theorem size_bytes (h : ∀ e ∈ d.entries, Name.fault? e.name = none) (generation : UInt64) :
    (d.bytes generation).size = encodedSize d.size := by
  rw [← ByteArray.size_data, ← Array.length_toList, toList_bytes, List.length_append,
    length_body h, length_trailer]
  rfl

/-- A directory that has bytes has from 32 to 6176 of them. -/
theorem size_of_encode {generation : UInt64} {b : ByteArray}
    (h : d.encode generation = .ok b) :
    b.size = encodedSize d.size ∧ 32 ≤ b.size ∧ b.size ≤ 6176 := by
  obtain ⟨⟨hcount, hnames⟩, rfl⟩ := (encode_eq_ok_iff d generation b).mp h
  rw [size_bytes ((checkNames_iff [] d.entries).mp hnames).1]
  unfold maxEntries at hcount
  unfold encodedSize Entry.size Trailer.size
  exact ⟨rfl, by omega, by omega⟩

/-- A valid directory at the start of some bytes is read, whatever follows it. -/
theorem decode_ahead (h : d.Valid blockSize) {generation : UInt64} {bytes : ByteArray}
    {rest : List UInt8}
    (hwhole : bytes.data.toList = d.body ++ Trailer.encode d.body generation ++ rest) :
    decode bytes blockSize = .ok (d, generation) := by
  have hcount := h.count
  have hbody := length_body h.names
  have hmax : maxEntries = 64 := rfl
  have hentry : Entry.size = 96 := rfl
  have hroom : encodedSize d.size ≤ bytes.size := by
    rw [← ByteArray.size_data, ← Array.length_toList, hwhole, List.length_append,
      List.length_append, hbody, length_trailer]
    exact Nat.le_add_right _ _
  have h0 : bytes.data.toList.drop 0
      = Bytes.ofWord32 (UInt32.ofNat d.size) ++ (Bytes.ofWord32 (UInt32.ofNat Entry.size)
        ++ (d.entries.flatMap Entry.encode ++ (Trailer.encode d.body generation ++ rest))) := by
    rw [List.drop_zero, hwhole, body]
    simp only [List.append_assoc]
  have h4 := Cursor.drop_ahead h0 (Bytes.length_ofWord32 _)
  have h8 : bytes.data.toList.drop 8 = _ := Cursor.drop_ahead h4 (Bytes.length_ofWord32 _)
  -- at most 64 entries, so their number fits its word
  have hn : (UInt32.ofNat d.size).toNat = d.size := by
    rw [UInt32.toNat_ofNat']
    omega
  have hwidth : ¬ (UInt32.ofNat Entry.size).toNat ≠ Entry.size := by decide
  have hreadCount : readCount ⟨bytes, 0⟩ = .ok d.size ⟨bytes, 0 + 4 + 4⟩ := by
    unfold readCount
    simp only [Cursor.bind_apply, Cursor.word32_ahead h0, Cursor.word32_ahead h4, hn,
      if_neg hwidth, if_neg (Nat.not_lt.mpr hcount), Cursor.get_apply, Cursor.capacity,
      if_neg (Nat.not_lt.mpr hroom)]
    rfl
  unfold encodedSize at hroom
  -- the trailer is read first, then the cursor goes back for the entries
  have hentries : readEntries blockSize [] d.size ⟨bytes, 8⟩
      = .ok d.entries ⟨bytes, 8 + d.size * 96⟩ :=
    readEntries_ahead h8 h.names h.sound h.distinct
  rw [decode, Cursor.decode_eq, read]
  simp only [Cursor.bind_apply, hreadCount,
    Cursor.seek_apply (show 8 + d.size * Entry.size ≤ bytes.size by omega),
    read_trailer hwhole hbody, Cursor.seek_apply (show 8 ≤ bytes.size by omega), hentries,
    Cursor.pure_apply]

/-- What is written as a directory is read as the same one. -/
theorem decode_bytes (h : d.Valid blockSize) (generation : UInt64) :
    decode (d.bytes generation) blockSize = .ok (d, generation) := by
  have hwhole : (d.bytes generation).data.toList
      = d.body ++ Trailer.encode d.body generation ++ [] := by
    rw [List.append_nil, toList_bytes]
  exact decode_ahead h hwhole

end Directory

end StateVault
