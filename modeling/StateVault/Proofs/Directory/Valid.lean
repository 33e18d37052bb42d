/-
  StateVault.Proofs.Directory.Valid
  ─────────────────────────────────
  **WHAT EVERY DIRECTORY OF A VAULT IS LIKE.**

  A valid directory has at most 64 entries, each under a stream name of its
  own, and each within what its blocks hold.  What is read off a medium is
  valid (`valid_of_decode`), and so is what an entry is put into or taken out
  of (`Valid.insert`, `Valid.erase`).

    • `checkNames_iff`   — the check of the names says just what it should,
    • `encode_eq_ok_iff` — a directory has bytes if its size and names are
                           right,
    • `decode_ok`        — what is read as a directory is framed as one.
-/
import StateVault.Directory
import StateVault.Proofs.Cursor.Runs

namespace StateVault.Directory

/-- At most 64 entries, with stream names, no two of them the same, and no
more bytes than their blocks hold. -/
structure Valid (blockSize : UInt32) (d : Directory) : Prop where
  count : d.size ≤ maxEntries
  names : ∀ e ∈ d.entries, Name.fault? e.name = none
  distinct : d.names.Nodup
  sound : ∀ e ∈ d.entries, e.check blockSize = .ok ()

theorem valid_empty (blockSize : UInt32) : Valid blockSize .empty where
  count := Nat.zero_le _
  names _ he := absurd he List.not_mem_nil
  distinct := List.nodup_nil
  sound _ he := absurd he List.not_mem_nil

/-! ## §1. Names and bytes. -/

/-- A name passes its check if nothing is wrong with it. -/
theorem nameCheck_iff (name : String) :
    Name.check name = .ok () ↔ Name.fault? name = none := by
  unfold Name.check
  cases Name.fault? name with
  | none => simp
  | some fault => simp

/-- The names of a directory pass if each is good, none is there twice and none
is among the earlier ones. -/
theorem checkNames_iff (earlier : List String) (entries : List Entry) :
    checkNames earlier entries = .ok ()
      ↔ (∀ e ∈ entries, Name.fault? e.name = none) ∧ (entries.map (·.name)).Nodup
        ∧ ∀ e ∈ entries, ¬ e.name ∈ earlier := by
  induction entries generalizing earlier with
  | nil => simp [checkNames]
  | cons e rest ih =>
    rw [checkNames]
    -- in the order of the checks: the name itself, then whether it came earlier
    cases hname : Name.check e.name with
    | error err =>
      have hfault : ¬ Name.fault? e.name = none := by
        rw [← nameCheck_iff, hname]
        exact fun h => nomatch h
      simp only [bind, Except.bind, List.forall_mem_cons]
      constructor
      · intro h
        cases h
      · intro h
        exact absurd h.1.1 hfault
    | ok u =>
      have hfault := (nameCheck_iff e.name).mp hname
      simp only [bind, Except.bind, List.contains_iff_mem]
      by_cases hmem : e.name ∈ earlier
      · rw [if_pos hmem]
        constructor
        · intro h
          cases h
        · intro h
          exact absurd hmem (h.2.2 e List.mem_cons_self)
      · rw [if_neg hmem]
        show checkNames (e.name :: earlier) rest = .ok () ↔ _
        rw [ih, List.forall_mem_cons, List.forall_mem_cons, List.map_cons, List.nodup_cons]
        -- new names differ from this one: said of the rest, or of the whole list
        constructor
        · intro hboth
          obtain ⟨hnames, hnodup, hnot⟩ := hboth
          refine ⟨⟨hfault, hnames⟩, ⟨?_, hnodup⟩, hmem,
            fun d hd hin => hnot d hd (List.mem_cons_of_mem _ hin)⟩
          intro hin
          obtain ⟨d, hd, hsame⟩ := List.mem_map.mp hin
          exact hnot d hd (hsame ▸ List.mem_cons_self)
        · intro hboth
          obtain ⟨⟨_, hnames⟩, ⟨hnew, hnodup⟩, _, hnot⟩ := hboth
          refine ⟨hnames, hnodup, fun d hd hin => ?_⟩
          rcases List.mem_cons.mp hin with hsame | hin
          · exact hnew (List.mem_map.mpr ⟨d, hd, hsame⟩)
          · exact hnot d hd hin

/-- The bytes of a directory, for those that have some. -/
def bytes (d : Directory) (generation : UInt64) : ByteArray :=
  (d.body ++ Trailer.encode d.body generation).toByteArray

/-- A directory has bytes exactly if it is small enough and its names pass. -/
theorem encode_eq_ok_iff (d : Directory) (generation : UInt64) (b : ByteArray) :
    d.encode generation = .ok b
      ↔ (d.size ≤ maxEntries ∧ checkNames [] d.entries = .ok ()) ∧ b = d.bytes generation := by
  unfold encode
  -- the number of entries is checked first, then the names
  by_cases hcount : maxEntries < d.size
  · rw [if_pos hcount]
    constructor
    · intro h
      cases h
    · intro h
      omega
  · rw [if_neg hcount]
    cases hnames : checkNames [] d.entries with
    | error e =>
      constructor
      · intro h
        cases h
      · intro h
        cases h.1.2
    | ok u =>
      constructor
      · intro h
        cases h
        exact ⟨⟨by omega, rfl⟩, rfl⟩
      · intro hboth
        obtain ⟨_, rfl⟩ := hboth
        rfl

/-- **A valid directory has bytes.** -/
theorem Valid.encode {blockSize : UInt32} {d : Directory} (h : d.Valid blockSize)
    (generation : UInt64) : d.encode generation = .ok (d.bytes generation) := by
  rw [encode_eq_ok_iff, checkNames_iff]
  exact ⟨⟨h.count, h.names, h.distinct, fun _ _ => List.not_mem_nil⟩, rfl⟩

/-! ## §2. Putting in and taking out. -/

/-- An entry that is found is there, and has the name. -/
theorem find?_mem {d : Directory} {name : String} {e : Entry} (h : d.find? name = some e) :
    e ∈ d.entries ∧ e.name = name := by
  have hname := List.find?_some h
  exact ⟨List.mem_of_find?_eq_some h, beq_iff_eq.mp hname⟩

theorem find?_eq_none {d : Directory} {name : String} (h : d.find? name = none) :
    ∀ e ∈ d.entries, e.name ≠ name := by
  intro e he hname
  have := List.find?_eq_none.mp h e he
  exact this (beq_iff_eq.mpr hname)

/-- An entry goes to the end when its name is new. -/
theorem insertIn_of_new {e : Entry} {entries : List Entry}
    (h : ∀ d ∈ entries, d.name ≠ e.name) : insertIn e entries = entries ++ [e] := by
  induction entries with
  | nil => rfl
  | cons d rest ih =>
    obtain ⟨hd, hrest⟩ := List.forall_mem_cons.mp h
    rw [insertIn, if_neg (fun hsame => hd (beq_iff_eq.mp hsame)), ih hrest, List.cons_append]

/-- An entry takes the place of the one of its name. -/
theorem insertIn_of_old {e old : Entry} {before after : List Entry}
    (hbefore : ∀ d ∈ before, d.name ≠ e.name) (hold : old.name = e.name) :
    insertIn e (before ++ old :: after) = before ++ e :: after := by
  induction before with
  | nil => rw [List.nil_append, insertIn, if_pos (beq_iff_eq.mpr hold), List.nil_append]
  | cons d rest ih =>
    obtain ⟨hd, hrest⟩ := List.forall_mem_cons.mp hbefore
    rw [List.cons_append, insertIn, if_neg (fun hsame => hd (beq_iff_eq.mp hsame)), ih hrest,
      List.cons_append]

/-- The place of the entry of a name. -/
theorem find?_split {d : Directory} {name : String} {e : Entry} (h : d.find? name = some e) :
    ∃ before after, d.entries = before ++ e :: after ∧ (∀ x ∈ before, x.name ≠ name)
      ∧ e.name = name := by
  obtain ⟨hname, before, after, hsplit, hbefore⟩ := List.find?_eq_some_iff_append.mp h
  refine ⟨before, after, hsplit, fun x hx hsame => ?_, beq_iff_eq.mp hname⟩
  have := hbefore x hx
  rw [hsame, BEq.rfl] at this
  cases this

/-- Names are different, so that each entry is found under its own. -/
theorem Valid.find?_of_mem {blockSize : UInt32} {d : Directory} (h : d.Valid blockSize)
    {e : Entry} (he : e ∈ d.entries) : d.find? e.name = some e := by
  obtain ⟨before, after, hsplit⟩ := List.append_of_mem he
  have hdistinct := h.distinct
  rw [Directory.names, hsplit, List.map_append, List.nodup_append] at hdistinct
  refine List.find?_eq_some_iff_append.mpr ⟨BEq.rfl, before, after, hsplit, fun x hx => ?_⟩
  have hne := hdistinct.2.2 x.name (List.mem_map.mpr ⟨x, hx, rfl⟩) e.name
    (List.mem_map.mpr ⟨e, List.mem_cons_self, rfl⟩)
  rw [beq_eq_false_iff_ne.mpr hne]
  rfl

/-- A new name goes to the end. -/
theorem entries_insert_of_new {d : Directory} {e : Entry} (h : d.find? e.name = none) :
    (d.insert e).entries = d.entries ++ [e] :=
  insertIn_of_new (find?_eq_none h)

/-- Taking a name out leaves the other entries in their order. -/
theorem entries_erase {d : Directory} {name : String} {e : Entry} {before after : List Entry}
    (hsplit : d.entries = before ++ e :: after) (hbefore : ∀ x ∈ before, x.name ≠ name)
    (hname : e.name = name) : (d.erase name).entries = before ++ after := by
  show d.entries.eraseP _ = _
  have hfirst : (e :: after).eraseP (·.name == name) = after :=
    List.eraseP_cons_of_pos (beq_iff_eq.mpr hname)
  rw [hsplit, List.eraseP_append_right _ (fun x hx hsame => hbefore x hx (beq_iff_eq.mp hsame)),
    hfirst]

variable {blockSize : UInt32} {d : Directory}

/-- **Putting an entry in** keeps a directory valid, if its name is good, there
is a place for it and it is sound. -/
theorem Valid.insert {e : Entry} (h : d.Valid blockSize) (hname : Name.fault? e.name = none)
    (hplace : d.contains e.name = true ∨ d.size < maxEntries)
    (hsound : e.check blockSize = .ok ()) : (d.insert e).Valid blockSize := by
  cases hfind : d.find? e.name with
  | none =>
    have hroom : d.size < maxEntries := by
      rcases hplace with hin | hroom
      · rw [contains, hfind] at hin
        cases hin
      · exact hroom
    have hentries := entries_insert_of_new hfind
    have hnew := find?_eq_none hfind
    constructor
    · rw [size, hentries, List.length_append]
      exact hroom
    · rw [hentries]
      exact List.forall_mem_append.mpr ⟨h.names, List.forall_mem_singleton.mpr hname⟩
    · rw [Directory.names, hentries, List.map_append, List.nodup_append]
      refine ⟨h.distinct, List.nodup_cons.mpr ⟨List.not_mem_nil, List.nodup_nil⟩, ?_⟩
      intro a ha b hb
      obtain ⟨x, hx, rfl⟩ := List.mem_map.mp ha
      rw [List.mem_singleton.mp hb]
      exact hnew x hx
    · rw [hentries]
      exact List.forall_mem_append.mpr ⟨h.sound, List.forall_mem_singleton.mpr hsound⟩
  | some old =>
    obtain ⟨before, after, hsplit, hbefore, hold⟩ := find?_split hfind
    have hentries : (d.insert e).entries = before ++ e :: after := by
      show insertIn e d.entries = _
      rw [hsplit, insertIn_of_old hbefore hold]
    -- in the place of the old entry, so the names are the same in the same order
    have hnames : (d.insert e).names = d.names := by
      rw [Directory.names, Directory.names, hentries, hsplit, List.map_append, List.map_append,
        List.map_cons, List.map_cons, hold]
    have hmem : ∀ x ∈ (d.insert e).entries, x = e ∨ x ∈ d.entries := by
      intro x hx
      rw [hentries, List.mem_append, List.mem_cons] at hx
      rw [hsplit, List.mem_append, List.mem_cons]
      rcases hx with hx | hx | hx
      · exact Or.inr (Or.inl hx)
      · exact Or.inl hx
      · exact Or.inr (Or.inr (Or.inr hx))
    constructor
    · have hlength := congrArg List.length hnames
      rw [Directory.names, Directory.names, List.length_map, List.length_map] at hlength
      rw [size, hlength]
      exact h.count
    · intro x hx
      rcases hmem x hx with rfl | hx
      · exact hname
      · exact h.names x hx
    · rw [hnames]
      exact h.distinct
    · intro x hx
      rcases hmem x hx with rfl | hx
      · exact hsound
      · exact h.sound x hx

/-- **Taking a name out** keeps a directory valid. -/
theorem Valid.erase (h : d.Valid blockSize) (name : String) :
    (d.erase name).Valid blockSize := by
  -- each part passes to a sublist
  have hsub : (d.erase name).entries.Sublist d.entries := List.eraseP_sublist
  constructor
  · exact Nat.le_trans hsub.length_le h.count
  · exact fun x hx => h.names x (hsub.subset hx)
  · exact h.distinct.sublist (hsub.map _)
  · exact fun x hx => h.sound x (hsub.subset hx)

/-! ## §3. What is read is valid. -/

/-- An entry that is read has a good name. -/
theorem name_of_read {index : Nat} {c c' : Cursor} {e : Entry}
    (h : Entry.read index c = .ok e c') : Name.fault? e.name = none := by
  unfold Entry.read at h
  obtain ⟨length, c₁, _, h⟩ := Cursor.bind_ok h
  obtain ⟨slot, c₂, _, h⟩ := Cursor.bind_ok h
  obtain ⟨name, c₃, hname, h⟩ := Cursor.bind_ok h
  obtain ⟨start, c₄, _, h⟩ := Cursor.bind_ok h
  obtain ⟨count, c₅, _, h⟩ := Cursor.bind_ok h
  obtain ⟨bytes, c₆, _, h⟩ := Cursor.bind_ok h
  obtain ⟨flags, c₇, _, h⟩ := Cursor.bind_ok h
  obtain ⟨reserved, c₈, _, h⟩ := Cursor.bind_ok h
  cases h
  -- of all these steps only the third one says something about the name
  obtain ⟨hname, _⟩ := Cursor.require_ok hname
  unfold Entry.decodeName at hname
  split at hname
  · cases hname
  · split at hname
    · cases hname
    · split at hname
      · cases hname
      · split at hname
        · cases hname
        · rename_i hfault
          cases hname
          exact hfault

/-- What holds of the entries found so far while a directory is read. -/
structure Reading (blockSize : UInt32) (found : List Entry) : Prop where
  names : ∀ e ∈ found, Name.fault? e.name = none
  distinct : (found.map (·.name)).Nodup
  sound : ∀ e ∈ found, e.check blockSize = .ok ()

theorem reading_nil (blockSize : UInt32) : Reading blockSize [] where
  names _ he := absurd he List.not_mem_nil
  distinct := List.nodup_nil
  sound _ he := absurd he List.not_mem_nil

/-- Along the reading, the entries so far are sound and their names are
different. -/
theorem reading_of_readEntries {n : Nat} {found entries : List Entry} {c c' : Cursor}
    (h : Reading blockSize found)
    (hok : readEntries blockSize found n c = .ok entries c') :
    Reading blockSize entries.reverse ∧ entries.length = found.length + n := by
  -- what is found stands in reverse; the checks hold in any order
  induction n generalizing found c with
  | zero =>
    cases hok
    rw [List.reverse_reverse, List.length_reverse]
    exact ⟨h, rfl⟩
  | succ n ih =>
    rw [readEntries] at hok
    obtain ⟨e, c₁, he, hok⟩ := Cursor.bind_ok hok
    obtain ⟨hnew, hok⟩ := Cursor.guarded_ok hok
    obtain ⟨u, c₂, hcheck, hok⟩ := Cursor.bind_ok hok
    obtain ⟨hcheck, _⟩ := Cursor.require_ok hcheck
    -- the reader refuses a name that was found before
    have hnot : ¬ e.name ∈ found.map (·.name) := by
      intro hin
      obtain ⟨x, hx, hsame⟩ := List.mem_map.mp hin
      exact hnew (List.any_eq_true.mpr ⟨x, hx, beq_iff_eq.mpr hsame⟩)
    obtain ⟨hreading, hlength⟩ := ih
      ⟨List.forall_mem_cons.mpr ⟨name_of_read he, h.names⟩,
        List.nodup_cons.mpr ⟨hnot, h.distinct⟩,
        List.forall_mem_cons.mpr ⟨hcheck, h.sound⟩⟩ hok
    rw [List.length_cons] at hlength
    exact ⟨hreading, by omega⟩

/-- The number of entries is read if the table has room for it, and no more than
is allowed. -/
theorem readCount_ok {bytes : ByteArray} {n : Nat} {c : Cursor}
    (h : readCount ⟨bytes, 0⟩ = .ok n c) :
    n ≤ maxEntries ∧ encodedSize n ≤ bytes.size ∧ Cursor.word32At bytes 0 = UInt32.ofNat n
      ∧ Cursor.word32At bytes 4 = UInt32.ofNat Entry.size ∧ c = ⟨bytes, 8⟩ := by
  unfold readCount at h
  -- two words are read, and each check that follows was passed
  obtain ⟨count, c₁, hcount, h⟩ := Cursor.bind_ok h
  obtain ⟨_, rfl, rfl⟩ := Cursor.word32_ok hcount
  obtain ⟨entrySize, c₂, hwidth, h⟩ := Cursor.bind_ok h
  obtain ⟨_, rfl, rfl⟩ := Cursor.word32_ok hwidth
  dsimp only at h
  obtain ⟨hsize, h⟩ := Cursor.guarded_ok h
  obtain ⟨hlimit, h⟩ := Cursor.guarded_ok h
  obtain ⟨c₃, c₄, hget, h⟩ := Cursor.bind_ok h
  cases hget
  obtain ⟨hpresent, h⟩ := Cursor.guarded_ok h
  cases h
  exact ⟨Nat.le_of_not_lt hlimit, Nat.le_of_not_lt hpresent, UInt32.ofNat_toNat.symm,
    UInt32.toNat_inj.mp (Decidable.of_not_not hsize), rfl⟩

theorem trailer_ok {bytes : ByteArray} {p : Nat} {generation : UInt64} {c : Cursor}
    (h : Trailer.read ⟨bytes, p⟩ = .ok generation c) :
    (Bytes.slice bytes p 8).data.toList = Trailer.magic
      ∧ Cursor.word64At bytes (p + 8) = generation
      ∧ Cursor.word32At bytes (p + 16)
          = Checksum.ofList (Bytes.slice bytes 0 (p + 16)).data.toList
      ∧ c = ⟨bytes, p + 24⟩ := by
  unfold Trailer.read at h
  -- read in order: marker, generation, checksum and a reserved word
  obtain ⟨marker, c₁, hmarker, h⟩ := Cursor.bind_ok h
  obtain ⟨_, rfl, rfl⟩ := Cursor.take_ok hmarker
  obtain ⟨hmagic, h⟩ := Cursor.guarded_ok h
  obtain ⟨g, c₂, hg, h⟩ := Cursor.bind_ok h
  obtain ⟨_, rfl, rfl⟩ := Cursor.word64_ok hg
  obtain ⟨c₃, c₄, hget, h⟩ := Cursor.bind_ok h
  cases hget
  obtain ⟨stored, c₅, hstored, h⟩ := Cursor.bind_ok h
  obtain ⟨_, rfl, rfl⟩ := Cursor.word32_ok hstored
  obtain ⟨hchecksum, h⟩ := Cursor.guarded_ok h
  obtain ⟨reserved, c₆, hreserved, h⟩ := Cursor.bind_ok h
  obtain ⟨_, _, rfl⟩ := Cursor.word32_ok hreserved
  cases h
  refine ⟨Decidable.of_not_not hmagic, rfl, ?_, rfl⟩
  -- the checksum runs over all the cursor has passed
  rw [Decidable.of_not_not hchecksum, Checksum.ofBytes_eq_ofList, Cursor.passed,
    Bytes.extract_eq_slice]

/-- Bytes with the number and the size of `n` entries at their start, and a
trailer with the right checksum behind as many. -/
structure Framed (bytes : ByteArray) (n : Nat) (generation : UInt64) : Prop where
  limit : n ≤ maxEntries
  room : encodedSize n ≤ bytes.size
  count : Cursor.word32At bytes 0 = UInt32.ofNat n
  width : Cursor.word32At bytes 4 = UInt32.ofNat Entry.size
  marker : (Bytes.slice bytes (8 + n * Entry.size) 8).data.toList = Trailer.magic
  signed : Cursor.word64At bytes (8 + n * Entry.size + 8) = generation
  checksum : Cursor.word32At bytes (8 + n * Entry.size + 16)
    = Checksum.ofList (Bytes.slice bytes 0 (8 + n * Entry.size + 16)).data.toList

/-- What is read as a directory is framed as one, and has its entries inside. -/
theorem decode_ok {bytes : ByteArray} {generation : UInt64}
    (h : decode bytes blockSize = .ok (d, generation)) :
    Framed bytes d.size generation
      ∧ ∃ c, readEntries blockSize [] d.size ⟨bytes, 8⟩ = .ok d.entries c := by
  rw [decode, Cursor.decode_eq] at h
  split at h
  · rename_i result c hread
    cases h
    unfold read at hread
    obtain ⟨count, c₁, hcount, hread⟩ := Cursor.bind_ok hread
    obtain ⟨u, c₂, hseek, hread⟩ := Cursor.bind_ok hread
    obtain ⟨g, c₃, htrailer, hread⟩ := Cursor.bind_ok hread
    obtain ⟨u', c₄, hback, hread⟩ := Cursor.bind_ok hread
    obtain ⟨entries, c₅, hentries, hread⟩ := Cursor.bind_ok hread
    cases hread
    obtain ⟨hlimit, hroom, hn, hwidth, rfl⟩ := readCount_ok hcount
    cases Cursor.seek_ok hseek
    obtain ⟨hmarker, hsigned, hchecksum, rfl⟩ := trailer_ok htrailer
    cases Cursor.seek_ok hback
    -- as many entries are found as there should be
    have hlength : entries.length = count := by
      rw [(reading_of_readEntries (reading_nil blockSize) hentries).2]
      exact Nat.zero_add count
    subst hlength
    exact ⟨⟨hlimit, hroom, hn, hwidth, hmarker, hsigned, hchecksum⟩, c, hentries⟩
  · cases h

theorem valid_of_decode {bytes : ByteArray} {generation : UInt64}
    (h : decode bytes blockSize = .ok (d, generation)) : d.Valid blockSize := by
  obtain ⟨hframed, c, hentries⟩ := decode_ok h
  obtain ⟨hreading, _⟩ := reading_of_readEntries (reading_nil blockSize) hentries
  -- to have no duplicates does not depend on the order
  have hnames := hreading.distinct
  rw [List.map_reverse] at hnames
  exact
    { count := hframed.limit
      names := fun e he => hreading.names e (List.mem_reverse.mpr he)
      distinct := (List.reverse_perm _).nodup_iff.mp hnames
      sound := fun e he => hreading.sound e (List.mem_reverse.mpr he) }

end StateVault.Directory
