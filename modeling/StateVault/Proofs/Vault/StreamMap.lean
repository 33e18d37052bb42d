/-
  StateVault.Proofs.Vault.StreamMap
  ─────────────────────────────────
  **THE STREAMS OF A VAULT ARE AN ORDERED MAP.**

  Seen through its directory, an image is a list of streams with different
  names.  A commit that puts an entry in, or takes one out, does the same to
  this list; all other streams keep their bytes, because their blocks are
  guarded.

    • `Stream.put`, `Stream.remove`   — the ordered map from names to streams,
    • `Stored.contents`, `Renewed.contents_erase`, `Passage.contents`
                                      — what the operations do to it.
-/
import StateVault.Proofs.Vault.Resized

namespace StateVault

/-! ## §1. The ordered map. -/

namespace Stream

/-- The stream in the place of the one of its name, or at the end if there is
none. -/
def put (s : Stream) (streams : List Stream) : List Stream :=
  if streams.any (·.name == s.name) then
    streams.map fun other => if other.name == s.name then s else other
  else streams ++ [s]

/-- The streams of other names, in their order. -/
def remove (name : String) (streams : List Stream) : List Stream :=
  streams.filter (·.name != name)

/-- The flags of a stream, or none if there is no such stream. -/
def flagsOf (name : String) (streams : List Stream) : Flags :=
  match streams.find? (·.name == name) with
  | some s => s.flags
  | none => Flags.none

theorem put_of_new {s : Stream} {streams : List Stream}
    (h : ∀ other ∈ streams, other.name ≠ s.name) : put s streams = streams ++ [s] := by
  unfold put
  rw [if_neg]
  rw [List.any_eq_true]
  intro hboth
  obtain ⟨other, hother, hsame⟩ := hboth
  exact h other hother (beq_iff_eq.mp hsame)

theorem map_of_other {s : Stream} {streams : List Stream}
    (h : ∀ other ∈ streams, other.name ≠ s.name) :
    streams.map (fun other => if other.name == s.name then s else other) = streams := by
  rw [List.map_congr_left (g := id), List.map_id]
  intro other hother
  rw [if_neg (fun hsame => h other hother (beq_iff_eq.mp hsame)), id]

/-- A stream of a name that occurs takes the place of the old one. -/
theorem put_of_old {s old : Stream} {before after : List Stream}
    (hbefore : ∀ other ∈ before, other.name ≠ s.name) (hold : old.name = s.name)
    (hafter : ∀ other ∈ after, other.name ≠ s.name) :
    put s (before ++ old :: after) = before ++ s :: after := by
  unfold put
  rw [if_pos, List.map_append, List.map_cons, map_of_other hbefore, map_of_other hafter,
    if_pos (beq_iff_eq.mpr hold)]
  exact List.any_eq_true.mpr ⟨old, List.mem_append_right _ List.mem_cons_self,
    beq_iff_eq.mpr hold⟩

theorem mem_put {s x : Stream} {streams : List Stream} (h : x ∈ put s streams) :
    x = s ∨ x ∈ streams := by
  unfold put at h
  split at h
  · obtain ⟨other, hother, hsame⟩ := List.mem_map.mp h
    split at hsame
    · exact Or.inl hsame.symm
    · exact Or.inr (hsame ▸ hother)
  · rw [List.mem_append, List.mem_singleton] at h
    exact h.symm

theorem mem_put_self (s : Stream) (streams : List Stream) : s ∈ put s streams := by
  unfold put
  split
  next hold =>
    obtain ⟨old, hmem, hname⟩ := List.any_eq_true.mp hold
    exact List.mem_map.mpr ⟨old, hmem, if_pos hname⟩
  next => exact List.mem_append_right _ (List.mem_singleton_self s)

theorem filter_of_other {name : String} {streams : List Stream}
    (h : ∀ other ∈ streams, other.name ≠ name) :
    streams.filter (·.name != name) = streams :=
  List.filter_eq_self.mpr fun other hother => bne_iff_ne.mpr (h other hother)

theorem remove_of_old {name : String} {old : Stream} {before after : List Stream}
    (hbefore : ∀ other ∈ before, other.name ≠ name) (hold : old.name = name)
    (hafter : ∀ other ∈ after, other.name ≠ name) :
    remove name (before ++ old :: after) = before ++ after := by
  have hrest : (old :: after).filter (·.name != name) = after := by
    rw [List.filter_cons, if_neg (fun hne => bne_iff_ne.mp hne hold), filter_of_other hafter]
  rw [remove, List.filter_append, filter_of_other hbefore, hrest]

end Stream

namespace Directory

/-- Names are different: the entries before and after one of a name have
others. -/
theorem other_names {d : Directory} {name : String} {e : Entry} {before after : List Entry}
    (hdistinct : d.names.Nodup) (hsplit : d.entries = before ++ e :: after)
    (hname : e.name = name) : ∀ x ∈ after, x.name ≠ name := by
  rw [names, hsplit, List.map_append, List.map_cons, List.nodup_append, List.nodup_cons]
    at hdistinct
  intro x hx hsame
  exact hdistinct.2.1.1 (List.mem_map.mpr ⟨x, hx, hsame.trans hname.symm⟩)

variable {d : Directory} {f : Entry → Stream}

theorem entries_insert_of_old {e old : Entry} {before after : List Entry}
    (hsplit : d.entries = before ++ old :: after) (hbefore : ∀ x ∈ before, x.name ≠ e.name)
    (hname : old.name = e.name) : (d.insert e).entries = before ++ e :: after := by
  show insertIn e d.entries = _
  rw [hsplit, insertIn_of_old hbefore hname]

/-- **A directory is an ordered map**: an entry that is inserted is put. -/
theorem map_insert (hf : ∀ e, (f e).name = e.name) (hdistinct : d.names.Nodup) (e : Entry) :
    (d.insert e).entries.map f = Stream.put (f e) (d.entries.map f) := by
  -- streams have the names of their entries
  have hnames : ∀ entries : List Entry, (∀ x ∈ entries, x.name ≠ e.name) →
      ∀ s ∈ entries.map f, s.name ≠ (f e).name := by
    intro entries h s hs
    obtain ⟨x, hx, rfl⟩ := List.mem_map.mp hs
    rw [hf, hf]
    exact h x hx
  cases hfind : d.find? e.name with
  | none =>
    rw [entries_insert_of_new hfind, List.map_append,
      Stream.put_of_new (hnames _ (find?_eq_none hfind))]
    rfl
  | some old =>
    obtain ⟨before, after, hsplit, hbefore, hname⟩ := find?_split hfind
    have hafter := other_names hdistinct hsplit hname
    rw [entries_insert_of_old hsplit hbefore hname, hsplit, List.map_append, List.map_append,
      List.map_cons, List.map_cons,
      Stream.put_of_old (hnames _ hbefore) (by rw [hf, hf, hname]) (hnames _ hafter)]

/-- An entry that is erased from a directory is removed from the ordered map. -/
theorem map_erase (hf : ∀ e, (f e).name = e.name) (hdistinct : d.names.Nodup) (name : String) :
    (d.erase name).entries.map f = Stream.remove name (d.entries.map f) := by
  have hnames : ∀ entries : List Entry, (∀ x ∈ entries, x.name ≠ name) →
      ∀ s ∈ entries.map f, s.name ≠ name := by
    intro entries h s hs
    obtain ⟨x, hx, rfl⟩ := List.mem_map.mp hs
    rw [hf]
    exact h x hx
  cases hfind : d.find? name with
  | none =>
    -- without an entry of the name nothing goes on either side
    have hother := find?_eq_none hfind
    have herase : (d.erase name).entries = d.entries :=
      List.eraseP_of_forall_not fun x hx hsame => hother x hx (beq_iff_eq.mp hsame)
    rw [herase, Stream.remove, Stream.filter_of_other (hnames _ hother)]
  | some old =>
    obtain ⟨before, after, hsplit, hbefore, hname⟩ := find?_split hfind
    have hafter := other_names hdistinct hsplit hname
    rw [entries_erase hsplit hbefore hname, hsplit, List.map_append, List.map_append,
      List.map_cons, Stream.remove_of_old (hnames _ hbefore) (by rw [hf, hname])
        (hnames _ hafter)]

theorem mem_insert {e x : Entry} (h : x ∈ (d.insert e).entries) : x = e ∨ x ∈ d.entries := by
  cases hfind : d.find? e.name with
  | none =>
    rw [entries_insert_of_new hfind, List.mem_append, List.mem_singleton] at h
    exact h.symm
  | some old =>
    obtain ⟨before, after, hsplit, hbefore, hname⟩ := find?_split hfind
    rw [entries_insert_of_old hsplit hbefore hname, List.mem_append, List.mem_cons] at h
    rw [hsplit, List.mem_append, List.mem_cons]
    rcases h with h | h | h
    · exact Or.inr (Or.inl h)
    · exact Or.inl h
    · exact Or.inr (Or.inr (Or.inr h))

theorem mem_insert_self (d : Directory) (e : Entry) : e ∈ (d.insert e).entries := by
  cases hfind : d.find? e.name with
  | none =>
    rw [entries_insert_of_new hfind]
    exact List.mem_append_right _ List.mem_cons_self
  | some old =>
    obtain ⟨before, after, hsplit, hbefore, hname⟩ := find?_split hfind
    rw [entries_insert_of_old hsplit hbefore hname]
    exact List.mem_append_right _ List.mem_cons_self

end Directory

namespace Vault

variable {F : Failures} {I : Watched → Prop} {safe : Prop}

/-! ## §2. What commits do to it. -/

/-- What it takes for an image to serve the streams of an open vault. -/
structure Live (v : Vault) (image : Image) : Prop where
  sound : v.Sound
  addressable : v.Addressable
  region : regionSize ≤ image.size
  inBounds : v.InBounds image

/-- An image holds all bytes of a stream. -/
theorem Live.size_streamIn {v : Vault} {image : Image} (h : v.Live image) {e : Entry}
    (he : e ∈ v.streams) : (v.streamIn image e).bytes.size = e.length.toNat := by
  have hcheck := h.sound.valid.sound e he
  refine Bytes.size_slice_eq_iff.mpr ?_
  by_cases hempty : e.extent.count.toNat = 0
  · exact Or.inl (length_eq_zero hcheck hempty)
  · have hlength : e.length.toNat ≤ e.extent.count.toNat * v.width := length_le_capacity hcheck
    have hbounds := h.inBounds e he hempty
    rw [Nat.add_mul] at hbounds
    exact Or.inr (by omega)

/-- The names of the contents are those of the directory. -/
theorem names_contents (v : Vault) (image : Image) :
    (v.contents image).map (·.name) = v.directory.names := by
  unfold contents Directory.names
  rw [List.map_map]
  rfl

theorem Live.of_alike {v w : Vault} {image : Image} (h : v.Live image) (halike : v.Alike w)
    (hsound : w.Sound) (haddress : w.Addressable) : w.Live image where
  sound := hsound
  addressable := haddress
  region := h.region
  inBounds := by
    intro e he hne
    unfold streams at he
    rw [halike.directory] at he
    have hbounds := h.inBounds e he hne
    unfold width at hbounds ⊢
    rw [halike.superblock]
    exact hbounds

/-- An undecided image serves the same streams. -/
theorem Live.of_undecided {v : Vault} {t t' : Watched} (h : v.Live t.image)
    (hundecided : Undecided F safe v t t') :
    v.Live t'.image ∧ v.contents t'.image = v.contents t.image := by
  obtain ⟨hcontents, hbounds⟩ :=
    contents_of_keeps h.sound.held h.sound.valid h.inBounds hundecided.kept
  exact ⟨⟨h.sound, h.addressable, region_of_keeps h.sound.held h.region hundecided.kept,
    hbounds⟩, hcontents⟩

section Renewals

variable {v w : Vault} {t t' : Watched} {d : Directory}

theorem Renewed.width (hr : Renewed F v t d w t') : w.width = v.width := by
  unfold Vault.width
  rw [hr.follows.blockSize]

/-- The old streams in the image after a commit. -/
theorem Renewed.old_streams (h : v.Live t.image) (hr : Renewed F v t d w t') :
    v.streams.map (w.streamIn t'.image) = v.contents t.image
      ∧ ∀ e ∈ v.streams, e.extent.count.toNat ≠ 0 →
          (e.extent.start.toNat + e.extent.count.toNat) * w.width ≤ t'.image.size := by
  obtain ⟨hcontents, hbounds⟩ :=
    contents_of_keeps h.sound.held h.sound.valid h.inBounds hr.decided.kept
  have hsame : w.streamIn t'.image = v.streamIn t'.image := by
    funext e
    unfold streamIn
    rw [hr.width]
  rw [hsame, hr.width]
  exact ⟨hcontents, hbounds⟩

/-- Serving after a commit, as soon as all its streams are there. -/
theorem Renewed.live (h : v.Live t.image) (hr : Renewed F v t d w t')
    (hbounds : w.InBounds t'.image) : w.Live t'.image :=
  ⟨hr.sound, hr.decided.addressable h.addressable,
    region_of_keeps h.sound.held h.region hr.decided.kept, hbounds⟩

/-- A commit of the same directory keeps the streams. -/
theorem Renewed.contents_same (h : v.Live t.image) (hr : Renewed F v t v.directory w t') :
    w.Live t'.image ∧ w.contents t'.image = v.contents t.image := by
  obtain ⟨hcontents, hbounds⟩ := hr.old_streams h
  have hstreams : w.streams = v.streams := congrArg Directory.entries hr.follows.directory
  constructor
  · refine hr.live h fun e he => ?_
    rw [hstreams] at he
    exact hbounds e he
  · rw [contents, hstreams]
    exact hcontents

/-- A commit without an entry removes its stream. -/
theorem Renewed.contents_erase {name : String} (h : v.Live t.image)
    (hr : Renewed F v t (v.directory.erase name) w t') :
    w.Live t'.image ∧ w.contents t'.image = Stream.remove name (v.contents t.image) := by
  obtain ⟨hcontents, hbounds⟩ := hr.old_streams h
  have hstreams : w.streams = (v.directory.erase name).entries :=
    congrArg Directory.entries hr.follows.directory
  constructor
  · refine hr.live h fun e he => ?_
    rw [hstreams] at he
    exact hbounds e (List.eraseP_sublist.subset he)
  · rw [contents, hstreams, Directory.map_erase (fun _ => rfl) h.sound.valid.distinct]
    exact congrArg _ hcontents

/-- The stream of the entry that was written is the one that was to be. -/
theorem Stored.streamIn {name : String} {data : ByteArray} {flags : Flags} {e : Entry}
    (hdata : data.size < UInt64.size) (h : v.Live t.image)
    (hr : Stored F v t name data flags e w t') :
    w.streamIn t'.image e = ⟨name, flags, UInt64.ofNat data.size, data⟩ := by
  have hbytes := hr.bytes.bytes (hr.entry.enough h.sound.held.blockSize hdata)
  unfold Vault.streamIn
  rw [hr.entry.name, hr.entry.flags, hr.entry.length, hr.toRenewed.width,
    UInt64.toNat_ofNat', Nat.mod_eq_of_lt hdata, hbytes]

/-- A commit with a stored entry puts its stream. -/
theorem Stored.contents {name : String} {data : ByteArray} {flags : Flags} {e : Entry}
    (hdata : data.size < UInt64.size) (h : v.Live t.image)
    (hr : Stored F v t name data flags e w t') :
    w.Live t'.image ∧ w.contents t'.image
      = Stream.put ⟨name, flags, UInt64.ofNat data.size, data⟩ (v.contents t.image) := by
  obtain ⟨hcontents, hbounds⟩ := hr.toRenewed.old_streams h
  have hstreams : w.streams = (v.directory.insert e).entries :=
    congrArg Directory.entries hr.follows.directory
  constructor
  · refine hr.toRenewed.live h fun x hx => ?_
    rw [hstreams] at hx
    -- the new stream lies in its blocks, the others where they were
    rcases Directory.mem_insert hx with rfl | hx
    · rw [hr.toRenewed.width]
      exact hr.inBounds
    · exact hbounds x hx
  · rw [Vault.contents, hstreams, Directory.map_insert (fun _ => rfl) h.sound.valid.distinct,
      hr.streamIn hdata h]
    exact congrArg _ hcontents

/-- A row of commits keeps the streams. -/
theorem Passage.contents (h : v.Live t.image) (hpassage : Passage F v t w t') :
    w.Live t'.image ∧ w.contents t'.image = v.contents t.image := by
  induction hpassage with
  | start => exact ⟨h, rfl⟩
  | renewed _ hr ih =>
    obtain ⟨hlive, hcontents⟩ := ih
    obtain ⟨hlive', hcontents'⟩ := hr.contents_same hlive
    exact ⟨hlive', hcontents'.trans hcontents⟩

/-- All that comes of a resize keeps the streams. -/
theorem Turnout.contents (h : v.Live t.image) (hsound : w.Sound)
    (hturnout : Turnout F safe v t w t') :
    w.Live t'.image ∧ w.contents t'.image = v.contents t.image := by
  obtain ⟨⟨x, t₁, hpassage, hundecided, halike⟩, haddress, _⟩ := hturnout
  obtain ⟨hlive, hcontents⟩ := hpassage.contents h
  obtain ⟨hlive', hcontents'⟩ := hlive.of_undecided hundecided
  exact ⟨hlive'.of_alike halike hsound haddress,
    (contents_congr halike.superblock halike.directory _).trans (hcontents'.trans hcontents)⟩

end Renewals

theorem flagsOf_contents (v : Vault) (image : Image) (name : String) :
    Stream.flagsOf name (v.contents image) = match v.directory.find? name with
      | some e => e.flags
      | none => Flags.none := by
  have hfind : (v.contents image).find? (·.name == name)
      = (v.directory.find? name).map (v.streamIn image) :=
    List.find?_map
  unfold Stream.flagsOf
  rw [hfind]
  cases v.directory.find? name with
  | none => rfl
  | some e => rfl

/-- A write keeps the flags that the image shows for the stream. -/
theorem write_eq (name : String) (data : ByteArray) (v : Vault) (image : Image) :
    write name data v = writeWith name data (Stream.flagsOf name (v.contents image)) v := by
  have hvault : ∀ f : Vault → Action Unit, (Action.vault >>= f) v = f v v := fun _ => rfl
  rw [write, hvault]
  exact congrArg (fun flags => writeWith name data flags v) (flagsOf_contents v image name).symm

end Vault

end StateVault
