/-
  StateVault.Proofs.Vault.Renewal
  ───────────────────────────────
  **A STREAM IS WRITTEN OR DELETED BY ONE COMMIT, OR NOT AT ALL.**

  From the allocation of its blocks to the record of its commit, the write of
  a stream leaves the image undecided.  After the record the image holds the
  new vault, and in it the bytes of the stream (`Stored`).  Deleting is a
  commit alone (`Renewed`).

    • `Undecided.trans`, `Decided.after` — one stretch after another,
    • `writeWith_ensures`, `delete_ensures` — the operations, call by call.
-/
import StateVault.Proofs.Vault.Recorded

namespace StateVault.Vault

variable {F : Failures} {I : Watched → Prop} {safe : Prop}

/-! ## §1. One stretch after another. -/

/-- Growth never comes to less than what is committed. -/
theorem safeGrowth_of_committed {v : Vault}
    (h : v.superblock.totalBlocks.toNat ≤ v.blocks.total.toNat) (needed : UInt64) :
    v.SafeGrowth needed := by
  intro e hfit hgrow
  have hne : needed ≠ 0 := by
    intro hsame
    subst hsame
    cases hfit
  have hlt := lt_grownTotal hne hgrow
  rw [UInt64.lt_iff_toNat_lt] at hlt
  omega

/-- A vault with more owners guards no less. -/
theorem Held.guards_of_subset {v w : Vault} {others others' : List Extent} (h : v.Held others)
    (h' : w.Held others') (hsuperblock : w.superblock = v.superblock) (hslot : w.slot = v.slot)
    (hsub : ∀ e ∈ others, e ∈ others') {p : Nat} (hp : v.Guards p) : w.Guards p := by
  obtain ⟨hused, hspare⟩ := hp
  have hwidth : w.width = v.width := width_congr hsuperblock
  constructor
  · rw [hwidth]
    obtain ⟨e, he, hblock⟩ := (h.owns.used _).mp hused
    refine h'.owns.isUsed_of_mem ?_ hblock
    rw [hsuperblock]
    -- the owners of the one are among those of the other
    rcases List.mem_cons.mp he with rfl | he
    · exact List.mem_cons_self
    · rcases List.mem_cons.mp he with rfl | he
      · exact List.mem_cons_of_mem _ List.mem_cons_self
      · exact List.mem_cons_of_mem _ (List.mem_cons_of_mem _ (hsub e he))
  · unfold InSpare at hspare ⊢
    rw [hslot]
    exact hspare

/-- Two undecided stretches in a row; the vault of the second one has the same
superblock and guards no less. -/
theorem Undecided.trans {v w : Vault} {t t₁ t' : Watched} (h : Undecided F safe v t t₁)
    (hsuperblock : w.superblock = v.superblock) (hslot : w.slot = v.slot)
    (hguards : ∀ p, v.Guards p → w.Guards p) (h' : Undecided F safe w t₁ t') :
    Undecided F safe v t t' where
  kept := h.kept.trans (h'.kept.mono hguards)
  torn hsync := by
    obtain ⟨hrecords, htorn⟩ := h.torn hsync
    obtain ⟨hrecords', htorn'⟩ := h'.torn hsync
    have hspare : ∀ image, w.spare image = v.spare image := fun image => by
      rw [spare, hslot, spare]
    rw [hspare, hspare] at htorn'
    exact ⟨hrecords'.trans hrecords, htorn.trans htorn'⟩
  covers hs hcovers := (h'.covers hs ((h.covers hs hcovers).congr hsuperblock rfl)).congr
    hsuperblock.symm rfl

theorem Undecided.weaken {safe' : Prop} {v : Vault} {t t' : Watched}
    (h : Undecided F safe v t t') (himp : safe' → safe) : Undecided F safe' v t t' where
  kept := h.kept
  torn := h.torn
  covers hs := h.covers (himp hs)

/-- An undecided stretch, and then a record. -/
theorem Decided.after {v w x : Vault} {t t₁ t' : Watched} (hd : Decided F w t₁ x t')
    (h : Undecided F safe v t t₁) (hguards : ∀ p, v.Guards p → w.Guards p)
    (hroom : v.Room t.image → w.Room t₁.image) (haddress : v.Addressable → w.Addressable) :
    Decided F v t x t' where
  kept := h.kept.trans (hd.kept.mono hguards)
  records hsync := by rw [hd.records hsync, (h.torn hsync).1]
  record := hd.record
  blocks := hd.blocks
  directory := hd.directory
  room hr := hd.room (hroom hr)
  addressable ha := hd.addressable (haddress ha)

/-- The blocks that are given back after a record change nothing about it. -/
theorem Decided.of_keeps {v w x : Vault} {t t' : Watched} (h : Decided F v t w t')
    (hkeeps : w.Keeps x) (htotal : x.blocks.total = w.blocks.total) : Decided F v t x t' where
  kept := h.kept
  records := h.records
  record := by
    rw [hkeeps.slot, hkeeps.superblock]
    exact h.record
  blocks := by
    rw [directoryBlocks, hkeeps.directory, hkeeps.superblock]
    exact h.blocks
  directory := by
    rw [generation, Holds, width, hkeeps.directory, hkeeps.superblock]
    exact h.directory
  room hr := (h.room hr).congr (width_congr hkeeps.superblock) htotal rfl
  addressable ha := (h.addressable ha).congr (width_congr hkeeps.superblock) htotal

/-- The sound vault `w` has come in the place of `v` by a commit of the
directory `d`. -/
structure Renewed (F : Failures) (v : Vault) (t : Watched) (d : Directory) (w : Vault)
    (t' : Watched) : Prop where
  sound : w.Sound
  follows : v.Follows d w
  decided : Decided F v t w t'

/-- The image after a commit records the new vault, if the superblock of the
old one stood in its place. -/
theorem Renewed.recorded {v w : Vault} {t t' : Watched} {d : Directory}
    (hr : Renewed F v t d w t') (hs : v.Sound) (hanchored : v.Anchored t.image) :
    w.Recorded t'.image :=
  recorded_of_decided hs.held hanchored.region hr.follows hr.decided
    (hanchored.stale hs.held.version hr.follows)

/-! ## §2. Deleting. -/

/-- What an operation of one commit ensures. -/
def Replaced (F : Failures) (v : Vault) (t : Watched) (d : Directory) :
    Except Error Unit × Vault → Watched → Prop
  | (.ok _, w), t' => Renewed F v t d w t'
  | (.error _, w), t' => Undecided F True v t t' ∧ v.Sized t.image w t'.image

theorem sized_refl (v : Vault) (image : Image) : v.Sized image v image :=
  ⟨id, id, fun _ => ⟨rfl, rfl⟩⟩

/-- **Deleting a stream is one commit**, or decides nothing. -/
theorem delete_ensures {v : Vault} {t : Watched} (h : v.Sound) (haddress : v.Addressable)
    (hregion : regionSize ≤ t.image.size) (name : String)
    (hI : ∀ t', Undecided F True v t t' → I t')
    (hI' : ∀ w t', Renewed F v t (v.directory.erase name) w t' → I t') :
    (delete name v).Ensures F I t (Replaced F v t (v.directory.erase name)) := by
  unfold delete
  rw [Action.ensures_vault, Action.ensures_bind]
  unfold entry
  cases hfind : v.directory.find? name with
  | none => exact ⟨undecided_refl v t, sized_refl v t.image⟩
  | some e =>
    have hheld : v.Held (e.extent :: streamExtents (v.directory.erase name)) :=
      h.held.perm (streamExtents_erase hfind)
    -- after the commit the blocks of the stream are given back
    have hrenewed : ∀ w t', v.Advanced (v.directory.erase name) w →
        w.Held (e.extent :: streamExtents (v.directory.erase name)) → Decided F v t w t' →
        Renewed F v t (v.directory.erase name) (released e.extent w) t' := by
      intro w t' hadvanced hwheld hdecided
      obtain ⟨hreleased, hkept, htotal⟩ := hwheld.released
      exact ⟨hadvanced.sound hkept htotal hreleased (h.valid.erase name),
        hadvanced.toFollows.of_alike (Alike.refl v) hkept.alike, hdecided.of_keeps hkept htotal⟩
    have hcommit := commit_ensures (F := F) (I := I) True hheld haddress hregion
      (fun _ => safeGrowth_of_committed h.committed _) hI
      fun w t' hadvanced hwheld hdecided _ => hI' _ t' (hrenewed w t' hadvanced hwheld hdecided)
    show Script.Ensures F I (((commit (v.directory.erase name) >>= _) : Action Unit) v) t _
    rw [Action.ensures_bind]
    refine (hcommit.and_yields (commit_yields hheld _)).mono ?_
    intro outcome t' hend
    obtain ⟨result, w⟩ := outcome
    obtain ⟨hsettled, hcommitted⟩ := hend
    cases result with
    | error err => exact hsettled
    | ok u => exact hrenewed w t' hcommitted.1 hcommitted.2 hsettled.1

/-! ## §3. Writing. -/

/-- The vault `w` has the stream in it, and the image its bytes. -/
structure Stored (F : Failures) (v : Vault) (t : Watched) (name : String) (data : ByteArray)
    (flags : Flags) (e : Entry) (w : Vault) (t' : Watched) : Prop
    extends Renewed F v t (v.directory.insert e) w t' where
  entry : EntryOf v.superblock.blockSize name data flags e
  bytes : v.Holds t'.image e.extent data
  inBounds : e.extent.count.toNat ≠ 0 →
    (e.extent.start.toNat + e.extent.count.toNat) * v.width ≤ t'.image.size

/-- What the write of a stream ensures. -/
def Delivered (F : Failures) (v : Vault) (t : Watched) (name : String) (data : ByteArray)
    (flags : Flags) : Except Error Unit × Vault → Watched → Prop
  | (.ok _, w), t' => ∃ e, Stored F v t name data flags e w t'
  | (.error _, w), t' => Undecided F True v t t' ∧ v.Sized t.image w t'.image

/-- Bytes in the extent of an owner stay, whatever becomes of the rest. -/
theorem Held.holds_of_keeps {v : Vault} {others : List Extent} (h : v.Held others) {e : Extent}
    (he : e ∈ v.superblock.directory :: others) {data : ByteArray} {image image' : Image}
    (hbytes : v.Holds image e data)
    (hbounds : (e.start.toNat + e.count.toNat) * v.width ≤ image.size)
    (hne : e.count.toNat ≠ 0) (hkept : Bytes.Keeps v.Guards image image') :
    v.Holds image' e data ∧ (e.start.toNat + e.count.toNat) * v.width ≤ image'.size := by
  have hwidth := h.width_bounds
  have hsum := Nat.add_mul e.start.toNat e.count.toNat v.width
  have hpos : 0 < e.count.toNat * v.width := Nat.mul_pos (by omega) (by omega)
  have hguards : ∀ p, v.InExtent e p → v.Guards p := fun p hp =>
    h.guards_extent he hp
  constructor
  · rw [Holds, hkept.slice (by omega) fun p hlow hhigh => hguards p ⟨hlow, by omega⟩]
    exact hbytes
  · have hlast := hkept.lt_size (hguards ((e.start.toNat + e.count.toNat) * v.width - 1)
      ⟨by omega, by omega⟩) (by omega)
    omega

/-- The vault `w` is `v` with blocks allotted to the entry `e` for a stream,
nothing being written yet. -/
structure Allotted (v : Vault) (t : Watched) (name : String) (data : ByteArray) (flags : Flags)
    (e : Entry) (w : Vault) (t₁ : Watched) : Prop where
  keeps : v.Keeps w
  held : w.Held (e.extent :: streamExtents v.directory)
  stretched : v.Stretched (blocksToHold (UInt64.ofNat data.size) v.blockSize) t.image w t₁.image
  records : t₁.records = t.records
  entry : EntryOf v.superblock.blockSize name data flags e
  valid : (v.directory.insert e).Valid v.superblock.blockSize

namespace Allotted

variable {v w : Vault} {t t₁ : Watched} {name : String} {data : ByteArray} {flags : Flags}
  {e : Entry}

theorem width (ha : Allotted v t name data flags e w t₁) : w.width = v.width :=
  width_congr ha.keeps.superblock

theorem guards (ha : Allotted v t name data flags e w t₁) (h : v.Sound) {p : Nat}
    (hp : v.Guards p) : w.Guards p :=
  h.held.guards_of_subset ha.held ha.keeps.superblock ha.keeps.slot
    (fun _ he => List.mem_cons_of_mem _ he) hp

theorem region (ha : Allotted v t name data flags e w t₁) (h : v.Sound)
    (hregion : regionSize ≤ t.image.size) : regionSize ≤ t₁.image.size :=
  region_of_keeps h.held hregion (ha.stretched.kept.mono fun _ hp => h.held.lt_of_guards hp)

/-- The blocks hold the bytes. -/
theorem enough (ha : Allotted v t name data flags e w t₁) (h : v.Sound)
    (hdata : data.size < UInt64.size) : data.size ≤ e.extent.count.toNat * w.width := by
  rw [ha.width]
  exact ha.entry.enough h.held.blockSize hdata

/-- Filling the blocks decides nothing. -/
theorem undecided (ha : Allotted v t name data flags e w t₁) (h : v.Sound)
    (hregion : regionSize ≤ t.image.size) {t' : Watched}
    (hfilled : w.Filled e.extent t₁.image t'.image) (hsame : t'.records = t₁.records) :
    Undecided F True v t t' := by
  have howns := ha.held.owns
  rw [ha.keeps.superblock] at howns
  exact undecided_of_unwritten h.held ha.keeps (howns.perm (perm_third _ _ e.extent _)) t' hregion
    (fun _ => safeGrowth_of_committed h.committed _) ha.stretched ha.records
    (unwritten_of_filled ha.held List.mem_cons_self (ha.region h hregion) hfilled hsame)

/-- After the commit the stream is stored.  Its bytes were written before, in
blocks that the commit guards like those of all other streams. -/
theorem stored (ha : Allotted v t name data flags e w t₁) (h : v.Sound)
    (hdata : data.size < UInt64.size) {t₂ t' : Watched} (hundecided : Undecided F True v t t₂)
    (hsized : v.Sized t.image w t₂.image)
    (hfilled : e.extent.count.toNat ≠ 0 → w.Holds t₂.image e.extent data
        ∧ (e.extent.start.toNat + e.extent.count.toNat) * w.width ≤ t₂.image.size)
    {x : Vault} (hadvanced : w.Advanced (v.directory.insert e) x)
    (hheld : x.Held (e.extent :: streamExtents v.directory)) (hdecided : Decided F w t₂ x t') :
    Stored F v t name data flags e (withoutOld v.directory e.name x) t' := by
  have hvalid := ha.valid
  rw [← ha.keeps.superblock] at hvalid
  obtain ⟨hsound, hkept, htotal⟩ := sound_of_insert hadvanced hheld hvalid
  have hafter := (hdecided.after hundecided (fun _ hp => ha.guards h hp) hsized.room
    hsized.addressable).of_keeps hkept htotal
  have hrenewed : Renewed F v t (v.directory.insert e) (withoutOld v.directory e.name x) t' :=
    ⟨hsound, hadvanced.toFollows.of_alike ha.keeps.alike hkept.alike, hafter⟩
  have henough := ha.enough h hdata
  by_cases hempty : e.extent.count.toNat = 0
  · -- without blocks there are no bytes
    have hnone : data.size = 0 := by
      rw [hempty, Nat.zero_mul] at henough
      omega
    refine ⟨hrenewed, ha.entry, ?_, fun hne => absurd hempty hne⟩
    rw [ByteArray.size_eq_zero_iff.mp hnone]
    exact holds_nothing hempty
  · obtain ⟨hbytes, hbounds⟩ := hfilled hempty
    -- the bytes are guarded by now, so the commit keeps them
    obtain ⟨hbytes', hbounds'⟩ := ha.held.holds_of_keeps
      (List.mem_cons_of_mem _ List.mem_cons_self) hbytes hbounds hempty hdecided.kept
    rw [ha.width] at hbounds'
    rw [Holds, ha.width] at hbytes'
    exact ⟨hrenewed, ha.entry, hbytes', fun _ => hbounds'⟩

end Allotted

/-- An allocation for the bytes of a stream allots its blocks. -/
theorem allotted_of_allocated {v w : Vault} {t t₁ : Watched} {name : String} {data : ByteArray}
    {extent : Extent} (h : v.Sound) (hplace : checkPlace v.directory name = .ok ())
    (halloc : v.Allocated v.owners
      (blocksToHold (UInt64.ofNat data.size) v.superblock.blockSize) (.ok extent, w))
    (hstretched : v.Stretched (blocksToHold (UInt64.ofNat data.size) v.blockSize) t.image w
      t₁.image) (hrecords : t₁.records = t.records) (flags : Flags) :
    Allotted v t name data flags ⟨name, extent, UInt64.ofNat data.size, flags⟩ w t₁ := by
  obtain ⟨hname, hplaces⟩ := checkPlace_ok hplace
  obtain ⟨hkeeps, howns, hcount, _⟩ := halloc
  have hheld : w.Held (extent :: streamExtents v.directory) := h.held.of_taken hkeeps howns
  exact ⟨hkeeps, hheld, hstretched, hrecords, ⟨rfl, rfl, rfl, hcount⟩,
    h.valid.insert hname hplaces (check_of_allocated h.held.blockSize hcount)⟩

/-- The bytes go into blocks that were free, then their commit decides. -/
theorem store_ensures {v w : Vault} {t t₁ : Watched} {name : String} {data : ByteArray}
    {flags : Flags} {e : Entry} (ha : Allotted v t name data flags e w t₁) (h : v.Sound)
    (haddress : v.Addressable) (hregion : regionSize ≤ t.image.size)
    (hdata : data.size < UInt64.size) (hI : ∀ t', Undecided F True v t t' → I t')
    (hI' : ∀ x t', Stored F v t name data flags e x t' → I t') :
    (store v.directory e data w).Ensures F I t₁ (Delivered F v t name data flags) := by
  have hwide := ha.stretched.addressable haddress
  have hcommitted : w.superblock.totalBlocks.toNat ≤ w.blocks.total.toNat := by
    rw [ha.keeps.superblock]
    exact Nat.le_trans h.committed ha.keeps.total
  -- whatever fails from here on, the new blocks are given back
  have hfailed : ∀ (x : Vault) (t' : Watched), Undecided F True v t t' →
      x.Held (e.extent :: streamExtents v.directory) → v.Sized t.image x t'.image →
      Undecided F True v t t' ∧ v.Sized t.image (released e.extent x) t'.image := by
    intro x t' hundecided hxheld hsized
    obtain ⟨_, hkept, htotal⟩ := hxheld.released
    exact ⟨hundecided, hsized.of_same hkept htotal rfl⟩
  unfold store
  rw [Action.ensures_bind, Action.ensures_onError, Action.ensures_bind]
  have hfill := fill_ensures (F := F) (I := I) (t := t₁) ha.held List.mem_cons_self hwide
    (ha.enough h hdata) fun image hfilled => hI ⟨image, t₁.records⟩
      (ha.undecided h hregion hfilled rfl)
  refine (hfill.and_yields (fill_yields e.extent data w)).mono ?_
  intro outcome t₂ hfilled
  obtain ⟨result, x⟩ := outcome
  obtain ⟨⟨hrecords, hfilled, hdone⟩, hsame⟩ := hfilled
  cases hsame
  have hundecided₂ : Undecided F True v t t₂ := ha.undecided h hregion hfilled hrecords
  have hsized₂ : v.Sized t.image x t₂.image :=
    ha.stretched.sized.of_same (Keeps.refl x) rfl hfilled.size
  cases result with
  | error err => exact hfailed x t₂ hundecided₂ ha.held hsized₂
  | ok u =>
    have hregion₂ : regionSize ≤ t₂.image.size := by
      rw [hfilled.size]
      exact ha.region h hregion
    have hafter : ∀ t', Undecided F True x t₂ t' → Undecided F True v t t' := fun t' =>
      hundecided₂.trans ha.keeps.superblock ha.keeps.slot fun _ hp => ha.guards h hp
    have hstored : ∀ y t', x.Advanced (v.directory.insert e) y →
        y.Held (e.extent :: streamExtents v.directory) → Decided F x t₂ y t' →
        Stored F v t name data flags e (withoutOld v.directory e.name y) t' :=
      fun _ _ => ha.stored h hdata hundecided₂ hsized₂ (hdone rfl)
    have hcommit := commit_ensures (F := F) (I := I) (d := v.directory.insert e) True ha.held hwide
      hregion₂ (fun _ => safeGrowth_of_committed hcommitted _)
      (fun t' hundecided => hI t' (hafter t' hundecided))
      fun y t' hadvanced hyheld hdecided _ => hI' _ t' (hstored y t' hadvanced hyheld hdecided)
    refine (hcommit.and_yields (commit_yields ha.held _)).mono ?_
    intro outcome t' hsettled
    obtain ⟨result, y⟩ := outcome
    obtain ⟨hsettled, hcommitted⟩ := hsettled
    cases result with
    | error err =>
      exact hfailed y t' (hafter t' hsettled.1) hcommitted.2
        (hsized₂.trans ha.keeps.settings hsettled.2)
    | ok u => exact ⟨e, hstored y t' hcommitted.1 hcommitted.2 hsettled.1⟩

/-- **Writing a stream is one commit**, with the bytes in the image by then, or
decides nothing. -/
theorem writeWith_ensures {v : Vault} {t : Watched} (h : v.Sound) (haddress : v.Addressable)
    (hregion : regionSize ≤ t.image.size) (name : String) {data : ByteArray}
    (hdata : data.size < UInt64.size) (flags : Flags)
    (hI : ∀ t', Undecided F True v t t' → I t')
    (hI' : ∀ e w t', Stored F v t name data flags e w t' → I t') :
    (writeWith name data flags v).Ensures F I t (Delivered F v t name data flags) := by
  have hsafe : True → v.SafeGrowth (blocksToHold (UInt64.ofNat data.size) v.blockSize) :=
    fun _ => safeGrowth_of_committed h.committed _
  rw [writeWith_eq, Action.ensures_vault, Action.ensures_bind]
  cases hplace : checkPlace v.directory name with
  | error err => exact ⟨undecided_refl v t, sized_refl v t.image⟩
  | ok u =>
    show Script.Ensures F I (((allocate data.size >>= _) : Action Unit) v) t _
    rw [Action.ensures_bind]
    -- growing for the stream decides nothing
    have hgrow : (allocate data.size v).Ensures F I t _ :=
      allocateGrowing_ensures (hI t (undecided_refl v t)) fun w image _ hstretched =>
        hI _ (undecided_of_stretched True h.held hregion hsafe hstretched)
    refine (hgrow.and_yields (allocate_yields h.held data.size)).mono ?_
    intro outcome t₁ hallocated
    obtain ⟨result, w⟩ := outcome
    obtain ⟨⟨hrecords, hstretched⟩, halloc⟩ := hallocated
    cases result with
    | error err =>
      have hundecided := undecided_of_stretched (F := F) True h.held hregion hsafe hstretched
      rw [← hrecords] at hundecided
      exact ⟨hundecided, hstretched.sized⟩
    | ok extent =>
      exact store_ensures (allotted_of_allocated h hplace halloc hstretched hrecords flags) h
        haddress hregion hdata hI fun x t' hr => hI' _ x t' hr

end StateVault.Vault
