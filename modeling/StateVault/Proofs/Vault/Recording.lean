/-
  StateVault.Proofs.Vault.Recording
  ─────────────────────────────────
  **A COMMIT IS DECIDED BY ONE WRITE.**

  Until the record of a commit is written whole, the image is undecided: all
  that is in use is as it was, and the copy of the superblock that does not
  count is torn at worst (`Undecided`).  From then on it is decided: the
  record and the directory that it points at are there (`Decided`).

    • `writeCommit_ensures` — the writes of a commit, in this order,
    • `commit_ensures`      — a whole commit, growth included.
-/
import StateVault.Proofs.Vault.Frame

namespace StateVault.Vault

variable {F : Failures} {I : Watched → Prop}

/-! ## §1. Undecided and decided images. -/

/-- What writes of records that were cut make of a copy of the superblock. -/
inductive Torn (F : Failures) (old : ByteArray) : ByteArray → Prop where
  | same : Torn F old old
  | torn {copy : ByteArray} {s : Superblock} {landed : Nat} (h : Torn F old copy)
      (hversion : s.version = Superblock.currentVersion) (hlanded : F.tear 64 landed) :
      Torn F old (Bytes.overlay copy 0 (s.encode.extract 0 landed))

theorem Torn.trans {a b c : ByteArray} (h : Torn F a b) (h' : Torn F b c) : Torn F a c := by
  induction h' with
  | same => exact h
  | torn _ hversion hlanded ih => exact ih.torn hversion hlanded

/-- The copy of the superblock that does not count. -/
def spare (v : Vault) (image : Image) : ByteArray :=
  Bytes.slice image v.slot.other.offset 64

/-- The blocks that a directory takes. -/
def directoryBlocks (v : Vault) (d : Directory) : UInt64 :=
  blocksToHold (UInt64.ofNat (Directory.encodedSize d.size)) v.superblock.blockSize

/-- Nothing that counts has changed on the way from `t` to `t'`; `safe` says
that the vault did not grow to less than the committed size. -/
structure Undecided (F : Failures) (safe : Prop) (v : Vault) (t t' : Watched) : Prop where
  kept : Bytes.Keeps v.Guards t.image t'.image
  torn : ¬ F.sync → t'.records = t.records ∧ Torn F (v.spare t.image) (v.spare t'.image)
  covers : safe → v.Covers t.image → v.Covers t'.image

/-- The record of the vault `w` has been written, on the way from `v` at `t`. -/
structure Decided (F : Failures) (v : Vault) (t : Watched) (w : Vault) (t' : Watched) : Prop where
  kept : Bytes.Keeps v.Guards t.image t'.image
  records : ¬ F.sync → t'.records = t.records + 1
  record : Bytes.slice t'.image w.slot.offset 64 = w.superblock.encode
  blocks : w.superblock.directory.count = w.directoryBlocks w.directory
  directory : w.Holds t'.image w.superblock.directory (w.directory.bytes w.generation)
  room : v.Room t.image → w.Room t'.image
  addressable : v.Addressable → w.Addressable

theorem undecided_refl {safe : Prop} (v : Vault) (t : Watched) : Undecided F safe v t t where
  kept := Bytes.Keeps.refl _ _
  torn _ := ⟨rfl, .same⟩
  covers _ h := h

/-- The two copies of the superblock stay in an image that keeps what is in
use. -/
theorem region_of_keeps {v : Vault} {others : List Extent} {image image' : Image}
    (h : v.Held others) (hregion : regionSize ≤ image.size)
    (hkept : Bytes.Keeps v.Guards image image') : regionSize ≤ image'.size :=
  hkept.lt_size h.guards_last hregion

/-! ## §2. Directory, then record. -/

/-- The writes of a commit before its record is whole: only the blocks of the
new directory and the copy that does not count have been touched. -/
structure Unwritten (F : Failures) (v : Vault) (e : Extent) (t t' : Watched) : Prop where
  kept : Bytes.Keeps (fun p => ¬ v.InExtent e p ∧ ¬ v.InSpare p) t.image t'.image
  size : t'.image.size = t.image.size
  torn : ¬ F.sync → t'.records = t.records ∧ Torn F (v.spare t.image) (v.spare t'.image)

/-- The writes of a commit with its record whole. -/
structure Inscribed (v : Vault) (e : Extent) (bytes : ByteArray) (s : Superblock)
    (t t' : Watched) : Prop where
  kept : Bytes.Keeps (fun p => ¬ v.InExtent e p ∧ ¬ v.InSpare p) t.image t'.image
  size : t'.image.size = t.image.size
  records : t'.records = t.records + 1
  record : Bytes.slice t'.image v.slot.other.offset 64 = s.encode
  directory : v.Holds t'.image e bytes
  inBounds : (e.start.toNat + e.count.toNat) * v.width ≤ t'.image.size

section Writes

variable {v : Vault} {others : List Extent} {e : Extent}

/-- The blocks of an owner hold nothing of the copies of the superblock. -/
theorem Held.not_inExtent_of_inSpare (h : v.Held others)
    (he : e ∈ v.superblock.directory :: others) {p : Nat} (hp : v.InSpare p) :
    ¬ v.InExtent e p := by
  intro hin
  exact (h.guards_extent he hin).2 hp

/-- What keeps the place of the copy that does not count keeps the copy. -/
theorem spare_of_keeps {P : Nat → Prop} {image image' : Image}
    (hregion : regionSize ≤ image.size) (hkept : Bytes.Keeps P image image')
    (hin : ∀ p, v.InSpare p → P p) : v.spare image' = v.spare image := by
  have hslot := slot_offset_le v.slot.other
  have hsize : regionSize = 1024 := rfl
  exact hkept.slice (by omega) fun p hlow hhigh => hin p ⟨hlow, hhigh⟩

/-- Filling the blocks of the new directory is the first write of a commit. -/
theorem unwritten_of_filled (h : v.Held others) (he : e ∈ others) {t t' : Watched}
    (hregion : regionSize ≤ t.image.size) (hfilled : v.Filled e t.image t'.image)
    (hrecords : t'.records = t.records) : Unwritten F v e t t' where
  kept := hfilled.kept.mono fun _ hp => hp.1
  size := hfilled.size
  torn _ := by
    rw [spare_of_keeps hregion hfilled.kept
      fun p hp => h.not_inExtent_of_inSpare (List.mem_cons_of_mem _ he) hp]
    exact ⟨hrecords, .same⟩

/-- A record that is cut tears the copy that does not count. -/
theorem unwritten_torn {s : Superblock} {t t' : Watched} {landed : Nat}
    (h : Unwritten F v e t t') (hversion : s.version = Superblock.currentVersion)
    (hlanded : F.tear 64 landed)
    (hin : v.slot.other.offset + (s.encode.extract 0 landed).size ≤ t'.image.size) :
    Unwritten F v e t
      ⟨Bytes.overlay t'.image v.slot.other.offset (s.encode.extract 0 landed), t'.records⟩ := by
  have hpart : (s.encode.extract 0 landed).size ≤ 64 := by
    rw [ByteArray.size_extract, s.size_encode]
    omega
  -- the bytes that landed lie in the copy that does not count
  constructor
  · refine h.kept.trans ((Bytes.keeps_overlay hin).mono ?_)
    intro p hboth hboth'
    obtain ⟨_, hspare⟩ := hboth
    obtain ⟨hlow, hhigh⟩ := hboth'
    exact hspare ⟨hlow, by omega⟩
  · rw [← h.size]
    exact Bytes.size_overlay _ _ _ hin
  · intro hsync
    obtain ⟨hrecords, htorn⟩ := h.torn hsync
    refine ⟨hrecords, ?_⟩
    have hslice : v.spare (Bytes.overlay t'.image v.slot.other.offset
          (s.encode.extract 0 landed))
        = Bytes.overlay (v.spare t'.image) 0 (s.encode.extract 0 landed) :=
      Bytes.slice_overlay_within hin hpart
    rw [hslice]
    exact htorn.torn hversion hlanded

theorem isRecord_slot (s : Slot) : isRecord s.offset (.ok ()) = true := by
  cases s with
  | first => rfl
  | second => rfl

/-- A record that is written whole is there, and the directory still is. -/
theorem inscribed_of_unwritten {s : Superblock} {bytes : ByteArray} {t t' : Watched}
    (h : v.Held others) (he : e ∈ others) (hne : e.count.toNat ≠ 0)
    (hregion : regionSize ≤ t'.image.size) (hunwritten : Unwritten F v e t t')
    (hrecords : t'.records = t.records)
    (hdirectory : v.Holds t'.image e bytes)
    (hbounds : (e.start.toNat + e.count.toNat) * v.width ≤ t'.image.size) :
    Inscribed v e bytes s t
      (t'.written v.slot.other.offset (.ok ())
        (Bytes.overlay t'.image v.slot.other.offset s.encode)) := by
  have hencode := s.size_encode
  have hslot := slot_offset_le v.slot.other
  have hsize : regionSize = 1024 := rfl
  have hin : v.slot.other.offset + s.encode.size ≤ t'.image.size := by omega
  have hregion' := h.region_le (List.mem_cons_of_mem _ he) hne
  constructor
  · refine hunwritten.kept.trans ((Bytes.keeps_overlay hin).mono ?_)
    intro p hboth hboth'
    obtain ⟨_, hspare⟩ := hboth
    obtain ⟨hlow, hhigh⟩ := hboth'
    exact hspare ⟨hlow, by omega⟩
  · rw [← hunwritten.size]
    exact Bytes.size_overlay _ _ _ hin
  · rw [Watched.written, isRecord_slot, if_pos rfl, hrecords]
  · rw [← hencode]
    exact Bytes.slice_overlay_self hin
  · -- the directory lies behind both copies of the superblock
    refine (Bytes.slice_overlay_of_apart hin (Or.inr (by omega))).trans hdirectory
  · exact Nat.le_trans hbounds (Nat.le_of_eq (Bytes.size_overlay _ _ _ hin).symm)

/-- **The writes of a commit**: directory, then record.  Until the record is
whole, all else is as it was. -/
theorem writeCommit_ensures {bytes : ByteArray} {s : Superblock} {t : Watched}
    (h : v.Held others) (he : e ∈ others) (hne : e.count.toNat ≠ 0) (haddress : v.Addressable)
    (hbytes : bytes.size ≤ e.count.toNat * v.width)
    (hversion : s.version = Superblock.currentVersion) (hregion : regionSize ≤ t.image.size)
    (hI : ∀ t', Unwritten F v e t t' → I t')
    (hI' : ∀ t', Inscribed v e bytes s t t' → I t') :
    (writeCommit e bytes s v.slot.other v).Ensures F I t fun outcome t' =>
      match outcome.1 with
      | .ok _ => Inscribed v e bytes s t t'
      | .error _ => Unwritten F v e t t' := by
  unfold writeCommit
  rw [Action.ensures_bind]
  -- the directory first: its blocks are not in use yet
  have hfill := fill_ensures (F := F) (I := I) h he haddress hbytes (t := t) fun image hfilled =>
    hI _ (unwritten_of_filled h he hregion hfilled rfl)
  refine (hfill.and_yields (fill_yields e bytes v)).mono ?_
  intro outcome t₁ hend
  obtain ⟨result, w⟩ := outcome
  obtain ⟨⟨hrecords, hfilled, hdone⟩, rfl⟩ := hend
  have hunwritten : Unwritten F w e t t₁ := unwritten_of_filled h he hregion hfilled hrecords
  have hregion₁ : regionSize ≤ t₁.image.size := by rw [hfilled.size]; exact hregion
  cases result with
  | error err => exact hunwritten
  | ok u =>
    obtain ⟨hdirectory, hbounds⟩ := hdone rfl hne
    rw [Action.Beyond, Action.ensures_bind]
    refine ⟨hI _ hunwritten, fun result hsyncs => ?_⟩
    cases result with
    | error err => exact hunwritten
    | ok u =>
      show Action.Beyond F I _ _ (.ok u, w) t₁
      rw [Action.Beyond, Action.ensures_bind]
      intro result image hwrites
      rw [toNat_slot_offset] at hwrites ⊢
      -- then the record, whole, not at all, or by its first bytes
      cases hwrites with
      | whole hin =>
        have hinscribed := inscribed_of_unwritten (s := s) h he hne hregion₁ hunwritten hrecords
          hdirectory hbounds
        refine ⟨hI' _ hinscribed, hI' _ hinscribed, fun result hsyncs => ?_⟩
        cases hsyncs with
        | whole => exact hinscribed
        -- the last sync fails with the record written: nothing more is said of a medium
        -- whose syncs fail
        | failed hsync err =>
          exact ⟨hinscribed.kept, hinscribed.size, fun hnot => absurd hsync hnot⟩
      | refused _ err =>
        rw [Watched.written_error]
        exact ⟨hI _ hunwritten, hunwritten⟩
      | torn landed htear hin err =>
        rw [s.size_encode] at htear
        have htorn := unwritten_torn hunwritten hversion htear hin
        rw [Watched.written_error]
        exact ⟨hI _ htorn, htorn⟩

end Writes

/-! ## §3. A whole commit. -/

section Commits

variable {v w : Vault} {others : List Extent} {e : Extent} {needed : UInt64} {safe : Prop}
variable {image image' : Image}

/-- What is in use is none of the blocks that an allocation takes. -/
theorem not_inExtent_of_guards (h : v.Held others) (hkeeps : v.Keeps w)
    (howns : w.blocks.Owns (e :: superblockExtent v.superblock.blockSize
      :: v.superblock.directory :: others)) {p : Nat} (hp : v.Guards p) : ¬ w.InExtent e p := by
  intro hin
  have hwidth : w.width = v.width := width_congr hkeeps.superblock
  obtain ⟨o, ho, hblock⟩ := (h.owns.used _).mp hp.1
  have hbefore : w.Held (e :: others) := h.of_taken hkeeps howns
  have hmem : p / w.width ∈ e :=
    (hbefore.mem_iff_inExtent (howns.within e List.mem_cons_self) p).mpr hin
  rw [hwidth] at hmem
  exact (List.pairwise_cons.mp howns.apart).1 o ho _ hmem hblock

/-- An image in which only bytes beyond the blocks of the vault have changed. -/
theorem undecided_of_blocks (h : v.Held others) {t : Watched}
    (hregion : regionSize ≤ t.image.size)
    (hkept : Bytes.Keeps (· < v.blocks.total.toNat * v.width) t.image image)
    (hcovers : safe → v.Covers t.image → v.Covers image) :
    Undecided F safe v t { t with image } where
  kept := hkept.mono fun _ hp => h.lt_of_guards hp
  torn _ := by
    have hspare : v.spare image = v.spare t.image :=
      spare_of_keeps hregion hkept fun p hp => by
        have hslot := slot_offset_le v.slot.other
        have hwidth := h.width_bounds
        -- both copies lie in blocks that are in use, and so below the size of the map
        have hless : p < regionSize := by
          show p < 1024
          have := hp.2
          omega
        exact (Nat.div_lt_iff_lt_mul (by omega)).mp (BlockMap.isUsed_lt (h.isUsed_region hless))
    exact ⟨rfl, by rw [hspare]; exact .same⟩
  covers := hcovers

/-- Growth decides nothing: what it cuts off was not in use. -/
theorem undecided_of_stretched (safe : Prop) (h : v.Held others) {t : Watched}
    (hregion : regionSize ≤ t.image.size) (hsafe : safe → v.SafeGrowth needed)
    (hstretched : v.Stretched needed t.image w image) :
    Undecided F safe v t { t with image } :=
  undecided_of_blocks h hregion hstretched.kept fun hs => hstretched.covers (hsafe hs)

/-- From the vault before an allocation on, by way of the one after it. -/
theorem keeps_guards (h : v.Held others) (hkeeps : v.Keeps w)
    (howns : w.blocks.Owns (e :: superblockExtent v.superblock.blockSize
      :: v.superblock.directory :: others)) {a b c : Image}
    (hstretched : v.Stretched needed a w b)
    (hkept : Bytes.Keeps (fun p => ¬ w.InExtent e p ∧ ¬ w.InSpare p) b c) :
    Bytes.Keeps v.Guards a c := by
  refine Bytes.Keeps.trans (hstretched.kept.mono fun _ hp => h.lt_of_guards hp)
    (hkept.mono fun p hp => ⟨not_inExtent_of_guards h hkeeps howns hp, ?_⟩)
  have hslot := hp.2
  unfold InSpare at hslot ⊢
  rw [hkeeps.slot]
  exact hslot

/-- The writes before the record is whole decide nothing: the blocks of the new
directory were free. -/
theorem undecided_of_unwritten (h : v.Held others) (hkeeps : v.Keeps w)
    (howns : w.blocks.Owns (e :: superblockExtent v.superblock.blockSize
      :: v.superblock.directory :: others)) {t t₁ : Watched} (t' : Watched)
    (hregion : regionSize ≤ t.image.size) (hsafe : safe → v.SafeGrowth needed)
    (hstretched : v.Stretched needed t.image w t₁.image) (hrecords : t₁.records = t.records)
    (hunwritten : Unwritten F w e t₁ t') : Undecided F safe v t t' where
  kept := keeps_guards h hkeeps howns hstretched hunwritten.kept
  torn hsync := by
    obtain ⟨hsame, htorn⟩ := hunwritten.torn hsync
    have hfirst := (undecided_of_stretched (F := F) safe h hregion hsafe hstretched).torn hsync
    have hspare : ∀ image, w.spare image = v.spare image := fun image => by
      rw [spare, hkeeps.slot, spare]
    rw [hspare, hspare] at htorn
    exact ⟨hsame.trans hrecords, hfirst.2.trans htorn⟩
  covers hs hcovers := (hstretched.covers (hsafe hs) hcovers).congr rfl hunwritten.size

/-- The record of a commit is whole: the vault after it is the one that the
image describes. -/
theorem decided_of_inscribed {d : Directory} {generation : UInt64} {bytes : ByteArray}
    (h : v.Held others) (hgeneration : Word.add? v.generation 1 = some generation)
    (hbytes : d.encode generation = .ok bytes)
    (halloc : v.Allocated
      (superblockExtent v.superblock.blockSize :: v.superblock.directory :: others)
      (blocksToHold (UInt64.ofNat bytes.size) v.superblock.blockSize) (.ok e, w))
    {t t₁ : Watched} (t' : Watched) (hstretched : v.Stretched needed t.image w t₁.image)
    (hrecords : t₁.records = t.records)
    (hinscribed : Inscribed w e bytes (w.nextSuperblock e bytes.size generation) t₁ t') :
    Decided F v t (released w.superblock.directory { w with
      superblock := w.nextSuperblock e bytes.size generation
      slot := w.slot.other
      directory := d }) t' := by
  obtain ⟨_, _, hkept, htotal⟩ := advanced_of_allocated h hgeneration hbytes halloc
  obtain ⟨hkeeps, howns, hcount, _⟩ := halloc
  obtain ⟨hsize, _, _⟩ := Directory.size_of_encode hbytes
  obtain ⟨_, rfl⟩ := (Directory.encode_eq_ok_iff d generation bytes).mp hbytes
  obtain ⟨hsuperblock, hslot, hdirectory, _, _⟩ := hkept
  simp only at hsuperblock hslot hdirectory
  -- the new superblock has the old block size
  have hwidth : ∀ x : Vault, x.superblock = w.nextSuperblock e (d.bytes generation).size
      generation → x.width = w.width := by
    intro x hx
    unfold width
    rw [hx]
    rfl
  constructor
  · exact keeps_guards h hkeeps howns hstretched hinscribed.kept
  · exact fun _ => by rw [hinscribed.records, hrecords]
  · rw [hslot, hsuperblock]
    exact hinscribed.record
  · rw [directoryBlocks, hdirectory, hsuperblock]
    show e.count = blocksToHold _ w.superblock.blockSize
    rw [hcount, hkeeps.superblock, hsize]
  · rw [Vault.generation, Holds, hwidth _ hsuperblock, hdirectory, hsuperblock]
    exact hinscribed.directory
  · exact fun hroom =>
      (hstretched.room hroom).congr (hwidth _ hsuperblock) htotal hinscribed.size
  · exact fun haddress => (hstretched.addressable haddress).congr (hwidth _ hsuperblock) htotal

/-- Sizes on the way from `v` to `w`: what was long enough still is, and
without growth all sizes stay. -/
structure Sized (v : Vault) (image : Image) (w : Vault) (image' : Image) : Prop where
  room : v.Room image → w.Room image'
  addressable : v.Addressable → w.Addressable
  fixed : v.settings.autoGrow = false →
    w.blocks.total = v.blocks.total ∧ image'.size = image.size

/-- The sizes after a commit that went through: the vault grew to the length of
the image, or stayed as large as it was, with its new directory in an image
that stayed as long. -/
def Fitted (v : Vault) (d : Directory) (t : Watched) (w : Vault) (t' : Watched) : Prop :=
  w.Room t'.image
    ∨ w.blocks.total = v.blocks.total ∧ t'.image.size = t.image.size
      ∧ ∃ e blocks, v.blocks.allocate (v.directoryBlocks d) = .ok (e, blocks)
        ∧ (e.start.toNat + e.count.toNat) * v.width ≤ t.image.size

/-- What a commit ensures of the image. -/
def Settled (F : Failures) (safe : Prop) (v : Vault) (d : Directory) (t : Watched) :
    Except Error Unit × Vault → Watched → Prop
  | (.ok _, w), t' => Decided F v t w t' ∧ v.Fitted d t w t'
  | (.error _, w), t' => Undecided F safe v t t' ∧ v.Sized t.image w t'.image

/-- Growth keeps image and map at one pace. -/
theorem Stretched.sized (h : v.Stretched needed image w image') : v.Sized image w image' where
  room := h.room
  addressable := h.addressable
  fixed hfixed := ⟨(h.fixed hfixed).1, congrArg ByteArray.size (h.fixed hfixed).2⟩

theorem Sized.trans {u : Vault} {first second third : Image} (h : u.Sized first v second)
    (hsettings : v.settings = u.settings) (h' : v.Sized second w third) :
    u.Sized first w third where
  room hroom := h'.room (h.room hroom)
  addressable haddress := h'.addressable (h.addressable haddress)
  fixed hfixed := by
    obtain ⟨htotal, hsize⟩ := h.fixed hfixed
    obtain ⟨htotal', hsize'⟩ := h'.fixed (hsettings ▸ hfixed)
    exact ⟨htotal'.trans htotal, hsize'.trans hsize⟩

/-- Another map of the same size, and another image of the same length. -/
theorem Sized.of_same {x : Vault} {image'' : Image} (h : v.Sized image w image')
    (hkeeps : w.Keeps x) (htotal : x.blocks.total = w.blocks.total)
    (hsize : image''.size = image'.size) : v.Sized image x image'' where
  room hroom := (h.room hroom).congr (width_congr hkeeps.superblock) htotal hsize
  addressable haddress :=
    (h.addressable haddress).congr (width_congr hkeeps.superblock) htotal
  fixed hfixed := by
    rw [htotal, hsize]
    exact h.fixed hfixed

/-- With its record whole, the vault fits the image. -/
theorem fitted_of_inscribed {d : Directory} {generation : UInt64} {bytes : ByteArray}
    (h : v.Held others) (hgeneration : Word.add? v.generation 1 = some generation)
    (hbytes : d.encode generation = .ok bytes)
    (halloc : v.Allocated
      (superblockExtent v.superblock.blockSize :: v.superblock.directory :: others)
      (blocksToHold (UInt64.ofNat bytes.size) v.superblock.blockSize) (.ok e, w))
    (hneeded : v.directoryBlocks d
      = blocksToHold (UInt64.ofNat bytes.size) v.superblock.blockSize)
    {t t₁ : Watched} (t' : Watched)
    (hplaced : v.Placed (blocksToHold (UInt64.ofNat bytes.size) v.superblock.blockSize) t.image
      (.ok e, w) t₁.image)
    (hinscribed : Inscribed w e bytes (w.nextSuperblock e bytes.size generation) t₁ t') :
    v.Fitted d t (released w.superblock.directory { w with
      superblock := w.nextSuperblock e bytes.size generation
      slot := w.slot.other
      directory := d }) t' := by
  obtain ⟨_, _, hkept, htotal⟩ := advanced_of_allocated h hgeneration hbytes halloc
  -- the vault grew for the directory, or found blocks for it as it was
  rcases hplaced with hroom | ⟨himage, blocks, hallocated, rfl⟩
  · exact Or.inl (hroom.congr ((width_congr hkept.superblock).trans rfl) htotal
      hinscribed.size)
  · refine Or.inr ⟨htotal.trans (total_of_allocate hallocated), ?_, e, blocks, ?_, ?_⟩
    · rw [hinscribed.size, himage]
    · rw [hneeded]
      exact hallocated
    · have hbounds := hinscribed.inBounds
      rw [hinscribed.size, himage] at hbounds
      exact hbounds

/-- **A commit is decided by its record**: up to it the old vault stays as it
was, and with it the new one stands. -/
theorem commit_ensures (safe : Prop) {d : Directory} {t : Watched} (h : v.Held others)
    (haddress : v.Addressable) (hregion : regionSize ≤ t.image.size)
    (hsafe : safe → v.SafeGrowth (v.directoryBlocks d))
    (hI : ∀ t', Undecided F safe v t t' → I t')
    (hI' : ∀ w t', v.Advanced d w → w.Held others → Decided F v t w t' → v.Fitted d t w t' →
      I t') :
    (commit d v).Ensures F I t (Settled F safe v d t) := by
  have hstay : Undecided F safe v t t ∧ v.Sized t.image v t.image :=
    ⟨undecided_refl v t, id, id, fun _ => ⟨rfl, rfl⟩⟩
  unfold commit
  rw [Action.ensures_vault]
  -- what is refused before the first call leaves all as it is
  cases hgeneration : Word.add? v.generation 1 with
  | none => exact hstay
  | some generation =>
    simp only []
    rw [Action.ensures_bind]
    cases hbytes : d.encode generation with
    | error e => exact hstay
    | ok bytes =>
      obtain ⟨hsize, hlow, hhigh⟩ := Directory.size_of_encode hbytes
      have hneeded : v.directoryBlocks d
          = blocksToHold (UInt64.ofNat bytes.size) v.superblock.blockSize := by
        rw [directoryBlocks, hsize]
      rw [hneeded] at hsafe
      show Action.Beyond F I _ _ (.ok bytes, v) t
      rw [Action.Beyond, Action.ensures_bind]
      have hgrow : (allocate bytes.size v).Ensures F I t _ :=
        allocateGrowing_ensures (hI t (undecided_refl v t)) fun w image _ hstretched =>
          hI _ (undecided_of_stretched safe h hregion hsafe hstretched)
      have hplaced := allocateGrowing_placed (F := F) v
        (blocksToHold (UInt64.ofNat bytes.size) v.blockSize) t
      refine ((hgrow.and_end hplaced).and_yields (allocate_yields h bytes.size)).mono ?_
      intro outcome t₁ hend
      obtain ⟨result, w⟩ := outcome
      obtain ⟨⟨⟨hrecords, hstretched⟩, hplaced⟩, halloc⟩ := hend
      cases result with
      | error err =>
        have hundecided := undecided_of_stretched (F := F) safe h hregion hsafe hstretched
        rw [← hrecords] at hundecided
        exact ⟨hundecided, hstretched.sized⟩
      | ok e =>
        -- what stands if the record gets whole
        obtain ⟨hadvanced, hheld, hkept, htotal⟩ :=
          advanced_of_allocated h hgeneration hbytes halloc
        have hdecided := fun t' =>
          decided_of_inscribed (F := F) h hgeneration hbytes halloc t' hstretched hrecords
        have hfitted := fun t' =>
          fitted_of_inscribed h hgeneration hbytes halloc hneeded t' hplaced
        obtain ⟨hkeeps, howns, hcount, _⟩ := halloc
        -- what stands if it does not
        have hundecided := fun t' =>
          undecided_of_unwritten (F := F) h hkeeps howns t' hregion hsafe hstretched hrecords
        have hbefore : w.Held (e :: others) := h.of_taken hkeeps howns
        rw [← hkeeps.superblock] at hcount
        obtain ⟨henough, hne⟩ := hbefore.enough_of_encode hbytes hcount
        have hregion₁ : regionSize ≤ t₁.image.size :=
          region_of_keeps h hregion (hstretched.kept.mono fun _ hp => h.lt_of_guards hp)
        rw [Action.Beyond, Action.ensures_vault, Action.ensures_bind, Action.ensures_onError]
        have hwrite := writeCommit_ensures (F := F) (I := I) (t := t₁) hbefore List.mem_cons_self
          hne (hstretched.addressable haddress) henough
          (s := w.nextSuperblock e bytes.size generation) hbefore.version hregion₁
          (fun t' ht' => hI t' (hundecided t' ht'))
          (fun t' ht' => hI' _ t' hadvanced hheld (hdecided t' ht') (hfitted t' ht'))
        refine (hwrite.and_yields (writeCommit_yields _ _ _ _ w)).mono ?_
        intro outcome t' hend
        obtain ⟨result, x⟩ := outcome
        obtain ⟨hwritten, rfl⟩ := hend
        cases result with
        | ok u => exact ⟨hdecided t' hwritten, hfitted t' hwritten⟩
        | error err =>
          obtain ⟨_, hfreed, hfreedTotal⟩ := hbefore.released
          exact ⟨hundecided t' hwritten,
            hstretched.sized.of_same hfreed hfreedTotal hwritten.size⟩

end Commits

end StateVault.Vault
