/-
  StateVault.Proofs.Vault.Sound
  ─────────────────────────────
  **EVERY OPERATION LEAVES A SOUND VAULT, WHATEVER THE MEDIUM ANSWERS.**

  `Sound v` says that the blocks in use belong to superblock, directory and
  streams, that all of these lie below the committed size, and that the
  directory is valid.  Each operation keeps it, also when it fails, and does
  to the directory what its result says.

    • `writeWith_yields`, `delete_yields`, `resize_yields` — the operations,
    • `mount_yields`, `format_yields`                      — where vaults
                                                             come from.
-/
import StateVault.Proofs.Vault.Committing
import StateVault.Vault.Opening
import StateVault.Vault.Resizing
import StateVault.Vault.Streams

namespace StateVault.Vault

/-! ## §1. Sound vaults. -/

/-- The extents of the streams of a directory. -/
def streamExtents (d : Directory) : List Extent :=
  d.entries.map (·.extent)

/-- All extents of a vault. -/
def owners (v : Vault) : List Extent :=
  superblockExtent v.superblock.blockSize :: v.superblock.directory
    :: streamExtents v.directory

/-- The blocks in use have their owners, these lie below the committed size,
which the map does not fall short of, and the directory is valid. -/
structure Sound (v : Vault) : Prop where
  held : v.Held (streamExtents v.directory)
  check : v.superblock.check = .ok ()
  below : ∀ e ∈ v.owners, e.Fits v.superblock.totalBlocks
  committed : v.superblock.totalBlocks.toNat ≤ v.blocks.total.toNat
  valid : v.directory.Valid v.superblock.blockSize

theorem Sound.of_keeps {v w : Vault} (h : v.Sound) (hkeeps : v.Keeps w)
    (hheld : w.Held (streamExtents v.directory)) : w.Sound := by
  obtain ⟨hsuperblock, _, hdirectory, _, htotal⟩ := hkeeps
  constructor
  · rw [hdirectory]
    exact hheld
  · rw [hsuperblock]
    exact h.check
  · unfold owners
    rw [hsuperblock, hdirectory]
    exact h.below
  · rw [hsuperblock]
    exact Nat.le_trans h.committed htotal
  · rw [hsuperblock, hdirectory]
    exact h.valid

/-- A vault is sound after a commit, as soon as the streams of the new
directory are the only other owners. -/
theorem Advanced.sound {v w w' : Vault} {d : Directory} (h : v.Advanced d w)
    (hkeeps : w.Keeps w') (htotal : w'.blocks.total = w.blocks.total)
    (hheld : w'.Held (streamExtents d)) (hvalid : d.Valid v.superblock.blockSize) :
    w'.Sound := by
  have hdirectory : w'.directory = d := hkeeps.directory.trans h.directory
  -- what was committed is the whole map
  have hsame : w'.superblock.totalBlocks = w'.blocks.total := by
    rw [hkeeps.superblock, h.total, htotal]
  constructor
  · rw [hdirectory]
    exact hheld
  · rw [hkeeps.superblock]
    exact h.check
  · unfold owners
    rw [hdirectory, hsame]
    exact hheld.owns.within
  · exact Nat.le_of_eq (congrArg UInt64.toNat hsame)
  · rw [hkeeps.superblock, hdirectory, h.blockSize]
    exact hvalid

/-! ## §2. Streams. -/

/-- A new stream brings its extent. -/
theorem streamExtents_insert_new {d : Directory} {e : Entry} (h : d.find? e.name = none) :
    (e.extent :: streamExtents d).Perm (streamExtents (d.insert e)) := by
  unfold streamExtents
  rw [Directory.entries_insert_of_new h, List.map_append]
  exact (List.perm_append_singleton _ _).symm

/-- A stream that replaces another puts its extent in the place of the old. -/
theorem streamExtents_insert_old {d : Directory} {e old : Entry}
    (h : d.find? e.name = some old) :
    (e.extent :: streamExtents d).Perm (old.extent :: streamExtents (d.insert e)) := by
  obtain ⟨before, after, hsplit, hbefore, hname⟩ := Directory.find?_split h
  have hinsert : (d.insert e).entries = before ++ e :: after := by
    show Directory.insertIn e d.entries = _
    rw [hsplit, Directory.insertIn_of_old hbefore hname]
  unfold streamExtents
  rw [hinsert, hsplit, List.map_append, List.map_append, List.map_cons, List.map_cons]
  exact (List.perm_middle.cons _).trans ((List.Perm.swap _ _ _).trans
    (List.perm_middle.symm.cons _))

/-- A stream that goes takes its extent with it. -/
theorem streamExtents_erase {d : Directory} {name : String} {e : Entry}
    (h : d.find? name = some e) :
    (streamExtents d).Perm (e.extent :: streamExtents (d.erase name)) := by
  obtain ⟨before, after, hsplit, hbefore, hname⟩ := Directory.find?_split h
  unfold streamExtents
  rw [Directory.entries_erase hsplit hbefore hname, hsplit, List.map_append, List.map_append,
    List.map_cons]
  exact List.perm_middle

/-- An entry for bytes in the blocks that were allocated for them. -/
theorem check_of_allocated {e : Entry} {blockSize : UInt32} (h : isBlockSize blockSize = true)
    (hcount : e.extent.count = blocksToHold e.length blockSize) :
    e.check blockSize = .ok () := by
  have henough := (blocksToHold_spec h e.length).1
  rw [← hcount] at henough
  unfold Entry.check
  by_cases hempty : e.extent.isEmpty = true
  · rw [if_pos hempty]
    rw [Extent.isEmpty_iff] at hempty
    rw [hempty, Nat.zero_mul] at henough
    rw [if_pos (UInt64.toNat_inj.mp (Nat.le_zero.mp henough))]
  · rw [if_neg hempty, if_neg]
    rw [UInt64.not_lt]
    exact le_capacity henough

/-- A stream without blocks has no bytes. -/
theorem length_eq_zero {e : Entry} {blockSize : UInt32} (h : e.check blockSize = .ok ())
    (hempty : e.extent.count.toNat = 0) : e.length.toNat = 0 := by
  unfold Entry.check at h
  rw [if_pos ((Extent.isEmpty_iff _).mpr hempty)] at h
  by_cases hzero : e.length = 0
  · rw [hzero]
    rfl
  · rw [if_neg hzero] at h
    cases h

/-- A stream has no more bytes than its blocks hold. -/
theorem length_le_capacity {e : Entry} {blockSize : UInt32}
    (h : e.check blockSize = .ok ()) :
    e.length.toNat ≤ e.extent.count.toNat * blockSize.toNat := by
  by_cases hempty : e.extent.count.toNat = 0
  · rw [length_eq_zero h hempty]
    exact Nat.zero_le _
  · unfold Entry.check at h
    rw [if_neg (fun hzero => hempty ((Extent.isEmpty_iff _).mp hzero))] at h
    by_cases hlong : e.extent.capacity blockSize < e.length
    · rw [if_pos hlong] at h
      cases h
    · rw [UInt64.lt_iff_toNat_lt, Extent.toNat_capacity]
        at hlong
      omega

theorem checkPlace_ok {d : Directory} {name : String} (h : checkPlace d name = .ok ()) :
    Name.fault? name = none ∧ (d.contains name = true ∨ d.size < Directory.maxEntries) := by
  unfold checkPlace at h
  cases hname : Name.check name with
  | error e =>
    rw [hname] at h
    cases h
  | ok u =>
    rw [hname] at h
    refine ⟨(Directory.nameCheck_iff name).mp hname, ?_⟩
    -- the name is checked first, then the number of streams
    by_cases hfull : (!d.contains name) = true ∧ Directory.maxEntries ≤ d.size
    · simp only [bind, Except.bind, if_pos hfull] at h
      cases h
    · cases hin : d.contains name with
      | true => exact Or.inl rfl
      | false =>
        rw [hin] at hfull
        exact Or.inr (Nat.lt_of_not_le fun hle => hfull ⟨rfl, hle⟩)

/-- The entry of a stream written with these bytes, in blocks that hold them. -/
structure EntryOf (blockSize : UInt32) (name : String) (data : ByteArray) (flags : Flags)
    (e : Entry) : Prop where
  name : e.name = name
  length : e.length = UInt64.ofNat data.size
  flags : e.flags = flags
  count : e.extent.count = blocksToHold (UInt64.ofNat data.size) blockSize

/-- The blocks of the entry hold the bytes. -/
theorem EntryOf.enough {blockSize : UInt32} {name : String} {data : ByteArray} {flags : Flags}
    {e : Entry} (h : EntryOf blockSize name data flags e) (hsize : isBlockSize blockSize = true)
    (hdata : data.size < UInt64.size) : data.size ≤ e.extent.count.toNat * blockSize.toNat := by
  rw [h.count]
  exact le_blocksToHold hsize hdata

/-- What comes of writing a stream: the directory has the entry, in a vault
that is no smaller, or all is as it was. -/
def Written (v : Vault) (name : String) (data : ByteArray) (flags : Flags) :
    Except Error Unit × Vault → Prop
  | (.ok _, w) => w.Sound ∧ w.settings = v.settings
      ∧ v.blocks.total.toNat ≤ w.blocks.total.toNat
      ∧ ∃ e, EntryOf v.superblock.blockSize name data flags e
        ∧ w.directory = v.directory.insert e
  | (.error _, w) => w.Sound ∧ v.Keeps w

/-- The vault after the commit of a written stream: the blocks that the stream
had before are given back. -/
def withoutOld (d : Directory) (name : String) (w : Vault) : Vault :=
  match d.find? name with
  | some previous => released previous.extent w
  | none => w

/-- After the commit, and with the old blocks given back, the vault is sound. -/
theorem sound_of_insert {v w : Vault} {d : Directory} {e : Entry}
    (hadvanced : v.Advanced (d.insert e) w) (hheld : w.Held (e.extent :: streamExtents d))
    (hvalid : (d.insert e).Valid v.superblock.blockSize) :
    (withoutOld d e.name w).Sound ∧ w.Keeps (withoutOld d e.name w)
      ∧ (withoutOld d e.name w).blocks.total = w.blocks.total := by
  unfold withoutOld
  cases hold : d.find? e.name with
  | none =>
    have hsound := hadvanced.sound (Keeps.refl w) rfl
      (hheld.perm (streamExtents_insert_new hold)) hvalid
    exact ⟨hsound, Keeps.refl w, rfl⟩
  | some previous =>
    obtain ⟨hreleased, hkept, htotal⟩ := (hheld.perm (streamExtents_insert_old hold)).released
    exact ⟨hadvanced.sound hkept htotal hreleased hvalid, hkept, htotal⟩

/-- What comes of an operation that puts the directory `d` in the place of
the old one, in a vault that is no smaller, or fails. -/
def Turned (v : Vault) (d : Directory) : Except Error Unit × Vault → Prop
  | (.ok _, w) => w.Sound ∧ w.settings = v.settings
      ∧ v.blocks.total.toNat ≤ w.blocks.total.toNat ∧ w.directory = d
  | (.error _, w) => w.Sound ∧ v.Keeps w

/-- The part of a write after its blocks are found. -/
def store (d : Directory) (e : Entry) (data : ByteArray) : Action Unit := do
  Action.onError
    (do
      fill e.extent data
      commit (d.insert e))
    (released e.extent)
  Action.modify (withoutOld d e.name)

/-- A write is a check, an allocation, and the storing. -/
theorem writeWith_eq (name : String) (data : ByteArray) (flags : Flags) :
    writeWith name data flags = (do
      let v ← Action.vault
      Action.require (checkPlace v.directory name)
      let extent ← allocate data.size
      store v.directory ⟨name, extent, UInt64.ofNat data.size, flags⟩ data) := by
  funext v
  have hvault : ∀ f : Vault → Action Unit, (Action.vault >>= f) v = f v v := fun _ => rfl
  rw [writeWith, hvault, hvault]
  unfold store withoutOld
  dsimp only
  cases v.directory.find? name with
  | none => rfl
  | some previous => rfl

/-- Storing comes to a sound vault, with the entry or as it was. -/
theorem store_yields {v w : Vault} {e : Entry} (h : v.Sound) (hkeeps : v.Keeps w)
    (hheld : w.Held (e.extent :: streamExtents v.directory))
    (hvalid : (v.directory.insert e).Valid v.superblock.blockSize) (data : ByteArray) :
    (store v.directory e data w).Yields (v.Turned (v.directory.insert e)) := by
  -- whatever fails, the new blocks are given back
  have hfailed : ∀ x : Vault, w.Keeps x → x.Held (e.extent :: streamExtents v.directory) →
      (released e.extent x).Sound ∧ v.Keeps (released e.extent x) := by
    intro x hx hxheld
    obtain ⟨hreleased, hkept, _⟩ := hxheld.released
    have hall := hkeeps.trans (hx.trans hkept)
    exact ⟨h.of_keeps hall hreleased, hall⟩
  unfold store
  rw [Action.yields_bind, Action.yields_onError, Action.yields_bind]
  refine (fill_yields e.extent data w).mono ?_
  intro outcome hfilled
  obtain ⟨result, x⟩ := outcome
  cases hfilled
  cases result with
  | error err => exact hfailed x (Keeps.refl x) hheld
  | ok u =>
    refine (commit_yields hheld (v.directory.insert e)).mono ?_
    intro outcome hcommit
    obtain ⟨result, y⟩ := outcome
    cases result with
    | error err => exact hfailed y hcommit.1 hcommit.2
    | ok u =>
      obtain ⟨hadvanced, hyheld⟩ := hcommit
      rw [← hkeeps.superblock] at hvalid
      obtain ⟨hsound, hkept, _⟩ := sound_of_insert hadvanced hyheld hvalid
      exact ⟨hsound, hkept.settings.trans (hadvanced.settings.trans hkeeps.settings),
        Nat.le_trans hkeeps.total (Nat.le_trans hadvanced.grown hkept.total),
        hkept.directory.trans hadvanced.directory⟩

/-- **Writing a stream** comes to a sound vault, with the stream or as it was. -/
theorem writeWith_yields {v : Vault} (h : v.Sound) (name : String) (data : ByteArray)
    (flags : Flags) : (writeWith name data flags v).Yields (v.Written name data flags) := by
  rw [writeWith_eq, Action.yields_vault, Action.yields_bind]
  cases hplace : checkPlace v.directory name with
  | error err => exact ⟨h, Keeps.refl v⟩
  | ok u =>
    obtain ⟨hname, hroom⟩ := checkPlace_ok hplace
    show (((allocate data.size >>= _) : Action Unit) v).Yields _
    rw [Action.yields_bind]
    refine (allocate_yields h.held data.size).mono ?_
    intro outcome halloc
    obtain ⟨result, w⟩ := outcome
    cases result with
    | error err =>
      obtain ⟨hkeeps, howns⟩ := halloc
      exact ⟨h.of_keeps hkeeps (h.held.of_keeps hkeeps howns), hkeeps⟩
    | ok extent =>
      obtain ⟨hkeeps, howns, hcount, _⟩ := halloc
      -- the new extent is held beside those of the streams
      have hheld : w.Held (extent :: streamExtents v.directory) := h.held.of_taken hkeeps howns
      refine (store_yields h hkeeps hheld (h.valid.insert hname hroom
        (check_of_allocated h.held.blockSize hcount)) data).mono ?_
      intro outcome hturned
      obtain ⟨result, x⟩ := outcome
      cases result with
      | error err => exact hturned
      | ok u =>
        obtain ⟨hsound, hsettings, hgrown, hdirectory⟩ := hturned
        exact ⟨hsound, hsettings, hgrown, _, ⟨rfl, rfl, rfl, hcount⟩, hdirectory⟩

theorem write_yields {v : Vault} (h : v.Sound) (name : String) (data : ByteArray) :
    (write name data v).Yields (v.Written name data
      (match v.directory.find? name with
        | some e => e.flags
        | none => Flags.none)) := by
  unfold write
  rw [Action.yields_vault]
  exact writeWith_yields h name data _

/-- **Deleting a stream** comes to a sound vault without it, if it was there. -/
theorem delete_yields {v : Vault} (h : v.Sound) (name : String) :
    (delete name v).Yields fun outcome =>
      v.Turned (v.directory.erase name) outcome
        ∧ (outcome.1.isOk = true → ∃ e, v.directory.find? name = some e) := by
  unfold delete
  rw [Action.yields_vault, Action.yields_bind]
  unfold entry
  cases hfind : v.directory.find? name with
  | none => exact ⟨⟨h, Keeps.refl v⟩, fun hok => nomatch hok⟩
  | some e =>
    show (((commit (v.directory.erase name) >>= _) : Action Unit) v).Yields _
    rw [Action.yields_bind]
    -- for the commit the stream's extent is one that is held beside the directory
    have hheld : v.Held (e.extent :: streamExtents (v.directory.erase name)) :=
      h.held.perm (streamExtents_erase hfind)
    refine (commit_yields hheld (v.directory.erase name)).mono ?_
    intro outcome hcommit
    obtain ⟨result, w⟩ := outcome
    cases result with
    | error err =>
      obtain ⟨hkeeps, hwheld⟩ := hcommit
      exact ⟨⟨h.of_keeps hkeeps (hwheld.perm (streamExtents_erase hfind).symm), hkeeps⟩,
        fun hok => nomatch hok⟩
    | ok u =>
      obtain ⟨hadvanced, hwheld⟩ := hcommit
      obtain ⟨hreleased, hkept, htotal⟩ := hwheld.released
      exact ⟨⟨hadvanced.sound hkept htotal hreleased (h.valid.erase name),
        hkept.settings.trans hadvanced.settings, Nat.le_trans hadvanced.grown hkept.total,
        hkept.directory.trans hadvanced.directory⟩, fun _ => ⟨e, rfl⟩⟩

/-! ## §3. Sizes. -/

/-- What comes of committing the same directory again. -/
theorem recommit_yields {v : Vault} {others : List Extent} (h : v.Held others) :
    (recommit v).Yields (v.Committed v.directory others) := by
  unfold recommit
  rw [Action.yields_vault]
  exact commit_yields h v.directory

/-- A longer medium has more blocks, all of them free. -/
theorem lengthen_yields {v : Vault} (h : v.Sound) (total : UInt64) :
    (lengthen total v).Yields fun outcome => outcome.2.Sound ∧ v.Keeps outcome.2 := by
  have hstay : v.Sound ∧ v.Keeps v := ⟨h, Keeps.refl v⟩
  unfold lengthen
  rw [Action.yields_vault]
  cases Word.mul? total v.blockSize.toUInt64 with
  | none => exact hstay
  | some bytes =>
    simp only []
    rw [Action.yields_bind]
    refine Action.yields_call fun result => ?_
    cases result with
    | error err => exact hstay
    | ok u =>
      -- new blocks are free, so the owners are the same
      have hkeeps : v.Keeps { v with blocks := v.blocks.extend total } :=
        keeps_of_blocks (BlockMap.le_total_extend v.blocks total)
      exact ⟨h.of_keeps hkeeps (h.held.of_keeps hkeeps (h.held.owns.extend total)), hkeeps⟩

/-- A longer medium, and a commit of the same directory. -/
theorem extend_yields {v : Vault} (h : v.Sound) (total : UInt64) :
    ((do lengthen total; recommit : Action Unit) v).Yields (v.Turned v.directory) := by
  rw [Action.yields_bind]
  refine (lengthen_yields h total).mono ?_
  intro outcome hend
  obtain ⟨result, w⟩ := outcome
  obtain ⟨hsound, hkeeps⟩ := hend
  cases result with
  | error err => exact ⟨hsound, hkeeps⟩
  | ok u =>
    rw [Action.Onward]
    -- the vault is sound already with its larger map; the commit follows from there
    refine (recommit_yields hsound.held).mono ?_
    intro outcome hcommit
    obtain ⟨result, x⟩ := outcome
    cases result with
    | error err =>
      obtain ⟨hkept, hxheld⟩ := hcommit
      exact ⟨hsound.of_keeps hkept hxheld, hkeeps.trans hkept⟩
    | ok u =>
      obtain ⟨hadvanced, hxheld⟩ := hcommit
      exact ⟨hadvanced.sound (Keeps.refl x) rfl hxheld hsound.valid,
        hadvanced.settings.trans hkeeps.settings, Nat.le_trans hkeeps.total hadvanced.grown,
        hadvanced.directory.trans hkeeps.directory⟩

/-- `w` is sound, and has the streams and the settings of `v`. -/
structure SameStreams (v w : Vault) : Prop where
  sound : w.Sound
  directory : w.directory = v.directory
  settings : w.settings = v.settings

/-- The part of a shrink after the directory is out of the way. -/
def cutTo (current total : UInt64) : Action Unit := do
  cutBlocks total
  recommit.onError (withBlocks current)
  let v ← Action.vault
  Action.setLength v.superblock.imageBytes

theorem shrinkTo_eq (current total : UInt64) :
    shrinkTo current total = (do
      let v ← Action.vault
      Action.require (checkStreams v.directory total)
      if total < v.superblock.directory.stop then
        recommit
        cutTo current total
      else cutTo current total) :=
  rfl

/-- A vault with fewer blocks in its map holds what it held. -/
theorem Held.cut {v : Vault} {others : List Extent} {total : UInt64} {cut : BlockMap}
    (h : v.Held others) (hleast : leastBlocks.toNat ≤ total.toNat)
    (hless : total.toNat < v.blocks.total.toNat) (hok : v.blocks.shrink total = .ok cut) :
    ({ v with blocks := cut } : Vault).Held others ∧ cut.total = total := by
  obtain ⟨howns, htotal, _⟩ := h.owns.shrink_ok hless hok
  exact ⟨⟨h.blockSize, h.version, by rw [htotal]; exact hleast, howns⟩, htotal⟩

/-- The cut comes to a sound vault; if it fails the map is as large as before. -/
theorem cutTo_yields {v : Vault} {current total : UInt64} (h : v.Sound)
    (hleast : leastBlocks.toNat ≤ total.toNat) (hless : total.toNat < v.blocks.total.toNat)
    (hback : ∀ cut, v.blocks.shrink total = .ok cut →
      v.superblock.totalBlocks.toNat ≤ current.toNat) :
    (cutTo current total v).Yields fun outcome => v.SameStreams outcome.2 := by
  unfold cutTo cutBlocks
  rw [Action.yields_bind, Action.yields_vault, Action.yields_bind]
  cases hcut : v.blocks.shrink total with
  | error err => exact ⟨h, rfl, rfl⟩
  | ok cut =>
    obtain ⟨hheld, htotal⟩ := h.held.cut hleast hless hcut
    show (((recommit.onError (withBlocks current) >>= _) : Action Unit)
      { v with blocks := cut }).Yields _
    rw [Action.yields_bind, Action.yields_onError]
    refine (recommit_yields hheld).mono ?_
    intro outcome hcommit
    obtain ⟨result, w⟩ := outcome
    cases result with
    | error err =>
      -- the old size again: it is no less than the committed one
      obtain ⟨⟨hsuperblock, hslot, hdirectory, hsettings, _⟩, hwheld⟩ := hcommit
      have hgrown := BlockMap.toNat_total_extend w.blocks current
      have hcommitted := hback cut hcut
      refine ⟨⟨⟨hwheld.blockSize, hwheld.version, ?_, ?_⟩, ?_, ?_, ?_, ?_⟩, hdirectory,
        hsettings⟩
      · exact Nat.le_trans hwheld.least (BlockMap.le_total_extend w.blocks current)
      · rw [show (withBlocks current w).directory = v.directory from hdirectory]
        exact hwheld.owns.extend current
      · rw [show (withBlocks current w).superblock = v.superblock from hsuperblock]
        exact h.check
      · rw [owners, show (withBlocks current w).superblock = v.superblock from hsuperblock,
          show (withBlocks current w).directory = v.directory from hdirectory]
        exact h.below
      · rw [show (withBlocks current w).superblock = v.superblock from hsuperblock]
        show _ ≤ (w.blocks.extend current).total.toNat
        omega
      · rw [show (withBlocks current w).superblock = v.superblock from hsuperblock,
          show (withBlocks current w).directory = v.directory from hdirectory]
        exact h.valid
    | ok u =>
      obtain ⟨hadvanced, hwheld⟩ := hcommit
      have hsound := hadvanced.sound (Keeps.refl w) rfl hwheld h.valid
      exact Action.yields_call fun result =>
        ⟨hsound, hadvanced.directory, hadvanced.settings⟩

theorem SameStreams.trans {u v w : Vault} (h : u.SameStreams v) (h' : v.SameStreams w) :
    u.SameStreams w :=
  ⟨h'.sound, h'.directory.trans h.directory, h'.settings.trans h.settings⟩

/-- Shrinking keeps the streams. -/
theorem shrinkTo_yields {v : Vault} {total : UInt64} (h : v.Sound)
    (hleast : leastBlocks.toNat ≤ total.toNat) (hless : total.toNat < v.blocks.total.toNat) :
    (shrinkTo v.blocks.total total v).Yields fun outcome => v.SameStreams outcome.2 := by
  rw [shrinkTo_eq, Action.yields_vault, Action.yields_bind]
  cases checkStreams v.directory total with
  | error err => exact ⟨h, rfl, rfl⟩
  | ok u =>
    by_cases hway : total < v.superblock.directory.stop
    · show (((if total < v.superblock.directory.stop then _ else _) : Action Unit) v).Yields _
      rw [if_pos hway, Action.yields_bind]
      refine (recommit_yields h.held).mono ?_
      intro outcome hcommit
      obtain ⟨result, w⟩ := outcome
      cases result with
      | error err =>
        obtain ⟨hkeeps, hwheld⟩ := hcommit
        exact ⟨h.of_keeps hkeeps hwheld, hkeeps.directory, hkeeps.settings⟩
      | ok u =>
        obtain ⟨hadvanced, hwheld⟩ := hcommit
        have hsound := hadvanced.sound (Keeps.refl w) rfl hwheld h.valid
        have hlarge := hadvanced.grown
        refine (cutTo_yields hsound hleast (by omega) fun cut hcut => ?_).mono fun outcome hsame =>
          SameStreams.trans ⟨hsound, hadvanced.directory, hadvanced.settings⟩ hsame
        · -- a vault that grew has its directory in the way, and is not cut
          rw [hadvanced.total]
          apply Nat.le_of_not_lt
          intro hlt
          obtain ⟨block, hin, hbeyond⟩ := hadvanced.reach hlt
          have hfewer : total.toNat < w.blocks.total.toNat := by omega
          obtain ⟨err, hfails⟩ := hwheld.owns.shrink_of_above hfewer
            (List.mem_cons_of_mem _ List.mem_cons_self) hin (by omega)
          rw [hfails] at hcut
          cases hcut
    · show (((if total < v.superblock.directory.stop then _ else _) : Action Unit) v).Yields _
      rw [if_neg hway]
      exact cutTo_yields h hleast hless fun _ _ => h.committed

/-- **A resize comes to a sound vault with the same streams.** -/
theorem resize_yields {v : Vault} (h : v.Sound) (total : UInt64) :
    (resize total v).Yields fun outcome => v.SameStreams outcome.2 := by
  have hstay : v.SameStreams v := ⟨h, rfl, rfl⟩
  unfold resize
  by_cases hsmall : total < leastBlocks
  · rw [if_pos hsmall]
    exact hstay
  · rw [if_neg hsmall, Action.yields_vault]
    by_cases hsame : total = v.blocks.total
    · rw [if_pos hsame]
      exact hstay
    · rw [if_neg hsame]
      by_cases hmore : v.blocks.total < total
      · rw [if_pos hmore]
        refine (extend_yields h total).mono ?_
        intro outcome hturned
        obtain ⟨result, w⟩ := outcome
        cases result with
        | error err =>
          obtain ⟨hsound, hkeeps⟩ := hturned
          exact ⟨hsound, hkeeps.directory, hkeeps.settings⟩
        | ok u =>
          obtain ⟨hsound, hsettings, _, hdirectory⟩ := hturned
          exact ⟨hsound, hdirectory, hsettings⟩
      · rw [if_neg hmore]
        rw [UInt64.lt_iff_toNat_lt] at hsmall hmore
        refine shrinkTo_yields h (by omega) ?_
        -- the size is neither too small, nor the same, nor larger
        have hne : total.toNat ≠ v.blocks.total.toNat := fun h' =>
          hsame (UInt64.toNat_inj.mp h')
        omega

end StateVault.Vault
