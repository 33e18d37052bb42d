/-
  StateVault.Proofs.Vault.Transient
  ─────────────────────────────────
  **WHAT OPENS IS WHAT WAS PASSED, UNLESS THE IMAGE IS AHEAD OF ITS HANDLE.**

  Calls fail, syncs among them, and the handle stays in use.  An update fails
  also when its last sync does; but then its record is written.  The image is
  then one commit ahead of the handle, and the handle takes the blocks of this
  commit for free ones.

    • `Request.ensures_underway` — one update, syncs that fail included,
    • `streams_are_genuine`      — opening the image after any run of updates,
                                 as long as it is not ahead, and always from
                                 the next record on,
    • `stream_overwritten`       — what an update does to an image that is.
-/
import StateVault.Proofs.Storage.Stopping
import StateVault.Proofs.Vault.Durability

namespace StateVault

/-- Any call may fail, and writes that fail land half of their bytes at most. -/
def Failures.transient : Failures :=
  ⟨True, True, fun count landed => landed ≤ count / 2, True, True⟩

theorem Allowance.rule_within : Allowance.rule.Within Failures.transient where
  read _ _ _ _ _ := trivial
  write _ _ _ _ _ := trivial
  tear a offset count landed h := by
    show landed ≤ count / 2
    have h : (Allowance.next a (.write offset count)).1 = .fails (some landed) := h
    unfold Allowance.next at h
    dsimp only at h
    split at h
    · cases h
    · split at h
      · cases h
        exact Nat.le_refl _
      · cases h
  setLength _ _ _ _ := trivial
  sync _ _ _ := trivial

namespace Vault

variable {F : Failures} {I : Watched → Prop}

/-! ## §1. Updates stop at a sync that fails. -/

theorem fill_stopping (e : Extent) (data : ByteArray) : (fill e data).Stopping := by
  unfold fill
  refine Action.stopping_vault.bind fun v => ?_
  by_cases hempty : e.isEmpty = true
  · rw [if_pos hempty]
    exact fun _ => trivial
  · rw [if_neg hempty]
    exact Action.stopping_write _ _

theorem allocateGrowing_stopping (needed : UInt64) : (allocateGrowing needed).Stopping := by
  intro v
  induction v using allocateGrowing.induct needed with
  | case1 v e blocks hfit =>
    rw [allocateGrowing_of_fits hfit]
    trivial
  | case2 v err hfit hgrow total hbytes =>
    rw [allocateGrowing_of_overflow hfit hgrow hbytes]
    trivial
  | case3 v err hfit hgrow total bytes hbytes ih =>
    rw [allocateGrowing_of_grows hfit hgrow hbytes]
    intro result
    cases result with
    | ok u => exact ih
    | error e => trivial
  | case4 v err hfit hgrow =>
    rw [allocateGrowing_of_full hfit hgrow]
    trivial

theorem allocate_stopping (bytes : Nat) : (allocate bytes).Stopping :=
  Action.stopping_vault.bind fun _ => allocateGrowing_stopping _

/-- A commit syncs twice, and fails where a sync does. -/
theorem writeCommit_stopping (e : Extent) (bytes : ByteArray) (s : Superblock) (slot : Slot) :
    (writeCommit e bytes s slot).Stopping := by
  refine (fill_stopping e bytes).bind fun _ => ?_
  refine Action.stopping_sync.bind fun _ => ?_
  exact (Action.stopping_write _ _).bind fun _ => Action.stopping_sync

theorem commit_stopping (d : Directory) : (commit d).Stopping := by
  refine Action.stopping_vault.bind fun v => ?_
  cases Word.add? v.generation 1 with
  | none => exact fun _ => trivial
  | some generation =>
    refine (Action.stopping_require _).bind fun bytes => ?_
    refine (allocate_stopping bytes.size).bind fun e => ?_
    refine Action.stopping_vault.bind fun w => ?_
    exact ((writeCommit_stopping _ _ _ _).onError _).bind fun _ => Action.stopping_modify _

theorem store_stopping (d : Directory) (e : Entry) (data : ByteArray) :
    (store d e data).Stopping := by
  refine Action.Stopping.bind ?_ fun _ => Action.stopping_modify _
  exact ((fill_stopping _ _).bind fun _ => commit_stopping _).onError _

theorem writeWith_stopping (name : String) (data : ByteArray) (flags : Flags) :
    (writeWith name data flags).Stopping := by
  rw [writeWith_eq]
  refine Action.stopping_vault.bind fun v => ?_
  refine (Action.stopping_require _).bind fun _ => ?_
  exact (allocate_stopping _).bind fun _ => store_stopping _ _ _

theorem delete_stopping (name : String) : (delete name).Stopping := by
  refine Action.stopping_vault.bind fun v => ?_
  refine (Action.stopping_require _).bind fun e => ?_
  exact (commit_stopping _).bind fun _ => Action.stopping_modify _

/-- **An update ends at a sync that fails.** -/
theorem Request.stopping_of_isUpdate {r : Request} (h : r.isUpdate = true) :
    r.action.Stopping := by
  have hreturn : ∀ {x : Action Unit}, x.Stopping →
      (x >>= fun _ => (return .done : Action Answer)).Stopping :=
    fun hx => hx.bind fun _ _ => trivial
  cases r with
  | write name data =>
    exact hreturn (Action.stopping_vault.bind fun _ => writeWith_stopping _ _ _)
  | writeWith name data flags => exact hreturn (writeWith_stopping _ _ _)
  | delete name => exact hreturn (delete_stopping name)
  | resize total => cases h
  | read name => cases h
  | verify => cases h

/-- **One update**, whichever calls fail: after each call, and at the end, its
record is not written yet, with nothing to be seen of a sync that failed, or
the image has the update done.  The handle has it by the result. -/
theorem Request.ensures_underway {v : Vault} {t : Watched} (h : v.Live t.image) {r : Request}
    (hupdate : r.isUpdate = true) :
    (r.action v).Ensures F (r.Underway F.synced v t) t fun outcome t' =>
      r.Underway F.synced v t t' ∧ r.Ended F v t outcome t' := by
  have hadvances := Request.advances_of_isUpdate (v := v) hupdate
  -- with syncs that go through each moment is told; a sync that fails only cuts the row short
  have hsynced := Request.ensures_end (F := F.synced) h hadvances
  have hended := Request.ensures_end (F := F) h hadvances
  exact (hsynced.despite_syncs (Request.stopping_of_isUpdate hupdate v)
    (Or.inl (undecided_refl v t))).and_end (hended.weaken fun _ _ => trivial)

/-! ## §2. A handle that stays in use. -/

/-- An open vault that can go on: its streams and its superblock are in the
image, whatever stands in the place of the next record. -/
structure Usable (v : Vault) (image : Image) : Prop where
  live : v.Live image
  anchored : v.Anchored image
  room : v.Room image

theorem Durable.usable {v : Vault} {image : Image} (h : v.Durable image) : v.Usable image :=
  ⟨h.live, h.recorded.anchored, h.room⟩

section Steps

variable {v w : Vault} {t t' : Watched} {r : Request}

/-- After an update that has failed the handle goes on with the old streams. -/
theorem Usable.unmade (h : v.Usable t.image) (hunmade : Unmade F v t w t') :
    w.Usable t'.image ∧ w.contents t'.image = v.contents t.image := by
  obtain ⟨hlive, hcontents⟩ := hunmade.contents h.live
  have halike := hunmade.keeps.alike
  have hanchored := h.anchored.of_keeps h.live.sound.held hunmade.undecided.kept
  exact ⟨⟨hlive, hanchored.congr halike.superblock halike.slot, hunmade.room h.room⟩, hcontents⟩

/-- With the update done the image records the new vault, even if it did not
record the old one: the place of the new record is that of any other. -/
theorem Usable.made (h : v.Usable t.image) (hmade : r.Made F v t w t') :
    w.Durable t'.image := by
  obtain ⟨⟨d, hr⟩, hlive, _, _⟩ := hmade
  exact ⟨hlive, hr.recorded h.live.sound h.anchored, hr.decided.room h.room⟩

/-! ## §3. Where the bytes come from. -/

/-- The request passes these bytes for this name. -/
def Request.Passes (name : String) (bytes : ByteArray) : Request → Prop
  | .write target data => target = name ∧ data.bytes = bytes
  | .writeWith target data _ => target = name ∧ data.bytes = bytes
  | _ => False

/-- Each stream has the bytes that one of the requests passed for its name. -/
def Passed (rs : List Request) (streams : List Stream) : Prop :=
  ∀ s ∈ streams, ∃ q ∈ rs, q.Passes s.name s.bytes

/-- Opening the image goes through, and each stream that it shows has the bytes
that one of the requests passed for its name. -/
def Genuine (settings : Settings) (rs : List Request) (image : Image) : Prop :=
  ∃ c, shown settings image = .ok c ∧ Passed rs c.streams

variable {rs : List Request} {streams : List Stream} {settings : Settings}

theorem Passed.more (h : Passed rs streams) (r : Request) : Passed (rs ++ [r]) streams := by
  intro s hs
  obtain ⟨q, hq, hpasses⟩ := h s hs
  exact ⟨q, List.mem_append_left _ hq, hpasses⟩

/-- The request that writes a stream passes its bytes. -/
theorem Passed.put (h : Passed rs streams) {r : Request} {s : Stream}
    (hpasses : r.Passes s.name s.bytes) : Passed (rs ++ [r]) (Stream.put s streams) := by
  intro x hx
  rcases Stream.mem_put hx with rfl | hx
  · exact ⟨r, List.mem_append_right _ List.mem_cons_self, hpasses⟩
  · exact h.more r x hx

/-- A request changes streams only to those that it passes itself. -/
theorem Passed.change (h : Passed rs streams) (r : Request) :
    Passed (rs ++ [r]) (r.change streams) := by
  cases r with
  | write name data => exact h.put ⟨rfl, rfl⟩
  | writeWith name data flags => exact h.put ⟨rfl, rfl⟩
  | delete name =>
    intro s hs
    exact h.more _ s (List.mem_filter.mp hs).1
  | _ => exact h.more _

/-- A vault that its image records shows its own streams. -/
theorem Durable.genuine {image : Image} (h : v.Durable image)
    (hpassed : Passed rs (v.contents image)) (hsettings : Acceptable settings) :
    Genuine settings rs image :=
  ⟨_, h.recalls.shown hsettings, hpassed⟩

/-- **One moment of an update.**  If the image recorded the vault before, or
the record of the update is written by now, opening the image shows what was
passed. -/
theorem Usable.genuine (hF : F.Mild) (h : v.Usable t.image)
    (hpassed : Passed rs (v.contents t.image)) (hunderway : r.Underway F v t t')
    (hrecord : v.Recorded t.image ∨ t.records < t'.records) (hsettings : Acceptable settings) :
    Genuine settings (rs ++ [r]) t'.image := by
  rcases hunderway with hundecided | ⟨w, hmade⟩
  -- the record is not in: the image is the one from before, which has to have recorded `v`
  · have hsame := (hundecided.torn hF.sync).1
    have hrecorded := hrecord.resolve_right (by omega)
    obtain ⟨_, hlive, hrecorded', hcovers, hsummary⟩ := recalls_of_undecided hF h.live hrecorded
      (h.live.sound.covers h.room) trivial hundecided
    have hrecalls : Recalls t'.image (v.summary t.image) :=
      ⟨v, hlive, hrecorded', hcovers, hsummary⟩
    exact ⟨_, hrecalls.shown hsettings, hpassed.more r⟩
  · refine (h.made hmade).genuine ?_ hsettings
    rw [hmade.contents]
    exact hpassed.change r

end Steps

/-! ## §4. Runs. -/

namespace Handle

variable {ω : Type} {rule : FaultRule ω}

/-- The bytes under a handle. -/
def image (h : Handle (Tally (Faulty rule Image))) : Image :=
  h.medium.medium.medium

/-- The bytes, and the records that were written whole. -/
def watched (h : Handle (Tally (Faulty rule Image))) : Watched :=
  h.medium.watched fun x => x.medium

/-- The media after each call of a request, and at its end. -/
def moments (h : Handle (Tally (Faulty rule Image))) (r : Request) :
    List (Tally (Faulty rule Image)) :=
  (r.action h.vault).states h.medium ++ [(h.perform r).2.medium]

/-- The handles that come of a format that went through and of any updates
after it, with the list of these, and whether the image is ahead: an update
has failed with its record written, and none has gone through since. -/
inductive Attempted : Handle (Tally (Faulty rule Image)) → List Request → Bool → Prop where
  | formatted {settings : Settings} {v : Vault} {x x' : Tally (Faulty rule Image)}
      (h : (format settings).run x = (.ok v, x')) : Attempted ⟨v, x'⟩ [] false
  | performed {h : Handle (Tally (Faulty rule Image))} {rs : List Request} {ahead : Bool}
      (before : Attempted h rs ahead) (r : Request) (hupdate : r.isUpdate = true) :
      Attempted (h.perform r).2 (rs ++ [r])
        (!(h.perform r).1.isOk
          && (ahead || h.medium.records != (h.perform r).2.medium.records))

/-- What a run of updates keeps, whichever calls fail in it. -/
structure InUse (h : Handle (Tally (Faulty rule Image))) (rs : List Request) (ahead : Bool) :
    Prop where
  usable : h.vault.Usable h.image
  passed : Passed rs (h.vault.contents h.image)
  recorded : ahead = false → h.vault.Recorded h.image

variable {h : Handle (Tally (Faulty rule Image))} {rs : List Request} {ahead : Bool} {r : Request}

/-- Each moment of an update, and what comes of it. -/
theorem perform_underway (hrule : rule.Within Failures.transient) (hlive : h.vault.Live h.image)
    (hupdate : r.isUpdate = true) :
    (∀ y ∈ h.moments r,
        r.Underway Failures.crashes h.vault h.watched (y.watched fun x => x.medium))
      ∧ r.Ended Failures.transient h.vault h.watched ((h.perform r).1, (h.perform r).2.vault)
          (h.perform r).2.watched := by
  have hensures : (r.action h.vault).Ensures Failures.transient
      (r.Underway Failures.crashes h.vault h.watched) h.watched _ :=
    Request.ensures_underway (F := Failures.transient) (t := h.watched) hlive hupdate
  obtain ⟨hstates, hend, hended⟩ := hensures.on_tally hrule.obeys
  refine ⟨?_, hended⟩
  intro y hy
  rcases List.mem_append.mp hy with hy | hy
  · exact hstates y hy
  · rw [List.mem_singleton.mp hy]
    exact hend

/-- **One update** keeps the handle in use. -/
theorem InUse.perform (hrule : rule.Within Failures.transient) (huse : h.InUse rs ahead)
    (hupdate : r.isUpdate = true) :
    (h.perform r).2.InUse (rs ++ [r]) (!(h.perform r).1.isOk
      && (ahead || h.medium.records != (h.perform r).2.medium.records)) := by
  obtain ⟨hmoments, hended⟩ := perform_underway hrule huse.usable.live hupdate
  have hlast := hmoments _ (List.mem_append_right _ List.mem_cons_self)
  cases hresult : (h.perform r).1 with
  | ok a =>
    -- the new record counts, whether or not the image was ahead
    rw [hresult] at hended
    have hmade := hended.1
    have hdurable := huse.usable.made hmade
    refine ⟨hdurable.usable, ?_, fun _ => hdurable.recorded⟩
    have hcontents := hmade.contents
    exact hcontents ▸ huse.passed.change r
  | error e =>
    rw [hresult] at hended
    obtain ⟨husable, hcontents⟩ := huse.usable.unmade hended
    refine ⟨husable, hcontents ▸ huse.passed.more r, ?_⟩
    intro hbehind
    -- no record has come in, so that nothing is decided
    have hbehind : ahead = false ∧ h.medium.records = (h.perform r).2.medium.records := by
      simpa [Except.isOk, Except.toBool] using hbehind
    obtain ⟨rfl, hsame⟩ := hbehind
    rcases hlast with hundecided | ⟨w, ⟨d, hr⟩, _⟩
    · exact (huse.recorded rfl).kept Failures.mild_crashes huse.usable.live.sound hundecided
        hended.keeps.alike
    · have hmore := hr.decided.records id
      exact absurd hmore (by
        show (h.perform r).2.medium.records ≠ h.medium.records + 1
        omega)

/-- **The run lemma**: after any updates the vault can go on, and its streams
were passed. -/
theorem Attempted.inUse (hrule : rule.Within Failures.transient) (hr : h.Attempted rs ahead) :
    h.InUse rs ahead := by
  induction hr with
  | @formatted settings v x x' hrun =>
    have hnew := formatted_of_run hrule.obeys.tally hrun
    refine ⟨hnew.durable.usable, ?_, fun _ => hnew.recorded⟩
    show Passed [] (v.contents x'.medium.medium)
    rw [hnew.contents]
    exact fun s hs => absurd hs List.not_mem_nil
  | performed before r hupdate ih => exact ih.perform hrule hupdate

end Handle

/-! ## §5. Blocks that are used twice. -/

/-- The blocks that bytes for a stream get without growth, and the vault with
these blocks in use. -/
def fitted (v : Vault) (bytes : Nat) : Option (Extent × Vault) :=
  match v.blocks.allocate (blocksToHold (UInt64.ofNat bytes) v.blockSize) with
  | .ok (e, blocks) => some (e, { v with blocks })
  | .error _ => none

section Reuse

variable {v w x : Vault} {t : Watched} {image image' : Image} {name : String} {data : ByteArray}
  {extent : Extent} {e : Entry} {others : List Extent}

/-- No byte of the directory is in the extent of a stream. -/
theorem Held.not_inExtent_of_directory (h : v.Held others) (he : extent ∈ others) {p : Nat}
    (hp : v.InExtent v.superblock.directory p) : ¬ v.InExtent extent p := by
  intro hin
  have hdirectory := h.owns.within v.superblock.directory
    (List.mem_cons_of_mem _ List.mem_cons_self)
  have hextent := h.owns.within extent (List.mem_cons_of_mem _ (List.mem_cons_of_mem _ he))
  have hapart := (List.pairwise_cons.mp (List.pairwise_cons.mp h.owns.apart).2).1 extent he
  exact hapart _ ((h.mem_iff_inExtent hdirectory p).mpr hp)
    ((h.mem_iff_inExtent hextent p).mpr hin)

/-- Whatever comes into the blocks of a stream, the image still records the
vault: neither a copy of the superblock nor the directory has a byte there. -/
theorem Durable.filled (h : v.Durable image) (he : e ∈ v.streams)
    (hfilled : v.Filled e.extent image image') : v.Durable image' := by
  have hheld := h.live.sound.held
  have hextent : e.extent ∈ streamExtents v.directory := List.mem_map_of_mem he
  have hregion := h.live.region
  have hsize : regionSize = 1024 := rfl
  have hbounds := size_bytes_bounds h.live.sound v.generation
  have hlength := h.recorded.length_le h.live.sound
  -- the extent lies behind both copies of the superblock, and apart from the directory
  have hcopy : ∀ slot : Slot,
      Bytes.slice image' slot.offset 64 = Bytes.slice image slot.offset 64 := by
    intro slot
    have hslot := slot_offset_le slot
    refine hfilled.kept.slice (by omega) fun p _ hhigh hin => ?_
    have hafter := hheld.region_le_of_inExtent (List.mem_cons_of_mem _ hextent) hin
    omega
  refine ⟨⟨h.live.sound, h.live.addressable, ?_, ?_⟩, ⟨?_, ?_, ?_, ?_, h.recorded.length⟩, ?_⟩
  · rw [hfilled.size]
    exact hregion
  · intro o ho hne
    rw [hfilled.size]
    exact h.live.inBounds o ho hne
  · rw [hfilled.size]
    exact hregion
  · rw [hcopy]
    exact h.recorded.active
  · rw [spare, hcopy]
    exact h.recorded.stale
  · rw [hfilled.kept.slice (h.recorded.directory_le (by omega)), h.recorded.directory]
    intro p hlow hhigh
    refine hheld.not_inExtent_of_directory hextent ⟨hlow, ?_⟩
    rw [Nat.add_mul]
    omega
  · exact h.room.congr rfl rfl hfilled.size

theorem allocate_of_fitted {n : Nat} (h : v.fitted n = some (extent, w)) :
    allocate n v = .done (.ok extent, w) := by
  unfold fitted at h
  split at h
  · rename_i hfit
    cases h
    exact allocateGrowing_of_fits hfit
  · cases h

/-- A write whose blocks are found without growth. -/
theorem writeWith_of_fitted (hplace : checkPlace v.directory name = .ok ())
    (hfitted : v.fitted data.size = some (extent, w)) (flags : Flags) :
    writeWith name data flags v
      = store v.directory ⟨name, extent, UInt64.ofNat data.size, flags⟩ data w := by
  have hvault : ∀ f : Vault → Action Unit, (Action.vault >>= f) v = f v v := fun _ => rfl
  rw [writeWith_eq, hvault, hplace]
  show Script.bind (allocate data.size v) _ = _
  rw [allocate_of_fitted hfitted]
  rfl

theorem allotted_of_fitted (h : v.Sound) (hplace : checkPlace v.directory name = .ok ())
    (hfitted : v.fitted data.size = some (extent, w)) (flags : Flags) (t : Watched) :
    Allotted v t name data flags ⟨name, extent, UInt64.ofNat data.size, flags⟩ w t := by
  have halloc := allocate_yields h.held data.size
  have hstretched : (allocate data.size v).Ensures Failures.none (fun _ => True) t _ :=
    allocateGrowing_ensures trivial fun _ _ _ _ => trivial
  rw [allocate_of_fitted hfitted] at halloc hstretched
  exact allotted_of_allocated h hplace halloc hstretched.2 rfl flags

/-- Once its record is in, such a write has stored the stream in these
blocks. -/
theorem write_stores {data : Payload} (h : v.Live t.image)
    (hplace : checkPlace v.directory name = .ok ())
    (hfitted : v.fitted data.bytes.size = some (extent, w)) (hsync : ¬ F.sync) {flags : Flags}
    (hflags : flags = Stream.flagsOf name (v.contents t.image)) :
    ((Request.write name data).action v).Ensures F (fun t' => t'.records = t.records ∨ ∃ x,
        Stored F v t name data.bytes flags
          ⟨name, extent, UInt64.ofNat data.bytes.size, flags⟩ x t') t fun _ _ => True := by
  refine ensures_return (f := fun _ => Answer.done) ?_
  rw [write_eq name data.bytes v t.image, ← hflags, writeWith_of_fitted hplace hfitted]
  refine (store_ensures (allotted_of_fitted h.sound hplace hfitted flags t) h.sound h.addressable
    h.region data.fits ?_ ?_).mono fun _ _ _ => trivial
  · exact fun t' hundecided => Or.inl (hundecided.torn hsync).1
  · exact fun x t' hstored => Or.inr ⟨x, hstored⟩

/-- Bytes for an extent that is not empty are one call. -/
theorem fill_of_nonempty (v : Vault) (hne : extent.count.toNat ≠ 0) (data : ByteArray) :
    fill extent data v = Action.write (v.blockOffset extent.start)
      (padded data (extent.capacity v.blockSize).toNat) v := by
  have hempty : ¬ extent.isEmpty = true := fun h => hne ((Extent.isEmpty_iff extent).mp h)
  have hfill : fill extent data v = (if extent.isEmpty = true then return ()
      else Action.write (v.blockOffset extent.start)
        (padded data (extent.capacity v.blockSize).toNat) : Action Unit) v := rfl
  rw [hfill, if_neg hempty]

/-- **A write into blocks that are in use.**  The image records the vault `x`,
and the open vault finds, for the bytes of a write, the blocks of a stream of
`x`.  With the first call of the write the image still records `x`, and has
these bytes in the place of the stream's. -/
theorem reused {μ : Type} [Medium μ] {view : μ → Image} (hobeys : Obeys F view) {m : μ}
    (hx : x.Durable (view m)) (he : e ∈ x.streams) (h : v.Sound) (haddress : v.Addressable)
    (hwidth : v.width = x.width) (hplace : checkPlace v.directory name = .ok ())
    (hfitted : v.fitted data.size = some (e.extent, w)) (hdata : data.size < UInt64.size)
    (hsome : data.size ≠ 0) (hpasses : ((fill e.extent data w).run m).1.1.isOk = true)
    (flags : Flags) :
    ∃ y ∈ (writeWith name data flags v).states m, x.Durable (view y)
      ∧ Bytes.slice (view y) (e.extent.start.toNat * x.width) data.size = data := by
  have ha := allotted_of_fitted h hplace hfitted flags ⟨view m, 0⟩
  have henough := ha.enough h hdata
  -- a stream with bytes has blocks
  have hne : e.extent.count.toNat ≠ 0 := by
    intro hzero
    have henough : data.size ≤ e.extent.count.toNat * w.width := henough
    rw [hzero, Nat.zero_mul] at henough
    omega
  obtain ⟨_, _, _, hfilled, hdone⟩ := (fill_ensures (F := F) (I := fun _ => True)
    (t := ⟨view m, 0⟩) ha.held List.mem_cons_self (ha.stretched.addressable haddress) henough
    fun _ _ => trivial).on_medium hobeys
  have hok : ((fill e.extent data w).run m).1.1 = .ok () := by
    cases hresult : ((fill e.extent data w).run m).1.1 with
    | ok u => rfl
    | error err =>
      rw [hresult] at hpasses
      cases hpasses
  obtain ⟨hholds, _⟩ := hdone hok hne
  have hslice := hholds.bytes henough
  have hsame : w.width = x.width := ha.width.trans hwidth
  refine ⟨((fill e.extent data w).run m).2, ?_, hx.filled he ?_, ?_⟩
  · rw [writeWith_of_fitted hplace hfitted]
    unfold store
    -- the image after the first write of all
    rw [Action.states_bind, Action.states_onError, Action.states_bind]
    refine List.mem_append_left _ (List.mem_append_left _ ?_)
    show ((fill e.extent data w).run m).2 ∈ Script.states (fill e.extent data w) m
    rw [fill_of_nonempty w hne]
    exact List.mem_cons_self
  · obtain ⟨hkept, hsize⟩ := hfilled
    unfold InExtent at hkept
    rw [hsame] at hkept
    exact ⟨hkept, hsize⟩
  · rw [← hsame]
    exact hslice

end Reuse

namespace Handle

variable {ω : Type} {rule : FaultRule ω} {h : Handle (Tally (Faulty rule Image))}

/-- An update that fails leaves the handle its streams. -/
theorem unmade_of_failed (hrule : rule.Within Failures.transient) (hlive : h.vault.Live h.image)
    {r : Request} (hupdate : r.isUpdate = true) (hfailed : (h.perform r).1.isOk = false) :
    Unmade Failures.transient h.vault h.watched (h.perform r).2.vault (h.perform r).2.watched := by
  obtain ⟨_, hended⟩ := perform_underway hrule hlive hupdate
  cases hresult : (h.perform r).1 with
  | ok a =>
    rw [hresult] at hfailed
    cases hfailed
  | error e =>
    rw [hresult] at hended
    exact hended

/-- A write whose record has come in has stored its stream, also if it fails. -/
theorem stored_of_records (hrule : rule.Within Failures.transient) (hlive : h.vault.Live h.image)
    {name : String} {data : Payload} {extent : Extent} {w : Vault}
    (hplace : checkPlace h.vault.directory name = .ok ())
    (hfitted : h.vault.fitted data.bytes.size = some (extent, w)) {flags : Flags}
    (hflags : flags = Stream.flagsOf name (h.vault.contents h.image))
    (hmore : h.medium.records < (h.perform (.write name data)).2.medium.records) :
    ∃ x, Stored Failures.crashes h.vault h.watched name data.bytes flags
      ⟨name, extent, UInt64.ofNat data.bytes.size, flags⟩ x
      (h.perform (.write name data)).2.watched := by
  have hstores := write_stores (F := Failures.transient.synced) (t := h.watched) hlive hplace
    hfitted id hflags
  obtain ⟨_, hend⟩ := (hstores.despite_syncs
    (Request.stopping_of_isUpdate rfl h.vault) (Or.inl rfl)).on_tally hrule.obeys
  exact hend.resolve_left (Nat.ne_of_gt hmore)

/-- **A stream is overwritten.**  The write of a stream fails after its record,
and the next write finds the blocks that it had taken.  With its first call
the image still opens with the first stream, which has the bytes of the second
one. -/
theorem overwrites (hrule : rule.Within Failures.transient) (husable : h.vault.Usable h.image)
    {name other : String} {data bytes : Payload} {extent : Extent} {w w' : Vault}
    (hplace : checkPlace h.vault.directory name = .ok ())
    (hfitted : h.vault.fitted data.bytes.size = some (extent, w)) {flags : Flags}
    (hflags : flags = Stream.flagsOf name (h.vault.contents h.image))
    (hfailed : (h.perform (.write name data)).1.isOk = false)
    (hmore : h.medium.records < (h.perform (.write name data)).2.medium.records)
    (hother : checkPlace h.vault.directory other = .ok ())
    (hfound : (h.perform (.write name data)).2.vault.fitted bytes.bytes.size = some (extent, w'))
    (hsome : bytes.bytes.size ≠ 0)
    (hpasses : ((fill extent bytes.bytes w').run
      (h.perform (.write name data)).2.medium).1.1.isOk = true) :
    ∃ x, h.vault.Follows
        (h.vault.directory.insert ⟨name, extent, UInt64.ofNat data.bytes.size, flags⟩) x
      ∧ ∃ y ∈ (h.perform (.write name data)).2.moments (.write other bytes),
          x.Durable y.medium.medium
          ∧ Bytes.slice y.medium.medium (extent.start.toNat * x.width) bytes.bytes.size
            = bytes.bytes := by
  have hlive := husable.live
  -- `x` is the vault that the record describes; the handle is back at the one before it
  obtain ⟨x, hstored⟩ := stored_of_records hrule hlive hplace hfitted hflags hmore
  have hunmade := unmade_of_failed hrule hlive (r := .write name data) rfl hfailed
  generalize h.perform (.write name data) = u at *
  have hdurable : x.Durable u.2.image :=
    ⟨(hstored.contents data.fits hlive).1,
      hstored.toRenewed.recorded hlive.sound husable.anchored,
      hstored.decided.room husable.room⟩
  have hentry : (⟨name, extent, UInt64.ofNat data.bytes.size, flags⟩ : Entry) ∈ x.streams := by
    rw [streams, hstored.follows.directory]
    exact Directory.mem_insert_self _ _
  have hwidth : u.2.vault.width = x.width := by
    rw [hstored.toRenewed.width, width, hunmade.keeps.superblock, width]
  rw [← hunmade.keeps.directory] at hother
  obtain ⟨y, hy, hafter, hbytes⟩ := reused hrule.obeys.tally hdurable hentry hunmade.sound
    (hunmade.addressable hlive.addressable) hwidth hother hfound bytes.fits hsome hpasses
    (Stream.flagsOf other (u.2.vault.contents u.2.image))
  refine ⟨x, hstored.follows, y, List.mem_append_left _ ?_, hafter, hbytes⟩
  rw [← write_eq] at hy
  show y ∈ Script.states ((Vault.write other bytes.bytes >>= _ : Action Answer) u.2.vault) _
  rw [Action.states_bind]
  exact List.mem_append_left _ hy

end Handle

/-! ## §6. Streams and where they come from. -/

/-- **Streams are genuine.**  After any run of updates from a format that went
through, whichever calls fail in it, opening the image goes through and shows
for each stream the bytes that an update passed for its name, unless the image
is ahead of the handle.  So it does at every moment of the next update; and if
the image is ahead, from the moment on at which the record of this update is
written. -/
theorem streams_are_genuine {ω : Type} {rule : FaultRule ω}
    (hrule : rule.Within Failures.transient) {h : Handle (Tally (Faulty rule Image))}
    {rs : List Request} {ahead : Bool} (hr : h.Attempted rs ahead) {settings : Settings}
    (hsettings : Acceptable settings) :
    (ahead = false → Genuine settings rs h.image)
      ∧ ∀ r : Request, r.isUpdate = true → ∀ y ∈ h.moments r,
          ahead = false ∨ h.medium.records < y.records →
          Genuine settings (rs ++ [r]) y.medium.medium := by
  have huse := hr.inUse hrule
  constructor
  · intro hbehind
    -- an image that is not ahead records the vault in hand
    have hdurable : h.vault.Durable h.image :=
      ⟨huse.usable.live, huse.recorded hbehind, huse.usable.room⟩
    exact hdurable.genuine huse.passed hsettings
  · intro r hupdate y hy hrecord
    obtain ⟨hmoments, _⟩ := Handle.perform_underway hrule huse.usable.live hupdate
    exact huse.usable.genuine (t := h.watched) Failures.mild_crashes huse.passed (hmoments y hy)
      (hrecord.imp huse.recorded id) hsettings

/-- An empty medium with three syncs left. -/
def threeSyncs : Tally (Faulty Allowance.rule Image) :=
  ⟨⟨ByteArray.empty, { Allowance.unlimited with syncs := some 3 }⟩, 0⟩

/-- A stream is written for which one sync is left: its record is written all
the same.  The block that it took is the one that the next stream gets, and
bytes can be written there. -/
theorem outline_of_failed_sync :
    (blindReplay eightBlocks [] (threeSyncs.seen (Faulty.seen Outline.ofImage))).bind (fun x =>
        (((Request.write "a" (.one 1)).action x.2.vault).blind x.2.medium).bind fun y =>
          (fitted y.1.2 1).bind fun found =>
            ((fill found.1 ⟨#[2]⟩ found.2).blind y.2).map fun z =>
              ((y.1.1.isOk, decide (x.2.medium.records < y.2.records), z.1.1.isOk),
                (fitted x.2.vault 1).map (·.1), found.1))
      = some ((false, true, true), some ⟨3, 1⟩, ⟨3, 1⟩) := by
  decide +kernel

/-- A format, and the write for which one sync is left. -/
theorem write_of_failed_sync :
    ∃ (h : Handle (Tally (Faulty Allowance.rule Image))) (w w' : Vault),
      (format eightBlocks).run threeSyncs = (.ok h.vault, h.medium)
      ∧ (h.perform (.write "a" (.one 1))).1.isOk = false
      ∧ h.medium.records < (h.perform (.write "a" (.one 1))).2.medium.records
      ∧ h.vault.fitted 1 = some (⟨3, 1⟩, w)
      ∧ (h.perform (.write "a" (.one 1))).2.vault.fitted 1 = some (⟨3, 1⟩, w')
      ∧ ((fill ⟨3, 1⟩ ⟨#[2]⟩ w').run (h.perform (.write "a" (.one 1))).2.medium).1.1.isOk
          = true := by
  obtain ⟨x, hblind, hwrite⟩ := Option.bind_eq_some_iff.mp outline_of_failed_sync
  obtain ⟨y, hblind', hnext⟩ := Option.bind_eq_some_iff.mp hwrite
  obtain ⟨⟨e, w'⟩, hsecond, hfill⟩ := Option.bind_eq_some_iff.mp hnext
  obtain ⟨z, hfilled, hfacts⟩ := Option.map_eq_some_iff.mp hfill
  simp only [Prod.mk.injEq, decide_eq_true_eq] at hfacts
  obtain ⟨⟨hfailed, hmore, hpasses⟩, hfirst, rfl⟩ := hfacts
  obtain ⟨⟨_, w⟩, hfirst, rfl⟩ := Option.map_eq_some_iff.mp hfirst
  have hview := (outline_view.faulty Allowance.rule).tallied
  obtain ⟨h, hreplay, hseen⟩ := replay_of_blind hview hblind
  rw [← hseen] at hblind' hmore hfirst
  -- the write fails with its record written, and both vaults find the same block free
  have hafter := Handle.perform_of_blind (h := h) hview hblind'
  refine ⟨h, w, w', format_of_replay hreplay, ?_⟩
  generalize h.perform (.write "a" (.one 1)) = u at hafter ⊢
  obtain ⟨hresult, hseen'⟩ := hafter
  have hmedium : u.2.medium.seen (Faulty.seen Outline.ofImage) = y.2 :=
    congrArg Handle.medium hseen'
  have hvault : u.2.vault = y.1.2 := congrArg Handle.vault hseen'
  rw [← hmedium] at hmore hfilled
  obtain ⟨⟨answer, _⟩, _⟩ := z
  obtain ⟨hanswer, _⟩ := hview.blind hfilled
  rw [hresult, hvault, hanswer]
  exact ⟨hfailed, hmore, hfirst, hsecond, hpasses⟩

/-- The last sync of a write fails, after its record.  What opens then has the
stream. -/
theorem genuine_after_failed_sync :
    ∃ h : Handle (Tally (Faulty Allowance.rule Image)),
      (format eightBlocks).run threeSyncs = (.ok h.vault, h.medium)
      ∧ (h.perform (.write "a" (.one 1))).1.isOk = false
      ∧ Genuine eightBlocks [.write "a" (.one 1)] (h.perform (.write "a" (.one 1))).2.image := by
  obtain ⟨h, _, _, hformat, hfailed, hmore, _⟩ := write_of_failed_sync
  obtain ⟨_, hgenuine⟩ := streams_are_genuine Allowance.rule_within
    (Handle.Attempted.formatted hformat) acceptable_eightBlocks
  exact ⟨h, hformat, hfailed, hgenuine (.write "a" (.one 1)) rfl _
    (List.mem_append_right _ List.mem_cons_self) (Or.inr hmore)⟩

/-- A format that leaves one sync, a write that fails at the next one, and the
write of another stream: the image shows the bytes of the second under the
name of the first. -/
theorem stream_overwritten :
    ∃ h : Handle (Tally (Faulty Allowance.rule Image)),
      (format eightBlocks).run threeSyncs = (.ok h.vault, h.medium)
      ∧ (h.perform (.write "a" (.one 1))).1.isOk = false
      ∧ ∃ y ∈ (h.perform (.write "a" (.one 1))).2.moments (.write "b" (.one 2)),
          shown eightBlocks y.medium.medium = .ok ⟨2, [⟨"a", Flags.none, 1, ⟨#[2]⟩⟩]⟩
          ∧ ¬ Genuine eightBlocks [.write "a" (.one 1), .write "b" (.one 2)]
              y.medium.medium := by
  obtain ⟨h, w, w', hformat, hfailed, hmore, hfirst, hsecond, hpasses⟩ := write_of_failed_sync
  have hnew := formatted_of_run Allowance.rule_within.obeys.tally hformat
  have husable : h.vault.Usable h.image := hnew.durable.usable
  have hplace : ∀ name, Name.check name = .ok () →
      checkPlace h.vault.directory name = .ok () := by
    intro name hname
    rw [hnew.empty, checkPlace, hname]
    rfl
  have hflags : Flags.none = Stream.flagsOf "a" (h.vault.contents h.image) := by
    rw [show h.vault.contents h.image = [] from hnew.contents]
    rfl
  have hfitted : h.vault.fitted (Payload.one 1).bytes.size = some (⟨3, 1⟩, w) := hfirst
  have hfound : (h.perform (.write "a" (.one 1))).2.vault.fitted (Payload.one 2).bytes.size
      = some (⟨3, 1⟩, w') := hsecond
  obtain ⟨x, hfollows, y, hy, hdurable, hbytes⟩ := Handle.overwrites Allowance.rule_within husable
    (hplace "a" rfl) hfitted hflags hfailed hmore (hplace "b" rfl) hfound
    (Nat.succ_ne_zero 0) hpasses
  have hstreams : x.streams = [⟨"a", ⟨3, 1⟩, 1, Flags.none⟩] := by
    rw [streams, hfollows.directory, hnew.empty]
    rfl
  have hsummary : x.summary y.medium.medium = ⟨2, [⟨"a", Flags.none, 1, ⟨#[2]⟩⟩]⟩ := by
    rw [summary, contents, hstreams, generation_of_follows hfollows, hnew.generation]
    exact congrArg (fun bytes => Contents.mk 2 [Stream.mk "a" Flags.none 1 bytes]) hbytes
  have hshown := hdurable.recalls.shown acceptable_eightBlocks
  rw [hsummary] at hshown
  refine ⟨h, hformat, hfailed, y, hy, hshown, ?_⟩
  intro hgenuine
  obtain ⟨c, hc, hpassed⟩ := hgenuine
  rw [hshown] at hc
  cases hc
  obtain ⟨q, hq, hpasses⟩ := hpassed _ List.mem_cons_self
  -- the bytes shown are those of the second write, and its name is another one
  have hother : (Payload.one 1).bytes ≠ ⟨#[2]⟩ := by decide
  have hname : "b" ≠ "a" := by decide
  rcases List.mem_cons.mp hq with hq | hq
  · rw [hq] at hpasses
    exact hother hpasses.2
  · rw [List.mem_singleton.mp hq] at hpasses
    exact hname hpasses.1

end Vault

end StateVault
