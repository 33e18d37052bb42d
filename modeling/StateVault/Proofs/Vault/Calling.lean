/-
  StateVault.Proofs.Vault.Calling
  ───────────────────────────────
  **EVERY STORAGE CALL IS AT AN EXACT PLACE.**

  Which calls an operation makes depends on what the medium answers, but not
  where they are: each reads or writes an extent whose blocks the vault has
  found or knows, or sets the length of a size that it has come to, and the
  place and the number of bytes are the exact products with the block size
  (`ExactCall`).  So it is for a medium that fails any of its calls, as long as
  it is never as long as 2^63 bytes.

    • `ExactCall`, `Moves`  — exact calls, and actions that make no others,
    • `Stays`               — the same for a part that changes nothing known,
    • `moves_allocate`, `fill_stays`, `writeCommit_stays` — the parts,
    • `commit_moves`        — the commit that they make up,
    • `writeWith_moves`, `delete_moves`, `resize_moves`, `read_moves` — the
                              operations.
-/
import StateVault.Proofs.Storage.Asks
import StateVault.Proofs.Vault.Arithmetic
import StateVault.Proofs.Vault.Requests

namespace StateVault.Vault

/-! ## §1. Exact calls. -/

/-- A vault of this superblock, without streams, of which no block is in use. -/
def bare (s : Superblock) : Vault :=
  ⟨s, .first, .empty, BlockMap.blank s.totalBlocks s.blockSize, Settings.standard⟩

/-- A superblock whose fields were checked, in an image that is as long as it
says. -/
structure Described (s : Superblock) : Prop where
  check : s.check = .ok ()
  unwrapped : (bare s).Unwrapped
  directory : (bare s).Within s.directory
  enough : s.directorySize.toNat ≤ s.directory.count.toNat * s.blockSize.toNat

/-- The calls of a survey: the copies of the superblock, and the directory
that one of them points at. -/
inductive SurveyCall : Call → Prop where
  | region : SurveyCall (.read 0 regionSize)
  | directory {s : Superblock} (h : Described s) :
      SurveyCall (.read (s.directory.start.toNat * s.blockSize.toNat) s.directorySize.toNat)

/-- A storage call at an exact place, in an operation on `v` that may ask for
the sizes `asked`. -/
inductive ExactCall (asked : UInt64 → Prop) (v : Vault) : Call → Prop where
  | surveys {c : Call} (h : SurveyCall c) : ExactCall asked v c
  | reads {e : Entry} (he : e ∈ v.streams) (hin : v.Within e.extent) :
      ExactCall asked v
        (.read (e.extent.start.toNat * v.width) (e.extent.count.toNat * v.width))
  /-- Bytes into blocks that the map has just found. -/
  | fills {u : Vault} {needed : UInt64} {e : Extent} {blocks : BlockMap} (hu : v.Shifts u)
      (h : u.blocks.allocate needed = .ok (e, blocks)) :
      ExactCall asked v (.write (e.start.toNat * v.width) (e.count.toNat * v.width))
  /-- The copy of the superblock that does not count. -/
  | records {u : Vault} (hu : v.Shifts u) : ExactCall asked v (.write u.slot.other.offset 64)
  /-- The length after a step of growth, for blocks that there is no run of. -/
  | grows {u : Vault} {needed : UInt64} {e : Error} (hu : v.Shifts u)
      (hfull : u.blocks.allocate needed = .error e) (hgrow : u.mayGrow = true)
      (hfits : (u.grownTotal needed).toNat * v.width < UInt64.size) :
      ExactCall asked v (.setLength ((u.grownTotal needed).toNat * v.width))
  | lengthens {total : UInt64} (h : asked total) (hfits : total.toNat * v.width < UInt64.size) :
      ExactCall asked v (.setLength (total.toNat * v.width))
  /-- The length of what is committed. -/
  | cuts {u : Vault} (hu : v.Shifts u) :
      ExactCall asked v (.setLength (u.superblock.totalBlocks.toNat * v.width))
  | syncs : ExactCall asked v .sync

/-- An action that makes exact calls only, and changes what is known as a
vault can change. -/
def Moves {α : Type} (asked : UInt64 → Prop) (v : Vault) (x : Action α) (w : Vault) : Prop :=
  (x w).Asks lengthLimit (ExactCall asked v) fun outcome => v.Shifts outcome.2

/-- One that leaves what is known as it is. -/
def Stays {α : Type} (asked : UInt64 → Prop) (v : Vault) (x : Action α) (w : Vault) : Prop :=
  (x w).Asks lengthLimit (ExactCall asked v) fun outcome => outcome.2 = w

section Rules

variable {α β : Type} {asked : UInt64 → Prop} {v w : Vault} {x : Action α}

/-- One move after another, from any vault that the first may have come to. -/
theorem Moves.bind {f : α → Action β} (hx : Moves asked v x w)
    (hf : ∀ a u, v.Shifts u → Moves asked v (f a) u) : Moves asked v (x >>= f) w := by
  refine (Action.asks_bind x f w).mpr (Script.Asks.mono hx ?_)
  intro outcome hend
  obtain ⟨result, u⟩ := outcome
  cases result with
  | ok a => exact hf a u hend
  | error e => exact hend

theorem moves_vault {f : Vault → Action β} (hf : Moves asked v (f w) w) :
    Moves asked v (Action.vault >>= f) w :=
  hf

/-- A check, or an answer, for which no call is made. -/
theorem moves_done {u : Vault} {result : Except Error α} (hx : x w = .done (result, u))
    (hu : v.Shifts u) : Moves asked v x w := by
  unfold Moves
  rw [hx]
  exact hu

/-- A check, and what is done after it. -/
theorem moves_require {check : Except Error α} {f : α → Action β} (hw : v.Shifts w)
    (hf : ∀ a, check = .ok a → Moves asked v (f a) w) :
    Moves asked v (Action.require check >>= f) w := by
  cases check with
  | ok a => exact hf a rfl
  | error e => exact moves_done rfl hw

/-- A repair has to be a change of the vault as well. -/
theorem Moves.onError {repair : Vault → Vault} (hx : Moves asked v x w)
    (hrepair : ∀ u, v.Shifts u → v.Shifts (repair u)) :
    Moves asked v (x.onError repair) w := by
  refine (Action.asks_onError x repair w).mpr (Script.Asks.mono hx ?_)
  intro outcome hend
  obtain ⟨result, u⟩ := outcome
  cases result with
  | ok a => exact hend
  | error e => exact hrepair u hend

theorem stays_call {s : Script (Except Error α)}
    (h : s.Asks lengthLimit (ExactCall asked v) fun _ => True) :
    Stays asked v (Action.call s) w :=
  (Action.asks_call s w).mpr (h.mono fun _ _ => rfl)

theorem stays_sync : Stays asked v Action.sync w :=
  stays_call ⟨.syncs, fun _ => trivial⟩

theorem Stays.moves (hx : Stays asked v x w) (hw : v.Shifts w) : Moves asked v x w :=
  Script.Asks.mono hx fun _ hsame => hsame ▸ hw

theorem Stays.bind {f : α → Action β} (hx : Stays asked v x w)
    (hf : ∀ a, Stays asked v (f a) w) : Stays asked v (x >>= f) w := by
  refine (Action.asks_bind x f w).mpr (Script.Asks.mono hx ?_)
  intro outcome hsame
  obtain ⟨result, u⟩ := outcome
  obtain rfl : u = w := hsame
  cases result with
  | ok a => exact hf a
  | error e => rfl

/-- What comes after a part that leaves the vault as it is, where a failure of
the part is put right. -/
theorem Stays.repaired {repair : Vault → Vault} {f : α → Action β} (hx : Stays asked v x w)
    (hrepair : v.Shifts (repair w)) (hf : ∀ a, Moves asked v (f a) w) :
    Moves asked v (x.onError repair >>= f) w := by
  refine (Action.asks_bind (x.onError repair) f w).mpr
    ((Action.asks_onError x repair w).mpr (Script.Asks.mono hx ?_))
  intro outcome hsame
  obtain ⟨result, u⟩ := outcome
  obtain rfl : u = w := hsame
  cases result with
  | ok a => exact hf a
  | error e => exact hrepair

theorem shifts_released {u : Vault} (hu : v.Shifts u) (e : Extent) : v.Shifts (released e u) :=
  hu.tail (.frees u e)

end Rules

/-! ## §2. Blocks, and bytes in them. -/

section Parts

variable {asked : UInt64 → Prop} {v w : Vault} {needed : UInt64} {e : Extent}

/-- The vault after the map has found `e`. -/
def Found (v : Vault) (needed : UInt64) (e : Extent) (w : Vault) : Prop :=
  ∃ u blocks, v.Shifts u ∧ u.blocks.allocate needed = .ok (e, blocks)
    ∧ w = { u with blocks }

/-- Blocks that are found have been taken. -/
theorem Found.shifts (h : v.Found needed e w) : v.Shifts w := by
  obtain ⟨u, blocks, hu, hok, rfl⟩ := h
  exact hu.tail (.takes hok)

theorem Found.count (h : v.Found needed e w) (hm : v.Measured) : e.count = needed := by
  obtain ⟨u, blocks, hu, hok, rfl⟩ := h
  exact ((hu.measured hm).blocks.free_of_allocate hok).1

theorem Found.within (h : v.Found needed e w) (hm : v.Measured) : w.Within e := by
  obtain ⟨u, blocks, hu, hok, rfl⟩ := h
  have hin := ((hu.measured hm).blocks.free_of_allocate hok).2.1
  unfold Within
  rw [total_of_allocate hok]
  exact hin

/-- The blocks that are found for some bytes hold them. -/
theorem Found.enough {u : Vault} {n : Nat} (hm : v.Measured) (hw : v.Shifts w)
    (h : v.Found (blocksToHold (UInt64.ofNat n) w.blockSize) e u) (hn : n < UInt64.size) :
    n ≤ e.count.toNat * u.width := by
  have henough := le_blocksToHold (hw.measured hm).blockSize hn
  rw [h.count hm, h.shifts.width_eq, ← hw.width_eq]
  exact henough

/-- What comes of an allocation. -/
def Finds (v : Vault) (needed : UInt64) : Except Error Extent × Vault → Prop
  | (.ok e, w) => v.Found needed e w
  | (.error _, w) => v.Shifts w

/-- Growing until there is a run asks for lengths that are exact, and for nothing
else. -/
theorem allocateGrowing_asks (hw : v.Shifts w) (needed : UInt64) :
    (allocateGrowing needed w).Asks lengthLimit (ExactCall asked v) (v.Finds needed) := by
  induction w using allocateGrowing.induct needed with
  | case1 w e blocks hfit =>
    rw [allocateGrowing_of_fits hfit]
    exact ⟨w, blocks, hw, hfit, rfl⟩
  | case2 w err hfit hgrow total hbytes =>
    rw [allocateGrowing_of_overflow hfit hgrow hbytes]
    exact hw
  -- a step of growth sets the exact length, and if that succeeds the map is widened
  | case3 w err hfit hgrow total bytes hbytes ih =>
    have hlength : bytes.toNat = (w.grownTotal needed).toNat * w.width := toNat_length hbytes
    rw [allocateGrowing_of_grows hfit hgrow hbytes, hlength]
    refine ⟨?_, fun result hset => ?_⟩
    · rw [hw.width_eq] at hlength ⊢
      exact .grows hw hfit hgrow (hlength ▸ bytes.toNat_lt_size)
    · cases result with
      | error e => exact hw
      | ok u => exact ih (hw.tail (.widens (hset rfl)))
  | case4 w err hfit hgrow =>
    rw [allocateGrowing_of_full hfit hgrow]
    exact hw

/-- Blocks are found for some bytes, and hold them; then what is done with
them. -/
theorem moves_allocate {α : Type} {n : Nat} {f : Extent → Action α} (hm : v.Measured)
    (hw : v.Shifts w) (hn : n < UInt64.size)
    (hf : ∀ needed e u, v.Found needed e u → n ≤ e.count.toNat * u.width →
      Moves asked v (f e) u) : Moves asked v (allocate n >>= f) w := by
  refine (Action.asks_bind (allocate n) f w).mpr ((allocateGrowing_asks hw _).mono ?_)
  intro outcome hfinds
  obtain ⟨result, u⟩ := outcome
  cases result with
  | ok e => exact hf _ e u hfinds (Found.enough hm hw hfinds hn)
  | error err => exact hfinds

/-- Bytes that fit their blocks are written at the exact place of these. -/
theorem fill_stays {data : ByteArray} (hm : v.Measured) (hfound : v.Found needed e w)
    (hdata : data.size ≤ e.count.toNat * w.width) : Stays asked v (fill e data) w := by
  have hin := hfound.within hm
  have hunwrapped := (hfound.shifts.measured hm).unwrapped
  unfold Stays fill
  rw [Action.asks_vault]
  by_cases hempty : e.isEmpty = true
  · rw [if_pos hempty]
    rfl
  · rw [if_neg hempty]
    have hstart : e.start.toNat ≤ w.blocks.total.toNat := Nat.le_trans (Nat.le_add_right _ _) hin
    refine stays_call ⟨?_, fun _ => trivial⟩
    rw [hunwrapped.offset _ hstart, hunwrapped.capacity e hin, size_padded data hdata,
      hfound.shifts.width_eq]
    obtain ⟨u, blocks, hu, hok, -⟩ := hfound
    exact .fills hu hok

/-- A commit writes the blocks of the directory and one copy of the superblock. -/
theorem writeCommit_stays {bytes : ByteArray} (hm : v.Measured) (hfound : v.Found needed e w)
    (hdata : bytes.size ≤ e.count.toNat * w.width) (s : Superblock) :
    Stays asked v (writeCommit e bytes s w.slot.other) w := by
  have hrecord : Stays asked v (Action.write (UInt64.ofNat w.slot.other.offset) s.encode) w := by
    refine stays_call ⟨?_, fun _ => trivial⟩
    rw [toNat_slot_offset, s.size_encode]
    exact .records hfound.shifts
  exact (fill_stays hm hfound hdata).bind fun _ => stays_sync.bind fun _ =>
    hrecord.bind fun _ => stays_sync

end Parts

/-! ## §3. Operations. -/

section Operations

variable {asked : UInt64 → Prop} {v w : Vault}

/-- A commit finds blocks for the directory, and writes them. -/
theorem commit_moves (hm : v.Measured) (hw : v.Shifts w) (d : Directory) :
    Moves asked v (commit d) w := by
  unfold commit
  refine moves_vault ?_
  cases hgeneration : Word.add? w.generation 1 with
  | none => exact moves_done rfl hw
  | some generation =>
    refine moves_require hw fun bytes hbytes => ?_
    obtain ⟨-, -, hmost⟩ := Directory.size_of_encode hbytes
    have hfits : bytes.size < UInt64.size := Nat.lt_of_le_of_lt hmost (by decide)
    refine moves_allocate hm hw hfits fun needed e u hfound henough => moves_vault ?_
    refine (writeCommit_stays hm hfound henough _).repaired (shifts_released hfound.shifts e)
      fun _ => moves_done rfl ?_
    -- the new superblock, and then the blocks of the old directory
    exact shifts_released (hfound.shifts.tail (.commits u e bytes.size generation d))
      u.superblock.directory

/-- Writing a stream finds blocks for it, writes them and commits. -/
theorem writeWith_moves (hm : v.Measured) (hw : v.Shifts w) (name : String) {data : ByteArray}
    (hdata : data.size < UInt64.size) (flags : Flags) :
    Moves asked v (writeWith name data flags) w := by
  rw [writeWith_eq]
  refine moves_vault (moves_require hw fun _ _ =>
    moves_allocate hm hw hdata fun needed e u hfound henough => ?_)
  unfold store
  refine Moves.bind (Moves.onError ?_ fun x hx => shifts_released hx e) fun _ x hx =>
    moves_done rfl ?_
  · exact ((fill_stays hm hfound henough).moves hfound.shifts).bind fun _ x hx =>
      commit_moves hm hx _
  · unfold withoutOld
    split
    · exact shifts_released hx _
    · exact hx

theorem write_moves (hm : v.Measured) (hw : v.Shifts w) (name : String) {data : ByteArray}
    (hdata : data.size < UInt64.size) : Moves asked v (write name data) w := by
  unfold write
  exact moves_vault (writeWith_moves hm hw name hdata _)

/-- Deleting a stream is a commit, and its blocks are given back. -/
theorem delete_moves (hm : v.Measured) (hw : v.Shifts w) (name : String) :
    Moves asked v (delete name) w := by
  unfold delete
  refine moves_vault (moves_require hw fun e _ => ?_)
  exact (commit_moves hm hw _).bind fun _ u hu => moves_done rfl (shifts_released hu e.extent)

theorem recommit_moves (hm : v.Measured) (hw : v.Shifts w) : Moves asked v recommit w :=
  moves_vault (commit_moves hm hw w.directory)

theorem mem_of_entry {name : String} {e : Entry} (h : v.entry name = .ok e) :
    e ∈ v.streams := by
  unfold entry at h
  cases hfind : v.directory.find? name with
  | none =>
    rw [hfind] at h
    cases h
  | some found =>
    rw [hfind] at h
    cases h
    exact (Directory.find?_mem hfind).1

/-- An owner that has blocks has them within the map. -/
theorem Sound.within (h : v.Sound) {e : Extent} (he : e ∈ v.owners) (hne : e.isEmpty = false) :
    v.Within e := by
  have hfits := (h.below e he).resolve_left fun hzero => by
    rw [(Extent.isEmpty_iff e).mpr hzero] at hne
    cases hne
  exact Nat.le_trans hfits h.committed

/-- A longer medium has the length that was asked for. -/
theorem lengthen_moves (hw : v.Shifts w) {total : UInt64} (hasked : asked total) :
    Moves asked v (lengthen total) w := by
  cases hbytes : Word.mul? total w.blockSize.toUInt64 with
  -- without a length nothing is asked of the medium
  | none =>
    have hrefused : lengthen total w = .done (.error (.settings (.sizeOverflows total)), w) :=
      lengthen_of_overflow (mul?_eq_none_iff.mp hbytes)
    exact moves_done hrefused hw
  | some bytes =>
    have hlength : bytes.toNat = total.toNat * w.width := toNat_length hbytes
    unfold Moves
    rw [lengthen_of_fits hbytes, hlength]
    refine ⟨?_, fun result hset => ?_⟩
    · rw [hw.width_eq] at hlength ⊢
      exact .lengthens hasked (hlength ▸ bytes.toNat_lt_size)
    · cases result with
      | error e => exact hw
      | ok u => exact hw.tail (.widens (hset rfl))

/-- Cutting the map, and then the medium. -/
theorem cutTo_moves (hm : v.Measured) (hw : v.Shifts w) {current total : UInt64}
    (hcurrent : current.toNat * v.width < lengthLimit) :
    Moves asked v (cutTo current total) w := by
  unfold cutTo cutBlocks
  refine Moves.bind (moves_vault ?_) fun _ u hu => ?_
  · exact moves_require hw fun cut hcut => moves_done rfl (hw.tail (.cuts hcut))
  · refine Moves.bind (Moves.onError (recommit_moves hm hu) fun x hx => ?_) fun _ x hx => ?_
    · exact hx.tail (.widens (by rw [hx.width_eq]; exact hcurrent))
    · refine moves_vault (Stays.moves (stays_call ⟨?_, fun _ _ => trivial⟩) hx)
      rw [(hx.measured hm).unwrapped.imageBytes, hx.width_eq]
      exact .cuts hx

/-- A shrink commits, cuts the map and sets the length of what is committed. -/
theorem shrinkTo_moves (hm : v.Measured) (hw : v.Shifts w) {current total : UInt64}
    (hcurrent : current.toNat * v.width < lengthLimit) :
    Moves asked v (shrinkTo current total) w := by
  rw [shrinkTo_eq]
  refine moves_vault (moves_require hw fun _ _ => ?_)
  split
  · exact (recommit_moves hm hw).bind fun _ x hx => cutTo_moves hm hx hcurrent
  · exact cutTo_moves hm hw hcurrent

/-- **A resize** sets the lengths it was asked for, and those of its commits. -/
theorem resize_moves (hm : v.Measured) {total : UInt64} (hasked : asked total) :
    Moves asked v (resize total) v := by
  have hv : v.Shifts v := .refl
  unfold resize
  split
  · exact moves_done rfl hv
  · refine moves_vault ?_
    show Moves asked v (if total = v.blocks.total then _ else _) v
    split
    · exact moves_done rfl hv
    · show Moves asked v (if v.blocks.total < total then _ else _) v
      split
      · exact (lengthen_moves hv hasked).bind fun _ u hu => recommit_moves hm hu
      · exact shrinkTo_moves hm hv hm.size

/-- Reading a stream reads its blocks. -/
theorem read_moves (hs : v.Sound) (hm : v.Measured) (name : String) :
    Moves asked v (read name) v := by
  have hv : v.Shifts v := .refl
  unfold read
  refine moves_vault (moves_require hv fun e hentry => ?_)
  have he : e ∈ v.streams := mem_of_entry hentry
  by_cases hempty : e.extent.isEmpty = true
  · rw [if_pos hempty]
    exact moves_done rfl hv
  · -- the extent is one of the owners, so it lies within the map
    have howner : e.extent ∈ v.owners :=
      List.mem_cons_of_mem _ (List.mem_cons_of_mem _ (List.mem_map.mpr ⟨e, he, rfl⟩))
    have hin : v.Within e.extent := hs.within howner (Bool.eq_false_iff.mpr hempty)
    have hstart : e.extent.start.toNat ≤ v.blocks.total.toNat :=
      Nat.le_trans (Nat.le_add_right _ _) hin
    rw [if_neg hempty]
    refine Moves.bind (Stays.moves (stays_call ⟨?_, fun _ => trivial⟩) hv) fun _ u hu =>
      moves_done rfl hu
    rw [hm.unwrapped.offset _ hstart, hm.unwrapped.capacity _ hin]
    exact .reads he hin

end Operations

end StateVault.Vault
