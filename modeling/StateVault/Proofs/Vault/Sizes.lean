/-
  StateVault.Proofs.Vault.Sizes
  ─────────────────────────────
  **ONLY GROWTH CHANGES SIZES.**

  Of all that a commit does, growth alone sets a length.  So without failures
  it can be told beforehand what becomes of the size of the block map and of
  the length of the image: if there is no run of free blocks and the vault may
  grow, the map becomes larger and the image just as long as the map;
  otherwise both stay (`Scaled`).

    • `SetsNoLength`           — scripts that keep the length of an image,
    • `allocateGrowing_scaled` — allocation,
    • `recommit_scaled`        — a commit of the directory as it is.
-/
import StateVault.Proofs.Vault.Shrinking

namespace StateVault

/-! ## §1. Scripts that set no length. -/

namespace Script

variable {α β : Type} {F : Failures}

/-- No length is set, whatever the calls answer. -/
def SetsNoLength : Script α → Prop
  | done _ => True
  | size next => ∀ n, (next n).SetsNoLength
  | read _ _ next => ∀ result, (next result).SetsNoLength
  | write _ _ next => ∀ result, (next result).SetsNoLength
  | setLength _ _ => False
  | sync next => ∀ result, (next result).SetsNoLength

theorem SetsNoLength.bind {s : Script α} {f : α → Script β} (h : s.SetsNoLength)
    (hf : ∀ a, (f a).SetsNoLength) : (s.bind f).SetsNoLength := by
  induction s with
  | done a => exact hf a
  | size next ih => exact fun n => ih n (h n)
  | read offset count next ih => exact fun result => ih result (h result)
  | write offset data next ih => exact fun result => ih result (h result)
  | setLength length next ih => exact h.elim
  | sync next ih => exact fun result => ih result (h result)

/-- The image stays as long as it was, also when writes fail or are torn. -/
theorem SetsNoLength.ensures_size {s : Script α} (h : s.SetsNoLength) (t : Watched) :
    s.Ensures F (fun _ => True) t fun _ t' => t'.image.size = t.image.size := by
  induction s generalizing t with
  | done a => rfl
  | size next ih => exact ih _ (h _) t
  | read offset count next ih => exact ⟨trivial, fun result _ => ih result (h result) t⟩
  | write offset data next ih =>
    intro result image hwrites
    have hsize : image.size = t.image.size := by
      cases hwrites with
      | whole hin => exact Bytes.size_overlay _ _ _ hin
      | refused _ e => rfl
      | torn landed _ hin e => exact Bytes.size_overlay _ _ _ hin
    exact ⟨trivial, (ih result (h result) _).mono fun _ _ hsame => hsame.trans hsize⟩
  | setLength length next ih => exact h.elim
  | sync next ih => exact ⟨trivial, fun result _ => ih result (h result) t⟩

end Script

/-- An action that sets no length, whatever it starts from. -/
def Action.SetsNoLength {α : Type} (x : Action α) : Prop :=
  ∀ v, (x v).SetsNoLength

namespace Action

variable {α β : Type} {x : Action α}

theorem SetsNoLength.bind {f : α → Action β} (hx : x.SetsNoLength)
    (hf : ∀ a, (f a).SetsNoLength) : (x >>= f).SetsNoLength := by
  intro v
  refine (hx v).bind fun outcome => ?_
  obtain ⟨result, w⟩ := outcome
  cases result with
  | ok a => exact hf a w
  | error e => trivial

theorem setsNoLength_vault : Action.vault.SetsNoLength :=
  fun _ => trivial

theorem setsNoLength_write (offset : UInt64) (data : ByteArray) :
    (Action.write offset data).SetsNoLength :=
  fun _ _ => trivial

theorem setsNoLength_sync : Action.sync.SetsNoLength :=
  fun _ _ => trivial

end Action

namespace Vault

/-- Filling an extent sets no length. -/
theorem fill_setsNoLength (e : Extent) (data : ByteArray) : (fill e data).SetsNoLength := by
  refine Action.setsNoLength_vault.bind fun v => ?_
  split
  · exact fun _ => trivial
  · exact Action.setsNoLength_write _ _

theorem writeCommit_setsNoLength (e : Extent) (bytes : ByteArray) (s : Superblock) (slot : Slot) :
    (writeCommit e bytes s slot).SetsNoLength :=
  (fill_setsNoLength e bytes).bind fun _ => Action.setsNoLength_sync.bind fun _ =>
    (Action.setsNoLength_write _ _).bind fun _ => Action.setsNoLength_sync

/-! ## §2. Growth. -/

/-- For so many blocks the vault grows: there is no run of them, it may grow,
and its next size has an address. -/
structure Spreads (v : Vault) (needed : UInt64) : Prop where
  full : ∃ e, v.blocks.allocate needed = .error e
  mayGrow : v.mayGrow = true
  addressed : ∃ bytes, Word.mul? (v.grownTotal needed) v.blockSize.toUInt64 = some bytes

/-- The sizes on the way from `v` to `w`.  If the vault grows, it has more
blocks and the image is as long as they are; otherwise all stays. -/
structure Scaled (grows : Prop) (v : Vault) (image : Image) (w : Vault) (image' : Image) :
    Prop where
  larger : grows → v.blocks.total.toNat < w.blocks.total.toNat
    ∧ image'.size = w.blocks.total.toNat * v.width
  same : ¬ grows → w.blocks.total = v.blocks.total ∧ image'.size = image.size

/-- Another map of the same size, and another image of the same length. -/
theorem Scaled.of_same {grows : Prop} {v w x : Vault} {image image' image'' : Image}
    (h : Scaled grows v image w image') (htotal : x.blocks.total = w.blocks.total)
    (hsize : image''.size = image'.size) : Scaled grows v image x image'' where
  larger hgrows := by
    rw [htotal, hsize]
    exact h.larger hgrows
  same hstays := by
    rw [htotal, hsize]
    exact h.same hstays

theorem scaled_refl {grows : Prop} {v w : Vault} {image : Image} (hstays : ¬ grows)
    (htotal : w.blocks.total = v.blocks.total) : Scaled grows v image w image :=
  ⟨fun hgrows => absurd hgrows hstays, fun _ => ⟨htotal, rfl⟩⟩

/-- An allocation changes the sizes exactly if it has to grow. -/
theorem allocateGrowing_scaled (v : Vault) (needed : UInt64) (t : Watched) :
    (allocateGrowing needed v).Ensures Failures.none (fun _ => True) t fun outcome t' =>
      Scaled (v.Spreads needed) v t.image outcome.2 t'.image := by
  induction v using allocateGrowing.induct needed generalizing t with
  | case1 v e blocks hfit =>
    rw [allocateGrowing_of_fits hfit]
    refine scaled_refl (fun hspreads => ?_) (total_of_allocate hfit)
    obtain ⟨err, hfull⟩ := hspreads.full
    rw [hfit] at hfull
    cases hfull
  | case2 v e hfit hgrow total =>
    rename_i hbytes
    rw [allocateGrowing_of_overflow hfit hgrow hbytes]
    refine scaled_refl (fun hspreads => ?_) rfl
    obtain ⟨bytes, hsome⟩ := hspreads.addressed
    rw [hbytes] at hsome
    cases hsome
  | case3 v e hfit hgrow total bytes =>
    rename_i hbytes ih
    rw [allocateGrowing_of_grows hfit hgrow hbytes]
    intro result image hset
    cases hset with
    | failed hfailed err => exact absurd hfailed id
    | whole =>
      obtain ⟨_, hmore⟩ := grown_keeps (ne_zero_of_allocate hfit) hgrow
      obtain ⟨hlength, _⟩ := toNat_grown (ne_zero_of_allocate hfit) hgrow hbytes
      have hspreads : v.Spreads needed := ⟨⟨e, hfit⟩, hgrow, bytes, hbytes⟩
      refine ⟨trivial, (ih _).mono fun outcome t' hafter => ?_⟩
      refine ⟨fun _ => ?_, fun hstays => absurd hspreads hstays⟩
      -- the last step of growth is the one that counts
      by_cases hagain : (v.grown needed).Spreads needed
      · obtain ⟨hmore', hsize⟩ := hafter.larger hagain
        exact ⟨Nat.lt_trans hmore hmore', hsize⟩
      · obtain ⟨htotal, hsize⟩ := hafter.same hagain
        rw [htotal, hsize]
        exact ⟨hmore, (Bytes.size_resized _ _).trans hlength⟩
  | case4 v e hfit hgrow =>
    rw [allocateGrowing_of_full hfit hgrow]
    exact scaled_refl (fun hspreads => hgrow hspreads.mayGrow) rfl

/-! ## §3. Commits. -/

theorem total_released (e : Extent) (v : Vault) :
    (released e v).blocks.total = v.blocks.total := by
  unfold released BlockMap.release
  split
  next blocks hrelease =>
    split at hrelease
    · cases hrelease
      rfl
    · split at hrelease
      · cases hrelease
      · cases hrelease
        exact BlockMap.total_releaseFrom _ _ _
  next => rfl

/-- Committed with its directory as it is, the vault grows. -/
def Outgrows (v : Vault) : Prop :=
  (∃ generation, Word.add? v.generation 1 = some generation)
    ∧ v.Spreads (v.directoryBlocks v.directory)

/-- A commit changes the sizes exactly if its directory asks for growth. -/
theorem recommit_scaled {v : Vault} (hvalid : v.directory.Valid v.superblock.blockSize)
    (t : Watched) :
    (recommit v).Ensures Failures.none (fun _ => True) t fun outcome t' =>
      Scaled v.Outgrows v t.image outcome.2 t'.image := by
  show (commit v.directory v).Ensures _ _ t _
  cases hgeneration : Word.add? v.generation 1 with
  | none =>
    have hstays : ¬ v.Outgrows := by
      rintro ⟨⟨generation, hsome⟩, _⟩
      rw [hgeneration] at hsome
      cases hsome
    have hfails : commit v.directory v
        = .done (.error (.corrupt .generationsExhausted), v) := by
      have hvault : ∀ f : Vault → Action Unit, (Action.vault >>= f) v = f v v := fun _ => rfl
      rw [commit, hvault, hgeneration]
      rfl
    rw [hfails]
    exact scaled_refl hstays rfl
  | some generation =>
    have hdata := hvalid.encode generation
    have hneeded : v.directoryBlocks v.directory
        = blocksToHold (UInt64.ofNat (v.directory.bytes generation).size) v.blockSize := by
      rw [directoryBlocks, (Directory.size_of_encode hdata).1]
      rfl
    have houtgrows : v.Outgrows ↔ v.Spreads (blocksToHold
        (UInt64.ofNat (v.directory.bytes generation).size) v.blockSize) := by
      unfold Outgrows
      rw [← hneeded]
      exact and_iff_right ⟨generation, hgeneration⟩
    rw [commit_eq hgeneration hdata, Action.ensures_bind]
    refine (allocateGrowing_scaled v _ t).mono ?_
    intro outcome t₁ hscaled
    rw [← houtgrows] at hscaled
    obtain ⟨result, w⟩ := outcome
    cases result with
    | error e => exact hscaled
    | ok e =>
      -- directory and record are written without another length
      rw [Action.Beyond, Action.ensures_vault, Action.ensures_bind, Action.ensures_onError]
      refine (((writeCommit_setsNoLength e _ _ _ w).ensures_size t₁).and_yields
        (writeCommit_yields e _ _ _ w)).mono ?_
      intro outcome t' hwritten
      obtain ⟨result, x⟩ := outcome
      obtain ⟨hsize, hsame⟩ := hwritten
      obtain rfl : x = w := hsame
      cases result with
      | ok u => exact hscaled.of_same (total_released _ _) hsize
      | error err => exact hscaled.of_same (total_released _ _) hsize

end Vault

end StateVault
