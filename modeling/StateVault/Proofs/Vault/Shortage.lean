/-
  StateVault.Proofs.Vault.Shortage
  ────────────────────────────────
  **WHAT A WRITE LEAVES BEHIND FOR WANT OF SPACE.**

  A write looks for blocks twice, for its bytes and for the directory, and a
  vault that may grow does so before it gives up.  No step of growth is undone
  when the write fails in the end.  So a write that finds no space leaves the
  vault as it was exactly if the vault may not grow; if it may, the vault is
  at its limit afterwards, and the image is as long as that.

    • `Action.Paces`            — sizes on the way, and the limit at the end,
    • `allocateGrowing_paces`, `commit_paces`, `writeWith_paces` — allocation,
                                  commit and write,
    • `shortage_unchanged_iff`  — both cases, for every vault that is open,
    • `shortage_keeps_growth`   — a write that fails and makes a vault longer.
-/
import StateVault.Proofs.Vault.Growth
import StateVault.Proofs.Vault.Refusals

namespace StateVault

/-! ## §1. Want of space, and calls that do not answer it. -/

/-- A result that says that there is no run of free blocks. -/
def Lacks {α : Type} (result : Except Error α) : Prop :=
  ∃ needed free, result = .error (.noSpace needed free)

theorem not_lacks_ok {α : Type} (a : α) : ¬ Lacks (.ok a : Except Error α) := by
  rintro ⟨needed, free, h⟩
  cases h

/-- One check after another. -/
theorem not_lacks_bind {α β : Type} {x : Except Error α} {f : α → Except Error β}
    (hx : ¬ Lacks x) (hf : ∀ a, ¬ Lacks (f a)) : ¬ Lacks (x >>= f) := by
  cases x with
  | ok a => exact hf a
  | error e =>
    rintro ⟨needed, free, h⟩
    cases h
    exact hx ⟨needed, free, rfl⟩

theorem not_lacks_nameCheck (name : String) : ¬ Lacks (Name.check name) := by
  rintro ⟨needed, free, h⟩
  unfold Name.check at h
  split at h <;> cases h

theorem not_lacks_checkNames (entries : List Entry) (earlier : List String) :
    ¬ Lacks (Directory.checkNames earlier entries) := by
  induction entries generalizing earlier with
  | nil => exact not_lacks_ok ()
  | cons e rest ih =>
    refine not_lacks_bind (not_lacks_nameCheck e.name) fun _ => ?_
    split
    · rintro ⟨needed, free, h⟩
      cases h
    · exact ih _

theorem not_lacks_encode (d : Directory) (generation : UInt64) :
    ¬ Lacks (d.encode generation) := by
  unfold Directory.encode
  split
  · rintro ⟨needed, free, h⟩
    cases h
  · exact not_lacks_bind (not_lacks_checkNames _ _) fun _ => not_lacks_ok _

theorem not_lacks_checkPlace (d : Directory) (name : String) :
    ¬ Lacks (Vault.checkPlace d name) := by
  refine not_lacks_bind (not_lacks_nameCheck name) fun _ => ?_
  split
  · rintro ⟨needed, free, h⟩
    cases h
  · exact not_lacks_ok ()

/-- The calls of a medium have errors of their own. -/
structure NeverLacks (μ : Type) [Medium μ] : Prop where
  write : ∀ offset data (m : μ), ¬ Lacks (Medium.write offset data m).1
  sync : ∀ m : μ, ¬ Lacks (Medium.sync m).1

/-- The plain image has errors of its own. -/
theorem image_neverLacks : NeverLacks Image where
  write offset data image := by
    rintro ⟨needed, free, h⟩
    by_cases hfits : offset + data.size ≤ image.size
    · rw [show (Medium.write offset data image).1 = _ from
        congrArg Prod.fst (Image.write_of_fits hfits)] at h
      cases h
    · rw [show (Medium.write offset data image).1 = _ from
        congrArg Prod.fst (Image.write_of_overrun hfits)] at h
      cases h
  sync image := not_lacks_ok ()

namespace Vault

/-! ## §2. Sizes on the way. -/

/-- From `v` to `w` the sizes stay, or the vault may grow and has grown, within
its limit and with the image. -/
structure Paced (v : Vault) (image : Image) (w : Vault) (image' : Image) : Prop where
  settings : w.settings = v.settings
  width : w.width = v.width
  sizes : w.blocks.total = v.blocks.total ∧ image'.size = image.size
    ∨ v.mayGrow = true ∧ v.blocks.total.toNat < w.blocks.total.toNat
      ∧ w.blocks.total.toNat ≤ v.settings.maxBlocks.toNat
      ∧ image'.size = w.blocks.total.toNat * v.width

variable {u v w : Vault} {image image' image'' : Image}

theorem mayGrow_congr (hsettings : w.settings = v.settings)
    (htotal : w.blocks.total = v.blocks.total) : w.mayGrow = v.mayGrow := by
  unfold mayGrow
  rw [hsettings, htotal]

/-- Two vaults with the same settings, the same width of a block and the same
number of blocks. -/
structure SameSizes (v w : Vault) : Prop where
  settings : w.settings = v.settings
  width : w.width = v.width
  total : w.blocks.total = v.blocks.total

theorem sameSizes_refl (v : Vault) : v.SameSizes v :=
  ⟨rfl, rfl, rfl⟩

theorem SameSizes.paced (h : v.SameSizes w) (hsize : image'.size = image.size) :
    v.Paced image w image' :=
  ⟨h.settings, h.width, Or.inl ⟨h.total, hsize⟩⟩

theorem sameSizes_released (e : Extent) (v : Vault) : v.SameSizes (released e v) := by
  have halike : v.Alike (released e v) := by
    unfold released
    split
    · exact ⟨rfl, rfl, rfl, rfl⟩
    · exact Alike.refl v
  refine ⟨halike.settings, ?_, total_released e v⟩
  unfold width
  rw [halike.superblock]

theorem sameSizes_withoutOld (d : Directory) (name : String) (v : Vault) :
    v.SameSizes (withoutOld d name v) := by
  unfold withoutOld
  split
  · exact sameSizes_released _ v
  · exact sameSizes_refl v

theorem Paced.trans (h : u.Paced image v image') (h' : v.Paced image' w image'') :
    u.Paced image w image'' := by
  refine ⟨h'.settings.trans h.settings, h'.width.trans h.width, ?_⟩
  have hsizes := h'.sizes
  rw [h.settings, h.width] at hsizes
  rcases h.sizes with ⟨htotal, hsize⟩ | ⟨hmay, hmore, hlimit, hsize⟩
  · rw [mayGrow_congr h.settings htotal, htotal, hsize] at hsizes
    exact hsizes
  · -- once the vault has grown, the last growth decides on the image
    right
    rcases hsizes with ⟨htotal', hsize'⟩ | ⟨_, hmore', hlimit', hsize'⟩
    · rw [htotal', hsize']
      exact ⟨hmay, hmore, hlimit, hsize⟩
    · exact ⟨hmay, Nat.lt_trans hmore hmore', hlimit', hsize'⟩

end Vault

/-! ## §3. Actions that keep pace. -/

namespace Action

variable {μ : Type} [Medium μ] {view : μ → Image} {α β : Type} {v : Vault}

/-- On a medium that does not fail, the action `x` on `v` keeps image and map
at one pace, and if it lacks space at its end, the vault may grow no more. -/
def Paces (view : μ → Image) (x : Action α) (v : Vault) : Prop :=
  ∀ m result w m', (x v).run m = ((result, w), m') →
    v.Paced (view m) w (view m') ∧ (Lacks result → w.mayGrow = false)

/-- One action after another; want of space ends both. -/
theorem Paces.bind {x : Action α} {f : α → Action β} (hx : Paces view x v)
    (hf : ∀ a w, w.settings = v.settings → w.width = v.width → Paces view (f a) w) :
    Paces view (x >>= f) v := by
  intro m result w m' hrun
  rw [run_bind] at hrun
  cases hfirst : (x v).run m with
  | mk outcome m₁ =>
    obtain ⟨answer, v₁⟩ := outcome
    obtain ⟨hpaced, hlacks⟩ := hx m answer v₁ m₁ hfirst
    rw [hfirst] at hrun
    cases answer with
    | ok a =>
      obtain ⟨hpaced', hlacks'⟩ := hf a v₁ hpaced.settings hpaced.width m₁ result w m' hrun
      exact ⟨hpaced.trans hpaced', hlacks'⟩
    | error e =>
      cases hrun
      refine ⟨hpaced, ?_⟩
      -- the error of the first action is that of both
      rintro ⟨needed, free, h⟩
      cases h
      exact hlacks ⟨needed, free, rfl⟩

/-- A result without a call. -/
theorem paces_done {x : Action α} {result : Except Error α} (hx : x v = .done (result, v))
    (hresult : ¬ Lacks result) : Paces view x v := by
  intro m result' w m' hrun
  rw [hx] at hrun
  cases hrun
  exact ⟨(Vault.sameSizes_refl _).paced rfl, fun hlacks => absurd hlacks hresult⟩

theorem paces_vault {f : Vault → Action β} (hf : Paces view (f v) v) :
    Paces view (vault >>= f) v :=
  hf

theorem paces_require {check : Except Error α} (h : ¬ Lacks check) :
    Paces view (require check) v :=
  paces_done rfl h

/-- A repair changes no size. -/
theorem Paces.onError {x : Action α} {repair : Vault → Vault} (hx : Paces view x v)
    (hrepair : ∀ w : Vault, w.SameSizes (repair w)) : Paces view (x.onError repair) v := by
  intro m result w m' hrun
  rw [run_onError] at hrun
  cases hfirst : (x v).run m with
  | mk outcome m₁ =>
    obtain ⟨answer, v₁⟩ := outcome
    obtain ⟨hpaced, hlacks⟩ := hx m answer v₁ m₁ hfirst
    rw [hfirst] at hrun
    cases answer with
    | ok a =>
      cases hrun
      exact ⟨hpaced, hlacks⟩
    | error e =>
      cases hrun
      have hsame := hrepair v₁
      refine ⟨hpaced.trans (hsame.paced rfl), fun h => ?_⟩
      -- the repaired vault may grow no more than the one that lacked space
      rw [Vault.mayGrow_congr hsame.settings hsame.total]
      exact hlacks h

theorem paces_modify {f : Vault → Vault} (hsame : v.SameSizes (f v)) :
    Paces view (modify f) v := by
  intro m result w m' hrun
  cases hrun
  exact ⟨hsame.paced rfl, fun hlacks => absurd hlacks (not_lacks_ok ())⟩

section Calls

variable (hobeys : Obeys Failures.none view) (hplain : NeverLacks μ)
include hobeys hplain

theorem paces_write (offset : UInt64) (data : ByteArray) : Paces view (write offset data) v := by
  intro m result w m' hrun
  cases hrun
  refine ⟨(Vault.sameSizes_refl _).paced ?_, fun hlacks => absurd hlacks (hplain.write _ _ m)⟩
  have hwrites := hobeys.write offset.toNat data m
  show (view (Medium.write offset.toNat data m).2).size = (view m).size
  generalize (Medium.write offset.toNat data m).1 = answer at hwrites
  generalize view (Medium.write offset.toNat data m).2 = image at hwrites
  cases hwrites with
  | whole hin => exact Bytes.size_overlay _ _ _ hin
  | refused _ e => rfl
  | torn landed hlanded => exact absurd hlanded id

theorem paces_sync : Paces view sync v := by
  intro m result w m' hrun
  cases hrun
  refine ⟨(Vault.sameSizes_refl _).paced ?_, fun hlacks => absurd hlacks (hplain.sync m)⟩
  exact congrArg ByteArray.size (hobeys.sync m).2

end Calls

end Action

/-! ## §4. Allocation, commit and write. -/

namespace Vault

open StateVault.Action (Paces)

variable {μ : Type} [Medium μ] {view : μ → Image} {v : Vault}

/-- A step of growth lengthens the image by as much as the map. -/
theorem paced_grown {needed bytes : UInt64} {e : Error}
    (hfit : v.blocks.allocate needed = .error e) (hgrow : v.mayGrow = true)
    (hbytes : Word.mul? (v.grownTotal needed) v.blockSize.toUInt64 = some bytes) (image : Image) :
    v.Paced image (v.grown needed) (Bytes.resized image bytes.toNat) := by
  have hne := ne_zero_of_allocate hfit
  have hless := total_lt_of_mayGrow hgrow
  have hstep := toNat_grownTotal_le v needed
  have htotal := toNat_total_grown v needed
  refine ⟨rfl, rfl, Or.inr ⟨hgrow, (grown_keeps hne hgrow).2, by omega, ?_⟩⟩
  rw [Bytes.size_resized]
  exact (toNat_grown hne hgrow hbytes).1

/-- **Allocation** keeps pace, and gives up for want of space only when the
vault may grow no more. -/
theorem allocateGrowing_paces (hobeys : Obeys Failures.none view) (needed : UInt64) (v : Vault) :
    Paces view (allocateGrowing needed) v := by
  intro m result w m' hrun
  -- along the steps of growth, of which each keeps pace
  induction v using allocateGrowing.induct needed generalizing m with
  | case1 v e blocks hfit =>
    rw [allocateGrowing_of_fits hfit] at hrun
    cases hrun
    have hsame : v.SameSizes { v with blocks } := ⟨rfl, rfl, total_of_allocate hfit⟩
    exact ⟨hsame.paced rfl, fun hlacks => absurd hlacks (not_lacks_ok e)⟩
  | case2 v e hfit hgrow total hbytes =>
    rw [allocateGrowing_of_overflow hfit hgrow hbytes] at hrun
    cases hrun
    -- the size that has no address is an error of another kind
    refine ⟨(sameSizes_refl _).paced rfl, ?_⟩
    rintro ⟨needed', free, h⟩
    cases h
  | case3 v e hfit hgrow total bytes hbytes ih =>
    rw [allocateGrowing_of_grows hfit hgrow hbytes] at hrun
    have hsets := hobeys.setLength bytes.toNat m
    have hpaced := paced_grown hfit hgrow hbytes (view m)
    rw [Script.run] at hrun
    cases hcall : Medium.setLength bytes.toNat m with
    | mk answer m₁ =>
      rw [hcall] at hsets hrun
      generalize hview : view m₁ = image at hsets
      cases hsets with
      | failed hfailed => exact absurd hfailed id
      | whole =>
        obtain ⟨hrest, hlacks⟩ := ih m₁ hrun
        rw [hview] at hrest
        exact ⟨hpaced.trans hrest, hlacks⟩
  | case4 v e hfit hgrow =>
    rw [allocateGrowing_of_full hfit hgrow] at hrun
    cases hrun
    exact ⟨(sameSizes_refl _).paced rfl, fun _ => Bool.eq_false_iff.mpr hgrow⟩

/-- An allocation lacks space only in a vault that may grow no more. -/
theorem allocate_paces (hobeys : Obeys Failures.none view) (bytes : Nat) (v : Vault) :
    Paces view (allocate bytes) v :=
  Action.paces_vault (allocateGrowing_paces hobeys _ v)

section Writes

variable (hobeys : Obeys Failures.none view) (hplain : NeverLacks μ)
include hobeys hplain

/-- Filling an extent sets no length. -/
theorem fill_paces (e : Extent) (data : ByteArray) (v : Vault) : Paces view (fill e data) v := by
  refine Action.paces_vault ?_
  split
  · exact Action.paces_done rfl (not_lacks_ok ())
  · exact Action.paces_write hobeys hplain _ _

theorem writeCommit_paces (e : Extent) (bytes : ByteArray) (s : Superblock) (slot : Slot)
    (v : Vault) : Paces view (writeCommit e bytes s slot) v := by
  refine (fill_paces hobeys hplain e bytes v).bind fun _ w _ _ => ?_
  refine (Action.paces_sync hobeys hplain).bind fun _ w _ _ => ?_
  refine (Action.paces_write hobeys hplain _ _).bind fun _ w _ _ => ?_
  exact Action.paces_sync hobeys hplain

/-- **A commit** looks for the blocks of its directory. -/
theorem commit_paces (d : Directory) (v : Vault) : Paces view (commit d) v := by
  refine Action.paces_vault ?_
  cases Word.add? v.generation 1 with
  | none =>
    refine Action.paces_done rfl ?_
    rintro ⟨needed, free, h⟩
    cases h
  | some generation =>
    refine (Action.paces_require (not_lacks_encode d generation)).bind fun bytes w _ _ => ?_
    refine (allocate_paces hobeys bytes.size w).bind fun e w _ _ => ?_
    refine Action.paces_vault ?_
    refine ((writeCommit_paces hobeys hplain e bytes _ _ w).onError
      (sameSizes_released e)).bind fun _ x _ hwidth => ?_
    -- the new superblock has the block size of the one that `w` had
    have hsame := sameSizes_released x.superblock.directory { x with
      superblock := w.nextSuperblock e bytes.size generation
      slot := w.slot.other
      directory := d }
    exact Action.paces_modify ⟨hsame.settings, hsame.width.trans hwidth.symm, hsame.total⟩

/-- **A write** looks for the blocks of its bytes, and then commits. -/
theorem writeWith_paces (name : String) (data : ByteArray) (flags : Flags) (v : Vault) :
    Paces view (writeWith name data flags) v := by
  rw [writeWith_eq]
  refine Action.paces_vault ?_
  refine (Action.paces_require (not_lacks_checkPlace _ name)).bind fun _ w _ _ => ?_
  refine (allocate_paces hobeys data.size w).bind fun e w _ _ => ?_
  unfold store
  have hcommits : Paces view (do
      fill e data
      commit (v.directory.insert ⟨name, e, UInt64.ofNat data.size, flags⟩)) w :=
    (fill_paces hobeys hplain e data w).bind fun _ x _ _ => commit_paces hobeys hplain _ x
  exact (hcommits.onError (sameSizes_released e)).bind fun _ x _ _ =>
    Action.paces_modify (sameSizes_withoutOld v.directory name x)

end Writes

/-! ## §5. Writes that lack space. -/

/-- The vault is at its limit, larger than it was, and else the same. -/
structure AtLimit (v : Vault) (w : Vault) (image' : Image) : Prop where
  alike : v.Alike w
  more : v.blocks.total.toNat < w.blocks.total.toNat
  limit : w.blocks.total = v.settings.maxBlocks
  free : w.blocks.free.toNat + v.blocks.total.toNat
    = v.blocks.free.toNat + w.blocks.total.toNat
  inUse : ∀ block, w.blocks.isUsed block = v.blocks.isUsed block
  length : image'.size = w.blocks.total.toNat * v.width

/-- **A write that lacks space leaves all as it was exactly if the vault may
not grow**; otherwise the vault is at its limit afterwards. -/
theorem shortage_unchanged_iff (hobeys : Obeys Failures.none view) (hplain : NeverLacks μ)
    {h : Handle μ} (hr : h.Reached) {name : String} {data : ByteArray} {flags : Flags}
    {needed free : UInt64} {w : Vault} {m : μ}
    (hrun : (writeWith name data flags h.vault).run h.medium
      = ((.error (.noSpace needed free), w), m)) :
    (h.vault.Unchanged (view h.medium) w (view m) ↔ h.vault.mayGrow = false)
      ∧ (h.vault.mayGrow = true → h.vault.AtLimit w (view m)) := by
  obtain ⟨hpaced, hlacks⟩ := writeWith_paces hobeys hplain name data flags h.vault _ _ _ _ hrun
  have hfull : w.mayGrow = false := hlacks ⟨needed, free, rfl⟩
  have hs := hr.sound
  have hwritten := (writeWith_yields hs name data flags).run h.medium
  rw [hrun] at hwritten
  obtain ⟨hs', hkeeps⟩ := hwritten
  -- at its end the vault may grow no more, so what matters is whether it could at first
  refine ⟨⟨fun hunchanged => ?_, fun hstays => ?_⟩, fun hmay => ?_⟩
  · rw [← mayGrow_congr hpaced.settings hunchanged.total]
    exact hfull
  · rcases hpaced.sizes with ⟨htotal, hsize⟩ | ⟨hmay, _⟩
    · exact unchanged_of_sizes hs hs' hkeeps.alike htotal hsize
    · rw [hstays] at hmay
      cases hmay
  · rcases hpaced.sizes with ⟨htotal, _⟩ | ⟨_, hmore, hlimit, hsize⟩
    · rw [mayGrow_congr hpaced.settings htotal, hmay] at hfull
      cases hfull
    · obtain ⟨hused, hfree⟩ := inUse_of_alike hs hs' hkeeps.alike
      have hgrows : w.settings.autoGrow = true := by
        rw [mayGrow, Bool.and_eq_true] at hmay
        rw [hpaced.settings]
        exact hmay.1
      -- a vault that grew and may grow no more is at its limit
      have hreached := limit_le_total hgrows (Bool.eq_false_iff.mp hfull)
      rw [hpaced.settings] at hreached
      exact ⟨hkeeps.alike, hmore, UInt64.toNat_inj.mp (Nat.le_antisymm hlimit hreached), hfree,
        hused, hsize⟩

/-- In three blocks, and no more, there is no place for a byte. -/
theorem shortage_changes_nothing :
    ∃ results h, replay { threeBlocks with autoGrow := false } [] ByteArray.empty
        = some (results, h)
      ∧ ∃ needed free w image, (writeWith "a" ⟨#[1]⟩ Flags.none h.vault).run h.medium
          = ((.error (.noSpace needed free), w), image)
        ∧ h.vault.Unchanged h.medium w image := by
  have hruns : (blindThen { threeBlocks with autoGrow := false } []
      (writeWith "a" ⟨#[1]⟩ Flags.none) (Outline.ofImage ByteArray.empty)).map (fun x =>
      (x.1.2.vault.mayGrow, x.2.1.1)) = some (false, .error (.noSpace 1 0)) := by decide +kernel
  obtain ⟨⟨⟨results, o⟩, ⟨result, w⟩, o'⟩, hblind, hfacts⟩ := Option.map_eq_some_iff.mp hruns
  obtain ⟨h, image, hreplay, rfl, hrun, -⟩ := then_of_blind outline_view hblind
  simp only [Prod.mk.injEq] at hfacts
  obtain ⟨hstays, rfl⟩ := hfacts
  exact ⟨results, h, hreplay, 1, 0, w, image, hrun,
    (shortage_unchanged_iff image_obeys image_neverLacks (reached_of_replay hreplay) hrun).1.mpr
      hstays⟩

/-- A vault of three blocks that may have one more takes it for the byte, finds
none for the directory, and fails.  The block and the bytes of it stay. -/
theorem shortage_keeps_growth :
    ∃ results h, replay threeBlocks [] ByteArray.empty = some (results, h) ∧ h.Reached
      ∧ ∃ needed free w image, (writeWith "a" ⟨#[1]⟩ Flags.none h.vault).run h.medium
          = ((.error (.noSpace needed free), w), image)
        ∧ h.vault.blocks.total = 3 ∧ w.blocks.total = 4
        ∧ h.vault.blocks.free = 0 ∧ w.blocks.free = 1
        ∧ h.medium.size = 1536 ∧ image.size = 2048 := by
  -- the block gained goes to the stream, and none is left for the directory
  have hruns : (blindThen threeBlocks [] (writeWith "a" ⟨#[1]⟩ Flags.none)
      (Outline.ofImage ByteArray.empty)).map (fun x =>
      (x.2.1.1, (x.1.2.vault.blocks.total, x.2.1.2.blocks.total),
        (x.1.2.vault.blocks.free, x.2.1.2.blocks.free), x.1.2.medium.length, x.2.2.length))
      = some (.error (.noSpace 1 0), (3, 4), (0, 1), 1536, 2048) := by decide +kernel
  obtain ⟨⟨⟨results, o⟩, ⟨result, w⟩, o'⟩, hblind, hfacts⟩ := Option.map_eq_some_iff.mp hruns
  obtain ⟨h, image, hreplay, rfl, hrun, rfl⟩ := then_of_blind outline_view hblind
  simp only [Prod.mk.injEq] at hfacts
  obtain ⟨rfl, ⟨htotal, htotal'⟩, ⟨hfree, hfree'⟩, hlength, hlength'⟩ := hfacts
  exact ⟨results, h, hreplay, reached_of_replay hreplay, 1, 0, w, image, hrun, htotal, htotal',
    hfree, hfree', hlength, hlength'⟩

end Vault

end StateVault
