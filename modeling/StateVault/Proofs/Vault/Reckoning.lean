/-
  StateVault.Proofs.Vault.Reckoning
  ─────────────────────────────────
  **NO ARITHMETIC WRAPS, WHATEVER IS DONE TO A VAULT.**

  The fields of an image are any words, and the settings need not be those
  that it was made with.  But an image that is opened is as long as its
  superblock says, and a vault grows only by a length that the medium takes.
  So while the medium is shorter than 2^63 bytes, the vault that is known of
  is too, and all numbers that are made of it are exact.

    • `survey_asks`, `mount_asks`, `format_asks` — the calls of making and
                                  opening a vault, and the bound they end in,
    • `Request.moves`           — the calls of any request,
    • `Handle.Confined.measured` — the bound, by induction on the run,
    • `arithmetic_exact`        — every run, from formatting or opening on.
-/
import StateVault.Proofs.Vault.Calling
import StateVault.Proofs.Vault.Served
import StateVault.Proofs.Vault.Updates

namespace StateVault.Vault

/-! ## §1. Opening and verifying. -/

/-- An image that is as long as its superblock says has that many bytes, and no
fewer: its size was not held at the largest word. -/
theorem committed_lt {s : Superblock} {size : Nat} (hbytes : s.imageBytes.toNat ≤ size)
    (hsize : size < lengthLimit) : s.totalBlocks.toNat * s.blockSize.toNat < lengthLimit := by
  have hlimit : lengthLimit < UInt64.size := by decide
  rw [Superblock.toNat_imageBytes] at hbytes
  omega

theorem measured_bare {s : Superblock} (hblock : isBlockSize s.blockSize = true)
    (hsize : s.totalBlocks.toNat * s.blockSize.toNat < lengthLimit) : (bare s).Measured where
  blockSize := hblock
  blocks := BlockMap.represents_blank _ _
  size := hsize
  committed := hsize

/-- The numbers in a superblock that passed its check are exact. -/
theorem described_of_check {s : Superblock} (hcheck : s.check = .ok ())
    (hsize : s.totalBlocks.toNat * s.blockSize.toNat < lengthLimit) : Described s := by
  have hmeasured := measured_bare (Superblock.check_eq_ok hcheck).2.1 hsize
  have hstop := Superblock.directory_stop_of_check hcheck
  have htotal : s.totalBlocks.toNat < 2 ^ 54 := hmeasured.total_lt
  have hin : s.directory.start.toNat + s.directory.count.toNat ≤ s.totalBlocks.toNat := by
    have hword : UInt64.size = 2 ^ 64 := rfl
    rw [Extent.toNat_stop] at hstop
    omega
  exact ⟨hcheck, hmeasured.unwrapped, hin, (Superblock.directory_of_check hcheck).2⟩

/-- The vault that a survey finds. -/
def Survey.vault (x : Survey) (settings : Settings) : Vault :=
  ⟨x.superblock, x.slot, x.directory, x.blocks, settings⟩

/-- What a survey finds is measured. -/
theorem Surveyed.measured {x : Survey} (h : Surveyed x)
    (hsize : x.superblock.totalBlocks.toNat * x.superblock.blockSize.toNat < lengthLimit)
    (settings : Settings) : (x.vault settings).Measured where
  blockSize := (Superblock.check_eq_ok h.check).2.1
  blocks := h.owns.represents
  size := by
    show x.blocks.total.toNat * x.superblock.blockSize.toNat < lengthLimit
    rw [h.total]
    exact hsize
  committed := hsize

/-- A survey reads at exact places. -/
theorem survey_asks : survey.Asks lengthLimit SurveyCall fun
    | .ok x => ∀ settings, (x.vault settings).Measured
    | .error _ => True := by
  intro size hsize
  rw [Script.asks_andThen]
  cases checkSize size with
  | error e => trivial
  | ok u =>
    show Script.Asks _ _ _ (Script.andThen _ _)
    rw [Script.asks_andThen]
    refine ⟨.region, fun result => ?_⟩
    cases result with
    | error e => trivial
    | ok region =>
      show Script.Asks _ _ _ (Script.andThen _ _)
      rw [Script.asks_andThen]
      cases hcurrent : currentIn size region with
      | error e => trivial
      | ok found =>
        obtain ⟨slot, s⟩ := found
        have hcheck := check_of_currentIn hcurrent
        -- the image is longer than what the superblock describes, so that is below the
        -- limit
        have hcommitted := committed_lt (current_of_currentIn hcurrent).2 hsize
        have hdescribed := described_of_check hcheck hcommitted
        have hstart : s.directory.start.toNat ≤ s.totalBlocks.toNat :=
          Nat.le_trans (Nat.le_add_right _ _) hdescribed.directory
        have hoffset : (s.blockOffset s.directory.start).toNat
            = s.directory.start.toNat * s.blockSize.toNat :=
          hdescribed.unwrapped.offset _ hstart
        show Script.Asks _ _ _ (Script.andThen _ _)
        rw [Script.asks_andThen, hoffset]
        refine ⟨.directory hdescribed, fun result => ?_⟩
        cases result with
        | error e => trivial
        | ok bytes =>
          show match assemble slot s bytes with
            | .ok x => ∀ settings, (x.vault settings).Measured
            | .error _ => True
          cases hassemble : assemble slot s bytes with
          | error e => trivial
          | ok x =>
            obtain ⟨hsurveyed, rfl, -, -⟩ := surveyed_of_assemble hcheck hassemble
            exact hsurveyed.measured hcommitted

/-- Opening reads at exact places, and comes to a measured vault. -/
theorem mount_asks (settings : Settings) : (mount settings).Asks lengthLimit SurveyCall fun
    | .ok v => v.Measured
    | .error _ => True := by
  unfold mount
  rw [Script.asks_andThen]
  cases (if settings.autoGrow = true then settings.check else .ok ()) with
  | error e => trivial
  | ok u =>
    show Script.Asks _ _ _ (Script.andThen _ _)
    rw [Script.asks_andThen]
    refine survey_asks.mono fun result hsurvey => ?_
    cases result with
    | error e => trivial
    | ok x => exact hsurvey settings

theorem verify_moves {asked : UInt64 → Prop} (v : Vault) : Moves asked v verify v := by
  have hsurveys : Stays asked v (Action.call survey) v :=
    stays_call (survey_asks.weaken (fun _ => .surveys) fun _ _ => trivial)
  exact moves_vault ((hsurveys.moves .refl).bind fun x u hu => moves_done rfl hu)

/-! ## §2. Claims. -/

/-- Claims are accepted one after the other. -/
theorem exists_acceptAll_init {claims : List BlockMap.Claim} {c : BlockMap.Claim}
    {m after : BlockMap} {earlier : List BlockMap.Claim}
    (h : m.acceptAll earlier (claims ++ [c]) = .ok after) :
    ∃ before, m.acceptAll earlier claims = .ok before := by
  induction claims generalizing m earlier with
  | nil => exact ⟨m, rfl⟩
  | cons d rest ih =>
    rw [List.cons_append, BlockMap.acceptAll] at h
    rw [BlockMap.acceptAll]
    -- an empty claim is passed over, another one has to be accepted
    by_cases hempty : d.extent.isEmpty = true
    · rw [if_pos hempty] at h ⊢
      exact ih h
    · rw [if_neg hempty] at h ⊢
      cases haccept : m.accept earlier d with
      | error e =>
        rw [haccept] at h
        cases h
      | ok next =>
        rw [haccept] at h
        exact ih h

/-- Each claim that is accepted is taken from a count that has as many blocks. -/
theorem free_of_ofClaims {total : UInt64} {blockSize : UInt32} {claims : List BlockMap.Claim}
    {c : BlockMap.Claim} {after : BlockMap}
    (h : BlockMap.ofClaims total blockSize (claims ++ [c]) = .ok after) :
    ∃ before, BlockMap.ofClaims total blockSize claims = .ok before
      ∧ after.free.toNat + c.extent.count.toNat = before.free.toNat := by
  obtain ⟨before, hbefore⟩ : ∃ before, BlockMap.ofClaims total blockSize claims = .ok before :=
    exists_acceptAll_init h
  obtain ⟨howns, htotal, -⟩ := BlockMap.owns_of_ofClaims hbefore
  obtain ⟨howns', htotal', -⟩ := BlockMap.owns_of_ofClaims h
  have hcount := howns.count
  have hcount' := howns'.count
  have hmore : BlockMap.blocks (BlockMap.extents (claims ++ [c]))
      = c.extent.count.toNat + BlockMap.blocks (BlockMap.extents claims) := by
    unfold BlockMap.extents
    rw [List.map_append]
    exact BlockMap.blocks_perm (List.perm_append_singleton _ _)
  -- both maps have `total` blocks, and one has an owner more
  rw [htotal] at hcount
  rw [htotal', hmore] at hcount'
  exact ⟨before, hbefore, by omega⟩

/-! ## §3. Formatting. -/

/-- A storage call of formatting at an exact place: the length, the zeros in the
place of the superblocks, and the calls of the first commit. -/
inductive FormatCall (settings : Settings) : Call → Prop where
  | lengthens :
      FormatCall settings (.setLength (settings.initialBlocks.toNat * settings.blockSize.toNat))
  | clears : FormatCall settings
      (.write 0 ((superblockBlocks settings.blockSize).toNat * settings.blockSize.toNat))
  | commits {blocks : BlockMap} {c : Call}
      (hblocks : blocks.free.toNat + (superblockBlocks settings.blockSize).toNat
        = settings.initialBlocks.toNat)
      (hunwrapped : ∀ w, (unwritten settings blocks).Shifts w → w.Unwrapped)
      (h : ExactCall (fun _ => False) (unwritten settings blocks) c) : FormatCall settings c

/-- The vault that formatting starts from, its medium as long as it must be. -/
theorem measured_unwritten {settings : Settings} {blocks : BlockMap}
    (hcheck : settings.check = .ok ())
    (hsize : settings.initialBlocks.toNat * settings.blockSize.toNat < lengthLimit)
    (hclaim : (BlockMap.blank settings.initialBlocks settings.blockSize).claim
      (superblockExtent settings.blockSize) = .ok blocks) :
    (unwritten settings blocks).Measured := by
  obtain ⟨hheld, htotal⟩ := held_unwritten hcheck hclaim
  refine ⟨hheld.blockSize, hheld.owns.represents, ?_, hsize⟩
  show blocks.total.toNat * settings.blockSize.toNat < lengthLimit
  rw [htotal]
  exact hsize

/-- The first commit, in a vault of which the superblocks are the only owners. -/
theorem firstCommit_asks {settings : Settings} {blocks : BlockMap}
    (hm : (unwritten settings blocks).Measured)
    (hblocks : blocks.free.toNat + (superblockBlocks settings.blockSize).toNat
      = settings.initialBlocks.toNat) :
    ((commit .empty (unwritten settings blocks)).bind fun (result, v) =>
      .done (result.map fun _ => v)).Asks lengthLimit (FormatCall settings) fun
        | .ok v => v.Measured
        | .error _ => True := by
  have hcommits : Moves (fun _ => False) (unwritten settings blocks) (commit .empty)
      (unwritten settings blocks) :=
    commit_moves hm .refl .empty
  rw [Script.asks_bind]
  refine Script.Asks.weaken hcommits (fun c hc => ?_) fun outcome hend => ?_
  · exact .commits hblocks (fun w hw => (hw.measured hm).unwrapped) hc
  · obtain ⟨result, w⟩ := outcome
    cases result with
    | error e => trivial
    | ok u => exact hend.measured hm

/-- **Formatting makes exact calls**, and comes to a measured vault. -/
theorem format_asks (settings : Settings) :
    (format settings).Asks lengthLimit (FormatCall settings) fun
      | .ok v => v.Measured
      | .error _ => True := by
  unfold format
  rw [Script.asks_andThen]
  cases hcheck : settings.check with
  | error e => trivial
  | ok u =>
    obtain ⟨hblock, hleast, -, -⟩ := settings_check hcheck
    obtain ⟨-, htwo, -⟩ := superblockBlocks_spec hblock
    show Script.Asks _ _ _ (Script.andThen _ _)
    rw [Script.asks_andThen, (toNat_initialBytes hcheck).2]
    refine ⟨.lengthens, fun result hset => ?_⟩
    cases result with
    | error e => trivial
    | ok u =>
      -- with the length set, the vault without owners is small enough
      have hsize := hset rfl
      have hbare : (bare (.initial settings.blockSize settings.initialBlocks)).Unwrapped :=
        (measured_bare hblock hsize).unwrapped
      have hin : (bare (.initial settings.blockSize settings.initialBlocks)).Within
          (superblockExtent settings.blockSize) := by
        show 0 + (superblockBlocks settings.blockSize).toNat ≤ settings.initialBlocks.toNat
        have hthree : leastBlocks.toNat = 3 := rfl
        omega
      have hreserved : ((superblockExtent settings.blockSize).capacity settings.blockSize).toNat
          = (superblockBlocks settings.blockSize).toNat * settings.blockSize.toNat :=
        hbare.capacity _ hin
      show Script.Asks _ _ _ (Script.andThen _ _)
      rw [Script.asks_andThen]
      refine ⟨?_, fun result => ?_⟩
      · rw [Bytes.size_zeros, hreserved]
        exact .clears
      · cases result with
        | error e => trivial
        | ok u =>
          show Script.Asks _ _ _ (Script.andThen _ _)
          rw [Script.asks_andThen]
          cases hclaim : (BlockMap.blank settings.initialBlocks settings.blockSize).claim
              (superblockExtent settings.blockSize) with
          | error e => trivial
          | ok blocks =>
            exact firstCommit_asks (measured_unwritten hcheck hsize hclaim)
              (hbare.claim _ _ hin hclaim)

/-! ## §4. Requests, and runs of them. -/

/-- The size that a request asks for. -/
def Request.asked : Request → UInt64 → Prop
  | .resize total, n => n = total
  | _, _ => False

theorem Moves.answer {α β : Type} {asked : UInt64 → Prop} {v w : Vault} {x : Action α}
    (hx : Moves asked v x w) (f : α → β) :
    Moves asked v (x >>= fun a => (return f a : Action β)) w :=
  hx.bind fun _ _ hu => moves_done rfl hu

/-- **Each request makes exact calls and changes the vault as a vault can
change.** -/
theorem Request.moves {v : Vault} (hs : v.Sound) (hm : v.Measured) (r : Request) :
    Moves r.asked v r.action v := by
  have hv : v.Shifts v := .refl
  cases r with
  | write name data => exact (write_moves hm hv name data.fits).answer _
  | writeWith name data flags => exact (writeWith_moves hm hv name data.fits flags).answer _
  | delete name => exact (delete_moves hm hv name).answer _
  | resize total =>
    have hasked : (Request.resize total).asked total := rfl
    exact (resize_moves hm hasked).answer _
  | read name => exact (read_moves hs hm name).answer _
  | verify => exact (verify_moves v).answer _

namespace Handle

variable {μ : Type} [Medium μ]

/-- The handles that come of formatting or opening a medium, and of any run of
requests after that, the medium shorter than 2^63 bytes throughout. -/
inductive Confined : Handle μ → Prop where
  | formatted {settings : Settings} {v : Vault} {m m' : μ}
      (h : (format settings).run m = (.ok v, m'))
      (hshort : (format settings).Short lengthLimit m) : Confined ⟨v, m'⟩
  | mounted {settings : Settings} {v : Vault} {m m' : μ}
      (h : (mount settings).run m = (.ok v, m'))
      (hshort : (mount settings).Short lengthLimit m) : Confined ⟨v, m'⟩
  | performed {h : Handle μ} (confined : Confined h) (r : Request)
      (hshort : (r.action h.vault).Short lengthLimit h.medium) : Confined (h.perform r).2

theorem Confined.reached {h : Handle μ} (hc : h.Confined) : h.Reached := by
  induction hc with
  | formatted h _ => exact .formatted h
  | mounted h _ => exact .mounted h
  | performed _ r _ ih => exact .performed ih r

/-- The bound that opening and formatting end in, and that no request leaves. -/
theorem Confined.measured (hsets : SetsSize μ) {h : Handle μ} (hc : h.Confined) :
    h.vault.Measured := by
  induction hc with
  | @formatted settings v m m' hrun hshort =>
    have hanswer := ((format_asks settings).run hsets hshort).2
    rw [hrun] at hanswer
    exact hanswer
  | @mounted settings v m m' hrun hshort =>
    have hanswer := ((mount_asks settings).run hsets hshort).2
    rw [hrun] at hanswer
    exact hanswer
  | performed before r hshort ih =>
    have hshifts := ((r.moves before.reached.sound ih).run hsets hshort).2
    exact hshifts.measured ih

/-- No number that is made of a vault, in any request that comes next, is
another than the exact one. -/
structure Reckoned (h : Handle μ) : Prop where
  /-- The vault, and all that can become of it while a request is performed. -/
  unwrapped : ∀ w, h.vault.Shifts w → w.Unwrapped
  within : ∀ e ∈ h.vault.owners, e.isEmpty = false → h.vault.Within e
  /-- What becomes of the vault, and the calls that are made for it. -/
  requests : ∀ r : Request, (r.action h.vault).Short lengthLimit h.medium →
    h.vault.Shifts (h.perform r).2.vault
      ∧ ∀ c ∈ (r.action h.vault).calls h.medium, ExactCall r.asked h.vault c
  /-- A size that has no 64-bit length is refused, and nothing is done. -/
  overflows : ∀ total : UInt64, UInt64.size ≤ total.toNat * h.vault.width →
    h.perform (.resize total) = (.error (.settings (.sizeOverflows total)), h)

end Handle

/-- A size without a length is refused before anything is changed. -/
theorem Handle.perform_of_overflow {μ : Type} [Medium μ] {h : Handle μ} (hs : h.vault.Sound)
    (hm : h.vault.Measured) {total : UInt64}
    (hover : UInt64.size ≤ total.toNat * h.vault.width) :
    h.perform (.resize total) = (.error (.settings (.sizeOverflows total)), h) := by
  -- so large a size is larger than the vault
  have hmore : h.vault.blocks.total < total := by
    rw [UInt64.lt_iff_toNat_lt]
    apply Nat.lt_of_not_le
    intro hle
    have hsize := Nat.lt_of_le_of_lt (Nat.mul_le_mul_right h.vault.width hle) hm.size
    have hlimit : lengthLimit < UInt64.size := by decide
    omega
  have hrefused : (Request.resize total).action h.vault
      = .done (.error (.settings (.sizeOverflows total)), h.vault) := by
    show Script.bind (resize total h.vault) _ = _
    rw [resize_of_more hs hmore]
    show Script.bind (Script.bind (lengthen total h.vault) _) _ = _
    rw [lengthen_of_overflow hover]
    rfl
  unfold perform
  rw [hrefused]
  rfl

/-- **The run lemma**: no number made of a confined handle is another than the
exact one. -/
theorem Handle.Confined.reckoned {μ : Type} [Medium μ] (hsets : SetsSize μ) {h : Handle μ}
    (hc : h.Confined) : h.Reckoned := by
  have hs := hc.reached.sound
  have hm := hc.measured hsets
  constructor
  · exact fun w hw => (hw.measured hm).unwrapped
  · exact fun e he hne => hs.within he hne
  · intro r hshort
    obtain ⟨hcalls, hshifts⟩ := (r.moves hs hm).run hsets hshort
    exact ⟨hshifts, hcalls⟩
  · exact fun total hover => Handle.perform_of_overflow hs hm hover

/-- **No arithmetic wraps, falls below zero or is held at the largest word.**
On a medium of fewer than 2^63 bytes, made or opened with any settings and after
any requests, every place and every number of bytes is an exact product, and
every count of free blocks has what is taken from it.  A size that has no 64-bit
length is refused, whatever the vault, and changes neither medium nor map. -/
theorem arithmetic_exact {μ : Type} [Medium μ] (hsets : SetsSize μ) :
    (∀ h : Handle μ, h.Confined → h.Reckoned)
    ∧ (∀ settings (m : μ), (format settings).Short lengthLimit m →
        ∀ c ∈ (format settings).calls m, FormatCall settings c)
    ∧ (∀ settings (m : μ), (mount settings).Short lengthLimit m →
        ∀ c ∈ (mount settings).calls m, SurveyCall c)
    ∧ (∀ total blockSize claims c after,
        BlockMap.ofClaims total blockSize (claims ++ [c]) = .ok after →
        ∃ before, BlockMap.ofClaims total blockSize claims = .ok before
          ∧ after.free.toNat + c.extent.count.toNat = before.free.toNat)
    ∧ (∀ (v : Vault) (total : UInt64), UInt64.size ≤ total.toNat * v.width →
        lengthen total v = .done (.error (.settings (.sizeOverflows total)), v))
    ∧ ∀ (v : Vault) (needed : UInt64) (e : Error), v.blocks.allocate needed = .error e →
        v.mayGrow = true → UInt64.size ≤ (v.grownTotal needed).toNat * v.width →
        allocateGrowing needed v
          = .done (.error (.settings (.sizeOverflows (v.grownTotal needed))), v) :=
  ⟨fun _ hc => hc.reckoned hsets,
    fun settings _ hshort => ((format_asks settings).run hsets hshort).1,
    fun settings _ hshort => ((mount_asks settings).run hsets hshort).1,
    fun _ _ _ _ _ h => free_of_ofClaims h,
    fun _ _ h => lengthen_of_overflow h,
    fun _ _ _ hfull hgrow h => allocateGrowing_of_unaddressed hfull hgrow h⟩

/-- A vault of eight blocks is so, also after a stream is written to it; and
2^60 blocks are refused. -/
theorem arithmetic_exact_ofEight :
    SetsSize Image
      ∧ ∃ v image, (format eightBlocks).run (ByteArray.empty : Image) = (.ok v, image)
        ∧ (Handle.mk v image).Reckoned
        ∧ ((Handle.mk v image).perform (.write "a" (.one 1))).2.Reckoned
        ∧ (Handle.mk v image).perform (.resize 0x1000000000000000)
          = (.error (.settings (.sizeOverflows 0x1000000000000000)), ⟨v, image⟩) := by
  have hsets : SetsSize Image := image_obeys.setsSize
  have hformat : (format eightBlocks).Short lengthLimit (Outline.ofImage ByteArray.empty) := by
    decide +kernel
  -- the write reads nothing, so the outline tells how long the image is throughout
  have hruns : ((format eightBlocks).blind (Outline.ofImage ByteArray.empty)).map (fun x =>
      x.1.toOption.map fun v => (v.width,
        (((Request.write "a" (.one 1)).action v).blind x.2).isSome,
        decide (((Request.write "a" (.one 1)).action v).Short lengthLimit x.2)))
      = some (some (512, true, true)) := by decide +kernel
  obtain ⟨⟨answer, o⟩, hblind, hfacts⟩ := Option.map_eq_some_iff.mp hruns
  obtain ⟨image, hrun, rfl⟩ := outline_view.run_of_blind hblind
  cases answer with
  | error e => cases hfacts
  | ok v =>
    simp only [Except.toOption, Option.map_some, Option.some.injEq, Prod.mk.injEq,
      decide_eq_true_eq] at hfacts
    obtain ⟨hwidth, hwrite, hshort⟩ := hfacts
    have hmade : (Handle.mk v image).Confined :=
      .formatted hrun (outline_view.short (Option.isSome_iff_exists.mpr ⟨_, hblind⟩) hformat)
    have hwritten : ((Handle.mk v image).perform (.write "a" (.one 1))).2.Confined :=
      hmade.performed _ (outline_view.short hwrite hshort)
    have hreckoned : (Handle.mk v image).Reckoned := (arithmetic_exact hsets).1 _ hmade
    refine ⟨hsets, v, image, hrun, hreckoned, (arithmetic_exact hsets).1 _ hwritten,
      hreckoned.overflows _ ?_⟩
    show UInt64.size ≤ (0x1000000000000000 : UInt64).toNat * v.width
    rw [hwidth]
    decide

end StateVault.Vault
