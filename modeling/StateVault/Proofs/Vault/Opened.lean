/-
  StateVault.Proofs.Vault.Opened
  ──────────────────────────────
  **VAULTS COME SOUND OUT OF FORMATTING AND MOUNTING.**

  What an image claims is checked before a vault is made of it: the fields of
  the superblock against each other, the directory entry by entry, and all
  extents against each other.  So a vault that is mounted is sound, whatever
  the image holds (`mount_yields`), and so is a new one (`format_yields`).
  Reading and verifying change nothing that is known (`read_yields`,
  `verify_yields`).
-/
import StateVault.Proofs.Superblock.Copies
import StateVault.Proofs.Vault.Sound

namespace StateVault.Vault

/-! ## §1. What an image must be like. -/

theorem current_of_currentIn {size : Nat} {region : ByteArray} {slot : Slot} {s : Superblock}
    (h : currentIn size region = .ok (slot, s)) :
    Superblock.current region = .ok (slot, s) ∧ s.imageBytes.toNat ≤ size := by
  unfold currentIn at h
  cases hcurrent : Superblock.current region with
  | error e =>
    rw [hcurrent] at h
    cases h
  | ok found =>
    obtain ⟨place, t⟩ := found
    rw [hcurrent] at h
    by_cases hshort : size < t.imageBytes.toNat
    · simp only [bind, Except.bind, if_pos hshort] at h
      cases h
    · simp only [bind, Except.bind, if_neg hshort] at h
      cases h
      exact ⟨rfl, Nat.le_of_not_lt hshort⟩

theorem check_of_currentIn {size : Nat} {region : ByteArray} {slot : Slot} {s : Superblock}
    (h : currentIn size region = .ok (slot, s)) : s.check = .ok () :=
  Superblock.check_of_current (current_of_currentIn h).1

/-- The extents that are claimed are those of all owners. -/
theorem extents_claims (s : Superblock) (d : Directory) :
    BlockMap.extents (claims s d)
      = superblockExtent s.blockSize :: s.directory :: streamExtents d := by
  unfold BlockMap.extents claims streamExtents
  rw [List.map_cons, List.map_cons, List.map_map]
  rfl

/-- What a survey finds in a vault of this superblock. -/
structure Surveyed (x : Survey) : Prop where
  check : x.superblock.check = .ok ()
  owns : x.blocks.Owns (superblockExtent x.superblock.blockSize :: x.superblock.directory
    :: streamExtents x.directory)
  total : x.blocks.total = x.superblock.totalBlocks
  valid : x.directory.Valid x.superblock.blockSize

/-- A directory that is read must be of the superblock's generation; then its
claims are made. -/
theorem assemble_of_decode {slot : Slot} {s : Superblock} {bytes : ByteArray} {d : Directory}
    {generation : UInt64} (h : Directory.decode bytes s.blockSize = .ok (d, generation)) :
    assemble slot s bytes
      = if generation ≠ s.generation then
          .error (.corrupt (.generationMismatch generation s.generation))
        else (BlockMap.ofClaims s.totalBlocks s.blockSize (claims s d)).map
          fun blocks => ⟨s, slot, d, blocks⟩ := by
  unfold assemble
  rw [h]
  by_cases hsame : generation ≠ s.generation
  · rw [if_pos hsame]
    exact if_pos hsame
  · rw [if_neg hsame]
    exact if_neg hsame

/-- What is put together from a superblock and a directory is a survey of them. -/
theorem surveyed_of_assemble {slot : Slot} {s : Superblock} {bytes : ByteArray} {x : Survey}
    (hcheck : s.check = .ok ()) (h : assemble slot s bytes = .ok x) :
    Surveyed x ∧ x.superblock = s ∧ x.slot = slot
      ∧ Directory.decode bytes s.blockSize = .ok (x.directory, s.generation) := by
  cases hdecode : Directory.decode bytes s.blockSize with
  | error e =>
    unfold assemble at h
    rw [hdecode] at h
    cases h
  | ok found =>
    obtain ⟨d, generation⟩ := found
    rw [assemble_of_decode hdecode] at h
    split at h
    · cases h
    · rename_i hsame
      cases hclaims : BlockMap.ofClaims s.totalBlocks s.blockSize (claims s d) with
      | error e =>
        rw [hclaims] at h
        cases h
      | ok blocks =>
        rw [hclaims] at h
        cases h
        -- accepted claims are the owners
        obtain ⟨howns, htotal, _⟩ := BlockMap.owns_of_ofClaims hclaims
        rw [extents_claims] at howns
        exact ⟨⟨hcheck, howns, htotal, Directory.valid_of_decode hdecode⟩, rfl, rfl,
          by rw [Decidable.of_not_not hsame]⟩

/-- A survey that finds something finds a vault with owners for the blocks in
use. -/
theorem survey_yields : survey.Yields fun
    | .ok x => Surveyed x
    | .error _ => True := by
  intro size
  rw [Script.yields_andThen]
  -- whatever the two reads answer, only what was checked gets through
  cases checkSize size with
  | error e => trivial
  | ok u =>
    show Script.Yields _ (Script.andThen _ _)
    rw [Script.yields_andThen]
    intro result
    cases result with
    | error e => trivial
    | ok region =>
      show Script.Yields _ (Script.andThen _ _)
      rw [Script.yields_andThen]
      cases hcurrent : currentIn size region with
      | error e => trivial
      | ok found =>
        obtain ⟨slot, s⟩ := found
        show Script.Yields _ (Script.andThen _ _)
        rw [Script.yields_andThen]
        intro result
        cases result with
        | error e => trivial
        | ok bytes =>
          show match assemble slot s bytes with
            | .ok x => Surveyed x
            | .error _ => True
          cases hassemble : assemble slot s bytes with
          | error e => trivial
          | ok x => exact (surveyed_of_assemble (check_of_currentIn hcurrent) hassemble).1

/-! ## §2. Mounting and formatting. -/

theorem leastBlocks_of_check {s : Superblock} (h : s.check = .ok ()) :
    leastBlocks.toNat ≤ s.totalBlocks.toNat := by
  have hlayout := (Superblock.check_eq_ok h).2.2
  unfold Superblock.checkLayout at hlayout
  by_cases hfew : s.totalBlocks < leastBlocks
  · rw [if_pos hfew] at hlayout
    cases hlayout
  · rw [UInt64.lt_iff_toNat_lt] at hfew
    exact Nat.le_of_not_lt hfew

/-- The vault of a survey is sound, whatever its settings. -/
theorem Surveyed.sound {x : Survey} (h : Surveyed x) (settings : Settings) :
    (Vault.mk x.superblock x.slot x.directory x.blocks settings).Sound := by
  obtain ⟨hversion, hsize, hlayout⟩ := Superblock.check_eq_ok h.check
  have hwithin := h.owns.within
  rw [h.total] at hwithin
  exact
    { held :=
        { blockSize := hsize
          version := Superblock.version_of_checkVersion hversion
          least := by
            show _ ≤ x.blocks.total.toNat
            rw [h.total]
            exact leastBlocks_of_check h.check
          owns := h.owns }
      check := h.check
      below := hwithin
      committed := Nat.le_of_eq (congrArg UInt64.toNat h.total.symm)
      valid := h.valid }

/-- **A vault that is opened is sound**, with the settings it was opened with. -/
theorem mount_yields (settings : Settings) : (mount settings).Yields fun
    | .ok v => v.Sound ∧ v.settings = settings
    | .error _ => True := by
  unfold mount
  rw [Script.yields_andThen]
  cases (if settings.autoGrow = true then settings.check else .ok ()) with
  | error e => trivial
  | ok u =>
    show Script.Yields _ (Script.andThen _ _)
    rw [Script.yields_andThen]
    refine survey_yields.mono fun result hsurvey => ?_
    cases result with
    | error e => trivial
    | ok x => exact ⟨hsurvey.sound settings, rfl⟩

theorem settings_check {settings : Settings} (h : settings.check = .ok ()) :
    isBlockSize settings.blockSize = true
      ∧ leastBlocks.toNat ≤ settings.initialBlocks.toNat
      ∧ settings.initialBlocks.toNat ≤ settings.maxBlocks.toNat
      ∧ settings.maxBlocks.toNat * settings.blockSize.toNat < UInt64.size := by
  unfold Settings.check checkBlockSize at h
  by_cases hsize : isBlockSize settings.blockSize = true
  · rw [if_pos hsize] at h
    simp only [bind, Except.bind] at h
    by_cases hfew : settings.initialBlocks < leastBlocks
    · rw [if_pos hfew] at h
      cases h
    · rw [if_neg hfew] at h
      by_cases hlimit : settings.maxBlocks < settings.initialBlocks
      · rw [if_pos hlimit] at h
        cases h
      · rw [if_neg hlimit] at h
        have hmul := Word.toNat_mul? settings.maxBlocks settings.blockSize.toUInt64
        rw [UInt64.lt_iff_toNat_lt] at hfew hlimit
        refine ⟨hsize, Nat.le_of_not_lt hfew, Nat.le_of_not_lt hlimit, ?_⟩
        rw [UInt32.toNat_toUInt64] at hmul
        apply Nat.lt_of_not_le
        -- a limit whose bytes are no word is refused last
        intro hover
        rw [if_neg (Nat.not_lt.mpr hover)] at hmul
        rw [Option.map_eq_none_iff.mp hmul] at h
        cases h
  · rw [if_neg hsize] at h
    cases h

/-- The copies of the superblock get their blocks in a map in which nothing else
has any. -/
theorem exists_unwritten {settings : Settings} (hcheck : settings.check = .ok ()) :
    ∃ blocks, (BlockMap.blank settings.initialBlocks settings.blockSize).claim
        (superblockExtent settings.blockSize) = .ok blocks
      ∧ (unwritten settings blocks).Held [] ∧ blocks.total = settings.initialBlocks := by
  obtain ⟨hsize, hleast, _, _⟩ := settings_check hcheck
  obtain ⟨hone, htwo, _⟩ := superblockBlocks_spec hsize
  have hthree : leastBlocks.toNat = 3 := rfl
  -- the copies of the superblock take two blocks at most, of three or more
  have hfits : (superblockExtent settings.blockSize).Fits
      (BlockMap.blank settings.initialBlocks settings.blockSize).total := by
    refine Or.inr ?_
    show 0 + (superblockBlocks settings.blockSize).toNat ≤ settings.initialBlocks.toNat
    omega
  obtain ⟨blocks, hok, howns, htotal, _⟩ :=
    (BlockMap.owns_blank settings.initialBlocks settings.blockSize).claim
      (by
        show (superblockBlocks settings.blockSize).toNat ≠ 0
        omega)
      hfits (fun _ hd => absurd hd List.not_mem_nil)
  refine ⟨blocks, hok, ⟨hsize, rfl, ?_, ?_⟩, htotal⟩
  · show _ ≤ blocks.total.toNat
    rw [htotal]
    exact hleast
  · exact (howns.add_empty (e := Extent.empty) rfl).perm (List.Perm.swap _ _ _)

/-- A map in which only the copies of the superblock have blocks. -/
theorem held_unwritten {settings : Settings} {blocks : BlockMap}
    (hcheck : settings.check = .ok ())
    (hclaim : (BlockMap.blank settings.initialBlocks settings.blockSize).claim
      (superblockExtent settings.blockSize) = .ok blocks) :
    (unwritten settings blocks).Held [] ∧ blocks.total = settings.initialBlocks := by
  obtain ⟨blocks', hok, hheld⟩ := exists_unwritten hcheck
  rw [hok] at hclaim
  cases hclaim
  exact hheld

/-- **A vault that is formatted is sound**, and has no streams. -/
theorem format_yields (settings : Settings) : (format settings).Yields fun
    | .ok v => v.Sound ∧ v.directory = .empty ∧ v.settings = settings
    | .error _ => True := by
  unfold format
  rw [Script.yields_andThen]
  cases hcheck : settings.check with
  | error e => trivial
  | ok u =>
    show Script.Yields _ (Script.andThen _ _)
    rw [Script.yields_andThen]
    intro result
    cases result with
    | error e => trivial
    | ok u =>
      show Script.Yields _ (Script.andThen _ _)
      rw [Script.yields_andThen]
      intro result
      cases result with
      | error e => trivial
      | ok u =>
        show Script.Yields _ (Script.andThen _ _)
        rw [Script.yields_andThen]
        -- length, zeros and the claim of the superblock come before the first commit
        cases hclaim : (BlockMap.blank settings.initialBlocks settings.blockSize).claim
            (superblockExtent settings.blockSize) with
        | error e => trivial
        | ok blocks =>
          show Script.Yields _ (Script.bind _ _)
          rw [Script.yields_bind]
          obtain ⟨hheld, _⟩ := held_unwritten hcheck hclaim
          refine (commit_yields hheld .empty).mono ?_
          intro outcome hcommit
          obtain ⟨result, w⟩ := outcome
          cases result with
          | error e => trivial
          | ok u =>
            obtain ⟨hadvanced, hwheld⟩ := hcommit
            exact ⟨hadvanced.sound (Keeps.refl w) rfl hwheld (Directory.valid_empty _),
              hadvanced.directory, hadvanced.settings⟩

/-! ## §3. Reading and verifying. -/

/-- Reading changes nothing that is known of the vault. -/
theorem read_yields (name : String) (v : Vault) :
    (read name v).Yields fun outcome => outcome.2 = v := by
  unfold read
  rw [Action.yields_vault, Action.yields_bind]
  cases v.entry name with
  | error e => rfl
  | ok e =>
    show ((if e.extent.isEmpty = true then _ else _ : Action ByteArray) v).Yields _
    by_cases hempty : e.extent.isEmpty = true
    · rw [if_pos hempty]
      rfl
    · rw [if_neg hempty, Action.yields_bind]
      refine Action.yields_call fun result => ?_
      cases result with
      | error e => rfl
      | ok blocks => rfl

theorem verify_yields (v : Vault) : (verify v).Yields fun outcome => outcome.2 = v := by
  unfold verify
  rw [Action.yields_vault, Action.yields_bind]
  refine Action.yields_call fun result => ?_
  cases result with
  | error e => rfl
  | ok x => rfl

end StateVault.Vault
