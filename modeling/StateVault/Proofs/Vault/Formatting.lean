/-
  StateVault.Proofs.Vault.Formatting
  ──────────────────────────────────
  **FORMATTING YIELDS A FRESH VAULT, WHATEVER WAS THERE.**

  On a medium that does not fail, a vault is made exactly when its settings
  pass their check: even the smallest one has a block for the first directory
  beside those of the superblock, so that not even one that may grow does so.
  Length, slot, generation and blocks in use of the new vault follow from the
  settings alone, and opening the medium finds them.

    • `directoryBlocks_empty` — the first directory takes one block,
    • `exists_first_block`    — there is one,
    • `format_passes`         — so that formatting goes through,
    • `fresh_of_formatted`    — and makes a fresh vault,
    • `format_fresh`          — which is also what is opened.
-/
import StateVault.Proofs.Storage.InMemory
import StateVault.Proofs.Vault.Shrinking

namespace StateVault.Vault

variable {settings : Settings} {blocks : BlockMap} {v w : Vault}

/-! ## §1. Room for the first directory. -/

/-- A directory without entries takes one block, however small the blocks. -/
theorem directoryBlocks_empty (h : isBlockSize v.superblock.blockSize = true) :
    v.directoryBlocks .empty = 1 := by
  obtain ⟨hlow, _⟩ := isBlockSize_bounds h
  obtain ⟨henough, hleast⟩ := blocksToHold_spec h (UInt64.ofNat (Directory.encodedSize 0))
  have hbytes : (UInt64.ofNat (Directory.encodedSize 0)).toNat = 32 := rfl
  rw [hbytes] at henough hleast
  have hmost := hleast 1 (by omega)
  have hsome : (blocksToHold (UInt64.ofNat (Directory.encodedSize 0))
      v.superblock.blockSize).toNat ≠ 0 := by
    intro hzero
    rw [hzero, Nat.zero_mul] at henough
    omega
  apply UInt64.toNat_inj.mp
  show (blocksToHold (UInt64.ofNat (Directory.encodedSize 0)) v.superblock.blockSize).toNat = 1
  omega

/-- The block after those of the superblock is there, and free. -/
theorem exists_first_block (h : (unwritten settings blocks).Held []) :
    ∃ e after, blocks.allocate 1 = .ok (e, after) := by
  have howns : blocks.Owns (superblockExtent settings.blockSize :: Extent.empty :: []) := h.owns
  have hleast : leastBlocks.toNat ≤ blocks.total.toNat := h.least
  have hthree : leastBlocks.toNat = 3 := rfl
  obtain ⟨_, htwo, _⟩ := superblockBlocks_spec h.blockSize
  have hsize : (unwritten settings blocks).superblock.blockSize = settings.blockSize := rfl
  rw [hsize] at htwo
  -- the block behind the superblock is free, as there is no other owner yet
  have hrun : blocks.FreeRun (superblockBlocks settings.blockSize).toNat (1 : UInt64).toNat := by
    have hone : (1 : UInt64).toNat = 1 := rfl
    rw [hone]
    refine ⟨by omega, fun block hlow _ => Bool.eq_false_iff.mpr fun hused => ?_⟩
    obtain ⟨e, he, hmem⟩ := (howns.used block).mp hused
    rcases List.mem_cons.mp he with rfl | he
    · rw [(howns.within _ List.mem_cons_self).mem_iff] at hmem
      have hend : block < 0 + (superblockBlocks settings.blockSize).toNat := hmem.2
      omega
    · rw [List.mem_singleton.mp he] at hmem
      exact Extent.not_mem_of_isEmpty rfl block hmem
  have hone : (1 : UInt64) ≠ 0 := by decide
  have hspec := BlockMap.allocate_spec howns.counted hone
  cases hfound : blocks.allocate 1 with
  | ok found => exact ⟨found.1, found.2, rfl⟩
  | error e =>
    rw [hfound] at hspec
    exact absurd hrun (hspec.2 _)

/-! ## §2. Formatting without failures. -/

/-- Without failures the first commit goes through, and neither the vault nor
the image changes its size. -/
theorem firstCommit_passes {t : Watched} (h : Prepared settings blocks t.image) :
    (commit .empty (unwritten settings blocks)).Ensures Failures.none (fun _ => True) t
      fun outcome t' => outcome.1 = .ok () ∧ outcome.2.blocks.total = settings.initialBlocks
        ∧ t'.image.size = settings.initialBlocks.toNat * settings.blockSize.toNat := by
  obtain ⟨e, after, hfits⟩ := exists_first_block h.held
  obtain ⟨howns, hcount, htotal, _⟩ := BlockMap.Owns.allocate h.held.owns hfits
  -- the new extent ends within the map, and so within the image
  have hwithin := howns.within e List.mem_cons_self
  rw [htotal] at hwithin
  have hin : (e.start.toNat + e.count.toNat) * (unwritten settings blocks).width
      ≤ t.image.size := by
    have hone : e.count.toNat ≠ 0 := by
      rw [hcount]
      decide
    exact Nat.le_trans (Nat.mul_le_mul_right _ (hwithin.resolve_left hone)) h.room
  have hneeded := directoryBlocks_empty h.held.blockSize
  rw [← hneeded] at hfits
  have hgeneration : Word.add? (unwritten settings blocks).generation 1 = some 1 := rfl
  refine (commit_passes h.held h.addressable h.region hgeneration
    ((Directory.valid_empty settings.blockSize).encode 1) hfits hin).mono ?_
  intro outcome t' hend
  obtain ⟨hok, htotal, hsize⟩ := hend
  exact ⟨hok, htotal.trans h.total, hsize.trans h.size⟩

/-- **Without failures formatting goes through**, whatever was on the medium. -/
theorem format_passes (hcheck : settings.check = .ok ()) (t : Watched) :
    (format settings).Ensures Failures.none (fun _ => True) t fun result t' =>
      ∃ v, result = .ok v ∧ (unwritten settings v.blocks).Follows .empty v
        ∧ v.superblock.totalBlocks = settings.initialBlocks
        ∧ v.blocks.total = settings.initialBlocks
        ∧ t'.image.size = settings.initialBlocks.toNat * settings.blockSize.toNat := by
  refine format_reaches_commit hcheck ?_ (fun blocks t' h => ?_) t
  · rintro (hnever | hnever | ⟨_, _, hnever⟩)
    · exact absurd hnever id
    · exact absurd hnever id
    · exact absurd hnever id
  · -- and the first commit goes through on the prepared image
    refine ((firstCommit_passes h).and_yields (commit_yields h.held .empty)).mono ?_
    intro outcome t'' hend
    obtain ⟨result, v⟩ := outcome
    obtain ⟨⟨hok, htotal, hsize⟩, hcommitted⟩ := hend
    cases hok
    obtain ⟨hadvanced, _⟩ := hcommitted
    refine ⟨v, rfl, hadvanced.toFollows.of_alike ⟨rfl, rfl, rfl, rfl⟩ (Alike.refl v),
      hadvanced.total.trans htotal, htotal, hsize⟩

/-! ## §3. Fresh vaults. -/

/-- A vault with no streams, as the settings have it: in use are the blocks of
the superblock, and one for the directory. -/
structure Fresh (settings : Settings) (v : Vault) : Prop where
  slot : v.slot = .first
  generation : v.generation = 1
  streams : v.streams = []
  blockSize : v.superblock.blockSize = settings.blockSize
  totalBlocks : v.superblock.totalBlocks = settings.initialBlocks
  total : v.blocks.total = settings.initialBlocks
  run : v.superblock.directory.count = 1
  apart : (superblockExtent settings.blockSize).Apart v.superblock.directory
  used : ∀ block, v.blocks.isUsed block = true
    ↔ block ∈ superblockExtent settings.blockSize ∨ block ∈ v.superblock.directory
  free : v.blocks.free.toNat + (superblockBlocks settings.blockSize).toNat + 1
    = settings.initialBlocks.toNat

/-- The blocks in use are those that superblock and directory claim, so that
only what is on the medium has to be known. -/
theorem fresh_of_sound (hs : v.Sound) (hslot : v.slot = .first) (hgeneration : v.generation = 1)
    (hempty : v.directory = .empty) (hsize : v.superblock.blockSize = settings.blockSize)
    (hcommitted : v.superblock.totalBlocks = settings.initialBlocks)
    (htotal : v.blocks.total = settings.initialBlocks)
    (hrun : v.superblock.directory.count = 1) : v.Fresh settings := by
  have howns : v.blocks.Owns
      [superblockExtent settings.blockSize, v.superblock.directory] := by
    have howns := hs.held.owns
    rw [hempty, hsize] at howns
    exact howns
  have hapart := howns.apart
  rw [List.pairwise_cons] at hapart
  have hcount := howns.count
  have hone : (1 : UInt64).toNat = 1 := rfl
  -- free and used blocks add up to the size, and the used ones are these two extents
  simp only [BlockMap.blocks, hrun, hone, htotal] at hcount
  exact
    { slot := hslot
      generation := hgeneration
      streams := congrArg Directory.entries hempty
      blockSize := hsize
      totalBlocks := hcommitted
      total := htotal
      run := hrun
      apart := hapart.1 _ List.mem_cons_self
      used := fun block => by
        rw [howns.used block]
        simp only [List.mem_cons, List.not_mem_nil, or_false, exists_eq_or_imp, exists_eq_left]
      free := by
        have hblocks : (superblockExtent settings.blockSize).count.toNat
            = (superblockBlocks settings.blockSize).toNat := rfl
        omega }

section Media

variable {μ : Type} [Medium μ] {image : μ → Image}

/-- What formatting makes, on a medium that does not fail. -/
theorem fresh_of_formatted (hobeys : Obeys Failures.none image)
    (hcheck : settings.check = .ok ()) (m : μ) :
    ∃ v m', (format settings).run m = (.ok v, m') ∧ v.Fresh settings
      ∧ Formatted settings v (image m')
      ∧ (image m').size = settings.initialBlocks.toNat * settings.blockSize.toNat := by
  obtain ⟨_, _, hpasses⟩ := (format_passes hcheck ⟨image m, 0⟩).on_medium hobeys
  cases hrun : (format settings).run m with
  | mk result m' =>
    rw [hrun] at hpasses
    obtain ⟨v, rfl, hfollows, hcommitted, htotal, hsize⟩ := hpasses
    have hformatted := formatted_of_run hobeys hrun
    have hrunOne : v.superblock.directory.count = 1 := by
      rw [hformatted.packed.directoryBlocks, hformatted.empty]
      exact directoryBlocks_empty hformatted.live.sound.held.blockSize
    exact ⟨v, m', rfl, fresh_of_sound hformatted.live.sound hfollows.slot hformatted.generation
      hformatted.empty hfollows.blockSize hcommitted htotal hrunOne, hformatted, hsize⟩

/-- Opening finds what formatting made. -/
theorem Fresh.reopened {opening : Settings} (h : v.Fresh settings) (hempty : v.directory = .empty)
    (hreopened : v.Reopened opening w) : w.Fresh settings := by
  apply fresh_of_sound hreopened.sound
  · rw [hreopened.slot, h.slot]
  · show w.superblock.generation = 1
    rw [hreopened.superblock]
    exact h.generation
  · rw [hreopened.directory, hempty]
  · rw [hreopened.superblock, h.blockSize]
  · rw [hreopened.superblock, h.totalBlocks]
  · rw [hreopened.total, h.totalBlocks]
  · rw [hreopened.superblock, h.run]

/-- **Formatting yields a fresh vault**, on any medium that does not fail and
whatever is on it: exactly if the settings pass their check; else the medium
is left alone.  The image is then as long as the settings say, a length that
does not wrap, and opening it, with any settings that can be used, succeeds and
finds a fresh vault. -/
theorem format_fresh (hobeys : Obeys Failures.none image) (settings : Settings) (m : μ) :
    ((∃ v m', (format settings).run m = (.ok v, m')) ↔ settings.check = .ok ())
      ∧ (∀ e, settings.check = .error e → (format settings).run m = (.error e, m))
      ∧ ∀ v m', (format settings).run m = (.ok v, m') →
        (settings.initialBlocks * settings.blockSize.toUInt64).toNat
            = settings.initialBlocks.toNat * settings.blockSize.toNat
          ∧ (image m').size = settings.initialBlocks.toNat * settings.blockSize.toNat
          ∧ v.Fresh settings
          ∧ ∀ opening, Acceptable opening →
            ∃ w m'', (mount opening).run m' = (.ok w, m'') ∧ image m'' = image m'
              ∧ w.settings = opening ∧ w.Fresh settings := by
  -- the settings are checked before anything else
  have hrefused : ∀ e, settings.check = .error e → (format settings).run m = (.error e, m) := by
    intro e hcheck
    unfold format
    rw [hcheck]
    rfl
  refine ⟨⟨?_, fun hcheck => ?_⟩, hrefused, fun v m' hrun => ?_⟩
  · rintro ⟨v, m', hrun⟩
    cases hcheck : settings.check with
    | ok u => rfl
    | error e =>
      rw [hrefused e hcheck] at hrun
      cases hrun
  · obtain ⟨v, m', hrun, _⟩ := fresh_of_formatted hobeys hcheck m
    exact ⟨v, m', hrun⟩
  · cases hcheck : settings.check with
    | error e =>
      rw [hrefused e hcheck] at hrun
      cases hrun
    | ok u =>
      obtain ⟨v', m₁, hrun', hfresh, hformatted, hsize⟩ := fresh_of_formatted hobeys hcheck m
      rw [hrun] at hrun'
      cases hrun'
      -- the new vault is attested, so opening it finds the same
      refine ⟨(toNat_initialBytes hcheck).2, hsize, hfresh, fun opening hopening => ?_⟩
      have hs := hformatted.live.sound
      have hattested := hformatted.recorded.attested hs hformatted.live.addressable
      obtain ⟨w, m'', hmount, hsame, hreopened⟩ := mounts_of_attested hobeys hs hattested
        (hs.covers hformatted.room) hformatted.live.addressable hopening
      exact ⟨w, m'', hmount, hsame, hreopened.settings, hfresh.reopened hformatted.empty hreopened⟩

end Media

/-- The smallest vault that there is. -/
def smallest : Settings :=
  { blockSize := 512, initialBlocks := 3, autoGrow := false, maxBlocks := 3 }

/-- Made over an older and longer vault with larger blocks, it is what opening
finds. -/
theorem format_fresh_overOlder :
    ∃ v m v' m' w m'', (format .standard).run Memory.empty = (.ok v, m)
      ∧ (format smallest).run m = (.ok v', m') ∧ m'.image.size = 1536
      ∧ (mount .standard).run m' = (.ok w, m'') ∧ w.Fresh smallest := by
  have hstandard : Settings.standard.check = .ok () := by rfl
  have hsmallest : smallest.check = .ok () := by rfl
  obtain ⟨v, m, holder⟩ := (format_fresh memory_obeys .standard Memory.empty).1.mpr hstandard
  obtain ⟨hiff, _, hmade⟩ := format_fresh memory_obeys smallest m
  obtain ⟨v', m', hnewer⟩ := hiff.mpr hsmallest
  obtain ⟨_, hsize, _, hopens⟩ := hmade v' m' hnewer
  obtain ⟨w, m'', hmount, _, _, hfresh⟩ := hopens .standard fun _ => hstandard
  exact ⟨v, m, v', m', w, m'', holder, hnewer, hsize, hmount, hfresh⟩

end StateVault.Vault
