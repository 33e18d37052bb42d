/-
  StateVault.Proofs.Vault.Arithmetic
  ──────────────────────────────────
  **THE NUMBERS OF A VAULT ARE EXACT.**

  Block numbers, byte counts and the count of free blocks are 64-bit words.
  They bound each other: a vault of fewer than 2^63 bytes has so few blocks
  that no product with the block size, no end of an extent within the map and
  no count of blocks leaves the words (`Unwrapped`), and the count of free
  blocks is never less than what is taken from it.  That bound stands at the
  start (`Measured`), and each change that is made to what is known of a vault
  (`Shift`) keeps it.

    • `Shift.measured`      — one change keeps the bound,
    • `Shifts.measured`     — and so does any row of them,
    • `Measured.unwrapped`  — the bound makes all arithmetic exact,
    • `lengthen_of_overflow`, `allocateGrowing_of_unaddressed` — a size that has
                              no 64-bit length is refused, and nothing is done.
-/
import Mathlib.Logic.Relation
import StateVault.Proofs.BlockMap.Refinement
import StateVault.Proofs.Vault.Frame
import StateVault.Vault.Resizing

namespace StateVault

/-! ## §1. Counts of free blocks. -/

namespace BlockMap

variable {m after : BlockMap} {e : Extent}

theorem Owns.represents {owners : List Extent} (h : m.Owns owners) : m.Represents where
  tidy := h.tidy
  count := by
    rw [h.tidy.card_used]
    exact h.counted

/-- An extent taken into use lies within the map, and its blocks are taken
from a count that has as many. -/
theorem free_of_union (hbefore : m.Represents) (hafter : after.Represents) (hfree : m.IsFree e)
    (hused : after.used = m.used ∪ blocksOf e) (htotal : after.total = m.total) :
    after.free.toNat + e.count.toNat = m.free.toNat := by
  have hcount := hbefore.count
  have hcount' := hafter.count
  rw [hused, Finset.card_union_of_disjoint hfree.2.symm, card_blocksOf, htotal] at hcount'
  omega

/-- An allocation takes as many blocks off the count as it was asked for, within
the map. -/
theorem Represents.free_of_allocate (h : m.Represents) {needed : UInt64}
    (hok : m.allocate needed = .ok (e, after)) :
    e.count = needed ∧ e.start.toNat + e.count.toNat ≤ m.total.toNat
      ∧ after.free.toNat + needed.toNat = m.free.toNat := by
  have hspec := h.allocate needed
  rw [hok] at hspec
  obtain ⟨rfl, hfree, hafter, hused, htotal⟩ := hspec
  exact ⟨rfl, hfree.1, free_of_union h hafter hfree hused htotal⟩

/-- A claim takes the blocks of the extent off the count. -/
theorem Represents.free_of_claim (h : m.Represents)
    (hwithin : e.start.toNat + e.count.toNat ≤ m.total.toNat) (hok : m.claim e = .ok after) :
    after.free.toNat + e.count.toNat = m.free.toNat := by
  have htells : m.Tells e := Or.inr (Nat.lt_of_le_of_lt hwithin m.total.toNat_lt_size)
  have hspec := h.claim htells
  rw [hok] at hspec
  obtain ⟨hfree, hafter, hused, htotal⟩ := hspec
  exact free_of_union h hafter hfree hused htotal

/-- A cut takes the blocks behind it off the count, all of them free. -/
theorem Represents.free_of_shrink (h : m.Represents) {total : UInt64}
    (hless : total.toNat < m.total.toNat) (hok : m.shrink total = .ok after) :
    after.free.toNat + (m.total.toNat - total.toNat) = m.free.toNat := by
  have hspec := h.shrink hless
  rw [hok] at hspec
  obtain ⟨-, hafter, hused, htotal⟩ := hspec
  have hcount := h.count
  have hcount' := hafter.count
  rw [hused, htotal] at hcount'
  omega

/-- Growth adds the new blocks to the count. -/
theorem Represents.free_of_extend (h : m.Represents) {total : UInt64}
    (hmore : m.total.toNat ≤ total.toNat) :
    (m.extend total).free.toNat = m.free.toNat + (total.toNat - m.total.toNat) := by
  obtain ⟨hafter, hused⟩ := h.extend total
  have hcount := h.count
  have hcount' := hafter.count
  rw [hused, toNat_total_extend] at hcount'
  omega

/-- Each block of an extent that was in use is counted once when the extent is
given back. -/
theorem Represents.free_of_release (h : m.Represents) (htells : m.Tells e)
    (hok : m.release e = .ok after) :
    after.free.toNat = m.free.toNat + (m.used ∩ blocksOf e).card := by
  have hspec := h.release htells
  rw [hok] at hspec
  obtain ⟨-, hafter, hused, htotal⟩ := hspec
  have hcount := h.count
  have hcount' := hafter.count
  have hsplit := Finset.card_inter_add_card_sdiff m.used (blocksOf e)
  rw [hused, htotal] at hcount'
  omega

/-- A map that is cut, or left as it is when it is no larger. -/
theorem Represents.of_shrink (h : m.Represents) {total : UInt64}
    (hok : m.shrink total = .ok after) :
    after.Represents ∧ after.total.toNat ≤ m.total.toNat := by
  by_cases hless : total.toNat < m.total.toNat
  · have hspec := h.shrink hless
    rw [hok] at hspec
    obtain ⟨-, hafter, -, htotal⟩ := hspec
    rw [htotal]
    exact ⟨hafter, Nat.le_of_lt hless⟩
  · have hsmall : m.total ≤ total := UInt64.le_iff_toNat_le.mpr (Nat.not_lt.mp hless)
    rw [BlockMap.shrink, if_pos hsmall] at hok
    cases hok
    exact ⟨h, Nat.le_refl _⟩

end BlockMap

namespace Vault

/-! ## §2. What can become of what is known. -/

/-- Images are shorter than this. -/
def lengthLimit : Nat := 2 ^ 63

/-- One change to what is known of a vault. -/
inductive Shift : Vault → Vault → Prop where
  /-- A run of free blocks is found, and taken. -/
  | takes {v : Vault} {needed : UInt64} {e : Extent} {blocks : BlockMap}
      (h : v.blocks.allocate needed = .ok (e, blocks)) : Shift v { v with blocks }
  /-- The map becomes as large as an image can be. -/
  | widens {v : Vault} {total : UInt64} (h : total.toNat * v.width < lengthLimit) :
      Shift v { v with blocks := v.blocks.extend total }
  | cuts {v : Vault} {total : UInt64} {blocks : BlockMap}
      (h : v.blocks.shrink total = .ok blocks) : Shift v { v with blocks }
  | frees (v : Vault) (e : Extent) : Shift v (released e v)
  /-- A directory of `size` bytes in the extent `e` becomes current. -/
  | commits (v : Vault) (e : Extent) (size : Nat) (generation : UInt64) (d : Directory) :
      Shift v { v with
        superblock := v.nextSuperblock e size generation
        slot := v.slot.other
        directory := d }

/-- Any row of changes. -/
abbrev Shifts : Vault → Vault → Prop :=
  Relation.ReflTransGen Shift

/-- The vault and what is committed of it are less than 2^63 bytes. -/
structure Measured (v : Vault) : Prop where
  blockSize : isBlockSize v.superblock.blockSize = true
  blocks : v.blocks.Represents
  size : v.blocks.total.toNat * v.width < lengthLimit
  committed : v.superblock.totalBlocks.toNat * v.width < lengthLimit

variable {v w : Vault}

/-- So many bytes are not many blocks. -/
theorem Measured.total_lt (h : v.Measured) : v.blocks.total.toNat < 2 ^ 54 := by
  have hwidth := (isBlockSize_bounds h.blockSize).1
  have hsize := h.size
  have hleast := Nat.mul_le_mul_left v.blocks.total.toNat hwidth
  unfold lengthLimit width at hsize
  omega

theorem Measured.tells (h : v.Measured) (e : Extent) : v.blocks.Tells e := by
  have hsmall := h.total_lt
  exact BlockMap.tells_of_limit (Nat.lt_trans hsmall (by decide)) e

theorem superblock_released (e : Extent) (v : Vault) :
    (released e v).superblock = v.superblock := by
  unfold released
  cases v.blocks.release e with
  | ok blocks => rfl
  | error err => rfl

theorem Shift.width_eq (h : Shift v w) : w.width = v.width := by
  cases h with
  | takes _ => rfl
  | widens _ => rfl
  | cuts _ => rfl
  | frees e => exact congrArg (fun s => s.blockSize.toNat) (superblock_released e v)
  | commits e size generation d => rfl

/-- Blocks may be given back in a measured vault. -/
theorem Measured.released (h : v.Measured) (e : Extent) : (released e v).Measured := by
  unfold Vault.released
  cases hok : v.blocks.release e with
  | error err => exact h
  | ok blocks =>
    have hspec := h.blocks.release (h.tells e)
    rw [hok] at hspec
    obtain ⟨-, hafter, -, htotal⟩ := hspec
    exact ⟨h.blockSize, hafter, by rw [htotal]; exact h.size, h.committed⟩

/-- **One change keeps the bound.** -/
theorem Shift.measured (h : Shift v w) (hm : v.Measured) : w.Measured := by
  cases h with
  -- an allocation keeps the size of the map, and growth stays below the limit
  | @takes needed e blocks hok =>
    have hspec := hm.blocks.allocate needed
    rw [hok] at hspec
    obtain ⟨-, -, hafter, -, htotal⟩ := hspec
    exact ⟨hm.blockSize, hafter, by rw [htotal]; exact hm.size, hm.committed⟩
  | widens hfits =>
    refine ⟨hm.blockSize, (hm.blocks.extend _).1, ?_, hm.committed⟩
    show (v.blocks.extend _).total.toNat * v.width < lengthLimit
    rw [BlockMap.toNat_total_extend, ← Nat.mul_max_mul_right]
    exact Nat.max_lt.mpr ⟨hm.size, hfits⟩
  -- a cut makes the map smaller
  | cuts hok =>
    obtain ⟨hafter, hle⟩ := hm.blocks.of_shrink hok
    exact ⟨hm.blockSize, hafter, Nat.lt_of_le_of_lt (Nat.mul_le_mul_right _ hle) hm.size,
      hm.committed⟩
  | frees e => exact hm.released e
  -- what is committed is as large as the map
  | commits e size generation d => exact ⟨hm.blockSize, hm.blocks, hm.size, hm.size⟩

/-- **A measured vault stays so in any row of changes.** -/
theorem Shifts.measured (h : v.Shifts w) (hm : v.Measured) : w.Measured := by
  induction h with
  | refl => exact hm
  | tail _ hlast ih => exact hlast.measured ih

theorem Shifts.width_eq (h : v.Shifts w) : w.width = v.width := by
  induction h with
  | refl => rfl
  | tail _ hlast ih => exact hlast.width_eq.trans ih

/-! ## §3. Exact numbers. -/

/-- The extent ends within the map, its end taken exactly. -/
def Within (v : Vault) (e : Extent) : Prop :=
  e.start.toNat + e.count.toNat ≤ v.blocks.total.toNat

/-- No number that is computed of the vault wraps, is held at the largest
word, or falls below zero. -/
structure Unwrapped (v : Vault) : Prop where
  /-- Where a block starts, and where the last one ends. -/
  offset : ∀ block : UInt64, block.toNat ≤ v.blocks.total.toNat →
    (v.blockOffset block).toNat = block.toNat * v.width
  capacity : ∀ e, v.Within e → (e.capacity v.blockSize).toNat = e.count.toNat * v.width
  stop : ∀ e, v.Within e → e.stop.toNat = e.start.toNat + e.count.toNat
  /-- The last block of an extent that has blocks. -/
  last : ∀ e, v.Within e → e.isEmpty = false →
    (e.stop - 1).toNat + 1 = e.start.toNat + e.count.toNat
  /-- The block that is told of when an extent ends past the map. -/
  past : ∀ e : Extent, v.blocks.total < e.stop → (e.stop - 1).toNat + 1 = e.stop.toNat
  imageBytes : v.superblock.imageBytes.toNat = v.superblock.totalBlocks.toNat * v.width
  /-- Blocks for bytes, the last one perhaps in part. -/
  blocksToHold : ∀ bytes : UInt64,
    (blocksToHold bytes v.blockSize).toNat = bytes.toNat ⌈/⌉ v.width
  /-- The size after a step of growth, and the length of any size. -/
  grownTotal : ∀ needed, (v.grownTotal needed).toNat
    = min (max (2 * v.blocks.total.toNat) (v.blocks.total.toNat + needed.toNat))
        v.settings.maxBlocks.toNat
  length : ∀ total bytes, Word.mul? total v.blockSize.toUInt64 = some bytes →
    bytes.toNat = total.toNat * v.width
  directorySize : ∀ (d : Directory) generation bytes, d.encode generation = .ok bytes →
    (UInt32.ofNat bytes.size).toNat = bytes.size ∧ (UInt64.ofNat bytes.size).toNat = bytes.size
  /-- The blocks in use, as what is not free. -/
  inUse : (v.blocks.total - v.blocks.free).toNat + v.blocks.free.toNat = v.blocks.total.toNat
  allocate : ∀ needed e after, v.blocks.allocate needed = .ok (e, after) →
    v.Within e ∧ after.free.toNat + needed.toNat = v.blocks.free.toNat
  claim : ∀ e after, v.Within e → v.blocks.claim e = .ok after →
    after.free.toNat + e.count.toNat = v.blocks.free.toNat
  release : ∀ e after, v.blocks.release e = .ok after →
    after.free.toNat = v.blocks.free.toNat + (v.blocks.used ∩ BlockMap.blocksOf e).card
  extend : ∀ total : UInt64, v.blocks.total.toNat ≤ total.toNat →
    (v.blocks.extend total).free.toNat
      = v.blocks.free.toNat + (total.toNat - v.blocks.total.toNat)
  shrink : ∀ total after, total.toNat < v.blocks.total.toNat →
    v.blocks.shrink total = .ok after →
    after.free.toNat + (v.blocks.total.toNat - total.toNat) = v.blocks.free.toNat

/-- The words of growth are held at the largest one, but its limit is no more
than that. -/
theorem toNat_grownTotal (v : Vault) (needed : UInt64) : (v.grownTotal needed).toNat
    = min (max (2 * v.blocks.total.toNat) (v.blocks.total.toNat + needed.toNat))
        v.settings.maxBlocks.toNat := by
  have hlimit := v.settings.maxBlocks.toNat_lt_size
  have htwo : (2 : UInt64).toNat = 2 := rfl
  rw [grownTotal, Word.toNat_min, Word.toNat_max, Word.toNat_mulSat, Word.toNat_addSat, htwo]
  omega

/-- The length of so many blocks, if it is a word, is exact. -/
theorem toNat_length {total bytes : UInt64}
    (h : Word.mul? total v.blockSize.toUInt64 = some bytes) :
    bytes.toNat = total.toNat * v.width := by
  have hmul := (Word.toNat_of_mul? h).1
  rwa [UInt32.toNat_toUInt64] at hmul

theorem toNat_pred {a : UInt64} (h : a.toNat ≠ 0) : (a - 1).toNat + 1 = a.toNat := by
  have hone : (1 : UInt64).toNat = 1 := rfl
  have hsub := Word.toNat_sub (a := a) (b := 1) (by omega)
  omega

/-- The end of an extent within the map is the exact sum. -/
theorem Within.toNat_stop {e : Extent} (h : v.Within e) :
    e.stop.toNat = e.start.toNat + e.count.toNat := by
  have htotal := v.blocks.total.toNat_lt_size
  unfold Within at h
  rw [Extent.toNat_stop]
  omega

/-- The block before the end, if there is one. -/
theorem Within.toNat_last {e : Extent} (h : v.Within e) (hne : e.isEmpty = false) :
    (e.stop - 1).toNat + 1 = e.start.toNat + e.count.toNat := by
  have hstop := h.toNat_stop
  rw [← Bool.not_eq_true, Extent.isEmpty_iff] at hne
  rw [← hstop]
  exact toNat_pred (by omega)

/-- No number of blocks up to the size of the map has a length past the
words. -/
theorem Measured.length_lt (h : v.Measured) {n : Nat} (hn : n ≤ v.blocks.total.toNat) :
    n * v.width < UInt64.size := by
  have hlimit : lengthLimit < UInt64.size := by decide
  calc n * v.width
    _ ≤ v.blocks.total.toNat * v.width := Nat.mul_le_mul_right _ hn
    _ < lengthLimit := h.size
    _ < UInt64.size := hlimit

/-- The place of a block is the exact product. -/
theorem Measured.toNat_blockOffset (h : v.Measured) {block : UInt64}
    (hin : block.toNat ≤ v.blocks.total.toNat) :
    (v.blockOffset block).toNat = block.toNat * v.width := by
  show (block * v.superblock.blockSize.toUInt64).toNat = _
  rw [UInt64.toNat_mul, UInt32.toNat_toUInt64]
  exact Nat.mod_eq_of_lt (h.length_lt hin)

/-- The bytes of an extent are the exact product, and not held at the largest
word. -/
theorem Measured.toNat_capacity (h : v.Measured) {e : Extent} (hin : v.Within e) :
    (e.capacity v.blockSize).toNat = e.count.toNat * v.width := by
  have hbytes := h.length_lt (Nat.le_trans (Nat.le_add_left e.count.toNat _) hin)
  rw [Extent.toNat_capacity]
  exact Nat.min_eq_left (Nat.le_sub_one_of_lt hbytes)

/-- The committed bytes are the exact product. -/
theorem Measured.toNat_imageBytes (h : v.Measured) :
    v.superblock.imageBytes.toNat = v.superblock.totalBlocks.toNat * v.width := by
  have hlimit : lengthLimit < UInt64.size := by decide
  rw [Superblock.toNat_imageBytes]
  exact Nat.min_eq_left (Nat.le_sub_one_of_lt (Nat.lt_trans h.committed hlimit))

/-- A directory is far from the largest word of either size. -/
theorem toNat_directorySize {d : Directory} {generation : UInt64} {bytes : ByteArray}
    (h : d.encode generation = .ok bytes) :
    (UInt32.ofNat bytes.size).toNat = bytes.size
      ∧ (UInt64.ofNat bytes.size).toNat = bytes.size := by
  obtain ⟨-, -, hmost⟩ := Directory.size_of_encode h
  rw [UInt32.toNat_ofNat', UInt64.toNat_ofNat']
  exact ⟨Nat.mod_eq_of_lt (by omega), Nat.mod_eq_of_lt (by omega)⟩

/-- **The bound makes all arithmetic exact.** -/
theorem Measured.unwrapped (h : v.Measured) : v.Unwrapped where
  -- all numbers are products and sums below the limit
  offset _ hblock := h.toNat_blockOffset hblock
  capacity _ hin := h.toNat_capacity hin
  stop _ hin := hin.toNat_stop
  last _ hin hne := hin.toNat_last hne
  past e hpast := by
    rw [UInt64.lt_iff_toNat_lt] at hpast
    exact toNat_pred (by omega)
  imageBytes := h.toNat_imageBytes
  blocksToHold := toNat_blocksToHold h.blockSize
  grownTotal := toNat_grownTotal v
  length _ _ := toNat_length
  directorySize _ _ _ := toNat_directorySize
  inUse := by
    have hcount := h.blocks.count
    rw [Word.toNat_sub (by omega)]
    omega
  -- the counts change by the blocks of the extent
  allocate _ _ _ hok := by
    obtain ⟨-, hin, hfree⟩ := h.blocks.free_of_allocate hok
    exact ⟨hin, hfree⟩
  claim _ _ hin := h.blocks.free_of_claim hin
  release e _ := h.blocks.free_of_release (h.tells e)
  extend _ := h.blocks.free_of_extend
  shrink _ _ := h.blocks.free_of_shrink

/-! ## §4. Sizes without a length. -/

theorem mul?_eq_none_iff {total : UInt64} :
    Word.mul? total v.blockSize.toUInt64 = none ↔ UInt64.size ≤ total.toNat * v.width := by
  have hlength : total.toNat * v.blockSize.toUInt64.toNat = total.toNat * v.width := by
    rw [UInt32.toNat_toUInt64]
    rfl
  rw [Word.mul?, hlength]
  by_cases hfits : total.toNat * v.width < UInt64.size
  · simp only [if_pos hfits, reduceCtorEq, false_iff, Nat.not_le]
    exact hfits
  · simp only [if_neg hfits, true_iff]
    exact Nat.not_lt.mp hfits

/-- A size with a 64-bit length is set, and then the map follows. -/
theorem lengthen_of_fits {total bytes : UInt64}
    (h : Word.mul? total v.blockSize.toUInt64 = some bytes) :
    lengthen total v = .setLength bytes.toNat fun
      | .ok _ => .done (.ok (), { v with blocks := v.blocks.extend total })
      | .error e => .done (.error e, v) := by
  have hvault : ∀ f : Vault → Action Unit, (Action.vault >>= f) v = f v v := fun _ => rfl
  rw [lengthen, hvault, h]
  show Script.setLength _ _ = Script.setLength _ _
  congr 1
  funext result
  cases result with
  | ok u => rfl
  | error e => rfl

/-- A size without one is refused, and no call is made. -/
theorem lengthen_of_overflow {total : UInt64} (h : UInt64.size ≤ total.toNat * v.width) :
    lengthen total v = .done (.error (.settings (.sizeOverflows total)), v) := by
  have hvault : ∀ f : Vault → Action Unit, (Action.vault >>= f) v = f v v := fun _ => rfl
  rw [lengthen, hvault, mul?_eq_none_iff.mpr h]
  rfl

/-- A step of growth to a size without a length is refused. -/
theorem allocateGrowing_of_unaddressed {needed : UInt64} {e : Error}
    (hfull : v.blocks.allocate needed = .error e) (hgrow : v.mayGrow = true)
    (h : UInt64.size ≤ (v.grownTotal needed).toNat * v.width) :
    allocateGrowing needed v
      = .done (.error (.settings (.sizeOverflows (v.grownTotal needed))), v) :=
  allocateGrowing_of_overflow hfull hgrow (mul?_eq_none_iff.mpr h)

end Vault

end StateVault
