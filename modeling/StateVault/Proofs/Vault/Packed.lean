/-
  StateVault.Proofs.Vault.Packed
  ──────────────────────────────
  **NO BLOCK TOO MANY, AND NO BYTE OF ANOTHER IN IT.**

  Blocks are not cleared when they are given back.  What was in them cannot be
  seen all the same, since each owner has as many blocks as its bytes take,
  and zero bytes fill up the last one; and since what is in use is not written
  over, that stays so through all that comes later.

    • `Packed.of_keeps` — while nothing is decided,
    • `Packed.renewed`  — by a commit, as soon as its new streams are packed,
    • `Stored.packed`, `Renewed.packed_erase`, `Renewed.packed_same`
                        — so by the commit of each of the operations.
-/
import StateVault.Proofs.Vault.StreamMap

namespace StateVault.Vault

variable {F : Failures} {safe : Prop} {v w : Vault} {image image' : Image}

/-! ## §1. Packed vaults. -/

/-- The entry has as many blocks as its stream takes, with zero bytes after
those of the stream. -/
structure Packs (v : Vault) (image : Image) (e : Entry) : Prop where
  count : e.extent.count = blocksToHold e.length v.superblock.blockSize
  bytes : v.Holds image e.extent (v.streamIn image e).bytes

/-- Positions in the blocks of the superblock, in neither of its copies. -/
structure InMargin (v : Vault) (p : Nat) : Prop where
  inExtent : v.InExtent (superblockExtent v.superblock.blockSize) p
  outside : ∀ slot : Slot, ¬ (slot.offset ≤ p ∧ p < slot.offset + 64)

theorem InMargin.lt {p : Nat} (h : v.InMargin p) :
    p < (superblockBlocks v.superblock.blockSize).toNat * v.width := by
  have hstop : p < (0 + (superblockBlocks v.superblock.blockSize).toNat) * v.width :=
    h.inExtent.2
  rwa [Nat.zero_add] at hstop

/-- Beside the copies of the superblock there are zero bytes. -/
def Cleared (v : Vault) (image : Image) : Prop :=
  ∀ p, v.InMargin p → image.data[p]? = some 0

/-- Streams and directory have as many blocks as they take, and their bytes
are followed by zero bytes only; so are the copies of the superblock. -/
structure Packed (v : Vault) (image : Image) : Prop where
  streams : ∀ e ∈ v.streams, v.Packs image e
  directoryBlocks : v.superblock.directory.count = v.directoryBlocks v.directory
  directoryBytes : v.Holds image v.superblock.directory (v.directory.bytes v.generation)
  cleared : v.Cleared image

/-! ## §2. While nothing is decided. -/

theorem Packs.congr {e : Entry} (h : v.Packs image e)
    (hsize : w.superblock.blockSize = v.superblock.blockSize) : w.Packs image e where
  count := by
    rw [hsize]
    exact h.count
  bytes := by
    rw [Holds, streamIn, width, hsize]
    exact h.bytes

theorem Cleared.congr (h : v.Cleared image)
    (hsize : w.superblock.blockSize = v.superblock.blockSize) : w.Cleared image := by
  intro p hp
  obtain ⟨hin, hout⟩ := hp
  rw [hsize, InExtent, width, hsize] at hin
  exact h p ⟨hin, hout⟩

theorem Held.guards_margin {others : List Extent} (h : v.Held others) {p : Nat}
    (hp : v.InMargin p) : v.Guards p := by
  have hfits := h.owns.within _ List.mem_cons_self
  exact ⟨h.owns.isUsed_of_mem List.mem_cons_self
    ((h.mem_iff_inExtent hfits p).mpr hp.inExtent), hp.outside v.slot.other⟩

theorem Cleared.of_keeps {others : List Extent} (h : v.Cleared image) (hheld : v.Held others)
    (hkept : Bytes.Keeps v.Guards image image') : v.Cleared image' :=
  fun p hp => hkept p 0 (hheld.guards_margin hp) (h p hp)

/-- An entry whose blocks an image keeps is still packed in it. -/
theorem Packs.of_keeps {e : Entry} (h : v.Packs image e) (hlive : v.Live image)
    (he : e ∈ v.streams) (hkept : Bytes.Keeps v.Guards image image') : v.Packs image' e where
  count := h.count
  bytes := by
    have howner : e.extent ∈ v.superblock.directory :: streamExtents v.directory :=
      List.mem_cons_of_mem _ (List.mem_map.mpr ⟨e, he, rfl⟩)
    have hbytes := h.bytes
    rw [streamIn_of_keeps (hlive.sound.valid.sound e he)
      (fun p hp => hlive.sound.held.guards_extent howner hp) (hlive.inBounds e he) hkept]
    by_cases hempty : e.extent.count.toNat = 0
    · -- no block, and so nothing of the image
      rw [Holds, hempty, Nat.zero_mul, Bytes.slice_zero] at hbytes ⊢
      exact hbytes
    · exact (hlive.sound.held.holds_of_keeps howner hbytes (hlive.inBounds e he hempty) hempty
        hkept).1

/-- The blocks of a packed directory hold its bytes. -/
theorem Packed.enough (h : v.Packed image) (hs : v.Sound) :
    (v.directory.bytes v.generation).size
      ≤ v.superblock.directory.count.toNat * v.width := by
  obtain ⟨hsize, _, hmost⟩ := Directory.size_of_encode (hs.valid.encode v.generation)
  have hwords : UInt64.size = 2 ^ 64 := rfl
  rw [h.directoryBlocks, Vault.directoryBlocks, ← hsize]
  exact le_blocksToHold hs.held.blockSize (by omega)

/-- Blocks that hold bytes are in the image. -/
theorem Holds.inBounds {e : Extent} {data : ByteArray} (h : v.Holds image e data)
    (hdata : data.size ≤ e.count.toNat * v.width) (hpos : 0 < e.count.toNat * v.width) :
    (e.start.toNat + e.count.toNat) * v.width ≤ image.size := by
  have hsize := congrArg ByteArray.size h
  rw [size_padded _ hdata, Bytes.size_slice_eq_iff] at hsize
  rw [Nat.add_mul]
  exact hsize.resolve_left (by omega)

/-- **What is packed stays so as long as the guarded bytes do.** -/
theorem Packed.of_keeps (h : v.Packed image) (hlive : v.Live image)
    (hkept : Bytes.Keeps v.Guards image image') : v.Packed image' where
  streams e he := (h.streams e he).of_keeps hlive he hkept
  directoryBlocks := h.directoryBlocks
  directoryBytes := by
    have hleast := (size_bytes_bounds hlive.sound v.generation).1
    have henough := h.enough hlive.sound
    exact (hlive.sound.held.holds_of_keeps List.mem_cons_self h.directoryBytes
      (h.directoryBytes.inBounds henough (by omega))
      (Superblock.directory_of_check hlive.sound.check).1 hkept).1
  cleared := h.cleared.of_keeps hlive.sound.held hkept

/-- To be packed depends neither on the block map nor on the settings. -/
theorem Packed.congr (h : v.Packed image) (hsuperblock : w.superblock = v.superblock)
    (hdirectory : w.directory = v.directory) : w.Packed image where
  streams e he := by
    rw [Vault.streams, hdirectory] at he
    exact (h.streams e he).congr (congrArg Superblock.blockSize hsuperblock)
  directoryBlocks := by
    rw [Vault.directoryBlocks, hsuperblock, hdirectory]
    exact h.directoryBlocks
  directoryBytes := by
    rw [Holds, width, generation, hsuperblock, hdirectory]
    exact h.directoryBytes
  cleared := h.cleared.congr (congrArg Superblock.blockSize hsuperblock)

/-! ## §3. By commits. -/

section Commits

variable {t t' : Watched} {d : Directory}

/-- A vault is packed after a commit, if the streams are that were not there
before. -/
theorem Packed.renewed (h : v.Packed t.image) (hlive : v.Live t.image)
    (hr : Renewed F v t d w t') (hnew : ∀ e ∈ d.entries, e ∈ v.streams ∨ w.Packs t'.image e) :
    w.Packed t'.image := by
  -- the commit has guarded the old streams, also those that it takes out
  have hkept := h.of_keeps hlive hr.decided.kept
  constructor
  · intro e he
    rw [Vault.streams, hr.follows.directory] at he
    rcases hnew e he with hold | hpacks
    · exact (hkept.streams e hold).congr hr.follows.blockSize
    · exact hpacks
  · exact hr.decided.blocks
  · exact hr.decided.directory
  · exact hkept.cleared.congr hr.follows.blockSize

/-- A commit of the same directory. -/
theorem Renewed.packed_same (hr : Renewed F v t v.directory w t') (hlive : v.Live t.image)
    (h : v.Packed t.image) : w.Packed t'.image :=
  h.renewed hlive hr fun _ he => Or.inl he

/-- A commit without the stream of a name. -/
theorem Renewed.packed_erase {name : String} (hr : Renewed F v t (v.directory.erase name) w t')
    (hlive : v.Live t.image) (h : v.Packed t.image) : w.Packed t'.image :=
  h.renewed hlive hr fun _ he => Or.inl (List.eraseP_sublist.subset he)

/-- A stream that is written has just the blocks that it takes. -/
theorem Stored.packed {name : String} {data : ByteArray} {flags : Flags} {e : Entry}
    (hdata : data.size < UInt64.size) (hr : Stored F v t name data flags e w t')
    (hlive : v.Live t.image) (h : v.Packed t.image) : w.Packed t'.image := by
  refine h.renewed hlive hr.toRenewed fun x hx => ?_
  rcases Directory.mem_insert hx with rfl | hold
  · refine Or.inr ⟨?_, ?_⟩
    · rw [hr.entry.length, hr.follows.blockSize]
      exact hr.entry.count
    · rw [hr.streamIn hdata hlive, Holds, hr.toRenewed.width]
      exact hr.bytes
  · exact Or.inl hold

end Commits

end StateVault.Vault
