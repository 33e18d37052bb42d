/-
  StateVault.Proofs.Vault.Recorded
  ────────────────────────────────
  **WHAT AN IMAGE RECORDS, A FRESH OPENING FINDS.**

  `Recorded v image` says that the superblock and the directory of `v` stand
  in the image, beside a copy of the superblock that is stale.  An image that
  records a sound vault, and is long enough, opens as that vault; and a commit
  takes images that record one vault to images that record the next.

    • `Recorded.of_undecided`, `recorded_of_decided` — before and after the
                                record of a commit,
    • `contents_of_keeps`     — streams are what they are as long as what is
                                in use is kept.
-/
import StateVault.Proofs.Vault.Opened
import StateVault.Proofs.Vault.Recording

namespace StateVault

/-- A stream, as a reader of the vault sees it. -/
structure Stream where
  name : String
  flags : Flags
  length : UInt64
  bytes : ByteArray

namespace Vault

variable {F : Failures} {I : Watched → Prop}

/-! ## §1. Streams in an image. -/

/-- What an image holds for an entry. -/
def streamIn (v : Vault) (image : Image) (e : Entry) : Stream :=
  ⟨e.name, e.flags, e.length,
    Bytes.slice image (e.extent.start.toNat * v.width) e.length.toNat⟩

/-- What an image holds for the streams of a vault, in their order. -/
def contents (v : Vault) (image : Image) : List Stream :=
  v.streams.map (v.streamIn image)

theorem contents_congr {v w : Vault} (hsuperblock : w.superblock = v.superblock)
    (hdirectory : w.directory = v.directory) (image : Image) :
    w.contents image = v.contents image := by
  unfold contents streams
  rw [hdirectory]
  refine List.map_congr_left fun e _ => ?_
  unfold streamIn width
  rw [hsuperblock]

/-- The blocks of all streams are there. -/
def InBounds (v : Vault) (image : Image) : Prop :=
  ∀ e ∈ v.streams, e.extent.count.toNat ≠ 0 →
    (e.extent.start.toNat + e.extent.count.toNat) * v.width ≤ image.size

/-- An entry whose blocks an image keeps holds the same stream in it. -/
theorem streamIn_of_keeps {v : Vault} {P : Nat → Prop} {e : Entry} {image image' : Image}
    (hcheck : e.check v.superblock.blockSize = .ok ())
    (hin : ∀ p, v.InExtent e.extent p → P p)
    (hbounds : e.extent.count.toNat ≠ 0 →
      (e.extent.start.toNat + e.extent.count.toNat) * v.width ≤ image.size)
    (hkept : Bytes.Keeps P image image') : v.streamIn image' e = v.streamIn image e := by
  unfold streamIn
  by_cases hempty : e.extent.count.toNat = 0
  · rw [length_eq_zero hcheck hempty, Bytes.slice_zero, Bytes.slice_zero]
  · have hlength : e.length.toNat ≤ e.extent.count.toNat * v.width :=
      length_le_capacity hcheck
    have hsum := Nat.add_mul e.extent.start.toNat e.extent.count.toNat v.width
    have hstop := hbounds hempty
    rw [hkept.slice (by omega) fun p hlow hhigh => hin p ⟨hlow, by omega⟩]

/-- Streams stay the same in an image that keeps what is in use. -/
theorem contents_of_keeps {v : Vault} (h : v.Held (streamExtents v.directory))
    (hvalid : v.directory.Valid v.superblock.blockSize) {image image' : Image}
    (hbounds : v.InBounds image) (hkept : Bytes.Keeps v.Guards image image') :
    v.contents image' = v.contents image ∧ v.InBounds image' := by
  have hguards : ∀ e ∈ v.streams, ∀ p, v.InExtent e.extent p → v.Guards p := fun e he p hp =>
    h.guards_extent (List.mem_cons_of_mem _ (List.mem_map.mpr ⟨e, he, rfl⟩)) hp
  constructor
  · exact List.map_congr_left fun e he =>
      streamIn_of_keeps (hvalid.sound e he) (hguards e he) (hbounds e he) hkept
  · intro e he hne
    have hwidth := h.width_bounds
    have hstop := hbounds e he hne
    have hpos : 0 < e.extent.count.toNat * v.width := Nat.mul_pos (by omega) (by omega)
    have hsum := Nat.add_mul e.extent.start.toNat e.extent.count.toNat v.width
    -- the last byte of the extent is still there
    have hlast := hkept.lt_size
      (i := (e.extent.start.toNat + e.extent.count.toNat) * v.width - 1)
      (hguards e he _ ⟨by omega, by omega⟩) (by omega)
    omega

/-! ## §2. Recorded vaults. -/

/-- The superblock of a vault counts in the image, and its directory is where
that says. -/
structure Recorded (v : Vault) (image : Image) : Prop where
  region : regionSize ≤ image.size
  active : Bytes.slice image v.slot.offset 64 = v.superblock.encode
  stale : Superblock.Stale v.generation (v.spare image)
  directory : Bytes.slice image (v.superblock.directory.start.toNat * v.width)
    (v.directory.bytes v.generation).size = v.directory.bytes v.generation
  length : v.superblock.directorySize.toNat = (v.directory.bytes v.generation).size

/-- What is recorded depends neither on the block map nor on the settings. -/
theorem Recorded.congr {v w : Vault} {image : Image} (h : v.Recorded image)
    (hsuperblock : w.superblock = v.superblock) (hslot : w.slot = v.slot)
    (hdirectory : w.directory = v.directory) : w.Recorded image := by
  obtain ⟨hregion, hactive, hstale, hbytes, hlength⟩ := h
  constructor
  · exact hregion
  · rw [hslot, hsuperblock]
    exact hactive
  · rw [generation, spare, hslot, hsuperblock]
    exact hstale
  · rw [generation, width, hdirectory, hsuperblock]
    exact hbytes
  · rw [generation, hdirectory, hsuperblock]
    exact hlength

/-- The superblock of a vault stands in its place in the image; of the other
copy nothing is said. -/
structure Anchored (v : Vault) (image : Image) : Prop where
  region : regionSize ≤ image.size
  active : Bytes.slice image v.slot.offset 64 = v.superblock.encode

theorem Recorded.anchored {v : Vault} {image : Image} (h : v.Recorded image) :
    v.Anchored image :=
  ⟨h.region, h.active⟩

theorem Anchored.congr {v w : Vault} {image : Image} (h : v.Anchored image)
    (hsuperblock : w.superblock = v.superblock) (hslot : w.slot = v.slot) : w.Anchored image where
  region := h.region
  active := by
    rw [hslot, hsuperblock]
    exact h.active

/-- The superblock is guarded, so it stays in its place. -/
theorem Anchored.of_keeps {v : Vault} {others : List Extent} {image image' : Image}
    (h : v.Anchored image) (hheld : v.Held others) (hkept : Bytes.Keeps v.Guards image image') :
    v.Anchored image' where
  region := region_of_keeps hheld h.region hkept
  active := by
    have hregion := h.region
    have hslot := slot_offset_le v.slot
    have hsize : regionSize = 1024 := rfl
    rw [← h.active]
    exact hkept.slice (by omega) fun p hlow hhigh => hheld.guards_slot hlow hhigh

/-- The superblock before a commit is stale after it. -/
theorem Anchored.stale {v w : Vault} {d : Directory} {image : Image}
    (h : v.Anchored image) (hversion : v.superblock.version = Superblock.currentVersion)
    (hfollows : v.Follows d w) :
    Superblock.Stale w.generation (Bytes.slice image v.slot.offset 64) := by
  rw [h.active]
  exact Superblock.stale_encode hversion hfollows.toNat_generation

/-- A stale copy stays stale under records cut to half at most. -/
theorem Torn.stale {old new : ByteArray} {generation : UInt64}
    (hF : ∀ landed, F.tear 64 landed → landed ≤ 32) (h : Torn F old new)
    (hstale : Superblock.Stale generation old) : Superblock.Stale generation new := by
  induction h with
  | same => exact hstale
  | torn _ hversion hlanded ih => exact ih.torn hversion (hF _ hlanded)

/-- The directory of a recorded vault is in the image. -/
theorem Recorded.directory_le {v : Vault} {image : Image} (h : v.Recorded image)
    (hne : (v.directory.bytes v.generation).size ≠ 0) :
    v.superblock.directory.start.toNat * v.width + (v.directory.bytes v.generation).size
      ≤ image.size := by
  have hsize := congrArg ByteArray.size h.directory
  rw [Bytes.size_slice_eq_iff] at hsize
  exact hsize.resolve_left hne

/-- The bytes of a directory that is in order. -/
theorem size_bytes_bounds {v : Vault} (h : v.Sound) (generation : UInt64) :
    32 ≤ (v.directory.bytes generation).size ∧ (v.directory.bytes generation).size ≤ 6176 :=
  (Directory.size_of_encode (h.valid.encode generation)).2

/-- The bytes of the directory are no more than its blocks hold. -/
theorem Recorded.length_le {v : Vault} {image : Image} (h : v.Recorded image) (hs : v.Sound) :
    (v.directory.bytes v.generation).size ≤ v.superblock.directory.count.toNat * v.width := by
  rw [← h.length]
  exact (Superblock.directory_of_check hs.check).2

/-- A vault stays recorded as long as a commit is undecided. -/
theorem Recorded.of_undecided {v : Vault} {safe : Prop} {t t' : Watched}
    (hF : ∀ landed, F.tear 64 landed → landed ≤ 32) (hsync : ¬ F.sync)
    (h : v.Recorded t.image) (hs : v.Sound) (hundecided : Undecided F safe v t t') :
    v.Recorded t'.image := by
  have hbounds := size_bytes_bounds hs v.generation
  have hdirectory := h.directory_le (by omega)
  have hlength := h.length_le hs
  have hanchored := h.anchored.of_keeps hs.held hundecided.kept
  constructor
  · exact hanchored.region
  · exact hanchored.active
  · -- the other copy may be torn, by half at most
    exact (hundecided.torn hsync).2.stale hF h.stale
  · rw [hundecided.kept.slice hdirectory, h.directory]
    intro p hlow hhigh
    refine hs.held.guards_extent List.mem_cons_self ⟨hlow, ?_⟩
    rw [Nat.add_mul]
    omega
  · exact h.length

/-- The blocks of a directory hold its bytes after a commit. -/
theorem Follows.length_le {v w : Vault} {d : Directory} (h : v.Follows d w) :
    (w.directory.bytes w.generation).size ≤ w.superblock.directory.count.toNat * w.width := by
  rw [h.directory, ← h.length]
  exact (Superblock.directory_of_check h.check).2

/-- A vault is recorded once its commit is decided, if the copy that counted
before it has become stale. -/
theorem recorded_of_decided {v w : Vault} {others : List Extent} {d : Directory} {t t' : Watched}
    (h : v.Held others) (hregion : regionSize ≤ t.image.size) (hfollows : v.Follows d w)
    (hdecided : Decided F v t w t')
    (hstale : Superblock.Stale w.generation (Bytes.slice t.image v.slot.offset 64)) :
    w.Recorded t'.image := by
  have hslot := slot_offset_le v.slot
  have hsize : regionSize = 1024 := rfl
  constructor
  · exact region_of_keeps h hregion hdecided.kept
  · exact hdecided.record
  · rw [spare, hfollows.slot, Slot.other_other,
      hdecided.kept.slice (by omega) fun p hlow hhigh => h.guards_slot hlow hhigh]
    exact hstale
  · exact hdecided.directory.bytes hfollows.length_le
  · rw [hfollows.directory]
    exact hfollows.length

end Vault

end StateVault
