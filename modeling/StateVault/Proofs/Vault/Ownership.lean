/-
  StateVault.Proofs.Vault.Ownership
  ─────────────────────────────────
  **EVERY BLOCK HAS ONE OWNER, AFTER EVERY RUN, ON EVERY MEDIUM.**

  What `Sound` says in terms of invariants of the block map, said here in
  terms of blocks: which are in use, who owns them, how many are free.

    • `exclusive_ownership` — for every handle that any run of requests
                              reaches, on any medium, failing or not.
-/
import StateVault.Proofs.Storage.Outline
import StateVault.Proofs.Vault.Requests

namespace StateVault.Vault

/-- The blocks in use are those of the superblock's copies, of the directory
and of the streams that have blocks; no block has two owners and none is
lost; and the directory is in order. -/
structure ExclusiveOwnership (v : Vault) : Prop where
  used : ∀ block, v.blocks.isUsed block = true ↔
    block < (superblockBlocks v.blockSize).toNat
      ∨ block ∈ v.superblock.directory
      ∨ ∃ e ∈ v.streams, e.extent.isEmpty = false ∧ block ∈ e.extent
  /-- No two owners share a block. -/
  directory_apart : ∀ block ∈ v.superblock.directory,
    ¬ block < (superblockBlocks v.blockSize).toNat
  stream_apart : ∀ e ∈ v.streams, ∀ block ∈ e.extent,
    ¬ block < (superblockBlocks v.blockSize).toNat ∧ ¬ block ∈ v.superblock.directory
  streams_apart : v.streams.Pairwise fun a b => ∀ block ∈ a.extent, ¬ block ∈ b.extent
  /-- The directory and the streams lie below the committed size. -/
  directory_below : v.superblock.directory.start.toNat + v.superblock.directory.count.toNat
    ≤ v.superblock.totalBlocks.toNat
  stream_below : ∀ e ∈ v.streams, e.extent.isEmpty = false →
    e.extent.start.toNat + e.extent.count.toNat ≤ v.superblock.totalBlocks.toNat
  committed : v.superblock.totalBlocks.toNat ≤ v.blocks.total.toNat
  /-- The free blocks are those that are not in use. -/
  free : v.blocks.free.toNat = v.blocks.total.toNat - v.blocks.usedBlocks.length
  count : v.streams.length ≤ 64
  names : ∀ e ∈ v.streams, Name.check e.name = .ok ()
  distinct : (v.streams.map (·.name)).Nodup
  lengths : ∀ e ∈ v.streams,
    e.length.toNat ≤ e.extent.count.toNat * v.blockSize.toNat

theorem length_usedBlocks (m : BlockMap) : m.usedBlocks.length = m.usedCount := by
  rw [BlockMap.usedBlocks, BlockMap.usedCount, List.countP_eq_length_filter]

/-- **A sound vault has its blocks in exclusive ownership.** -/
theorem Sound.exclusiveOwnership {v : Vault} (h : v.Sound) : v.ExclusiveOwnership := by
  have howns := h.held.owns
  have hwithin := howns.within
  -- the superblock's extent starts at the first block
  have hfirst : ∀ block, block ∈ superblockExtent v.superblock.blockSize
      ↔ block < (superblockBlocks v.blockSize).toNat := by
    intro block
    rw [(hwithin _ List.mem_cons_self).mem_iff]
    show 0 ≤ block ∧ block < 0 + (superblockBlocks v.superblock.blockSize).toNat ↔ _
    rw [Nat.zero_add]
    exact ⟨fun hb => hb.2, fun hb => ⟨Nat.zero_le _, hb⟩⟩
  -- superblock, directory and streams, in the order of the list of owners
  obtain ⟨hsuper, hrest⟩ := List.pairwise_cons.mp howns.apart
  obtain ⟨hdirectory, hstreams⟩ := List.pairwise_cons.mp hrest
  have hstream : ∀ e ∈ v.streams, e.extent ∈ streamExtents v.directory := fun e he =>
    List.mem_map.mpr ⟨e, he, rfl⟩
  have hnonempty := (Superblock.directory_of_check h.check).1
  constructor
  · intro block
    rw [howns.used]
    constructor
    · intro hboth
      obtain ⟨e, he, hblock⟩ := hboth
      rcases List.mem_cons.mp he with rfl | he
      · exact Or.inl ((hfirst block).mp hblock)
      · rcases List.mem_cons.mp he with rfl | he
        · exact Or.inr (Or.inl hblock)
        · obtain ⟨s, hs, rfl⟩ := List.mem_map.mp he
          refine Or.inr (Or.inr ⟨s, hs, ?_, hblock⟩)
          rw [← Bool.not_eq_true, Extent.isEmpty_iff]
          exact fun hzero => Extent.not_mem_of_isEmpty hzero block hblock
    · intro hcases
      rcases hcases with hblock | hblock | ⟨s, hs, _, hblock⟩
      · exact ⟨_, List.mem_cons_self, (hfirst block).mpr hblock⟩
      · exact ⟨_, List.mem_cons_of_mem _ List.mem_cons_self, hblock⟩
      · exact ⟨_, List.mem_cons_of_mem _ (List.mem_cons_of_mem _ (hstream s hs)), hblock⟩
  · intro block hblock hlow
    exact hsuper _ List.mem_cons_self block ((hfirst block).mpr hlow) hblock
  · intro e he block hblock
    refine ⟨fun hlow => ?_, fun hin => ?_⟩
    · exact hsuper _ (List.mem_cons_of_mem _ (hstream e he)) block ((hfirst block).mpr hlow)
        hblock
    · exact hdirectory _ (hstream e he) block hin hblock
  · exact List.pairwise_map.mp hstreams
  · have hfits := h.below v.superblock.directory
      (List.mem_cons_of_mem _ List.mem_cons_self)
    exact hfits.resolve_left hnonempty
  · intro e he hne
    have hfits := h.below e.extent
      (List.mem_cons_of_mem _ (List.mem_cons_of_mem _ (hstream e he)))
    refine hfits.resolve_left fun hzero => ?_
    rw [(Extent.isEmpty_iff e.extent).mpr hzero] at hne
    cases hne
  · exact h.committed
  · -- the running count, against the list of the used blocks
    have hcounted := howns.counted
    unfold BlockMap.Counted at hcounted
    rw [length_usedBlocks]
    omega
  · exact h.valid.count
  · exact fun e he => (Directory.nameCheck_iff e.name).mpr (h.valid.names e he)
  · exact h.valid.distinct
  · exact fun e he => length_le_capacity (h.valid.sound e he)

/-- **Exclusive ownership without leaks**: it holds of every handle that a run
of requests reaches from a format or from a mount, on every medium, whichever
of its calls fail. -/
theorem exclusive_ownership {μ : Type} [Medium μ] {h : Handle μ} (hr : h.Reached) :
    h.vault.ExclusiveOwnership :=
  hr.sound.exclusiveOwnership

/-- One stream of one block, and a write to another one that runs out of calls
once its bytes are in their block.  The block is given back, and the first
stream has kept its own. -/
theorem ownership_after_failed_write :
    ∃ h, replay eightBlocks [.write "kernel" (.one 1), .write "boot" (.one 2)]
        (⟨⟨0⟩, { Allowance.unlimited with writes := some 7 }⟩ : Faulty Allowance.rule Outline)
          = some h
      ∧ h.1.map (·.isOk) = [true, false]
      ∧ h.2.vault.streams.map (fun e => (e.name, e.extent)) = [("kernel", ⟨3, 1⟩)]
      ∧ h.2.vault.ExclusiveOwnership := by
  have hruns : (replay eightBlocks [.write "kernel" (.one 1), .write "boot" (.one 2)]
      (⟨⟨0⟩, { Allowance.unlimited with writes := some 7 }⟩ : Faulty Allowance.rule Outline)).map
        (fun h => (h.1.map (·.isOk), h.2.vault.streams.map fun e => (e.name, e.extent)))
      = some ([true, false], [("kernel", ⟨3, 1⟩)]) := by
    decide +kernel
  obtain ⟨h, hreplay, hfacts⟩ := Option.map_eq_some_iff.mp hruns
  obtain ⟨hresults, hstreams⟩ := Prod.mk.inj hfacts
  exact ⟨h, hreplay, hresults, hstreams, exclusive_ownership (reached_of_replay hreplay)⟩

end StateVault.Vault
