/-
  StateVault.Vault.Stats
  ──────────────────────
  **AN OPEN VAULT IN NUMBERS.**
-/
import StateVault.BlockMap.Fragmentation
import StateVault.Vault.Action

namespace StateVault.Vault

structure Stats where
  blockSize : UInt32
  totalBlocks : UInt64
  usedBlocks : UInt64
  freeBlocks : UInt64
  streamCount : Nat
  generation : UInt64
  fragmentation : Double

/-- The numbers of a vault; the blocks are those of its map, which may have
grown since the last commit. -/
def stats (v : Vault) : Stats :=
  { blockSize := v.blockSize
    totalBlocks := v.blocks.total
    usedBlocks := v.blocks.total - v.blocks.free
    freeBlocks := v.blocks.free
    streamCount := v.directory.size
    generation := v.generation
    fragmentation := v.blocks.fragmentation }

end StateVault.Vault
