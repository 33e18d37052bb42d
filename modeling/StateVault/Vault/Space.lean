/-
  StateVault.Vault.Space
  ──────────────────────
  **BLOCKS FOR BYTES, WITH A VAULT THAT GROWS.**

  Bytes get the first run of free blocks that holds them.  When there is
  none, and the vault may grow, it grows to twice its size, and by no less
  than what is needed, up to its limit; then the search starts anew.  The new
  size reaches the superblock on the medium with the next commit.

    • `allocate`, `released` — blocks for bytes, and back,
    • `lengthen`             — a longer medium and a larger block map,
    • `fill`                 — bytes into an extent, zero bytes after them.

  Main lemma: `lt_grownTotal` (each step of growth makes the vault larger).
-/
import StateVault.Vault.Action

namespace StateVault.Vault

/-! ## §1. Growing. -/

/-- Whether the vault may grow any further. -/
def mayGrow (v : Vault) : Bool :=
  v.settings.autoGrow && v.blocks.total < v.settings.maxBlocks

/-- The size after one step of growth for `needed` blocks. -/
def grownTotal (v : Vault) (needed : UInt64) : UInt64 :=
  min (max (Word.mulSat v.blocks.total 2) (Word.addSat v.blocks.total needed))
    v.settings.maxBlocks

/-- A vault that may grow is below its limit. -/
theorem total_lt_of_mayGrow {v : Vault} (hg : v.mayGrow = true) :
    v.blocks.total.toNat < v.settings.maxBlocks.toNat := by
  simp only [mayGrow, Bool.and_eq_true, decide_eq_true_eq] at hg
  exact UInt64.lt_iff_toNat_lt.mp hg.2

/-- A step of growth for at least one block makes the vault larger. -/
theorem lt_grownTotal {v : Vault} {needed : UInt64} (hn : needed ≠ 0)
    (hg : v.mayGrow = true) : v.blocks.total < v.grownTotal needed := by
  have hlt := total_lt_of_mayGrow hg
  have hmax : v.settings.maxBlocks.toNat < UInt64.size := UInt64.toNat_lt_size _
  have hpos := Word.toNat_pos hn
  have hsum := Word.toNat_addSat v.blocks.total needed
  rw [UInt64.lt_iff_toNat_lt, grownTotal, Word.toNat_min, Word.toNat_max, hsum]
  omega

/-- A longer medium, and the new blocks in the map, all of them free. -/
def lengthen (total : UInt64) : Action Unit := do
  let v ← Action.vault
  match Word.mul? total v.blockSize.toUInt64 with
  | none => Action.fail (.settings (.sizeOverflows total))
  | some bytes =>
      Action.setLength bytes
      Action.modify fun v => { v with blocks := v.blocks.extend total }

/-! ## §2. Allocation. -/

/-- The first run of `needed` free blocks, grown for if need be. -/
def allocateGrowing (needed : UInt64) : Action Extent := fun v =>
  match _fit : v.blocks.allocate needed with
  | .ok (extent, blocks) => .done (.ok extent, { v with blocks })
  | .error e =>
      if _grow : v.mayGrow = true then
        let total := v.grownTotal needed
        match Word.mul? total v.blockSize.toUInt64 with
        | none => .done (.error (.settings (.sizeOverflows total)), v)
        | some bytes =>
            .setLength bytes.toNat fun
              | .error e => .done (.error e, v)
              | .ok _ => allocateGrowing needed { v with blocks := v.blocks.extend total }
      else .done (.error e, v)
termination_by v => v.settings.maxBlocks.toNat - v.blocks.total.toNat
decreasing_by
  -- no block needed, no growth
  have hn : needed ≠ 0 := by
    rintro rfl
    rw [BlockMap.allocate_zero] at _fit
    cases _fit
  have hlt := lt_grownTotal hn _grow
  have htotal := BlockMap.total_extend hlt
  have hlimit := total_lt_of_mayGrow _grow
  rw [UInt64.lt_iff_toNat_lt] at hlt
  simp only [htotal]
  omega

/-- Blocks for so many bytes. -/
def allocate (bytes : Nat) : Action Extent := do
  let v ← Action.vault
  allocateGrowing (blocksToHold (UInt64.ofNat bytes) v.blockSize)

/-- The vault with the blocks of an extent free; an extent that the map
refuses is left alone. -/
def released (e : Extent) (v : Vault) : Vault :=
  match v.blocks.release e with
  | .ok blocks => { v with blocks }
  | .error _ => v

/-! ## §3. Filling. -/

/-- Bytes, and zero bytes after them up to `size`. -/
def padded (data : ByteArray) (size : Nat) : ByteArray :=
  data ++ Bytes.zeros (size - data.size)

/-- Write bytes into an extent, and zero bytes into the rest of it. -/
def fill (e : Extent) (data : ByteArray) : Action Unit := do
  let v ← Action.vault
  if e.isEmpty then return ()
  else Action.write (v.blockOffset e.start) (padded data (e.capacity v.blockSize).toNat)

end StateVault.Vault
