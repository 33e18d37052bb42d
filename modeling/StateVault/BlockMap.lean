/-
  StateVault.BlockMap
  ───────────────────
  **WHICH BLOCKS ARE IN USE.**

  One bit a block, 64 blocks a word, block 0 in the lowest bit of word 0.
  Beside the bits stand the number of blocks and a running count of the free
  ones.  The map lives in memory only.

    • `allocate`  — the first run of free blocks that is long enough,
    • `claim`     — a given extent, if all of it is free,
    • `release`   — an extent; blocks that are free already stay free,
    • `extend`, `shrink` — more blocks, all free, or fewer, if those are free.
-/
import StateVault.Error
import StateVault.Extent

namespace StateVault

/-- Used and free blocks of a vault. -/
structure BlockMap where
  words : Array UInt64
  total : UInt64
  free : UInt64
  blockSize : UInt32
deriving Repr

namespace BlockMap

/-! ## §1. Bits. -/

/-- The number of words for `total` blocks. -/
def wordsFor (total : UInt64) : Nat :=
  (total.toNat + 63) / 64

/-- The bit of a block in its word. -/
def bit (block : Nat) : UInt64 :=
  1 <<< UInt64.ofNat (block % 64)

/-- The word that holds the bit of a block. -/
def wordOf (m : BlockMap) (block : Nat) : UInt64 :=
  m.words.getD (block / 64) 0

/-- Whether a block is in use; beyond the end none is. -/
def isUsed (m : BlockMap) (block : Nat) : Bool :=
  block < m.total.toNat && (m.wordOf block &&& bit block) != 0

/-- A map of `total` free blocks. -/
def blank (total : UInt64) (blockSize : UInt32) : BlockMap :=
  ⟨Array.replicate (wordsFor total) 0, total, total, blockSize⟩

/-- The blocks in use, in ascending order. -/
def usedBlocks (m : BlockMap) : List Nat :=
  (List.range m.total.toNat).filter m.isUsed

/-- Set the bits of `n` blocks from `block` on. -/
def setFrom (words : Array UInt64) (block : Nat) : (n : Nat) → Array UInt64
  | 0 => words
  | n + 1 => setFrom (words.modify (block / 64) (· ||| bit block)) (block + 1) n

/-! ## §2. Allocation. -/

/-- A word of 64 blocks in use. -/
def fullWord : UInt64 := 0xFFFFFFFFFFFFFFFF

/-- The start of the first run of `needed` free blocks, looked for from
`block` on, where the `run` blocks before `block` are free.  A full word is
passed in one step. -/
def firstFit (m : BlockMap) (needed block run : Nat) : Option Nat :=
  if block < m.total.toNat then
    if block % 64 = 0 ∧ m.wordOf block = fullWord then firstFit m needed (block + 64) 0
    else if m.isUsed block then firstFit m needed (block + 1) 0
    else if run + 1 = needed then some (block + 1 - needed)
    else firstFit m needed (block + 1) (run + 1)
  else none
termination_by m.total.toNat - block

/-- The first run of `needed` free blocks, now in use. -/
def allocate (m : BlockMap) (needed : UInt64) : Except Error (Extent × BlockMap) :=
  if needed = 0 then .ok (.empty, m)
  else if m.free < needed then .error (.noSpace needed m.free)
  else
    match m.firstFit needed.toNat 0 0 with
    | none => .error (.noSpace needed m.free)
    | some start =>
        .ok (⟨UInt64.ofNat start, needed⟩,
          { m with words := setFrom m.words start needed.toNat, free := m.free - needed })

/-- The blocks for so many bytes. -/
def allocateBytes (m : BlockMap) (bytes : UInt64) : Except Error (Extent × BlockMap) :=
  m.allocate (blocksToHold bytes m.blockSize)

/-- The first block in use among `n` from `block` on. -/
def firstUsed (m : BlockMap) (block : Nat) : (n : Nat) → Option Nat
  | 0 => none
  | n + 1 => if m.isUsed block then some block else firstUsed m (block + 1) n

/-- Take a given extent into use, if it lies within the map and is free. -/
def claim (m : BlockMap) (e : Extent) : Except Error BlockMap :=
  if m.total < e.stop then .error (.badBlock (e.stop - 1))
  else
    match m.firstUsed e.start.toNat e.length with
    | some block => .error (.corrupt (.claimedTwice (UInt64.ofNat block)))
    | none =>
        .ok { m with
          words := setFrom m.words e.start.toNat e.length
          free := m.free - e.count }

/-! ## §3. Release. -/

/-- Free one block; a free block stays as it is. -/
def releaseBlock (m : BlockMap) (block : Nat) : BlockMap :=
  if m.isUsed block then
    { m with
      words := m.words.modify (block / 64) (· &&& ~~~ bit block)
      free := m.free + 1 }
  else m

/-- Free `n` blocks from `block` on. -/
def releaseFrom (m : BlockMap) (block : Nat) : (n : Nat) → BlockMap
  | 0 => m
  | n + 1 => releaseFrom (m.releaseBlock block) (block + 1) n

/-- Free the blocks of an extent, if it lies within the map. -/
def release (m : BlockMap) (e : Extent) : Except Error BlockMap :=
  if e.isEmpty then .ok m
  else if m.total < e.stop then .error (.badBlock (e.stop - 1))
  else .ok (m.releaseFrom e.start.toNat e.length)

/-! ## §4. Size. -/

/-- The highest block in use among the first `k` words. -/
def highestIn (words : Array UInt64) : (k : Nat) → Option Nat
  | 0 => none
  | k + 1 =>
      let word := words.getD k 0
      if word = 0 then highestIn words k else some (k * 64 + word.toNat.log2)

/-- The highest block in use. -/
def highest (m : BlockMap) : Option Nat :=
  highestIn m.words m.words.size

/-- At least `total` blocks; the new ones are free. -/
def extend (m : BlockMap) (total : UInt64) : BlockMap :=
  if total ≤ m.total then m
  else
    { m with
      words := m.words ++ Array.replicate (wordsFor total - m.words.size) 0
      total := total
      free := m.free + (total - m.total) }

/-- At most `total` blocks, if the dropped ones are free. -/
def shrink (m : BlockMap) (total : UInt64) : Except Error BlockMap :=
  if m.total ≤ total then .ok m
  else
    let cut : BlockMap :=
      { m with
        words := m.words.take (wordsFor total)
        total := total
        free := m.free - (m.total - total) }
    match m.highest with
    | none => .ok cut
    | some block =>
        if total.toNat ≤ block then .error (.blockInUse total (UInt64.ofNat block))
        else .ok cut

/-! ## §5. Small laws. -/

@[simp] theorem allocate_zero (m : BlockMap) : m.allocate 0 = .ok (.empty, m) := rfl

/-- A map that grows has the new number of blocks. -/
theorem total_extend {m : BlockMap} {total : UInt64} (h : m.total < total) :
    (m.extend total).total = total := by
  have hn : ¬ total ≤ m.total := by
    simp only [UInt64.le_iff_toNat_le, UInt64.lt_iff_toNat_lt] at *
    omega
  simp [extend, hn]

end BlockMap

end StateVault
