/-
  StateVault.Superblock
  ─────────────────────
  **THE RECORD THAT MAKES A STATE CURRENT.**

      offset  size  field
           0     8  magic
           8     4  version (major in the upper half)
          12     4  size of the record (64)
          16     4  block size
          20     4  directory size in bytes
          24     8  total blocks
          32     8  first block of the directory
          40     8  number of its blocks
          48     8  generation
          56     4  reserved
          60     4  checksum of the bytes before it

  The checksum is checked before any field: when it is wrong, no field can
  be believed, the magic included.  Then the version, so that a newer layout
  is reported as such.

    • `encode`, `decode` — the record as bytes and back,
    • `check`            — the fields against each other.
-/
import StateVault.Checksum
import StateVault.Extent
import StateVault.Cursor

namespace StateVault

/-! ## §1. Block sizes. -/

/-- Whether a block size is a power of two from 512 to 65536. -/
def isBlockSize (size : UInt32) : Bool :=
  size &&& (size - 1) == 0 && 512 ≤ size && size ≤ 65536

def checkBlockSize (size : UInt32) : Except Error Unit :=
  if isBlockSize size then .ok () else .error (.badBlockSize size)

/-- The bytes that one copy of the superblock owns. -/
def slotSize : Nat := 512

/-- The bytes at the start of an image that the two copies own. -/
def regionSize : Nat := 1024

/-- The least number of blocks of a vault: the copies of the superblock and
one block of directory, at the smallest block size. -/
def leastBlocks : UInt64 := 3

/-- The blocks that the two copies of the superblock cover. -/
def superblockBlocks (blockSize : UInt32) : UInt64 :=
  blocksToHold 1024 blockSize

/-- The extent that the two copies of the superblock own. -/
def superblockExtent (blockSize : UInt32) : Extent :=
  ⟨0, superblockBlocks blockSize⟩

/-! ## §2. The record. -/

structure Superblock where
  version : UInt32
  blockSize : UInt32
  totalBlocks : UInt64
  directory : Extent
  directorySize : UInt32
  generation : UInt64
deriving DecidableEq, Repr

namespace Superblock

/-- The eight bytes every superblock starts with, `GUESTRTS`. -/
def magic : List UInt8 := [0x47, 0x55, 0x45, 0x53, 0x54, 0x52, 0x54, 0x53]

/-- Version 1.0. -/
def currentVersion : UInt32 := 0x00010000

/-- The size of the record. -/
def recordSize : UInt32 := 64

/-- Where the checksum stands. -/
def checksumOffset : Nat := 60

/-- The superblock of a vault that no commit has written yet. -/
def initial (blockSize : UInt32) (totalBlocks : UInt64) : Superblock :=
  { version := currentVersion
    blockSize
    totalBlocks
    directory := .empty
    directorySize := 0
    generation := 0 }

/-- The size of the vault in bytes, held at the largest word. -/
def imageBytes (s : Superblock) : UInt64 :=
  Word.mulSat s.totalBlocks s.blockSize.toUInt64

/-- The size is that of all blocks, cut at the largest word. -/
@[simp] theorem toNat_imageBytes (s : Superblock) :
    s.imageBytes.toNat = min (s.totalBlocks.toNat * s.blockSize.toNat) (UInt64.size - 1) := by
  rw [imageBytes, Word.toNat_mulSat, UInt32.toNat_toUInt64]

/-- The byte at which a block starts. -/
def blockOffset (s : Superblock) (block : UInt64) : UInt64 :=
  block * s.blockSize.toUInt64

def major (s : Superblock) : UInt16 := (s.version >>> 16).toUInt16

def minor (s : Superblock) : UInt16 := s.version.toUInt16

/-! ## §3. Checks. -/

/-- Major version 1, and no minor version past the current one. -/
def checkVersion (s : Superblock) : Except Error Unit :=
  if s.major = 1 ∧ s.version ≤ currentVersion then .ok ()
  else .error (.unsupportedVersion s.major s.minor)

/-- Size, place and length of the directory within the vault. -/
def checkLayout (s : Superblock) : Except Error Unit :=
  if s.totalBlocks < leastBlocks then .error (.corrupt (.tooFewBlocks s.totalBlocks))
  else if s.directory.isEmpty ∨ s.directory.start < superblockBlocks s.blockSize
      ∨ s.totalBlocks < s.directory.stop then
    .error (.corrupt (.directoryExtent s.directory.start s.directory.stop s.totalBlocks))
  else if s.directory.capacity s.blockSize < s.directorySize.toUInt64 then
    .error (.corrupt (.directoryTooLong s.directorySize s.directory.count))
  else .ok ()

/-- Version, block size and layout, in this order. -/
def check (s : Superblock) : Except Error Unit := do
  s.checkVersion
  checkBlockSize s.blockSize
  s.checkLayout

/-! ## §4. Bytes. -/

/-- The bytes that the checksum covers. -/
def covered (s : Superblock) : List UInt8 :=
  magic ++ Bytes.ofWord32 s.version ++ Bytes.ofWord32 recordSize
    ++ Bytes.ofWord32 s.blockSize ++ Bytes.ofWord32 s.directorySize
    ++ Bytes.ofWord64 s.totalBlocks ++ Bytes.ofWord64 s.directory.start
    ++ Bytes.ofWord64 s.directory.count ++ Bytes.ofWord64 s.generation
    ++ Bytes.ofWord32 0

/-- The record as its 64 bytes, with the checksum computed from the fields. -/
def encode (s : Superblock) : ByteArray :=
  (s.covered ++ Bytes.ofWord32 (Checksum.ofList s.covered)).toByteArray

/-- The fields as they stand after the magic, and the size that the record
claims to have. -/
def fields : Steps (Superblock × UInt32) := do
  let version ← Cursor.word32
  let size ← Cursor.word32
  let blockSize ← Cursor.word32
  let directorySize ← Cursor.word32
  let totalBlocks ← Cursor.word64
  let start ← Cursor.word64
  let count ← Cursor.word64
  let generation ← Cursor.word64
  return (⟨version, blockSize, totalBlocks, ⟨start, count⟩, directorySize, generation⟩, size)

/-- Compare the checksum at its place with the bytes before it. -/
def verifyChecksum : Steps Unit := do
  Cursor.seek checksumOffset
  let stored ← Cursor.word32
  let computed := Checksum.ofBytes ((← get).buffer.extract 0 checksumOffset)
  if stored ≠ computed then throw (.checksum .superblock stored computed)

/-- Checksum, magic, version, size of the record, then the other checks. -/
def read : Steps Superblock := do
  verifyChecksum
  Cursor.seek 0
  if (← Cursor.take 8).data.toList ≠ magic then throw .badMagic
  let (s, size) ← fields
  -- a newer layout may have records of another size
  Cursor.require s.checkVersion
  if size ≠ recordSize then throw (.corrupt (.superblockSize size))
  Cursor.require s.check
  return s

/-- The superblock in the first 64 of the given bytes. -/
def decode (bytes : ByteArray) : Except Error Superblock :=
  Cursor.decode read bytes

end Superblock

end StateVault
