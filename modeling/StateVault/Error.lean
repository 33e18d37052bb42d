/-
  StateVault.Error
  ────────────────
  **WHAT CAN GO WRONG, AS CAUSES.**

  Each failure carries the facts that it is about; the words for it are in
  one place, `Error.message`.

    • `Overrun`       — a range of bytes beyond the end of its buffer,
    • `NameFault`     — a text that is no stream name,
    • `Corruption`    — bytes on the medium that contradict each other,
    • `EnvelopeFault` — a payload that is no envelope,
    • `SettingsFault` — settings that no vault can have,
    • `Error`         — all of them, and the failures that stand alone.

  A device failure and a failure to read a settings text or a typed record
  have no words of their own here: `Error.message` is `none` for them.
-/
import StateVault.Text.Quoted

namespace StateVault

/-! ## §1. Causes. -/

/-- A range of `length` bytes at `offset` that does not lie within `capacity`. -/
structure Overrun where
  offset : Nat
  length : Nat
  capacity : Nat
deriving DecidableEq, Repr

/-- Why a text is no stream name. -/
inductive NameFault where
  | empty
  | tooLong (size : Nat)
  | holdsNul (name : String)
deriving DecidableEq, Repr

/-- What a checksum protects. -/
inductive Region where
  | superblock
  | directory
deriving DecidableEq, Repr

/-- Facts on the medium that cannot all be true of one vault. -/
inductive Corruption where
  | imageTooSmall (size : Nat)
  | imageTruncated (size : Nat) (described : UInt64)
  | regionTooSmall (size : Nat)
  | superblockSize (found : UInt32)
  | tooFewBlocks (total : UInt64)
  | directoryExtent (first stop total : UInt64)
  | directoryTooLong (size : UInt32) (blocks : UInt64)
  | generationsApart (first second : UInt64)
  | generationMismatch (directory superblock : UInt64)
  | generationsExhausted
  | entrySize (found : UInt32)
  | tooManyEntries (count : Nat)
  | directoryCut (count needed present : Nat)
  | endMarkerMissing
  | nameLength (entry length : Nat)
  | namePadding (entry : Nat)
  | nameEncoding (entry : Nat)
  | nameInvalid (entry : Nat) (fault : NameFault)
  | bytesWithoutBlocks (name : String) (length : UInt64)
  | streamTooLong (name : String) (length blocks : UInt64)
  | directoryOverrun (overrun : Overrun)
  | directoryRepeats (name : String)
  | outsideVault (owner : String) (first stop total : UInt64)
  | overlapping (other owner : String)
  | claimedTwice (block : UInt64)
  | superblockDiffers
  | directoryDiffers
deriving DecidableEq, Repr

/-- What a payload holds in place of an object. -/
inductive JsonKind where
  | null
  | boolean
  | number
  | string
  | array
  | object
deriving DecidableEq, Repr

/-- Why a payload is no envelope. -/
inductive EnvelopeFault where
  | oddLength (size : Nat)
  | notUtf16
  | notJson
  | notObject (found : JsonKind)
deriving DecidableEq, Repr

/-- Why settings or a size cannot be used. -/
inductive SettingsFault where
  | initialTooSmall (initial : UInt64)
  | limitBelowInitial (limit initial : UInt64)
  | limitOverflows (limit : UInt64)
  | sizeTooSmall (blocks : UInt64)
  | sizeOverflows (blocks : UInt64)
  | noPath
deriving DecidableEq, Repr

/-- Every way in which an operation of this library fails. -/
inductive Error where
  | outOfRange (overrun : Overrun)
  | badMagic
  | unsupportedVersion (major minor : UInt16)
  | badBlockSize (size : UInt32)
  | checksum (region : Region) (stored computed : UInt32)
  | corrupt (cause : Corruption)
  | duplicateName (name : String)
  | noSuchStream (name : String)
  | badName (fault : NameFault)
  | directoryFull (limit : Nat)
  | noSpace (needed free : UInt64)
  | badBlock (block : UInt64)
  | blockInUse (requested highest : UInt64)
  | envelope (fault : EnvelopeFault)
  | settings (fault : SettingsFault)
  | device
  | record
  | settingsText
deriving DecidableEq, Repr

/-! ## §2. The words for them. -/

def Overrun.message (o : Overrun) : String :=
  s!"Out of range: {o.length} bytes at offset {o.offset} exceeds capacity {o.capacity}"

def NameFault.message : NameFault → String
  | empty => "Invalid stream name: name cannot be empty"
  | tooLong size => s!"Invalid stream name: name is {size} bytes (max 63)"
  | holdsNul name =>
      "Invalid stream name: name " ++ Text.quoted name ++ " contains a NUL character"

def Region.name : Region → String
  | superblock => "header"
  | directory => "file table"

def Corruption.detail : Corruption → String
  | imageTooSmall size => s!"image of {size} bytes is smaller than the header region"
  | imageTruncated size described =>
      s!"image truncated: {size} bytes, header describes {described}"
  | regionTooSmall size => s!"header region is {size} bytes, expected 1024"
  | superblockSize found => s!"unexpected header size {found}, expected 64"
  | tooFewBlocks total => s!"container of {total} blocks is smaller than the minimum of 3"
  | directoryExtent first stop total =>
      s!"file table extent {first}..{stop} invalid for {total} blocks"
  | directoryTooLong size blocks =>
      s!"file table size {size} exceeds its {blocks} block extent"
  | generationsApart first second =>
      s!"header generations {first} and {second} are not consecutive"
  | generationMismatch directory superblock =>
      s!"file table generation {directory} does not match header generation {superblock}"
  | generationsExhausted => "generation counter exhausted"
  | entrySize found => s!"file table entry size {found}, expected 96"
  | tooManyEntries count => s!"file table overflow: {count} entries (max 64)"
  | directoryCut count needed present =>
      s!"file table of {count} entries needs {needed} bytes, only {present} present"
  | endMarkerMissing => "file table end marker missing"
  | nameLength entry length => s!"entry {entry} has name length {length}"
  | namePadding entry => s!"entry {entry} name is not zero padded"
  | nameEncoding entry => s!"entry {entry} name is not UTF-8"
  | nameInvalid entry fault => s!"entry {entry}: " ++ fault.message
  | bytesWithoutBlocks name length => s!"stream {name} has {length} bytes but no blocks"
  | streamTooLong name length blocks =>
      s!"stream {name} length {length} exceeds its {blocks} block extent"
  | directoryOverrun overrun => "file table: " ++ overrun.message
  | directoryRepeats name => s!"file table: Duplicate stream name: {name}"
  | outsideVault owner first stop total =>
      s!"{owner} extent {first}..{stop} outside container of {total} blocks"
  | overlapping other owner => s!"{other} and {owner} claim overlapping blocks"
  | claimedTwice block => s!"block {block} claimed twice"
  | superblockDiffers => "on-disk header differs from the open container"
  | directoryDiffers => "on-disk file table differs from the open container"

def JsonKind.phrase : JsonKind → String
  | null => "null"
  | boolean => "a boolean"
  | number => "a number"
  | string => "a string"
  | array => "an array"
  | object => "an object"

def EnvelopeFault.detail : EnvelopeFault → String
  | oddLength size => s!"odd payload length {size}"
  | notUtf16 => "payload is not valid UTF-16"
  | notJson => "invalid JSON"
  | notObject found => "top-level value must be an object, found " ++ found.phrase

def SettingsFault.detail : SettingsFault → String
  | initialTooSmall initial => s!"initial_blocks must be at least 3, got {initial}"
  | limitBelowInitial limit initial =>
      s!"max_blocks ({limit}) is below initial_blocks ({initial})"
  | limitOverflows limit => s!"max_blocks {limit} overflows the addressable size"
  | sizeTooSmall blocks => s!"container needs at least 3 blocks, got {blocks}"
  | sizeOverflows blocks => s!"{blocks} blocks overflow the image size"
  | noPath => "path must be set"

/-- A 32-bit word as a checksum is shown. -/
def checksumText (w : UInt32) : String :=
  "0x" ++ Text.Hex.fixed 8 w.toNat

/-- The text of an error, for those that have one. -/
def Error.message : Error → Option String
  | outOfRange overrun => some overrun.message
  | badMagic => some "Invalid magic number in header"
  | unsupportedVersion major minor => some s!"Unsupported format version: {major}.{minor}"
  | badBlockSize size => some s!"Invalid block size: {size}"
  | checksum region stored computed =>
      some (region.name ++ " checksum mismatch: expected " ++ checksumText stored
        ++ ", found " ++ checksumText computed)
  | corrupt cause => some ("Corrupt container: " ++ cause.detail)
  | duplicateName name => some s!"Duplicate stream name: {name}"
  | noSuchStream name => some s!"Stream not found: {name}"
  | badName fault => some fault.message
  | directoryFull limit => some s!"File table full: at most {limit} streams"
  | noSpace needed free => some s!"Out of space: need {needed} contiguous blocks, {free} free"
  | badBlock block => some s!"Invalid block ID: {block}"
  | blockInUse requested highest =>
      some s!"Cannot shrink to {requested} blocks: block {highest} is in use"
  | envelope fault => some ("Envelope decode error: " ++ fault.detail)
  | settings fault => some ("Invalid configuration: " ++ fault.detail)
  | device => none
  | record => none
  | settingsText => none

end StateVault
