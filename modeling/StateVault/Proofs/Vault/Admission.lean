/-
  StateVault.Proofs.Vault.Admission
  ─────────────────────────────────
  **ANY BYTES ARE REFUSED FOR WHAT THEY ARE, OR HOLD A VAULT.**

  Every word of an image may be chosen by whoever made it.  The checks of an
  opening come in an order in which each makes the next one safe to ask: the
  superblock that passes its own has its directory in the image, so that no
  read leaves it; a directory is read with its errors told as those of the
  image; and extents that fit and are apart are all free when the block map
  takes them.

    • `Raises.directory`, `found_refuses` — what an image is refused for,
    • `Superblock.directory_within`       — no read leaves the image,
    • `Sound.laidOut`, `Live.reads`       — what a vault that opens is like,
    • `opening_is_classified`             — any bytes in memory.
-/
import StateVault.Proofs.Cursor.Errors
import StateVault.Proofs.Storage.InMemory
import StateVault.Proofs.Vault.Agreement

namespace StateVault

/-! ## §1. What bytes are refused for. -/

/-- The errors about the bytes of an image. -/
inductive Error.Refusal : Error → Prop where
  | badMagic : Refusal .badMagic
  | unsupportedVersion (major minor : UInt16) : Refusal (.unsupportedVersion major minor)
  | badBlockSize (size : UInt32) : Refusal (.badBlockSize size)
  | checksum (region : Region) (stored computed : UInt32) :
      Refusal (.checksum region stored computed)
  | corrupt (cause : Corruption) : Refusal (.corrupt cause)

open Error (Refusal)

namespace Superblock

theorem refusal_of_checkVersion {s : Superblock} {e : Error} (h : s.checkVersion = .error e) :
    Refusal e := by
  unfold checkVersion at h
  split at h
  · cases h
  · cases h
    exact .unsupportedVersion _ _

theorem refusal_of_checkLayout {s : Superblock} {e : Error} (h : s.checkLayout = .error e) :
    Refusal e := by
  unfold checkLayout at h
  split at h
  · cases h
    exact .corrupt _
  · split at h
    · cases h
      exact .corrupt _
    · split at h
      · cases h
        exact .corrupt _
      · cases h

/-- A superblock is refused for its version, its block size or its layout. -/
theorem refusal_of_check {s : Superblock} {e : Error} (h : s.check = .error e) : Refusal e := by
  unfold check checkBlockSize at h
  cases hversion : s.checkVersion with
  | error e' =>
    rw [hversion] at h
    cases h
    exact refusal_of_checkVersion hversion
  | ok u =>
    rw [hversion] at h
    by_cases hsize : isBlockSize s.blockSize = true
    · rw [if_pos hsize] at h
      exact refusal_of_checkLayout h
    · rw [if_neg hsize] at h
      cases h
      exact .badBlockSize _

/-- A copy is refused by one of the checks on it: its 64 bytes are there, so
that no step of the reader leaves them. -/
theorem refusal_of_decode {bytes : ByteArray} {e : Error} (hsize : 64 ≤ bytes.size)
    (h : decode bytes = .error e) : Refusal e := by
  rw [decode_eq hsize, examine] at h
  -- one case for each check of the reader, in its order
  split at h
  · cases h
    exact .checksum _ _ _
  · split at h
    · cases h
      exact .badMagic
    · cases hversion : (fieldsAt bytes).checkVersion with
      | error e' =>
        rw [hversion] at h
        cases h
        exact refusal_of_checkVersion hversion
      | ok u =>
        rw [hversion] at h
        dsimp only at h
        split at h
        · cases h
          exact .corrupt _
        · cases hcheck : (fieldsAt bytes).check with
          | error e' =>
            rw [hcheck] at h
            cases h
            exact refusal_of_check hcheck
          | ok u =>
            rw [hcheck] at h
            cases h

/-- A choice that fails tells the error of a copy, or that the two do not
follow each other. -/
theorem refusal_of_choose {first second : Except Error Superblock} {e : Error}
    (hfirst : ∀ e, first = .error e → Refusal e) (hsecond : ∀ e, second = .error e → Refusal e)
    (h : choose first second = .error e) : Refusal e := by
  -- a version that is not supported comes before everything else
  have hfault : ∀ {copy : Except Error Superblock} {e : Error}, versionFault? copy = some e →
      Refusal e := by
    intro copy e hsome
    obtain ⟨major, minor, _, rfl⟩ := versionFault_eq_some hsome
    exact .unsupportedVersion major minor
  unfold choose at h
  split at h
  · rename_i hsome
    cases h
    exact hfault hsome
  · rename_i hsome
    cases h
    exact hfault hsome
  · -- two copies that read are too far apart, or one of the failures is told
    split at h
    · split at h
      · cases h
      · split at h
        · cases h
        · cases h
          exact .corrupt _
    · cases h
    · cases h
    · cases h
      exact hsecond _ rfl
    · cases h
      exact hfirst _ rfl

/-- Copies none of which counts are refused for what is wrong with their bytes. -/
theorem refusal_of_current {region : ByteArray} {e : Error} (h : current region = .error e) :
    Refusal e := by
  by_cases hsize : regionSize ≤ region.size
  · have hcopy : ∀ slot e, copyIn region slot = .error e → Refusal e := by
      intro slot e hfails
      exact refusal_of_decode (Nat.le_of_eq (size_slot hsize slot).symm) hfails
    rw [current, if_neg (Nat.not_lt.mpr hsize)] at h
    exact refusal_of_choose (hcopy .first) (hcopy .second) h
  · rw [current, if_pos (Nat.lt_of_not_le hsize)] at h
    cases h
    exact .corrupt _

/-- The directory of a superblock lies in an image that is as long as that
says. -/
theorem directory_within {s : Superblock} {size : Nat} (hcheck : s.check = .ok ())
    (hbytes : s.imageBytes.toNat ≤ size) (hsize : size < UInt64.size - 1) :
    (s.blockOffset s.directory.start).toNat + s.directorySize.toNat ≤ size := by
  obtain ⟨_, hblock, _⟩ := check_eq_ok hcheck
  obtain ⟨hnonempty, hlength⟩ := directory_of_check hcheck
  obtain ⟨hlow, _⟩ := isBlockSize_bounds hblock
  have hstop := directory_stop_of_check hcheck
  rw [toNat_imageBytes] at hbytes
  rw [Extent.toNat_stop] at hstop
  -- no product or sum has been held at the largest word
  have htotal : s.totalBlocks.toNat * s.blockSize.toNat ≤ size := by omega
  have hblocks : s.totalBlocks.toNat ≤ s.totalBlocks.toNat * s.blockSize.toNat :=
    Nat.le_mul_of_pos_right _ (by omega)
  have hextent : (s.directory.start.toNat + s.directory.count.toNat) * s.blockSize.toNat
      ≤ s.totalBlocks.toNat * s.blockSize.toNat := Nat.mul_le_mul_right _ (by omega)
  rw [Nat.add_mul] at hextent
  have hoffset : (s.blockOffset s.directory.start).toNat
      = s.directory.start.toNat * s.blockSize.toNat := by
    rw [blockOffset, UInt64.toNat_mul, UInt32.toNat_toUInt64]
    have hwords : UInt64.size = 2 ^ 64 := rfl
    exact Nat.mod_eq_of_lt (by omega)
  omega

end Superblock

/-! ## §2. What a directory is refused for. -/

/-- The errors of a directory that is read by itself. -/
inductive Directory.Fault : Error → Prop where
  | outOfRange (overrun : Overrun) : Fault (.outOfRange overrun)
  | duplicateName (name : String) : Fault (.duplicateName name)
  | checksum (region : Region) (stored computed : UInt32) :
      Fault (.checksum region stored computed)
  | corrupt (cause : Corruption) : Fault (.corrupt cause)

namespace Cursor.Raises

open Directory (Fault)

theorem trailer : Raises Fault Trailer.read := by
  refine (take Fault.outOfRange _).bind fun marker => guarded (fun _ => .corrupt _) ?_
  refine (word64 Fault.outOfRange).bind fun generation => here.bind fun c => ?_
  refine (word32 Fault.outOfRange).bind fun stored => guarded (fun _ => .checksum _ _ _) ?_
  exact (word32 Fault.outOfRange).bind fun _ => ret _

theorem entry (index : Nat) : Raises Fault (Entry.read index) := by
  refine (word8 Fault.outOfRange).bind fun length => (take Fault.outOfRange _).bind fun slot => ?_
  -- only the name is checked while an entry is read
  have hname : Raises Fault (Cursor.require (Entry.decodeName index length.toNat slot)) := by
    apply checked
    intro e h
    unfold Entry.decodeName at h
    split at h
    · cases h
      exact .corrupt _
    · split at h
      · cases h
        exact .corrupt _
      · split at h
        · cases h
          exact .corrupt _
        · split at h
          · cases h
            exact .corrupt _
          · cases h
  refine hname.bind fun name => (word64 Fault.outOfRange).bind fun start => ?_
  refine (word64 Fault.outOfRange).bind fun count => (word64 Fault.outOfRange).bind fun bytes => ?_
  exact (word32 Fault.outOfRange).bind fun flags => (word32 Fault.outOfRange).bind fun _ => ret _

/-- The entries are at fault or in the range, each read and checked against the
ones before it. -/
theorem entries (blockSize : UInt32) (found : List Entry) (n : Nat) :
    Raises Fault (Directory.readEntries blockSize found n) := by
  induction n generalizing found with
  | zero => exact ret _
  | succ n ih =>
    refine (entry _).bind fun e => guarded (fun _ => .duplicateName _) ?_
    refine Raises.bind (checked ?_) fun _ => ih _
    intro err h
    -- after its name, each entry is checked by itself
    unfold Entry.check at h
    split at h
    · split at h
      · cases h
      · cases h
        exact .corrupt _
    · split at h
      · cases h
        exact .corrupt _
      · cases h

/-- The number of entries, with their width, is at fault or in the range. -/
theorem count : Raises Fault Directory.readCount := by
  refine (word32 Fault.outOfRange).bind fun count => (word32 Fault.outOfRange).bind fun size => ?_
  refine guarded (fun _ => .corrupt _) (guarded (fun _ => .corrupt _) ?_)
  exact here.bind fun c => guarded (fun _ => .corrupt _) (ret _)

/-- **A directory is refused for its bytes**, whatever they are. -/
theorem directory (blockSize : UInt32) : Raises Fault (Directory.read blockSize) := by
  refine count.bind fun n => (seek Fault.outOfRange _).bind fun _ =>
    trailer.bind fun generation => ?_
  exact (seek Fault.outOfRange _).bind fun _ => (entries blockSize [] n).bind fun _ => ret _

end Cursor.Raises

namespace Vault

/-- As errors about an image, those of a directory are refusals. -/
theorem refusal_of_fault {e : Error} (h : Directory.Fault e) : Refusal (directoryFault e) := by
  cases h with
  | outOfRange overrun => exact .corrupt _
  | duplicateName name => exact .corrupt _
  | checksum region stored computed => exact .checksum _ _ _
  | corrupt cause => exact .corrupt _

/-- A directory that is refused by itself is an image that is refused. -/
theorem refusal_of_assemble {slot : Slot} {s : Superblock} {bytes : ByteArray} {e : Error}
    (h : assemble slot s bytes = .error e) : Refusal e := by
  cases hdecode : Directory.decode bytes s.blockSize with
  | error e' =>
    unfold assemble at h
    rw [hdecode] at h
    cases h
    exact refusal_of_fault ((Cursor.Raises.directory _).of_decode hdecode)
  -- a directory that reads may be of another generation, or its claims may collide
  | ok read =>
    obtain ⟨d, generation⟩ := read
    rw [assemble_of_decode hdecode] at h
    split at h
    · cases h
      exact .corrupt _
    · cases hclaims : BlockMap.ofClaims s.totalBlocks s.blockSize (claims s d) with
      | error e' =>
        rw [hclaims] at h
        cases h
        obtain ⟨cause, rfl⟩ := BlockMap.ofClaims_error hclaims
        exact .corrupt _
      | ok blocks =>
        rw [hclaims] at h
        cases h

/-- A superblock for more bytes than there are is corruption, too. -/
theorem refusal_of_currentIn {size : Nat} {region : ByteArray} {e : Error}
    (h : currentIn size region = .error e) : Refusal e := by
  unfold currentIn at h
  cases hcurrent : Superblock.current region with
  | error e' =>
    rw [hcurrent] at h
    cases h
    exact Superblock.refusal_of_current hcurrent
  | ok place =>
    obtain ⟨slot, s⟩ := place
    rw [hcurrent] at h
    by_cases hshort : size < s.imageBytes.toNat
    · simp only [bind, Except.bind, if_pos hshort] at h
      cases h
      exact .corrupt _
    · simp only [bind, Except.bind, if_neg hshort] at h
      cases h

/-- What an image is refused for is wrong with its bytes. -/
theorem found_refuses {image : Image} {e : Error} (h : found image = .error e) : Refusal e := by
  by_cases hregion : regionSize ≤ image.size
  · cases hcurrent : currentIn image.size (Bytes.slice image 0 regionSize) with
    | error e' =>
      rw [found_of_none hregion hcurrent] at h
      cases h
      exact refusal_of_currentIn hcurrent
    | ok place =>
      obtain ⟨slot, s⟩ := place
      rw [found_of_current ⟨hregion, hcurrent⟩] at h
      exact refusal_of_assemble h
  · rw [found_of_short (Nat.lt_of_not_le hregion)] at h
    cases h
    exact .corrupt _

/-- An opening that fails, on a medium that does not, says what is wrong with
the bytes: the superblock that passed its checks has its directory in the
image, so that no read leaves it. -/
theorem mount_refuses {t : Watched} (hsize : t.image.size < UInt64.size - 1)
    {settings : Settings} (hsettings : Acceptable settings) :
    (mount settings).Ensures Failures.none (fun _ => True) t fun result _ =>
      ∀ e, result = .error e → Refusal e := by
  unfold mount
  rw [(acceptable_iff settings).mp hsettings, Script.ensures_andThen]
  show Script.Ensures Failures.none _ (Script.andThen _ _) t _
  rw [Script.ensures_andThen]
  refine (survey_ensures (F := Failures.none) trivial).mono ?_
  intro result t' hend
  -- the survey is what is found in the bytes, or else its read of the directory fails
  obtain ⟨rfl, hfound | ⟨e, rfl, hfailed⟩⟩ := hend
  · cases result with
    | ok x => exact fun e he => nomatch he
    | error e =>
      intro e' he
      cases he
      exact found_refuses hfound.symm
  · obtain ⟨slot, s, ⟨_, hcurrent⟩, hshort⟩ := hfailed.resolve_left id
    obtain ⟨hchosen, hbytes⟩ := current_of_currentIn hcurrent
    have hwithin := Superblock.directory_within (Superblock.check_of_current hchosen) hbytes hsize
    exact absurd hshort (Nat.not_lt.mpr hwithin)

/-! ## §3. What a vault that opens is like. -/

/-- Directory and streams, as far as they have blocks, lie in the vault and
after the copies of the superblock, and no two of them share a block. -/
structure LaidOut (v : Vault) : Prop where
  within : ∀ e ∈ v.superblock.directory :: streamExtents v.directory, e.count ≠ 0 →
    (superblockBlocks v.blockSize).toNat ≤ e.start.toNat
      ∧ e.start.toNat + e.count.toNat ≤ v.superblock.totalBlocks.toNat
  apart : (v.superblock.directory :: streamExtents v.directory).Pairwise Extent.Apart

/-- A sound vault is laid out: its extents lie within it, and each has its blocks
to itself. -/
theorem Sound.laidOut {v : Vault} (h : v.Sound) : v.LaidOut where
  within e he hne := by
    have hcount : e.count.toNat ≠ 0 := fun hzero => hne (UInt64.toNat_inj.mp hzero)
    exact ⟨h.held.owns.after_superblock he hcount,
      (h.below e (List.mem_cons_of_mem _ he)).resolve_left hcount⟩
  apart := (List.pairwise_cons.mp h.held.owns.apart).2

/-- Every stream can be read back, and has as many bytes as it is listed
with. -/
theorem Live.reads {μ : Type} [Medium μ] {image : μ → Image}
    (hobeys : Obeys Failures.none image) {h : Handle μ} (hlive : h.vault.Live (image h.medium))
    {e : Entry} (he : e ∈ h.vault.streams) :
    ∃ data h', h.perform (.read e.name) = (.ok (.bytes data), h')
      ∧ data.size = e.length.toNat := by
  have hs : h.vault.streamIn (image h.medium) e ∈ h.vault.contents (image h.medium) :=
    List.mem_map_of_mem he
  obtain ⟨_, _, hok⟩ := (Request.ensures_bytes (F := Failures.none) (t := ⟨image h.medium, 0⟩)
    hlive hs id).on_medium hobeys
  exact ⟨_, _, Prod.ext hok rfl, hlive.size_streamIn he⟩

/-! ## §4. Any bytes in memory. -/

/-- **Opening any bytes is safe, and what they are refused for is told.**
Whatever bytes are in memory, opening them with settings that can be used
either fails for what is wrong with the bytes; or it gives a vault whose
directory and streams lie in it, after the superblock and apart from each
other, whose streams can all be read back at their listed length, and which a
verification confirms at once. -/
theorem opening_is_classified (bytes : ByteArray) (hsize : bytes.size < UInt64.size - 1)
    {settings : Settings} (hsettings : Acceptable settings) :
    match (mount settings).run (Memory.ofImage bytes) with
    | (.error e, _) => Refusal e
    | (.ok v, m) => v.LaidOut
        ∧ (∀ e ∈ v.streams, ∃ data h',
            Handle.perform ⟨v, m⟩ (.read e.name) = (.ok (.bytes data), h')
            ∧ data.size = e.length.toNat)
        ∧ ∃ r, (Handle.perform ⟨v, m⟩ .verify).1 = .ok (.report r) ∧ r.Confirms v := by
  cases hrun : (mount settings).run (Memory.ofImage bytes) with
  | mk result m =>
    cases result with
    | error e =>
      obtain ⟨_, _, hrefusal⟩ :=
        (mount_refuses (t := ⟨(Memory.ofImage bytes).image, 0⟩) hsize hsettings).on_medium
          memory_obeys
      rw [hrun] at hrefusal
      exact hrefusal e rfl
    | ok v =>
      -- what has just been opened is a run of no requests
      have hopened : Handle.Undisturbed ⟨v, m⟩ := .mounted hsize hrun
      have hattached := hopened.attached memory_obeys
      exact ⟨hattached.live.sound.laidOut, fun e he => hattached.live.reads memory_obeys he,
        hattached.verifies memory_obeys⟩

/-- No bytes are refused; the bytes of a vault with one stream are opened. -/
theorem opening_of_some_bytes :
    (∃ e m, (mount eightBlocks).run (Memory.ofImage ByteArray.empty) = (.error e, m)
        ∧ Refusal e)
      ∧ ∃ bytes v m, (mount eightBlocks).run (Memory.ofImage bytes) = (.ok v, m)
        ∧ v.directory.names = ["a"] ∧ v.LaidOut := by
  constructor
  · exact ⟨_, _, rfl, opening_is_classified ByteArray.empty (by decide) acceptable_eightBlocks⟩
  · -- the bytes of a vault with one stream; the outline decides that they exist
    have hruns : (blindReplay eightBlocks [.write "a" (.one 1)]
        (Outline.ofImage ByteArray.empty)).map
          (fun x => (x.2.vault.directory.names, x.2.medium.length)) = some (["a"], 4096) := by
      decide +kernel
    obtain ⟨x, hblind, hfacts⟩ := Option.map_eq_some_iff.mp hruns
    obtain ⟨hnames, hlength⟩ := Prod.mk.inj hfacts
    obtain ⟨h, hreplay, hseen⟩ := replay_of_blind outline_view hblind
    rw [← hseen] at hnames hlength
    have hwrites : ∀ r ∈ [Request.write "a" (.one 1)], r.isUpdate = true :=
      List.forall_mem_singleton.mpr rfl
    have hattached := (Handle.undisturbed_of_replay hwrites hreplay).attached image_obeys
    obtain ⟨w, m, hrun, _, hreopened⟩ := mounts_of_attested memory_obeys
      (m := Memory.ofImage h.medium) hattached.live.sound hattached.attested hattached.covers
      hattached.live.addressable acceptable_eightBlocks
    have hsize : ByteArray.size h.medium < UInt64.size - 1 := by
      have hlength : ByteArray.size h.medium = 4096 := hlength
      rw [hlength]
      decide
    have hopened := opening_is_classified h.medium hsize acceptable_eightBlocks
    rw [hrun] at hopened
    refine ⟨h.medium, w, m, hrun, ?_, hopened.1⟩
    rw [hreopened.directory]
    exact hnames

end Vault

end StateVault
