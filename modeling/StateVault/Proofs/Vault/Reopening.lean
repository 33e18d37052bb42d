/-
  StateVault.Proofs.Vault.Reopening
  ─────────────────────────────────
  **OPENING AN IMAGE SHOWS WHAT IT ATTESTS.**

  `shown` opens an image, lists the streams and reads each of them, all by
  the operations of the library on a medium without faults.  On an image that
  attests a vault it answers with the generation and the streams of it.

    • `mount_of_attested` — opening comes to the vault, or a read failed,
    • `read_ensures`      — reading comes to the stream's bytes, or a read
                            failed,
    • `shown_of_attested` — what an opening shows.
-/
import StateVault.Proofs.Storage.Tally
import StateVault.Proofs.Vault.Attested

namespace StateVault.Vault

variable {F : Failures} {I : Watched → Prop}

/-! ## §1. What an opening shows. -/

/-- Generation and streams of a vault. -/
structure Contents where
  generation : UInt64
  streams : List Stream

/-- Read each of some streams, in their order. -/
def readAll : List Entry → Action (List Stream)
  | [] => return []
  | e :: rest => do
      let bytes ← read e.name
      let others ← readAll rest
      return ⟨e.name, e.flags, e.length, bytes⟩ :: others

/-- What opening an image and reading all its streams shows. -/
def shown (settings : Settings) (image : Image) : Except Error Contents :=
  match (mount settings).run image with
  | (.error e, _) => .error e
  | (.ok v, image) =>
      match (readAll v.streams v).run image with
      | ((.error e, _), _) => .error e
      | ((.ok streams, _), _) => .ok ⟨v.generation, streams⟩

/-- Settings that a vault can be opened with. -/
def Acceptable (settings : Settings) : Prop :=
  settings.autoGrow = true → settings.check = .ok ()

theorem acceptable_iff (settings : Settings) : Acceptable settings
    ↔ (if settings.autoGrow = true then settings.check else .ok ()) = .ok () := by
  unfold Acceptable
  by_cases hgrow : settings.autoGrow = true
  · rw [if_pos hgrow]
    exact ⟨fun h => h hgrow, fun h _ => h⟩
  · rw [if_neg hgrow]
    exact ⟨fun _ => rfl, fun _ h => absurd h hgrow⟩

/-! ## §2. Opening. -/

/-- `w` is what opening comes to where `v` is attested. -/
structure Reopened (v : Vault) (settings : Settings) (w : Vault) : Prop where
  superblock : w.superblock = v.superblock
  slot : w.slot = v.slot
  directory : w.directory = v.directory
  settings : w.settings = settings
  total : w.blocks.total = v.superblock.totalBlocks
  sound : w.Sound

/-- **Opening an image that attests a vault** comes to that vault, with a map
rebuilt from its extents. -/
theorem mount_of_attested {v : Vault} {t : Watched} (hs : v.Sound) (h : v.Attested t.image)
    (hcovers : v.Covers t.image) (haddress : v.Addressable) (hI : I t) (settings : Settings) :
    (mount settings).Ensures F I t fun result t' => t' = t ∧
      match result with
      | .ok w => v.Reopened settings w
      | .error _ => F.read ∨ ¬ Acceptable settings := by
  unfold mount
  rw [Script.ensures_andThen]
  cases hsettings : (if settings.autoGrow = true then settings.check else .ok ()) with
  -- settings that may grow the vault are checked first
  | error e =>
    refine ⟨rfl, Or.inr fun hacceptable => ?_⟩
    rw [(acceptable_iff settings).mp hacceptable] at hsettings
    cases hsettings
  | ok u =>
    show Script.Ensures F I (Script.andThen _ _) t _
    rw [Script.ensures_andThen]
    refine (survey_of_attested hs h hcovers haddress hI).mono ?_
    intro result t' hend
    obtain ⟨rfl, hfound⟩ := hend
    cases result with
    | error e => exact ⟨rfl, Or.inl hfound⟩
    | ok x =>
      exact ⟨rfl, hfound.sameSuperblock, hfound.sameSlot, hfound.sameDirectory, rfl,
        by rw [hfound.total, hfound.sameSuperblock], hfound.sound settings⟩

/-! ## §3. Reading. -/

/-- The bytes of the blocks of a stream are at their address in the image. -/
theorem read_place {v : Vault} (hs : v.Sound) (haddress : v.Addressable) {e : Entry}
    (he : e ∈ v.streams) (hne : e.extent.count.toNat ≠ 0) :
    (v.blockOffset e.extent.start).toNat = e.extent.start.toNat * v.width
      ∧ (e.extent.capacity v.superblock.blockSize).toNat = e.extent.count.toNat * v.width := by
  have hfits : e.extent.Fits v.superblock.totalBlocks :=
    hs.below _ (List.mem_cons_of_mem _ (List.mem_cons_of_mem _
      (List.mem_map.mpr ⟨e, he, rfl⟩)))
  obtain ⟨hoffset, hcapacity, _⟩ := toNat_blockOffset haddress hfits hs.committed hne
  exact ⟨hoffset, hcapacity⟩

/-- Reading a stream gives the bytes of its blocks, up to its length. -/
theorem read_ensures {v : Vault} {t : Watched} {name : String} {e : Entry} (hs : v.Sound)
    (haddress : v.Addressable) (hbounds : v.InBounds t.image)
    (hfind : v.directory.find? name = some e) (hI : I t) :
    (read name v).Ensures F I t fun outcome t' => t' = t ∧ outcome.2 = v ∧
      match outcome.1 with
      | .ok bytes => bytes = (v.streamIn t.image e).bytes
      | .error _ => F.read := by
  obtain ⟨he, _⟩ := Directory.find?_mem hfind
  have hcheck := hs.valid.sound e he
  unfold read
  rw [Action.ensures_vault, Action.ensures_bind, entry, hfind]
  show Action.Beyond F I _ _ (.ok e, v) t
  rw [Action.Beyond]
  by_cases hempty : e.extent.count.toNat = 0
  · rw [if_pos ((Extent.isEmpty_iff _).mpr hempty)]
    refine ⟨rfl, rfl, ?_⟩
    show ByteArray.empty = Bytes.slice _ _ _
    -- without blocks there is nothing to read
    rw [length_eq_zero hcheck hempty, Bytes.slice_zero]
  · rw [if_neg (fun hzero => hempty ((Extent.isEmpty_iff _).mp hzero)), Action.ensures_bind]
    obtain ⟨hoffset, hcapacity⟩ := read_place hs haddress he hempty
    have hstop := hbounds e he hempty
    have hsum := Nat.add_mul e.extent.start.toNat e.extent.count.toNat v.width
    have hlength : e.length.toNat ≤ e.extent.count.toNat * v.width :=
      length_le_capacity hcheck
    refine ⟨hI, fun result hreads => ?_⟩
    rw [hoffset, show (e.extent.capacity v.blockSize).toNat = _ from hcapacity] at hreads
    cases hreads with
    -- the blocks are in the image, so the read is not out of range
    | failed hfailed err =>
      refine ⟨rfl, rfl, hfailed.resolve_right ?_⟩
      omega
    | whole _ =>
      refine ⟨rfl, rfl, ?_⟩
      show ByteArray.extract _ 0 e.length.toNat = Bytes.slice _ _ _
      rw [Bytes.extract_eq_slice, Bytes.slice_slice _ (by omega), Nat.add_zero]

/-- Reading all streams gives the contents. -/
theorem readAll_ensures {v : Vault} {t : Watched} (hs : v.Sound) (haddress : v.Addressable)
    (hbounds : v.InBounds t.image) (hI : I t) {entries : List Entry}
    (hentries : ∀ e ∈ entries, e ∈ v.streams) :
    (readAll entries v).Ensures F I t fun outcome t' => t' = t ∧ outcome.2 = v ∧
      match outcome.1 with
      | .ok streams => streams = entries.map (v.streamIn t.image)
      | .error _ => F.read := by
  induction entries with
  | nil => exact ⟨rfl, rfl, rfl⟩
  | cons e rest ih =>
    obtain ⟨he, hrest⟩ := List.forall_mem_cons.mp hentries
    -- names are distinct, so the entry is the one found by its name
    have hfind := hs.valid.find?_of_mem he
    rw [readAll, Action.ensures_bind]
    refine (read_ensures hs haddress hbounds hfind hI).mono ?_
    intro outcome t' hend
    obtain ⟨result, w⟩ := outcome
    obtain ⟨rfl, rfl, hread⟩ := hend
    cases result with
    | error err => exact ⟨rfl, rfl, hread⟩
    | ok bytes =>
      rw [Action.Beyond, Action.ensures_bind]
      refine (ih hrest).mono ?_
      intro outcome t'' hend
      obtain ⟨result, x⟩ := outcome
      obtain ⟨rfl, rfl, hall⟩ := hend
      cases result with
      | error err => exact ⟨rfl, rfl, hall⟩
      | ok streams =>
        refine ⟨rfl, rfl, ?_⟩
        show _ :: streams = _
        rw [List.map_cons, hall, hread]
        rfl

/-! ## §4. What is attested is shown. -/

/-- The streams lie in the committed part of the image. -/
theorem room_inBounds {v : Vault} (hs : v.Sound) {image : Image} (hcovers : v.Covers image) :
    v.InBounds image := by
  intro e he hne
  have hfits : e.extent.Fits v.superblock.totalBlocks :=
    hs.below _ (List.mem_cons_of_mem _ (List.mem_cons_of_mem _
      (List.mem_map.mpr ⟨e, he, rfl⟩)))
  exact Nat.le_trans (Nat.mul_le_mul_right _ (hfits.resolve_left hne)) hcovers

/-- The map may have lost uncommitted growth, so it is still addressable. -/
theorem Reopened.addressable {v w : Vault} {settings : Settings} (h : v.Reopened settings w)
    (hs : v.Sound) (haddress : v.Addressable) : w.Addressable := by
  have hcommitted := Nat.mul_le_mul_right v.width hs.committed
  unfold Addressable at haddress ⊢
  rw [h.total, width_congr h.superblock]
  omega

theorem Reopened.covers {v w : Vault} {settings : Settings} (h : v.Reopened settings w)
    {image : Image} (hcovers : v.Covers image) : w.Covers image :=
  hcovers.congr h.superblock rfl

/-- A medium that does not fail can be opened when its image attests a vault,
with any settings that can be used. -/
theorem mounts_of_attested {μ : Type} [Medium μ] {image : μ → Image}
    (hobeys : Obeys Failures.none image) {v : Vault} {m : μ} (hs : v.Sound)
    (h : v.Attested (image m)) (hcovers : v.Covers (image m)) (haddress : v.Addressable)
    {settings : Settings} (hsettings : Acceptable settings) :
    ∃ w m', (mount settings).run m = (.ok w, m') ∧ image m' = image m
      ∧ v.Reopened settings w := by
  obtain ⟨_, _, htime, hresult⟩ := (mount_of_attested (F := Failures.none) (I := fun _ => True)
    (t := ⟨image m, 0⟩) hs h hcovers haddress trivial settings).on_medium hobeys
  have hsame : image ((mount settings).run m).2 = image m := congrArg Watched.image htime
  cases hrun : (mount settings).run m with
  | mk result m' =>
    rw [hrun] at hsame hresult
    cases result with
    | error e => exact absurd hsettings (hresult.resolve_left id)
    | ok w => exact ⟨w, m', rfl, hsame, hresult⟩

/-- **Opening an image that attests a vault shows its generation and its
streams**, with any settings that can be used. -/
theorem shown_of_attested {v : Vault} {image : Image} (hs : v.Sound) (h : v.Attested image)
    (hcovers : v.Covers image) (haddress : v.Addressable) {settings : Settings}
    (hsettings : Acceptable settings) :
    shown settings image = .ok ⟨v.generation, v.contents image⟩ := by
  obtain ⟨w, m, hrun, hsame, hresult⟩ :=
    mounts_of_attested image_obeys (m := image) hs h hcovers haddress hsettings
  have hsame : m = image := hsame
  obtain ⟨_, _, _, _, hstreams⟩ := (readAll_ensures (F := Failures.none) (I := fun _ => True)
    (t := ⟨image, 0⟩) hresult.sound (hresult.addressable hs haddress)
    (room_inBounds hresult.sound (hresult.covers hcovers)) trivial
    (fun e (he : e ∈ w.streams) => he)).on_medium image_obeys
  unfold shown
  rw [hrun, hsame]
  simp only []
  -- on an image no read fails
  cases hall : (readAll w.streams w).run image with
  | mk outcome image' =>
    obtain ⟨result, x⟩ := outcome
    rw [hall] at hstreams
    cases result with
    | error e => exact absurd hstreams id
    | ok streams =>
      show Except.ok (Contents.mk w.generation streams) = _
      rw [show streams = w.contents image from hstreams, contents_congr hresult.superblock
        hresult.directory, generation, hresult.superblock]
      rfl

end StateVault.Vault
