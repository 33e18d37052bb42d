/-
  StateVault.Proofs.Storage.Backends
  ──────────────────────────────────
  **AN IMAGE IN MEMORY AND AN IMAGE IN A FILE ARE ONE RANGE OF BYTES.**

  What a medium that starts out empty has to answer is told by the calls made
  on it so far, and by nothing else (`Operations.expected`): its length is the
  one last set, and a byte is that of the last write that went through there,
  unless the medium has since been cut off before it.  The memory goes to each
  range with one cursor, the file keeps a length of its own beside that of its
  content; both do to their bytes what a plain image does, and the image does
  what the history says.

    • `Operations.Shown.perform` — one call on the plain image,
    • `Memory.mirrors`, `DiskFile.mirrors` — each call on either of the two,
    • `Mirrors.replay`           — many calls, by induction on the history,
    • `one_range`                — both media, after any calls.
-/
import StateVault.Proofs.Storage.InMemory
import StateVault.Storage.DiskFile

namespace StateVault

/-! ## §1. Calls and histories. -/

/-- A call on a medium, with all that it is given. -/
inductive Operation where
  | size
  | isEmpty
  | read (offset count : Nat)
  | write (offset : Nat) (data : ByteArray)
  | setLength (length : Nat)
  | sync

/-- What a call answers. -/
inductive Operation.Answer where
  | number (n : Nat)
  | truth (b : Bool)
  | bytes (result : Except Error ByteArray)
  | done (result : Except Error Unit)

/-- A call is refused when it answers with an error. -/
def Operation.Answer.Refused : Operation.Answer → Prop
  | bytes (.error _) | done (.error _) => True
  | _ => False

namespace Operation

variable {μ : Type} [Medium μ]

def perform : Operation → μ → Answer × μ
  | size, m => (.number (Medium.size m), m)
  | isEmpty, m => (.truth (Medium.isEmpty m), m)
  | read offset count, m =>
      (.bytes (Medium.read offset count m).1, (Medium.read offset count m).2)
  | write offset data, m =>
      (.done (Medium.write offset data m).1, (Medium.write offset data m).2)
  | setLength length, m =>
      (.done (Medium.setLength length m).1, (Medium.setLength length m).2)
  | sync, m => (.done (Medium.sync m).1, (Medium.sync m).2)

end Operation

/-- The calls made so far, the last one first. -/
abbrev Operations := List Operation

namespace Operations

/-- The medium after all of the calls. -/
def replay {μ : Type} [Medium μ] (start : μ) : Operations → μ
  | [] => start
  | op :: earlier => (op.perform (replay start earlier)).2

/-- The length that was last set. -/
def length : Operations → Nat
  | [] => 0
  | .setLength n :: _ => n
  | _ :: earlier => length earlier

/-- The byte that the last write to go through at place `i` has put there,
since the medium was last shortened to `i` or below; none if no write has. -/
def lastWritten (i : Nat) : Operations → Option UInt8
  | [] => none
  | .write offset data :: earlier =>
      if offset + data.size ≤ length earlier ∧ offset ≤ i ∧ i < offset + data.size then
        data.data[i - offset]?
      else lastWritten i earlier
  | .setLength n :: earlier =>
      if n < length earlier ∧ n ≤ i then none else lastWritten i earlier
  | _ :: earlier => lastWritten i earlier

/-- The byte at place `i`; what was never written is zero. -/
def byteAt (history : Operations) (i : Nat) : UInt8 :=
  (history.lastWritten i).getD 0

/-- The `count` bytes from `offset`. -/
def bytesAt (history : Operations) (offset count : Nat) : ByteArray :=
  ⟨Array.ofFn fun k : Fin count => history.byteAt (offset + k)⟩

/-- What the next call has to answer. -/
def expected (history : Operations) : Operation → Operation.Answer
  | .size => .number history.length
  | .isEmpty => .truth (history.length == 0)
  | .read offset count => .bytes <|
      if offset + count ≤ history.length then .ok (history.bytesAt offset count)
      else .error (.outOfRange ⟨offset, count, history.length⟩)
  | .write offset data => .done <|
      if offset + data.size ≤ history.length then .ok ()
      else .error (.outOfRange ⟨offset, data.size, history.length⟩)
  | .setLength _ => .done (.ok ())
  | .sync => .done (.ok ())

/-- The bytes a history shows in a range, place by place. -/
theorem getElem?_bytesAt (history : Operations) (offset count k : Nat) :
    (history.bytesAt offset count).data[k]?
      = if k < count then some (history.byteAt (offset + k)) else none := by
  rw [bytesAt, Array.getElem?_ofFn]
  by_cases h : k < count
  · rw [dif_pos h, if_pos h]
  · rw [dif_neg h, if_neg h]

/-! ## §2. The plain image. -/

/-- An image is what the history has made: as long as was last set, and with
the byte at each place that was last written there.  Past the end nothing
counts as written, so that zeros come when the image is made longer. -/
structure Shown (history : Operations) (image : Image) : Prop where
  size : image.size = history.length
  byte : ∀ i, i < image.size → image.data[i]? = some (history.byteAt i)
  beyond : ∀ i, image.size ≤ i → history.lastWritten i = none

/-- Before any call there are no bytes. -/
theorem Shown.empty : Shown [] ByteArray.empty where
  size := rfl
  byte i hi := absurd hi (Nat.not_lt_zero i)
  beyond _ _ := rfl

namespace Shown

variable {history : Operations} {image : Image}

/-- A read within the image gives the bytes the history shows there. -/
theorem slice (h : Shown history image) {offset count : Nat}
    (hfits : offset + count ≤ image.size) :
    Bytes.slice image offset count = history.bytesAt offset count := by
  apply Bytes.ext_getElem?
  intro k
  rw [Bytes.getElem?_slice, getElem?_bytesAt]
  by_cases hk : k < count
  · rw [if_pos hk, if_pos hk, h.byte (offset + k) (by omega)]
  · rw [if_neg hk, if_neg hk]

/-- A write that goes through. -/
theorem overlay (h : Shown history image) {offset : Nat} {data : ByteArray}
    (hfits : offset + data.size ≤ image.size) :
    Shown (.write offset data :: history) (Bytes.overlay image offset data) := by
  have hsize := Bytes.size_overlay image offset data hfits
  have hroom : offset + data.size ≤ history.length := h.size ▸ hfits
  constructor
  · exact hsize.trans h.size
  · intro i hi
    rw [hsize] at hi
    rw [Bytes.getElem?_overlay hfits, byteAt, lastWritten]
    -- inside the range the write is the last one to the place, outside it covers nothing
    by_cases hin : offset ≤ i ∧ i < offset + data.size
    · have hinside : i - offset < data.size := by omega
      obtain ⟨b, hb⟩ := Bytes.exists_getElem? hinside
      rw [if_pos hin, if_pos ⟨hroom, hin⟩, hb, Option.getD_some]
    · rw [if_neg hin, if_neg fun hcovers => hin hcovers.2]
      exact h.byte i hi
  · intro i hi
    rw [hsize] at hi
    -- past the end no write has ever landed
    rw [lastWritten, if_neg fun hcovers => by omega]
    exact h.beyond i hi

/-- A write that does not go through. -/
theorem overrun (h : Shown history image) {offset : Nat} {data : ByteArray}
    (hover : ¬ offset + data.size ≤ image.size) :
    Shown (.write offset data :: history) image := by
  have hnone : ¬ offset + data.size ≤ history.length := h.size ▸ hover
  have hsame : ∀ i, lastWritten i (.write offset data :: history) = history.lastWritten i :=
    fun i => if_neg fun hcovers => hnone hcovers.1
  constructor
  · exact h.size
  · intro i hi
    rw [byteAt, hsame]
    exact h.byte i hi
  · intro i hi
    rw [hsame]
    exact h.beyond i hi

/-- A new length. -/
theorem resized (h : Shown history image) (n : Nat) :
    Shown (.setLength n :: history) (Bytes.resized image n) := by
  have hsize := Bytes.size_resized image n
  constructor
  · exact hsize
  · intro i hi
    rw [hsize] at hi
    rw [Bytes.getElem?_resized, if_pos hi, byteAt, lastWritten,
      if_neg fun hcut => absurd hi (Nat.not_lt.mpr hcut.2)]
    by_cases hold : i < image.size
    · rw [h.byte i hold, Option.getD_some, byteAt]
    · -- a place that the image gains
      have hpast : image.size ≤ i := Nat.not_lt.mp hold
      rw [Bytes.getElem?_eq_none_iff.mpr hpast, h.beyond i hpast]
  · intro i hi
    rw [hsize] at hi
    rw [lastWritten]
    by_cases hcut : n < history.length
    · exact if_pos ⟨hcut, hi⟩
    · rw [if_neg fun hboth => hcut hboth.1]
      have hlength := h.size
      exact h.beyond i (by omega)

/-- A call on the plain image answers what the history expects, and leaves
what the longer history has made. -/
theorem perform (h : Shown history image) (op : Operation) :
    (op.perform image).1 = history.expected op
    ∧ Shown (op :: history) (op.perform image).2 := by
  cases op with
  | size => exact ⟨congrArg Operation.Answer.number h.size, h.size, h.byte, h.beyond⟩
  | isEmpty =>
    exact ⟨congrArg (fun n => Operation.Answer.truth (n == 0)) h.size, h.size, h.byte, h.beyond⟩
  -- reads and writes fit the image exactly when they fit the length of the history
  | read offset count =>
    show Operation.Answer.bytes (Image.read offset count image).1 = _
      ∧ Shown _ (Image.read offset count image).2
    rw [expected, ← h.size]
    by_cases hfits : offset + count ≤ image.size
    · rw [Image.read_of_fits hfits, if_pos hfits, h.slice hfits]
      exact ⟨rfl, h.size, h.byte, h.beyond⟩
    · rw [Image.read_of_overrun hfits, if_neg hfits]
      exact ⟨rfl, h.size, h.byte, h.beyond⟩
  | write offset data =>
    show Operation.Answer.done (Image.write offset data image).1 = _
      ∧ Shown _ (Image.write offset data image).2
    rw [expected, ← h.size]
    by_cases hfits : offset + data.size ≤ image.size
    · rw [Image.write_of_fits hfits, if_pos hfits]
      exact ⟨rfl, h.overlay hfits⟩
    · rw [Image.write_of_overrun hfits, if_neg hfits]
      exact ⟨rfl, h.overrun hfits⟩
  | setLength n => exact ⟨rfl, h.resized n⟩
  | sync => exact ⟨rfl, h.size, h.byte, h.beyond⟩

end Shown

end Operations

/-! ## §3. Media that do what the image does. -/

section Media

variable {μ : Type} [Medium μ] {view : μ → Image} {Good : μ → Prop}

/-- On the states in `Good`, and they are not left, the calls do to the bytes
`view m` what they do to a plain image; one out of range leaves the medium as
it was, down to its last field. -/
structure Mirrors (view : μ → Image) (Good : μ → Prop) : Prop where
  size : ∀ {m}, Good m → Medium.size m = (view m).size
  read : ∀ {m offset count}, Good m → offset + count ≤ (view m).size →
    ∃ m', Medium.read offset count m = (.ok (Bytes.slice (view m) offset count), m')
      ∧ Good m' ∧ view m' = view m
  read_refused : ∀ {m offset count}, Good m → ¬ offset + count ≤ (view m).size →
    Medium.read offset count m = (.error (.outOfRange ⟨offset, count, (view m).size⟩), m)
  write : ∀ {m offset data}, Good m → offset + data.size ≤ (view m).size →
    ∃ m', Medium.write offset data m = (.ok (), m')
      ∧ Good m' ∧ view m' = Bytes.overlay (view m) offset data
  write_refused : ∀ {m offset data}, Good m → ¬ offset + data.size ≤ (view m).size →
    Medium.write offset data m
      = (.error (.outOfRange ⟨offset, data.size, (view m).size⟩), m)
  setLength : ∀ {m length}, Good m → ∃ m', Medium.setLength length m = (.ok (), m')
    ∧ Good m' ∧ view m' = Bytes.resized (view m) length
  sync : ∀ {m}, Good m → Medium.sync m = (.ok (), m)

namespace Mirrors

/-- Reads keep the content, whether they go through or not. -/
theorem view_read (h : Mirrors view Good) {m : μ} (hm : Good m) (offset count : Nat) :
    view (Medium.read offset count m).2 = view m := by
  by_cases hfits : offset + count ≤ (view m).size
  · obtain ⟨m', hread, -, hview⟩ := h.read hm hfits
    rw [hread]
    exact hview
  · rw [h.read_refused hm hfits]

/-- A call on such a medium is the call on its image. -/
theorem perform (h : Mirrors view Good) {m : μ} (hm : Good m) (op : Operation) :
    (op.perform m).1 = (op.perform (view m)).1
    ∧ view (op.perform m).2 = (op.perform (view m)).2
    ∧ Good (op.perform m).2
    ∧ ((op.perform m).1.Refused → (op.perform m).2 = m) := by
  cases op with
  | size => exact ⟨congrArg Operation.Answer.number (h.size hm), rfl, hm, fun _ => rfl⟩
  | isEmpty =>
    exact ⟨congrArg (fun n => Operation.Answer.truth (n == 0)) (h.size hm), rfl, hm, fun _ => rfl⟩
  -- what fits is decided by the image, so both sides take the same branch
  | read offset count =>
    simp only [Operation.perform]
    by_cases hfits : offset + count ≤ (view m).size
    · obtain ⟨m', hread, hgood, hview⟩ := h.read hm hfits
      rw [hread, show Medium.read offset count (view m) = _ from Image.read_of_fits hfits]
      exact ⟨rfl, hview, hgood, fun hrefused => nomatch hrefused⟩
    · rw [h.read_refused hm hfits,
        show Medium.read offset count (view m) = _ from Image.read_of_overrun hfits]
      exact ⟨rfl, rfl, hm, fun _ => rfl⟩
  | write offset data =>
    simp only [Operation.perform]
    by_cases hfits : offset + data.size ≤ (view m).size
    · obtain ⟨m', hwrite, hgood, hview⟩ := h.write hm hfits
      rw [hwrite, show Medium.write offset data (view m) = _ from Image.write_of_fits hfits]
      exact ⟨rfl, hview, hgood, fun hrefused => nomatch hrefused⟩
    · rw [h.write_refused hm hfits,
        show Medium.write offset data (view m) = _ from Image.write_of_overrun hfits]
      exact ⟨rfl, rfl, hm, fun _ => rfl⟩
  | setLength n =>
    obtain ⟨m', hset, hgood, hview⟩ : ∃ m', Medium.setLength n m = (.ok (), m') ∧ Good m'
      ∧ view m' = Bytes.resized (view m) n := h.setLength hm
    simp only [Operation.perform]
    rw [hset]
    exact ⟨rfl, hview, hgood, fun hrefused => nomatch hrefused⟩
  | sync =>
    simp only [Operation.perform]
    rw [h.sync hm]
    exact ⟨rfl, rfl, hm, fun _ => rfl⟩

/-- After any calls such a medium shows what their history has made. -/
theorem replay (h : Mirrors view Good) {start : μ} (hstart : Good start)
    (hempty : view start = ByteArray.empty) (history : Operations) :
    Good (history.replay start) ∧ history.Shown (view (history.replay start)) := by
  induction history with
  | nil => exact ⟨hstart, hempty ▸ Operations.Shown.empty⟩
  | cons op earlier ih =>
    obtain ⟨hgood, hshown⟩ := ih
    obtain ⟨-, hview, hgood', -⟩ := h.perform hgood op
    exact ⟨hgood', hview ▸ (hshown.perform op).2⟩

end Mirrors

end Media

/-- The memory does so in every state: no call depends on where the one before
has left the cursor. -/
theorem Memory.mirrors : Mirrors Memory.image fun _ => True where
  size _ := rfl
  read {m offset count} _ hfits := by
    refine ⟨⟨⟨m.image, offset + count⟩⟩, ?_, trivial, rfl⟩
    show access offset count (Cursor.take count) m = _
    rw [access_of_fits _ hfits, Cursor.take_apply hfits]
  read_refused _ hover := access_of_overrun _ hover
  write {m offset data} _ hfits := by
    have hput : Cursor.put data ⟨m.image, offset⟩
        = .ok () ⟨Bytes.overlay m.image offset data, offset + data.size⟩ := if_pos hfits
    refine ⟨⟨⟨Bytes.overlay m.image offset data, offset + data.size⟩⟩, ?_, trivial, rfl⟩
    show access offset data.size (Cursor.put data) m = _
    rw [access_of_fits _ hfits, hput]
  write_refused _ hover := access_of_overrun _ hover
  setLength _ := ⟨_, rfl, trivial, rfl⟩
  sync _ := rfl

namespace DiskFile

/-- A write within the content is an overlay, also of no bytes. -/
theorem store_of_fits {content data : ByteArray} {place : Nat}
    (h : place + data.size ≤ content.size) :
    SystemFile.store content place data = Bytes.overlay content place data := by
  unfold SystemFile.store
  by_cases hempty : data.size = 0
  · rw [if_pos hempty]
    apply Bytes.ext_getElem?
    intro i
    rw [Bytes.getElem?_overlay h, if_neg (by omega)]
  · rw [if_neg hempty, if_pos h]

/-- The file does so as long as it remembers the length that its content has. -/
theorem mirrors : Mirrors DiskFile.content fun f => f.length = f.content.size where
  size hgood := hgood
  read {f offset count} hgood hfits := by
    refine ⟨f, ?_, hgood, rfl⟩
    -- a recorded length that agrees with the file lets no short read happen
    have hwithin : within offset count f.length = .ok () := if_pos (hgood ▸ hfits)
    show DiskFile.read offset count f = _
    rw [DiskFile.read, hwithin]
    exact congrArg (·, f) (if_pos (.inr hfits))
  read_refused {f offset count} hgood hover := by
    have hwithin : within offset count f.length
        = .error (.outOfRange ⟨offset, count, f.content.size⟩) := by
      rw [hgood]
      exact if_neg hover
    show DiskFile.read offset count f = _
    rw [DiskFile.read, hwithin]
  write {f offset data} hgood hfits := by
    -- a write inside the file leaves its length, so the recorded one still agrees
    have hstore := store_of_fits hfits
    refine ⟨{ f with content := Bytes.overlay f.content offset data }, ?_, ?_, rfl⟩
    · have hwithin : within offset data.size f.length = .ok () := if_pos (hgood ▸ hfits)
      show DiskFile.write offset data f = _
      rw [DiskFile.write, hwithin, hstore]
    · exact hgood.trans (Bytes.size_overlay _ _ _ hfits).symm
  write_refused {f offset data} hgood hover := by
    have hwithin : within offset data.size f.length
        = .error (.outOfRange ⟨offset, data.size, f.content.size⟩) := by
      rw [hgood]
      exact if_neg hover
    show DiskFile.write offset data f = _
    rw [DiskFile.write, hwithin]
  setLength _ := ⟨_, rfl, (Bytes.size_resized _ _).symm, rfl⟩
  sync _ := rfl

end DiskFile

/-! ## §4. Both, after any calls. -/

/-- A medium that is, after the calls of a history, the range of bytes that
these have made. -/
structure Realises {μ : Type} [Medium μ] (view : μ → Image) (history : Operations) (m : μ) :
    Prop where
  /-- Each next call answers what the history tells. -/
  answers : ∀ op : Operation, (op.perform m).1 = history.expected op
  /-- The content is the bytes that the history tells. -/
  content : view m = history.bytesAt 0 history.length
  /-- A call that is refused changes nothing. -/
  refused : ∀ op : Operation, (history.expected op).Refused → (op.perform m).2 = m
  /-- A read does not change the content. -/
  read_keeps : ∀ offset count, view ((Operation.read offset count).perform m).2 = view m

/-- **A medium that mirrors the image realises every history**: expected answers,
the bytes of the history, and no change by a refused call. -/
theorem Mirrors.realises {μ : Type} [Medium μ] {view : μ → Image} {Good : μ → Prop}
    (h : Mirrors view Good) {start : μ} (hstart : Good start)
    (hempty : view start = ByteArray.empty) (history : Operations) :
    Realises view history (history.replay start) := by
  obtain ⟨hgood, hshown⟩ := h.replay hstart hempty history
  have hanswers : ∀ op : Operation, (op.perform (history.replay start)).1 = history.expected op :=
    fun op => (h.perform hgood op).1.trans (hshown.perform op).1
  constructor
  · exact hanswers
  · rw [← hshown.size, ← hshown.slice (Nat.le_of_eq (Nat.zero_add _))]
    -- reading everything there is gives back the image itself
    apply Bytes.ext_getElem?
    intro i
    rw [Bytes.getElem?_slice, Nat.zero_add]
    by_cases hi : i < (view (history.replay start)).size
    · rw [if_pos hi]
    · rw [if_neg hi, Bytes.getElem?_eq_none_iff]
      exact Nat.not_lt.mp hi
  · intro op hrefused
    rw [← hanswers op] at hrefused
    exact (h.perform hgood op).2.2.2 hrefused
  · exact h.view_read hgood

/-- **After any calls, refused ones among them, the image in memory and the
image in a file are the same range of bytes**, the one that the history of the
calls tells; so the two answer every next call alike. -/
theorem one_range (history : Operations) :
    Realises Memory.image history (history.replay Memory.empty)
    ∧ Realises DiskFile.content history (history.replay DiskFile.create)
    ∧ ∀ op : Operation, (op.perform (history.replay Memory.empty)).1
        = (op.perform (history.replay DiskFile.create)).1 := by
  have hmemory : Realises Memory.image history (history.replay Memory.empty) :=
    Memory.mirrors.realises trivial rfl history
  have hdisk : Realises DiskFile.content history (history.replay DiskFile.create) :=
    DiskFile.mirrors.realises rfl rfl history
  exact ⟨hmemory, hdisk, fun op => (hmemory.answers op).trans (hdisk.answers op).symm⟩

-- cut off after two bytes and made longer again, it has the first of the two
-- bytes that were written, and a zero for the second
example : Operations.bytesAt [.setLength 4, .setLength 2, .write 1 [7, 8].toByteArray, .setLength 4]
    0 4 = [0, 7, 0, 0].toByteArray := by
  decide +kernel

end StateVault
