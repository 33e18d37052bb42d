/-
  StateVault.Proofs.Storage.Failures
  ──────────────────────────────────
  **WHAT A SCRIPT ENSURES ON A MEDIUM WHOSE CALLS MAY FAIL.**

  `Failures` says which calls of a medium may fail, and how much of a failing
  write may land.  `Ensures F I s t Q` says of a script `s` on the bytes `t`:
  whichever of those calls fail, after each call the bytes satisfy `I`, and
  at the end answer and bytes satisfy `Q`.  Beside the bytes stands a count
  of the writes that went through at one of the two places of the
  superblock (`Watched`).

    • `ensures_bind`           — one script after another,
    • `Ensures.combine`        — two things ensured of one script together;
                                 a weaker end and a weaker `I` follow, and
                                 what the answers alone give may be added,
    • `Action.ensures_bind`, `Action.ensures_onError` — the same for actions.
-/
import StateVault.Proofs.Storage.Answers
import StateVault.Storage.Faults
import StateVault.Vault.Action

namespace StateVault

/-! ## §1. Failures of single calls. -/

/-- Which calls may fail. -/
structure Failures where
  read : Prop
  write : Prop
  /-- Whether a failing write of `count` bytes may land the first `landed`. -/
  tear : (count landed : Nat) → Prop
  setLength : Prop
  sync : Prop

namespace Failures

/-- No call fails. -/
def none : Failures :=
  ⟨False, False, fun _ _ => False, False, False⟩

/-- Any call may fail, and a failing write may land any of its bytes. -/
def any : Failures :=
  ⟨True, True, fun _ _ => True, True, True⟩

/-- What a read of an image may answer. -/
inductive Reads (F : Failures) (offset count : Nat) (image : Image) :
    Except Error ByteArray → Prop where
  | whole (h : offset + count ≤ image.size) :
      Reads F offset count image (.ok (Bytes.slice image offset count))
  | failed (h : F.read ∨ image.size < offset + count) (e : Error) :
      Reads F offset count image (.error e)

/-- What a write to an image may answer, and the image after it. -/
inductive Writes (F : Failures) (offset : Nat) (data : ByteArray) (image : Image) :
    Except Error Unit → Image → Prop where
  | whole (h : offset + data.size ≤ image.size) :
      Writes F offset data image (.ok ()) (Bytes.overlay image offset data)
  | refused (h : F.write ∨ image.size < offset + data.size) (e : Error) :
      Writes F offset data image (.error e) image
  | torn (landed : Nat) (h : F.tear data.size landed)
      (hin : offset + (data.extract 0 landed).size ≤ image.size) (e : Error) :
      Writes F offset data image (.error e)
        (Bytes.overlay image offset (data.extract 0 landed))

/-- What a new length may answer, and the image after it. -/
inductive Sets (F : Failures) (length : Nat) (image : Image) :
    Except Error Unit → Image → Prop where
  | whole : Sets F length image (.ok ()) (Bytes.resized image length)
  | failed (h : F.setLength) (e : Error) : Sets F length image (.error e) image

/-- What a sync may answer. -/
inductive Syncs (F : Failures) : Except Error Unit → Prop where
  | whole : Syncs F (.ok ())
  | failed (h : F.sync) (e : Error) : Syncs F (.error e)

section Mono

variable {F F' : Failures}

/-- What a write may do where less can fail, it may do where more can. -/
theorem Writes.mono (hwrite : F.write → F'.write)
    (htear : ∀ count landed, F.tear count landed → F'.tear count landed) {offset : Nat}
    {data : ByteArray} {image image' : Image} {result : Except Error Unit}
    (h : F.Writes offset data image result image') :
    F'.Writes offset data image result image' := by
  cases h with
  | whole hin => exact .whole hin
  | refused hcause e => exact .refused (hcause.imp_left hwrite) e
  | torn landed hlanded hin e => exact .torn landed (htear _ _ hlanded) hin e

theorem Sets.mono (hset : F.setLength → F'.setLength) {length : Nat} {image image' : Image}
    {result : Except Error Unit} (h : F.Sets length image result image') :
    F'.Sets length image result image' := by
  cases h with
  | whole => exact .whole
  | failed hcause e => exact .failed (hset hcause) e

theorem Syncs.mono (hsync : F.sync → F'.sync) {result : Except Error Unit}
    (h : F.Syncs result) : F'.Syncs result := by
  cases h with
  | whole => exact .whole
  | failed hcause e => exact .failed (hsync hcause) e

end Mono

end Failures

/-! ## §2. Watched bytes. -/

/-- The bytes of a medium, and how many writes at a place of the superblock
went through. -/
structure Watched where
  image : Image
  records : Nat

/-- Whether a write that went through is one at a place of the superblock. -/
def isRecord (offset : Nat) (result : Except Error Unit) : Bool :=
  (offset == Slot.first.offset || offset == Slot.second.offset) && result.isOk

/-- The bytes and the count after a write. -/
def Watched.written (t : Watched) (offset : Nat) (result : Except Error Unit) (image : Image) :
    Watched :=
  ⟨image, if isRecord offset result then t.records + 1 else t.records⟩

/-- A write that fails is not counted. -/
theorem Watched.written_error (t : Watched) (offset : Nat) (e : Error) (image : Image) :
    t.written offset (.error e) image = { t with image } := by
  have hnot : isRecord offset (.error e) = false := Bool.and_false _
  rw [written, hnot, if_neg Bool.false_ne_true]

namespace Script

variable {α β μ : Type} {F : Failures} {I : Watched → Prop}

/-- After each call the bytes satisfy `I`, and at the end answer and bytes
satisfy `Q`, whichever calls fail. -/
def Ensures (F : Failures) (I : Watched → Prop) :
    Script α → Watched → (α → Watched → Prop) → Prop
  | done a, t, Q => Q a t
  | size next, t, Q => (next t.image.size).Ensures F I t Q
  | read offset count next, t, Q =>
      I t ∧ ∀ result, F.Reads offset count t.image result → (next result).Ensures F I t Q
  | write offset data next, t, Q =>
      ∀ result image, F.Writes offset data t.image result image →
        I (t.written offset result image)
          ∧ (next result).Ensures F I (t.written offset result image) Q
  | setLength length next, t, Q =>
      ∀ result image, F.Sets length t.image result image →
        I { t with image } ∧ (next result).Ensures F I { t with image } Q
  | sync next, t, Q => I t ∧ ∀ result, F.Syncs result → (next result).Ensures F I t Q

/-! ## §3. Rules. -/

theorem ensures_done {Q : α → Watched → Prop} (a : α) (t : Watched) :
    (done a).Ensures F I t Q ↔ Q a t :=
  Iff.rfl

/-- What is ensured of one script after another: the second is ensured on every
end of the first. -/
theorem ensures_bind {Q : β → Watched → Prop} (s : Script α) (f : α → Script β) (t : Watched) :
    (s.bind f).Ensures F I t Q ↔ s.Ensures F I t fun a t => (f a).Ensures F I t Q := by
  induction s generalizing t with
  | done a => rfl
  | size next ih => exact ih _ t
  | read offset count next ih =>
      exact and_congr_right fun _ => forall_congr' fun result =>
        imp_congr_right fun _ => ih result t
  | write offset data next ih =>
      exact forall_congr' fun result => forall_congr' fun image =>
        imp_congr_right fun _ => and_congr_right fun _ => ih result _
  | setLength length next ih =>
      exact forall_congr' fun result => forall_congr' fun image =>
        imp_congr_right fun _ => and_congr_right fun _ => ih result _
  | sync next ih =>
      exact and_congr_right fun _ => forall_congr' fun result =>
        imp_congr_right fun _ => ih result t

/-- Two things ensured of one script are ensured together. -/
theorem Ensures.combine {J K : Watched → Prop} {P Q R : α → Watched → Prop} {s : Script α}
    {t : Watched} (h : s.Ensures F I t P) (h' : s.Ensures F J t Q)
    (hcalls : ∀ t, I t → J t → K t) (hend : ∀ a t, P a t → Q a t → R a t) :
    s.Ensures F K t R := by
  -- both speak of the same failures, so each call is opened once for the two
  induction s generalizing t with
  | done a => exact hend a t h h'
  | size next ih => exact ih _ h h'
  | read offset count next ih =>
      exact ⟨hcalls t h.1 h'.1, fun result hr => ih result (h.2 result hr) (h'.2 result hr)⟩
  | write offset data next ih =>
      intro result image hw
      obtain ⟨hnow, hrest⟩ := h result image hw
      obtain ⟨hnow', hrest'⟩ := h' result image hw
      exact ⟨hcalls _ hnow hnow', ih result hrest hrest'⟩
  | setLength length next ih =>
      intro result image hl
      obtain ⟨hnow, hrest⟩ := h result image hl
      obtain ⟨hnow', hrest'⟩ := h' result image hl
      exact ⟨hcalls _ hnow hnow', ih result hrest hrest'⟩
  | sync next ih =>
      exact ⟨hcalls t h.1 h'.1, fun result hr => ih result (h.2 result hr) (h'.2 result hr)⟩

/-- Less may be ensured of the end. -/
theorem Ensures.mono {P Q : α → Watched → Prop} {s : Script α} {t : Watched}
    (h : s.Ensures F I t P) (himp : ∀ a t, P a t → Q a t) : s.Ensures F I t Q :=
  h.combine h (fun _ hnow _ => hnow) fun a t hend _ => himp a t hend

/-- Less may be said of the bytes after each call. -/
theorem Ensures.weaken {J : Watched → Prop} {Q : α → Watched → Prop} {s : Script α} {t : Watched}
    (h : s.Ensures F I t Q) (himp : ∀ t, I t → J t) : s.Ensures F J t Q :=
  h.combine h (fun t hnow _ => himp t hnow) fun _ _ hend _ => hend

/-- What is ensured of the end alone may be added. -/
theorem Ensures.and_end {P Q : α → Watched → Prop} {s : Script α} {t : Watched}
    (h : s.Ensures F I t P) (h' : s.Ensures F (fun _ => True) t Q) :
    s.Ensures F I t fun a t => P a t ∧ Q a t :=
  h.combine h' (fun _ hnow _ => hnow) fun _ _ hend hend' => ⟨hend, hend'⟩

/-- What a script yields it ensures, whichever calls fail. -/
theorem Yields.ensures {Q : α → Prop} {s : Script α} (h : s.Yields Q) (t : Watched) :
    s.Ensures F (fun _ => True) t fun a _ => Q a := by
  induction s generalizing t with
  | done a => exact h
  | size next ih => exact ih _ (h _) t
  | read offset count next ih => exact ⟨trivial, fun result _ => ih result (h result) t⟩
  | write offset data next ih =>
      exact fun result image _ => ⟨trivial, ih result (h result) _⟩
  | setLength length next ih =>
      exact fun result image _ => ⟨trivial, ih result (h result) _⟩
  | sync next ih => exact ⟨trivial, fun result _ => ih result (h result) t⟩

/-- What a script yields may be added to what it ensures. -/
theorem Ensures.and_yields {P : α → Watched → Prop} {Q : α → Prop} {s : Script α} {t : Watched}
    (h : s.Ensures F I t P) (hy : s.Yields Q) :
    s.Ensures F I t fun a t => P a t ∧ Q a :=
  h.and_end (hy.ensures t)

theorem ensures_congr {P Q : α → Watched → Prop} (h : ∀ a t, P a t ↔ Q a t) (s : Script α)
    (t : Watched) : s.Ensures F I t P ↔ s.Ensures F I t Q :=
  ⟨fun hp => hp.mono fun a t => (h a t).mp, fun hq => hq.mono fun a t => (h a t).mpr⟩

/-- A script that the answer of another one chooses; a failure ends both. -/
theorem ensures_andThen {Q : Except Error β → Watched → Prop} (s : Script (Except Error α))
    (f : α → Script (Except Error β)) (t : Watched) :
    (s.andThen f).Ensures F I t Q ↔ s.Ensures F I t fun
      | .ok a, t => (f a).Ensures F I t Q
      | .error e, t => Q (.error e) t := by
  rw [andThen, ensures_bind]
  refine ensures_congr (fun result t => ?_) s t
  cases result with
  | ok a => exact Iff.rfl
  | error e => exact Iff.rfl

end Script

/-! ## §4. Actions. -/

namespace Action

variable {α β : Type} {F : Failures} {I : Watched → Prop}

/-- What an action after another one has to ensure for both to ensure `Q`. -/
def Beyond (F : Failures) (I : Watched → Prop) (Q : Except Error β × Vault → Watched → Prop)
    (f : α → Action β) : Except Error α × Vault → Watched → Prop
  | (.ok a, v), t => (f a v).Ensures F I t Q
  | (.error e, v), t => Q (.error e, v) t

/-- An action after another one; a failure of the first ends both. -/
theorem ensures_bind {Q : Except Error β × Vault → Watched → Prop} (x : Action α)
    (f : α → Action β) (v : Vault) (t : Watched) :
    ((x >>= f) v).Ensures F I t Q ↔ (x v).Ensures F I t (Beyond F I Q f) := by
  show ((x v).bind _).Ensures F I t Q ↔ _
  rw [Script.ensures_bind]
  refine Script.ensures_congr (fun outcome t => ?_) (x v) t
  obtain ⟨result, w⟩ := outcome
  cases result with
  | ok a => exact Iff.rfl
  | error e => exact Iff.rfl

theorem ensures_vault {Q : Except Error β × Vault → Watched → Prop} (f : Vault → Action β)
    (v : Vault) (t : Watched) :
    ((Action.vault >>= f) v).Ensures F I t Q ↔ (f v v).Ensures F I t Q :=
  Iff.rfl

/-- A script as an action leaves the vault alone. -/
theorem ensures_call {Q : Except Error α × Vault → Watched → Prop}
    (s : Script (Except Error α)) (v : Vault) (t : Watched) :
    (call s v).Ensures F I t Q ↔ s.Ensures F I t fun result t => Q (result, v) t := by
  show (s.bind _).Ensures F I t Q ↔ _
  rw [Script.ensures_bind]
  exact Iff.rfl

/-- A repair changes the vault after a failure, and no byte. -/
theorem ensures_onError {Q : Except Error α × Vault → Watched → Prop} (x : Action α)
    (repair : Vault → Vault) (v : Vault) (t : Watched) :
    (x.onError repair v).Ensures F I t Q ↔ (x v).Ensures F I t fun
      | (.ok a, w), t => Q (.ok a, w) t
      | (.error e, w), t => Q (.error e, repair w) t := by
  unfold onError
  rw [Script.ensures_bind]
  refine Script.ensures_congr (fun outcome t => ?_) (x v) t
  obtain ⟨result, w⟩ := outcome
  cases result with
  | ok a => exact Iff.rfl
  | error e => exact Iff.rfl

end Action

end StateVault
