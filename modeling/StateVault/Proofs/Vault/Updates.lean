/-
  StateVault.Proofs.Vault.Updates
  ───────────────────────────────
  **A REQUEST OF ONE COMMIT IS DONE WITH ITS RECORD, OR NOT AT ALL.**

  Writing a stream, deleting one and making the vault larger take one commit
  each.  Until the record of that is written the image is undecided; from
  then on it holds the vault with the request done (`Request.Made`).  A
  request that fails leaves a vault that differs in its block map at most
  (`Unmade`).  What such a request does to the streams, to the record and to
  the length of the image is read off from this.

    • `Request.ensures_end` — a request of one commit, call by call.
-/
import StateVault.Proofs.Vault.Packed
import StateVault.Proofs.Vault.Requests

namespace StateVault.Vault

variable {F : Failures} {I : Watched → Prop} {v w : Vault} {t t' : Watched}

/-! ## §1. What comes of a request. -/

/-- What a request that goes through makes of the streams. -/
def Request.change : Request → List Stream → List Stream
  | .write name data, streams => Stream.put
      ⟨name, Stream.flagsOf name streams, UInt64.ofNat data.bytes.size, data.bytes⟩ streams
  | .writeWith name data flags, streams => Stream.put
      ⟨name, flags, UInt64.ofNat data.bytes.size, data.bytes⟩ streams
  | .delete name, streams => Stream.remove name streams
  | .resize _, streams => streams
  | .read _, streams => streams
  | .verify, streams => streams

/-- Whether a request replaces or removes a stream. -/
def Request.isUpdate : Request → Bool
  | .write _ _ => true
  | .writeWith _ _ _ => true
  | .delete _ => true
  | _ => false

/-- Requests of one commit: those that update a stream, and those for a
larger vault. -/
def Request.Advances (v : Vault) : Request → Prop
  | .resize total => v.blocks.total < total
  | r => r.isUpdate = true

/-- The vault `w` is `v` with the request done, and `t'` has its record. -/
structure Request.Made (F : Failures) (r : Request) (v : Vault) (t : Watched) (w : Vault)
    (t' : Watched) : Prop where
  renewed : ∃ d, Renewed F v t d w t'
  live : w.Live t'.image
  contents : w.contents t'.image = r.change (v.contents t.image)
  packed : v.Packed t.image → w.Packed t'.image

/-- Nothing has come of a request, and the sound vault `w` is `v` with a block
map of its own. -/
structure Unmade (F : Failures) (v : Vault) (t : Watched) (w : Vault) (t' : Watched) : Prop
    extends Lengthened F v t w t' where
  sound : w.Sound

/-- On the way through a request: its record is not written yet, or it is. -/
def Request.Underway (F : Failures) (r : Request) (v : Vault) (t t' : Watched) : Prop :=
  Undecided F True v t t' ∨ ∃ w, r.Made F v t w t'

/-- At the end of a request, by its result. -/
def Request.Ended {α : Type} (F : Failures) (r : Request) (v : Vault) (t : Watched) :
    Except Error α × Vault → Watched → Prop
  | (.ok _, w), t' => r.Made F v t w t' ∧ v.blocks.total.toNat ≤ w.blocks.total.toNat
  | (.error _, w), t' => Unmade F v t w t'

/-! ## §2. One request. -/

/-- An answer that is given in the place of another one changes nothing. -/
theorem ensures_return {α β : Type} {x : Action α} {f : α → β} {v : Vault} {t : Watched}
    {Q : Except Error β × Vault → Watched → Prop}
    (h : (x v).Ensures F I t fun outcome t' => Q (outcome.1.map f, outcome.2) t') :
    ((x >>= fun a => (return f a : Action β)) v).Ensures F I t Q := by
  rw [Action.ensures_bind]
  refine h.mono ?_
  intro outcome t' hw
  obtain ⟨result, w⟩ := outcome
  cases result with
  | ok a => exact hw
  | error e => exact hw

/-- Writing a stream, with the change it makes of the contents. -/
theorem writeWith_ends (h : v.Live t.image) (r : Request) (name : String) (data : Payload)
    (flags : Flags)
    (hchange : r.change (v.contents t.image) = Stream.put
      ⟨name, flags, UInt64.ofNat data.bytes.size, data.bytes⟩ (v.contents t.image)) :
    (writeWith name data.bytes flags v).Ensures F (r.Underway F v t) t (r.Ended F v t) := by
  -- a stored stream is the request done
  have hmade : ∀ e w t', Stored F v t name data.bytes flags e w t' → r.Made F v t w t' := by
    intro e w t' hstored
    obtain ⟨hlive, hcontents⟩ := hstored.contents data.fits h
    exact ⟨⟨_, hstored.toRenewed⟩, hlive, hcontents.trans hchange.symm,
      hstored.packed data.fits h⟩
  have hwrite := writeWith_ensures (F := F) (I := r.Underway F v t) h.sound h.addressable h.region
    name data.fits flags (fun _ => Or.inl) fun e w t' hstored => Or.inr ⟨w, hmade e w t' hstored⟩
  refine (hwrite.and_yields (writeWith_yields h.sound name data.bytes flags)).mono ?_
  intro outcome t' hend
  obtain ⟨result, w⟩ := outcome
  obtain ⟨hdelivered, hwritten⟩ := hend
  cases result with
  | ok u =>
    obtain ⟨e, hstored⟩ := hdelivered
    exact ⟨hmade e w t' hstored, hwritten.2.2.1⟩
  | error err =>
    obtain ⟨hundecided, hsized⟩ := hdelivered
    exact ⟨⟨hwritten.2, hundecided, hsized.room, hsized.addressable⟩, hwritten.1⟩

/-- Deleting a stream, with the change it makes of the contents. -/
theorem delete_ends (h : v.Live t.image) (name : String) :
    (delete name v).Ensures F ((Request.delete name).Underway F v t) t
      ((Request.delete name).Ended F v t) := by
  -- a commit without the entry is the request done
  have hmade : ∀ w t', Renewed F v t (v.directory.erase name) w t' →
      (Request.delete name).Made F v t w t' := by
    intro w t' hrenewed
    obtain ⟨hlive, hcontents⟩ := Renewed.contents_erase h hrenewed
    exact ⟨⟨_, hrenewed⟩, hlive, hcontents, hrenewed.packed_erase h⟩
  have hdelete := delete_ensures (F := F) (I := (Request.delete name).Underway F v t) h.sound
    h.addressable h.region name (fun _ => Or.inl) fun w t' hr => Or.inr ⟨w, hmade w t' hr⟩
  refine (hdelete.and_yields (delete_yields h.sound name)).mono ?_
  intro outcome t' hend
  obtain ⟨result, w⟩ := outcome
  obtain ⟨hreplaced, hturned, _⟩ := hend
  cases result with
  | ok u => exact ⟨hmade w t' hreplaced, hturned.2.2.1⟩
  | error err =>
    obtain ⟨hundecided, hsized⟩ := hreplaced
    exact ⟨⟨hturned.2, hundecided, hsized.room, hsized.addressable⟩, hturned.1⟩

/-- Growing, which changes no stream. -/
theorem extend_ends (h : v.Live t.image) {total : UInt64} (hmore : v.blocks.total < total) :
    ((do lengthen total; recommit : Action Unit) v).Ensures F
      ((Request.resize total).Underway F v t) t ((Request.resize total).Ended F v t) := by
  have hmade : ∀ w t', Renewed F v t v.directory w t' →
      (Request.resize total).Made F v t w t' := by
    intro w t' hrenewed
    obtain ⟨hlive, hcontents⟩ := hrenewed.contents_same h
    exact ⟨⟨_, hrenewed⟩, hlive, hcontents, hrenewed.packed_same h⟩
  have hextend := extend_ensures (F := F) (I := (Request.resize total).Underway F v t) h.sound
    h.addressable h.region hmore (fun _ => Or.inl) fun w t' hr => Or.inr ⟨w, hmade w t' hr⟩
  refine (hextend.and_yields (extend_yields h.sound total)).mono ?_
  intro outcome t' hend
  obtain ⟨result, w⟩ := outcome
  obtain ⟨hextended, hturned⟩ := hend
  cases result with
  | ok u => exact ⟨hmade w t' hextended, hturned.2.2.1⟩
  | error err => exact ⟨hextended, hturned.1⟩

/-- A resize to more blocks than there are. -/
theorem resize_of_more {total : UInt64} (hs : v.Sound) (hmore : v.blocks.total < total) :
    resize total v = (do lengthen total; recommit : Action Unit) v := by
  have hlarge := UInt64.lt_iff_toNat_lt.mp hmore
  have hleast := hs.held.least
  have hsmall : ¬ total < leastBlocks := by
    rw [UInt64.lt_iff_toNat_lt]
    omega
  have hne : ¬ total = v.blocks.total := by
    rintro rfl
    omega
  unfold resize
  rw [if_neg hsmall]
  show ((if total = v.blocks.total then _ else _ : Action Unit)) v = _
  rw [if_neg hne, if_pos hmore]

/-- **A request of one commit**: after each of its storage calls its record is
not written yet or the request is done, and at its end by its result. -/
theorem Request.ensures_end (h : v.Live t.image) {r : Request} (hadvances : r.Advances v) :
    (r.action v).Ensures F (r.Underway F v t) t (r.Ended F v t) := by
  -- the answer of a request is made after the operation, without a call
  have hreturn : ∀ (s : Request) {x : Action Unit},
      (x v).Ensures F (s.Underway F v t) t (s.Ended F v t) →
      ((x >>= fun _ => (return .done : Action Answer)) v).Ensures F (s.Underway F v t) t
        (s.Ended F v t) := by
    intro s x hx
    refine ensures_return (f := fun _ => Answer.done) (hx.mono ?_)
    intro outcome t' hend
    obtain ⟨result, w⟩ := outcome
    cases result with
    | ok u => exact hend
    | error e => exact hend
  cases r with
  | write name data =>
    refine hreturn (.write name data) ?_
    rw [write_eq name data.bytes v t.image]
    exact writeWith_ends h (.write name data) name data _ rfl
  | writeWith name data flags =>
    exact hreturn (.writeWith name data flags)
      (writeWith_ends h (.writeWith name data flags) name data flags rfl)
  | delete name => exact hreturn (.delete name) (delete_ends h name)
  | resize total =>
    refine hreturn (.resize total) ?_
    rw [resize_of_more h.sound hadvances]
    exact extend_ends h hadvances
  | read name => cases hadvances
  | verify => cases hadvances

theorem Request.advances_of_isUpdate {r : Request} (h : r.isUpdate = true) : r.Advances v := by
  cases r with
  | resize total => cases h
  | _ => exact h

/-! ## §3. The streams. -/

/-- As long as nothing is decided, the streams stay. -/
theorem Live.kept {v w : Vault} {t t' : Watched} {safe : Prop} (h : v.Live t.image)
    (hundecided : Undecided F safe v t t') (halike : v.Alike w) (hsound : w.Sound)
    (haddress : w.Addressable) :
    w.Live t'.image ∧ w.contents t'.image = v.contents t.image := by
  obtain ⟨hlive, hcontents⟩ := h.of_undecided hundecided
  exact ⟨hlive.of_alike halike hsound haddress,
    (contents_congr halike.superblock halike.directory _).trans hcontents⟩

/-- A request that has failed leaves the streams as they were. -/
theorem Unmade.contents (h : v.Live t.image) (hunmade : Unmade F v t w t') :
    w.Live t'.image ∧ w.contents t'.image = v.contents t.image :=
  h.kept hunmade.undecided hunmade.keeps.alike hunmade.sound (hunmade.addressable h.addressable)

end StateVault.Vault
