/-
  StateVault.Proofs.Vault.Resized
  ───────────────────────────────
  **A RESIZE IS A ROW OF COMMITS OF THE SAME STREAMS.**

  Growing takes one commit and shrinking up to two, each of the directory as
  it is (`Passage`).  Between them the image is undecided: a new length never
  touches what is in use.  Only a map that was cut and grows again can make
  the image shorter than the record on it says; without growth there is no
  such thing, nor when the vault becomes larger (`Straight`).

    • `recommit_ensures` — a commit of the same directory,
    • `extend_ensures`   — a longer medium and such a commit,
    • `cutTo_ensures`    — the part of a shrink in which the map is cut,
    • `resize_ensures`   — the whole operation, call by call.
-/
import StateVault.Proofs.Vault.Renewal

namespace StateVault.Vault

variable {F : Failures} {I : Watched → Prop} {safe : Prop}

/-! ## §1. Rows of commits. -/

/-- From `v` at `t`, some commits of the same directory. -/
inductive Passage (F : Failures) (v : Vault) (t : Watched) : Vault → Watched → Prop where
  | start : Passage F v t v t
  | renewed {w x : Vault} {t₁ t' : Watched} (h : Passage F v t w t₁)
      (hr : Renewed F w t₁ w.directory x t') : Passage F v t x t'

namespace Passage

variable {v w : Vault} {t t' : Watched}

theorem sound (h : Passage F v t w t') (hs : v.Sound) : w.Sound := by
  cases h with
  | start => exact hs
  | renewed _ hr => exact hr.sound

theorem settings (h : Passage F v t w t') : w.settings = v.settings := by
  induction h with
  | start => rfl
  | renewed _ hr ih => exact hr.follows.settings.trans ih

theorem room (h : Passage F v t w t') (hroom : v.Room t.image) : w.Room t'.image := by
  induction h with
  | start => exact hroom
  | renewed _ hr ih => exact hr.decided.room ih

/-- Each commit checks that what it describes has an address. -/
theorem addressable (h : Passage F v t w t') (haddress : v.Addressable) : w.Addressable := by
  induction h with
  | start => exact haddress
  | renewed _ hr ih => exact hr.decided.addressable ih

theorem region (h : Passage F v t w t') (hs : v.Sound) (hregion : regionSize ≤ t.image.size) :
    regionSize ≤ t'.image.size := by
  induction h with
  | start => exact hregion
  | renewed hbefore hr ih => exact region_of_keeps (hbefore.sound hs).held ih hr.decided.kept

theorem trans {x : Vault} {t₁ : Watched} (h : Passage F v t w t₁) (h' : Passage F w t₁ x t') :
    Passage F v t x t' := by
  induction h' with
  | start => exact h
  | renewed _ hr ih => exact ih.renewed hr

end Passage

/-! ## §2. One commit of the same directory. -/

/-- What a commit of the directory of `v` ensures, `w` being `v` with another
block map and `t'` undecided for it. -/
def Recommitted (F : Failures) (safe : Prop) (v : Vault) (t : Watched) (w : Vault) (t₁ : Watched) :
    Except Error Unit × Vault → Watched → Prop
  | (.ok _, x), t' => Renewed F v t v.directory x t' ∧ w.Advanced v.directory x
      ∧ w.Fitted v.directory t₁ x t'
  | (.error _, x), t' => Undecided F safe v t t' ∧ w.Sized t₁.image x t'.image ∧ w.Keeps x

/-- **A commit of the directory as it is**, from a vault whose map alone may have
changed. -/
theorem recommit_ensures (safe : Prop) {v w : Vault} {t t₁ : Watched} (hs : v.Sound)
    (halike : v.Alike w) (hheld : w.Held (streamExtents v.directory)) (haddress : w.Addressable)
    (hregion : regionSize ≤ t.image.size) (hbefore : Undecided F safe v t t₁)
    (hroom : v.Room t.image → w.Room t₁.image)
    (hsafe : safe → w.SafeGrowth (w.directoryBlocks v.directory))
    (hI : ∀ t', Undecided F safe v t t' → I t')
    (hI' : ∀ x t', Renewed F v t v.directory x t' → w.Fitted v.directory t₁ x t' → I t') :
    (recommit w).Ensures F I t₁ (Recommitted F safe v t w t₁) := by
  have hguards : ∀ p, v.Guards p → w.Guards p := fun p hp =>
    hs.held.guards_of_subset hheld halike.superblock halike.slot (fun _ he => he) hp
  have hregion₁ : regionSize ≤ t₁.image.size := region_of_keeps hs.held hregion hbefore.kept
  -- both outcomes of the commit are carried back over the stretch before it
  have hundecided : ∀ t', Undecided F safe w t₁ t' → Undecided F safe v t t' := fun t' h =>
    hbefore.trans halike.superblock halike.slot hguards h
  have hrenewed : ∀ x t', w.Advanced v.directory x → x.Held (streamExtents v.directory) →
      Decided F w t₁ x t' → Renewed F v t v.directory x t' := by
    intro x t' hadvanced hxheld hdecided
    refine ⟨hadvanced.sound (Keeps.refl x) rfl hxheld ?_,
      hadvanced.toFollows.of_alike halike (Alike.refl x),
      hdecided.after hbefore hguards hroom fun _ => haddress⟩
    rw [halike.superblock]
    exact hs.valid
  unfold recommit
  rw [Action.ensures_vault, halike.directory]
  have hcommit := commit_ensures (F := F) (I := I) (t := t₁) (d := v.directory) safe hheld haddress
    hregion₁ hsafe (fun t' h => hI t' (hundecided t' h))
    fun x t' hadvanced hxheld hdecided hfitted =>
      hI' x t' (hrenewed x t' hadvanced hxheld hdecided) hfitted
  refine (hcommit.and_yields (commit_yields hheld v.directory)).mono ?_
  intro outcome t' hend
  obtain ⟨result, x⟩ := outcome
  obtain ⟨hsettled, hcommitted⟩ := hend
  cases result with
  | ok u =>
    exact ⟨hrenewed x t' hcommitted.1 hcommitted.2 hsettled.1, hcommitted.1, hsettled.2⟩
  | error err => exact ⟨hundecided t' hsettled.1, hsettled.2, hcommitted.1⟩

/-! ## §3. Growing. -/

/-- The vault and the image of a longer medium. -/
structure Lengthened (F : Failures) (v : Vault) (t : Watched) (w : Vault) (t' : Watched) :
    Prop where
  keeps : v.Keeps w
  undecided : Undecided F True v t t'
  room : v.Room t.image → w.Room t'.image
  addressable : v.Addressable → w.Addressable

theorem lengthened_refl (v : Vault) (t : Watched) : Lengthened F v t v t :=
  ⟨Keeps.refl v, undecided_refl v t, id, id⟩

/-- A length that is a word makes room for the larger map. -/
theorem lengthened_of_mul {v : Vault} {t : Watched} {total bytes : UInt64} (h : v.Sound)
    (hregion : regionSize ≤ t.image.size) (hmore : v.blocks.total < total)
    (hbytes : Word.mul? total v.blockSize.toUInt64 = some bytes) :
    Lengthened F v t { v with blocks := v.blocks.extend total }
        { t with image := Bytes.resized t.image bytes.toNat }
      ∧ ({ v with blocks := v.blocks.extend total } : Vault).Room
        (Bytes.resized t.image bytes.toNat) := by
  obtain ⟨hproduct, hfits⟩ := Word.toNat_of_mul? hbytes
  rw [UInt32.toNat_toUInt64] at hproduct hfits
  have hvalue : bytes.toNat = total.toNat * v.width := hproduct
  have htotal : (v.blocks.extend total).total = total := BlockMap.total_extend hmore
  rw [UInt64.lt_iff_toNat_lt] at hmore
  -- the new length is no shorter than the old map, let alone what is committed
  have hlong : v.blocks.total.toNat * v.width ≤ bytes.toNat := by
    rw [hvalue]
    exact Nat.mul_le_mul_right _ (Nat.le_of_lt hmore)
  have hroom : (v.blocks.extend total).total.toNat * v.width
      ≤ (Bytes.resized t.image bytes.toNat).size := by
    exact Nat.le_of_eq (by rw [htotal, Bytes.size_resized, hvalue])
  refine ⟨⟨keeps_of_blocks (BlockMap.le_total_extend _ _), ?_, fun _ => hroom, fun _ => ?_⟩,
    hroom⟩
  · refine undecided_of_blocks h.held hregion
      ((Bytes.keeps_resized _ _).mono fun p hp => Nat.lt_of_lt_of_le hp hlong) fun _ _ => ?_
    unfold Covers
    rw [Bytes.size_resized]
    exact Nat.le_trans (Nat.mul_le_mul_right _ h.committed) hlong
  · show (v.blocks.extend total).total.toNat * v.width < _
    rw [htotal]
    exact hfits

/-- Growing the medium decides nothing. -/
theorem lengthen_ensures {v : Vault} {t : Watched} {total : UInt64} (h : v.Sound)
    (hregion : regionSize ≤ t.image.size) (hmore : v.blocks.total < total)
    (hI : ∀ t', Undecided F True v t t' → I t') :
    (lengthen total v).Ensures F I t fun outcome t' => Lengthened F v t outcome.2 t'
      ∧ (outcome.1 = .ok () → outcome.2.Room t'.image) := by
  unfold lengthen
  rw [Action.ensures_vault]
  cases hbytes : Word.mul? total v.blockSize.toUInt64 with
  -- a size without a length is refused before the first call
  | none => exact ⟨lengthened_refl v t, fun hok => nomatch hok⟩
  | some bytes =>
    simp only []
    rw [Action.ensures_bind]
    intro result image hsets
    cases hsets with
    | whole =>
      obtain ⟨hlengthened, hroom⟩ := lengthened_of_mul (F := F) h hregion hmore hbytes
      exact ⟨hI _ hlengthened.undecided, hlengthened, fun _ => hroom⟩
    | failed _ err =>
      exact ⟨hI t (undecided_refl v t), lengthened_refl v t, fun hok => nomatch hok⟩

/-- What growing ensures: one commit of the same directory, or an undecided
image. -/
def Extended (F : Failures) (v : Vault) (t : Watched) :
    Except Error Unit × Vault → Watched → Prop
  | (.ok _, x), t' => Renewed F v t v.directory x t'
  | (.error _, x), t' => Lengthened F v t x t'

/-- **Growing** lengthens the medium and then commits. -/
theorem extend_ensures {v : Vault} {t : Watched} {total : UInt64} (hs : v.Sound)
    (haddress : v.Addressable) (hregion : regionSize ≤ t.image.size)
    (hmore : v.blocks.total < total) (hI : ∀ t', Undecided F True v t t' → I t')
    (hI' : ∀ x t', Renewed F v t v.directory x t' → I t') :
    ((do lengthen total; recommit : Action Unit) v).Ensures F I t (Extended F v t) := by
  rw [Action.ensures_bind]
  have hlengthen := lengthen_ensures (F := F) (I := I) hs hregion hmore hI
  refine (hlengthen.and_yields (lengthen_yields hs total)).mono ?_
  intro outcome t₁ hend
  obtain ⟨result, w⟩ := outcome
  obtain ⟨⟨hlengthened, _⟩, hsound, _⟩ := hend
  cases result with
  | error err => exact hlengthened
  | ok u =>
    obtain ⟨hkeeps, hundecided, hroom, hwide⟩ := hlengthened
    -- the new blocks have no owner, so the vault is held as before
    have hheld : w.Held (streamExtents v.directory) := by
      rw [← hkeeps.directory]
      exact hsound.held
    have hrecommit := recommit_ensures (F := F) (I := I) True hs hkeeps.alike hheld
      (hwide haddress) hregion hundecided hroom
      (fun _ => safeGrowth_of_committed hsound.committed _) hI fun x t' hr _ => hI' x t' hr
    refine hrecommit.mono ?_
    intro outcome t' hdone
    obtain ⟨result, x⟩ := outcome
    cases result with
    | error err =>
      obtain ⟨hundecided', hsized, hkept⟩ := hdone
      exact ⟨hkeeps.trans hkept, hundecided', fun hr => hsized.room (hroom hr),
        fun ha => hsized.addressable (hwide ha)⟩
    | ok u => exact hdone.1

/-! ## §4. Shrinking. -/

/-- What a resize ensures: a row of commits, an undecided image after them,
and a vault that differs in its block map at most. -/
structure Turnout (F : Failures) (safe : Prop) (v : Vault) (t : Watched) (w : Vault)
    (t' : Watched) : Prop where
  passage : ∃ x t₁, Passage F v t x t₁ ∧ Undecided F safe x t₁ t' ∧ x.Alike w
  addressable : w.Addressable
  room : safe → v.Room t.image → w.Room t'.image

/-- What comes after a row of commits comes after a longer one. -/
theorem Turnout.after {v w x : Vault} {t t₁ t' : Watched} (hpassage : Passage F v t w t₁)
    (h : Turnout F safe w t₁ x t') : Turnout F safe v t x t' := by
  obtain ⟨⟨y, t₂, hafter, hundecided, halike⟩, haddress, hroom⟩ := h
  exact ⟨⟨y, t₂, hpassage.trans hafter, hundecided, halike⟩, haddress,
    fun hs hr => hroom hs (hpassage.room hr)⟩

theorem Turnout.weaken {safe' : Prop} {v w : Vault} {t t' : Watched}
    (h : Turnout F safe v t w t') (himp : safe' → safe) : Turnout F safe' v t w t' := by
  obtain ⟨⟨x, t₁, hpassage, hundecided, halike⟩, haddress, hroom⟩ := h
  exact ⟨⟨x, t₁, hpassage, hundecided.weaken himp, halike⟩, haddress,
    fun hs => hroom (himp hs)⟩

/-- The image at the end of a shrink is as long as its record says. -/
theorem undecided_of_imageBytes (safe : Prop) {v w : Vault} {t : Watched} {d : Directory}
    (hs : w.Sound) (haddress : w.Addressable) (hregion : regionSize ≤ t.image.size)
    (h : v.Advanced d w) :
    Undecided F safe w t { t with image := Bytes.resized t.image w.superblock.imageBytes.toNat }
      ∧ w.Room (Bytes.resized t.image w.superblock.imageBytes.toNat) := by
  have hvalue : w.superblock.imageBytes.toNat = w.blocks.total.toNat * w.width := by
    rw [Superblock.toNat_imageBytes, h.total]
    unfold Addressable at haddress
    exact Nat.min_eq_left (by
      show w.blocks.total.toNat * w.width ≤ _
      omega)
  have hroom : w.Room (Bytes.resized t.image w.superblock.imageBytes.toNat) := by
    unfold Room
    exact Nat.le_of_eq (by rw [Bytes.size_resized, hvalue])
  refine ⟨undecided_of_blocks hs.held hregion
    ((Bytes.keeps_resized _ _).mono fun p hp => by rw [hvalue]; exact hp) fun _ _ => ?_, hroom⟩
  exact Nat.le_trans (Nat.mul_le_mul_right _ hs.committed) hroom

section Regrown

variable {x : Vault} {current : UInt64}

/-- The size that a failed shrink goes back to has an address. -/
theorem withBlocks_addressable (h : x.Addressable)
    (hcurrent : current.toNat * x.width < UInt64.size) : (withBlocks current x).Addressable := by
  show (x.blocks.extend current).total.toNat * x.width < _
  rw [BlockMap.toNat_total_extend, ← Nat.mul_max_mul_right]
  exact Nat.max_lt.mpr ⟨h, hcurrent⟩

theorem withBlocks_room {image : Image} (h : x.Room image)
    (hcurrent : current.toNat * x.width ≤ image.size) : (withBlocks current x).Room image := by
  show (x.blocks.extend current).total.toNat * x.width ≤ _
  rw [BlockMap.toNat_total_extend, ← Nat.mul_max_mul_right]
  exact Nat.max_le.mpr ⟨h, hcurrent⟩

end Regrown

/-- **The cut of a shrink**: its commit is made before the medium is cut. -/
theorem cutTo_ensures (safe : Prop) {v : Vault} {t : Watched} {current total : UInt64}
    (hs : v.Sound) (haddress : v.Addressable) (hregion : regionSize ≤ t.image.size)
    (hleast : leastBlocks.toNat ≤ total.toNat) (hless : total.toNat < v.blocks.total.toNat)
    (hcurrent : current.toNat * v.width < UInt64.size)
    (hsafe : safe → ∀ cut, v.blocks.shrink total = .ok cut →
      ({ v with blocks := cut } : Vault).SafeGrowth (v.directoryBlocks v.directory))
    (hfixed : safe → ∀ cut, v.blocks.shrink total = .ok cut → v.Room t.image →
      v.settings.autoGrow = false ∧ current.toNat ≤ v.blocks.total.toNat)
    (hI : ∀ w t₁ t', Passage F v t w t₁ → Undecided F safe w t₁ t' → I t') :
    (cutTo current total v).Ensures F I t fun outcome t' => Turnout F safe v t outcome.2 t' := by
  unfold cutTo cutBlocks
  rw [Action.ensures_bind, Action.ensures_vault, Action.ensures_bind]
  cases hcut : v.blocks.shrink total with
  | error err =>
    exact ⟨⟨v, t, .start, undecided_refl v t, Alike.refl v⟩, haddress, fun _ => id⟩
  | ok cut =>
    obtain ⟨hheld, htotal⟩ := hs.held.cut hleast hless hcut
    have halike : v.Alike { v with blocks := cut } := ⟨rfl, rfl, rfl, rfl⟩
    have hfewer : cut.total.toNat * v.width ≤ v.blocks.total.toNat * v.width := by
      rw [htotal]
      exact Nat.mul_le_mul_right _ (Nat.le_of_lt hless)
    have hnarrow : ({ v with blocks := cut } : Vault).Addressable :=
      Nat.lt_of_le_of_lt hfewer haddress
    have hpassage : ∀ x t', Renewed F v t v.directory x t' → Passage F v t x t' :=
      fun x t' hr => Passage.start.renewed hr
    show Script.Ensures F I (((recommit.onError (withBlocks current) >>= _) : Action Unit)
      { v with blocks := cut }) t _
    rw [Action.ensures_bind, Action.ensures_onError]
    have hrecommit := recommit_ensures (F := F) (I := I) safe hs halike hheld hnarrow
      hregion (undecided_refl v t) (fun hroom => Nat.le_trans hfewer hroom)
      (fun h => hsafe h cut hcut) (fun t' h => hI v t t' .start h)
      fun x t' hr _ => hI x t' t' (hpassage x t' hr) (undecided_refl x t')
    refine hrecommit.mono ?_
    intro outcome t' hdone
    obtain ⟨result, x⟩ := outcome
    cases result with
    | error err =>
      -- the old size again
      obtain ⟨hundecided, hsized, hkeeps⟩ := hdone
      have hwidth : x.width = v.width := width_congr hkeeps.superblock
      refine ⟨⟨v, t, .start, hundecided, halike.trans ⟨hkeeps.superblock, hkeeps.slot,
        hkeeps.directory, hkeeps.settings⟩⟩, ?_, fun h hroom => ?_⟩
      · refine withBlocks_addressable (hsized.addressable hnarrow) ?_
        rw [hwidth]
        exact hcurrent
      · obtain ⟨hgrow, hback⟩ := hfixed h cut hcut hroom
        obtain ⟨_, hsize⟩ := hsized.fixed hgrow
        refine withBlocks_room (hsized.room (Nat.le_trans hfewer hroom)) ?_
        rw [hwidth, hsize]
        exact Nat.le_trans (Nat.mul_le_mul_right _ hback) hroom
    | ok u =>
      obtain ⟨hrenewed, hadvanced, _⟩ := hdone
      have hafter := hpassage x t' hrenewed
      have hregion' := hafter.region hs hregion
      have hwide := hafter.addressable haddress
      intro result image hsets
      cases hsets with
      | failed _ err =>
        exact ⟨hI x t' t' hafter (undecided_refl x t'),
          ⟨x, t', hafter, undecided_refl x t', Alike.refl x⟩, hwide, fun _ => hafter.room⟩
      | whole =>
        obtain ⟨hundecided, hroom⟩ := undecided_of_imageBytes (F := F) safe
          hrenewed.sound hwide hregion' hadvanced
        exact ⟨hI x t' _ hafter hundecided, ⟨x, t', hafter, hundecided, Alike.refl x⟩, hwide,
          fun _ _ => hroom⟩

/-- A resize that does not cut the map of a vault that may grow. -/
def Straight (v : Vault) (total : UInt64) : Prop :=
  v.settings.autoGrow = false ∨ v.blocks.total.toNat ≤ total.toNat

theorem safeGrowth_of_fixed {v : Vault} (h : v.settings.autoGrow = false) (needed : UInt64) :
    v.SafeGrowth needed := by
  intro e _ hgrow
  rw [mayGrow, h] at hgrow
  cases hgrow

/-- **Shrinking** is the commit that makes way, and then the cut. -/
theorem shrinkTo_ensures {v : Vault} {t : Watched} {total : UInt64} (hs : v.Sound)
    (haddress : v.Addressable) (hregion : regionSize ≤ t.image.size)
    (hleast : leastBlocks.toNat ≤ total.toNat) (hless : total.toNat < v.blocks.total.toNat)
    (hI : ∀ w t₁ t', Passage F v t w t₁ → Undecided F (v.settings.autoGrow = false) w t₁ t' →
      I t') :
    (shrinkTo v.blocks.total total v).Ensures F I t fun outcome t' =>
      Turnout F (v.settings.autoGrow = false) v t outcome.2 t' := by
  have hstay : Turnout F (v.settings.autoGrow = false) v t v t :=
    ⟨⟨v, t, .start, undecided_refl v t, Alike.refl v⟩, haddress, fun _ => id⟩
  rw [shrinkTo_eq, Action.ensures_vault, Action.ensures_bind]
  cases checkStreams v.directory total with
  | error err => exact hstay
  | ok u =>
    show Script.Ensures F I
      (((if total < v.superblock.directory.stop then _ else _) : Action Unit) v) t _
    by_cases hway : total < v.superblock.directory.stop
    · rw [if_pos hway, Action.ensures_bind]
      -- the first commit makes one passage, the cut goes on from there
      have hrecommit := recommit_ensures (F := F) (I := I) (v.settings.autoGrow = false)
        hs (Alike.refl v) hs.held haddress hregion (undecided_refl v t) id
        (fun h => safeGrowth_of_fixed h _) (fun t' h => hI v t t' .start h)
        fun x t' hr _ => hI x t' t' (Passage.start.renewed hr) (undecided_refl x t')
      refine hrecommit.mono ?_
      intro outcome t₁ hdone
      obtain ⟨result, w⟩ := outcome
      cases result with
      | error err =>
        obtain ⟨hundecided, hsized, hkeeps⟩ := hdone
        exact ⟨⟨v, t, .start, hundecided, hkeeps.alike⟩, hsized.addressable haddress,
          fun _ => hsized.room⟩
      | ok u =>
        obtain ⟨hrenewed, hadvanced, _⟩ := hdone
        have hpassage : Passage F v t w t₁ := Passage.start.renewed hrenewed
        have hsettings : w.settings = v.settings := hpassage.settings
        have hgrown := hadvanced.grown
        have hwidth : w.width = v.width := by
          unfold width
          rw [hadvanced.blockSize]
        refine (cutTo_ensures (F := F) (v.settings.autoGrow = false) hrenewed.sound
          (hpassage.addressable haddress) (hpassage.region hs hregion) hleast (by omega) ?_
          (fun h cut _ => safeGrowth_of_fixed (by
            show w.settings.autoGrow = false
            rw [hsettings]
            exact h) _)
          (fun h cut _ _ => ⟨by rw [hsettings]; exact h, hgrown⟩)
          fun x t₂ t' hx hundecided => hI x t₂ t' (hpassage.trans hx) hundecided).mono
            fun outcome t' h => h.after hpassage
        -- the size to go back to is the one from before, in blocks of the same width
        rw [hwidth]
        exact haddress
    · rw [if_neg hway]
      exact cutTo_ensures _ hs haddress hregion hleast hless haddress
        (fun h cut _ => safeGrowth_of_fixed (by
          show v.settings.autoGrow = false
          exact h) _)
        (fun h cut _ _ => ⟨h, Nat.le_refl _⟩) hI

/-- **A resize is a row of commits of the same directory**, with an undecided
stretch after them. -/
theorem resize_ensures {v : Vault} {t : Watched} (hs : v.Sound) (haddress : v.Addressable)
    (hregion : regionSize ≤ t.image.size) (total : UInt64)
    (hI : ∀ w t₁ t', Passage F v t w t₁ → Undecided F (v.Straight total) w t₁ t' → I t') :
    (resize total v).Ensures F I t fun outcome t' =>
      Turnout F (v.Straight total) v t outcome.2 t' := by
  have hstay : Turnout F (v.Straight total) v t v t :=
    ⟨⟨v, t, .start, undecided_refl v t, Alike.refl v⟩, haddress, fun _ => id⟩
  unfold resize
  by_cases hsmall : total < leastBlocks
  · rw [if_pos hsmall]
    exact hstay
  · rw [if_neg hsmall, Action.ensures_vault]
    by_cases hsame : total = v.blocks.total
    · rw [if_pos hsame]
      exact hstay
    · rw [if_neg hsame]
      by_cases hmore : v.blocks.total < total
      · rw [if_pos hmore]
        -- growing is one commit at most
        have hextend := extend_ensures (F := F) (I := I) hs haddress hregion hmore
          (fun t' h => hI v t t' .start (h.weaken fun _ => trivial))
          fun x t' hr => hI x t' t' (Passage.start.renewed hr) (undecided_refl x t')
        refine hextend.mono ?_
        intro outcome t' hdone
        obtain ⟨result, x⟩ := outcome
        cases result with
        | error err =>
          obtain ⟨hkeeps, hundecided, hroom, hwide⟩ := hdone
          exact ⟨⟨v, t, .start, hundecided.weaken fun _ => trivial, hkeeps.alike⟩,
            hwide haddress, fun _ => hroom⟩
        | ok u =>
          have hpassage : Passage F v t x t' := Passage.start.renewed hdone
          exact ⟨⟨x, t', hpassage, undecided_refl x t', Alike.refl x⟩,
            hpassage.addressable haddress, fun _ => hpassage.room⟩
      · rw [if_neg hmore]
        rw [UInt64.lt_iff_toNat_lt] at hsmall hmore
        have hne : total.toNat ≠ v.blocks.total.toNat := fun h =>
          hsame (UInt64.toNat_inj.mp h)
        -- a shrink is straight only where the vault does not grow
        have hfixed : v.Straight total → v.settings.autoGrow = false := fun h =>
          h.resolve_right (by omega)
        exact (shrinkTo_ensures hs haddress hregion (by omega) (by omega)
          fun w t₁ t' hx h => hI w t₁ t' hx (h.weaken hfixed)).mono
            fun outcome t' h => h.weaken hfixed

end StateVault.Vault
