/-
  StateVault.Proofs.BlockMap.Claims
  ─────────────────────────────────
  **CLAIMS ARE TAKEN EXACTLY WHEN THEY FIT AND ARE APART.**

  Claims are taken one after the other beside the earlier ones.  The
  invariant of the walk: the map so far is owned by the claims so far.

    • `owns_of_ofClaims`    — a map that was made is owned by its claims,
    • `refusal_of_ofClaims` — claims that make none: the first that is refused,
    • `ofClaims_ok`         — claims that fit and are apart make a map.
-/
import StateVault.BlockMap.Claims
import StateVault.Proofs.BlockMap.Ownership

namespace StateVault

/-! ## §1. The checks of one claim. -/

/-- The test for an overlap tells extents that are apart, if both fit and have
blocks. -/
theorem Extent.overlaps_eq_false_iff {total : UInt64} {a b : Extent} (ha : a.Fits total)
    (hb : b.Fits total) (hane : a.count.toNat ≠ 0) (hbne : b.count.toNat ≠ 0) :
    a.overlaps b = false ↔ a.Apart b := by
  have hanot : a.isEmpty = false := by
    rw [Bool.eq_false_iff]
    exact fun h => hane (a.isEmpty_iff.mp h)
  have hbnot : b.isEmpty = false := by
    rw [Bool.eq_false_iff]
    exact fun h => hbne (b.isEmpty_iff.mp h)
  have hstopa := ha.toNat_stop hane
  have hstopb := hb.toNat_stop hbne
  unfold overlaps
  simp only [hanot, hbnot, Bool.not_false, Bool.true_and, Bool.and_eq_false_iff,
    decide_eq_false_iff_not, UInt64.lt_iff_toNat_lt, hstopa, hstopb]
  constructor
  · intro h block hmema hmemb
    rw [ha.mem_iff] at hmema
    rw [hb.mem_iff] at hmemb
    omega
  · intro h
    -- the later of the two starts would belong to both
    by_cases hle : a.start.toNat ≤ b.start.toNat
    · have hnot := h b.start.toNat
      rw [ha.mem_iff, hb.mem_iff] at hnot
      omega
    · have hnot := h a.start.toNat
      rw [ha.mem_iff, hb.mem_iff] at hnot
      omega

namespace BlockMap

theorem fits_iff {total : UInt64} {e : Extent} (hne : e.count.toNat ≠ 0) :
    fits total e = true ↔ e.Fits total := by
  have htotal := total.toNat_lt_size
  have hstop := e.toNat_stop
  have hsum : (Word.add? e.start e.count).isSome = true
      ↔ e.start.toNat + e.count.toNat < UInt64.size := by
    unfold Word.add?
    split <;> simp_all
  unfold fits Extent.Fits
  rw [Bool.and_eq_true, hsum, decide_eq_true_eq, UInt64.le_iff_toNat_le]
  omega

/-! ## §2. All claims. -/

/-- The extents of claims. -/
def extents (claims : List Claim) : List Extent :=
  claims.map (·.extent)

/-- An extent that overlaps none of the earlier claims is apart from all owners. -/
theorem apart_of_find {m : BlockMap} {earlier : List Claim} {e : Extent}
    (h : m.Owns (extents earlier)) (hearlier : ∀ d ∈ earlier, d.extent.count.toNat ≠ 0)
    (hne : e.count.toNat ≠ 0) (hfits : e.Fits m.total)
    (hfind : earlier.find? (fun other => other.extent.overlaps e) = none) :
    ∀ d ∈ extents earlier, e.Apart d := by
  intro d hd
  obtain ⟨c, hc, rfl⟩ := List.mem_map.mp hd
  have hover := List.find?_eq_none.mp hfind c hc
  rw [Bool.not_eq_true, Extent.overlaps_eq_false_iff (h.within _ hd) hfits (hearlier c hc) hne]
    at hover
  exact hover.symm

/-- **A claim that is accepted** becomes one more owner, and changes nothing
else. -/
theorem accept_ok {m after : BlockMap} {earlier : List Claim} {c : Claim}
    (h : m.Owns (extents earlier)) (hearlier : ∀ d ∈ earlier, d.extent.count.toNat ≠ 0)
    (hne : c.extent.count.toNat ≠ 0) (hok : m.accept earlier c = .ok after) :
    after.Owns (extents (earlier ++ [c])) ∧ after.total = m.total
      ∧ after.blockSize = m.blockSize := by
  unfold accept at hok
  split at hok
  · cases hok
  · rename_i hfits
    have hfits : c.extent.Fits m.total := by
      rw [← fits_iff hne]
      simpa using hfits
    split at hok
    · cases hok
    · rename_i hfind
      obtain ⟨after', hclaim, howns, htotal, hsize⟩ :=
        h.claim hne hfits (apart_of_find h hearlier hne hfits hfind)
      rw [hclaim] at hok
      cases hok
      -- the new owner stands first among the owners, and last among the claims
      refine ⟨howns.perm ?_, htotal, hsize⟩
      unfold extents
      rw [List.map_append]
      exact (List.perm_append_singleton _ _).symm

/-- What the walk over the claims makes. -/
theorem owns_of_acceptAll {claims : List Claim} (earlier : List Claim) {m after : BlockMap}
    (h : m.Owns (extents earlier)) (hearlier : ∀ d ∈ earlier, d.extent.count.toNat ≠ 0)
    (hok : m.acceptAll earlier claims = .ok after) :
    after.Owns (extents (earlier ++ claims)) ∧ after.total = m.total
      ∧ after.blockSize = m.blockSize := by
  -- along the claims; what is taken so far moves from `claims` to `earlier`
  induction claims generalizing m earlier with
  | nil =>
      unfold acceptAll at hok
      cases hok
      rw [List.append_nil]
      exact ⟨h, rfl, rfl⟩
  | cons c rest ih =>
      unfold acceptAll at hok
      split at hok
      · -- a claim without blocks is passed over, and owns nothing
        rename_i hempty
        obtain ⟨howns, htotal, hsize⟩ := ih _ h hearlier hok
        refine ⟨(howns.add_empty (c.extent.isEmpty_iff.mp hempty)).perm ?_, htotal, hsize⟩
        unfold extents
        rw [List.map_append, List.map_append, List.map_cons]
        exact List.perm_middle.symm
      · rename_i hnot
        have hne : c.extent.count.toNat ≠ 0 := fun h => hnot (c.extent.isEmpty_iff.mpr h)
        cases haccept : m.accept earlier c with
        | error e =>
            rw [haccept] at hok
            cases hok
        | ok next =>
            rw [haccept] at hok
            obtain ⟨howns, htotal, hsize⟩ := accept_ok h hearlier hne haccept
            have hmore : ∀ d ∈ earlier ++ [c], d.extent.count.toNat ≠ 0 :=
              List.forall_mem_append.mpr ⟨hearlier, List.forall_mem_singleton.mpr hne⟩
            obtain ⟨howns', htotal', hsize'⟩ := ih _ howns hmore hok
            rw [List.append_assoc, List.singleton_append] at howns'
            exact ⟨howns', htotal'.trans htotal, hsize'.trans hsize⟩

/-- **A map made from claims is owned by them.** -/
theorem owns_of_ofClaims {total : UInt64} {blockSize : UInt32} {claims : List Claim}
    {m : BlockMap} (hok : ofClaims total blockSize claims = .ok m) :
    m.Owns (extents claims) ∧ m.total = total ∧ m.blockSize = blockSize :=
  owns_of_acceptAll [] (owns_blank total blockSize) (fun _ hd => absurd hd List.not_mem_nil) hok

/-- Why a claim is refused beside earlier ones. -/
inductive Refusal (total : UInt64) (earlier : List Claim) (c : Claim) : Error → Prop where
  /-- It ends past the vault, its end taken exactly. -/
  | outside (nonempty : c.extent.count.toNat ≠ 0)
      (past : total.toNat < c.extent.start.toNat + c.extent.count.toNat) :
      Refusal total earlier c
        (.corrupt (.outsideVault c.owner c.extent.start c.extent.stop total))
  /-- It shares a block with an earlier one. -/
  | shared {other : Claim} (among : other ∈ earlier) {block : Nat}
      (inOther : block ∈ other.extent) (inThis : block ∈ c.extent) :
      Refusal total earlier c (.corrupt (.overlapping other.owner c.owner))

/-- What is refused beside some claims is refused beside more of them. -/
theorem Refusal.mono {total : UInt64} {earlier earlier' : List Claim} {c : Claim} {e : Error}
    (h : Refusal total earlier c e) (hmore : ∀ d ∈ earlier, d ∈ earlier') :
    Refusal total earlier' c e := by
  cases h with
  | outside hnonempty hpast => exact .outside hnonempty hpast
  | shared hamong hother hthis => exact .shared (hmore _ hamong) hother hthis

theorem Refusal.corrupt {total : UInt64} {earlier : List Claim} {c : Claim} {e : Error}
    (h : Refusal total earlier c e) : ∃ cause, e = .corrupt cause := by
  cases h with
  | outside _ _ => exact ⟨_, rfl⟩
  | shared _ _ _ => exact ⟨_, rfl⟩

/-- A claim is refused for its place or for an earlier one.  One that fits and
overlaps no earlier claim is of free blocks, so that taking them goes
through. -/
theorem accept_error {m : BlockMap} {earlier : List Claim} {c : Claim} {e : Error}
    (h : m.Owns (extents earlier)) (hearlier : ∀ d ∈ earlier, d.extent.count.toNat ≠ 0)
    (hne : c.extent.count.toNat ≠ 0) (hfails : m.accept earlier c = .error e) :
    Refusal m.total earlier c e := by
  unfold accept at hfails
  split at hfails
  · rename_i hfits
    have hnot : ¬ c.extent.Fits m.total := by
      rw [← fits_iff hne]
      simpa using hfits
    -- refused for its end
    cases hfails
    refine .outside hne ?_
    unfold Extent.Fits at hnot
    omega
  · rename_i hfits
    have hfits : c.extent.Fits m.total := by
      rw [← fits_iff hne]
      simpa using hfits
    split at hfails
    · rename_i other hfind
      cases hfails
      -- refused for an earlier claim, so the two have a block in common
      have hamong := List.mem_of_find?_eq_some hfind
      have hover := List.find?_some hfind
      have hnot : ¬ other.extent.Apart c.extent := by
        rw [← Extent.overlaps_eq_false_iff (h.within _ (List.mem_map_of_mem hamong)) hfits
          (hearlier other hamong) hne, Bool.not_eq_false]
        exact hover
      simp only [Extent.Apart, Classical.not_forall, Classical.not_not] at hnot
      obtain ⟨block, hother, hthis⟩ := hnot
      exact .shared hamong hother hthis
    · rename_i hfind
      -- with room and apart from the rest it would have been accepted
      obtain ⟨after, hclaim, _⟩ := h.claim hne hfits (apart_of_find h hearlier hne hfits hfind)
      rw [hclaim] at hfails
      cases hfails

/-- The claim at which the walk ends is the first one that is refused: those
before it were all taken. -/
theorem acceptAll_error {claims : List Claim} (earlier : List Claim) {m : BlockMap} {e : Error}
    (h : m.Owns (extents earlier)) (hearlier : ∀ d ∈ earlier, d.extent.count.toNat ≠ 0)
    (hfails : m.acceptAll earlier claims = .error e) :
    ∃ before c later, claims = before ++ c :: later
      ∧ (∃ after, m.acceptAll earlier before = .ok after)
      ∧ Refusal m.total (earlier ++ before) c e := by
  -- along the walk; what is refused later was refused beside all the claims before it
  induction claims generalizing m earlier with
  | nil => cases hfails
  | cons c rest ih =>
      unfold acceptAll at hfails
      split at hfails
      · rename_i hempty
        obtain ⟨before, d, later, rfl, ⟨after, htaken⟩, hrefusal⟩ := ih _ h hearlier hfails
        refine ⟨c :: before, d, later, rfl, ⟨after, ?_⟩, hrefusal.mono fun x hx => ?_⟩
        · rw [acceptAll, if_pos hempty]
          exact htaken
        · rw [List.mem_append] at hx ⊢
          exact hx.imp_right (List.mem_cons_of_mem c)
      · rename_i hnot
        have hne : c.extent.count.toNat ≠ 0 := fun h => hnot (c.extent.isEmpty_iff.mpr h)
        cases haccept : m.accept earlier c with
        | error e' =>
            rw [haccept] at hfails
            cases hfails
            -- this one is refused
            refine ⟨[], c, rest, rfl, ⟨m, rfl⟩, ?_⟩
            rw [List.append_nil]
            exact accept_error h hearlier hne haccept
        | ok next =>
            rw [haccept] at hfails
            obtain ⟨howns, htotal, _⟩ := accept_ok h hearlier hne haccept
            obtain ⟨before, d, later, rfl, ⟨after, htaken⟩, hrefusal⟩ :=
              ih _ howns (List.forall_mem_append.mpr
                ⟨hearlier, List.forall_mem_singleton.mpr hne⟩) hfails
            refine ⟨c :: before, d, later, rfl, ⟨after, ?_⟩, ?_⟩
            · rw [acceptAll, if_neg hnot, haccept]
              exact htaken
            · rw [htotal, List.append_assoc, List.singleton_append] at hrefusal
              exact hrefusal

/-- **Claims that make no map**: the first one that is refused contradicts the
size of the vault or a claim before it. -/
theorem refusal_of_ofClaims {total : UInt64} {blockSize : UInt32} {claims : List Claim}
    {e : Error} (hfails : ofClaims total blockSize claims = .error e) :
    ∃ before c later, claims = before ++ c :: later
      ∧ (∃ m, ofClaims total blockSize before = .ok m) ∧ Refusal total before c e :=
  acceptAll_error [] (owns_blank total blockSize) (fun _ hd => absurd hd List.not_mem_nil) hfails

/-- Claims are refused as a fault of the image, and as nothing else. -/
theorem ofClaims_error {total : UInt64} {blockSize : UInt32} {claims : List Claim} {e : Error}
    (hfails : ofClaims total blockSize claims = .error e) : ∃ cause, e = .corrupt cause := by
  obtain ⟨_, _, _, _, _, hrefusal⟩ := refusal_of_ofClaims hfails
  exact hrefusal.corrupt

/-- A claim with room, apart from all earlier ones, is accepted. -/
theorem accept_of_apart {m : BlockMap} {earlier : List Claim} {c : Claim}
    (h : m.Owns (extents earlier)) (hearlier : ∀ d ∈ earlier, d.extent.count.toNat ≠ 0)
    (hne : c.extent.count.toNat ≠ 0) (hfits : c.extent.Fits m.total)
    (hapart : ∀ d ∈ earlier, d.extent.Apart c.extent) :
    ∃ after, m.accept earlier c = .ok after := by
  -- no earlier owner reaches into the extent
  have hfind : earlier.find? (fun other => other.extent.overlaps c.extent) = none := by
    rw [List.find?_eq_none]
    intro d hd
    rw [Bool.not_eq_true, Extent.overlaps_eq_false_iff
      (h.within _ (List.mem_map_of_mem hd)) hfits (hearlier d hd) hne]
    exact hapart d hd
  obtain ⟨after, hclaim, _⟩ := h.claim hne hfits (by
    intro e he
    obtain ⟨d, hd, rfl⟩ := List.mem_map.mp he
    exact (hapart d hd).symm)
  refine ⟨after, ?_⟩
  unfold accept
  have hyes := (fits_iff hne).mpr hfits
  rw [hyes, hfind]
  exact hclaim

/-- Claims with room, apart from each other, are accepted one after another. -/
theorem acceptAll_ok {claims : List Claim} (earlier : List Claim) {m : BlockMap}
    (h : m.Owns (extents earlier)) (hearlier : ∀ d ∈ earlier, d.extent.count.toNat ≠ 0)
    (hfits : ∀ e ∈ extents claims, e.Fits m.total)
    (hapart : (extents (earlier ++ claims)).Pairwise Extent.Apart) :
    ∃ after, m.acceptAll earlier claims = .ok after := by
  induction claims generalizing m earlier with
  | nil => exact ⟨m, rfl⟩
  | cons c rest ih =>
      have hrest : ∀ e ∈ extents rest, e.Fits m.total :=
        fun e he => hfits e (List.mem_cons_of_mem _ he)
      unfold acceptAll
      split
      · -- passed over, so the claims taken so far are the same
        apply ih _ h hearlier hrest
        refine List.Pairwise.sublist ?_ hapart
        unfold extents
        rw [List.map_append, List.map_append, List.map_cons]
        exact (List.Sublist.refl _).append (List.sublist_cons_self _ _)
      · rename_i hnot
        have hne : c.extent.count.toNat ≠ 0 := fun h => hnot (c.extent.isEmpty_iff.mpr h)
        have hbefore : ∀ d ∈ earlier, d.extent.Apart c.extent := by
          unfold extents at hapart
          rw [List.map_append, List.pairwise_append] at hapart
          exact fun d hd => hapart.2.2 _ (List.mem_map_of_mem hd) _ List.mem_cons_self
        obtain ⟨next, haccept⟩ :=
          accept_of_apart h hearlier hne (hfits _ List.mem_cons_self) hbefore
        obtain ⟨howns, htotal, _⟩ := accept_ok h hearlier hne haccept
        rw [haccept]
        apply ih _ howns
        · exact List.forall_mem_append.mpr ⟨hearlier, List.forall_mem_singleton.mpr hne⟩
        · rw [htotal]
          exact hrest
        · rw [List.append_assoc, List.singleton_append]
          exact hapart

/-- **Claims that fit and are apart make a map.** -/
theorem ofClaims_ok {total : UInt64} (blockSize : UInt32) {claims : List Claim}
    (hfits : ∀ e ∈ extents claims, e.Fits total)
    (hapart : (extents claims).Pairwise Extent.Apart) :
    ∃ m, ofClaims total blockSize claims = .ok m :=
  acceptAll_ok [] (owns_blank total blockSize) (fun _ hd => absurd hd List.not_mem_nil) hfits
    hapart

end BlockMap

end StateVault
