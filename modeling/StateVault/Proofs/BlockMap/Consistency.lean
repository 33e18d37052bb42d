/-
  StateVault.Proofs.BlockMap.Consistency
  ──────────────────────────────────────
  **CLAIMS MAKE A MAP EXACTLY WHEN NO BLOCK IS CLAIMED TWICE.**

  The walk over the claims compares saturated ends, pair by pair, and marks
  bits.  What it accepts is said here of sets of blocks alone: every claim
  ends within the vault, its end taken exactly, and claims at different
  places share no block (`Consistent`).  What it makes is said of the claims
  alone (`IsMapOf`), and so is the same for every order of them.

    • `ofClaims_iff`           — which claims make a map,
    • `isMapOf_of_ofClaims`    — the map that they make,
    • `IsMapOf.unique`         — there is only one such map,
    • `toOption_ofClaims_perm` — so that the order does not matter,
    • `claims_exact`           — all of it, and the errors.
-/
import StateVault.Proofs.BlockMap.Claims
import StateVault.Proofs.BlockMap.Refinement

namespace StateVault.BlockMap

/-! ## §1. Claims that go together. -/

/-- Every claim that has blocks ends within `total` blocks, its end taken
exactly, and no two claims at different places share a block. -/
structure Consistent (total : UInt64) (claims : List Claim) : Prop where
  within : ∀ c ∈ claims, c.extent.count ≠ 0 →
    c.extent.start.toNat + c.extent.count.toNat ≤ total.toNat
  apart : ∀ (i j : Nat) (hi : i < claims.length) (hj : j < claims.length), i ≠ j →
    Disjoint (blocksOf claims[i].extent) (blocksOf claims[j].extent)

variable {total : UInt64} {blockSize : UInt32} {claims claims' : List Claim} {m m' : BlockMap}

/-- Within a vault the saturated end of an extent is the exact one. -/
theorem mem_blocksOf {e : Extent} (h : e.Fits total) (block : Nat) :
    block ∈ blocksOf e ↔ block ∈ e := by
  rw [blocksOf, Finset.mem_Ico, h.mem_iff]

/-- Extents that fit are apart if no block is in both. -/
theorem disjoint_iff_apart {a b : Extent} (ha : a.Fits total) (hb : b.Fits total) :
    Disjoint (blocksOf a) (blocksOf b) ↔ a.Apart b := by
  simp only [Finset.disjoint_left, mem_blocksOf ha, mem_blocksOf hb, Extent.Apart]

/-- An extent fits if it has no blocks or ends within the map. -/
theorem fits_iff_within (e : Extent) :
    e.Fits total ↔ (e.count ≠ 0 → e.start.toNat + e.count.toNat ≤ total.toNat) := by
  have hzero : e.count ≠ 0 ↔ e.count.toNat ≠ 0 := by
    rw [ne_eq, ← UInt64.toNat_inj]
    rfl
  unfold Extent.Fits
  rw [hzero]
  omega

/-- Claims go together exactly when their extents fit and are apart in pairs. -/
theorem consistent_iff :
    Consistent total claims
      ↔ (∀ e ∈ extents claims, e.Fits total) ∧ (extents claims).Pairwise Extent.Apart := by
  have hwithin : (∀ e ∈ extents claims, e.Fits total) ↔ ∀ c ∈ claims, c.extent.Fits total :=
    List.forall_mem_map
  rw [hwithin, extents, List.pairwise_map, List.pairwise_iff_getElem]
  constructor
  · intro h
    have hfits : ∀ c ∈ claims, c.extent.Fits total :=
      fun c hc => (fits_iff_within c.extent).mpr (h.within c hc)
    refine ⟨hfits, fun i j hi hj hlt => ?_⟩
    rw [← disjoint_iff_apart (hfits _ (List.getElem_mem hi)) (hfits _ (List.getElem_mem hj))]
    exact h.apart i j hi hj (Nat.ne_of_lt hlt)
  · rintro ⟨hfits, hapart⟩
    refine ⟨fun c hc => (fits_iff_within c.extent).mp (hfits c hc), fun i j hi hj hne => ?_⟩
    rw [disjoint_iff_apart (hfits _ (List.getElem_mem hi)) (hfits _ (List.getElem_mem hj))]
    -- the list tells of pairs in their order; being apart has none
    rcases Nat.lt_or_gt_of_ne hne with hlt | hgt
    · exact hapart i j hi hj hlt
    · exact (hapart j i hj hi hgt).symm

/-- Whether claims go together does not depend on their order. -/
theorem Consistent.perm (h : Consistent total claims) (hp : claims.Perm claims') :
    Consistent total claims' := by
  have hextents : (extents claims).Perm (extents claims') := hp.map _
  rw [consistent_iff] at h ⊢
  exact ⟨fun e he => h.1 e (hextents.mem_iff.mpr he),
    (hextents.pairwise_iff Extent.Apart.symm).mp h.2⟩

/-! ## §2. The map of some claims. -/

/-- The map of `total` blocks in which exactly the claimed ones are in use,
with a running count that is right. -/
structure IsMapOf (total : UInt64) (blockSize : UInt32) (claims : List Claim) (m : BlockMap) :
    Prop where
  represents : m.Represents
  used : ∀ block, m.isUsed block = true ↔ ∃ c ∈ claims, block ∈ blocksOf c.extent
  free : m.free.toNat + (claims.map fun c => c.extent.count.toNat).sum = total.toNat
  total : m.total = total
  blockSize : m.blockSize = blockSize

/-- The blocks of claims are counted claim by claim. -/
theorem blocks_extents (claims : List Claim) :
    blocks (extents claims) = (claims.map fun c => c.extent.count.toNat).sum := by
  induction claims with
  | nil => rfl
  | cons c rest ih =>
    rw [List.map_cons, List.sum_cons, ← ih]
    rfl

/-- A map whose owners are the claims is the map of them. -/
theorem isMapOf_of_owns (h : m.Owns (extents claims)) (htotal : m.total = total)
    (hsize : m.blockSize = blockSize) : IsMapOf total blockSize claims m where
  represents := by
    refine ⟨h.tidy, ?_⟩
    rw [h.tidy.card_used]
    exact h.counted
  total := htotal
  blockSize := hsize
  used block := by
    rw [h.used block, extents]
    constructor
    · rintro ⟨e, he, hmem⟩
      obtain ⟨c, hc, rfl⟩ := List.mem_map.mp he
      exact ⟨c, hc, (mem_blocksOf (h.within _ he) block).mpr hmem⟩
    · rintro ⟨c, hc, hmem⟩
      have he : c.extent ∈ extents claims := List.mem_map_of_mem hc
      exact ⟨c.extent, he, (mem_blocksOf (h.within _ he) block).mp hmem⟩
  free := by
    rw [← blocks_extents, ← htotal]
    exact h.count

/-- The order of the claims does not matter to their map. -/
theorem IsMapOf.perm (h : IsMapOf total blockSize claims m) (hp : claims.Perm claims') :
    IsMapOf total blockSize claims' m where
  represents := h.represents
  total := h.total
  blockSize := h.blockSize
  used block := by
    rw [h.used block]
    simp only [hp.mem_iff]
  free := by
    rw [← (hp.map fun c => c.extent.count.toNat).sum_eq]
    exact h.free

/-- Claims have one map only: total, count and bits follow from them. -/
theorem IsMapOf.unique (h : IsMapOf total blockSize claims m)
    (h' : IsMapOf total blockSize claims m') : m = m' := by
  have hfree := h.free
  have hfree' := h'.free
  apply h.represents.tidy.eq_of_isUsed h'.represents.tidy
  · rw [h.total, h'.total]
  · exact UInt64.toNat_inj.mp (by omega)
  · rw [h.blockSize, h'.blockSize]
  · intro block
    rw [Bool.eq_iff_iff, h.used, h'.used]

/-! ## §3. What the walk makes of claims. -/

/-- What the walk over the claims comes to is their map. -/
theorem isMapOf_of_ofClaims (h : ofClaims total blockSize claims = .ok m) :
    IsMapOf total blockSize claims m := by
  obtain ⟨howns, htotal, hsize⟩ := owns_of_ofClaims h
  exact isMapOf_of_owns howns htotal hsize

/-- **Claims make a map exactly when they go together.** -/
theorem ofClaims_iff :
    (∃ m, ofClaims total blockSize claims = .ok m) ↔ Consistent total claims := by
  rw [consistent_iff]
  constructor
  · rintro ⟨m, hok⟩
    obtain ⟨howns, rfl, _⟩ := owns_of_ofClaims hok
    exact ⟨howns.within, howns.apart⟩
  · rintro ⟨hfits, hapart⟩
    exact ofClaims_ok blockSize hfits hapart

/-- **The order of the claims does not matter**, neither for whether they make a
map nor for the map. -/
theorem toOption_ofClaims_perm (hp : claims.Perm claims') :
    (ofClaims total blockSize claims).toOption = (ofClaims total blockSize claims').toOption := by
  -- both orders are accepted or none, and what is accepted has one map only
  have hboth : (∃ m, ofClaims total blockSize claims = .ok m)
      ↔ ∃ m, ofClaims total blockSize claims' = .ok m := by
    rw [ofClaims_iff, ofClaims_iff]
    exact ⟨fun h => h.perm hp, fun h => h.perm hp.symm⟩
  cases hok : ofClaims total blockSize claims with
  | ok m =>
    obtain ⟨m', hok'⟩ := hboth.mp ⟨m, hok⟩
    have hsame := ((isMapOf_of_ofClaims hok).perm hp).unique (isMapOf_of_ofClaims hok')
    rw [hok', hsame]
  | error e =>
    cases hok' : ofClaims total blockSize claims' with
    | ok m' =>
      obtain ⟨m, hsome⟩ := hboth.mpr ⟨m', hok'⟩
      rw [hok] at hsome
      cases hsome
    | error e' => rfl

/-- **What claims come to.**  They make a map exactly when they go together; it
is the one map of them, in whatever order they come.  Else the first claim
that does not go with those before it is told, for its place or for the
earlier one that it shares a block with; marking blocks never fails. -/
theorem claims_exact (total : UInt64) (blockSize : UInt32) (claims : List Claim) :
    ((∃ m, ofClaims total blockSize claims = .ok m) ↔ Consistent total claims)
      ∧ (∀ m, ofClaims total blockSize claims = .ok m → IsMapOf total blockSize claims m)
      ∧ (∀ e, ofClaims total blockSize claims = .error e → (∃ cause, e = .corrupt cause)
          ∧ ∃ before c later, claims = before ++ c :: later ∧ Consistent total before
            ∧ Refusal total before c e)
      ∧ ∀ claims', claims.Perm claims' →
          (ofClaims total blockSize claims).toOption
            = (ofClaims total blockSize claims').toOption := by
  refine ⟨ofClaims_iff, fun _ => isMapOf_of_ofClaims, fun e hfails => ?_,
    fun _ => toOption_ofClaims_perm⟩
  obtain ⟨before, c, later, hsplit, htaken, hrefusal⟩ := refusal_of_ofClaims hfails
  exact ⟨hrefusal.corrupt, before, c, later, hsplit, ofClaims_iff.mp htaken, hrefusal⟩

/-- Four blocks across two words, two before them, and none at the largest
word. -/
def spread : List Claim :=
  [⟨"a", ⟨62, 4⟩⟩, ⟨"b", ⟨0, 2⟩⟩, ⟨"c", ⟨Word.largest, 0⟩⟩]

/-- They make one map in either order; with one more claim, whose end wraps,
they make none. -/
theorem claims_exact_spread :
    (∃ m, ofClaims 70 512 spread = .ok m ∧ ofClaims 70 512 spread.reverse = .ok m
        ∧ m.free.toNat = 64 ∧ m.isUsed 65 = true ∧ m.isUsed 66 = false)
      ∧ ∃ e, ofClaims 70 512 (spread ++ [⟨"d", ⟨Word.largest, 2⟩⟩]) = .error e
        ∧ ∃ cause, e = .corrupt cause := by
  constructor
  · obtain ⟨_, hmap, _, horder⟩ := claims_exact 70 512 spread
    cases hok : ofClaims 70 512 spread with
    | error e =>
      have hmakes : (ofClaims 70 512 spread).isOk = true := by decide +kernel
      rw [hok] at hmakes
      cases hmakes
    | ok m =>
      -- the other order gives the same map
      have hreverse := horder _ (List.reverse_perm spread).symm
      rw [hok] at hreverse
      have hm := hmap m hok
      have hfree := hm.free
      have hsum : (spread.map fun c => c.extent.count.toNat).sum = 6 := by decide
      have htotal : (70 : UInt64).toNat = 70 := rfl
      refine ⟨m, rfl, ?_, by omega, (hm.used 65).mpr ⟨⟨"a", ⟨62, 4⟩⟩, by decide, by decide⟩, ?_⟩
      · cases hback : ofClaims 70 512 spread.reverse with
        | error e =>
          rw [hback] at hreverse
          cases hreverse
        | ok m' =>
          rw [hback] at hreverse
          cases hreverse
          rfl
      · rw [Bool.eq_false_iff, ne_eq, hm.used 66]
        decide
  · obtain ⟨_, _, herror, _⟩ := claims_exact 70 512 (spread ++ [⟨"d", ⟨Word.largest, 2⟩⟩])
    cases hok : ofClaims 70 512 (spread ++ [⟨"d", ⟨Word.largest, 2⟩⟩]) with
    | error e => exact ⟨e, rfl, (herror e hok).1⟩
    | ok m =>
      have hmakes : (ofClaims 70 512 (spread ++ [⟨"d", ⟨Word.largest, 2⟩⟩])).isOk = false := by
        decide +kernel
      rw [hok] at hmakes
      cases hmakes

end StateVault.BlockMap
