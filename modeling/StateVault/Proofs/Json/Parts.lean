/-
  StateVault.Proofs.Json.Parts
  ────────────────────────────
  **VALUES WITHIN VALUES.**

  What is asked of a whole value is mostly asked of every value within it:
  that no object has a key twice, and that the doubles read back.
  `Throughout P v` says such a thing; it takes a value apart along its
  constructors.

    • `HasDistinctKeys`, `ReadsBack` — what is asked of one value,
    • `insertMember_new`             — a key that is new comes last,
    • `nodup_keys_insertMember`      — a key that comes in again is not had twice,
    • `depth_of_isScalar`            — scalars are not nested.
-/
import StateVault.Proofs.Json.Words

namespace StateVault.Json

/-! ## §1. The parts of a value. -/

mutual

/-- The values within a value, itself first, in the order of its text. -/
def parts : Json → List Json
  | array items => array items :: itemParts items
  | object members => object members :: memberParts members
  | v => [v]

def itemParts : List Json → List Json
  | [] => []
  | v :: rest => parts v ++ itemParts rest

def memberParts : List (String × Json) → List Json
  | [] => []
  | (_, v) :: rest => parts v ++ memberParts rest

end

/-- A property of every value within a value, itself included. -/
def Throughout (P : Json → Prop) (v : Json) : Prop :=
  ∀ w ∈ v.parts, P w

instance (P : Json → Prop) [DecidablePred P] (v : Json) : Decidable (Throughout P v) :=
  inferInstanceAs (Decidable (∀ w ∈ v.parts, P w))

/-- The keys of an object. -/
def keys (members : List (String × Json)) : List String :=
  members.map (·.1)

/-- No key twice, if the value is an object. -/
def HasDistinctKeys : Json → Prop
  | object members => (keys members).Nodup
  | _ => True

instance : DecidablePred HasDistinctKeys
  | object members => inferInstanceAs (Decidable (keys members).Nodup)
  | null | bool _ | integer _ | float _ | string _ | array _ => inferInstanceAs (Decidable True)

/-- The text of a double reads back as it. -/
def ReadsBack : Json → Prop
  | float x => number? (floatText x) = some (float x)
  | _ => True

variable {P : Json → Prop} {v : Json} {items : List Json} {k : String}
  {members : List (String × Json)}

theorem Throughout.self (h : v.Throughout P) : P v := by
  apply h
  cases v with
  | null | bool | integer | float | string => exact List.mem_singleton_self _
  | array items => exact List.mem_cons_self
  | object members => exact List.mem_cons_self

theorem throughout_of_isScalar (hscalar : v.IsScalar) : v.Throughout P ↔ P v := by
  cases v with
  | null | bool | integer | float | string => simp [Throughout, parts]
  | array items => exact hscalar.elim
  | object members => exact hscalar.elim

/-- The parts of some items are those of each. -/
theorem mem_itemParts {w : Json} : w ∈ itemParts items ↔ ∃ v ∈ items, w ∈ v.parts := by
  induction items with
  | nil => simp [itemParts]
  | cons v items ih => simp [itemParts, ih]

/-- The parts of some members are those of each value. -/
theorem mem_memberParts {w : Json} : w ∈ memberParts members ↔ ∃ m ∈ members, w ∈ m.2.parts := by
  induction members with
  | nil => simp [memberParts]
  | cons m members ih => simp [memberParts, ih]

/-- What holds throughout an array holds of it and throughout its items. -/
theorem throughout_array :
    (array items).Throughout P ↔ P (array items) ∧ ∀ v ∈ items, v.Throughout P := by
  simp only [Throughout, parts, List.forall_mem_cons, mem_itemParts]
  exact and_congr_right fun _ =>
    ⟨fun h v hv w hw => h w ⟨v, hv, hw⟩, fun h w ⟨v, hv, hw⟩ => h v hv w hw⟩

/-- What holds throughout an object holds of it and throughout its values. -/
theorem throughout_object :
    (object members).Throughout P ↔ P (object members) ∧ ∀ m ∈ members, m.2.Throughout P := by
  simp only [Throughout, parts, List.forall_mem_cons, mem_memberParts]
  exact and_congr_right fun _ =>
    ⟨fun h m hm w hw => h w ⟨m, hm, hw⟩, fun h w ⟨m, hm, hw⟩ => h m hm w hw⟩

/-! ## §2. One more member. -/

/-- A key that is new comes last. -/
theorem insertMember_new (h : k ∉ keys members) :
    insertMember k v members = members ++ [(k, v)] := by
  induction members with
  | nil => rfl
  | cons m members ih =>
    have hne : m.1 ≠ k := fun heq => h (by simp [keys, heq])
    have hrest : k ∉ keys members := fun hk => h (List.mem_cons_of_mem _ hk)
    rw [insertMember, if_neg hne, ih hrest, List.cons_append]

/-- A member that is put in adds its key and no other. -/
theorem mem_keys_insertMember {k' : String} :
    k' ∈ keys (insertMember k v members) ↔ k' = k ∨ k' ∈ keys members := by
  induction members with
  | nil => simp [insertMember, keys]
  | cons m members ih =>
    rw [insertMember]
    split
    next heq => simp [keys, heq]
    next hne =>
      have hcons : ∀ ms, k' ∈ keys ((m.1, m.2) :: ms) ↔ k' = m.1 ∨ k' ∈ keys ms := by simp [keys]
      rw [hcons, hcons, ih]
      exact or_left_comm

/-- A key that comes in again is not had twice. -/
theorem nodup_keys_insertMember (h : (keys members).Nodup) :
    (keys (insertMember k v members)).Nodup := by
  induction members with
  | nil => simp [insertMember, keys]
  | cons m members ih =>
    have hparts : m.1 ∉ keys members ∧ (keys members).Nodup := List.nodup_cons.mp h
    rw [insertMember]
    split
    · exact h
    next hne =>
      -- the first key is not the new one, and differs from those after it
      have hnot : m.1 ∉ keys (insertMember k v members) := by
        rw [mem_keys_insertMember]
        exact not_or.mpr ⟨hne, hparts.1⟩
      exact List.nodup_cons.mpr ⟨hnot, ih hparts.2⟩

/-- The members are those from before and the new one. -/
theorem mem_insertMember {m : String × Json} (h : m ∈ insertMember k v members) :
    m = (k, v) ∨ m ∈ members := by
  induction members with
  | nil => exact .inl (List.mem_singleton.mp h)
  | cons n members ih =>
    rw [insertMember] at h
    split at h
    -- the value is replaced, the key stays as it was
    next heq =>
      rcases List.mem_cons.mp h with rfl | hm
      · exact .inl (by rw [heq])
      · exact .inr (List.mem_cons_of_mem _ hm)
    · rcases List.mem_cons.mp h with rfl | hm
      · exact .inr List.mem_cons_self
      · exact (ih hm).imp_right (List.mem_cons_of_mem _)

/-! ## §3. Nesting. -/

theorem depth_of_isScalar (h : v.IsScalar) : v.depth = 0 := by
  cases v with
  | null | bool | integer | float | string => rfl
  | array items => exact h.elim
  | object members => exact h.elim

/-- Items are no deeper than a bound if none of them is. -/
theorem itemsDepth_le {n : Nat} : itemsDepth items ≤ n ↔ ∀ v ∈ items, v.depth ≤ n := by
  induction items with
  | nil => simp [itemsDepth]
  | cons v items ih => rw [itemsDepth, Nat.max_le, ih, List.forall_mem_cons]

/-- Members are no deeper than a bound if none of their values is. -/
theorem membersDepth_le {n : Nat} : membersDepth members ≤ n ↔ ∀ m ∈ members, m.2.depth ≤ n := by
  induction members with
  | nil => simp [membersDepth]
  | cons m members ih =>
    obtain ⟨k, v⟩ := m
    rw [membersDepth, Nat.max_le, ih, List.forall_mem_cons]

end StateVault.Json
