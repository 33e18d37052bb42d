/-
  StateVault.Proofs.Json.Reading
  ──────────────────────────────
  **WHAT THE READER MAKES OF TOKENS.**

  Forwards: the tokens of a value lead to it, in any place where a value may
  stand, if its levels and the frames around it are at most 127; otherwise
  they lead nowhere.

  Backwards: a value that comes out, of whatever tokens, has no more than
  127 levels and no key twice in any object.  One token keeps this of all
  that was read so far (`Progress.Sound.step`), so all of them do.

    • `run_tokens`         — forwards, within any frames,
    • `ofText?_render`     — a value is read from its text, or is too deep,
    • `wellFormed_of_read` — backwards.
-/
import StateVault.Json.Reader
import StateVault.Proofs.Json.Scanning

namespace StateVault.Json

/-! ## §1. Running over tokens. -/

/-- Where tokens lead. -/
def run (p : Progress) (ts : List Token) : Option Progress :=
  ts.foldlM step p

variable {p : Progress} {t : Token} {ts : List Token} {frames : List Frame} {v : Json}

theorem run_cons : run p (t :: ts) = (step p t).bind (run · ts) := by
  rw [run, List.foldlM_cons]
  rfl

/-- One token that leads somewhere. -/
theorem run_of_step {p' : Progress} (h : step p t = some p') : run p (t :: ts) = run p' ts := by
  rw [run_cons, h, Option.bind_some]

theorem run_of_stuck (h : step p t = none) : run p (t :: ts) = none := by
  rw [run_cons, h, Option.bind_none]

/-! ## §2. The tokens of a value lead to it. -/

/-- The tokens of a value start with none that closes an array. -/
theorem tokens_start (v : Json) : ∃ t ts, tokens v = t :: ts ∧ t ≠ .closeBracket := by
  match v with
  | null | bool _ | integer _ | float _ | string _ => exact ⟨_, _, rfl, Token.noConfusion⟩
  | array [] | array (_ :: _) => exact ⟨_, _, rfl, Token.noConfusion⟩
  | object [] | object ((_, _) :: _) => exact ⟨_, _, rfl, Token.noConfusion⟩

/-- The first item is read as any other value, within the array. -/
theorem run_firstItem (v : Json) (rest : List Token) :
    run (.firstItem frames) (tokens v ++ rest)
      = run (.value (.items [] :: frames)) (tokens v ++ rest) := by
  obtain ⟨t, ts, htokens, hnot⟩ := tokens_start v
  rw [htokens, List.cons_append, run_cons, run_cons]
  cases t with
  | closeBracket => exact absurd rfl hnot
  | _ => rfl

/-- Two limits one after the other are one limit. -/
theorem ite_both {a b c : Prop} [Decidable a] [Decidable b] [Decidable c]
    {outcome : Option Progress} (h : c ↔ a ∧ b) :
    (if a then (if b then outcome else none) else none) = if c then outcome else none := by
  by_cases ha : a
  · simp [h, ha]
  · simp [h, ha]

theorem fits_max {n a b : Nat} :
    n + (max a b + 1) ≤ maxDepth ↔ n + 1 + a ≤ maxDepth ∧ n + 1 + b ≤ maxDepth := by
  omega

/-- A scalar is one token, and fits wherever a value may stand. -/
theorem run_scalar {t : Token} (htokens : tokens v = [t])
    (hstep : step (.value frames) t = some (.after v frames)) (hdepth : v.depth = 0)
    (hroom : frames.length ≤ maxDepth) (rest : List Token) :
    run (.value frames) (tokens v ++ rest)
      = if frames.length + v.depth ≤ maxDepth then run (.after v frames) rest else none := by
  rw [htokens, List.singleton_append, run_of_step hstep, hdepth, Nat.add_zero, if_pos hroom]

/-- An array is opened while there is room; what it leads to then is known. -/
theorem run_openBracket {depth : Nat} {ts : List Token} {outcome : Option Progress}
    (h : frames.length < maxDepth → run (.firstItem frames) ts
      = if frames.length + (depth + 1) ≤ maxDepth then outcome else none) :
    run (.value frames) (.openBracket :: ts)
      = if frames.length + (depth + 1) ≤ maxDepth then outcome else none := by
  by_cases hopen : frames.length < maxDepth
  · have hstep : step (.value frames) .openBracket = some (.firstItem frames) := by
      simp [step, startValue, hasRoom, hopen]
    rw [run_of_step hstep, h hopen]
  · have hstep : step (.value frames) .openBracket = none := by
      simp [step, startValue, hasRoom, hopen]
    rw [run_of_stuck hstep, if_neg (by omega)]

/-- An object starts if there is a level left for it. -/
theorem run_openBrace {depth : Nat} {ts : List Token} {outcome : Option Progress}
    (h : frames.length < maxDepth → run (.firstKey frames) ts
      = if frames.length + (depth + 1) ≤ maxDepth then outcome else none) :
    run (.value frames) (.openBrace :: ts)
      = if frames.length + (depth + 1) ≤ maxDepth then outcome else none := by
  by_cases hopen : frames.length < maxDepth
  · have hstep : step (.value frames) .openBrace = some (.firstKey frames) := by
      simp [step, startValue, hasRoom, hopen]
    rw [run_of_step hstep, h hopen]
  · have hstep : step (.value frames) .openBrace = none := by
      simp [step, startValue, hasRoom, hopen]
    rw [run_of_stuck hstep, if_neg (by omega)]

mutual

/-- **The tokens of a value lead to it**, if it fits within the frames. -/
theorem run_tokens (v : Json) (hkeys : v.Throughout HasDistinctKeys) {frames : List Frame}
    (hroom : frames.length ≤ maxDepth) (rest : List Token) :
    run (.value frames) (tokens v ++ rest)
      = if frames.length + v.depth ≤ maxDepth then run (.after v frames) rest else none := by
  match v, hkeys with
  | null, _ | bool _, _ | integer _, _ | float _, _ | string _, _ =>
    exact run_scalar rfl rfl rfl hroom rest
  -- an opening bracket is one level more, and refused when there is none left
  | array [], _ =>
    refine run_openBracket fun hopen => ?_
    have hfits : frames.length + (itemsDepth [] + 1) ≤ maxDepth := hopen
    rw [if_pos hfits]
    exact run_of_step rfl
  | array (v :: items), hkeys =>
    have hparts := (throughout_array.mp hkeys).2
    have htokens : tokens (array (v :: items)) ++ rest
        = .openBracket :: (tokens v ++ (itemTokens items ++ .closeBracket :: rest)) := by
      simp [tokens]
    rw [htokens]
    refine run_openBracket fun hopen => ?_
    have hinner : (Frame.items [] :: frames).length ≤ maxDepth := hopen
    rw [run_firstItem, run_tokens v (hparts v List.mem_cons_self) hinner,
      run_itemTokens items (fun w hw => hparts w (List.mem_cons_of_mem _ hw)) v [] hopen]
    exact ite_both fits_max
  | object [], _ =>
    refine run_openBrace fun hopen => ?_
    have hfits : frames.length + (membersDepth [] + 1) ≤ maxDepth := hopen
    rw [if_pos hfits]
    exact run_of_step rfl
  -- the keys are distinct, so no member takes the place of another
  | object ((k, v) :: members), hkeys =>
    obtain ⟨hdistinct, hparts⟩ := throughout_object.mp hkeys
    have htokens : tokens (object ((k, v) :: members)) ++ rest
        = .openBrace :: .string k :: .colon ::
          (tokens v ++ (memberTokens members ++ .closeBrace :: rest)) := by
      simp [tokens]
    rw [htokens]
    refine run_openBrace fun hopen => ?_
    have hkey : step (.firstKey frames) (.string k) = some (.colon [] k frames) := rfl
    have hcolon : step (.colon [] k frames) .colon = some (.value (.members [] k :: frames)) := rfl
    have hinner : (Frame.members [] k :: frames).length ≤ maxDepth := hopen
    rw [run_of_step hkey, run_of_step hcolon,
      run_tokens v (hparts (k, v) List.mem_cons_self) hinner,
      run_memberTokens members (fun m hm => hparts m (List.mem_cons_of_mem _ hm)) v [] k hopen
        hdistinct]
    exact ite_both fits_max

/-- The items after the first lead to the array of all of them, if there is room
for their levels. -/
theorem run_itemTokens (items : List Json) (hkeys : ∀ v ∈ items, v.Throughout HasDistinctKeys)
    (v : Json) (done : List Json) {frames : List Frame} (hroom : frames.length < maxDepth)
    (rest : List Token) :
    run (.after v (.items done :: frames)) (itemTokens items ++ .closeBracket :: rest)
      = if frames.length + 1 + itemsDepth items ≤ maxDepth then
          run (.after (array (done.reverse ++ v :: items)) frames) rest
        else none := by
  match items, hkeys with
  -- the items done so far are kept in reverse
  | [], _ =>
    have hstep : step (.after v (.items done :: frames)) .closeBracket
        = some (.after (array (done.reverse ++ [v])) frames) := by
      simp [step]
    have hfits : frames.length + 1 + itemsDepth [] ≤ maxDepth := hroom
    rw [if_pos hfits]
    exact run_of_step hstep
  | w :: items, hkeys =>
    have hstep : step (.after v (.items done :: frames)) .comma
        = some (.value (.items (v :: done) :: frames)) := rfl
    -- a comma leads back to a value in the same array
    have hinner : (Frame.items (v :: done) :: frames).length ≤ maxDepth := hroom
    have htokens : itemTokens (w :: items) ++ .closeBracket :: rest
        = .comma :: (tokens w ++ (itemTokens items ++ .closeBracket :: rest)) := by
      simp [itemTokens]
    have hdone : (v :: done).reverse ++ w :: items = done.reverse ++ v :: w :: items := by simp
    rw [htokens, run_of_step hstep, run_tokens w (hkeys w List.mem_cons_self) hinner,
      run_itemTokens items (fun w hw => hkeys w (List.mem_cons_of_mem _ hw)) w (v :: done) hroom,
      hdone]
    exact ite_both (by simp only [itemsDepth, List.length_cons]; omega)

/-- The members after the first lead to the object of all of them, if there is
room for their levels and no key comes in twice. -/
theorem run_memberTokens (members : List (String × Json))
    (hkeys : ∀ m ∈ members, m.2.Throughout HasDistinctKeys) (v : Json)
    (done : List (String × Json)) (k : String) {frames : List Frame}
    (hroom : frames.length < maxDepth)
    (hdistinct : (keys (insertMember k v done ++ members)).Nodup) (rest : List Token) :
    run (.after v (.members done k :: frames)) (memberTokens members ++ .closeBrace :: rest)
      = if frames.length + 1 + membersDepth members ≤ maxDepth then
          run (.after (object (insertMember k v done ++ members)) frames) rest
        else none := by
  match members, hkeys with
  | [], _ =>
    have hstep : step (.after v (.members done k :: frames)) .closeBrace
        = some (.after (object (insertMember k v done ++ [])) frames) := by
      simp [step]
    have hfits : frames.length + 1 + membersDepth [] ≤ maxDepth := hroom
    rw [if_pos hfits]
    exact run_of_step hstep
  | (k', w) :: members, hkeys =>
    have hcomma : step (.after v (.members done k :: frames)) .comma
        = some (.key (insertMember k v done) frames) := rfl
    have hkey : step (.key (insertMember k v done) frames) (.string k')
        = some (.colon (insertMember k v done) k' frames) := rfl
    have hcolon : step (.colon (insertMember k v done) k' frames) .colon
        = some (.value (.members (insertMember k v done) k' :: frames)) := rfl
    have hinner : (Frame.members (insertMember k v done) k' :: frames).length ≤ maxDepth := hroom
    have htokens : memberTokens ((k', w) :: members) ++ .closeBrace :: rest
        = .comma :: .string k' :: .colon ::
          (tokens w ++ (memberTokens members ++ .closeBrace :: rest)) := by
      simp [memberTokens]
    -- the key has not come in before, so it goes to the end
    have hnew : k' ∉ keys (insertMember k v done) := by
      intro hold
      rw [keys, List.map_append] at hdistinct
      exact (List.nodup_append.mp hdistinct).2.2 k' hold k' List.mem_cons_self rfl
    have hdone : insertMember k' w (insertMember k v done) ++ members
        = insertMember k v done ++ (k', w) :: members := by
      rw [insertMember_new hnew, List.append_assoc, List.singleton_append]
    rw [htokens, run_of_step hcomma, run_of_step hkey, run_of_step hcolon,
      run_tokens w (hkeys (k', w) List.mem_cons_self) hinner,
      run_memberTokens members (fun m hm => hkeys m (List.mem_cons_of_mem _ hm)) w
        (insertMember k v done) k' hroom (by rwa [hdone]), hdone]
    exact ite_both (by simp only [membersDepth, List.length_cons]; omega)

end

/-- **A value is read from its text**, if it has no more than 127 levels. -/
theorem ofText?_render (v : Json) (hkeys : v.Throughout HasDistinctKeys)
    (hreads : v.Throughout ReadsBack) :
    ofText? (render v) = if v.depth ≤ maxDepth then some v else none := by
  have hrun : run (.value []) (tokens v ++ [])
      = if ([] : List Frame).length + v.depth ≤ maxDepth then run (.after v []) [] else none :=
    run_tokens v hkeys (Nat.zero_le _) []
  rw [List.append_nil, List.length_nil, Nat.zero_add] at hrun
  rw [ofText?, scan_render v hreads, Option.bind_some, ofTokens?, ← run, hrun]
  split
  · rfl
  · rfl

/-! ## §3. What comes out of any tokens. -/

/-- A value as the reader may have it under so many open containers: it fits
there, and no object in it has a key twice. -/
structure Sound (n : Nat) (v : Json) : Prop where
  fits : n + v.depth ≤ maxDepth
  distinct : v.Throughout HasDistinctKeys

/-- Members read so far, under so many open containers with their own. -/
structure SoundMembers (n : Nat) (members : List (String × Json)) : Prop where
  distinct : (keys members).Nodup
  sound : ∀ m ∈ members, Sound n m.2

/-- What an open container holds is sound; `n` counts it and those around. -/
def Frame.Sound (n : Nat) : Frame → Prop
  | .items done => ∀ v ∈ done, Json.Sound n v
  | .members done _ => SoundMembers n done

/-- Open containers within each other, no more of them than may be. -/
def SoundFrames : List Frame → Prop
  | [] => True
  | f :: frames => frames.length < maxDepth ∧ f.Sound (frames.length + 1) ∧ SoundFrames frames

/-- All that was read so far is sound. -/
def Progress.Sound : Progress → Prop
  | .value frames => SoundFrames frames
  | .firstItem frames => frames.length < maxDepth ∧ SoundFrames frames
  | .firstKey frames => frames.length < maxDepth ∧ SoundFrames frames
  | .key done frames =>
      frames.length < maxDepth ∧ SoundMembers (frames.length + 1) done ∧ SoundFrames frames
  | .colon done _ frames =>
      frames.length < maxDepth ∧ SoundMembers (frames.length + 1) done ∧ SoundFrames frames
  | .after v frames => Json.Sound frames.length v ∧ SoundFrames frames

/-- The words among tokens are scalars. -/
def Token.IsPlain : Token → Prop
  | .word v => v.IsScalar
  | _ => True

theorem SoundFrames.length_le (h : SoundFrames frames) : frames.length ≤ maxDepth := by
  cases frames with
  | nil => exact Nat.zero_le _
  | cons f frames => exact h.1

/-- A scalar is sound wherever it stands. -/
theorem sound_of_isScalar (h : v.IsScalar) {n : Nat} (hn : n ≤ maxDepth) : Sound n v where
  fits := by rwa [depth_of_isScalar h]
  distinct := by
    rw [throughout_of_isScalar h]
    cases v with
    | object members => exact h.elim
    | _ => trivial

/-- An array that is closed. -/
theorem sound_array {n : Nat} (hn : n < maxDepth) {items : List Json}
    (h : ∀ v ∈ items, Sound (n + 1) v) : Sound n (array items) where
  fits := by
    have hitems : itemsDepth items ≤ maxDepth - (n + 1) := by
      refine itemsDepth_le.mpr fun v hv => ?_
      have hfits := (h v hv).fits
      omega
    rw [depth]
    omega
  distinct := throughout_array.mpr ⟨trivial, fun v hv => (h v hv).distinct⟩

theorem sound_object {n : Nat} (hn : n < maxDepth) {members : List (String × Json)}
    (h : SoundMembers (n + 1) members) : Sound n (object members) where
  fits := by
    have hmembers : membersDepth members ≤ maxDepth - (n + 1) := by
      refine membersDepth_le.mpr fun m hm => ?_
      have hfits := (h.sound m hm).fits
      omega
    rw [depth]
    omega
  distinct := throughout_object.mpr ⟨h.distinct, fun m hm => (h.sound m hm).distinct⟩

/-- Members stay sound when one more is put in. -/
theorem SoundMembers.insert {n : Nat} {members : List (String × Json)} (h : SoundMembers n members)
    (k : String) (hv : Json.Sound n v) : SoundMembers n (insertMember k v members) where
  distinct := nodup_keys_insertMember h.distinct
  sound m hm := by
    rcases mem_insertMember hm with rfl | hold
    · exact hv
    · exact h.sound m hold

theorem soundMembers_nil {n : Nat} : SoundMembers n [] where
  distinct := List.nodup_nil
  sound _ hm := absurd hm List.not_mem_nil

/-- A value that starts. -/
theorem sound_startValue (h : SoundFrames frames) (ht : t.IsPlain) {p' : Progress}
    (hstart : startValue frames t = some p') : p'.Sound := by
  unfold startValue at hstart
  split at hstart
  · -- a scalar fits wherever a value is due
    cases hstart
    exact ⟨sound_of_isScalar ht h.length_le, h⟩
  · cases hstart
    exact ⟨sound_of_isScalar (v := string _) trivial h.length_le, h⟩
  · -- a bracket or a brace fits by the check the reader makes
    split at hstart
    · next hroom =>
      cases hstart
      exact ⟨of_decide_eq_true hroom, h⟩
    · cases hstart
  · split at hstart
    · next hroom =>
      cases hstart
      exact ⟨of_decide_eq_true hroom, h⟩
    · cases hstart
  · cases hstart

/-- **One token**: what was read stays sound. -/
theorem Progress.Sound.step {p' : Progress} (h : p.Sound) (ht : t.IsPlain)
    (hstep : Json.step p t = some p') : p'.Sound := by
  unfold Json.step at hstep
  split at hstep
  · exact sound_startValue h ht hstep
  · -- an array without items
    cases hstep
    exact ⟨sound_array h.1 (by simp), h.2⟩
  · -- the first item of an array
    have hframes : SoundFrames (.items [] :: _) := ⟨h.1, by simp [Frame.Sound], h.2⟩
    exact sound_startValue hframes ht hstep
  · -- an object without members
    cases hstep
    exact ⟨sound_object h.1 soundMembers_nil, h.2⟩
  · -- the first key of an object
    cases hstep
    exact ⟨h.1, soundMembers_nil, h.2⟩
  · -- another key
    cases hstep
    exact h
  · -- a colon
    cases hstep
    exact h
  · -- another item
    cases hstep
    obtain ⟨hv, hroom, hdone, hframes⟩ := h
    exact ⟨hroom, List.forall_mem_cons.mpr ⟨hv, hdone⟩, hframes⟩
  · -- the end of an array
    cases hstep
    obtain ⟨hv, hroom, hdone, hframes⟩ := h
    refine ⟨sound_array hroom fun w hw => ?_, hframes⟩
    exact List.forall_mem_cons.mpr ⟨hv, hdone⟩ w (List.mem_reverse.mp hw)
  · -- another member
    cases hstep
    obtain ⟨hv, hroom, hdone, hframes⟩ := h
    exact ⟨hroom, SoundMembers.insert hdone _ hv, hframes⟩
  · -- the end of an object
    cases hstep
    obtain ⟨hv, hroom, hdone, hframes⟩ := h
    exact ⟨sound_object hroom (SoundMembers.insert hdone _ hv), hframes⟩
  · cases hstep

/-- What is sound stays so over any tokens. -/
theorem Progress.Sound.run {p' : Progress} (h : p.Sound) (ht : ∀ t ∈ ts, t.IsPlain)
    (hrun : Json.run p ts = some p') : p'.Sound := by
  induction ts generalizing p with
  | nil =>
    cases hrun
    exact h
  | cons t ts ih =>
    rw [run_cons, Option.bind_eq_some_iff] at hrun
    obtain ⟨next, hstep, hrest⟩ := hrun
    exact ih (h.step (ht t List.mem_cons_self) hstep)
      (fun t ht' => ht t (List.mem_cons_of_mem _ ht')) hrest

theorem mark?_ne_word (c : Char) (v : Json) : mark? c ≠ some (.word v) := by
  unfold mark?
  split <;> simp

/-- The words that are scanned are scalars. -/
theorem isPlain_of_scanFrom {found : List Token} {text : List Char}
    (hfound : ∀ t ∈ found, t.IsPlain) (h : Token.scanFrom found text = some ts) :
    ∀ t ∈ ts, t.IsPlain := by
  fun_induction Token.scanFrom found text with
  | case1 found =>
    cases h
    exact fun t ht => hfound t (List.mem_reverse.mp ht)
  | case2 found c rest hblank ih => exact ih hfound h
  -- a string is plain by itself, a word because it was read as a scalar
  | case3 found rest _ s rest' hstring ih =>
    exact ih (List.forall_mem_cons.mpr ⟨trivial, hfound⟩) h
  | case4 => cases h
  | case5 found c rest _ _ _ v hword ih =>
    exact ih (List.forall_mem_cons.mpr ⟨IsScalar.of_word? hword, hfound⟩) h
  | case6 => cases h
  | case7 found c rest _ _ _ t hmark ih =>
    refine ih (List.forall_mem_cons.mpr ⟨?_, hfound⟩) h
    -- no mark is a word
    cases t with
    | word v => exact absurd hmark (mark?_ne_word c v)
    | _ => trivial
  | case8 => cases h

/-- **What is read from a text** has no more than 127 levels, and no key twice
in any object. -/
theorem wellFormed_of_read {text : List Char} (h : ofText? text = some v) :
    v.depth ≤ maxDepth ∧ v.Throughout HasDistinctKeys := by
  obtain ⟨ts, hscan, hread⟩ := Option.bind_eq_some_iff.mp h
  obtain ⟨p, hrun, hfinish⟩ := Option.bind_eq_some_iff.mp hread
  have hplain : ∀ t ∈ ts, t.IsPlain := isPlain_of_scanFrom (by simp) hscan
  have hsound : p.Sound := Progress.Sound.run (p := .value []) trivial hplain hrun
  unfold finish at hfinish
  split at hfinish
  · cases hfinish
    exact ⟨by simpa using hsound.1.fits, hsound.1.distinct⟩
  · cases hfinish

end StateVault.Json
