/-
  StateVault.Proofs.Superblock.Selection
  ──────────────────────────────────────
  **THE COPY THAT COUNTS IS THE LATER ONE, AND IT COUNTS AT EITHER PLACE.**

  Two copies are read apart from each other, and what is told of them depends
  on nothing else.  A copy counts when it can be read and the other one is
  damaged, or is just one generation older; next to a copy of another version
  none counts.  When none counts, there is one error to tell.

    • `chooseAt_eq_ok_iff`   — when the copy at a place counts,
    • `choose_eq_error_iff`  — when none does, and what is told,
    • `current_selects`      — both for the region of an image, and that the
                               places of the copies play no part in it.
-/
import StateVault.Proofs.Superblock.Copies

namespace StateVault.Superblock

/-! ## §1. A copy that counts. -/

/-- The copy at a place is read as `s`, and the other one is of no version
that this library cannot read; if the other one is read at all, it is one
generation older. -/
structure Counts (region : ByteArray) (slot : Slot) (s : Superblock) : Prop where
  read : copyIn region slot = .ok s
  supported : ¬ Unsupported (copyIn region slot.other)
  later : ∀ older, copyIn region slot.other = .ok older →
    older.generation.toNat + 1 = s.generation.toNat

/-- With an unsupported version at one place nothing is chosen, whatever the
other holds. -/
theorem chooseAt_of_unsupported {here other : Except Error Superblock}
    (h : Unsupported here ∨ Unsupported other) (slot : Slot) (place : Slot × Superblock) :
    ¬ chooseAt slot here other = .ok place := by
  -- a fault of version at either place is what `choose` looks at first
  have hchoose : ∀ first second, Unsupported first ∨ Unsupported second →
      ¬ choose first second = .ok place := by
    rintro first second (⟨major, minor, rfl⟩ | ⟨major, minor, rfl⟩) hok
    · cases hok
    · unfold choose at hok
      cases hfault : versionFault? first with
      | none =>
        rw [hfault] at hok
        cases hok
      | some e =>
        rw [hfault] at hok
        cases hok
  cases slot with
  | first => exact hchoose here other h
  | second => exact hchoose other here h.symm

/-- Two copies that follow each other in neither way are not chosen from. -/
theorem chooseAt_of_apart {s older : Superblock} {slot : Slot}
    (h : chooseAt slot (.ok s) (.ok older) = .ok (slot, s)) :
    older.generation.toNat + 1 = s.generation.toNat := by
  have hone : (1 : UInt64).toNat = 1 := rfl
  -- the word the code compares is a checked sum, so it is the exact successor
  cases slot with
  | first =>
    simp only [chooseAt, choose, versionFault_ok, Word.add?_eq_some_iff, hone] at h
    split at h
    · cases h
    · split at h
      · assumption
      · cases h
  | second =>
    simp only [chooseAt, choose, versionFault_ok, Word.add?_eq_some_iff, hone] at h
    split at h
    · assumption
    · split at h
      · cases h
      · cases h

/-- When the copy at a place is chosen. -/
theorem chooseAt_eq_ok_iff {here other : Except Error Superblock} {slot : Slot} {s : Superblock} :
    chooseAt slot here other = .ok (slot, s)
      ↔ here = .ok s ∧ ¬ Unsupported other
        ∧ ∀ older, other = .ok older → older.generation.toNat + 1 = s.generation.toNat := by
  constructor
  · intro h
    have hhere := chooseAt_ok h
    rw [if_pos rfl] at hhere
    refine ⟨hhere, fun hother => chooseAt_of_unsupported (Or.inr hother) slot _ h, ?_⟩
    intro older hother
    rw [hhere, hother] at h
    exact chooseAt_of_apart h
  · rintro ⟨rfl, hsupported, hlater⟩
    cases other with
    | error e => exact choose_alone (versionFault_eq_none_iff.mpr hsupported) slot s
    | ok older => exact choose_later (hlater older rfl) slot

/-! ## §2. No copy that counts. -/

/-- Why no copy counts, and what is told of it.  A version that cannot be
read goes before everything else, the first copy's before the second's; and of
two copies that are damaged the first one's error is told, unless it is that
of a wrong checksum. -/
inductive Refused (first second : Except Error Superblock) : Error → Prop where
  | firstVersion {major minor : UInt16} (h : first = .error (.unsupportedVersion major minor)) :
      Refused first second (.unsupportedVersion major minor)
  | secondVersion {major minor : UInt16} (hfirst : ¬ Unsupported first)
      (h : second = .error (.unsupportedVersion major minor)) :
      Refused first second (.unsupportedVersion major minor)
  | apart {a b : Superblock} (hfirst : first = .ok a) (hsecond : second = .ok b)
      (hup : a.generation.toNat + 1 ≠ b.generation.toNat)
      (hdown : b.generation.toNat + 1 ≠ a.generation.toNat) :
      Refused first second (.corrupt (.generationsApart a.generation b.generation))
  | firstDamage {e e' : Error} (hfirst : first = .error e) (hsecond : second = .error e')
      (hsupported : ¬ Unsupported first ∧ ¬ Unsupported second)
      (htells : ∀ region stored computed, e ≠ .checksum region stored computed) :
      Refused first second e
  | secondDamage {region : Region} {stored computed : UInt32} {e : Error}
      (hfirst : first = .error (.checksum region stored computed)) (hsecond : second = .error e)
      (hsupported : ¬ Unsupported second) :
      Refused first second e

/-- Of two copies that read, the later is chosen if they are one generation
apart. -/
theorem choose_of_read (a b : Superblock) :
    choose (.ok a) (.ok b)
      = if a.generation.toNat + 1 = b.generation.toNat then .ok (.second, b)
        else if b.generation.toNat + 1 = a.generation.toNat then .ok (.first, a)
        else .error (.corrupt (.generationsApart a.generation b.generation)) := by
  have hone : (1 : UInt64).toNat = 1 := rfl
  simp only [choose, versionFault_ok, Word.add?_eq_some_iff, hone]

/-- Of two copies that are damaged the first one's error is told, unless it is
that of a wrong checksum. -/
theorem choose_of_damaged {e e' : Error} (hfirst : versionFault? (.error e) = none)
    (hsecond : versionFault? (.error e') = none)
    (htells : ∀ region stored computed, e ≠ .checksum region stored computed) :
    choose (.error e) (.error e') = .error e := by
  simp only [choose, hfirst, hsecond]

/-- The failed checksum of one copy yields to another failure of the other. -/
theorem choose_of_checksum {region : Region} {stored computed : UInt32} {e : Error}
    (hsecond : versionFault? (.error e) = none) :
    choose (.error (.checksum region stored computed)) (.error e) = .error e := by
  simp only [choose, versionFault_checksum, hsecond]

/-- Where nothing is chosen, one of the causes holds. -/
theorem refused_of_choose {first second : Except Error Superblock} {e : Error}
    (h : choose first second = .error e) : Refused first second e := by
  by_cases hfirst : Unsupported first
  · obtain ⟨major, minor, rfl⟩ := hfirst
    cases h
    exact .firstVersion rfl
  · have hfirst' := versionFault_eq_none_iff.mpr hfirst
    by_cases hsecond : Unsupported second
    · obtain ⟨major, minor, rfl⟩ := hsecond
      unfold choose at h
      rw [hfirst'] at h
      cases h
      exact .secondVersion hfirst rfl
    · have hsecond' := versionFault_eq_none_iff.mpr hsecond
      -- beside a copy that is damaged one that is read counts, so both are the same
      cases first with
      | ok a =>
        cases second with
        | ok b =>
          rw [choose_of_read] at h
          split at h
          · cases h
          · split at h
            · cases h
            · cases h
              exact .apart rfl rfl ‹_› ‹_›
        | error e' => cases (choose_alone hsecond' .first a).symm.trans h
      | error e' =>
        cases second with
        | ok b => cases (choose_alone hfirst' .second b).symm.trans h
        | error e'' =>
          by_cases htells : ∃ region stored computed, e' = .checksum region stored computed
          · obtain ⟨region, stored, computed, rfl⟩ := htells
            cases (choose_of_checksum hsecond').symm.trans h
            exact .secondDamage rfl rfl hsecond
          · have hother : ∀ region stored computed, e' ≠ .checksum region stored computed :=
              fun region stored computed hsame => htells ⟨region, stored, computed, hsame⟩
            cases (choose_of_damaged hfirst' hsecond' hother).symm.trans h
            exact .firstDamage rfl rfl ⟨hfirst, hsecond⟩ hother

/-- Each cause leads to its error. -/
theorem choose_of_refused {first second : Except Error Superblock} {e : Error}
    (h : Refused first second e) : choose first second = .error e := by
  cases h with
  | firstVersion h =>
    rw [h]
    rfl
  | secondVersion hfirst h =>
    rw [h]
    simp only [choose, versionFault_eq_none_iff.mpr hfirst]
    rfl
  | apart hfirst hsecond hup hdown => rw [hfirst, hsecond, choose_of_read, if_neg hup, if_neg hdown]
  -- neither copy is read: which error is told is a matter of the first one's
  | firstDamage hfirst hsecond hsupported htells =>
    subst hfirst hsecond
    exact choose_of_damaged (versionFault_eq_none_iff.mpr hsupported.1)
      (versionFault_eq_none_iff.mpr hsupported.2) htells
  | secondDamage hfirst hsecond hsupported =>
    subst hfirst hsecond
    exact choose_of_checksum (versionFault_eq_none_iff.mpr hsupported)

/-- When neither copy is chosen, and what is told. -/
theorem choose_eq_error_iff {first second : Except Error Superblock} {e : Error} :
    choose first second = .error e ↔ Refused first second e :=
  ⟨refused_of_choose, choose_of_refused⟩

/-! ## §3. Regions. -/

/-- Two regions of one size that have the same two copies, each at the place
of the other. -/
structure Swapped (region region' : ByteArray) : Prop where
  size : region'.size = region.size
  copies : ∀ slot : Slot,
    Bytes.slice region' slot.offset 64 = Bytes.slice region slot.other.offset 64

theorem Swapped.copyIn {region region' : ByteArray} (h : Swapped region region') (slot : Slot) :
    copyIn region' slot = Superblock.copyIn region slot.other := by
  rw [Superblock.copyIn, Superblock.copyIn, h.copies]

/-- A copy that counts counts at the other place of the swapped region. -/
theorem Counts.swapped {region region' : ByteArray} {slot : Slot} {s : Superblock}
    (h : Counts region slot s) (hswapped : Swapped region region') :
    Counts region' slot.other s where
  read := by
    rw [hswapped.copyIn, Slot.other_other]
    exact h.read
  supported := by
    rw [hswapped.copyIn, Slot.other_other]
    exact h.supported
  later := by
    rw [hswapped.copyIn, Slot.other_other]
    exact h.later

/-- **The current superblock is the copy that counts.** -/
theorem current_eq_ok_iff {region : ByteArray} (hsize : regionSize ≤ region.size) {slot : Slot}
    {s : Superblock} : current region = .ok (slot, s) ↔ Counts region slot s := by
  rw [current_eq_chooseAt hsize slot, chooseAt_eq_ok_iff]
  exact ⟨fun ⟨hread, hsupported, hlater⟩ => ⟨hread, hsupported, hlater⟩,
    fun ⟨hread, hsupported, hlater⟩ => ⟨hread, hsupported, hlater⟩⟩

/-- **The copy that counts**, for any region of 1024 bytes or more: the one at
a place counts just when it is read, the other one is not of a version that
cannot be read, and that other one is damaged or one generation older.
Swapping the copies swaps the place and nothing else.  When no copy counts,
the error is the one of `Refused`. -/
theorem current_selects {region : ByteArray} (hsize : 1024 ≤ region.size) :
    (∀ slot s, current region = .ok (slot, s) ↔ Counts region slot s)
      ∧ (∀ region', Swapped region region' → ∀ slot s, current region = .ok (slot, s) →
          current region' = .ok (slot.other, s))
      ∧ ∀ e, current region = .error e
          ↔ Refused (copyIn region .first) (copyIn region .second) e := by
  refine ⟨fun slot s => current_eq_ok_iff hsize, ?_, fun e => ?_⟩
  · intro region' hswapped slot s hok
    have hsize' : 1024 ≤ region'.size := by
      rw [hswapped.size]
      exact hsize
    rw [current_eq_ok_iff hsize']
    exact ((current_eq_ok_iff hsize).mp hok).swapped hswapped
  · rw [current_eq_chooseAt hsize .first]
    exact choose_eq_error_iff

/-! ## §4. Two generations in a row. -/

/-- A region with two given copies at their places, and zero bytes elsewhere. -/
def regionOf (first second : ByteArray) : ByteArray :=
  Bytes.overlay (Bytes.overlay (Bytes.zeros 1024) 0 first) 512 second

theorem size_regionOf {first second : ByteArray} (hfirst : first.size = 64)
    (hsecond : second.size = 64) : (regionOf first second).size = 1024 := by
  have hzeros := Bytes.size_zeros 1024
  have hinner := Bytes.size_overlay (Bytes.zeros 1024) 0 first (by omega)
  rw [regionOf, Bytes.size_overlay _ _ _ (by omega), hinner, hzeros]

/-- The copies of a region built from two. -/
theorem slice_regionOf {first second : ByteArray} (hfirst : first.size = 64)
    (hsecond : second.size = 64) (slot : Slot) :
    Bytes.slice (regionOf first second) slot.offset 64
      = match slot with
        | .first => first
        | .second => second := by
  have hzeros := Bytes.size_zeros 1024
  have hinner := Bytes.size_overlay (Bytes.zeros 1024) 0 first (by omega)
  have hroom : 512 + second.size ≤ (Bytes.overlay (Bytes.zeros 1024) 0 first).size := by omega
  cases slot with
  | first =>
    -- the second copy is written after the first, and beside it
    rw [regionOf, Slot.offset, Slot.index, Nat.zero_mul,
      Bytes.slice_overlay_of_apart hroom (Or.inl (by omega)), ← hfirst,
      Bytes.slice_overlay_self (by omega)]
  | second =>
    rw [regionOf, Slot.offset, Slot.index, slotSize, Nat.one_mul, ← hsecond,
      Bytes.slice_overlay_self hroom]

/-- The record of an empty vault of eight blocks. -/
def ofGeneration (generation : UInt64) : Superblock :=
  ⟨currentVersion, 512, 8, ⟨2, 1⟩, 32, generation⟩

theorem check_ofGeneration (generation : UInt64) : (ofGeneration generation).check = .ok () := by
  have hlayout : (ofGeneration 0).checkLayout = .ok () := by
    rw [checkLayout, if_neg (by decide), if_neg (by decide), if_neg (by decide)]
  exact check_of_layout (s := ofGeneration 0) rfl (by decide) hlayout

/-- Two records, each at its place. -/
def generations (first second : UInt64) : ByteArray :=
  regionOf (ofGeneration first).encode (ofGeneration second).encode

theorem copyIn_generations (first second : UInt64) (slot : Slot) :
    copyIn (generations first second) slot
      = .ok (match slot with
        | .first => ofGeneration first
        | .second => ofGeneration second) := by
  rw [copyIn, generations, slice_regionOf (size_encode _) (size_encode _)]
  cases slot with
  | first => exact decode_encode (check_ofGeneration first)
  | second => exact decode_encode (check_ofGeneration second)

/-- Of generations 7 and 8 the later one counts, wherever it stands; of 3 and
9 none does. -/
theorem current_selects_later :
    (1024 ≤ (generations 7 8).size ∧ current (generations 7 8) = .ok (.second, ofGeneration 8))
      ∧ (Swapped (generations 7 8) (generations 8 7)
        ∧ current (generations 8 7) = .ok (.first, ofGeneration 8))
      ∧ 1024 ≤ (generations 3 9).size
        ∧ current (generations 3 9) = .error (.corrupt (.generationsApart 3 9)) := by
  have hsize : ∀ first second, (generations first second).size = 1024 := fun first second =>
    size_regionOf (size_encode _) (size_encode _)
  have hswapped : Swapped (generations 7 8) (generations 8 7) :=
    { size := (hsize 8 7).trans (hsize 7 8).symm
      copies := fun slot => by
        rw [generations, generations, slice_regionOf (size_encode _) (size_encode _),
          slice_regionOf (size_encode _) (size_encode _)]
        cases slot with
        | first => rfl
        | second => rfl }
  obtain ⟨hselects, hswap, _⟩ := current_selects (Nat.le_of_eq (hsize 7 8).symm)
  obtain ⟨_, _, hrefused⟩ := current_selects (Nat.le_of_eq (hsize 3 9).symm)
  -- both copies are read, and the second one is a generation later
  have hcounts : Counts (generations 7 8) .second (ofGeneration 8) :=
    { read := copyIn_generations 7 8 .second
      supported := by
        rintro ⟨major, minor, hsame⟩
        cases (copyIn_generations 7 8 .first).symm.trans hsame
      later := fun older holder => by
        cases (copyIn_generations 7 8 .first).symm.trans holder
        rfl }
  have hok := (hselects .second (ofGeneration 8)).mpr hcounts
  refine ⟨⟨Nat.le_of_eq (hsize 7 8).symm, hok⟩,
    ⟨hswapped, hswap _ hswapped .second (ofGeneration 8) hok⟩, Nat.le_of_eq (hsize 3 9).symm, ?_⟩
  exact (hrefused _).mpr (.apart (copyIn_generations 3 9 .first) (copyIn_generations 3 9 .second)
    (by decide) (by decide))

end StateVault.Superblock
