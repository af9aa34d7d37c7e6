import Mathlib.Data.List.Nodup
import ModelSearch.Trail.Basic

/-!
# The two views of the trail agree

The entries by atom and the atoms by level describe one assignment.  Positions
grow within a level and belong to one atom each, so together with the levels they
order all entries.
-/

namespace ModelSearch.Trail

/-- The views agree, and positions tell the order of assignment. -/
structure Sound (trail : Trail) : Prop where
  opened : 0 < trail.levels.size
  listed : ∀ atom level, atom ∈ trail.atomsAt level ↔ trail.level? atom = some level
  ordered : ∀ level, (trail.atomsAt level).Pairwise fun earlier later =>
    ∀ earlierEntry laterEntry, trail.get? earlier = some earlierEntry →
      trail.get? later = some laterEntry → earlierEntry.position < laterEntry.position
  numbered : ∀ atom entry, trail.get? atom = some entry → entry.position < trail.position
  distinct : ∀ left right leftEntry rightEntry, trail.get? left = some leftEntry →
    trail.get? right = some rightEntry → leftEntry.position = rightEntry.position → left = right

theorem atomsAt_eq (trail : Trail) (level : Nat) :
    trail.atomsAt level = (trail.levels[level]?.getD #[]).toList := by
  rw [atomsAt, Array.getD_eq_getD_getElem?]

theorem level?_eq_some {trail : Trail} {atom : Atom} {level : Nat} :
    trail.level? atom = some level ↔ ∃ entry, trail.get? atom = some entry ∧ entry.level = level :=
  Option.map_eq_some_iff

theorem value?_eq_some {trail : Trail} {atom : Atom} {value : Value} :
    trail.value? atom = some value ↔ ∃ entry, trail.get? atom = some entry ∧ entry.value = value :=
  Option.map_eq_some_iff

theorem truth?_eq_some {trail : Trail} {atom : Atom} {truth : Bool} :
    trail.truth? atom = some truth ↔
      ∃ entry, trail.get? atom = some entry ∧ entry.value = .boolean truth := by
  unfold truth?
  rw [Option.bind_eq_some_iff]
  constructor
  · rintro ⟨value, valued, true⟩
    obtain ⟨entry, found, rfl⟩ := value?_eq_some.mp valued
    refine ⟨entry, found, ?_⟩
    cases shape : entry.value with
    | boolean other =>
        rw [shape] at true
        rw [Option.some.inj true]
    | rational number =>
        rw [shape] at true
        cases true
  · rintro ⟨entry, found, boolean⟩
    exact ⟨entry.value, value?_eq_some.mpr ⟨entry, found, rfl⟩, by rw [boolean]; rfl⟩

theorem literalTruth?_eq_some {trail : Trail} {literal : Literal} {truth : Bool} :
    trail.literalTruth? literal = some truth ↔
      trail.truth? literal.atom = some (literal.polarity == truth) := by
  unfold literalTruth?
  rw [Option.map_eq_some_iff]
  constructor
  · rintro ⟨value, found, rfl⟩
    rw [found]
    cases value <;> cases literal.polarity <;> rfl
  · intro found
    refine ⟨_, found, ?_⟩
    cases literal.polarity <;> cases truth <;> rfl

theorem Sound.once {trail : Trail} (sound : trail.Sound) (level : Nat) :
    (trail.atomsAt level).Nodup := by
  refine (sound.ordered level).imp_of_mem ?_
  intro earlier later inside _ before same
  subst same
  obtain ⟨entry, found, _⟩ := level?_eq_some.mp ((sound.listed _ _).mp inside)
  exact Nat.lt_irrefl _ (before entry entry found found)

/-- The first atom of a level has the least position there. -/
theorem Sound.earliest {trail : Trail} (sound : trail.Sound) {level : Nat} {leader : Atom}
    (first : (trail.atomsAt level).head? = some leader) {leaderEntry : Entry}
    (led : trail.get? leader = some leaderEntry) {atom : Atom} {entry : Entry}
    (found : trail.get? atom = some entry) (same : entry.level = level) :
    leaderEntry.position ≤ entry.position := by
  obtain ⟨others, shape⟩ := List.head?_eq_some_iff.mp first
  have inside := (sound.listed atom level).mpr (level?_eq_some.mpr ⟨entry, found, same⟩)
  have ordered := sound.ordered level
  rw [shape] at inside ordered
  rcases List.mem_cons.mp inside with rfl | later
  · obtain rfl := Option.some.inj (led.symm.trans found)
    exact Nat.le_refl _
  · exact Nat.le_of_lt (List.rel_of_pairwise_cons ordered later _ _ led found)

theorem Sound.level_le {trail : Trail} (sound : trail.Sound) {atom : Atom} {entry : Entry}
    (found : trail.get? atom = some entry) : entry.level ≤ trail.level := by
  have inside := (sound.listed atom entry.level).mpr (level?_eq_some.mpr ⟨entry, found, rfl⟩)
  rw [atomsAt_eq] at inside
  by_contra above
  have closed : trail.levels[entry.level]? = none := by
    rw [Array.getElem?_eq_none_iff]
    unfold level at above
    omega
  rw [closed] at inside
  cases inside

@[simp] theorem get?_empty (atom : Atom) : (∅ : Trail).get? atom = none :=
  Std.TreeMap.getElem?_emptyc

theorem sound_empty : (∅ : Trail).Sound := by
  have bare : ∀ level, (∅ : Trail).atomsAt level = [] := by
    intro level
    cases level <;> rfl
  constructor
  · exact Nat.one_pos
  · intro atom level
    rw [bare, level?, get?_empty]
    simp
  · intro level
    rw [bare]
    exact .nil
  · intro atom entry found
    rw [get?_empty] at found
    cases found
  · intro left right leftEntry rightEntry found
    rw [get?_empty] at found
    cases found

/-! ## Opening a level -/

theorem Sound.level_openLevel {trail : Trail} (sound : trail.Sound) :
    trail.openLevel.level = trail.level + 1 := by
  have opened := sound.opened
  simp only [level, openLevel, Array.size_push]
  omega

@[simp] theorem atomsAt_openLevel (trail : Trail) (level : Nat) :
    trail.openLevel.atomsAt level = trail.atomsAt level := by
  rw [atomsAt_eq, atomsAt_eq, openLevel, Array.getElem?_push]
  by_cases last : level = trail.levels.size
  · subst last
    simp
  · rw [if_neg last]

theorem Sound.atomsAt_above {trail : Trail} (sound : trail.Sound) {level : Nat}
    (above : trail.level < level) : trail.atomsAt level = [] := by
  refine List.eq_nil_iff_forall_not_mem.mpr fun atom inside => ?_
  obtain ⟨entry, found, rfl⟩ := level?_eq_some.mp ((sound.listed _ _).mp inside)
  exact absurd (sound.level_le found) (Nat.not_le.mpr above)

theorem Sound.openLevel {trail : Trail} (sound : trail.Sound) : trail.openLevel.Sound where
  opened := by simp [Trail.openLevel]
  listed atom level := by
    rw [atomsAt_openLevel]
    exact sound.listed atom level
  ordered level := by
    rw [atomsAt_openLevel]
    exact sound.ordered level
  numbered := sound.numbered
  distinct := sound.distinct

/-! ## Adding an entry -/

section Push

variable {trail : Trail} {atom : Atom} {value : Value} {reason : Reason} {level : Nat}

theorem recordError?_eq_none :
    trail.recordError? atom level = none ↔ level ≤ trail.level ∧ trail.get? atom = none := by
  have absent : trail.entries.contains atom = false ↔ trail.get? atom = none := by
    rw [Trail.get?, Std.TreeMap.contains_eq_isSome_getElem?]
    cases trail.entries[atom]? <;> simp
  unfold recordError?
  by_cases closed : trail.level < level
  · simp [closed, Nat.not_le.mpr closed]
  · rw [if_neg closed, ← absent]
    cases trail.entries.contains atom <;> simp [Nat.not_lt.mp closed]

/-- An assignment is recorded exactly if its level is open and its atom has no entry. -/
theorem record_eq_ok {next : Trail} :
    trail.record atom value reason level = .ok next ↔
      (level ≤ trail.level ∧ trail.get? atom = none) ∧
        trail.push atom value reason level = next := by
  rw [← recordError?_eq_none, record]
  cases trail.recordError? atom level <;> simp

theorem get?_push (trail : Trail) (atom : Atom) (value : Value) (reason : Reason) (level : Nat)
    (other : Atom) :
    (trail.push atom value reason level).get? other =
      if atom = other then some ⟨value, level, reason, trail.position⟩ else trail.get? other := by
  unfold get? push
  rw [Std.TreeMap.getElem?_insert]
  simp only [Std.LawfulEqCmp.compare_eq_iff_eq]

@[simp] theorem level_push (trail : Trail) (atom : Atom) (value : Value) (reason : Reason)
    (level : Nat) : (trail.push atom value reason level).level = trail.level := by
  simp [Trail.level, push]

theorem Sound.atomsAt_push (sound : trail.Sound) (isOpen : level ≤ trail.level) (other : Nat) :
    (trail.push atom value reason level).atomsAt other =
      if level = other then trail.atomsAt other ++ [atom] else trail.atomsAt other := by
  rw [atomsAt_eq, atomsAt_eq, push, Array.getElem?_modify]
  by_cases same : level = other
  · subst same
    have inside : level < trail.levels.size := by
      have opened := sound.opened
      unfold Trail.level at isOpen
      omega
    simp [inside]
  · rw [if_neg same, if_neg same]

theorem size_push (unvalued : trail.get? atom = none) :
    (trail.push atom value reason level).size = trail.size + 1 := by
  have absent : atom ∉ trail.entries := by
    intro present
    rw [Std.TreeMap.mem_iff_isSome_getElem?, ← get?, unvalued] at present
    cases present
  simp [size, push, Std.TreeMap.size_insert, absent]

/-- The size is the length of any list of the atoms with an entry. -/
theorem size_eq_length {atoms : List Atom} (distinct : atoms.Nodup)
    (listed : ∀ atom, atom ∈ atoms ↔ ∃ entry, trail.get? atom = some entry) :
    trail.size = atoms.length := by
  have keys : trail.entries.keys.Perm atoms := by
    refine (List.perm_ext_iff_of_nodup Std.TreeMap.nodup_keys distinct).mpr fun atom => ?_
    rw [Std.TreeMap.mem_keys, Std.TreeMap.mem_iff_isSome_getElem?, Option.isSome_iff_exists]
    exact (listed atom).symm
  rw [← keys.length_eq, Std.TreeMap.length_keys, size]

theorem ne_of_get? (unvalued : trail.get? atom = none) {other : Atom} {entry : Entry}
    (found : trail.get? other = some entry) : atom ≠ other := by
  rintro rfl
  rw [unvalued] at found
  cases found

theorem Sound.listed_push (sound : trail.Sound) (unvalued : trail.get? atom = none)
    (isOpen : level ≤ trail.level) (other : Atom) (otherLevel : Nat) :
    other ∈ (trail.push atom value reason level).atomsAt otherLevel ↔
      (trail.push atom value reason level).level? other = some otherLevel := by
  rw [sound.atomsAt_push isOpen, level?, get?_push]
  by_cases sameAtom : atom = other
  · subst sameAtom
    have outside : ∀ level, atom ∉ trail.atomsAt level := by
      intro level inside
      have levelled := (sound.listed atom level).mp inside
      rw [level?, unvalued] at levelled
      cases levelled
    by_cases sameLevel : level = otherLevel
    · simp [sameLevel]
    · simp [sameLevel, outside]
  · have listed := sound.listed other otherLevel
    rw [level?] at listed
    by_cases sameLevel : level = otherLevel
    · simp [sameLevel, sameAtom, Ne.symm sameAtom, listed]
    · simp [sameLevel, sameAtom, listed]

/-- The new atom comes last at its level. -/
theorem Sound.ordered_push (sound : trail.Sound) (unvalued : trail.get? atom = none)
    (isOpen : level ≤ trail.level) (otherLevel : Nat) :
    ((trail.push atom value reason level).atomsAt otherLevel).Pairwise fun earlier later =>
      ∀ earlierEntry laterEntry,
        (trail.push atom value reason level).get? earlier = some earlierEntry →
        (trail.push atom value reason level).get? later = some laterEntry →
        earlierEntry.position < laterEntry.position := by
  have former : ∀ {other}, other ∈ trail.atomsAt otherLevel → atom ≠ other := by
    intro other inside
    obtain ⟨_, found, _⟩ := level?_eq_some.mp ((sound.listed _ _).mp inside)
    exact ne_of_get? unvalued found
  have kept : (trail.atomsAt otherLevel).Pairwise fun earlier later =>
      ∀ earlierEntry laterEntry,
        (trail.push atom value reason level).get? earlier = some earlierEntry →
        (trail.push atom value reason level).get? later = some laterEntry →
        earlierEntry.position < laterEntry.position := by
    refine (sound.ordered otherLevel).imp_of_mem ?_
    intro earlier later inEarlier inLater before earlierEntry laterEntry
    rw [get?_push, get?_push, if_neg (former inEarlier), if_neg (former inLater)]
    exact before earlierEntry laterEntry
  rw [sound.atomsAt_push isOpen]
  by_cases sameLevel : level = otherLevel
  · rw [if_pos sameLevel]
    refine List.pairwise_append.mpr ⟨kept, List.pairwise_singleton _ _, ?_⟩
    intro earlier inEarlier later inLater earlierEntry laterEntry
    rw [List.mem_singleton] at inLater
    subst inLater
    rw [get?_push, get?_push, if_neg (former inEarlier), if_pos rfl]
    rintro found ⟨⟩
    exact sound.numbered _ _ found
  · rw [if_neg sameLevel]
    exact kept

theorem Sound.distinct_push (sound : trail.Sound) {left right : Atom}
    {leftEntry rightEntry : Entry}
    (foundLeft : (trail.push atom value reason level).get? left = some leftEntry)
    (foundRight : (trail.push atom value reason level).get? right = some rightEntry)
    (same : leftEntry.position = rightEntry.position) : left = right := by
  rw [get?_push] at foundLeft foundRight
  by_cases sameLeft : atom = left <;> by_cases sameRight : atom = right
  · rw [← sameLeft, sameRight]
  · rw [if_pos sameLeft] at foundLeft
    rw [if_neg sameRight] at foundRight
    cases foundLeft
    have numbered := sound.numbered _ _ foundRight
    rw [← same] at numbered
    exact absurd numbered (Nat.lt_irrefl _)
  · rw [if_neg sameLeft] at foundLeft
    rw [if_pos sameRight] at foundRight
    cases foundRight
    have numbered := sound.numbered _ _ foundLeft
    rw [same] at numbered
    exact absurd numbered (Nat.lt_irrefl _)
  · rw [if_neg sameLeft] at foundLeft
    rw [if_neg sameRight] at foundRight
    exact sound.distinct left right leftEntry rightEntry foundLeft foundRight same

theorem Sound.push (sound : trail.Sound) (unvalued : trail.get? atom = none)
    (isOpen : level ≤ trail.level) : (trail.push atom value reason level).Sound where
  opened := by simpa [Trail.push] using sound.opened
  listed := sound.listed_push unvalued isOpen
  ordered := sound.ordered_push unvalued isOpen
  numbered other entry := by
    rw [get?_push]
    show _ → entry.position < trail.position + 1
    by_cases sameAtom : atom = other
    · rw [if_pos sameAtom]
      rintro ⟨⟩
      exact Nat.lt_succ_self _
    · rw [if_neg sameAtom]
      intro found
      exact Nat.lt_succ_of_lt (sound.numbered _ _ found)
  distinct _ _ _ _ := sound.distinct_push

end Push

/-! ## Removing levels -/

theorem Sound.mem_atomsAbove {trail : Trail} (sound : trail.Sound) {level : Nat} {atom : Atom} :
    atom ∈ trail.atomsAbove level ↔
      ∃ entry, trail.get? atom = some entry ∧ level < entry.level := by
  have here : atom ∈ trail.atomsAbove level ↔ ∃ other, level < other ∧
      atom ∈ trail.atomsAt other := by
    unfold atomsAbove
    simp only [List.mem_flatMap, atomsAt_eq]
    constructor
    · rintro ⟨atoms, held, inside⟩
      obtain ⟨index, present⟩ := List.mem_iff_getElem?.mp held
      rw [List.getElem?_drop, Array.getElem?_toList] at present
      refine ⟨level + 1 + index, by omega, ?_⟩
      rw [present]
      exact inside
    · rintro ⟨other, above, inside⟩
      cases present : trail.levels[other]? with
      | none =>
          rw [present] at inside
          cases inside
      | some atoms =>
          rw [present] at inside
          refine ⟨atoms, List.mem_iff_getElem?.mpr ⟨other - (level + 1), ?_⟩, inside⟩
          rw [List.getElem?_drop, Array.getElem?_toList, ← present]
          congr 1
          omega
  rw [here]
  constructor
  · rintro ⟨other, above, inside⟩
    obtain ⟨entry, found, rfl⟩ := level?_eq_some.mp ((sound.listed _ _).mp inside)
    exact ⟨entry, found, above⟩
  · rintro ⟨entry, found, above⟩
    exact ⟨entry.level, above, (sound.listed _ _).mpr (level?_eq_some.mpr ⟨entry, found, rfl⟩)⟩

private theorem getElem?_eraseAll (atoms : List Atom) (entries : Std.TreeMap Atom Entry)
    (atom : Atom) :
    (atoms.foldl (fun entries atom => entries.erase atom) entries)[atom]? =
      if atom ∈ atoms then none else entries[atom]? := by
  induction atoms generalizing entries with
  | nil => simp
  | cons head atoms induction =>
      rw [List.foldl_cons, induction, Std.TreeMap.getElem?_erase]
      simp only [Std.LawfulEqCmp.compare_eq_iff_eq, List.mem_cons, eq_comm (a := head)]
      by_cases same : atom = head <;> simp [same]

theorem Sound.get?_clearAbove {trail : Trail} (sound : trail.Sound) (level : Nat) (atom : Atom) :
    (trail.clearAbove level).2.get? atom =
      (trail.get? atom).filter fun entry => entry.level ≤ level := by
  unfold clearAbove get?
  rw [getElem?_eraseAll]
  by_cases above : atom ∈ trail.atomsAbove level
  · rw [if_pos above]
    obtain ⟨entry, found, higher⟩ := sound.mem_atomsAbove.mp above
    rw [get?] at found
    rw [found, Option.filter_some, decide_eq_false (Nat.not_le.mpr higher)]
    rfl
  · rw [if_neg above]
    cases found : trail.entries[atom]? with
    | none => rfl
    | some entry =>
        have lower : entry.level ≤ level := by
          by_contra higher
          exact above (sound.mem_atomsAbove.mpr ⟨entry, found, Nat.not_le.mp higher⟩)
        rw [Option.filter_some, decide_eq_true lower]
        rfl

theorem Sound.get?_clearAbove_eq_some {trail : Trail} (sound : trail.Sound) {level : Nat}
    {atom : Atom} {entry : Entry} :
    (trail.clearAbove level).2.get? atom = some entry ↔
      trail.get? atom = some entry ∧ entry.level ≤ level := by
  rw [sound.get?_clearAbove, Option.filter_eq_some_iff]
  simp

theorem Sound.level_clearAbove {trail : Trail} (sound : trail.Sound) (level : Nat) :
    (trail.clearAbove level).2.level = min level trail.level := by
  have opened := sound.opened
  simp only [Trail.level, clearAbove, Array.take_eq_extract, Array.size_extract]
  omega

theorem atomsAt_clearAbove (trail : Trail) (level other : Nat) :
    (trail.clearAbove level).2.atomsAt other =
      if other ≤ level then trail.atomsAt other else [] := by
  rw [atomsAt_eq, atomsAt_eq]
  simp only [clearAbove, Array.take_eq_extract, Array.getElem?_extract]
  by_cases low : other ≤ level
  · rw [if_pos low]
    by_cases inside : other < trail.levels.size
    · rw [if_pos (by omega), Nat.zero_add]
    · rw [if_neg (by omega), Array.getElem?_eq_none (by omega)]
  · rw [if_neg low, if_neg (by omega)]
    rfl

theorem Sound.mem_removed {trail : Trail} (sound : trail.Sound) {level : Nat} {atom : Atom}
    {entry : Entry} :
    (atom, entry) ∈ (trail.clearAbove level).1 ↔
      trail.get? atom = some entry ∧ level < entry.level := by
  unfold clearAbove
  simp only [List.mem_filterMap, Option.map_eq_some_iff, Prod.mk.injEq]
  constructor
  · rintro ⟨other, above, otherEntry, found, rfl, rfl⟩
    obtain ⟨_, again, higher⟩ := sound.mem_atomsAbove.mp above
    rw [found] at again
    exact ⟨found, (Option.some.inj again) ▸ higher⟩
  · rintro ⟨found, higher⟩
    exact ⟨atom, sound.mem_atomsAbove.mpr ⟨entry, found, higher⟩, entry, found, rfl, rfl⟩

theorem Sound.clearAbove {trail : Trail} (sound : trail.Sound) (level : Nat) :
    (trail.clearAbove level).2.Sound := by
  have before : ∀ {atom entry}, (trail.clearAbove level).2.get? atom = some entry →
      trail.get? atom = some entry := fun found => (sound.get?_clearAbove_eq_some.mp found).1
  refine ⟨?_, ?_, ?_, ?_, ?_⟩
  · have opened := sound.opened
    simp only [Trail.clearAbove, Array.take_eq_extract, Array.size_extract]
    omega
  · intro atom other
    rw [atomsAt_clearAbove, level?_eq_some]
    simp only [sound.get?_clearAbove_eq_some]
    by_cases low : other ≤ level
    · rw [if_pos low, sound.listed, level?_eq_some]
      constructor
      · rintro ⟨entry, found, rfl⟩
        exact ⟨entry, ⟨found, low⟩, rfl⟩
      · rintro ⟨entry, ⟨found, _⟩, rfl⟩
        exact ⟨entry, found, rfl⟩
    · rw [if_neg low]
      constructor
      · intro absurdity
        cases absurdity
      · rintro ⟨entry, ⟨_, lower⟩, rfl⟩
        exact absurd lower low
  · intro other
    rw [atomsAt_clearAbove]
    split
    · refine (sound.ordered other).imp ?_
      intro earlier later ordered earlierEntry laterEntry earlierFound laterFound
      exact ordered _ _ (before earlierFound) (before laterFound)
    · exact .nil
  · intro atom entry found
    exact sound.numbered atom entry (before found)
  · intro left right leftEntry rightEntry leftFound rightFound
    exact sound.distinct _ _ _ _ (before leftFound) (before rightFound)

end ModelSearch.Trail
