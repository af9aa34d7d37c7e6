import Mathlib.Algebra.Order.Ring.Nat
import Mathlib.Data.List.Perm.Subperm
import Mathlib.Tactic.Ring
import ModelSearch.Proofs.Propagation.Basic

/-!
# A measure of progress

The profile of a trail counts the assignments of each level.  Steps other than
jumps raise it lexicographically, lower levels first.  In an orderly solver no
level and no number of levels exceeds the number of atoms, so profiles are
numerals of bounded length, and the value of the numeral grows with each raise.
-/

namespace ModelSearch

/-! ## Profiles -/

/-- The profile is greater at some level, and the same below. -/
def Raises (before after : Nat → Nat) : Prop :=
  ∃ level, (∀ lower < level, after lower = before lower) ∧ before level < after level

theorem Raises.trans {first second third : Nat → Nat} (left : Raises first second)
    (right : Raises second third) : Raises first third := by
  obtain ⟨left, sameLeft, lessLeft⟩ := left
  obtain ⟨right, sameRight, lessRight⟩ := right
  rcases Nat.lt_trichotomy left right with below | rfl | above
  · refine ⟨left, fun lower low => ?_, ?_⟩
    · rw [sameRight lower (low.trans below), sameLeft lower low]
    · rw [sameRight left below]
      exact lessLeft
  · exact ⟨left, fun lower low => (sameRight lower low).trans (sameLeft lower low),
      lessLeft.trans lessRight⟩
  · refine ⟨right, fun lower low => ?_, ?_⟩
    · rw [sameRight lower low, sameLeft lower (low.trans above)]
    · rw [← sameLeft right above]
      exact lessRight

/-- The value of the digits of a profile from level zero to the given one. -/
def numeral (base : Nat) (profile : Nat → Nat) : Nat → Nat
  | 0 => profile 0
  | level + 1 => numeral base profile level * base + profile (level + 1)

theorem numeral_lt {base : Nat} {profile : Nat → Nat} (digits : ∀ level, profile level < base)
    (level : Nat) : numeral base profile level < base ^ (level + 1) := by
  induction level with
  | zero => simpa [numeral] using digits 0
  | succ level induction =>
      have digit := digits (level + 1)
      calc numeral base profile level * base + profile (level + 1)
          < numeral base profile level * base + base := Nat.add_lt_add_left digit _
        _ = (numeral base profile level + 1) * base := by ring
        _ ≤ base ^ (level + 1) * base := Nat.mul_le_mul_right _ induction
        _ = base ^ (level + 1 + 1) := by ring

theorem numeral_congr {base : Nat} {left right : Nat → Nat} {level : Nat}
    (same : ∀ lower ≤ level, left lower = right lower) :
    numeral base left level = numeral base right level := by
  induction level with
  | zero => exact same 0 (Nat.le_refl 0)
  | succ level induction =>
      rw [numeral, numeral, same _ (Nat.le_refl _),
        induction fun lower below => same lower (Nat.le_succ_of_le below)]

/-- A raise at one of the digits raises the value. -/
theorem Raises.numeral_lt {base : Nat} {before after : Nat → Nat}
    (raises : Raises before after) (digits : ∀ level, before level < base) {last : Nat}
    (within : ∀ level, 0 < after level → level ≤ last) :
    numeral base before last < numeral base after last := by
  obtain ⟨level, same, less⟩ := raises
  have inside : level ≤ last := within level (Nat.zero_lt_of_lt less)
  clear within
  induction last with
  | zero =>
      obtain rfl := Nat.le_zero.mp inside
      exact less
  | succ last induction =>
      by_cases top : level = last + 1
      · subst top
        have lower : numeral base after last = numeral base before last :=
          numeral_congr fun lower below => same lower (Nat.lt_succ_of_le below)
        rw [numeral, numeral, lower]
        exact Nat.add_lt_add_left less _
      · have digit := digits (last + 1)
        have less := induction (by omega)
        calc numeral base before last * base + before (last + 1)
            < numeral base before last * base + base := Nat.add_lt_add_left digit _
          _ = (numeral base before last + 1) * base := by ring
          _ ≤ numeral base after last * base := Nat.mul_le_mul_right _ less
          _ ≤ numeral base after last * base + after (last + 1) := Nat.le_add_right _ _

/-- The number of assignments at each level. -/
def Trail.profile (trail : Trail) (level : Nat) : Nat := (trail.atomsAt level).length

/-- The profile is the same or raised. -/
def Grows (before after : Nat → Nat) : Prop := after = before ∨ Raises before after

theorem Grows.trans {first second third : Nat → Nat} (left : Grows first second)
    (right : Grows second third) : Grows first third := by
  rcases left with same | raised
  · exact same ▸ right
  · rcases right with same | again
    · exact .inr (same ▸ raised)
    · exact .inr (raised.trans again)

theorem Grows.raises {first second third : Nat → Nat} (left : Grows first second)
    (right : Raises second third) : Raises first third := by
  rcases left with same | raised
  · exact same ▸ right
  · exact raised.trans right

/-- An assignment raises the profile at its level. -/
theorem Trail.Sound.raises_push {trail : Trail} (sound : trail.Sound) {level : Nat}
    (isOpen : level ≤ trail.level) (atom : Atom) (value : Value) (reason : Reason) :
    Raises trail.profile (trail.push atom value reason level).profile := by
  refine ⟨level, fun lower below => ?_, ?_⟩
  · rw [profile, sound.atomsAt_push isOpen, if_neg (Nat.ne_of_gt below)]
    rfl
  · rw [profile, profile, sound.atomsAt_push isOpen, if_pos rfl, List.length_append]
    exact Nat.lt_succ_self _

namespace Solver

variable {τ : Type} [TheoryAtom τ] {rules : Rules τ} {origin solver before after : Solver τ}

theorem raises_given (coherent : solver.Coherent) {level : Nat}
    (isOpen : level ≤ solver.trail.level) (atom : Atom) (value : Value) (reason : Reason) :
    Raises solver.trail.profile (solver.given atom value reason level).trail.profile :=
  coherent.assignment.trail.raises_push isOpen atom value reason

theorem raises_chosen (coherent : solver.Coherent) (atom : Atom) (value : Value) :
    Raises solver.trail.profile (solver.chosen atom value).trail.profile := by
  have same : solver.trail.openLevel.profile = solver.trail.profile := by
    funext level
    rw [Trail.profile, Trail.atomsAt_openLevel]
    rfl
  rw [← same]
  exact coherent.assignment.trail.openLevel.raises_push (Nat.le_refl _) atom value .decided

end Solver

variable {τ : Type} [TheoryAtom τ] {rules : Rules τ} {origin solver before after : Solver τ}

theorem Step.profile (step : Step rules false before after) (coherent : before.Coherent) :
    Grows before.trail.profile after.trail.profile := by
  cases step with
  | tell assignment theoryAtoms configuration splits =>
      exact .inl (congrArg Trail.profile (congrArg Assignment.trail assignment))
  | requeue sound same => exact .inl rfl
  | choose free warrant => exact .inr (Solver.raises_chosen coherent _ _)
  | give free grounds =>
      exact .inr (Solver.raises_given coherent (grounds.level_le coherent.assignment.trail) _ _ _)
  | learn allowed fitting => exact .inl rfl
  | store derived => exact .inl rfl
  | watch key => exact .inl rfl
  | jump allowed kind below splitting => cases allowed

theorem Steps.profile (steps : Steps rules false before after) (valid : origin.Valid rules before) :
    Grows before.trail.profile after.trail.profile := by
  induction steps with
  | refl => exact .inl rfl
  | tail steps step induction =>
      exact induction.trans (step.profile (Steps.valid steps valid).coherent)

/-! ## Bounds -/

namespace Solver

omit [TheoryAtom τ]

/-- The atoms that exist. -/
def atoms (solver : Solver τ) : List Atom :=
  (List.range solver.vars.size).map .var ++ (List.range solver.theoryAtoms.size).map .theory

/-- The number of atoms that exist. -/
def capacity (solver : Solver τ) : Nat := solver.vars.size + solver.theoryAtoms.size

theorem length_atoms (solver : Solver τ) : solver.atoms.length = solver.capacity := by
  simp [atoms, capacity]

theorem Continues.capacity (continues : origin.Continues solver) :
    solver.capacity = origin.capacity := by
  rw [Solver.capacity, Solver.capacity, continues.size, continues.theoryAtoms]

theorem Sorted.exists (sorted : solver.Sorted) {atom : Atom} {entry : Entry}
    (found : solver.trail.get? atom = some entry) : atom ∈ solver.atoms := by
  have admits := sorted.typed atom entry found
  unfold atoms
  rw [List.mem_append]
  cases atom with
  | var key =>
      obtain ⟨known, present, _⟩ := admits
      have inside : key < solver.vars.size := (Array.getElem?_eq_some_iff.mp present).1
      exact .inl (List.mem_map.mpr ⟨key, List.mem_range.mpr inside, rfl⟩)
  | theory key => exact .inr (List.mem_map.mpr ⟨key, List.mem_range.mpr admits.1, rfl⟩)

theorem Sorted.length_le (sorted : solver.Sorted) {atoms : List Atom} (distinct : atoms.Nodup)
    (valued : ∀ atom ∈ atoms, ∃ entry, solver.trail.get? atom = some entry) :
    atoms.length ≤ solver.capacity := by
  rw [← length_atoms]
  refine (List.subperm_of_subset distinct fun atom inside => ?_).length_le
  obtain ⟨entry, found⟩ := valued atom inside
  exact sorted.exists found

/-- The trail is no longer than the list of atoms. -/
theorem Sorted.size_le (sorted : solver.Sorted) : solver.trail.size ≤ solver.capacity := by
  have length : solver.trail.entries.keys.length = solver.trail.size := Std.TreeMap.length_keys
  rw [← length]
  refine sorted.length_le Std.TreeMap.nodup_keys fun atom inside => ?_
  have present : atom ∈ solver.trail.entries := Std.TreeMap.mem_keys.mp inside
  exact ⟨solver.trail.entries[atom], Std.TreeMap.getElem?_eq_some_getElem present⟩

theorem Sorted.profile_le (sorted : solver.Sorted) (sound : solver.trail.Sound) (level : Nat) :
    solver.trail.profile level ≤ solver.capacity := by
  refine sorted.length_le (sound.once level) fun atom inside => ?_
  obtain ⟨entry, found, _⟩ := Trail.level?_eq_some.mp ((sound.listed _ _).mp inside)
  exact ⟨entry, found⟩

/-- Every level but the lowest holds a choice, so there are no more than atoms. -/
theorem Sorted.level_le (sorted : solver.Sorted) (sound : solver.trail.Sound)
    (reasoned : solver.Reasoned) : solver.trail.level ≤ solver.capacity := by
  have listed : List.range' 1 solver.trail.level ⊆ solver.atoms.filterMap solver.trail.level? := by
    intro level inside
    rw [List.mem_range'_1] at inside
    obtain ⟨atom, first, _⟩ := reasoned.led level (by omega) (by omega)
    have levelled := (sound.listed atom level).mp (List.mem_of_head? first)
    obtain ⟨entry, found, _⟩ := Trail.level?_eq_some.mp levelled
    exact List.mem_filterMap.mpr ⟨atom, sorted.exists found, levelled⟩
  have bounded := (List.subperm_of_subset List.nodup_range' listed).length_le
  rw [List.length_range'] at bounded
  rw [← length_atoms]
  exact bounded.trans (List.length_filterMap_le _ _)

end Solver

namespace Solver

/-- The value of the profile as a numeral with a digit for every possible level. -/
def score (solver : Solver τ) : Nat :=
  numeral (solver.capacity + 1) solver.trail.profile solver.capacity

/-- No score reaches this. -/
def scoreLimit (solver : Solver τ) : Nat := (solver.capacity + 1) ^ (solver.capacity + 1)

theorem Orderly.digits (orderly : solver.Orderly rules) (valid : origin.Valid rules solver)
    (level : Nat) : solver.trail.profile level < solver.capacity + 1 :=
  Nat.lt_succ_of_le (orderly.sorted.profile_le valid.coherent.assignment.trail level)

theorem Orderly.score_lt (orderly : solver.Orderly rules) (valid : origin.Valid rules solver) :
    solver.score < solver.scoreLimit :=
  numeral_lt (orderly.digits valid) solver.capacity

theorem Orderly.score_raise (orderly : before.Orderly rules) (valid : origin.Valid rules before)
    (orderlyAfter : after.Orderly rules) (validAfter : origin.Valid rules after)
    (raises : Raises before.trail.profile after.trail.profile) : before.score < after.score := by
  have sound := validAfter.coherent.assignment.trail
  have same : after.capacity = before.capacity :=
    validAfter.continues.capacity.trans valid.continues.capacity.symm
  unfold score
  rw [same]
  refine raises.numeral_lt (orderly.digits valid) fun level some => ?_
  obtain ⟨atom, inside⟩ := List.exists_mem_of_length_pos some
  obtain ⟨entry, found, rfl⟩ := Trail.level?_eq_some.mp ((sound.listed _ _).mp inside)
  rw [← same]
  exact (sound.level_le found).trans
    (orderlyAfter.sorted.level_le sound validAfter.reasoned)

end Solver

end ModelSearch
