import ModelSearch.Proofs.Search.Rounds

/-!
# What a refutation shows

A valuation of the variables gives every atom a truth value.  If it fulfils the
clauses and agrees with all values of level zero, steps keep it so, unless a hook
picks a value of level zero that the valuation does not give.  So a refutation is
an argument about exactly the valuations that agree with what hooks picked.
-/

namespace ModelSearch

namespace Solver

variable {τ : Type} [TheoryAtom τ] {rules : Rules τ} {jumping : Bool}
  {origin solver before after : Solver τ} {values : VariableKey → Value}

/-- The truth of a theory atom depends on the values of its variables only. -/
def EvaluatesLocally (solver : Solver τ) : Prop :=
  ∀ (key : TheoryKey) (atom : τ), solver.theoryAtoms[key]? = some atom →
    ∀ left right : Valuation, (∀ key ∈ TheoryAtom.support atom, left key = right key) →
      TheoryAtom.evaluate atom left = TheoryAtom.evaluate atom right

/-- The truth of an atom if the variables have these values. -/
def truthUnder (solver : Solver τ) (values : VariableKey → Value) : Atom → Option Bool
  | .var key => (values key).truth?
  | .theory key => (solver.theoryAtoms[key]?).bind fun atom =>
      TheoryAtom.evaluate atom fun key => some (values key)

/-- Every variable has a value of its sort. -/
def TheoryModel (solver : Solver τ) (values : VariableKey → Value) : Prop :=
  ∀ key known, solver.vars.get? key = some known → (values key).sort = known.sort

/-- The values are of the right sorts and make every clause true. -/
structure Model (solver : Solver τ) (values : VariableKey → Value) : Prop where
  theoryModel : solver.TheoryModel values
  fulfilled : solver.Fulfilled (solver.truthUnder values)

/-- The value is the one that the atom has under these values. -/
def Agrees (solver : Solver τ) (values : VariableKey → Value) (atom : Atom) (value : Value) :
    Prop :=
  match atom with
  | .var key => values key = value
  | .theory key => ∃ truth, value = .boolean truth ∧
      solver.truthUnder values (.theory key) = some truth

/-- The valuation fulfils the clauses and agrees with all values of level zero. -/
structure Faithful (solver : Solver τ) (values : VariableKey → Value) : Prop where
  base : ∀ atom entry, solver.trail.get? atom = some entry → entry.level = 0 →
    solver.Agrees values atom entry.value
  clauses : solver.Fulfilled (solver.truthUnder values)

theorem truthUnder_congr (same : after.theoryAtoms = before.theoryAtoms) :
    after.truthUnder values = before.truthUnder values := by
  funext atom
  cases atom with
  | var key => rfl
  | theory key => rw [truthUnder, truthUnder, same]

theorem agrees_congr (same : after.theoryAtoms = before.theoryAtoms) {atom : Atom}
    {value : Value} : after.Agrees values atom value ↔ before.Agrees values atom value := by
  unfold Agrees
  rw [truthUnder_congr same]

omit [TheoryAtom τ] in
theorem TheoryModel.continues (model : before.TheoryModel values)
    (continues : before.Continues after) : after.TheoryModel values := by
  intro key known present
  have sorts := continues.sort?_eq key
  rw [present] at sorts
  obtain ⟨former, found, same⟩ := Option.map_eq_some_iff.mp sorts.symm
  rw [model key former found, same]

theorem agrees_boolean {atom : Atom} {truth : Bool} :
    solver.Agrees values atom (.boolean truth) ↔ solver.truthUnder values atom = some truth := by
  cases atom with
  | var key =>
      show values key = .boolean truth ↔ (values key).truth? = some truth
      cases values key <;> simp [Value.truth?]
  | theory key =>
      constructor
      · rintro ⟨other, same, holds⟩
        rw [holds, Value.boolean.inj same]
      · exact fun holds => ⟨truth, rfl, holds⟩

theorem Model.faithful (model : solver.Model values)
    (untouched : ∀ atom, solver.trail.get? atom = none) : solver.Faithful values where
  base atom entry found := by
    rw [untouched] at found
    cases found
  clauses := model.fulfilled

end Solver

variable {τ : Type} [TheoryAtom τ] {rules : Rules τ} {jumping : Bool}
  {origin solver before after : Solver τ} {values : VariableKey → Value}

/-- At level zero the last literal of a clause is true under a faithful valuation. -/
theorem Solver.Faithful.unit (faithful : solver.Faithful values) (sound : solver.trail.Sound)
    (zero : solver.trail.level = 0) {key : ClauseKey} {clause : Clause} {literal : Literal}
    (stored : solver.clauses.clause? key = some clause)
    (others : ∀ other ∈ clause, other ≠ literal → solver.Falsifies other) :
    solver.truthUnder values literal.atom = some literal.polarity := by
  obtain ⟨member, inside, holds⟩ := faithful.clauses key clause stored
  by_cases same : member = literal
  · exact same ▸ holds
  · obtain ⟨entry, found, falsified⟩ := (others member inside same).entry
    have low := sound.level_le found
    have agrees := faithful.base _ _ found (by omega)
    rw [falsified, agrees_boolean, holds] at agrees
    exact absurd (Option.some.inj agrees).symm (Bool.not_ne_self _)

/-- At level zero an evaluation is that under a faithful valuation. -/
theorem Solver.Faithful.evaluated (faithful : solver.Faithful values)
    (locally : solver.EvaluatesLocally) (coherent : solver.toAssignment.Coherent)
    {owner : TheoryKey} {atom : τ} (present : solver.theoryAtoms[owner]? = some atom)
    (valued : ∀ key ∈ TheoryAtom.support atom,
      (solver.trail.get? (.var key)).isSome = true)
    (zero : Solver.greatestLevel solver.trail (TheoryAtom.support atom) = 0) :
    TheoryAtom.evaluate atom solver.values =
      TheoryAtom.evaluate atom fun key => some (values key) := by
  refine locally owner atom present _ _ fun key member => ?_
  obtain ⟨entry, found⟩ := Option.isSome_iff_exists.mp (valued key member)
  have levelled : entry.level ∈ (TheoryAtom.support atom).filterMap fun key =>
      solver.trail.level? (.var key) :=
    List.mem_filterMap.mpr ⟨key, member, Trail.level?_eq_some.mpr ⟨entry, found, rfl⟩⟩
  have low : entry.level ≤ Solver.greatestLevel solver.trail (TheoryAtom.support atom) :=
    (Trail.foldl_max_spec _ 0).2.2 _ levelled
  have agrees : values key = entry.value := faithful.base _ _ found (by omega)
  show solver.vars.value? key = _
  rw [coherent.vars.values, agrees]
  exact Trail.value?_eq_some.mpr ⟨entry, found, rfl⟩

/-- The values of level zero that hooks picked are those of the valuation. -/
def Solver.Picks (solver : Solver τ) (values : VariableKey → Value) : Prop :=
  ∀ key entry, solver.trail.get? (.var key) = some entry → entry.level = 0 →
    entry.reason = .semantic → values key = entry.value

theorem Step.base (step : Step rules jumping before after) (coherent : before.Coherent)
    {atom : Atom} {entry : Entry} (found : before.trail.get? atom = some entry)
    (zero : entry.level = 0) : after.trail.get? atom = some entry := by
  cases step with
  | tell assignment theoryAtoms configuration splits => rwa [assignment]
  | requeue sound same => exact found
  | choose free warrant => exact (Solver.grown_chosen free _).kept _ _ found
  | give free grounds => exact (Solver.grown_given free _ _ _).kept _ _ found
  | learn allowed fitting => exact found
  | store derived => exact found
  | watch key => exact found
  | jump allowed kind below splitting =>
      exact (Solver.get?_jumped coherent.assignment).mpr ⟨found, zero ▸ Nat.zero_le _⟩

theorem Steps.base (steps : Steps rules jumping before after) (valid : origin.Valid rules before)
    {atom : Atom} {entry : Entry} (found : before.trail.get? atom = some entry)
    (zero : entry.level = 0) : after.trail.get? atom = some entry := by
  induction steps with
  | refl => exact found
  | tail steps step induction => exact step.base (Steps.valid steps valid).coherent induction zero

/-- What hooks picked so far is part of what they have picked later. -/
theorem Solver.Picks.earlier (picks : after.Picks values) (steps : Steps rules jumping before after)
    (valid : origin.Valid rules before) : before.Picks values :=
  fun key entry found zero semantic =>
    picks key entry (steps.base valid found zero) zero semantic

theorem Step.faithful (step : Step rules jumping before after)
    (locally : before.EvaluatesLocally) (valid : origin.Valid rules before)
    (faithful : before.Faithful values) (picks : after.Picks values)
    (lemmas : ∀ owner clause, rules.learn before owner clause →
      clause.Holds (before.truthUnder values)) : after.Faithful values where
  base atom entry found zero := by
    have coherent := valid.coherent.assignment
    rw [Solver.agrees_congr (step.continues valid.coherent).theoryAtoms]
    rcases step.entry valid.coherent found with former | ⟨_, _, above⟩ | grounds
    · exact faithful.base atom entry former zero
    · rw [above] at zero
      cases zero
    · rcases entry with ⟨value, level, reason, position⟩
      cases grounds with
      | clause stored member others =>
          exact Solver.agrees_boolean.mpr (faithful.unit coherent.trail zero stored others)
      | evaluation present evaluated valued =>
          refine ⟨_, rfl, ?_⟩
          rw [faithful.evaluated locally coherent present valued zero] at evaluated
          rw [Solver.truthUnder, present]
          exact evaluated
      | request allowed => exact picks _ _ found zero rfl
  clauses key clause stored := by
    rw [Solver.truthUnder_congr (step.continues valid.coherent).theoryAtoms]
    rcases step.clause valid.coherent stored with former | ⟨_, owner, allowed⟩ | derived
    · exact faithful.clauses key clause former
    · exact lemmas owner clause allowed
    · exact derived.entailed _ faithful.clauses

/-- A valuation that agrees with all that hooks picked stays faithful. -/
theorem Steps.faithful (steps : Steps rules jumping before after)
    (locally : origin.EvaluatesLocally) (valid : origin.Valid rules before)
    (lemmas : ∀ middle owner clause, origin.Valid rules middle →
      rules.learn middle owner clause → clause.Holds (middle.truthUnder values))
    (faithful : before.Faithful values) (picks : after.Picks values) :
    after.Faithful values := by
  induction steps with
  | refl => exact faithful
  | tail steps step induction =>
      have validMiddle := Steps.valid steps valid
      have early := picks.earlier (.single step) validMiddle
      have locallyMiddle : Solver.EvaluatesLocally _ :=
        fun key atom present => locally key atom (validMiddle.continues.theoryAtoms ▸ present)
      exact step.faithful locallyMiddle validMiddle (induction early) picks fun owner clause =>
        lemmas _ owner clause validMiddle

/-- A value of level zero is picked only at a request. -/
theorem Step.picks (step : Step rules jumping before after) (coherent : before.Coherent)
    (faithful : before.Faithful values)
    (requests : before.trail.level = 0 → ∀ owner key value, rules.assign before owner key value →
      values key = value) : after.Picks values := by
  intro key entry found zero semantic
  rcases step.entry coherent found with former | ⟨_, decided, _⟩ | grounds
  · exact faithful.base (.var key) entry former zero
  · rw [decided] at semantic
    cases semantic
  · rcases entry with ⟨value, level, reason, position⟩
    generalize same : Atom.var key = atom at grounds
    cases grounds with
    | clause stored member others => cases semantic
    | evaluation present evaluated valued => cases same
    | request allowed =>
        cases same
        exact requests zero _ _ _ allowed

/-- A faithful valuation does not go with a refutation. -/
theorem Solver.Faithful.unrefuted (faithful : solver.Faithful values) : ¬solver.Refuted := by
  rintro ⟨clause, derived, refuted⟩
  obtain ⟨literal, member, holds⟩ := derived.entailed _ faithful.clauses
  obtain ⟨falsified, levelled⟩ := refuted literal member
  obtain ⟨entry, found, value⟩ := falsified.entry
  obtain ⟨_, same, zero⟩ := Trail.level?_eq_some.mp levelled
  obtain rfl := Option.some.inj (found.symm.trans same)
  have agrees := faithful.base _ _ found zero
  rw [value, Solver.agrees_boolean, holds] at agrees
  exact absurd (Option.some.inj agrees).symm (Bool.not_ne_self _)

end ModelSearch
