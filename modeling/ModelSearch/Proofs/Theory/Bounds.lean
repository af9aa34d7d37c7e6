import ModelSearch.Proofs.Operations.Stating
import ModelSearch.Proofs.Search.Soundness
import ModelSearch.Proofs.Search.Termination
import ModelSearch.Theory.Bound

/-!
# Searches with bounds

A bound picks a value for its variable, though other values agree with it as well.
So a refuted formula may have models, but only ones in which some value picked at
level zero is another.  Whether a search ends depends on its splits alone.
-/

namespace ModelSearch

namespace Bound

/-- Bounds do nothing but give values to variables. -/
def rules : Rules Bound where
  assign _ _ _ _ := True
  decide _ _ _ _ := False
  learn _ _ _ := False

/-- Bounds give rational values to rational variables. -/
def carefulRules : Rules Bound where
  assign solver _ key value := solver.Admits (.var key) value
  decide _ _ _ _ := False
  learn _ _ _ := False

theorem carefulRules_careful : carefulRules.Careful where
  assign _ _ _ _ allowed := allowed
  decide _ _ _ _ absurdity := absurdity.elim

theorem hook_keeps {allowed : Rules Bound} {solver : Solver Bound} {owner : TheoryKey}
    {key : VariableKey} (atom : Bound) (this : Atom)
    (picks : ∀ number, allowed.assign solver owner key (.rational number)) :
    (TheoryAtom.hook atom this key).Keeps allowed owner solver := by
  show (atom.response key (solver.trail.truth? this)).Keeps allowed owner solver
  cases solver.trail.truth? this with
  | none => trivial
  | some truth => exact ⟨picks _, fun _ _ _ => trivial⟩

theorem obeys_rules (solver : Solver Bound) : solver.Obeys rules :=
  fun _ atom _ _ _ => hook_keeps atom _ fun _ => trivial

/-- The bounds of the solver are on rational variables. -/
def OverRationals (solver : Solver Bound) : Prop :=
  ∀ (owner : TheoryKey) (atom : Bound), solver.theoryAtoms[owner]? = some atom →
    ∃ known, solver.vars.get? atom.key = some known ∧ known.sort = .rational

/-- Whether the bounds are on rational variables can be read off the solver. -/
theorem overRationals_of_sorts {solver : Solver Bound}
    (sorts : ∀ atom ∈ solver.theoryAtoms.toList,
      (solver.vars.get? atom.key).map Variable.sort = some .rational) :
    OverRationals solver := by
  intro owner atom present
  have listed : atom ∈ solver.theoryAtoms.toList :=
    Array.mem_toList_iff.mpr (Array.mem_of_getElem? present)
  exact Option.map_eq_some_iff.mp (sorts atom listed)

theorem obeys_carefulRules {origin solver : Solver Bound} (rational : OverRationals origin)
    (continues : origin.Continues solver) : solver.Obeys carefulRules := by
  intro owner atom unassigned present lacks
  obtain rfl : unassigned = atom.key := List.mem_singleton.mp lacks.member
  have admits : ∀ number, origin.Admits (.var atom.key) (.rational number) :=
    fun _ => rational owner atom (continues.theoryAtoms ▸ present)
  exact hook_keeps atom _ fun number => continues.admits.mpr (admits number)

theorem evaluatesLocally (solver : Solver Bound) : solver.EvaluatesLocally := by
  intro _ atom _ left right same
  have value : left atom.key = right atom.key := same atom.key List.mem_cons_self
  show Option.map _ ((left atom.key).bind Value.number?) = Option.map _ _
  rw [value]

variable {configuration : Configuration} {solver rest : Solver Bound} {fuel : Nat}

/-- A model of a refuted formula differs from what was picked at level zero. -/
theorem model_of_refuted (stated : Stated configuration solver)
    (answered : Solver.solve fuel solver = .ok .unsatisfiable rest)
    {values : VariableKey → Value} (model : solver.Model values) : ¬rest.Picks values := by
  intro picks
  have ready := stated.ready
  have valid : solver.Valid rules solver := ready.valid
  obtain ⟨steps, refuted⟩ := (Solver.runs_solve (fun state _ => obeys_rules state) valid
    ready.unsettled fuel).of_ok answered
  have faithful := model.faithful (Solver.get?_untouched ready.untouched)
  exact (steps.faithful (evaluatesLocally solver) valid (fun _ _ _ _ absurdity => absurdity.elim)
    faithful picks).unrefuted refuted

/-- That a formula is reported unsatisfiable is right if and only if each of its
models has the values picked at level zero. -/
theorem unsatisfiable_iff_picks (stated : Stated configuration solver)
    (answered : Solver.solve fuel solver = .ok .unsatisfiable rest) :
    (¬∃ values, solver.Model values) ↔ ∀ values, solver.Model values → rest.Picks values := by
  constructor
  · exact fun none values model => absurd ⟨values, model⟩ none
  · rintro picks ⟨values, model⟩
    exact model_of_refuted stated answered model (picks values model)

/-! ## A formula refuted in haste -/

/-- The bound `x < 5` holds, so 4 is picked; but `x < 3` is needed as well. -/
def hastyFormula : Solver Bound :=
  (((((Solver.new {}).withVariable "x" .rational).withVariable "p" .boolean).withTheoryAtom
    ⟨0, 5.0, true⟩).withTheoryAtom ⟨0, 3.0, true⟩ |>.withClause
      (Clause.ofList [⟨.theory 0, true⟩]) |>.withClause
        (Clause.ofList [⟨.theory 1, true⟩, ⟨.var 1, true⟩])).withClause
          (Clause.ofList [⟨.theory 1, true⟩, ⟨.var 1, false⟩])

theorem stated_hastyFormula : Stated {} hastyFormula := by
  refine .withClause (.withClause (.withClause (.withTheoryAtom (.withTheoryAtom
    (.withVariable (.withVariable .new ?_ _) ?_ _) ?_) ?_) ?_) ?_) ?_
  all_goals decide +kernel

/-- The number is 2, and every Boolean is true. -/
def two : VariableKey → Value
  | 0 => .rational 2.0
  | _ => .boolean true

theorem model_hastyFormula : hastyFormula.Model two where
  theoryModel key known present := by
    match key, present with
    | 0, present =>
        cases present
        rfl
    | 1, present =>
        cases present
        rfl
    | key + 2, present => cases present
  fulfilled key clause stored := by
    match key, stored with
    | 0, stored =>
        cases stored
        exact ⟨⟨.theory 0, true⟩, by decide, rfl⟩
    | 1, stored =>
        cases stored
        exact ⟨⟨.theory 1, true⟩, by decide, rfl⟩
    | 2, stored =>
        cases stored
        exact ⟨⟨.theory 1, true⟩, by decide, rfl⟩
    | key + 3, stored => cases stored

theorem overRationals_hastyFormula : OverRationals hastyFormula :=
  overRationals_of_sorts (by decide +kernel)

theorem hastyFormula_answer : ∃ rest, Solver.solve 10 hastyFormula = .ok .unsatisfiable rest := by
  have answered : answer? (Solver.solve 10) hastyFormula = some .unsatisfiable := by
    decide +kernel
  exact ⟨_, ok_of_answer answered⟩

/-- It is reported unsatisfiable, and has a model. -/
theorem hastyFormula_refuted : Stated {} hastyFormula ∧ OverRationals hastyFormula ∧
    (∃ rest, Solver.solve 10 hastyFormula = .ok .unsatisfiable rest) ∧
      ∃ values, hastyFormula.Model values :=
  ⟨stated_hastyFormula, overRationals_hastyFormula, hastyFormula_answer, two,
    model_hastyFormula⟩

/-- What was picked at level zero is not the value of some model. -/
theorem hastyFormula_mispicked : ∃ rest, Solver.solve 10 hastyFormula = .ok .unsatisfiable rest ∧
    ¬∀ values, hastyFormula.Model values → rest.Picks values := by
  obtain ⟨rest, answered⟩ := hastyFormula_answer
  refine ⟨rest, answered, fun picks => ?_⟩
  exact (unsatisfiable_iff_picks stated_hastyFormula answered).mpr picks
    ⟨two, model_hastyFormula⟩

/-! ## Termination -/

/-- A search ends with a report or an error if and only if its splits are bounded. -/
theorem terminates_iff_splits (stated : Stated configuration solver)
    (rational : OverRationals solver) :
    solver.Terminates ↔ ∃ most, ∀ fuel, solver.splitsWithin fuel ≤ most := by
  have ready := stated.ready
  have orderly : solver.Orderly carefulRules := ⟨carefulRules_careful, ready.sorted⟩
  exact Solver.terminates_iff (fun _ valid => obeys_carefulRules rational valid.continues)
    ready.valid ready.unsettled orderly

/-- The search for a model of the hasty formula ends, so its splits are bounded. -/
theorem hastyFormula_splits : ∃ most, ∀ fuel, hastyFormula.splitsWithin fuel ≤ most := by
  refine (terminates_iff_splits stated_hastyFormula overRationals_hastyFormula).mp ⟨10, ?_⟩
  obtain ⟨rest, answered⟩ := hastyFormula_answer
  unfold Solver.EndsWithin Ends
  rw [answered]
  trivial

end Bound

end ModelSearch
