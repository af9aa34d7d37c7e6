import ModelSearch.Proofs.Actions.Alterations
import ModelSearch.Proofs.Theory.Bounds

/-!
# What a model that was found shows

A search that reports a model leaves no variable without a value, no watched clause
violated and no theory atom at odds with its evaluation.  If evaluations are total
and hooks keep to the sorts, then the valuation that is reported satisfies the
formula, lemmas included, whatever clauses hooks reported meanwhile.
-/

namespace ModelSearch

/-- Hooks keep to the sorts, and decide only atoms without a value. -/
def Rules.typed {τ : Type} : Rules τ where
  assign solver _ key value := solver.Admits (.var key) value
  decide solver _ atom value := solver.Admits atom value ∧ solver.trail.get? atom = none
  learn _ _ _ := True

theorem Rules.typed_careful {τ : Type} : (Rules.typed : Rules τ).Careful where
  assign _ _ _ _ allowed := allowed
  decide _ _ _ _ allowed := allowed

/-- The values that are reported, by variable. -/
def Assignment.reported (assignment : Assignment) : Valuation :=
  fun key => (assignment.valuation[key]?).bind Prod.snd

theorem Assignment.reported_eq (assignment : Assignment) :
    assignment.reported = assignment.vars.value? := by
  funext key
  simp only [reported, valuation, List.getElem?_map, Array.getElem?_toList,
    VariableStore.value?, VariableStore.get?]
  cases assignment.vars.table[key]? <;> rfl

namespace Solver

variable {τ : Type} [TheoryAtom τ] {solver rest : Solver τ}

/-- A theory atom is true or false as soon as its variables have values of their
sorts. -/
def EvaluatesTotally (solver : Solver τ) : Prop :=
  ∀ (key : TheoryKey) (atom : τ), solver.theoryAtoms[key]? = some atom →
    ∀ values : Valuation, (∀ variableKey ∈ TheoryAtom.support atom, ∀ known,
      solver.vars.get? variableKey = some known →
        ∃ value, values variableKey = some value ∧ value.sort = known.sort) →
      (TheoryAtom.evaluate atom values).isSome = true

/-- The truth of an atom on these values, for which nothing but them is consulted. -/
def truthOn (solver : Solver τ) (values : Valuation) : Atom → Option Bool
  | .var key => (values key).bind Value.truth?
  | .theory key => (solver.theoryAtoms[key]?).bind fun atom => TheoryAtom.evaluate atom values

/-- The assignment is a model: every variable has a value of its sort, every theory
atom has the value it evaluates to, and each clause that was stated, learnt from a
hook, or is watched has a literal that is true on the reported values alone. -/
structure ModelFound (solver : Solver τ) : Prop where
  valued : ∀ key known, solver.vars.get? key = some known →
    ∃ value, known.value = some value ∧ value.sort = known.sort
  evaluated : ∀ (key : TheoryKey) (atom : τ), solver.theoryAtoms[key]? = some atom →
    ∃ truth, solver.trail.value? (.theory key) = some (.boolean truth) ∧
      TheoryAtom.evaluate atom solver.values = some truth
  fulfilled : ∀ key stored, solver.clauses.stored? key = some stored →
    stored.source ≠ .resolution ∨ stored.watched = true →
      stored.clause.Holds (solver.truthOn solver.reported)

/-! ## Complete assignments -/

namespace Complete

theorem valued_sort (complete : solver.Complete) (coherent : solver.Coherent)
    (sorted : solver.Sorted) {key : VariableKey} {known : Variable}
    (present : solver.vars.get? key = some known) :
    ∃ value, known.value = some value ∧ value.sort = known.sort := by
  have inside : key < solver.vars.size := (Array.getElem?_eq_some_iff.mp present).1
  obtain ⟨entry, found⟩ := Option.isSome_iff_exists.mp (complete.valued key inside)
  obtain ⟨again, presentAgain, sort⟩ := sorted.typed _ entry found
  obtain rfl := Option.some.inj (present.symm.trans presentAgain)
  have value := coherent.assignment.vars.values key
  rw [VariableStore.value?, present, Trail.value?, found] at value
  exact ⟨entry.value, value, sort.symm⟩

theorem evaluated (complete : solver.Complete) (coherent : solver.Coherent)
    (sorted : solver.Sorted) {key : TheoryKey} {atom : τ} {truth : Bool}
    (present : solver.theoryAtoms[key]? = some atom)
    (evaluation : TheoryAtom.evaluate atom solver.values = some truth) :
    solver.trail.value? (.theory key) = some (.boolean truth) := by
  cases found : solver.trail.get? (.theory key) with
  | none =>
      have listed : key ∈ solver.evaluable :=
        (mem_evaluable coherent).mpr ⟨found, atom, present, fun variableKey member =>
          complete.valued _ (coherent.registered _ _ present _ member)⟩
      rw [complete.rest.unevaluated key listed atom present] at evaluation
      cases evaluation
  | some entry =>
      obtain ⟨inside, boolean⟩ := sorted.typed _ entry found
      obtain ⟨given, value⟩ : ∃ given, entry.value = .boolean given := by
        cases shape : entry.value with
        | boolean given => exact ⟨given, rfl⟩
        | rational number =>
            rw [shape] at boolean
            cases boolean
      have truthful : solver.trail.truth? (.theory key) = some given :=
        Trail.truth?_eq_some.mpr ⟨entry, found, value⟩
      have agrees := List.find?_eq_none.mp complete.consistent key (List.mem_range.mpr inside)
      rw [truthful, present] at agrees
      dsimp only at agrees
      rw [evaluation] at agrees
      have same : truth = given := by simpa using agrees
      exact Trail.value?_eq_some.mpr ⟨entry, found, same ▸ value⟩

theorem determined (complete : solver.Complete) (sorted : solver.Sorted) {key : VariableKey}
    {truth : Bool} (admits : solver.Admits (.var key) (.boolean truth)) :
    (solver.trail.truth? (.var key)).isSome = true := by
  obtain ⟨known, present, boolean⟩ := admits
  have inside : key < solver.vars.size := (Array.getElem?_eq_some_iff.mp present).1
  obtain ⟨entry, found⟩ := Option.isSome_iff_exists.mp (complete.valued key inside)
  obtain ⟨again, presentAgain, sort⟩ := sorted.typed _ entry found
  obtain rfl := Option.some.inj (present.symm.trans presentAgain)
  cases value : entry.value with
  | boolean given =>
      rw [Trail.truth?_eq_some.mpr ⟨entry, found, value⟩]
      rfl
  | rational number =>
      rw [value, boolean] at sort
      cases sort

theorem unviolated (complete : solver.Complete) (coherent : solver.Coherent) {key : ClauseKey}
    {clause : Clause} (watched : solver.clauses.Watched key clause) :
    ∃ literal ∈ clause, solver.trail.literalTruth? literal ≠ some false := by
  by_contra all
  have inside : key ∈ solver.clauses.violated :=
    coherent.assignment.clauses.mem_violated.mpr ⟨clause, watched, fun literal member => by
      by_contra different
      exact all ⟨literal, member, different⟩⟩
  rw [complete.rest.fine] at inside
  cases inside

/-- If every theory atom has an evaluation, an atom that fits into clauses has the
same truth on the trail and on the reported values. -/
theorem truth (complete : solver.Complete) (coherent : solver.Coherent)
    (sorted : solver.Sorted)
    (total : ∀ (key : TheoryKey) (atom : τ), solver.theoryAtoms[key]? = some atom →
      (TheoryAtom.evaluate atom solver.values).isSome = true)
    {atom : Atom} {fitting : Bool} (admits : solver.Admits atom (.boolean fitting)) :
    ∃ given, solver.trail.truth? atom = some given ∧
      solver.truthOn solver.reported atom = some given := by
  have reported : solver.reported = solver.values := solver.reported_eq
  rw [reported]
  cases atom with
  | var key =>
      obtain ⟨given, truth⟩ := Option.isSome_iff_exists.mp (complete.determined sorted admits)
      refine ⟨given, truth, ?_⟩
      show (solver.vars.value? key).bind Value.truth? = some given
      rw [coherent.assignment.vars.values]
      exact truth
  | theory key =>
      have inside : key < solver.theoryAtoms.size := admits.1
      have present := Array.getElem?_eq_getElem inside
      obtain ⟨given, evaluation⟩ := Option.isSome_iff_exists.mp (total key _ present)
      obtain ⟨entry, found, value⟩ :=
        Trail.value?_eq_some.mp (complete.evaluated coherent sorted present evaluation)
      refine ⟨given, Trail.truth?_eq_some.mpr ⟨entry, found, value⟩, ?_⟩
      rw [truthOn, present]
      exact evaluation

theorem holds (complete : solver.Complete) (coherent : solver.Coherent)
    (sorted : solver.Sorted)
    (total : ∀ (key : TheoryKey) (atom : τ), solver.theoryAtoms[key]? = some atom →
      (TheoryAtom.evaluate atom solver.values).isSome = true)
    {key : ClauseKey} {clause : Clause} (watched : solver.clauses.Watched key clause) :
    clause.Holds (solver.truthOn solver.reported) := by
  obtain ⟨literal, member, notFalse⟩ := complete.unviolated coherent watched
  obtain ⟨given, truth, reported⟩ := complete.truth coherent sorted total
    (sorted.fitting key clause watched.clause? literal member)
  refine ⟨literal, member, ?_⟩
  have same : given = literal.polarity := by
    by_contra different
    refine notFalse ?_
    rw [Trail.literalTruth?, truth, Option.map_some, beq_eq_false_iff_ne.mpr different]
  rw [reported, same]

end Complete

/-! ## The search -/

theorem EvaluatesTotally.continues (total : solver.EvaluatesTotally)
    (continues : solver.Continues rest)
    (valued : ∀ key known, rest.vars.get? key = some known →
      ∃ value, known.value = some value ∧ value.sort = known.sort)
    {key : TheoryKey} {atom : τ} (present : rest.theoryAtoms[key]? = some atom) :
    (TheoryAtom.evaluate atom rest.values).isSome = true := by
  refine total key atom (continues.theoryAtoms ▸ present) _ fun variableKey _ known found => ?_
  have sorts := continues.sort?_eq variableKey
  rw [found] at sorts
  obtain ⟨later, foundLater, same⟩ := Option.map_eq_some_iff.mp sorts
  obtain ⟨value, given, sort⟩ := valued variableKey later foundLater
  refine ⟨value, ?_, sort.trans same⟩
  rw [values, VariableStore.value?, foundLater]
  exact given

/-- A formula that is reported satisfiable has been given a model of its clauses and
of its theory, if theory atoms evaluate totally and hooks keep to the sorts. -/
theorem model_of_satisfiable {configuration : Configuration} {fuel : Nat}
    (stated : Stated configuration solver) (total : solver.EvaluatesTotally)
    (heedful : solver.Heedful Rules.typed)
    (answered : solve fuel solver = .ok .satisfiable rest) :
    solver.Continues rest ∧ rest.ModelFound := by
  have ready := stated.ready
  obtain ⟨changes, complete⟩ := (alters_solve heedful ready.coherent fuel).of_ok answered
  have complete := complete ready.unsettled rfl
  have continues := changes.continues ready.coherent
  have coherent := changes.coherent ready.coherent
  have sorted := (changes.orderly ready.coherent ⟨Rules.typed_careful, ready.sorted⟩).sorted
  have valued : ∀ key known, rest.vars.get? key = some known →
      ∃ value, known.value = some value ∧ value.sort = known.sort :=
    fun _ _ => complete.valued_sort coherent sorted
  have evaluates : ∀ (key : TheoryKey) (atom : τ), rest.theoryAtoms[key]? = some atom →
      (TheoryAtom.evaluate atom rest.values).isSome = true :=
    fun _ _ => total.continues continues valued
  refine ⟨continues, valued, fun key atom present => ?_, fun key stored present posted => ?_⟩
  · obtain ⟨truth, evaluation⟩ := Option.isSome_iff_exists.mp (evaluates key atom present)
    exact ⟨truth, complete.evaluated coherent sorted present evaluation, evaluation⟩
  · have watched : stored.watched = true := by
      rcases posted with given | watched
      · exact changes.posted ready.coherent ready.posted key stored present given
      · exact watched
    exact complete.holds coherent sorted evaluates ⟨stored, present, watched, rfl⟩

end Solver

/-! ## Two bounds that agree -/

namespace Bound

/-- The bounds on rational variables keep to the sorts whatever happens. -/
theorem heedful_typed {solver : Solver Bound} (rational : OverRationals solver)
    (coherent : solver.Coherent) : solver.Heedful Rules.typed := by
  intro reached changes owner atom unassigned present lacks
  have continues := changes.continues coherent
  obtain rfl : unassigned = atom.key := List.mem_singleton.mp lacks.member
  have admits : ∀ number, solver.Admits (.var atom.key) (.rational number) :=
    fun _ => rational owner atom (continues.theoryAtoms ▸ present)
  exact (hook_keeps atom _ fun number => continues.admits.mpr (admits number)).asks

theorem evaluatesTotally {solver : Solver Bound} (rational : OverRationals solver) :
    solver.EvaluatesTotally := by
  intro owner atom present values valued
  obtain ⟨known, found, sort⟩ := rational owner atom present
  obtain ⟨value, given, same⟩ := valued atom.key List.mem_cons_self known found
  show (Option.map _ ((values atom.key).bind Value.number?)).isSome = true
  cases value with
  | boolean truth =>
      rw [sort] at same
      cases same
  | rational number =>
      rw [given]
      rfl

/-- The bound `x < 5` holds, so 4 is picked, and that is at least 1. -/
def modestFormula : Solver Bound :=
  ((((Solver.new {}).withVariable "x" .rational).withVariable "p" .boolean).withTheoryAtom
    ⟨0, 5.0, true⟩).withTheoryAtom ⟨0, 1.0, false⟩ |>.withClause
      (Clause.ofList [⟨.theory 0, true⟩]) |>.withClause
        (Clause.ofList [⟨.theory 1, true⟩, ⟨.var 1, true⟩])

theorem stated_modestFormula : Stated {} modestFormula := by
  refine .withClause (.withClause (.withTheoryAtom (.withTheoryAtom
    (.withVariable (.withVariable .new ?_ _) ?_ _) ?_) ?_) ?_) ?_
  all_goals decide +kernel

theorem overRationals_modestFormula : OverRationals modestFormula :=
  overRationals_of_sorts (by decide +kernel)

theorem modestFormula_model : ∃ rest, Solver.solve 10 modestFormula = .ok .satisfiable rest ∧
    modestFormula.Continues rest ∧ rest.ModelFound := by
  have answered : answer? (Solver.solve 10) modestFormula = some .satisfiable := by
    decide +kernel
  have answered := ok_of_answer answered
  exact ⟨_, answered, Solver.model_of_satisfiable stated_modestFormula
    (evaluatesTotally overRationals_modestFormula)
    (heedful_typed overRationals_modestFormula stated_modestFormula.ready.coherent) answered⟩

end Bound

end ModelSearch
