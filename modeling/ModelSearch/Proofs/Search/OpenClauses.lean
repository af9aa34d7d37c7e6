import ModelSearch.Proofs.Search.FoundModels
import ModelSearch.Theory.Scripted

/-!
# Clauses that are left open

A search decides variables only.  Theory atoms that take no part in it get a value
from a clause or from their evaluation, and if an atom cannot be evaluated no clause
may ask for its value either.  So a formula may be reported satisfiable while two
atoms of a clause have no value: exactly such clauses are not satisfied.
-/

namespace ModelSearch

namespace Solver

variable {τ : Type} [TheoryAtom τ] {solver rest : Solver τ} {clause : Clause}

/-- No theory atom has a part in the search. -/
def Hookless (solver : Solver τ) : Prop :=
  ∀ (key : TheoryKey) (atom : τ), solver.theoryAtoms[key]? = some atom →
    ∀ this unassigned, TheoryAtom.hook atom this unassigned = .done

/-- The atom is of the theory, has no value, and cannot be evaluated. -/
def Unevaluated (solver : Solver τ) (atom : Atom) : Prop :=
  ∃ key known, atom = .theory key ∧ solver.theoryAtoms[key]? = some known ∧
    solver.trail.get? atom = none ∧ TheoryAtom.evaluate known solver.values = none

/-- No literal of the clause is true, and two cannot be evaluated. -/
def LeftOpen (solver : Solver τ) (clause : Clause) : Prop :=
  solver.satisfies clause = false ∧ ∃ first ∈ clause, ∃ second ∈ clause, first ≠ second ∧
    solver.Unevaluated first.atom ∧ solver.Unevaluated second.atom

theorem Hookless.heedful (hookless : solver.Hookless) (coherent : solver.Coherent)
    (rules : Rules τ) : solver.Heedful rules := by
  intro reached changes owner atom unassigned present _
  rw [hookless owner atom ((changes.continues coherent).theoryAtoms ▸ present)]
  trivial

omit [TheoryAtom τ] in
/-- Asking whether a clause is satisfied changes nothing. -/
theorem clauseSatisfied_of_stored {key : ClauseKey}
    (stored : solver.clauses.clause? key = some clause) :
    clauseSatisfied key solver = .ok (solver.satisfies clause) solver :=
  bind_eq (clause_of_stored stored)

namespace Complete

/-- A literal without a truth value is of an atom that cannot be evaluated. -/
theorem unevaluated (complete : solver.Complete) (coherent : solver.Coherent)
    (sorted : solver.Sorted) {key : ClauseKey}
    (stored : solver.clauses.clause? key = some clause) {literal : Literal}
    (member : literal ∈ clause) (undetermined : solver.trail.literalTruth? literal = none) :
    solver.Unevaluated literal.atom := by
  have unvalued := sorted.unvalued stored member undetermined
  have admits := sorted.fitting key clause stored literal member
  generalize literal.atom = atom at unvalued admits ⊢
  cases atom with
  | var key =>
      obtain ⟨known, present, _⟩ := admits
      have valued := complete.valued key (Array.getElem?_eq_some_iff.mp present).1
      rw [unvalued] at valued
      cases valued
  | theory key =>
      have inside : key < solver.theoryAtoms.size := admits.1
      have present := Array.getElem?_eq_getElem inside
      have listed : key ∈ solver.evaluable :=
        (mem_evaluable coherent).mpr ⟨unvalued, _, present, fun variableKey member =>
          complete.valued _ (coherent.registered _ _ present _ member)⟩
      exact ⟨key, _, rfl, present, unvalued, complete.rest.unevaluated key listed _ present⟩

/-- A watched clause is satisfied, or two of its literals have no truth value. -/
theorem satisfied_or_open (complete : solver.Complete) (coherent : solver.Coherent)
    {key : ClauseKey} (watched : solver.clauses.Watched key clause) :
    solver.satisfies clause = true ∨ ∃ first ∈ clause, ∃ second ∈ clause, first ≠ second ∧
      solver.trail.literalTruth? first = none ∧ solver.trail.literalTruth? second = none := by
  by_cases satisfied : solver.satisfies clause = true
  · exact .inl satisfied
  · have untrue : ∀ literal ∈ clause, solver.trail.literalTruth? literal ≠ some true := by
      intro literal member holds
      exact satisfied (List.any_eq_true.mpr ⟨literal, member, by rw [holds]; rfl⟩)
    have undetermined : ∀ literal ∈ clause,
        solver.trail.literalTruth? literal ≠ some false →
          solver.trail.literalTruth? literal = none := by
      intro literal member notFalse
      cases truth : solver.trail.literalTruth? literal with
      | none => rfl
      | some given =>
          cases given with
          | true => exact absurd truth (untrue literal member)
          | false => exact absurd truth notFalse
    obtain ⟨first, firstMember, notFalse⟩ := complete.unviolated coherent watched
    have firstOpen := undetermined first firstMember notFalse
    -- Were all other literals false, the clause would be unit.
    by_contra closed
    have unit : (key, first) ∈ solver.clauses.units := by
      refine coherent.assignment.clauses.mem_units.mpr
        ⟨clause, watched, firstMember, firstOpen, fun second secondMember different => ?_⟩
      by_contra notFalse
      exact closed (.inr ⟨first, firstMember, second, secondMember, Ne.symm different, firstOpen,
        undetermined second secondMember notFalse⟩)
    rw [complete.rest.idle] at unit
    cases unit

end Complete

/-- If no theory atom has a part in the search, a clause of a formula that is reported
satisfiable is satisfied if and only if it is not left open. -/
theorem clauseSatisfied_iff_not_leftOpen {configuration : Configuration} {fuel : Nat}
    (stated : Stated configuration solver) (hookless : solver.Hookless)
    (answered : solve fuel solver = .ok .satisfiable rest) {key : ClauseKey}
    (stored : solver.clauses.clause? key = some clause) :
    clauseSatisfied key rest = .ok true rest ↔ ¬rest.LeftOpen clause := by
  have ready := stated.ready
  obtain ⟨changes, complete⟩ :=
    (alters_solve (hookless.heedful ready.coherent Rules.typed) ready.coherent fuel).of_ok answered
  have complete := complete ready.unsettled rfl
  have coherent := changes.coherent ready.coherent
  have sorted := (changes.orderly ready.coherent ⟨Rules.typed_careful, ready.sorted⟩).sorted
  have watched := changes.watched ready.coherent (ready.watched key clause stored)
  have kept := watched.clause?
  rw [clauseSatisfied_of_stored kept]
  constructor
  · rintro same ⟨unsatisfied, _⟩
    rw [unsatisfied] at same
    cases same
  · intro closed
    rcases complete.satisfied_or_open coherent watched with satisfied | isOpen
    · rw [satisfied]
    · obtain ⟨first, firstMember, second, secondMember, different, firstOpen, secondOpen⟩ := isOpen
      cases satisfied : rest.satisfies clause with
      | true => rfl
      | false =>
          exact absurd ⟨satisfied, first, firstMember, second, secondMember, different,
            complete.unevaluated coherent sorted kept firstMember firstOpen,
            complete.unevaluated coherent sorted kept secondMember secondOpen⟩ closed

end Solver

/-! ## Two atoms that cannot be evaluated -/

/-- An atom about a variable that is never true or false. -/
def vagueAtom (name : String) : ScriptedAtom where
  inputs := [0]
  connective := .undefined
  actions := []
  name := name

/-- One of two vague atoms is true. -/
def vagueFormula : Solver ScriptedAtom :=
  ((((Solver.new {}).withVariable "p" .boolean).withTheoryAtom (vagueAtom "s")).withTheoryAtom
    (vagueAtom "t")).withClause (Clause.ofList [⟨.theory 0, true⟩, ⟨.theory 1, true⟩])

theorem stated_vagueFormula : Stated {} vagueFormula := by
  refine .withClause (.withTheoryAtom (.withTheoryAtom (.withVariable .new ?_ _) ?_) ?_) ?_
  all_goals decide +kernel

theorem hookless_vagueFormula : vagueFormula.Hookless := by
  intro key atom present
  match key, present with
  | 0, present =>
      cases present
      exact fun _ _ => rfl
  | 1, present =>
      cases present
      exact fun _ _ => rfl
  | key + 2, present => cases present

theorem vagueFormula_answer : ∃ rest, Solver.solve 10 vagueFormula = .ok .satisfiable rest ∧
    Solver.clauseSatisfied 0 rest = .ok false rest := by
  have answered : answer? (Solver.solve 10) vagueFormula = some .satisfiable := by
    decide +kernel
  have stored : (left (Solver.solve 10) vagueFormula).clauses.clause? 0 =
      some (Clause.ofList [⟨.theory 0, true⟩, ⟨.theory 1, true⟩]) := by
    decide +kernel
  have unsatisfied : (left (Solver.solve 10) vagueFormula).satisfies
      (Clause.ofList [⟨.theory 0, true⟩, ⟨.theory 1, true⟩]) = false := by
    decide +kernel
  refine ⟨_, ok_of_answer answered, ?_⟩
  rw [Solver.clauseSatisfied_of_stored stored, unsatisfied]

/-- The formula is reported satisfiable, and its only clause is not satisfied. -/
theorem vagueFormula_unsatisfied : Stated {} vagueFormula ∧ vagueFormula.Hookless ∧
    ∃ rest, Solver.solve 10 vagueFormula = .ok .satisfiable rest ∧
      Solver.clauseSatisfied 0 rest = .ok false rest :=
  ⟨stated_vagueFormula, hookless_vagueFormula, vagueFormula_answer⟩

/-- Its two atoms are left without a value. -/
theorem vagueFormula_leftOpen : ∃ rest,
    Solver.solve 10 vagueFormula = .ok .satisfiable rest ∧
      rest.LeftOpen (Clause.ofList [⟨.theory 0, true⟩, ⟨.theory 1, true⟩]) := by
  obtain ⟨rest, answered, unsatisfied⟩ := vagueFormula_answer
  refine ⟨rest, answered, ?_⟩
  by_contra closed
  have stored : vagueFormula.clauses.clause? 0 =
      some (Clause.ofList [⟨.theory 0, true⟩, ⟨.theory 1, true⟩]) := rfl
  have satisfied := (Solver.clauseSatisfied_iff_not_leftOpen stated_vagueFormula
    hookless_vagueFormula answered stored).mpr closed
  rw [unsatisfied] at satisfied
  cases satisfied

end ModelSearch
