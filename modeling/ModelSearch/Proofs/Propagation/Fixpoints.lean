import ModelSearch.Proofs.Actions.Records
import ModelSearch.Proofs.Stores.Mirrors

/-!
# What propagation leaves to do

Propagation stops when a round gives no value.  Then no theory atom is left that could
be evaluated, and no clause is violated or unit that was there when the hooks of that
round were run.  But a lemma that they added is left as it is: it is not looked at
before the next call.
-/

namespace ModelSearch

/-- All literals of the clause are false, or all but one that has no truth value. -/
def Assignment.Pressing (assignment : Assignment) (clause : Clause) : Prop :=
  (∀ literal ∈ clause, assignment.Falsifies literal) ∨
    ∃ literal ∈ clause, assignment.trail.truth? literal.atom = none ∧
      ∀ other ∈ clause, other ≠ literal → assignment.Falsifies other

namespace Solver

variable {τ : Type} [TheoryAtom τ] {solver middle rest : Solver τ}

/-- Nothing is left to do but for lemmas that hooks added last: no theory atom can be
evaluated, and any clause that is violated or unit was stored when the hooks of the
last round were run. -/
structure Stopped (solver rest : Solver τ) : Prop where
  evaluated : ∀ (key : TheoryKey) (atom : τ), rest.theoryAtoms[key]? = some atom →
    rest.trail.get? (.theory key) = none →
      (∀ variableKey ∈ TheoryAtom.support atom,
        (rest.trail.get? (.var variableKey)).isSome = true) →
      TheoryAtom.evaluate atom rest.values = none
  added : ∃ middle, solver.Continues middle ∧ consultTheory middle = .ok none rest ∧
    rest.trail = middle.trail ∧
    (∀ key clause, middle.clauses.Watched key clause → ¬middle.Pressing clause) ∧
    ∀ key clause, rest.clauses.Watched key clause → rest.Pressing clause →
      middle.clauses.size ≤ key ∧ rest.clauses.stored? key = some ⟨clause, .theory, true⟩

private theorem pressing_congr {assignment other : Assignment} {clause : Clause}
    (trail : other.trail = assignment.trail) :
    other.Pressing clause ↔ assignment.Pressing clause := by
  unfold Assignment.Pressing Assignment.Falsifies
  rw [trail]

/-- What is at rest has no clause that is violated or unit. -/
theorem AtRest.not_pressing (atRest : middle.AtRest) (coherent : middle.Coherent)
    {key : ClauseKey} {clause : Clause} (watched : middle.clauses.Watched key clause) :
    ¬middle.Pressing clause := by
  have mirrors := coherent.mirrors
  rintro (falsified | ⟨literal, member, undetermined, others⟩)
  · have inside := (mirrors.violated.2 key).mpr ⟨clause, watched, falsified⟩
    rw [atRest.fine] at inside
    cases inside
  · have inside := (mirrors.units.2 key literal).mpr
      ⟨clause, watched, member, undetermined, others⟩
    rw [atRest.idle] at inside
    cases inside

omit [TheoryAtom τ] in
/-- A clause that hooks did not find is one of their lemmas. -/
private theorem lemma_of_fresh (adds : Adds middle rest) {key : ClauseKey} {clause : Clause}
    (watched : rest.clauses.Watched key clause)
    (unwatched : ¬middle.clauses.Watched key clause) :
    middle.clauses.size ≤ key ∧ rest.clauses.stored? key = some ⟨clause, .theory, true⟩ := by
  obtain ⟨stored, present, already, rfl⟩ := watched
  have absent : middle.clauses.stored? key ≠ some stored :=
    fun former => unwatched ⟨stored, former, already, rfl⟩
  obtain ⟨theory, _⟩ := (adds.fresh key stored present).resolve_left absent
  refine ⟨?_, by rw [present, ← theory, ← already]⟩
  by_contra below
  have inside : key < middle.clauses.size := Nat.lt_of_not_le below
  have former : middle.clauses.stored? key = some middle.clauses.clauses[key] :=
    Array.getElem?_eq_getElem inside
  have kept := adds.kept key _ former
  rw [present] at kept
  exact absent (former.trans kept.symm)

theorem Stopped.of_consulted (consulted : Consulted middle rest) (coherent : rest.Coherent)
    (continues : solver.Continues middle) : solver.Stopped rest := by
  have idle : ∀ key clause, middle.clauses.Watched key clause → ¬middle.Pressing clause :=
    fun _ _ => consulted.atRest.not_pressing consulted.coherent
  refine ⟨fun key atom present unvalued valued => ?_, middle, continues, consulted.answer,
    consulted.trail, idle, fun key clause watched pressing => ?_⟩
  · have values : rest.values = middle.values := by
      funext variableKey
      show rest.vars.value? variableKey = middle.vars.value? variableKey
      rw [coherent.assignment.vars.values, consulted.coherent.assignment.vars.values,
        consulted.trail]
    rw [consulted.continues.theoryAtoms] at present
    rw [consulted.trail] at unvalued valued
    have listed := (mem_evaluable consulted.coherent).mpr ⟨unvalued, atom, present, valued⟩
    rw [values]
    exact consulted.atRest.unevaluated key listed atom present
  · refine lemma_of_fresh (adding_consultTheory.of_ok consulted.answer) watched fun former => ?_
    exact idle key clause former ((pressing_congr consulted.trail).mp pressing)

end Solver

/-- Whenever propagation stops in a solver that is reached, nothing is left to do but for
lemmas that hooks added in its last round. -/
theorem Reached.stopped {τ : Type} [TheoryAtom τ] {allowed : Solver τ → Operation τ → Prop}
    {configuration : Configuration} {solver rest : Solver τ} {fuel : Nat}
    (reached : Reached allowed configuration solver)
    (answered : Solver.propagate fuel solver = .ok none rest) : solver.Stopped rest := by
  have coherent := reached.coherent
  have alters := Solver.alters_propagate_last (Solver.heedful_free solver) coherent fuel
  obtain ⟨changes, stopped⟩ := alters.of_ok answered
  obtain ⟨middle, continues, consulted⟩ := stopped rfl
  exact .of_consulted consulted (changes.coherent coherent) continues

/-! ## Lemmas that come late -/

/-- An atom that rules out the second variable as soon as it lacks the first. -/
def lateAtom : ScriptedAtom where
  inputs := [0]
  connective := .undefined
  actions := [⟨none, .learn (Clause.ofList [⟨.var 1, false⟩]) false⟩,
    ⟨none, .learn (Clause.ofList [⟨.var 0, true⟩, ⟨.var 1, false⟩]) false⟩]
  name := "late"

def lateFormula : Solver ScriptedAtom :=
  (((Solver.new {}).withVariable "q" .boolean).withVariable "p" .boolean).withTheoryAtom lateAtom

theorem stated_lateFormula : Stated {} lateFormula := by
  refine .withTheoryAtom (.withVariable (.withVariable .new ?_ _) ?_ _) ?_
  all_goals decide +kernel

/-- The second variable is true when the atom is first asked. -/
def lateSolver : Solver ScriptedAtom :=
  left (Operation.perform (.decide (.var 1) (.boolean true))) lateFormula

theorem reached_lateSolver : Reached (fun _ _ => True) {} lateSolver := by
  have start : Reached (fun _ _ => True) {} lateFormula :=
    stated_lateFormula.reached fun _ _ _ => trivial
  have answered : answer? (Operation.perform (.decide (.var 1) (.boolean true))) lateFormula =
      some () := by
    decide +kernel
  exact start.answered (.decide (.var 1) (.boolean true)) trivial (ok_of_answer answered)

/-- The only value is of the sort of its variable. -/
theorem typed_lateSolver {atom : Atom} {entry : Entry}
    (found : lateSolver.trail.get? atom = some entry) : lateSolver.Admits atom entry.value := by
  have free : lateFormula.Free (.var 1) :=
    ⟨Solver.get?_untouched stated_lateFormula.ready.untouched _, by rintro _ ⟨⟩; decide +kernel⟩
  have decided : lateSolver = { lateFormula.chosen (.var 1) (.boolean true) with
      events := lateFormula.events.push (.decision (.var 1) (.boolean true)) } :=
    congrArg (fun result => match result with
      | .ok _ rest | .error _ rest => rest) (Solver.decide_of_free free (.boolean true))
  rw [decided] at found
  replace found := (Solver.get?_chosen lateFormula _ _ _).symm.trans found
  split at found
  · next same =>
      subst same
      cases found
      have sort : (lateSolver.vars.get? 1).map Variable.sort = some .boolean := by decide +kernel
      exact Option.map_eq_some_iff.mp sort
  · rw [Solver.get?_untouched stated_lateFormula.ready.untouched] at found
    cases found

theorem lateSolver_answer : ∃ rest, Solver.propagate 10 lateSolver = .ok none rest ∧
    rest.clauses.violated = [0] ∧ rest.clauses.units = [(1, ⟨.var 0, true⟩)] := by
  have answered : answer? (Solver.propagate 10) lateSolver = some none := by decide +kernel
  have violated : (left (Solver.propagate 10) lateSolver).clauses.violated = [0] := by
    decide +kernel
  have units : (left (Solver.propagate 10) lateSolver).clauses.units =
      [(1, ⟨.var 0, true⟩)] := by
    decide +kernel
  exact ⟨_, ok_of_answer answered, violated, units⟩

/-- Propagation stops although one lemma of the atom is violated and the other unit. -/
theorem lateSolver_pressed : Reached (fun _ _ => True) {} lateSolver ∧
    (∀ atom entry, lateSolver.trail.get? atom = some entry →
      lateSolver.Admits atom entry.value) ∧
    ∃ rest, Solver.propagate 10 lateSolver = .ok none rest ∧
      rest.clauses.violated = [0] ∧ rest.clauses.units = [(1, ⟨.var 0, true⟩)] :=
  ⟨reached_lateSolver, fun _ _ => typed_lateSolver, lateSolver_answer⟩

/-- Nothing but these lemmas is left to do. -/
theorem lateSolver_stopped : ∃ rest, Solver.propagate 10 lateSolver = .ok none rest ∧
    lateSolver.Stopped rest := by
  obtain ⟨rest, answered, _⟩ := lateSolver_answer
  exact ⟨rest, answered, reached_lateSolver.stopped answered⟩

end ModelSearch
