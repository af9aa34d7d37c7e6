import ModelSearch.Proofs.Operations.Basic
import ModelSearch.Proofs.Theory.Contract

/-!
# The stores mirror the trail

The values of the variables, the queue of decisions and the marks of both watch
engines are kept apart from the trail, and are brought in line with it whenever a
value is given or taken.  In every solver that is reached they say what the trail
says, so what is read off them is exactly what is to be done.
-/

namespace ModelSearch

namespace Solver

variable {τ : Type} [TheoryAtom τ] {solver : Solver τ}

/-- The stores say what the trail says, and the lists that are read off them are
exact and without repetitions. -/
structure Mirrored (solver : Solver τ) : Prop where
  values : ∀ key, solver.vars.value? key = solver.trail.value? (.var key)
  queued : ∀ key, solver.vars.queue.contains key = true ↔
    key < solver.vars.size ∧ solver.trail.value? (.var key) = none
  canDecide : solver.vars.canDecide = true ↔
    ∃ key < solver.vars.size, solver.trail.value? (.var key) = none
  literalMarks : ∀ literal, (solver.clauses.watches.mark literal).weight =
    match solver.trail.truth? literal.atom with
    | none => 1
    | some truth => if truth = literal.polarity then 2 else 0
  variableMarks : ∀ key, (solver.vars.watches.mark key).weight =
    if (solver.trail.value? (.var key)).isSome then 0 else 1
  units : solver.clauses.units.Nodup ∧ ∀ key literal, (key, literal) ∈ solver.clauses.units ↔
    ∃ clause, solver.clauses.Watched key clause ∧ literal ∈ clause ∧
      solver.trail.truth? literal.atom = none ∧
      ∀ other ∈ clause, other ≠ literal → solver.Falsifies other
  violated : solver.clauses.violated.Nodup ∧ ∀ key, key ∈ solver.clauses.violated ↔
    ∃ clause, solver.clauses.Watched key clause ∧ ∀ literal ∈ clause, solver.Falsifies literal
  semanticUnits : solver.vars.semanticUnits.Nodup ∧ ∀ owner unassigned,
    (owner, unassigned) ∈ solver.vars.semanticUnits ↔
      ∃ atom, solver.theoryAtoms[owner]? = some atom ∧ unassigned ∈ TheoryAtom.support atom ∧
        solver.trail.value? (.var unassigned) = none ∧
        ∀ key ∈ TheoryAtom.support atom, key ≠ unassigned →
          (solver.trail.value? (.var key)).isSome = true
  fullyAssigned : solver.vars.fullyAssigned.Nodup ∧ ∀ owner,
    owner ∈ solver.vars.fullyAssigned ↔ ∃ atom, solver.theoryAtoms[owner]? = some atom ∧
      ∀ key ∈ TheoryAtom.support atom, (solver.trail.value? (.var key)).isSome = true

theorem literalTruth?_eq_none {trail : Trail} {literal : Literal} :
    trail.literalTruth? literal = none ↔ trail.truth? literal.atom = none := by
  unfold Trail.literalTruth?
  exact Option.map_eq_none_iff

/-- The weight of a mark is two for a true literal, none for a false one, and one
for a literal without a truth value. -/
theorem weight_ofTruth (trail : Trail) (literal : Literal) :
    (Mark.ofTruth (trail.literalTruth? literal)).weight =
      match trail.truth? literal.atom with
      | none => 1
      | some truth => if truth = literal.polarity then 2 else 0 := by
  unfold Trail.literalTruth?
  cases trail.truth? literal.atom with
  | none => rfl
  | some truth => cases truth <;> cases literal.polarity <;> rfl

theorem Coherent.watching (coherent : solver.Coherent) {owner : TheoryKey}
    {what : List VariableKey → Prop} :
    (∃ keys, solver.vars.watches.Watching owner keys ∧ what keys) ↔
      ∃ atom, solver.theoryAtoms[owner]? = some atom ∧
        what (canonical (TheoryAtom.support atom)) := by
  constructor
  · intro some
    obtain ⟨keys, watching, holds⟩ := some
    obtain ⟨atom, present, same⟩ := (coherent.supports owner keys).mp watching
    exact ⟨atom, present, same ▸ holds⟩
  · intro some
    obtain ⟨atom, present, holds⟩ := some
    exact ⟨_, (coherent.supports owner _).mpr ⟨atom, present, rfl⟩, holds⟩

theorem Coherent.mirrors (coherent : solver.Coherent) : solver.Mirrored := by
  have vars := coherent.assignment.vars
  have clauses := coherent.assignment.clauses
  refine ⟨vars.values, vars.queued, vars.canDecide_iff, ?_, ?_,
    ⟨clauses.units_nodup, ?_⟩, ⟨clauses.violated_nodup, ?_⟩,
    ⟨coherent.semanticUnits_nodup, ?_⟩, ⟨coherent.fullyAssigned_nodup, ?_⟩⟩
  · intro literal
    rw [clauses.marks, ← Trail.literalTruth?_eq]
    exact weight_ofTruth solver.trail literal
  · intro key
    rw [vars.marks]
    split <;> rfl
  · intro key literal
    rw [clauses.mem_units]
    constructor
    · intro some
      obtain ⟨clause, unit⟩ := some
      exact ⟨clause, unit.watched, unit.member, literalTruth?_eq_none.mp unit.undetermined,
        fun other member different =>
          Assignment.falsifies_iff.mpr (unit.others other member different)⟩
    · intro some
      obtain ⟨clause, watched, member, undetermined, others⟩ := some
      exact ⟨clause, watched, member, literalTruth?_eq_none.mpr undetermined,
        fun other inside different =>
          Assignment.falsifies_iff.mp (others other inside different)⟩
  · intro key
    rw [clauses.mem_violated]
    simp only [Assignment.falsifies_iff, Trail.literalTruth?_eq]
  · intro owner unassigned
    rw [vars.mem_semanticUnits, coherent.watching]
    simp only [mem_canonical]
  · intro owner
    rw [vars.mem_fullyAssigned, coherent.watching]
    simp only [mem_canonical]

end Solver

/-- Every solver that is reached, in whatever order its operations came, mirrors its
trail. -/
theorem Reached.mirrored {τ : Type} [TheoryAtom τ] {allowed : Solver τ → Operation τ → Prop}
    {configuration : Configuration} {solver : Solver τ}
    (reached : Reached allowed configuration solver) : solver.Mirrored :=
  reached.coherent.mirrors

/-- The copy is true, the variable is completed, and a clause is violated. -/
theorem copyFormula_mirrored : ∃ rest, Reached (fun _ _ => True) {} rest ∧
    Operation.perform (.propagate 10) copyFormula = .ok () rest ∧ rest.Mirrored ∧
      rest.clauses.violated = [2] := by
  have start : Reached (fun _ _ => True) {} copyFormula :=
    stated_copyFormula.reached fun _ _ _ => trivial
  have answered : answer? (Operation.perform (.propagate 10)) copyFormula = some () := by
    decide +kernel
  have violated : (left (Operation.perform (.propagate 10)) copyFormula).clauses.violated =
      [2] := by
    decide +kernel
  have closed := ok_of_answer answered
  have reached := start.answered (.propagate 10) trivial closed
  exact ⟨_, reached, closed, reached.mirrored, violated⟩

end ModelSearch
