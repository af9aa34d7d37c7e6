import ModelSearch.Proofs.Operations.Requests

/-!
# What the counters say

Whenever users ask, the counters agree with what is stored and with what was told: variables and
clauses are counted as they are added, conflicts, learned clauses and evaluations by one event
each.

Only decisions differ, by the number of semantic splits.  A split makes its choice without counting
it, although the choice is told like any other.
-/

namespace ModelSearch

namespace Solver

variable {τ : Type} {solver before after : Solver τ}

/-- All but decisions are counted as they are stored and told. -/
def Tallied (solver : Solver τ) : Prop :=
  solver.account = ⟨solver.vars.size, solver.clauses.count .input, 0, 0, 0⟩

theorem Tallied.new (configuration : Configuration) :
    (Solver.new configuration : Solver τ).Tallied := rfl

/-- The same is stored, and counts and events have kept step. -/
theorem Tallied.carried {passive : Prop} (tallied : before.Tallied)
    (accounts : KeepsAccount passive before after) (size : after.vars.size = before.vars.size)
    (inputs : after.clauses.count .input = before.clauses.count .input) : after.Tallied := by
  unfold Tallied
  rw [accounts.account, size, inputs]
  exact tallied

end Solver

variable {τ : Type} [TheoryAtom τ] {solver before after : Solver τ}

namespace Addition

omit [TheoryAtom τ] in
/-- The clause is counted and then told, by an event that is compared with no count. -/
theorem keepsAccount_withClause (clause : Clause) :
    Solver.KeepsAccount True (Solver.counting (fun counters =>
      { counters with inputClauses := counters.inputClauses + 1 }) before)
      (before.withClause clause) :=
  .aside rfl rfl rfl rfl

omit [TheoryAtom τ] in
theorem keepsAccount_withLemma (clause : Clause) :
    Solver.KeepsAccount True before (before.withLemma clause) :=
  .aside rfl rfl rfl rfl

omit [TheoryAtom τ] in
theorem keepsAccount_notice {event : Event} (notice : event.notice?.isSome = true) :
    Solver.KeepsAccount True before (Solver.telling event before) := by
  refine .aside rfl rfl rfl ?_
  cases event with
  | expectedSize | sizeRead => rfl
  | _ => cases notice

theorem tallied (addition : Addition before after) (tallied : before.Tallied) : after.Tallied := by
  cases addition with
  | @withVariable name sort _ _ =>
      calc (before.withVariable name sort).account
          = { before.account with added := before.account.added + 1 } := rfl
        _ = ⟨before.vars.size + 1, before.clauses.count .input, 0, 0, 0⟩ := by rw [tallied]
        _ = ⟨(before.vars.push name sort).size, before.clauses.count .input, 0, 0, 0⟩ := by
          rw [VariableStore.size_push]
  | withTheoryAtom _ _ => exact tallied
  | @withClause clause _ _ =>
      calc (before.withClause clause).account
          = { before.account with inputs := before.account.inputs + 1 } :=
            (keepsAccount_withClause clause).account
        _ = ⟨before.vars.size, before.clauses.count .input + 1, 0, 0, 0⟩ := by rw [tallied]
        _ = ⟨before.vars.size, (before.clauses.add clause .input).2.count .input, 0, 0, 0⟩ := by
          rw [ClauseStore.count_add_input]
  | @withLemma clause _ =>
      have keeps : before.KeepsFormula (before.withLemma clause) :=
        .of_appended (by decide) rfl rfl (ClauseStore.origins_add _ clause .theory)
      exact tallied.carried (keepsAccount_withLemma clause) rfl keeps.count_input
  | notice notice => exact tallied.carried (keepsAccount_notice notice) rfl rfl

theorem balance (addition : Addition before after) : after.balance = before.balance := by
  cases addition with
  | withVariable _ _ => rfl
  | withTheoryAtom _ _ => rfl
  | withClause _ _ => exact (keepsAccount_withClause _).balance trivial
  | withLemma _ => exact (keepsAccount_withLemma _).balance trivial
  | notice notice => exact (keepsAccount_notice notice).balance trivial

/-- Theory atoms stay, so none of them decided before. -/
theorem passive (addition : Addition before after) (passive : after.Passive) : before.Passive := by
  cases addition with
  | withTheoryAtom _ _ => exact fun atom inside => passive atom (Array.mem_push_of_mem _ inside)
  | _ => exact passive

end Addition

namespace Served

variable {configuration : Configuration}

theorem tallied (served : Served configuration solver) : solver.Tallied := by
  refine served.induct (.new configuration) Addition.tallied fun coherent searched tallied => ?_
  have keeps := Changes.keepsFormula searched.changes coherent
  have size := (Changes.continues searched.changes coherent).size
  exact tallied.carried searched.accounts size keeps.count_input

/-- While nothing but the search decides, counts and splits make up for the decisions told. -/
theorem balanced (served : Served configuration solver) (passive : solver.Passive) :
    solver.balance = 0 := by
  refine @induct τ _ solver configuration (fun solver => solver.Passive → solver.balance = 0)
    (fun _ => rfl) ?_ ?_ served passive
  · exact fun addition balanced passive =>
      addition.balance.trans (balanced (addition.passive passive))
  · intro before after coherent searched balanced passive
    have former : before.Passive := Solver.passive_congr passive
      (Changes.continues searched.changes coherent).theoryAtoms.symm
    exact (searched.accounts.balance former).trans (balanced former)

/-- What is counted agrees with what is stored and told.  Decisions do if and only if no search
has made a semantic split, as long as nothing but the search decides. -/
theorem counts_agree (served : Served configuration solver) :
    solver.counters.addedVariables = solver.vars.size ∧
    solver.counters.inputClauses = solver.clauses.count .input ∧
    solver.counters.conflicts = solver.told Event.isAnalysis ∧
    solver.counters.learnedClauses = solver.told Event.isLearning ∧
    solver.counters.semanticEvaluations + solver.counters.semanticPropagations =
      solver.told Event.isSemantic ∧
    (solver.Passive →
      solver.counters.decisions + solver.splits = solver.told Event.isDecision ∧
      (solver.counters.decisions = solver.told Event.isDecision ↔ solver.splits = 0)) := by
  have tallied := served.tallied
  unfold Solver.Tallied Solver.account at tallied
  rw [Solver.Account.mk.injEq] at tallied
  obtain ⟨added, inputs, conflicts, learned, semantic⟩ := tallied
  refine ⟨added, inputs, by omega, by omega, by omega, fun passive => ?_⟩
  have balanced := served.balanced passive
  unfold Solver.balance at balanced
  rw [Solver.told_isSplit] at balanced
  omega

end Served

namespace Bound

theorem passive (solver : Solver Bound) : solver.Passive := by
  intro atom _ this unassigned assignment
  show (atom.response unassigned (assignment.trail.truth? this)).Passive
  cases assignment.trail.truth? this with
  | none => trivial
  | some truth => exact fun _ => trivial

/-- At first `x` is 0, so neither bound holds. -/
def raisedFormula : Solver Bound :=
  (((Solver.new {}).withVariable "x" .rational).withTheoryAtom ⟨0, 5.0, false⟩).withTheoryAtom
    ⟨0, 6.0, false⟩ |>.withClause (Clause.ofList [⟨.theory 0, true⟩, ⟨.theory 1, true⟩])

theorem stated_raisedFormula : Stated {} raisedFormula := by
  refine .withClause (.withTheoryAtom (.withTheoryAtom (.withVariable .new ?_ _) ?_) ?_) ?_
  all_goals decide +kernel

def raisedSolver : Solver Bound := left (Solver.solve 10) raisedFormula

theorem raisedFormula_answer :
    Solver.solve 10 raisedFormula = .ok .satisfiable raisedSolver := by
  have answered : answer? (Solver.solve 10) raisedFormula = some .satisfiable := by
    decide +kernel
  exact ok_of_answer answered

/-- Two decisions are told, and one of them is counted. -/
theorem raisedFormula_miscounted : Stated {} raisedFormula ∧ raisedFormula.Passive ∧
    Solver.solve 10 raisedFormula = .ok .satisfiable raisedSolver ∧
    raisedSolver.counters.decisions = 1 ∧ raisedSolver.told Event.isDecision = 2 :=
  ⟨stated_raisedFormula, passive _, raisedFormula_answer, by decide +kernel, by decide +kernel⟩

/-- The split makes up for the difference. -/
theorem raisedFormula_split : Served {} raisedSolver ∧ raisedSolver.Passive ∧
    raisedSolver.counters.conflicts = raisedSolver.told Event.isAnalysis ∧
    raisedSolver.splits ≠ 0 := by
  have served : Served {} raisedSolver :=
    stated_raisedFormula.served.answered (.solve 10) (discard_of_ok raisedFormula_answer)
  obtain ⟨-, -, conflicts, -, -, decisions⟩ := served.counts_agree
  refine ⟨served, passive _, conflicts, mt (decisions (passive _)).2.mpr ?_⟩
  decide +kernel

end Bound

end ModelSearch
