import ModelSearch.Proofs.Theory.Bounds

/-!
# The faults of a search

If hooks keep to careful rules, no search aborts, whatever its clock shows and however
far it gets.  Its only error is that an analysis found no literal to resolve on: no
clause and no variable is ever missing, and no literal under analysis lacks a value.
-/

namespace ModelSearch

/-- An analysis is stuck, or the fuel is spent. -/
def Fault.Stuck (fault : Fault) : Prop :=
  fault = .error .noResolutionCandidate ∨ fault = .outOfFuel

namespace Solver

variable {τ : Type} [TheoryAtom τ] {rules : Rules τ} {configuration : Configuration}
  {origin solver : Solver τ}

/-- The rounds of a search whose clock shows these times, until one reports. -/
def clockedRounds (fuel : Nat) : List Nat → SolverM τ (Option Report)
  | [] => return none
  | time :: times => do
      match ← searchRound fuel time with
      | some report => return some report
      | none => clockedRounds fuel times

private theorem runs_clockedRounds
    (obeying : ∀ solver : Solver τ, origin.Valid rules solver → solver.Obeys rules)
    (valid : origin.Valid rules solver) (fuel : Nat) (times : List Nat) :
    Runs rules true (clockedRounds fuel times) solver (fun _ _ => True)
      (fun fault _ => BrokenOff rules solver fuel fault) := by
  induction times generalizing solver with
  | nil => exact .pure trivial
  | cons time times induction =>
      unfold clockedRounds
      refine Runs.bind valid (runs_searchRound obeying valid fuel time)
        fun answer middle steps _ => ?_
      cases answer with
      | some report => exact .pure trivial
      | none =>
          refine (induction (Steps.valid steps valid)).mono (fun _ _ _ answered => answered) ?_
          exact fun _ _ _ broken => broken.before steps

private theorem BrokenOff.stuck {fuel : Nat} {fault : Fault}
    (broken : BrokenOff rules solver fuel fault) : fault.Stuck := by
  obtain ⟨_, _, ⟨error, _⟩ | ⟨spent, _⟩⟩ := broken
  · exact .inl error
  · exact .inr spent

/-- While hooks keep to careful rules a search does not abort, and its only error is
that an analysis is stuck. -/
theorem solve_never_aborts (careful : rules.Careful) (stated : Stated configuration solver)
    (keeps : ∀ reached, Steps rules true solver reached → reached.Obeys rules) (fuel : Nat) :
    Ends (solve fuel) solver (fun _ _ => True) (fun fault _ => fault.Stuck) ∧
      ∀ times, Ends (beginSearch >>= fun _ => clockedRounds fuel times) solver
        (fun _ _ => True) fun fault _ => fault.Stuck := by
  have ready := stated.ready
  have valid : solver.Valid rules solver := ready.valid
  have orderly : solver.Orderly rules := ⟨careful, ready.sorted⟩
  have obeying : ∀ state, solver.Valid rules state → state.Obeys rules :=
    fun state valid => keeps state valid.reached
  constructor
  · have runs := (runs_solve obeying valid ready.unsettled fuel).unbroken orderly
    refine runs.mono (fun _ _ _ => trivial) fun fault rest broken => ?_
    rcases broken with broken | ⟨spent, _⟩
    · exact broken.stuck
    · exact .inr spent
  · intro times
    have begun := told_status solver .solving
    have runs : Runs rules true (beginSearch >>= fun _ => clockedRounds fuel times) solver
        (fun _ _ => True) fun fault _ => fault.Stuck := by
      refine Runs.bind valid (Runs.modify begun.step) fun _ first steps _ => ?_
      exact (runs_clockedRounds obeying (Steps.valid steps valid) fuel times).mono
        (fun _ _ _ answered => answered) fun _ _ _ broken => broken.stuck
    exact runs.unbroken orderly

end Solver

namespace Bound

/-- As `x` is at first 0, the clauses lead to `x ≥ 10`; but then both others fail. -/
def stuckFormula : Solver Bound :=
  (((((Solver.new {}).withVariable "x" .rational).withTheoryAtom ⟨0, 10.0, false⟩).withTheoryAtom
    ⟨0, 1.0, true⟩).withTheoryAtom ⟨0, -5.0, true⟩ |>.withClause
      (Clause.ofList [⟨.theory 0, true⟩, ⟨.theory 2, true⟩])).withClause
        (Clause.ofList [⟨.theory 0, false⟩, ⟨.theory 1, true⟩, ⟨.theory 2, true⟩])

theorem stated_stuckFormula : Stated {} stuckFormula := by
  refine .withClause (.withClause (.withTheoryAtom (.withTheoryAtom (.withTheoryAtom
    (.withVariable .new ?_ _) ?_) ?_) ?_) ?_) ?_
  all_goals decide +kernel

theorem overRationals_stuckFormula : OverRationals stuckFormula :=
  overRationals_of_sorts (by decide +kernel)

/-- Its search ends in an error, and in no other fault however much fuel there is. -/
theorem stuckFormula_stuck :
    (∃ rest, Solver.solve 10 stuckFormula = .error (.error .noResolutionCandidate) rest) ∧
      ∀ fuel, Ends (Solver.solve fuel) stuckFormula (fun _ _ => True)
        fun fault _ => fault.Stuck := by
  have broken : fault? (Solver.solve 10) stuckFormula =
      some (.error .noResolutionCandidate) := by
    decide +kernel
  have ready := stated_stuckFormula.ready
  refine ⟨⟨_, error_of_fault broken⟩, fun fuel => ?_⟩
  refine (Solver.solve_never_aborts carefulRules_careful stated_stuckFormula ?_ fuel).1
  exact fun reached steps => obeys_carefulRules overRationals_stuckFormula
    (steps.continues ready.coherent (.untouched ready.untouched))

end Bound

end ModelSearch
