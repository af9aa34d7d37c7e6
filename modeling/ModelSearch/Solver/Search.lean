import ModelSearch.Solver.Backjump
import ModelSearch.Solver.Closure

/-!
# The search for a model

Each round of a search propagates.  If a clause is violated it is explained: the
empty explanation refutes the formula, any other is used to jump back and, with
learning, is watched from then on.  If no clause is violated a variable is
decided; once every variable has a value the assignment is a model, unless some
theory atom has a value that differs from its evaluation.

Rounds are counted, and the time allowed is checked once a round.  The limits on
the number of rounds and on the work of a round are explicit; reaching them is a
fault of its own.
-/

namespace ModelSearch.Solver

variable {τ : Type}

/-- The key under which an explanation is stored: that of the violated clause if
it explains itself, and otherwise that of a new clause. -/
def storeExplanation (conflict : ClauseKey) (explanation : Clause) : SolverM τ ClauseKey := do
  if (← clause conflict) = explanation then
    return conflict
  let key ← storeClause explanation .resolution
  emit (.derived key)
  return key

/-- With learning, watches a clause that is not watched yet. -/
def learn (key : ClauseKey) : SolverM τ Unit := do
  let solver ← get
  match solver.clauses.stored? key with
  | none => throw (.error .missingClause)
  | some stored =>
      if solver.configuration.learning && !stored.watched then
        watchClause key
        count fun counters => { counters with learnedClauses := counters.learnedClauses + 1 }
        emit (.learned key)

/-- Explains a violated clause and jumps back, or finds the formula refuted. -/
def resolveConflict (fuel : Nat) (conflict : ClauseKey) : SolverM τ (Option Report) := do
  count fun counters => { counters with conflicts := counters.conflicts + 1 }
  let explanation ← explain fuel conflict
  if explanation.isEmpty then
    modify fun solver => { solver with status := .unsatisfiable }
    return some .unsatisfiable
  let key ← storeExplanation conflict explanation
  let _ ← backjump key
  learn key
  return none

/-- Whether the time allowed is used up. -/
def isTimeUp (solver : Solver τ) : Bool :=
  match solver.configuration.timeLimit with
  | none => false
  | some seconds => 1000 * seconds ≤ solver.counters.time

variable [TheoryAtom τ]

/-- Decides a variable, or answers what a complete assignment shows. -/
def extendOrReport : SolverM τ (Option Report) := do
  match ← makeDecision with
  | some _ => return none
  | none =>
      if (inconsistentAtom? (← get)).isSome then
        return some .unknown
      modify fun solver => { solver with status := .satisfiable }
      return some .satisfiable

/-- One round of the search; there is an answer when the search is over.  The
time is what has been spent so far, in milliseconds. -/
def searchRound (fuel : Nat) (time : Nat) : SolverM τ (Option Report) := do
  count fun counters => { counters with iterations := counters.iterations + 1, time }
  if isTimeUp (← get) then
    return some .timeUp
  match ← propagate fuel with
  | some conflict => resolveConflict fuel conflict
  | none => extendOrReport

/-- Rounds of the search, on a clock that stands still. -/
def searchRounds (fuel : Nat) : Nat → SolverM τ Report
  | 0 => throw .outOfFuel
  | rounds + 1 => do
      match ← searchRound fuel (← get).counters.time with
      | some report => return report
      | none => searchRounds fuel rounds

/-- The report of a search that need not begin, as its result is known. -/
def settled? (solver : Solver τ) : Option Report :=
  match solver.status with
  | .satisfiable | .unsatisfiable => some solver.report
  | .input | .solving => none

/-- Closes the formula. -/
def beginSearch : SolverM τ Unit :=
  modify fun solver => { solver with status := .solving }

/-- The counts told at the end of a search, in order. -/
def statistics : List Statistic :=
  [.addedVariables, .inputClauses, .iterations, .decisions, .conflicts, .clausalPropagations,
    .semanticPropagations, .semanticEvaluations, .learnedClauses]

/-- Tells the counts and the report of a search that is over. -/
def endSearch (report : Report) : SolverM τ Unit := do
  let counters := (← get).counters
  let counts := statistics.map fun kind => Event.statistic kind (counters.get kind)
  let told := counts ++ [Event.elapsed counters.time, Event.reported report, Event.finished]
  modify fun solver => { solver with events := solver.events ++ told }

/-- Searches for a model.  Once the formula is settled the same report is given
again; after the time allowed was used up the search goes on. -/
def solve (fuel : Nat) : SolverM τ Report := do
  match settled? (← get) with
  | some report => return report
  | none =>
      beginSearch
      let report ← searchRounds fuel fuel
      endSearch report
      return report

end ModelSearch.Solver
