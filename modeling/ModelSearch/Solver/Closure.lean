import ModelSearch.Solver.Assign

/-!
# Closing an assignment under its consequences

A round evaluates the theory atoms whose variables all have values, then sets the
literals of the unit clauses, and only if that gave no value runs the hooks of
the theory atoms that lack one value.  Rounds go on as long as the trail grows.
Propagation stops at the first clause found violated, and answers with its key.
-/

namespace ModelSearch.Solver

variable {τ : Type}

/-- Sets the literals of clauses that were found unit, in order. -/
def propagateUnits : List (ClauseKey × Literal) → SolverM τ (Option ClauseKey)
  | [] => return none
  | (key, literal) :: units => do
      match ← propagateLiteral key literal with
      | .error conflict => return some conflict
      | .ok _ => propagateUnits units

/-- Answers with the first violated clause, if there is one, and otherwise sets
the literal of each clause that is unit now. -/
def propagateClauses : SolverM τ (Option ClauseKey) := do
  let clauses := (← get).clauses
  match clauses.violated.head? with
  | some conflict => return some conflict
  | none => propagateUnits clauses.units

/-- Runs the requests of a hook. -/
def runHook : Hook → SolverM τ (Option ClauseKey)
  | .done => return none
  | .conflict key => return some key
  | .inspect next => do
      let solver ← get
      runHook (next solver.toAssignment)
  | .assign key value next => do
      let given ← assignImplied key value
      runHook (next given)
  | .decide atom value next => do
      decide atom value
      runHook next
  | .learn clause next => do
      let answer ← offerLemma clause
      runHook (next answer)

variable [TheoryAtom τ]

/-- The greatest level of some variables, zero if none has a value. -/
def greatestLevel (trail : Trail) (keys : List VariableKey) : Nat :=
  (keys.filterMap fun key => trail.level? (.var key)).foldl max 0

/-- Gives a theory atom the value it evaluates to, at the greatest level of its
variables. -/
def evaluateAtom (key : TheoryKey) : SolverM τ Unit := do
  let solver ← get
  match solver.theoryAtoms[key]? with
  | none => return
  | some atom =>
      match TheoryAtom.evaluate atom solver.values with
      | none => return
      | some truth =>
          let level := greatestLevel solver.trail (TheoryAtom.support atom)
          setValue (.theory key) (.boolean truth) .semantic level
          count fun counters =>
            { counters with semanticEvaluations := counters.semanticEvaluations + 1 }
          emit (.semantic (.theory key) (.boolean truth))

/-- Evaluates theory atoms in order. -/
def evaluateAtoms : List TheoryKey → SolverM τ Unit
  | [] => return
  | key :: keys => do
      evaluateAtom key
      evaluateAtoms keys

/-- Evaluates each theory atom that has no value while all its variables have
one. -/
def evaluateTheory : SolverM τ Unit := do
  let solver ← get
  evaluateAtoms (solver.vars.fullyAssigned.filter fun key =>
    (solver.trail.get? (.theory key)).isNone)

/-- Runs the hooks of theory atoms that were found to lack one value, skipping
those whose variable was given a value in the meantime. -/
def consultAtoms : List (TheoryKey × VariableKey) → SolverM τ (Option ClauseKey)
  | [] => return none
  | (key, unassigned) :: units => do
      let solver ← get
      match solver.trail.get? (.var unassigned), solver.theoryAtoms[key]? with
      | none, some atom =>
          emit (.consulted (.theory key) unassigned)
          match ← runHook (TheoryAtom.hook atom (.theory key) unassigned) with
          | some conflict => return some conflict
          | none => consultAtoms units
      | _, _ => consultAtoms units

/-- Runs the hook of each theory atom that lacks the value of one variable. -/
def consultTheory : SolverM τ (Option ClauseKey) := do
  consultAtoms (← get).vars.semanticUnits

/-- The number of assignments on the trail. -/
@[noinline] def countAssignments : SolverM τ Nat := do
  return (← get).trail.size

/-- Runs rounds until one gives no value or finds a violated clause. -/
def propagate : Nat → SolverM τ (Option ClauseKey)
  | 0 => throw .outOfFuel
  | rounds + 1 => do
      let before ← countAssignments
      evaluateTheory
      match ← propagateClauses with
      | some conflict => return some conflict
      | none =>
          if before < (← countAssignments) then
            propagate rounds
          else
            match ← consultTheory with
            | some conflict => return some conflict
            | none =>
                if (← countAssignments) = before then
                  return none
                else
                  propagate rounds

/-- The first theory atom whose value differs from its evaluation. -/
def inconsistentAtom? (solver : Solver τ) : Option TheoryKey :=
  (List.range solver.theoryAtoms.size).find? fun key =>
    match solver.trail.truth? (.theory key), solver.theoryAtoms[key]? with
    | some truth, some atom =>
        match TheoryAtom.evaluate atom solver.values with
        | some evaluation => evaluation != truth
        | none => false
    | _, _ => false

end ModelSearch.Solver
