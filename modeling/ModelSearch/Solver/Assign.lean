import ModelSearch.Solver.Formula

/-!
# Giving values

Values are chosen, follow from a clause, or are implied by a theory atom.  Each
of these is recorded as an event.
-/

namespace ModelSearch.Solver

variable {τ : Type}

/-- Puts a new assignment in place of the present one, or aborts as its making did. -/
def reassign (updated : Except Abort Assignment) : SolverM τ Unit :=
  match updated with
  | .error abort => throw (.abort abort)
  | .ok assignment => modify fun solver => { solver with toAssignment := assignment }

/-- Gives an atom a value at an open level. -/
def setValue (atom : Atom) (value : Value) (reason : Reason) (level : Nat) : SolverM τ Unit := do
  reassign ((← get).toAssignment.assign atom value reason level)

/-- Opens a level with a choice for an atom without a value. -/
def decide (atom : Atom) (value : Value) : SolverM τ Unit := do
  if ((← get).trail.get? atom).isSome then
    throw (.abort (.decisionOnAssigned atom))
  modify fun solver => { solver with trail := solver.trail.openLevel }
  setValue atom value .decided (← get).trail.level
  emit (.decision atom value)

/-- Makes the literal of a unit clause true at the current level.  The answer is
whether the literal had no value; a clause whose literal is false is a conflict. -/
def propagateLiteral (key : ClauseKey) (literal : Literal) : SolverM τ (Except ClauseKey Bool) := do
  count fun counters => { counters with clausalPropagations := counters.clausalPropagations + 1 }
  let trail := (← get).trail
  match trail.literalTruth? literal with
  | some true => return .ok false
  | some false => return .error key
  | none =>
      setValue literal.atom (.boolean literal.polarity) (.clause key) trail.level
      emit (.clausal literal key)
      return .ok true

/-- Gives a variable an implied value at the current level, unless it has one.
The answer is whether the value was given. -/
def assignImplied (key : VariableKey) (value : Value) : SolverM τ Bool := do
  let trail := (← get).trail
  if (trail.get? (.var key)).isSome then
    return false
  setValue (.var key) value .semantic trail.level
  count fun counters => { counters with semanticPropagations := counters.semanticPropagations + 1 }
  emit (.semantic (.var key) value)
  return true

/-- Chooses the default value of its sort for the most urgent variable without a
value.  There is no answer if every variable has one. -/
def makeDecision : SolverM τ (Option (Atom × Value)) := do
  if !(← get).vars.canDecide then
    return none
  let (popped, vars) := (← get).vars.pop
  modify fun solver => { solver with vars }
  match popped with
  | none => return none
  | some key =>
      match vars.get? key with
      | none => throw (.error .unknownVariable)
      | some known =>
          count fun counters => { counters with decisions := counters.decisions + 1 }
          decide (.var key) known.sort.defaultValue
          return some (.var key, known.sort.defaultValue)

end ModelSearch.Solver
