import ModelSearch.Solver.Assign
import ModelSearch.Solver.Explain

/-!
# Jumping back

Jumping back with a clause removes levels and then makes the clause true.  If
one top literal leaves the trail before all others, the clause asserts it at the
greatest level of the others.  If the top literals were all evaluated, the search
goes back below their level and decides one of them.
-/

namespace ModelSearch

/-- The level to return to with a clause, and how the clause is used there. -/
def Trail.backjumpTarget (trail : Trail) (clause : Clause) : Except Fault (Nat × BackjumpKind) :=
  if clause.isEmpty then
    .error (.abort .emptyBackjump)
  else
    match trail.topLiterals clause with
    | .error error => .error (.error error)
    | .ok top =>
        if top.literals.length = 1 then
          let others := clause.literals.filter fun literal => !top.literals.contains literal
          let levels := others.filterMap fun literal => trail.level? literal.atom
          .ok (levels.foldl max 0, .uniqueImplication)
        else if trail.isBackjumpable top then
          .ok (top.level - 1, .semanticSplit)
        else
          .error (.abort (.notBackjumpable clause))

namespace Solver

variable {τ : Type}

/-- Removes every level above the given one. -/
def retreat (level : Nat) : SolverM τ Unit := do
  let solver ← get
  if level < solver.trail.level then
    reassign (solver.toAssignment.unassignAbove level)

/-- Returns to the level a stored clause asks for, and makes the clause true. -/
def backjump (key : ClauseKey) : SolverM τ BackjumpKind := do
  let clause ← clause key
  let trail := (← get).trail
  match trail.backjumpTarget clause with
  | .error fault => throw fault
  | .ok (target, kind) =>
      retreat target
      emit (.backjump trail.level target kind)
      let trail := (← get).trail
      let openLiterals := clause.literals.filter fun literal =>
        (trail.get? literal.atom).isNone
      match kind, openLiterals with
      | .uniqueImplication, [literal] =>
          match ← propagateLiteral key literal with
          | .error conflict => throw (.abort (.conflictOnAsserted conflict))
          | .ok _ => return kind
      | .uniqueImplication, _ => throw (.abort (.notAsserting clause))
      | .semanticSplit, literal :: _ =>
          decide literal.atom (.boolean literal.polarity)
          return kind
      | .semanticSplit, [] => throw (.abort (.notSplitting clause))

end Solver

end ModelSearch
