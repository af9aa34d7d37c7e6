import ModelSearch.Solver.State

/-!
# Explaining a conflict

A violated clause is resolved with the reasons of its literals, latest first,
until it can be used to jump back: until a single literal is left at its greatest
level, or all literals left there were evaluated.  A clause that depends on no
choice explains itself by the empty clause.
-/

namespace ModelSearch

/-- The greatest level of a clause, and its literals at that level. -/
structure TopLiterals where
  level : Nat
  literals : List Literal
  deriving Repr, DecidableEq

namespace Trail

/-- The top literals of a clause that is not empty and whose literals all have
values. -/
def topLiterals (trail : Trail) (clause : Clause) : Except SolverError TopLiterals :=
  match clause.literals.mapM fun literal => trail.level? literal.atom with
  | none => .error .unassignedLiteral
  | some [] => .error .emptyTop
  | some levels =>
      let level := levels.foldl max 0
      .ok ⟨level, clause.literals.filter fun literal => trail.level? literal.atom == some level⟩

/-- Whether every top literal was evaluated or implied by a theory atom. -/
def allSemantic (trail : Trail) (top : TopLiterals) : Bool :=
  top.literals.all fun literal => trail.reason? literal.atom == some .semantic

/-- Whether a clause with these top literals can be used to jump back. -/
def isBackjumpable (trail : Trail) (top : TopLiterals) : Bool :=
  0 < top.level && (top.literals.length == 1 || trail.allSemantic top)

/-- The literals of a clause whose values follow from a clause, with their
entries and reasons. -/
def implied (trail : Trail) (clause : Clause) : List (Literal × Entry × ClauseKey) :=
  clause.literals.filterMap fun literal =>
    match trail.get? literal.atom with
    | some entry =>
        match entry.reason with
        | .clause key => some (literal, entry, key)
        | _ => none
    | none => none

/-- The literal of greatest level and then position among those whose values
follow from a clause, with its reason. -/
def latestImplied? (trail : Trail) (clause : Clause) : Option (Literal × ClauseKey) :=
  let later (best : Option (Literal × Entry × ClauseKey))
      (candidate : Literal × Entry × ClauseKey) : Option (Literal × Entry × ClauseKey) :=
    match best with
    | none => some candidate
    | some former =>
        if former.2.1.level < candidate.2.1.level ∨
            (former.2.1.level = candidate.2.1.level ∧
              former.2.1.position ≤ candidate.2.1.position) then
          some candidate
        else some former
  ((trail.implied clause).foldl later none).map fun (literal, _, key) => (literal, key)

end Trail

namespace Solver

variable {τ : Type}

/-- Lifts an answer that may be an error. -/
def orError {α : Type} : Except SolverError α → SolverM τ α
  | .ok answer => return answer
  | .error error => throw (.error error)

/-- Resolves a clause until it is empty or can be used to jump back. -/
def resolveToBackjump : Nat → Clause → SolverM τ Clause
  | 0, _ => throw .outOfFuel
  | steps + 1, current => do
      if current.isEmpty then
        return current
      let trail := (← get).trail
      let top ← orError (trail.topLiterals current)
      if trail.isBackjumpable top then
        return current
      match trail.latestImplied? current with
      | some (literal, reason) =>
          let cause ← clause reason
          emit (.resolvedWith reason)
          resolveToBackjump steps (current.resolve cause literal)
      | none =>
          if top.level = 0 then
            return ∅
          else
            throw (.error .noResolutionCandidate)

/-- Explains a violated clause. -/
def explain (fuel : Nat) (key : ClauseKey) : SolverM τ Clause := do
  emit (.analysisBegun key)
  let conflict ← clause key
  let explanation ← resolveToBackjump fuel conflict
  emit .analysisEnded
  return explanation

end Solver

end ModelSearch
