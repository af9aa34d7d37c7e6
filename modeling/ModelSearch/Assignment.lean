import ModelSearch.Store.Clauses
import ModelSearch.Store.Variables
import ModelSearch.Trail.Basic

/-!
# Assignments

An assignment is a trail together with the two stores that follow it.  Every
value given or taken passes through `assign` or `unassignAbove`, which keep the
three in step: a variable has the value of its entry in the variable store, and
the literals of an atom are marked by its Boolean value in the clause store.
-/

namespace ModelSearch

/-- A trail, and the variables and clauses whose values and marks follow it. -/
structure Assignment where
  trail : Trail := ∅
  vars : VariableStore := ∅
  clauses : ClauseStore := ∅

namespace Assignment

instance : EmptyCollection Assignment := ⟨{}⟩

instance : Inhabited Assignment := ⟨∅⟩

/-- Gives an atom without a value one, at an open level. -/
def assign (assignment : Assignment) (atom : Atom) (value : Value) (reason : Reason)
    (level : Nat) : Except Abort Assignment := do
  let trail ← assignment.trail.record atom value reason level
  let vars ←
    match atom with
    | .var key => assignment.vars.assign key value
    | .theory _ => pure assignment.vars
  let clauses :=
    match value with
    | .boolean truth => assignment.clauses.assign atom truth
    | .rational _ => assignment.clauses
  return { trail, vars, clauses }

/-- Lets the stores follow the removal of an entry from the trail. -/
def unassign (assignment : Assignment) (removed : Atom × Entry) : Except Abort Assignment := do
  let vars ←
    match removed.1 with
    | .var key => assignment.vars.unassign key
    | .theory _ => pure assignment.vars
  let clauses :=
    match removed.2.value with
    | .boolean _ => assignment.clauses.unassign removed.1
    | .rational _ => assignment.clauses
  return { assignment with vars, clauses }

/-- Takes every value given above a level.  The trail is cut first. -/
def unassignAbove (assignment : Assignment) (level : Nat) : Except Abort Assignment :=
  let (removed, trail) := assignment.trail.clearAbove level
  removed.foldlM unassign { assignment with trail }

/-- Whether some literal of the clause is true. -/
def satisfies (assignment : Assignment) (clause : Clause) : Bool :=
  clause.literals.any fun literal => assignment.trail.literalTruth? literal == some true

/-- The names of the variables with their values, in the order of addition. -/
def valuation (assignment : Assignment) : List (String × Option Value) :=
  assignment.vars.table.toList.map fun known => (known.name, known.value)

end Assignment

end ModelSearch
