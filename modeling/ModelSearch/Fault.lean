import ModelSearch.Syntax.Clause

/-!
# Faults

An operation can end in three ways besides an answer.  An error reports misuse
or malformed input and leaves the solver usable.  An abort reports that a rule
every caller must keep was broken, after which nothing more is promised.
Running out of fuel says nothing about the formula.

A violated clause is none of these: a search expects conflicts, and the
operations that meet one answer with its key.
-/

namespace ModelSearch

/-- Causes of an error. -/
inductive SolverError where
  /-- No literal of the clause under analysis has a clause as its reason. -/
  | noResolutionCandidate
  /-- The greatest level of the empty clause was asked for. -/
  | emptyTop
  /-- A literal of the clause has no value. -/
  | unassignedLiteral
  /-- A literal over a variable that is not Boolean. -/
  | nonBooleanLiteral
  /-- No theory atom has the key. -/
  | unknownAtom
  /-- The formula is closed, as a search has begun. -/
  | solveStarted
  /-- No clause is stored under the key. -/
  | missingClause
  /-- The name belongs to another variable. -/
  | duplicateVariable (name : String)
  /-- No variable has the key. -/
  | unknownVariable
  /-- The header of a formula file is malformed. -/
  | problemSpecification
  /-- A line is not text; the number counts the lines read before it. -/
  | unreadableLine (linesBefore : Nat)
  /-- A token of the line is not a literal. -/
  | badLiteral (line : Nat)
  deriving Repr, DecidableEq

namespace SolverError

/-- The part of the solver that reports the error. -/
def area : SolverError → String
  | .noResolutionCandidate | .emptyTop | .unassignedLiteral => "Analysis"
  | .nonBooleanLiteral | .unknownAtom | .solveStarted => "Build"
  | .missingClause => "ClauseDB"
  | .duplicateVariable _ | .unknownVariable => "VariableDB"
  | .problemSpecification | .unreadableLine _ | .badLiteral _ => "Parse"

/-- The name of the cause within its area. -/
def cause : SolverError → String
  | .noResolutionCandidate => "NoResolutionCandidate"
  | .emptyTop => "EmptyTop"
  | .unassignedLiteral => "UnassignedLiteral"
  | .nonBooleanLiteral => "NonBooleanLiteral"
  | .unknownAtom => "UnknownAtom"
  | .solveStarted => "SolveStarted"
  | .missingClause => "Missing"
  | .duplicateVariable _ => "DuplicateVariable"
  | .unknownVariable => "UnknownVariable"
  | .problemSpecification => "ProblemSpecification"
  | .unreadableLine _ => "Line"
  | .badLiteral _ => "Literal"

/-- The name or number that belongs to the cause. -/
def detail? : SolverError → Option String
  | .duplicateVariable name => some name
  | .unreadableLine linesBefore => some (Nat.repr linesBefore)
  | .badLiteral line => some (Nat.repr line)
  | _ => none

end SolverError

/-- Broken rules of use. -/
inductive Abort where
  /-- An assignment at a level that is not open. -/
  | levelNotOpen (atom : Atom) (level current : Nat)
  /-- An assignment to an atom that has a value. -/
  | alreadyAssigned (atom : Atom)
  /-- A decision on an atom that has a value. -/
  | decisionOnAssigned (atom : Atom)
  /-- A value for a variable that does not exist. -/
  | noSuchVariable
  /-- A backjump with the empty clause. -/
  | emptyBackjump
  /-- A backjump with a clause that neither asserts nor splits. -/
  | notBackjumpable (clause : Clause)
  /-- A backjump that left none or several literals of the clause open. -/
  | notAsserting (clause : Clause)
  /-- A backjump that left the literal to assert false. -/
  | conflictOnAsserted (conflict : ClauseKey)
  /-- A split that left no literal of the clause open. -/
  | notSplitting (clause : Clause)
  deriving Repr, DecidableEq

def Abort.message : Abort → String
  | .levelNotOpen atom level current =>
      "! Assignment to " ++ atom.render ++ " at level " ++ Nat.repr level ++
        ", above the current level " ++ Nat.repr current
  | .alreadyAssigned atom =>
      "! Assignment to " ++ atom.render ++ ", which already has a value"
  | .decisionOnAssigned atom =>
      "! Decision on " ++ atom.render ++ ", which already has a value"
  | .noSuchVariable => "index out of bounds"
  | .emptyBackjump => "! Attempted search for a backtrack level on an empty clause"
  | .notBackjumpable clause =>
      "! Backtrack with " ++ clause.render ++ ", which is neither a UIP nor a semantic split"
  | .notAsserting clause =>
      "! Backtrack with " ++ clause.render ++ " did not leave a single literal without a value"
  | .conflictOnAsserted conflict =>
      "! Conflict Conflict(ClauseKey(" ++ Nat.repr (conflict + 1) ++
        "v1)) on an asserted literal without a value"
  | .notSplitting clause =>
      "! Semantic split with " ++ clause.render ++ " left no literal without a value"

/-- Why an operation gave no answer. -/
inductive Fault where
  | error (error : SolverError)
  | abort (abort : Abort)
  | outOfFuel
  deriving Repr, DecidableEq

end ModelSearch
