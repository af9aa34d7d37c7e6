import ModelSearch.Trail.Basic

/-!
# Events

A solver keeps a record of what it did, as a list of events in order.  From the
record the trail can be replayed and each derived clause checked.
-/

namespace ModelSearch

/-- What a search found out. -/
inductive Report where
  | satisfiable
  | unsatisfiable
  /-- The time allowed is used up. -/
  | timeUp
  | unknown
  deriving Repr, DecidableEq

def Report.render : Report → String
  | .satisfiable => "SATISFIABLE"
  | .unsatisfiable => "UNSATISFIABLE"
  | .timeUp | .unknown => "UNKNOWN"

/-- How a clause is used after a backjump. -/
inductive BackjumpKind where
  /-- A single literal is left open, and is asserted. -/
  | uniqueImplication
  /-- Several evaluated literals are left open, and one is decided. -/
  | semanticSplit
  deriving Repr, DecidableEq

/-- What is counted. -/
inductive Statistic where
  | addedVariables
  | inputClauses
  | iterations
  | decisions
  | conflicts
  | clausalPropagations
  | semanticPropagations
  | semanticEvaluations
  | learnedClauses
  deriving Repr, DecidableEq

inductive Event where
  /-- A level was opened with a choice. -/
  | decision (atom : Atom) (value : Value)
  /-- The clause was unit, and its literal was made true. -/
  | clausal (literal : Literal) (key : ClauseKey)
  /-- A theory atom was evaluated, or implied the value of a variable. -/
  | semantic (atom : Atom) (value : Value)
  /-- Every level above `target` was removed. -/
  | backjump (origin target : Nat) (kind : BackjumpKind)
  /-- The analysis of a violated clause began. -/
  | analysisBegun (key : ClauseKey)
  /-- The clause under analysis was resolved with this one. -/
  | resolvedWith (key : ClauseKey)
  | analysisEnded
  | inputAdded (key : ClauseKey)
  /-- A clause derived from a conflict was stored. -/
  | derived (key : ClauseKey)
  /-- A derived clause is watched from now on. -/
  | learned (key : ClauseKey)
  /-- A clause of the theory was added. -/
  | lemmaAdded (key : ClauseKey)
  /-- A theory atom was asked to take part, as it lacks one value. -/
  | consulted (atom : Atom) (unassigned : VariableKey)
  /-- The header of a formula file promises so many variables and clauses. -/
  | expectedSize (variableCount clauseCount : Nat)
  /-- So many variables are known and so many clauses were read. -/
  | sizeRead (variableCount clauseCount : Nat)
  | statistic (kind : Statistic) (count : Nat)
  /-- The milliseconds spent. -/
  | elapsed (time : Nat)
  | reported (report : Report)
  | finished
  deriving Repr

/-- A line for people about an event of reading, if the event is one. -/
def Event.notice? : Event → Option String
  | .expectedSize variableCount clauseCount =>
      some ("Expected:     " ++ Nat.repr variableCount ++ " variables and " ++
        Nat.repr clauseCount ++ " clauses")
  | .sizeRead variableCount clauseCount =>
      some ("Parse result: " ++ Nat.repr variableCount ++ " variables and " ++
        Nat.repr clauseCount ++ " clauses")
  | _ => none

end ModelSearch
