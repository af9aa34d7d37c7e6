import ModelSearch.Solver.Event
import ModelSearch.Theory.Hook

/-!
# Solvers

A solver is an assignment in the making: the formula, the theory atoms, the
configuration, counters, and the record of events.  Its operations are actions of
`SolverM`, which keep the solver also when they end in a fault.
-/

namespace ModelSearch

structure Configuration where
  /-- Whether derived clauses are watched, and so take part in propagation. -/
  learning : Bool := true
  /-- The time allowed, in seconds. -/
  timeLimit : Option Nat := none
  deriving Repr, DecidableEq

structure Counters where
  /-- Variables added. -/
  addedVariables : Nat := 0
  /-- Clauses added while the formula is open. -/
  inputClauses : Nat := 0
  /-- Derived clauses that were watched. -/
  learnedClauses : Nat := 0
  /-- Choices of the search itself. -/
  decisions : Nat := 0
  /-- Violated clauses met by a search. -/
  conflicts : Nat := 0
  /-- Literals propagated, also those that were true already. -/
  clausalPropagations : Nat := 0
  /-- Values implied by theory atoms. -/
  semanticPropagations : Nat := 0
  /-- Theory atoms evaluated. -/
  semanticEvaluations : Nat := 0
  /-- Rounds of a search. -/
  iterations : Nat := 0
  /-- Milliseconds spent searching. -/
  time : Nat := 0
  deriving Repr, DecidableEq

namespace Counters

/-- The count under each heading. -/
def get (counters : Counters) : Statistic → Nat
  | .addedVariables => counters.addedVariables
  | .inputClauses => counters.inputClauses
  | .iterations => counters.iterations
  | .decisions => counters.decisions
  | .conflicts => counters.conflicts
  | .clausalPropagations => counters.clausalPropagations
  | .semanticPropagations => counters.semanticPropagations
  | .semanticEvaluations => counters.semanticEvaluations
  | .learnedClauses => counters.learnedClauses

end Counters

/-- How far a solver has come. -/
inductive Status where
  /-- The formula is open. -/
  | input
  /-- A search has begun. -/
  | solving
  /-- The assignment is a model. -/
  | satisfiable
  /-- The empty clause was derived. -/
  | unsatisfiable
  deriving Repr, DecidableEq

/-- An assignment, with the theory atoms by key, the configuration, and what is
told of the work. -/
structure Solver (τ : Type) extends Assignment where
  configuration : Configuration := {}
  counters : Counters := {}
  theoryAtoms : Array τ := #[]
  status : Status := .input
  events : Array Event := #[]

/-- An action on a solver that may end in a fault. -/
abbrev SolverM (τ : Type) := EStateM Fault (Solver τ)

namespace Solver

variable {τ : Type}

instance : Inhabited (Solver τ) := ⟨{}⟩

/-- A solver without variables, theory atoms and clauses. -/
def new (configuration : Configuration) : Solver τ := { configuration }

/-- What is known of the formula. -/
def report (solver : Solver τ) : Report :=
  match solver.status with
  | .input | .solving => .unknown
  | .satisfiable => .satisfiable
  | .unsatisfiable => .unsatisfiable

/-- Values by variable. -/
def values (solver : Solver τ) : Valuation := solver.vars.value?

/-- The literals of a stored clause. -/
def clause (key : ClauseKey) : SolverM τ Clause := do
  match (← get).clauses.clause? key with
  | some clause => return clause
  | none => throw (.error .missingClause)

def emit (event : Event) : SolverM τ Unit :=
  modify fun solver => { solver with events := solver.events.push event }

def count (update : Counters → Counters) : SolverM τ Unit :=
  modify fun solver => { solver with counters := update solver.counters }

/-- Whether some literal of a stored clause is true. -/
def clauseSatisfied (key : ClauseKey) : SolverM τ Bool := do
  let clause ← clause key
  return (← get).satisfies clause

end Solver

end ModelSearch
