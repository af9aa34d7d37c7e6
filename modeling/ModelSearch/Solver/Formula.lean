import ModelSearch.Solver.State

/-!
# Stating a formula

Variables, theory atoms and clauses are added while the formula is open; clauses
of the theory also later.  An addition that is refused changes nothing.
-/

namespace ModelSearch.Solver

variable {τ : Type}

/-- Refuses what may only be done while the formula is open. -/
def requireInput : SolverM τ Unit := do
  if (← get).status ≠ .input then
    throw (.error .solveStarted)

/-- Appends a variable under a name not used before. -/
def insertVariable (name : String) (sort : VariableSort) : SolverM τ VariableKey :=
  modifyGet fun solver =>
    (solver.vars.size, { solver with vars := solver.vars.push name sort })

/-- Adds a variable. -/
def addVariable (name : String) (sort : VariableSort) : SolverM τ VariableKey := do
  requireInput
  match (← get).vars.nameError? name with
  | some error => throw (.error error)
  | none =>
      let key ← insertVariable name sort
      count fun counters => { counters with addedVariables := counters.addedVariables + 1 }
      return key

/-- Adds a Boolean variable and answers with its positive literal. -/
def addBoolean (name : String) : SolverM τ Literal := do
  let key ← addVariable name .boolean
  return ⟨.var key, true⟩

/-- The theory atom with a key. -/
def theoryAtom (key : TheoryKey) : SolverM τ τ := do
  match (← get).theoryAtoms[key]? with
  | some atom => return atom
  | none => throw (.error .unknownAtom)

/-- Why a literal may not occur in a clause, if it may not. -/
def literalError? (solver : Solver τ) (literal : Literal) : Option SolverError :=
  match literal.atom with
  | .var key =>
      match solver.vars.get? key with
      | none => some .unknownVariable
      | some known => if known.sort = .boolean then none else some .nonBooleanLiteral
  | .theory key => if key < solver.theoryAtoms.size then none else some .unknownAtom

/-- Why a clause may not be added: the first reason among its literals. -/
def clauseError? (solver : Solver τ) (clause : Clause) : Option SolverError :=
  clause.literals.findSome? (literalError? solver)

/-- Stores and watches a clause. -/
def insertClause (clause : Clause) (source : ClauseSource) : SolverM τ ClauseKey :=
  modifyGet fun solver =>
    let (key, clauses) := solver.clauses.add clause source
    (key, { solver with clauses })

/-- Adds a clause of the formula. -/
def addClause (clause : Clause) : SolverM τ ClauseKey := do
  requireInput
  match clauseError? (← get) clause with
  | some error => throw (.error error)
  | none =>
      let key ← insertClause clause .input
      count fun counters => { counters with inputClauses := counters.inputClauses + 1 }
      emit (.inputAdded key)
      return key

/-- Adds a clause of the theory, which should hold in each of its models, or
answers why it may not be added. -/
def offerLemma (clause : Clause) : SolverM τ (Except SolverError ClauseKey) := do
  match clauseError? (← get) clause with
  | some error => return .error error
  | none =>
      let key ← insertClause clause .theory
      emit (.lemmaAdded key)
      return .ok key

/-- Adds a clause of the theory. -/
def addLemma (clause : Clause) : SolverM τ ClauseKey := do
  match ← offerLemma clause with
  | .ok key => return key
  | .error error => throw (.error error)

/-- Stores a clause that is neither checked nor watched. -/
def storeClause (clause : Clause) (source : ClauseSource) : SolverM τ ClauseKey :=
  modifyGet fun solver =>
    let (key, clauses) := solver.clauses.store clause source
    (key, { solver with clauses })

/-- Watches a stored clause. -/
def watchClause (key : ClauseKey) : SolverM τ Unit := do
  if key < (← get).clauses.size then
    modify fun solver => { solver with clauses := solver.clauses.watch key }
  else
    throw (.error .missingClause)

section Theory

variable [TheoryAtom τ]

/-- Adds a theory atom over known variables. -/
def addTheoryAtom (atom : τ) : SolverM τ Atom := do
  requireInput
  let solver ← get
  let keys := TheoryAtom.support atom
  if keys.all (· < solver.vars.size) then
    let key := solver.theoryAtoms.size
    modify fun solver =>
      { solver with
        vars := solver.vars.watch key keys
        theoryAtoms := solver.theoryAtoms.push atom }
    return .theory key
  else
    throw (.error .unknownVariable)

/-- Adds the negation of a theory atom as an atom of its own. -/
def addNegation (atom : Atom) : SolverM τ Atom := do
  match atom with
  | .var _ => throw (.error .unknownAtom)
  | .theory key =>
      let known ← theoryAtom key
      addTheoryAtom (TheoryAtom.negate known)

end Theory

end ModelSearch.Solver
