import ModelSearch.Dimacs.Document
import ModelSearch.Solver.Formula

/-!
# Loading a formula file

The variables of a document become Boolean variables named after their numbers:
those the header promises first, any other at its first occurrence.  Clauses are
added as they are completed, so what precedes a fault stays.
-/

namespace ModelSearch.Dimacs

/-- The atom of each number seen, the literals of the clause in progress, latest
first, and the number of clauses completed. -/
structure Loading where
  atoms : Std.TreeMap Nat Atom := ∅
  pending : List Literal := []
  clauses : Nat := 0

variable {τ : Type}

def variableName (number : Nat) : String := "var" ++ Nat.repr number

/-- Adds a variable for a number. -/
def declare (loading : Loading) (number : Nat) : SolverM τ (Atom × Loading) := do
  let key ← Solver.addVariable (variableName number) .boolean
  return (.var key, { loading with atoms := loading.atoms.insert number (.var key) })

/-- Adds variables for so many numbers in a row, up to the first that cannot be
added. -/
def declareFrom (loading : Loading) (first : Nat) : Nat → SolverM τ Loading
  | 0 => return loading
  | count + 1 => do
      let (_, loading) ← declare loading first
      declareFrom loading (first + 1) count

/-- Adds variables for all numbers from one on.  A count of more than 63 bits is
not taken at its word, and declares nothing. -/
def declareAll (loading : Loading) (count : Nat) : SolverM τ Loading :=
  declareFrom loading 1 (if count < Nat.pow 2 63 then count else 0)

/-- Takes in an integer: zero completes the clause, any other adds a literal. -/
def accept (loading : Loading) (number : Int) : SolverM τ Loading := do
  if number = 0 then
    let _ ← Solver.addClause (.ofList loading.pending.reverse)
    return { loading with pending := [], clauses := loading.clauses + 1 }
  let (atom, loading) ←
    match loading.atoms[number.natAbs]? with
    | some atom => pure (atom, loading)
    | none => declare loading number.natAbs
  return { loading with pending := ⟨atom, decide (0 < number)⟩ :: loading.pending }

/-- Adds the variables and clauses of a document to a solver.  The answer gives
the atom of each number. -/
def load (document : Document) : SolverM τ (Std.TreeMap Nat Atom) := do
  let declared ←
    match document.header with
    | none => pure {}
    | some header => do
        Solver.emit (.expectedSize header.variableCount header.clauseCount)
        declareAll {} header.variableCount
  let loading ← document.numbers.toList.foldlM accept declared
  match document.fault with
  | some error => throw (.error error)
  | none =>
      Solver.emit (.sizeRead (← get).vars.size loading.clauses)
      return loading.atoms

end ModelSearch.Dimacs
