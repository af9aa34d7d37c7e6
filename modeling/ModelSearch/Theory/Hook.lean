import ModelSearch.Assignment

/-!
# Theory atoms and their hooks

A theory atom has a truth value that depends on the values of some variables.
Besides being evaluated it may take part in the search: when a single one of its
variables lacks a value, its hook is run.  A hook is a program of requests, so it
ends, and it changes the assignment only by the requests listed here.
-/

namespace ModelSearch

/-- What a theory atom asks of the search, step by step. -/
inductive Hook where
  /-- Nothing more is asked. -/
  | done
  /-- The clause is reported as violated. -/
  | conflict (key : ClauseKey)
  /-- The current assignment is read. -/
  | inspect (next : Assignment → Hook)
  /-- A variable gets an implied value, unless it has one; the answer says
  whether it was given. -/
  | assign (key : VariableKey) (value : Value) (next : Bool → Hook)
  /-- A new level is opened with a choice. -/
  | decide (atom : Atom) (value : Value) (next : Hook)
  /-- A clause of the theory is added; the answer is its key, unless it was
  refused. -/
  | learn (clause : Clause) (next : Except SolverError ClauseKey → Hook)

/-- Values by variable. -/
abbrev Valuation := VariableKey → Option Value

/-- What the search needs to know of a theory atom. -/
class TheoryAtom (τ : Type) where
  /-- The variables the truth of the atom depends on. -/
  support : τ → List VariableKey
  /-- The truth of the atom, if these values determine it. -/
  evaluate : τ → Valuation → Option Bool
  /-- The atom that is true when this one is false. -/
  negate : τ → τ
  render : τ → String
  /-- The requests made when one variable lacks a value; the atom is told under
  which key it was added. -/
  hook : τ → Atom → VariableKey → Hook := fun _ _ _ => .done

/-- A theory without atoms. -/
instance : TheoryAtom Empty where
  support := Empty.elim
  evaluate := Empty.elim
  negate := Empty.elim
  render := Empty.elim

end ModelSearch
