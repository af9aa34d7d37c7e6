import ModelSearch.Theory.Hook

/-!
# Linear constraints

A linear constraint compares a weighted sum of rational variables with a bound.
Sums are taken in double precision, from zero and in the order of the terms.
A constraint that takes part in the search solves itself for the variable
without a value.
-/

namespace ModelSearch

/-- The sum of the terms is below the bound, or else it is not. -/
structure LinearConstraint where
  terms : List (Float × VariableKey)
  bound : Float
  below : Bool
  hooked : Bool
  name : String

namespace LinearConstraint

def support (constraint : LinearConstraint) : List VariableKey := constraint.terms.map Prod.snd

/-- The weighted sum, if each variable has a rational value. -/
def sum? (values : Valuation) (terms : List (Float × VariableKey)) : Option Float :=
  terms.foldlM
    (fun sum term => ((values term.2).bind Value.number?).map fun number => sum + term.1 * number)
    0.0

def evaluate (constraint : LinearConstraint) (values : Valuation) : Option Bool :=
  (sum? values constraint.terms).map fun sum =>
    if constraint.below then decide (sum < constraint.bound) else decide (constraint.bound ≤ sum)

def negate (constraint : LinearConstraint) : LinearConstraint :=
  { constraint with below := !constraint.below, name := "!" ++ constraint.name }

/-- The weight of a variable, and what is left of a target without the terms of
the other variables. -/
def isolate (values : Valuation) (unassigned : VariableKey) (target : Float)
    (terms : List (Float × VariableKey)) : Option (Float × Float) :=
  terms.foldlM
    (fun (weight, target) (coefficient, key) =>
      if key = unassigned then
        some (weight + coefficient, target)
      else
        ((values key).bind Value.number?).map fun number => (weight, target - coefficient * number))
    (0.0, target)

/-- The value that lets the constraint hold as the truth says: one below the
bound, or the bound itself. -/
def solution? (constraint : LinearConstraint) (truth : Bool) (values : Valuation)
    (unassigned : VariableKey) : Option Float :=
  let target := if constraint.below = truth then constraint.bound - 1.0 else constraint.bound
  (isolate values unassigned target constraint.terms).bind fun (weight, rest) =>
    if weight != 0.0 then some (rest / weight) else none

/-- Solves for the variable without a value, once the constraint has a truth
value. -/
def hook (constraint : LinearConstraint) (this : Atom) (unassigned : VariableKey) : Hook :=
  if constraint.hooked then
    .inspect fun assignment =>
      match assignment.trail.truth? this with
      | none => .done
      | some truth =>
          match constraint.solution? truth assignment.vars.value? unassigned with
          | none => .done
          | some number => .assign unassigned (.rational number) fun _ => .done
  else .done

instance : TheoryAtom LinearConstraint where
  support := support
  evaluate := evaluate
  negate := negate
  render := name
  hook := hook

end LinearConstraint

end ModelSearch
