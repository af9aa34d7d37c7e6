import ModelSearch.Theory.Hook

/-!
# Bounds

A bound says that one rational variable is below a number, or else that it is
not.  Once it has a truth value, it gives the variable a value that agrees: the
number itself, or one less.
-/

namespace ModelSearch

/-- The variable is below the bound, or else it is not. -/
structure Bound where
  key : VariableKey
  bound : Float
  below : Bool

namespace Bound

def support (atom : Bound) : List VariableKey := [atom.key]

def evaluate (atom : Bound) (values : Valuation) : Option Bool :=
  ((values atom.key).bind Value.number?).map fun number =>
    if atom.below then decide (number < atom.bound) else decide (number ≥ atom.bound)

def negate (atom : Bound) : Bound := { atom with below := !atom.below }

def render (atom : Bound) : String :=
  "x" ++ Nat.repr atom.key ++ (if atom.below then " < " else " >= ") ++ Decimal.render atom.bound

/-- A number for which the bound holds as the truth says. -/
def pick (atom : Bound) (truth : Bool) : Float :=
  if atom.below = truth then atom.bound - 1.0 else atom.bound

/-- Picks a value once the bound has a truth value. -/
def response (atom : Bound) (unassigned : VariableKey) : Option Bool → Hook
  | none => .done
  | some truth => .assign unassigned (.rational (atom.pick truth)) fun _ => .done

def hook (atom : Bound) (this : Atom) (unassigned : VariableKey) : Hook :=
  .inspect fun assignment => atom.response unassigned (assignment.trail.truth? this)

instance : TheoryAtom Bound where
  support := support
  evaluate := evaluate
  negate := negate
  render := render
  hook := hook

end Bound

end ModelSearch
