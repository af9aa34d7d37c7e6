import ModelSearch.Decimal.Shortest

/-!
# Values and sorts

A variable ranges over the Booleans or over the rationals, the latter carried
as double-precision numbers.  The sort of a variable fixes how urgently it is
decided and the value a decision gives it.
-/

namespace ModelSearch

/-- What a variable ranges over. -/
inductive VariableSort where
  | boolean
  | rational
  deriving Repr, DecidableEq

/-- The value of an atom or of a variable. -/
inductive Value where
  | boolean (truth : Bool)
  | rational (number : Float)
  deriving Repr

namespace Value

/-- Equality of values; numbers compare as doubles do, so a value that is not a
number differs from itself. -/
protected def beq : Value → Value → Bool
  | .boolean left, .boolean right => left == right
  | .rational left, .rational right => left == right
  | _, _ => false

instance : BEq Value := ⟨Value.beq⟩

def truth? : Value → Option Bool
  | .boolean truth => some truth
  | .rational _ => none

def number? : Value → Option Float
  | .boolean _ => none
  | .rational number => some number

/-- The sort the value belongs to. -/
def sort : Value → VariableSort
  | .boolean _ => .boolean
  | .rational _ => .rational

def render : Value → String
  | .boolean truth => if truth then "true" else "false"
  | .rational number => Decimal.render number

end Value

namespace VariableSort

/-- Variables of greater priority are decided first. -/
def priority : VariableSort → Nat
  | .boolean => 1
  | .rational => 2

/-- The value a decision gives to a variable of the sort. -/
def defaultValue : VariableSort → Value
  | .boolean => .boolean false
  | .rational => .rational 0.0

theorem defaultValue_sort (kind : VariableSort) : kind.defaultValue.sort = kind := by
  cases kind <;> rfl

end VariableSort

end ModelSearch
