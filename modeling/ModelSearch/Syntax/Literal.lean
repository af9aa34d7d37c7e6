/-!
# Atoms and literals

An atom is a variable or a theory atom, known by its key.  A literal pairs an
atom with a polarity.  Literals are ordered by atom and then by polarity,
negative first, so a literal and its negation are neighbours.
-/

namespace ModelSearch

/-- A variable, counted from zero in the order of addition. -/
abbrev VariableKey := Nat

/-- A theory atom, counted from zero in the order of addition. -/
abbrev TheoryKey := Nat

/-- A stored clause, counted from zero in the order of storage. -/
abbrev ClauseKey := Nat

/-- A primitive proposition, or a variable of another sort that shares the trail
with the propositions. -/
inductive Atom where
  | var (key : VariableKey)
  | theory (key : TheoryKey)
  deriving Repr, DecidableEq

namespace Atom

/-- Variables come before theory atoms, and keys decide within a kind. -/
protected def compare : Atom → Atom → Ordering
  | .var left, .var right => Ord.compare left right
  | .var _, .theory _ => .lt
  | .theory _, .var _ => .gt
  | .theory left, .theory right => Ord.compare left right

instance : Ord Atom := ⟨Atom.compare⟩

@[simp] theorem compare_var_var (left right : VariableKey) :
    compare (Atom.var left) (.var right) = compare left right := rfl

@[simp] theorem compare_var_theory (left : VariableKey) (right : TheoryKey) :
    compare (Atom.var left) (.theory right) = .lt := rfl

@[simp] theorem compare_theory_var (left : TheoryKey) (right : VariableKey) :
    compare (Atom.theory left) (.var right) = .gt := rfl

@[simp] theorem compare_theory_theory (left right : TheoryKey) :
    compare (Atom.theory left) (.theory right) = compare left right := rfl

instance : Std.TransOrd Atom where
  eq_swap {left right} := by
    cases left <;> cases right
    · exact Std.OrientedOrd.eq_swap (α := Nat)
    · rfl
    · rfl
    · exact Std.OrientedOrd.eq_swap (α := Nat)
  isLE_trans {first second third} below above := by
    cases first <;> cases second <;> cases third <;> simp_all
    · exact Std.TransCmp.isLE_trans below above
    · exact Std.TransCmp.isLE_trans below above

instance : Std.LawfulEqOrd Atom where
  eq_of_compare {left right} same := by
    cases left <;> cases right <;> simp_all

def render : Atom → String
  | .var key => "v" ++ Nat.repr key
  | .theory key => "t" ++ Nat.repr key

end Atom

/-- An atom with a polarity. -/
structure Literal where
  atom : Atom
  polarity : Bool
  deriving Repr, DecidableEq

namespace Literal

/-- The literal over the same atom with the other polarity. -/
def negate (literal : Literal) : Literal :=
  { literal with polarity := !literal.polarity }

instance : Neg Literal := ⟨negate⟩

/-- Whether the two literals are each other's negation. -/
def isComplement (left right : Literal) : Bool :=
  left.atom == right.atom && left.polarity != right.polarity

@[simp] theorem negate_atom (literal : Literal) : literal.negate.atom = literal.atom := rfl

@[simp] theorem negate_polarity (literal : Literal) :
    literal.negate.polarity = !literal.polarity := rfl

@[simp] theorem negate_negate (literal : Literal) : literal.negate.negate = literal := by
  cases literal
  simp [negate]

theorem isComplement_iff {left right : Literal} :
    left.isComplement right = true ↔ right = left.negate := by
  obtain ⟨leftAtom, leftPolarity⟩ := left
  obtain ⟨rightAtom, rightPolarity⟩ := right
  cases leftPolarity <;> cases rightPolarity <;>
    simp [isComplement, negate, eq_comm (a := rightAtom)]

/-- By atom, then negative before positive. -/
protected def compare (left right : Literal) : Ordering :=
  (Ord.compare left.atom right.atom).then (Ord.compare left.polarity right.polarity)

instance : Ord Literal := ⟨Literal.compare⟩

private theorem compare_eq_compareLex :
    (Ord.compare : Literal → Literal → Ordering) =
      compareLex (compareOn Literal.atom) (compareOn Literal.polarity) := rfl

instance : Std.TransOrd Literal := by
  unfold Std.TransOrd
  rw [compare_eq_compareLex]
  infer_instance

instance : Std.LawfulEqOrd Literal where
  eq_of_compare {left right} same := by
    obtain ⟨leftAtom, leftPolarity⟩ := left
    obtain ⟨rightAtom, rightPolarity⟩ := right
    have both : compare leftAtom rightAtom = .eq ∧ compare leftPolarity rightPolarity = .eq :=
      Ordering.then_eq_eq.mp same
    have atoms := Std.LawfulEqOrd.eq_of_compare both.1
    have polarities := Std.LawfulEqOrd.eq_of_compare both.2
    rw [atoms, polarities]

/-- The literals in ascending order, repetitions included. -/
def sort (literals : List Literal) : List Literal :=
  literals.mergeSort fun left right => (Ord.compare left right).isLE

def render (literal : Literal) : String :=
  if literal.polarity then literal.atom.render else "-" ++ literal.atom.render

end Literal

end ModelSearch
