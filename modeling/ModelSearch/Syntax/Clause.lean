import ModelSearch.Syntax.Literal
import Std.Data.TreeSet

/-!
# Clauses

A clause is a finite set of literals, kept as a strictly ascending list, so two
clauses are equal exactly when they have the same members.  The empty clause is
false.  The resolvent of two clauses on a pivot is their union without the pivot
and its negation.
-/

namespace ModelSearch

/-- A finite set of literals in ascending order. -/
structure Clause where
  literals : List Literal
  ascending : literals.Pairwise fun left right => compare left right = .lt
  deriving DecidableEq, Repr

namespace Clause

/-- The clause whose members are those of the list. -/
def ofList (literals : List Literal) : Clause where
  literals := (Std.TreeSet.ofList literals compare).toList
  ascending := Std.TreeSet.ordered_toList

/-- The clause without members. -/
def empty : Clause := ⟨[], .nil⟩

instance : EmptyCollection Clause := ⟨empty⟩

instance : Inhabited Clause := ⟨∅⟩

instance : Membership Literal Clause := ⟨fun clause literal => literal ∈ clause.literals⟩

instance (literal : Literal) (clause : Clause) : Decidable (literal ∈ clause) :=
  inferInstanceAs (Decidable (literal ∈ clause.literals))

def size (clause : Clause) : Nat := clause.literals.length

def isEmpty (clause : Clause) : Bool := clause.literals.isEmpty

/-- Whether an ascending list holds the literal, by halving: the search goes on in
the half that can hold it. -/
def binarySearch (wanted : Literal) (literals : List Literal) : Bool :=
  match _halved : literals.drop (literals.length / 2) with
  | [] => false
  | middle :: above =>
      match compare middle wanted with
      | .eq => true
      | .lt => binarySearch wanted above
      | .gt => binarySearch wanted (literals.take (literals.length / 2))
termination_by literals.length
decreasing_by
  all_goals
    have lengths := congrArg List.length _halved
    simp only [List.length_drop, List.length_cons, List.length_take] at lengths ⊢
    omega

def contains (clause : Clause) (literal : Literal) : Bool :=
  binarySearch literal clause.literals

/-- Whether two neighbours of the list are each other's negation. -/
def hasComplementaryNeighbours : List Literal → Bool
  | first :: second :: rest =>
      first.isComplement second || hasComplementaryNeighbours (second :: rest)
  | _ => false

/-- Whether the clause holds a literal and its negation. -/
def isTautology (clause : Clause) : Bool := hasComplementaryNeighbours clause.literals

/-- The members of either clause, without the pivot and its negation.  It does
not matter which clause holds which of the two. -/
def resolve (left right : Clause) (pivot : Literal) : Clause :=
  ofList ((left.literals ++ right.literals).filter fun literal =>
    literal != pivot && literal != -pivot)

def render (clause : Clause) : String :=
  "\x7b" ++ String.intercalate " " (clause.literals.map Literal.render) ++ "\x7d"

theorem mem_ofList {literals : List Literal} {literal : Literal} :
    literal ∈ ofList literals ↔ literal ∈ literals := by
  show literal ∈ (Std.TreeSet.ofList literals compare).toList ↔ _
  simp [Std.TreeSet.mem_toList, Std.TreeSet.mem_ofList]

theorem mem_resolve {left right : Clause} {pivot literal : Literal} :
    literal ∈ left.resolve right pivot ↔
      (literal ∈ left ∨ literal ∈ right) ∧ literal ≠ pivot ∧ literal ≠ -pivot := by
  unfold resolve
  rw [mem_ofList, List.mem_filter, List.mem_append]
  simp [Membership.mem]

end Clause

end ModelSearch
