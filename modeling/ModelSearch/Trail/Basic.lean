import ModelSearch.Fault
import ModelSearch.Syntax.Value
import Std.Data.TreeMap

/-!
# The trail

The trail records each assignment in two views: an entry for each atom, and for
each level the atoms assigned there in order.  An assignment may go to a level
below the current one.  Positions number all assignments ever made, so a later
assignment has a greater position also after levels were removed.
-/

namespace ModelSearch

/-- Why an atom has its value. -/
inductive Reason where
  /-- The value was chosen. -/
  | decided
  /-- The clause was unit. -/
  | clause (key : ClauseKey)
  /-- A theory atom was evaluated, or implied the value. -/
  | semantic
  deriving Repr, DecidableEq

/-- An assignment to an atom. -/
structure Entry where
  value : Value
  level : Nat
  reason : Reason
  position : Nat
  deriving Repr

/-- Entries by atom, atoms by level, and the number of assignments ever made.
Level zero is always open. -/
structure Trail where
  entries : Std.TreeMap Atom Entry := ∅
  levels : Array (Array Atom) := #[#[]]
  position : Nat := 0

namespace Trail

instance : EmptyCollection Trail := ⟨{}⟩

instance : Inhabited Trail := ⟨∅⟩

/-- The current level. -/
def level (trail : Trail) : Nat := trail.levels.size - 1

/-- The number of assignments. -/
def size (trail : Trail) : Nat := trail.entries.size

def isEmpty (trail : Trail) : Bool := trail.entries.isEmpty

def get? (trail : Trail) (atom : Atom) : Option Entry := trail.entries[atom]?

def value? (trail : Trail) (atom : Atom) : Option Value := (trail.get? atom).map Entry.value

def level? (trail : Trail) (atom : Atom) : Option Nat := (trail.get? atom).map Entry.level

def reason? (trail : Trail) (atom : Atom) : Option Reason := (trail.get? atom).map Entry.reason

/-- The Boolean value of an atom, if it has one. -/
def truth? (trail : Trail) (atom : Atom) : Option Bool := (trail.value? atom).bind Value.truth?

/-- The truth of a literal, if its atom has a Boolean value. -/
def literalTruth? (trail : Trail) (literal : Literal) : Option Bool :=
  (trail.truth? literal.atom).map (· == literal.polarity)

/-- The atoms assigned at a level, in order; none if the level is not open. -/
def atomsAt (trail : Trail) (level : Nat) : List Atom := (trail.levels.getD level #[]).toList

/-- Opens a level above the current one. -/
def openLevel (trail : Trail) : Trail := { trail with levels := trail.levels.push #[] }

/-- Why an assignment may not be recorded: its level is not open, or the atom has
an entry. -/
def recordError? (trail : Trail) (atom : Atom) (level : Nat) : Option Abort :=
  if trail.level < level then
    some (.levelNotOpen atom level trail.level)
  else if trail.entries.contains atom then
    some (.alreadyAssigned atom)
  else none

/-- Adds an assignment to an atom without an entry, at an open level. -/
def push (trail : Trail) (atom : Atom) (value : Value) (reason : Reason) (level : Nat) :
    Trail where
  entries := trail.entries.insert atom ⟨value, level, reason, trail.position⟩
  levels := trail.levels.modify level (·.push atom)
  position := trail.position + 1

/-- Records an assignment, if it may be recorded. -/
def record (trail : Trail) (atom : Atom) (value : Value) (reason : Reason) (level : Nat) :
    Except Abort Trail :=
  match trail.recordError? atom level with
  | some abort => .error abort
  | none => .ok (trail.push atom value reason level)

/-- The atoms assigned above a level, by level and then in order. -/
def atomsAbove (trail : Trail) (level : Nat) : List Atom :=
  (trail.levels.toList.drop (level + 1)).flatMap Array.toList

/-- Removes every level above the given one, and answers with the entries
removed, by level and then in order. -/
def clearAbove (trail : Trail) (level : Nat) : List (Atom × Entry) × Trail :=
  let atoms := trail.atomsAbove level
  (atoms.filterMap fun atom => (trail.get? atom).map (atom, ·),
    { trail with
      entries := atoms.foldl (fun entries atom => entries.erase atom) trail.entries
      levels := trail.levels.take (level + 1) })

/-- All entries in the order of assignment. -/
def toList (trail : Trail) : List (Atom × Entry) :=
  trail.entries.toList.mergeSort fun left right => left.2.position ≤ right.2.position

end Trail

end ModelSearch
