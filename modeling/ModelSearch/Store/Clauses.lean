import ModelSearch.Fault
import ModelSearch.Watch.Basic

/-!
# The clause store

Clauses are stored under consecutive keys and never removed.  A watched clause
has its literals on watch sets whose marks follow the values of their atoms, so
unit and violated clauses are found without visiting the others.  A clause may
be stored without being watched, as the reason of an assignment.
-/

namespace ModelSearch

/-- Where a clause comes from. -/
inductive ClauseSource where
  /-- Part of the formula. -/
  | input
  /-- Derived from a conflict. -/
  | resolution
  /-- Added by a theory atom. -/
  | theory
  deriving Repr, DecidableEq

structure StoredClause where
  clause : Clause
  source : ClauseSource
  watched : Bool
  deriving Repr, DecidableEq

structure ClauseStore where
  clauses : Array StoredClause := #[]
  watches : Watches Literal ClauseKey := ∅

namespace ClauseStore

instance : EmptyCollection ClauseStore := ⟨{}⟩

instance : Inhabited ClauseStore := ⟨∅⟩

/-- The number of stored clauses. -/
def size (store : ClauseStore) : Nat := store.clauses.size

def stored? (store : ClauseStore) (key : ClauseKey) : Option StoredClause := store.clauses[key]?

def clause? (store : ClauseStore) (key : ClauseKey) : Option Clause :=
  (store.stored? key).map StoredClause.clause

/-- Stores a clause that is not watched. -/
def store (clauses : ClauseStore) (clause : Clause) (source : ClauseSource) :
    ClauseKey × ClauseStore :=
  (clauses.size, { clauses with clauses := clauses.clauses.push ⟨clause, source, false⟩ })

/-- Watches a stored clause; nothing changes if it is watched already. -/
def watch (store : ClauseStore) (key : ClauseKey) : ClauseStore :=
  match store.stored? key with
  | none => store
  | some stored =>
      if stored.watched then store
      else
        { store with
          clauses := store.clauses.modify key fun stored => { stored with watched := true }
          watches := (store.watches.add key stored.clause.literals).2 }

/-- Watches a clause, if it is stored. -/
def watch? (store : ClauseStore) (key : ClauseKey) : Option ClauseStore :=
  if key < store.size then some (store.watch key) else none

/-- Stores a clause and watches it. -/
def add (store : ClauseStore) (clause : Clause) (source : ClauseSource) :
    ClauseKey × ClauseStore :=
  (store.size,
    { store with
      clauses := store.clauses.push ⟨clause, source, true⟩
      watches := (store.watches.add store.size clause.literals).2 })

/-- The watched clauses with one literal undetermined and all others false, with
that literal. -/
def units (store : ClauseStore) : List (ClauseKey × Literal) := store.watches.unitOwners

/-- The watched clauses with every literal false. -/
def violated (store : ClauseStore) : List ClauseKey := store.watches.violatedOwners

/-- Lets the marks follow a Boolean value given to an atom. -/
def assign (store : ClauseStore) (atom : Atom) (truth : Bool) : ClauseStore :=
  { store with
    watches := (store.watches.setMark ⟨atom, truth⟩ .satisfied).setMark ⟨atom, !truth⟩ .falsified }

/-- Lets the marks follow the loss of a value. -/
def unassign (store : ClauseStore) (atom : Atom) : ClauseStore :=
  { store with
    watches :=
      (store.watches.setMark ⟨atom, true⟩ .undetermined).setMark ⟨atom, false⟩ .undetermined }

/-- The number of clauses from a source. -/
def count (store : ClauseStore) (source : ClauseSource) : Nat :=
  store.clauses.toList.countP fun stored => stored.source == source

end ClauseStore

end ModelSearch
