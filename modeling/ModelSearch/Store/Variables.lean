import ModelSearch.Fault
import ModelSearch.Queue.Lazy
import ModelSearch.Syntax.Value
import ModelSearch.Watch.Basic

/-!
# The variable store

Variables are added under consecutive keys, each with a name of its own.  The
store holds their values, the queue of variables to decide, and watch sets on the
variables of each theory atom.  There a variable with a value counts as falsified
and one without as undetermined, so an atom whose set is unit lacks the value of
one variable, and one whose set is violated lacks none.
-/

namespace ModelSearch

structure Variable where
  name : String
  sort : VariableSort
  value : Option Value
  deriving Repr

structure VariableStore where
  table : Array Variable := #[]
  keys : Std.TreeMap String VariableKey := ∅
  watches : Watches VariableKey TheoryKey := ∅
  queue : LazyQueue := ∅

namespace VariableStore

instance : EmptyCollection VariableStore := ⟨{}⟩

instance : Inhabited VariableStore := ⟨∅⟩

/-- The number of variables. -/
def size (store : VariableStore) : Nat := store.table.size

def get? (store : VariableStore) (key : VariableKey) : Option Variable := store.table[key]?

def key? (store : VariableStore) (name : String) : Option VariableKey := store.keys[name]?

def value? (store : VariableStore) (key : VariableKey) : Option Value :=
  (store.get? key).bind Variable.value

/-- Whether a variable has the key. -/
def contains (store : VariableStore) (key : VariableKey) : Bool := key < store.size

/-- Why a name may not be added: it belongs to another variable. -/
def nameError? (store : VariableStore) (name : String) : Option SolverError :=
  if store.keys.contains name then some (.duplicateVariable name) else none

/-- Appends a variable without a value, under a name not used before, and queues
it. -/
def push (store : VariableStore) (name : String) (sort : VariableSort) : VariableStore :=
  let key := store.size
  { store with
    table := store.table.push ⟨name, sort, none⟩
    keys := store.keys.insert name key
    queue := store.queue.push key sort.priority }

/-- Adds a variable, if its name is not used yet. -/
def add (store : VariableStore) (name : String) (sort : VariableSort) :
    Except SolverError (VariableKey × VariableStore) :=
  match store.nameError? name with
  | some error => .error error
  | none => .ok (store.size, store.push name sort)

/-- Gives an existing variable a value and takes it off the queue. -/
def setValue (store : VariableStore) (key : VariableKey) (value : Value) : VariableStore :=
  { store with
    table := store.table.modify key fun former => { former with value := some value }
    queue := store.queue.erase key
    watches := store.watches.setMark key .falsified }

/-- Takes the value of an existing variable away and queues it again. -/
def clearValue (store : VariableStore) (key : VariableKey) : VariableStore :=
  match (store.get? key).map Variable.sort with
  | none => store
  | some sort =>
      { store with
        table := store.table.modify key fun former => { former with value := none }
        queue := store.queue.push key sort.priority
        watches := store.watches.setMark key .undetermined }

/-- Gives a variable a value, if it exists. -/
def assign (store : VariableStore) (key : VariableKey) (value : Value) :
    Except Abort VariableStore :=
  if store.contains key then .ok (store.setValue key value) else .error .noSuchVariable

/-- Takes the value of a variable away, if the variable exists. -/
def unassign (store : VariableStore) (key : VariableKey) : Except Abort VariableStore :=
  if store.contains key then .ok (store.clearValue key) else .error .noSuchVariable

/-- Takes the most urgent variable without a value off the queue. -/
def pop (store : VariableStore) : Option VariableKey × VariableStore :=
  let (key, queue) := store.queue.pop
  (key, { store with queue := queue })

/-- Whether some variable is queued. -/
def canDecide (store : VariableStore) : Bool := !store.queue.isEmpty

/-- Watches the variables of a theory atom. -/
def watch (store : VariableStore) (owner : TheoryKey) (keys : List VariableKey) : VariableStore :=
  { store with watches := (store.watches.add owner keys).2 }

/-- The theory atoms that lack the value of one variable, with that variable. -/
def semanticUnits (store : VariableStore) : List (TheoryKey × VariableKey) :=
  store.watches.unitOwners

/-- The theory atoms with a value for every variable. -/
def fullyAssigned (store : VariableStore) : List TheoryKey := store.watches.violatedOwners

end VariableStore

end ModelSearch
