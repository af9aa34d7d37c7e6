import ModelSearch.Theory.Hook

/-!
# Scripted atoms

A scripted atom is a Boolean function of its variables whose part in the search
is a list of actions, each of which may wait for the atom to have a certain truth
value or none.
-/

namespace ModelSearch

/-- A Boolean function of a list of variables. -/
inductive Connective where
  /-- No value at all. -/
  | undefined
  | constant (truth : Bool)
  | conjunction
  | disjunction
  | parity
  deriving Repr, DecidableEq

/-- The function applied; a variable without a Boolean value leaves a proper
connective undefined. -/
def Connective.apply (connective : Connective) (truths : List (Option Bool)) : Option Bool :=
  match connective with
  | .undefined => none
  | .constant truth => some truth
  | .conjunction => (truths.mapM id).map (·.all id)
  | .disjunction => (truths.mapM id).map (·.any id)
  | .parity => (truths.mapM id).map (·.foldl xor false)

/-- One step of a scripted hook. -/
inductive ScriptAction where
  /-- Gives a variable a value: the named one, or else the one without a value. -/
  | assign (value : Value) (target : Option VariableKey)
  /-- Gives the variable without a value the first of false and true that makes
  the atom evaluate to its truth value. -/
  | complete
  /-- Decides an atom, unless it is on the trail. -/
  | decide (atom : Atom) (value : Value)
  /-- Adds a clause, and may report it as violated. -/
  | learn (clause : Clause) (conflict : Bool)
  /-- Reports a clause as violated. -/
  | conflict (key : ClauseKey)

/-- An action, and the truth value of the atom it waits for, if it waits. -/
structure GuardedAction where
  guard : Option (Option Bool)
  action : ScriptAction

structure ScriptedAtom where
  inputs : List VariableKey
  connective : Connective
  flipped : Bool := false
  actions : List GuardedAction
  name : String

namespace ScriptedAtom

def evaluate (atom : ScriptedAtom) (values : Valuation) : Option Bool :=
  (atom.connective.apply (atom.inputs.map fun key => (values key).bind Value.truth?)).map
    (xor atom.flipped)

def negate (atom : ScriptedAtom) : ScriptedAtom :=
  { atom with flipped := !atom.flipped, name := "!" ++ atom.name }

/-- The first of false and true for a variable that makes the atom evaluate as
wanted. -/
def completion? (atom : ScriptedAtom) (values : Valuation) (unassigned : VariableKey)
    (wanted : Bool) : Option Bool :=
  [false, true].find? fun choice =>
    atom.evaluate (fun key => if key = unassigned then some (.boolean choice) else values key)
      == some wanted

/-- The requests of one action, followed by those of the remaining ones. -/
def request (atom : ScriptedAtom) (unassigned : VariableKey) (truth : Option Bool)
    (assignment : Assignment) (action : ScriptAction) (rest : Hook) : Hook :=
  match action with
  | .assign value target => .assign (target.getD unassigned) value fun _ => rest
  | .complete =>
      match truth.bind (atom.completion? assignment.vars.value? unassigned) with
      | none => rest
      | some choice => .assign unassigned (.boolean choice) fun _ => rest
  | .decide target value =>
      if (assignment.trail.get? target).isSome then rest else .decide target value rest
  | .learn clause conflict =>
      .learn clause fun
        | .ok key => if conflict then .conflict key else rest
        | .error _ => rest
  | .conflict key => .conflict key

/-- Each action sees the truth value and the assignment its predecessors left. -/
def run (atom : ScriptedAtom) (this : Atom) (unassigned : VariableKey) :
    List GuardedAction → Hook
  | [] => .done
  | step :: steps =>
      .inspect fun assignment =>
        let truth := assignment.trail.truth? this
        let rest := atom.run this unassigned steps
        if step.guard.all (· == truth) then
          atom.request unassigned truth assignment step.action rest
        else rest

instance : TheoryAtom ScriptedAtom where
  support := inputs
  evaluate := evaluate
  negate := negate
  render := name
  hook := fun atom this unassigned => atom.run this unassigned atom.actions

end ScriptedAtom

end ModelSearch
