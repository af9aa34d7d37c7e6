import Mathlib.Logic.Relation
import ModelSearch.Proofs.Stores.Detection
import ModelSearch.Solver.Search

/-!
# The steps of a search

Whatever a search does is a sequence of a few kinds of steps, each with a guard
that says when it is taken.  What a hook may ask for is a parameter.  Invariants
are proved once of the steps; the operations are then shown to take steps only.
-/

namespace ModelSearch

/-- Some literal of the clause is true. -/
def Clause.Holds (truth : Atom → Option Bool) (clause : Clause) : Prop :=
  ∃ literal ∈ clause, truth literal.atom = some literal.polarity

/-! ## What an assignment shows -/

namespace Assignment

/-- The literal is false on the trail. -/
def Falsifies (assignment : Assignment) (literal : Literal) : Prop :=
  assignment.trail.truth? literal.atom = some !literal.polarity

/-- Every literal of the stored clause is false. -/
def Violates (assignment : Assignment) (key : ClauseKey) : Prop :=
  ∃ clause, assignment.clauses.clause? key = some clause ∧
    ∀ literal ∈ clause, assignment.Falsifies literal

/-- The clauses stored all hold. -/
def Fulfilled (assignment : Assignment) (truth : Atom → Option Bool) : Prop :=
  ∀ key clause, assignment.clauses.clause? key = some clause → clause.Holds truth

/-- The clause follows from the stored clauses, and shares its literals with
them. -/
structure Derives (assignment : Assignment) (clause : Clause) : Prop where
  entailed : ∀ truth, assignment.Fulfilled truth → clause.Holds truth
  shared : ∀ literal ∈ clause, ∃ key stored,
    assignment.clauses.clause? key = some stored ∧ literal ∈ stored

/-- Some value was given by a theory atom. -/
def Evaluated (assignment : Assignment) : Prop :=
  ∃ atom entry, assignment.trail.get? atom = some entry ∧ entry.reason = .semantic

/-- The atom has no value, and if it is a variable, it exists. -/
structure Free (assignment : Assignment) (atom : Atom) : Prop where
  unvalued : assignment.trail.get? atom = none
  known : ∀ key, atom = .var key → key < assignment.vars.size

end Assignment

namespace Solver

variable {τ : Type}

/-- The atom exists, and the value is of its sort. -/
def Admits (solver : Solver τ) (atom : Atom) (value : Value) : Prop :=
  match atom with
  | .var key => ∃ known, solver.vars.get? key = some known ∧ known.sort = value.sort
  | .theory key => key < solver.theoryAtoms.size ∧ value.sort = .boolean

theorem admits_var {solver : Solver τ} {key : VariableKey} {value : Value} :
    solver.Admits (.var key) value ↔
      (solver.vars.get? key).map Variable.sort = some value.sort :=
  Option.map_eq_some_iff.symm

instance (solver : Solver τ) (atom : Atom) (value : Value) :
    Decidable (solver.Admits atom value) :=
  match atom with
  | .var _ => decidable_of_iff _ admits_var.symm
  | .theory key => inferInstanceAs (Decidable (key < solver.theoryAtoms.size ∧ _))

/-- The number of semantic splits so far. -/
def splits (solver : Solver τ) : Nat :=
  solver.events.countP fun
    | .backjump _ _ .semanticSplit => true
    | _ => false

/-- The solver with a value given. -/
def given (solver : Solver τ) (atom : Atom) (value : Value) (reason : Reason) (level : Nat) :
    Solver τ :=
  { solver with toAssignment := solver.toAssignment.set atom value reason level }

/-- The solver with a level opened by a choice. -/
def chosen (solver : Solver τ) (atom : Atom) (value : Value) : Solver τ :=
  given { solver with trail := solver.trail.openLevel } atom value .decided
    solver.trail.openLevel.level

/-- The solver after a jump. -/
def jumped (solver : Solver τ) (level : Nat) (kind : BackjumpKind) : Solver τ :=
  { solver with
    toAssignment := solver.toAssignment.unsetAbove level
    events := solver.events.push (.backjump solver.trail.level level kind) }

end Solver

/-! ## Requests -/

/-- What the hook of a theory atom may ask for. -/
structure Rules (τ : Type) where
  assign : Solver τ → TheoryKey → VariableKey → Value → Prop
  decide : Solver τ → TheoryKey → Atom → Value → Prop
  learn : Solver τ → TheoryKey → Clause → Prop

/-- Every request of the hook is allowed when it is made, and only a violated
clause is reported. -/
def Hook.Keeps {τ : Type} (rules : Rules τ) (owner : TheoryKey) : Hook → Solver τ → Prop
  | .done, _ => True
  | .conflict key, solver => solver.Violates key
  | .inspect next, solver => (next solver.toAssignment).Keeps rules owner solver
  | .assign key value next, solver =>
      rules.assign solver owner key value ∧ ∀ answer rest,
        Solver.assignImplied key value solver = .ok answer rest →
          (next answer).Keeps rules owner rest
  | .decide atom value next, solver =>
      rules.decide solver owner atom value ∧ ∀ answer rest,
        Solver.decide atom value solver = .ok answer rest → next.Keeps rules owner rest
  | .learn clause next, solver =>
      rules.learn solver owner clause ∧ ∀ answer rest,
        Solver.offerLemma clause solver = .ok answer rest →
          (next answer).Keeps rules owner rest

/-- Requests are made only of existing atoms without a value, with values of
their sorts. -/
structure Rules.Careful {τ : Type} (rules : Rules τ) : Prop where
  assign : ∀ solver owner key value, rules.assign solver owner key value →
    solver.Admits (.var key) value
  decide : ∀ solver owner atom value, rules.decide solver owner atom value →
    solver.Admits atom value ∧ solver.trail.get? atom = none

variable {τ : Type}

/-- The theory atom has a value for each of its variables but one. -/
structure Solver.Lacks (solver : Solver τ) [TheoryAtom τ] (atom : τ)
    (unassigned : VariableKey) : Prop where
  member : unassigned ∈ TheoryAtom.support atom
  unvalued : solver.trail.get? (.var unassigned) = none
  others : ∀ key ∈ TheoryAtom.support atom, key ≠ unassigned →
    (solver.trail.get? (.var key)).isSome = true

/-- Hooks that are run when their atoms lack one value keep to the rules. -/
def Solver.Obeys (solver : Solver τ) [TheoryAtom τ] (rules : Rules τ) : Prop :=
  ∀ (owner : TheoryKey) (atom : τ) (unassigned : VariableKey),
    solver.theoryAtoms[owner]? = some atom → solver.Lacks atom unassigned →
      (TheoryAtom.hook atom (.theory owner) unassigned).Keeps rules owner solver

/-! ## Steps -/

/-- Why an atom may be decided. -/
inductive Warrant (rules : Rules τ) (solver : Solver τ) : Atom → Value → Prop
  /-- The search decides a variable. -/
  | search {key : VariableKey} {known : Variable} (present : solver.vars.get? key = some known) :
      Warrant rules solver (.var key) known.sort.defaultValue
  /-- A split makes a literal of a stored clause true. -/
  | split {key : ClauseKey} {clause : Clause} {literal : Literal}
      (stored : solver.clauses.clause? key = some clause) (member : literal ∈ clause) :
      Warrant rules solver literal.atom (.boolean literal.polarity)
  /-- A hook asks for it. -/
  | request {owner : TheoryKey} {atom : Atom} {value : Value}
      (allowed : rules.decide solver owner atom value) : Warrant rules solver atom value

variable [TheoryAtom τ]

/-- Why an atom has to have a value, and at which level. -/
inductive Grounds (rules : Rules τ) (solver : Solver τ) : Atom → Value → Reason → Nat → Prop
  /-- All other literals of a stored clause are false. -/
  | clause {key : ClauseKey} {clause : Clause} {literal : Literal}
      (stored : solver.clauses.clause? key = some clause) (member : literal ∈ clause)
      (others : ∀ other ∈ clause, other ≠ literal → solver.Falsifies other) :
      Grounds rules solver literal.atom (.boolean literal.polarity) (.clause key)
        solver.trail.level
  /-- The theory atom evaluates to it. -/
  | evaluation {key : TheoryKey} {atom : τ} {truth : Bool}
      (present : solver.theoryAtoms[key]? = some atom)
      (evaluated : TheoryAtom.evaluate atom solver.values = some truth)
      (valued : ∀ variableKey ∈ TheoryAtom.support atom,
        (solver.trail.get? (.var variableKey)).isSome = true) :
      Grounds rules solver (.theory key) (.boolean truth) .semantic
        (Solver.greatestLevel solver.trail (TheoryAtom.support atom))
  /-- A hook says that its atom implies it. -/
  | request {owner : TheoryKey} {key : VariableKey} {value : Value}
      (allowed : rules.assign solver owner key value) :
      Grounds rules solver (.var key) value .semantic solver.trail.level

/-- A step of a search.  Jumping back is possible only if it is allowed. -/
inductive Step (rules : Rules τ) (jumping : Bool) : Solver τ → Solver τ → Prop
  /-- Something is told or counted. -/
  | tell {before after : Solver τ} (assignment : after.toAssignment = before.toAssignment)
      (theoryAtoms : after.theoryAtoms = before.theoryAtoms)
      (configuration : after.configuration = before.configuration)
      (splits : after.splits = before.splits) : Step rules jumping before after
  /-- The queue is replaced by one of the same variables. -/
  | requeue {solver : Solver τ} {queue : LazyQueue} (sound : queue.Sound)
      (same : ∀ key, queue.contains key = true ↔ solver.vars.queue.contains key = true) :
      Step rules jumping solver { solver with vars := { solver.vars with queue := queue } }
  /-- A level is opened with a choice. -/
  | choose {solver : Solver τ} {atom : Atom} {value : Value} (free : solver.Free atom)
      (warrant : Warrant rules solver atom value) :
      Step rules jumping solver (solver.chosen atom value)
  /-- A value that follows is given. -/
  | give {solver : Solver τ} {atom : Atom} {value : Value} {reason : Reason} {level : Nat}
      (free : solver.Free atom) (grounds : Grounds rules solver atom value reason level) :
      Step rules jumping solver (solver.given atom value reason level)
  /-- A hook adds a clause. -/
  | learn {solver : Solver τ} {owner : TheoryKey} {clause : Clause}
      (allowed : rules.learn solver owner clause)
      (fitting : Solver.clauseError? solver clause = none) :
      Step rules jumping solver
        { solver with clauses := (solver.clauses.add clause .theory).2 }
  /-- A derived clause is stored. -/
  | store {solver : Solver τ} {clause : Clause} (derived : solver.Derives clause) :
      Step rules jumping solver
        { solver with clauses := (solver.clauses.store clause .resolution).2 }
  /-- A stored clause is watched. -/
  | watch {solver : Solver τ} (key : ClauseKey) :
      Step rules jumping solver { solver with clauses := solver.clauses.watch key }
  /-- Every level above one below the current level is removed.  Only values that
  theory atoms gave lead to a split. -/
  | jump {solver : Solver τ} {level : Nat} (allowed : jumping = true) (kind : BackjumpKind)
      (below : level < solver.trail.level)
      (splitting : kind = .semanticSplit → solver.Evaluated) :
      Step rules jumping solver (solver.jumped level kind)

/-- A sequence of steps. -/
abbrev Steps (rules : Rules τ) (jumping : Bool) : Solver τ → Solver τ → Prop :=
  Relation.ReflTransGen (Step rules jumping)

theorem Step.any {rules : Rules τ} {jumping : Bool} {before after : Solver τ}
    (step : Step rules jumping before after) : Step rules true before after := by
  cases step with
  | tell assignment theoryAtoms configuration splits =>
      exact .tell assignment theoryAtoms configuration splits
  | requeue sound same => exact .requeue sound same
  | choose free warrant => exact .choose free warrant
  | give free grounds => exact .give free grounds
  | learn allowed fitting => exact .learn allowed fitting
  | store derived => exact .store derived
  | watch key => exact .watch key
  | jump _ kind below splitting => exact .jump rfl kind below splitting

theorem Steps.any {rules : Rules τ} {jumping : Bool} {before after : Solver τ}
    (steps : Steps rules jumping before after) : Steps rules true before after := by
  induction steps with
  | refl => exact .refl
  | tail _ step induction => exact induction.tail step.any

end ModelSearch
