import ModelSearch.Proofs.Operations.Basic
import ModelSearch.Proofs.Propagation.Basic

/-!
# The calls of a search

Between the beginning and the end of a search a solver passes through many states.
They are found in the calls that the operations of a search make of each other: each
call is made in one state and leaves another behind, and what is called next depends
on the answers given so far.  Counting and telling are no calls of their own, as they
touch neither the trail nor the stores.
-/

namespace ModelSearch

/-- An operation of a search, with its arguments. -/
inductive Call where
  | solve
  | searchRounds (rounds : Nat)
  | searchRound (time : Nat)
  | propagate (rounds : Nat)
  | evaluateTheory
  | evaluateAtoms (keys : List TheoryKey)
  | evaluateAtom (key : TheoryKey)
  | propagateClauses
  | propagateUnits (units : List (ClauseKey × Literal))
  | propagateLiteral (key : ClauseKey) (literal : Literal)
  | consultTheory
  | consultAtoms (units : List (TheoryKey × VariableKey))
  | runHook (hook : Hook)
  | assignImplied (key : VariableKey) (value : Value)
  | offerLemma (clause : Clause)
  | resolveConflict (conflict : ClauseKey)
  | explain (conflict : ClauseKey)
  | storeExplanation (conflict : ClauseKey) (explanation : Clause)
  | backjump (key : ClauseKey)
  | retreat (level : Nat)
  | learn (key : ClauseKey)
  | extendOrReport
  | makeDecision
  | decide (atom : Atom) (value : Value)
  | setValue (atom : Atom) (value : Value) (reason : Reason) (level : Nat)
  | endSearch (report : Report)

namespace Solver

variable {τ : Type}

/-- The solver with its counters changed. -/
def counting (update : Counters → Counters) (solver : Solver τ) : Solver τ :=
  { solver with counters := update solver.counters }

/-- The solver with a further event. -/
def telling (event : Event) (solver : Solver τ) : Solver τ :=
  { solver with events := solver.events.push event }

@[simp] theorem toAssignment_counting (update : Counters → Counters) (solver : Solver τ) :
    (solver.counting update).toAssignment = solver.toAssignment := rfl

theorem count_eq (update : Counters → Counters) (solver : Solver τ) :
    count update solver = .ok ⟨⟩ (solver.counting update) := rfl

/-- The solver as a round of the search has counted it. -/
def enteringRound (time : Nat) : Solver τ → Solver τ :=
  counting fun counters => { counters with iterations := counters.iterations + 1, time }

/-- The solver as a conflict is counted. -/
def enteringConflict : Solver τ → Solver τ :=
  counting fun counters => { counters with conflicts := counters.conflicts + 1 }

end Solver

open Solver

variable {τ : Type} [TheoryAtom τ]

/-- Makes a call, in a search with this much fuel. -/
def Call.perform (fuel : Nat) : Call → SolverM τ Unit
  | .solve => discard (Solver.solve fuel)
  | .searchRounds rounds => discard (Solver.searchRounds fuel rounds)
  | .searchRound time => discard (Solver.searchRound fuel time)
  | .propagate rounds => discard (Solver.propagate rounds)
  | .evaluateTheory => Solver.evaluateTheory
  | .evaluateAtoms keys => Solver.evaluateAtoms keys
  | .evaluateAtom key => Solver.evaluateAtom key
  | .propagateClauses => discard Solver.propagateClauses
  | .propagateUnits units => discard (Solver.propagateUnits units)
  | .propagateLiteral key literal => discard (Solver.propagateLiteral key literal)
  | .consultTheory => discard Solver.consultTheory
  | .consultAtoms units => discard (Solver.consultAtoms units)
  | .runHook hook => discard (Solver.runHook hook)
  | .assignImplied key value => discard (Solver.assignImplied key value)
  | .offerLemma clause => discard (Solver.offerLemma clause)
  | .resolveConflict conflict => discard (Solver.resolveConflict fuel conflict)
  | .explain conflict => discard (Solver.explain fuel conflict)
  | .storeExplanation conflict explanation =>
      discard (Solver.storeExplanation conflict explanation)
  | .backjump key => discard (Solver.backjump key)
  | .retreat level => Solver.retreat level
  | .learn key => Solver.learn key
  | .extendOrReport => discard Solver.extendOrReport
  | .makeDecision => discard Solver.makeDecision
  | .decide atom value => Solver.decide atom value
  | .setValue atom value reason level => Solver.setValue atom value reason level
  | .endSearch report => Solver.endSearch report

/-- A call made in one state makes another call in another state. -/
inductive Calls (fuel : Nat) : Call → Solver τ → Call → Solver τ → Prop
  -- A search
  | searchRounds {solver : Solver τ} (unsettled : settled? solver = none) :
      Calls fuel .solve solver (.searchRounds fuel) { solver with status := .solving }
  | endSearch {solver rest : Solver τ} {report : Report} (unsettled : settled? solver = none)
      (reported : Solver.searchRounds fuel fuel { solver with status := .solving } =
        .ok report rest) :
      Calls fuel .solve solver (.endSearch report) rest
  | searchRound {solver : Solver τ} {rounds : Nat} :
      Calls fuel (.searchRounds (rounds + 1)) solver (.searchRound solver.counters.time) solver
  | nextRound {solver rest : Solver τ} {rounds : Nat}
      (went : Solver.searchRound fuel solver.counters.time solver = .ok none rest) :
      Calls fuel (.searchRounds (rounds + 1)) solver (.searchRounds rounds) rest
  -- A round of the search
  | propagate {solver : Solver τ} {time : Nat}
      (early : isTimeUp (enteringRound time solver) = false) :
      Calls fuel (.searchRound time) solver (.propagate fuel) (enteringRound time solver)
  | resolveConflict {solver rest : Solver τ} {time : Nat} {conflict : ClauseKey}
      (early : isTimeUp (enteringRound time solver) = false)
      (violated : Solver.propagate fuel (enteringRound time solver) =
        .ok (some conflict) rest) :
      Calls fuel (.searchRound time) solver (.resolveConflict conflict) rest
  | extendOrReport {solver rest : Solver τ} {time : Nat}
      (early : isTimeUp (enteringRound time solver) = false)
      (closed : Solver.propagate fuel (enteringRound time solver) = .ok none rest) :
      Calls fuel (.searchRound time) solver .extendOrReport rest
  -- A round of propagation
  | evaluateTheory {solver : Solver τ} {rounds : Nat} :
      Calls fuel (.propagate (rounds + 1)) solver .evaluateTheory solver
  | propagateClauses {solver evaluated : Solver τ} {rounds : Nat}
      (evaluates : Solver.evaluateTheory solver = .ok ⟨⟩ evaluated) :
      Calls fuel (.propagate (rounds + 1)) solver .propagateClauses evaluated
  | propagateAgain {solver evaluated passed : Solver τ} {rounds : Nat}
      (evaluates : Solver.evaluateTheory solver = .ok ⟨⟩ evaluated)
      (passes : Solver.propagateClauses evaluated = .ok none passed)
      (longer : solver.trail.size < passed.trail.size) :
      Calls fuel (.propagate (rounds + 1)) solver (.propagate rounds) passed
  | consultTheory {solver evaluated passed : Solver τ} {rounds : Nat}
      (evaluates : Solver.evaluateTheory solver = .ok ⟨⟩ evaluated)
      (passes : Solver.propagateClauses evaluated = .ok none passed)
      (settled : ¬solver.trail.size < passed.trail.size) :
      Calls fuel (.propagate (rounds + 1)) solver .consultTheory passed
  | propagateFurther {solver evaluated passed rest : Solver τ} {rounds : Nat}
      (evaluates : Solver.evaluateTheory solver = .ok ⟨⟩ evaluated)
      (passes : Solver.propagateClauses evaluated = .ok none passed)
      (settled : ¬solver.trail.size < passed.trail.size)
      (consults : Solver.consultTheory passed = .ok none rest)
      (different : rest.trail.size ≠ solver.trail.size) :
      Calls fuel (.propagate (rounds + 1)) solver (.propagate rounds) rest
  -- The theory atoms whose variables have values
  | evaluateAtoms {solver : Solver τ} :
      Calls fuel .evaluateTheory solver (.evaluateAtoms solver.evaluable) solver
  | evaluateAtom {solver : Solver τ} {key : TheoryKey} {keys : List TheoryKey} :
      Calls fuel (.evaluateAtoms (key :: keys)) solver (.evaluateAtom key) solver
  | nextAtom {solver rest : Solver τ} {key : TheoryKey} {keys : List TheoryKey}
      (evaluates : Solver.evaluateAtom key solver = .ok ⟨⟩ rest) :
      Calls fuel (.evaluateAtoms (key :: keys)) solver (.evaluateAtoms keys) rest
  | evaluation {solver : Solver τ} {key : TheoryKey} {atom : τ} {truth : Bool}
      (present : solver.theoryAtoms[key]? = some atom)
      (evaluated : TheoryAtom.evaluate atom solver.values = some truth) :
      Calls fuel (.evaluateAtom key) solver
        (.setValue (.theory key) (.boolean truth) .semantic
          (greatestLevel solver.trail (TheoryAtom.support atom))) solver
  -- The clauses
  | propagateUnits {solver : Solver τ} (fine : solver.clauses.violated.head? = none) :
      Calls fuel .propagateClauses solver (.propagateUnits solver.clauses.units) solver
  | propagateLiteral {solver : Solver τ} {key : ClauseKey} {literal : Literal}
      {units : List (ClauseKey × Literal)} :
      Calls fuel (.propagateUnits ((key, literal) :: units)) solver
        (.propagateLiteral key literal) solver
  | nextUnit {solver rest : Solver τ} {key : ClauseKey} {literal : Literal} {given : Bool}
      {units : List (ClauseKey × Literal)}
      (propagates : Solver.propagateLiteral key literal solver = .ok (.ok given) rest) :
      Calls fuel (.propagateUnits ((key, literal) :: units)) solver (.propagateUnits units) rest
  | consequence {solver : Solver τ} {key : ClauseKey} {literal : Literal}
      (undetermined : solver.trail.literalTruth? literal = none) :
      Calls fuel (.propagateLiteral key literal) solver
        (.setValue literal.atom (.boolean literal.polarity) (.clause key) solver.trail.level)
        (counting (fun counters =>
          { counters with clausalPropagations := counters.clausalPropagations + 1 }) solver)
  -- The theory atoms that lack one value
  | consultAtoms {solver : Solver τ} :
      Calls fuel .consultTheory solver (.consultAtoms solver.vars.semanticUnits) solver
  | runHook {solver : Solver τ} {key : TheoryKey} {unassigned : VariableKey} {atom : τ}
      {units : List (TheoryKey × VariableKey)}
      (unvalued : solver.trail.get? (.var unassigned) = none)
      (present : solver.theoryAtoms[key]? = some atom) :
      Calls fuel (.consultAtoms ((key, unassigned) :: units)) solver
        (.runHook (TheoryAtom.hook atom (.theory key) unassigned))
        (telling (.consulted (.theory key) unassigned) solver)
  | nextConsultation {solver rest : Solver τ} {key : TheoryKey} {unassigned : VariableKey}
      {atom : τ} {units : List (TheoryKey × VariableKey)}
      (unvalued : solver.trail.get? (.var unassigned) = none)
      (present : solver.theoryAtoms[key]? = some atom)
      (runs : Solver.runHook (TheoryAtom.hook atom (.theory key) unassigned)
        (telling (.consulted (.theory key) unassigned) solver) = .ok none rest) :
      Calls fuel (.consultAtoms ((key, unassigned) :: units)) solver (.consultAtoms units) rest
  | skippedConsultation {solver : Solver τ} {key : TheoryKey} {unassigned : VariableKey}
      {units : List (TheoryKey × VariableKey)}
      (skipped : solver.trail.get? (.var unassigned) = none → solver.theoryAtoms[key]? = none) :
      Calls fuel (.consultAtoms ((key, unassigned) :: units)) solver (.consultAtoms units) solver
  -- The requests of a hook
  | inspected {solver : Solver τ} {next : Assignment → Hook} :
      Calls fuel (.runHook (.inspect next)) solver (.runHook (next solver.toAssignment)) solver
  | assignImplied {solver : Solver τ} {key : VariableKey} {value : Value} {next : Bool → Hook} :
      Calls fuel (.runHook (.assign key value next)) solver (.assignImplied key value) solver
  | assigned {solver rest : Solver τ} {key : VariableKey} {value : Value} {given : Bool}
      {next : Bool → Hook}
      (assigns : Solver.assignImplied key value solver = .ok given rest) :
      Calls fuel (.runHook (.assign key value next)) solver (.runHook (next given)) rest
  | implied {solver : Solver τ} {key : VariableKey} {value : Value}
      (unvalued : solver.trail.get? (.var key) = none) :
      Calls fuel (.assignImplied key value) solver
        (.setValue (.var key) value .semantic solver.trail.level) solver
  | request {solver : Solver τ} {atom : Atom} {value : Value} {next : Hook} :
      Calls fuel (.runHook (.decide atom value next)) solver (.decide atom value) solver
  | requested {solver rest : Solver τ} {atom : Atom} {value : Value} {next : Hook}
      (decides : Solver.decide atom value solver = .ok ⟨⟩ rest) :
      Calls fuel (.runHook (.decide atom value next)) solver (.runHook next) rest
  | offerLemma {solver : Solver τ} {clause : Clause}
      {next : Except SolverError ClauseKey → Hook} :
      Calls fuel (.runHook (.learn clause next)) solver (.offerLemma clause) solver
  | offered {solver rest : Solver τ} {clause : Clause} {answer : Except SolverError ClauseKey}
      {next : Except SolverError ClauseKey → Hook}
      (offers : Solver.offerLemma clause solver = .ok answer rest) :
      Calls fuel (.runHook (.learn clause next)) solver (.runHook (next answer)) rest
  -- A conflict
  | explain {solver : Solver τ} {conflict : ClauseKey} :
      Calls fuel (.resolveConflict conflict) solver (.explain conflict)
        (enteringConflict solver)
  | storeExplanation {solver explained : Solver τ} {conflict : ClauseKey} {explanation : Clause}
      (explains : Solver.explain fuel conflict (enteringConflict solver) =
        .ok explanation explained)
      (nonempty : explanation.isEmpty = false) :
      Calls fuel (.resolveConflict conflict) solver (.storeExplanation conflict explanation)
        explained
  | backjump {solver explained stored : Solver τ} {conflict key : ClauseKey}
      {explanation : Clause}
      (explains : Solver.explain fuel conflict (enteringConflict solver) =
        .ok explanation explained)
      (nonempty : explanation.isEmpty = false)
      (stores : Solver.storeExplanation conflict explanation explained = .ok key stored) :
      Calls fuel (.resolveConflict conflict) solver (.backjump key) stored
  | learn {solver explained stored returned : Solver τ} {conflict key : ClauseKey}
      {explanation : Clause} {kind : BackjumpKind}
      (explains : Solver.explain fuel conflict (enteringConflict solver) =
        .ok explanation explained)
      (nonempty : explanation.isEmpty = false)
      (stores : Solver.storeExplanation conflict explanation explained = .ok key stored)
      (returns : Solver.backjump key stored = .ok kind returned) :
      Calls fuel (.resolveConflict conflict) solver (.learn key) returned
  -- A jump
  | retreat {solver : Solver τ} {key : ClauseKey} {clause : Clause} {target : Nat}
      {kind : BackjumpKind} (stored : solver.clauses.clause? key = some clause)
      (aims : solver.trail.backjumpTarget clause = .ok (target, kind)) :
      Calls fuel (.backjump key) solver (.retreat target) solver
  | assertion {solver cut : Solver τ} {key : ClauseKey} {clause : Clause} {target : Nat}
      {literal : Literal} (stored : solver.clauses.clause? key = some clause)
      (aims : solver.trail.backjumpTarget clause = .ok (target, .uniqueImplication))
      (retreats : Solver.retreat target solver = .ok ⟨⟩ cut)
      (single : (clause.literals.filter fun literal =>
        (cut.trail.get? literal.atom).isNone) = [literal]) :
      Calls fuel (.backjump key) solver (.propagateLiteral key literal)
        (telling (.backjump solver.trail.level target .uniqueImplication) cut)
  | split {solver cut : Solver τ} {key : ClauseKey} {clause : Clause} {target : Nat}
      {literal : Literal} {others : List Literal}
      (stored : solver.clauses.clause? key = some clause)
      (aims : solver.trail.backjumpTarget clause = .ok (target, .semanticSplit))
      (retreats : Solver.retreat target solver = .ok ⟨⟩ cut)
      (first : (clause.literals.filter fun literal =>
        (cut.trail.get? literal.atom).isNone) = literal :: others) :
      Calls fuel (.backjump key) solver (.decide literal.atom (.boolean literal.polarity))
        (telling (.backjump solver.trail.level target .semanticSplit) cut)
  -- A decision
  | makeDecision {solver : Solver τ} : Calls fuel .extendOrReport solver .makeDecision solver
  | decide {solver : Solver τ} {vars : VariableStore} {key : VariableKey} {known : Variable}
      (possible : solver.vars.canDecide = true) (popped : solver.vars.pop = (some key, vars))
      (present : vars.get? key = some known) :
      Calls fuel .makeDecision solver (.decide (.var key) known.sort.defaultValue)
        (counting (fun counters => { counters with decisions := counters.decisions + 1 })
          { solver with vars })
  | choice {solver : Solver τ} {atom : Atom} {value : Value}
      (unvalued : solver.trail.get? atom = none) :
      Calls fuel (.decide atom value) solver
        (.setValue atom value .decided solver.trail.openLevel.level)
        { solver with trail := solver.trail.openLevel }

/-- The call is made in a search that begins with the solver. -/
inductive Called (fuel : Nat) (solver : Solver τ) : Call → Solver τ → Prop
  | solve : Called fuel solver .solve solver
  | call {caller callee : Call} {before after : Solver τ}
      (called : Called fuel solver caller before)
      (calls : Calls fuel caller before callee after) : Called fuel solver callee after

/-- A search that begins with the solver sees a state if some call is made in it, or
leaves it behind. -/
inductive Sees (fuel : Nat) (solver : Solver τ) : Solver τ → Prop
  | made {call : Call} {state : Solver τ} (called : Called fuel solver call state) :
      Sees fuel solver state
  | left {call : Call} {state : Solver τ} (called : Called fuel solver call state) :
      Sees fuel solver (left (call.perform fuel) state)

theorem Called.induct {fuel : Nat} {solver : Solver τ} {fits : Call → Solver τ → Prop}
    (solve : fits .solve solver)
    (call : ∀ caller before callee after, Calls fuel caller before callee after →
      fits caller before → fits callee after)
    {callee : Call} {state : Solver τ} (called : Called fuel solver callee state) :
    fits callee state := by
  induction called with
  | solve => exact solve
  | call called calls induction => exact call _ _ _ _ calls induction

/-! ## What a call leaves behind -/

/-- What a call leaves behind, unless it aborts. -/
inductive Leaves (fuel : Nat) (call : Call) (solver : Solver τ) : Solver τ → Prop
  | answered {rest : Solver τ} (result : call.perform fuel solver = .ok ⟨⟩ rest) :
      Leaves fuel call solver rest
  | failed {rest : Solver τ} {error : SolverError}
      (result : call.perform fuel solver = .error (.error error) rest) :
      Leaves fuel call solver rest
  | exhausted {rest : Solver τ} (result : call.perform fuel solver = .error .outOfFuel rest) :
      Leaves fuel call solver rest

theorem Leaves.of_solve {fuel : Nat} {solver rest : Solver τ} {report : Report}
    (result : Solver.solve fuel solver = .ok report rest) : Leaves fuel .solve solver rest := by
  refine .answered ?_
  show EStateM.map _ (Solver.solve fuel) solver = _
  rw [EStateM.map, result]

theorem Leaves.of_preserves {fuel : Nat} {call : Call} {solver rest : Solver τ}
    {holds : Solver τ → Prop}
    (preserves : Preserves holds (call.perform fuel) solver)
    (leaves : Leaves fuel call solver rest) : holds rest := by
  cases leaves with
  | answered result => exact preserves.of_ok result
  | failed result => exact (Ends.of_error preserves result).resolve_left nofun
  | exhausted result => exact (Ends.of_error preserves result).resolve_left nofun

theorem Leaves.preserves {fuel : Nat} {call : Call} {solver : Solver τ}
    {holds : Solver τ → Prop}
    (kept : ∀ rest, Leaves fuel call solver rest → holds rest) :
    Preserves holds (call.perform fuel) solver := by
  unfold Preserves Ends
  cases result : call.perform fuel solver with
  | ok answer rest => exact kept rest (.answered result)
  | error fault rest =>
      cases fault with
      | abort abort => exact .inl ⟨abort, rfl⟩
      | error error => exact .inr (kept rest (.failed result))
      | outOfFuel => exact .inr (kept rest (.exhausted result))

end ModelSearch
