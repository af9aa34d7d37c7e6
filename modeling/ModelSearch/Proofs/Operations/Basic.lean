import ModelSearch.Proofs.Actions.Alterations
import ModelSearch.Proofs.Operations.Stating

/-!
# Operations in any order

A solver need not be left to search by itself.  The formula may be extended while
atoms have values already, values may be chosen, implied and taken back one by one,
and clauses may be stored and watched from outside.  A solver is reached if it comes
about from a new one by such operations; those that end in an error count as well,
with whatever they have done by then, and only an abort ends all use.
-/

namespace ModelSearch

/-- What can be asked of a solver. -/
inductive Operation (τ : Type) where
  | addVariable (name : String) (sort : VariableSort)
  | addTheoryAtom (atom : τ)
  | addNegation (atom : Atom)
  | addClause (clause : Clause)
  | addLemma (clause : Clause)
  | storeClause (clause : Clause) (source : ClauseSource)
  | watchClause (key : ClauseKey)
  | decide (atom : Atom) (value : Value)
  | makeDecision
  | assignImplied (key : VariableKey) (value : Value)
  | propagateLiteral (key : ClauseKey) (literal : Literal)
  | propagate (fuel : Nat)
  | retreat (level : Nat)
  | backjump (key : ClauseKey)
  | explain (fuel : Nat) (conflict : ClauseKey)
  /-- A clause is explained; an explanation that is not empty is stored, used to jump
  back, and then watched if that is wanted. -/
  | resolve (fuel : Nat) (conflict : ClauseKey) (source : ClauseSource) (watching : Bool)
  | beginSearch
  /-- A round of a search on a running clock. -/
  | searchRound (fuel time : Nat)
  | endSearch (report : Report)
  | solve (fuel : Nat)

/-- The action is broken off for good. -/
def Aborts {τ α : Type} (action : SolverM τ α) (solver : Solver τ) : Prop :=
  ∃ abort rest, action solver = .error (.abort abort) rest

/-- The action keeps to what holds, unless it aborts. -/
def Preserves {τ α : Type} (holds : Solver τ → Prop) (action : SolverM τ α)
    (solver : Solver τ) : Prop :=
  Ends action solver (fun _ rest => holds rest)
    fun fault rest => (∃ abort, fault = .abort abort) ∨ holds rest

section Preserves

variable {τ α β : Type} {holds : Solver τ → Prop} {action : SolverM τ α} {solver : Solver τ}

/-- What becomes of the answer does not matter. -/
theorem ends_discard {after : Unit → Solver τ → Prop} {broken : Fault → Solver τ → Prop} :
    Ends (discard action) solver after broken ↔
      Ends action solver (fun _ => after ()) broken := by
  show Ends (EStateM.map (Function.const α PUnit.unit) action) solver after broken ↔ _
  unfold Ends EStateM.map
  cases action solver <;> exact Iff.rfl

theorem Preserves.discard (preserves : Preserves holds action solver) :
    Preserves holds (discard action) solver :=
  ends_discard.mpr preserves

theorem Preserves.of_ok {rest : Solver τ} {answer : α} (preserves : Preserves holds action solver)
    (result : action solver = .ok answer rest) : holds rest :=
  Ends.of_ok preserves result

theorem Preserves.and {also : Solver τ → Prop} (first : Preserves holds action solver)
    (second : Preserves also action solver) :
    Preserves (fun rest => holds rest ∧ also rest) action solver := by
  refine (Ends.and first second).mono (fun _ _ both => both) ?_
  rintro fault rest ⟨aborted | kept, aborted | also⟩
  · exact .inl aborted
  · exact .inl aborted
  · exact .inl aborted
  · exact .inr ⟨kept, also⟩

theorem Preserves.imp {later : Solver τ → Prop} (preserves : Preserves holds action solver)
    (weaker : ∀ rest, holds rest → later rest) : Preserves later action solver :=
  Ends.mono preserves (fun _ => weaker) fun _ rest broken => broken.imp_right (weaker rest)

theorem Preserves.bind {next : α → SolverM τ β} (preserves : Preserves holds action solver)
    (goesOn : ∀ answer rest, holds rest → Preserves holds (next answer) rest) :
    Preserves holds (action >>= next) solver :=
  Ends.bind preserves goesOn fun _ _ broken => broken

theorem not_aborts_of_ok {rest : Solver τ} {answer : α} (result : action solver = .ok answer rest) :
    ¬Aborts action solver := by
  rintro ⟨abort, broken, aborted⟩
  rw [result] at aborted
  cases aborted

theorem Preserves.left (preserves : Preserves holds action solver)
    (performed : ¬Aborts action solver) : holds (left action solver) := by
  unfold ModelSearch.left
  cases result : action solver with
  | ok answer rest => exact Ends.of_ok preserves result
  | error fault rest =>
      rcases Ends.of_error preserves result with ⟨abort, rfl⟩ | kept
      · exact absurd ⟨abort, rest, result⟩ performed
      · exact kept

end Preserves

variable {τ : Type} [TheoryAtom τ]

/-- Carries an operation out. -/
def Operation.perform : Operation τ → SolverM τ Unit
  | .addVariable name sort => discard (Solver.addVariable name sort)
  | .addTheoryAtom atom => discard (Solver.addTheoryAtom atom)
  | .addNegation atom => discard (Solver.addNegation atom)
  | .addClause clause => discard (Solver.addClause clause)
  | .addLemma clause => discard (Solver.addLemma clause)
  | .storeClause clause source => discard (Solver.storeClause clause source)
  | .watchClause key => Solver.watchClause key
  | .decide atom value => Solver.decide atom value
  | .makeDecision => discard Solver.makeDecision
  | .assignImplied key value => discard (Solver.assignImplied key value)
  | .propagateLiteral key literal => discard (Solver.propagateLiteral key literal)
  | .propagate fuel => discard (Solver.propagate fuel)
  | .retreat level => Solver.retreat level
  | .backjump key => discard (Solver.backjump key)
  | .explain fuel conflict => discard (Solver.explain fuel conflict)
  | .resolve fuel conflict source watching => do
      let explanation ← Solver.explain fuel conflict
      if explanation.isEmpty then
        return
      let key ← Solver.storeClause explanation source
      let _ ← Solver.backjump key
      if watching then
        Solver.watchClause key
  | .beginSearch => Solver.beginSearch
  | .searchRound fuel time => discard (Solver.searchRound fuel time)
  | .endSearch report => Solver.endSearch report
  | .solve fuel => discard (Solver.solve fuel)

/-- Carries operations out one after another. -/
def Operation.performAll : List (Operation τ) → SolverM τ Unit
  | [] => pure ()
  | operation :: operations => do
      operation.perform
      Operation.performAll operations

/-- The solver comes about from a new one by operations, each allowed when it is
performed. -/
inductive Reached (allowed : Solver τ → Operation τ → Prop) (configuration : Configuration) :
    Solver τ → Prop
  | new : Reached allowed configuration (Solver.new configuration)
  | perform {solver : Solver τ} {operation : Operation τ}
      (reached : Reached allowed configuration solver) (permitted : allowed solver operation)
      (performed : ¬Aborts operation.perform solver) :
      Reached allowed configuration (left operation.perform solver)

/-- What each operation keeps to holds of every solver that is reached. -/
theorem Reached.induct {allowed : Solver τ → Operation τ → Prop} {configuration : Configuration}
    {holds : Solver τ → Prop} (new : holds (Solver.new configuration))
    (perform : ∀ solver operation, Reached allowed configuration solver → holds solver →
      allowed solver operation → Preserves holds operation.perform solver)
    {solver : Solver τ} (reached : Reached allowed configuration solver) : holds solver := by
  induction reached with
  | new => exact new
  | perform reached permitted performed induction =>
      exact (perform _ _ reached induction permitted).left performed

theorem Reached.answered {allowed : Solver τ → Operation τ → Prop}
    {configuration : Configuration} {solver rest : Solver τ}
    (reached : Reached allowed configuration solver) (operation : Operation τ)
    (permitted : allowed solver operation)
    (result : operation.perform solver = .ok () rest) : Reached allowed configuration rest := by
  have same : left operation.perform solver = rest := by
    unfold left
    rw [result]
  rw [← same]
  exact reached.perform permitted (not_aborts_of_ok result)

theorem Reached.answeredAll {allowed : Solver τ → Operation τ → Prop}
    {configuration : Configuration} {solver rest : Solver τ} {operations : List (Operation τ)}
    (reached : Reached allowed configuration solver)
    (permitted : ∀ solver, ∀ operation ∈ operations, allowed solver operation)
    (result : Operation.performAll operations solver = .ok () rest) :
    Reached allowed configuration rest := by
  induction operations generalizing solver with
  | nil =>
      cases result
      exact reached
  | cons operation operations induction =>
      unfold Operation.performAll at result
      cases first : operation.perform solver with
      | error fault broken =>
          rw [bind_eq_error first] at result
          cases result
      | ok answer middle =>
          rw [bind_eq first] at result
          refine induction (reached.answered operation ?_ first) ?_ result
          · exact permitted solver operation List.mem_cons_self
          · exact fun solver other member => permitted solver other (List.mem_cons_of_mem _ member)

omit [TheoryAtom τ] in
theorem discard_of_ok {α : Type} {action : SolverM τ α} {solver rest : Solver τ} {answer : α}
    (result : action solver = .ok answer rest) : discard action solver = .ok () rest := by
  show EStateM.map (Function.const α PUnit.unit) action solver = _
  unfold EStateM.map
  rw [result]

omit [TheoryAtom τ] in
/-- The operation states a part of the formula. -/
def Operation.Builds : Operation τ → Prop
  | .addVariable _ _ | .addTheoryAtom _ | .addNegation _ | .addClause _ => True
  | _ => False

/-- A formula that was stated is reached if it may be stated. -/
theorem Stated.reached {allowed : Solver τ → Operation τ → Prop} {configuration : Configuration}
    (free : ∀ solver operation, operation.Builds → allowed solver operation)
    {solver : Solver τ} (stated : Stated configuration solver) :
    Reached allowed configuration solver := by
  induction stated with
  | new => exact .new
  | addVariable _ added reached =>
      exact reached.answered (.addVariable _ _) (free _ _ trivial) (discard_of_ok added)
  | addTheoryAtom _ added reached =>
      exact reached.answered (.addTheoryAtom _) (free _ _ trivial) (discard_of_ok added)
  | addNegation _ added reached =>
      exact reached.answered (.addNegation _) (free _ _ trivial) (discard_of_ok added)
  | addClause _ added reached =>
      exact reached.answered (.addClause _) (free _ _ trivial) (discard_of_ok added)

namespace Solver

variable {solver rest : Solver τ}

/-! ## Extending the formula -/

/-- Something was added to the formula, or nothing. -/
inductive Extended (before : Solver τ) : Solver τ → Prop
  | same : Extended before before
  | withVariable (name : String) (sort : VariableSort) :
      Extended before (before.withVariable name sort)
  | withTheoryAtom {atom : τ} (known : ∀ key ∈ TheoryAtom.support atom, key < before.vars.size) :
      Extended before (before.withTheoryAtom atom)
  | withClause {clause : Clause} (fitting : clauseError? before clause = none) :
      Extended before (before.withClause clause)

theorem Extended.coherent (extended : Extended solver rest) (coherent : solver.Coherent) :
    rest.Coherent := by
  cases extended with
  | same => exact coherent
  | withVariable name sort => exact coherent.withVariable name sort
  | withTheoryAtom known => exact coherent.withTheoryAtom known
  | @withClause clause fitting => exact coherent.withClause clause

theorem extends_addVariable (name : String) (sort : VariableSort) :
    Ends (addVariable name sort) solver (fun _ rest => Extended solver rest)
      fun _ rest => Extended solver rest := by
  refine Ends.mono (grants_addVariable name sort) ?_ ?_
  · rintro _ _ ⟨-, -, rfl⟩
    exact .withVariable name sort
  · rintro _ _ ⟨-, rfl⟩
    exact .same

theorem extends_addTheoryAtom (atom : τ) :
    Ends (addTheoryAtom atom) solver (fun _ rest => Extended solver rest)
      fun _ rest => Extended solver rest := by
  refine Ends.mono (grants_addTheoryAtom atom) ?_ ?_
  · rintro _ _ ⟨-, known, rfl⟩
    exact .withTheoryAtom known
  · rintro _ _ ⟨-, rfl⟩
    exact .same

theorem extends_addNegation (atom : Atom) :
    Ends (addNegation atom) solver (fun _ rest => Extended solver rest)
      fun _ rest => Extended solver rest := by
  refine Ends.mono (grants_addNegation atom) ?_ ?_
  · rintro _ _ ⟨negation, -, known, rfl⟩
    exact .withTheoryAtom known
  · rintro _ _ ⟨-, rfl⟩
    exact .same

theorem extends_addClause (clause : Clause) :
    Ends (addClause clause) solver (fun _ rest => Extended solver rest)
      fun _ rest => Extended solver rest := by
  refine Ends.mono (grants_addClause clause) ?_ ?_
  · rintro _ _ ⟨-, fitting, rfl⟩
    exact .withClause fitting
  · rintro _ _ ⟨-, rfl⟩
    exact .same

end Solver

/-- An operation that states a part of the formula extends it, or leaves it. -/
theorem Operation.extends_of_builds (operation : Operation τ) (builds : operation.Builds)
    (solver : Solver τ) :
    Ends operation.perform solver (fun _ rest => solver.Extended rest)
      fun _ rest => solver.Extended rest := by
  cases operation with
  | addVariable name sort => exact ends_discard.mpr (Solver.extends_addVariable name sort)
  | addTheoryAtom atom => exact ends_discard.mpr (Solver.extends_addTheoryAtom atom)
  | addNegation atom => exact ends_discard.mpr (Solver.extends_addNegation atom)
  | addClause clause => exact ends_discard.mpr (Solver.extends_addClause clause)
  | _ => exact builds.elim

theorem Operation.preserves_of_builds (operation : Operation τ) (builds : operation.Builds)
    {holds : Solver τ → Prop} {solver : Solver τ}
    (kept : ∀ rest, solver.Extended rest → holds rest) :
    Preserves holds operation.perform solver :=
  (operation.extends_of_builds builds solver).mono (fun _ rest => kept rest)
    fun _ rest extended => .inr (kept rest extended)

/-! ## Coherence -/

/-- Hooks may ask for anything. -/
def Rules.free {τ : Type} : Rules τ where
  assign _ _ _ _ := True
  decide _ _ _ _ := True
  learn _ _ _ := True

omit [TheoryAtom τ] in
/-- Hooks that may ask for anything are not careful. -/
theorem Rules.free_careless {solver : Solver τ} : ¬solver.Orderly Rules.free := by
  intro orderly
  obtain ⟨known, present, _⟩ :=
    orderly.careful.assign (Solver.new {}) 0 0 (.boolean true) trivial
  cases present

omit [TheoryAtom τ] in
theorem Hook.asks_free (hook : Hook) (owner : TheoryKey) (solver : Solver τ) :
    hook.Asks Rules.free owner solver := by
  induction hook generalizing solver with
  | done => trivial
  | conflict key => trivial
  | inspect next induction => exact induction _ solver
  | assign key value next induction => exact ⟨trivial, fun answer rest _ => induction answer rest⟩
  | decide atom value next induction => exact ⟨trivial, fun _ rest _ => induction rest⟩
  | learn clause next induction => exact ⟨trivial, fun answer rest _ => induction answer rest⟩

section Alters

variable {α : Type} {holds : Solver τ → Prop} {action : SolverM τ α} {solver : Solver τ}
  {after : α → Solver τ → Prop}

/-- An action that makes changes keeps to what they keep to. -/
theorem Alters.keeps (alters : Alters Rules.free true action solver after)
    (kept : ∀ rest, Changes Rules.free true solver rest → holds rest) :
    Ends action solver (fun answer rest => holds rest ∧ after answer rest)
      fun fault rest => (∃ abort, fault = .abort abort) ∨ holds rest :=
  Ends.mono alters (fun _ rest ends => ⟨kept rest ends.1, ends.2⟩)
    fun _ rest broken => broken.imp_right (kept rest)

theorem Alters.preserves (alters : Alters Rules.free true action solver after)
    (kept : ∀ rest, Changes Rules.free true solver rest → holds rest) :
    Preserves holds action solver :=
  (Alters.keeps alters kept).mono (fun _ _ => And.left) fun _ _ => id

end Alters

namespace Solver

variable {solver rest : Solver τ}

theorem heedful_free (solver : Solver τ) : solver.Heedful Rules.free :=
  fun reached _ owner _ _ _ _ => Hook.asks_free _ owner reached

theorem alters_addLemma {rules : Rules τ} {jumping : Bool} {owner : TheoryKey} {clause : Clause}
    (allowed : rules.learn solver owner clause) :
    Alters rules jumping (addLemma clause) solver fun _ _ => True := by
  unfold addLemma
  refine Alters.bind (alters_offerLemma allowed) fun answer _ _ _ => ?_
  cases answer with
  | ok key => exact .pure trivial
  | error error => exact alters_throw _

theorem Coherent.preserved {α : Type} {action : SolverM τ α} {after : α → Solver τ → Prop}
    (coherent : solver.Coherent) (alters : Alters Rules.free true action solver after) :
    Preserves Coherent action solver :=
  Alters.preserves alters fun _ changes => changes.coherent coherent

theorem Coherent.stored (coherent : solver.Coherent) (clause : Clause) (source : ClauseSource) :
    Preserves Coherent (storeClause clause source) solver :=
  coherent.withClauses (coherent.assignment.clauses.store clause source)

end Solver

/-- A clause that the operation stores as it is given. -/
def Operation.stores? : Operation τ → Option Clause
  | .storeClause clause _ => some clause
  | _ => none

/-- What changes keep to, and what is kept if a clause is stored, is kept by every operation
that states nothing of the formula. -/
theorem Operation.keeps {holds : Solver τ → Prop}
    (coherent : ∀ {state}, holds state → state.Coherent)
    (changed : ∀ {state rest}, holds state → Changes Rules.free true state rest → holds rest)
    (derived : ∀ {state clause} source, holds state → state.Shares clause →
      Preserves holds (Solver.storeClause clause source) state)
    (operation : Operation τ) (builds : ¬operation.Builds) {solver : Solver τ}
    (stored : ∀ clause source, operation.stores? = some clause →
      Preserves holds (Solver.storeClause clause source) solver)
    (held : holds solver) : Preserves holds operation.perform solver := by
  have altered {α : Type} {action : SolverM τ α} {state : Solver τ}
      {after : α → Solver τ → Prop} (held : holds state)
      (alters : Alters Rules.free true action state after) :
      Preserves holds action state := Alters.preserves alters fun _ => changed held
  have heedful := Solver.heedful_free solver
  -- What is asked for from outside counts as a request of some hook.
  have learns : ∀ clause, Rules.free.learn solver 0 clause := fun _ => trivial
  have assigns : ∀ key value, Rules.free.assign solver 0 key value := fun _ _ => trivial
  have wanted : ∀ (state : Solver τ) atom value, Rules.free.decide state 0 atom value :=
    fun _ _ _ => trivial
  cases operation with
  | addVariable | addTheoryAtom | addNegation | addClause => exact absurd trivial builds
  | addLemma clause => exact (altered held (Solver.alters_addLemma (learns clause))).discard
  | storeClause clause source => exact (stored clause source rfl).discard
  | watchClause key => exact altered held (Solver.alters_watchClause key)
  | decide atom value =>
      exact altered held (Solver.alters_decide (.decided (wanted solver atom value)))
  | makeDecision =>
      exact (altered held (Solver.alters_makeDecision (coherent held)).any).discard
  | assignImplied key value =>
      exact (altered held (Solver.alters_assignImplied (assigns key value))).discard
  | propagateLiteral key literal =>
      exact (altered held (Solver.alters_propagateLiteral fun counted _ =>
        .decided (wanted counted _ _))).discard
  | propagate fuel =>
      exact (altered held (Solver.alters_propagate heedful (coherent held) fuel).any).discard
  | retreat level => exact altered held (Solver.alters_retreat level)
  | backjump key => exact (altered held (Solver.alters_backjump (coherent held) key)).discard
  | explain fuel conflict => exact (altered held (Solver.alters_explain fuel conflict)).discard
  | resolve fuel conflict source watching =>
      have explains := Alters.keeps (Solver.alters_explain fuel conflict)
        fun _ => changed held
      refine Ends.bind explains ?_ fun _ _ => id
      rintro explanation explained ⟨held, shared⟩
      split
      · exact held
      · refine (derived source held shared).bind fun key state held => ?_
        refine (altered held (Solver.alters_backjump (coherent held) key)).bind
          fun _ returned held => ?_
        split
        · exact altered held (Solver.alters_watchClause key)
        · exact held
  | beginSearch => exact altered held (Solver.alters_status .solving)
  | searchRound fuel time =>
      exact (altered held (Solver.alters_searchRound heedful (coherent held) fuel time)).discard
  | endSearch report => exact altered held (Solver.alters_endSearch report)
  | solve fuel => exact (altered held (Solver.alters_solve heedful (coherent held) fuel)).discard

theorem Operation.coherent (operation : Operation τ) {solver : Solver τ}
    (coherent : solver.Coherent) : Preserves Solver.Coherent operation.perform solver := by
  by_cases builds : operation.Builds
  · exact operation.preserves_of_builds builds fun rest extended => extended.coherent coherent
  · exact Operation.keeps id (fun coherent changes => changes.coherent coherent)
      (fun source coherent _ => coherent.stored _ source) operation builds
      (fun clause source _ => coherent.stored clause source) coherent

theorem Reached.coherent {allowed : Solver τ → Operation τ → Prop}
    {configuration : Configuration} {solver : Solver τ}
    (reached : Reached allowed configuration solver) : solver.Coherent :=
  Reached.induct (.new configuration) (fun _ operation _ coherent _ => operation.coherent coherent)
    reached

end ModelSearch
