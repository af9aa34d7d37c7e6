import ModelSearch.Proofs.Operations.Basic
import ModelSearch.Proofs.Search.FoundModels

/-!
# Levels and reasons

Each level but the lowest is opened by a choice, and a value that follows from a
clause was given after the values it follows from, and at no lower level.  Neither
the order of the operations nor what was given before, taken back or added in
between matters, as long as only violated clauses are explained and only clauses
that may lead back are used to jump back.
-/

namespace ModelSearch

/-- What an operation rests on: a clause to be explained is violated, a clause that
is used to jump back may lead back, and a literal to be made true is the last of its
clause that is not false. -/
def Operation.Grounded {τ : Type} (solver : Solver τ) : Operation τ → Prop
  | .explain _ conflict | .resolve _ conflict _ _ => solver.Violates conflict
  | .backjump key => ∃ clause, solver.Usable key clause
  | .propagateLiteral key literal => ∃ clause, solver.clauses.clause? key = some clause ∧
      literal ∈ clause ∧ ∀ other ∈ clause, other ≠ literal → solver.Falsifies other
  | _ => True

namespace Solver

variable {τ : Type} [TheoryAtom τ] {solver rest : Solver τ}

/-- What was added to the formula changes neither the trail nor what was stored. -/
theorem Extended.reasoned (extended : Extended solver rest) (reasoned : solver.Reasoned) :
    rest.Reasoned := by
  cases extended with
  | same => exact reasoned
  | withVariable name sort => exact reasoned.congr rfl fun _ _ => id
  | withTheoryAtom known => exact reasoned.congr rfl fun _ _ => id
  | @withClause clause fitting =>
      refine reasoned.congr rfl fun key stored present => ?_
      rw [clause?_withClause, if_neg (Nat.ne_of_lt (ClauseStore.clause?_lt present)), present]

omit [TheoryAtom τ] in
theorem ends_storeClause {clause : Clause} {source : ClauseSource}
    {after : ClauseKey → Solver τ → Prop} {broken : Fault → Solver τ → Prop} :
    Ends (storeClause clause source) solver after broken ↔ after solver.clauses.size
      { solver with clauses := (solver.clauses.store clause source).2 } := Iff.rfl

/-- The stores follow the trail, and its levels and reasons are sound. -/
structure Accountable (solver : Solver τ) : Prop where
  coherent : solver.Coherent
  reasoned : solver.Reasoned

namespace Accountable

theorem new (configuration : Configuration) :
    (Solver.new configuration : Solver τ).Accountable :=
  ⟨.new configuration, .untouched rfl⟩

theorem extended (accountable : solver.Accountable) (extended : Extended solver rest) :
    rest.Accountable :=
  ⟨extended.coherent accountable.coherent, extended.reasoned accountable.reasoned⟩

theorem valid (accountable : solver.Accountable) : solver.Valid Rules.free solver where
  reached := .refl
  continues := .refl solver
  coherent := accountable.coherent
  reasoned := accountable.reasoned

theorem steps (accountable : solver.Accountable) (steps : Steps Rules.free true solver rest) :
    rest.Accountable := by
  have valid := Steps.valid steps accountable.valid
  exact ⟨valid.coherent, valid.reasoned⟩

/-- An action that runs keeps the account. -/
theorem preserved {α : Type} {action : SolverM τ α} {after : α → Solver τ → Prop}
    (accountable : solver.Accountable)
    (runs : Runs Rules.free true action solver after fun _ _ => True) :
    Preserves Accountable action solver := by
  refine Ends.mono runs (fun _ _ ends => accountable.steps ends.1) fun fault rest breaks => ?_
  cases fault with
  | abort abort => exact .inl ⟨abort, rfl⟩
  | error error => exact .inr (accountable.steps breaks.1)
  | outOfFuel => exact .inr (accountable.steps breaks.1)

theorem stored (accountable : solver.Accountable) (clause : Clause) (source : ClauseSource) :
    ({ solver with clauses := (solver.clauses.store clause source).2 } : Solver τ).Accountable := by
  refine ⟨accountable.coherent.stored clause source, accountable.reasoned.congr rfl ?_⟩
  intro key stored present
  rw [ClauseStore.clause?, ClauseStore.stored?_store,
    if_neg (Nat.ne_of_lt (ClauseStore.clause?_lt present))]
  exact present

theorem watchClause (accountable : solver.Accountable) (key : ClauseKey) :
    Preserves Accountable (Solver.watchClause key) solver := by
  by_cases known : key < solver.clauses.size
  · exact accountable.preserved (runs_watchClause known)
  · unfold Preserves Solver.watchClause
    simp only [ends_bind, ends_get, if_neg known]
    exact .inr accountable

theorem addLemma (accountable : solver.Accountable) (clause : Clause) :
    Preserves Accountable (Solver.addLemma clause) solver := by
  have allowed : Rules.free.learn solver 0 clause := trivial
  refine Preserves.bind (accountable.preserved (runs_offerLemma accountable.valid allowed))
    fun answer rest accountable => ?_
  cases answer with
  | ok key => exact accountable
  | error error => exact .inr accountable

theorem explain (accountable : solver.Accountable) {conflict : ClauseKey}
    (violated : solver.Violates conflict) (fuel : Nat) :
    Ends (Solver.explain fuel conflict) solver
      (fun explanation rest => rest.Accountable ∧ rest.Explanation explanation)
      fun fault rest => (∃ abort, fault = .abort abort) ∨ rest.Accountable := by
  have runs : Runs Rules.free true (Solver.explain fuel conflict) solver
      (fun explanation rest => Told solver rest ∧ solver.Explanation explanation)
      fun _ _ => True := (runs_explain accountable.valid violated fuel).excused
  refine (Ends.and (accountable.preserved runs) runs).mono ?_ fun _ _ broken => broken.1
  intro explanation rest ends
  obtain ⟨accountable, _, told, explained⟩ := ends
  exact ⟨accountable, told.assignment ▸ explained⟩

/-- What explains a violated clause leads back once it is stored. -/
theorem resolve (accountable : solver.Accountable) {conflict : ClauseKey}
    (violated : solver.Violates conflict) (fuel : Nat) (source : ClauseSource)
    (watching : Bool) :
    Preserves Accountable (Operation.perform (.resolve fuel conflict source watching))
      solver := by
  refine (accountable.explain violated fuel).bind ?_ fun _ _ => id
  intro explanation explained ends
  obtain ⟨accountable, cause⟩ := ends
  split
  · exact accountable
  · next nonempty =>
      have backjumpable := cause.resolve_left fun bare => nonempty bare.1
      -- The clause is stored whatever its source, so this is no step of a search.
      have stored := accountable.stored explanation source
      have usable := usable_stored backjumpable source
      refine (ends_bind _ _).mpr (ends_storeClause.mpr ?_)
      refine Preserves.bind (stored.preserved (runs_backjump stored.valid usable))
        fun _ returned accountable => ?_
      split
      · exact accountable.watchClause _
      · exact accountable

/-- A search keeps the account if hooks report violated clauses only. -/
theorem solve (accountable : solver.Accountable)
    (obeying : ∀ rest, Steps Rules.free true solver rest → rest.Obeys Rules.free)
    (fuel : Nat) : Preserves Accountable (Solver.solve fuel) solver := by
  cases settled : settled? solver with
  | some report =>
      unfold Preserves Solver.solve
      rw [Ends, get_bind, settled]
      exact accountable
  | none =>
      exact accountable.preserved (runs_solve (fun rest valid => obeying rest valid.reached)
        accountable.valid settled fuel).excused

end Accountable

end Solver

section Operations

variable {τ : Type} [TheoryAtom τ]

/-- Every operation that rests on what it needs keeps the account. -/
theorem Operation.accountable (operation : Operation τ) {solver : Solver τ}
    (accountable : solver.Accountable) (grounded : operation.Grounded solver)
    (obeying : ∀ rest, Steps Rules.free true solver rest → rest.Obeys Rules.free) :
    Preserves Solver.Accountable operation.perform solver := by
  have valid := accountable.valid
  have obeys := fun rest (valid : solver.Valid Rules.free rest) => obeying rest valid.reached
  have building := fun (stating : Operation τ) builds =>
    stating.preserves_of_builds builds fun rest (extended : solver.Extended rest) =>
      accountable.extended extended
  cases operation with
  | addVariable name sort => exact building (.addVariable name sort) trivial
  | addTheoryAtom atom => exact building (.addTheoryAtom atom) trivial
  | addNegation atom => exact building (.addNegation atom) trivial
  | addClause clause => exact building (.addClause clause) trivial
  | addLemma clause => exact (accountable.addLemma clause).discard
  | storeClause clause source => exact accountable.stored clause source
  | watchClause key => exact accountable.watchClause key
  | decide atom value =>
      -- A decision from outside counts as one that some hook asks for.
      have allowed : Rules.free.decide solver 0 atom value := trivial
      exact accountable.preserved (Solver.runs_decide (.request allowed) fun orderly =>
        absurd orderly Rules.free_careless)
  | makeDecision => exact (accountable.preserved (Solver.runs_makeDecision valid).any).discard
  | assignImplied key value =>
      have allowed : Rules.free.assign solver 0 key value := trivial
      exact (accountable.preserved (Solver.runs_assignImplied valid allowed)).discard
  | propagateLiteral key literal =>
      obtain ⟨clause, stored, member, others⟩ := grounded
      exact (accountable.preserved
        (Solver.runs_propagateLiteral valid stored member others)).discard
  | propagate fuel =>
      exact (accountable.preserved (Solver.runs_propagate obeys valid fuel).any.excused).discard
  | retreat level =>
      exact accountable.preserved (Solver.runs_retreat valid.coherent.assignment level)
  | backjump key =>
      obtain ⟨clause, usable⟩ := grounded
      exact (accountable.preserved (Solver.runs_backjump valid usable)).discard
  | explain fuel conflict =>
      exact (accountable.preserved (Solver.runs_explain valid grounded fuel).excused).discard
  | resolve fuel conflict source watching =>
      exact accountable.resolve grounded fuel source watching
  | beginSearch =>
      exact accountable.preserved (.modify (solver.told_status .solving).step)
  | searchRound fuel time =>
      exact (accountable.preserved
        (Solver.runs_searchRound obeys valid fuel time).excused).discard
  | endSearch report => exact accountable.preserved (Solver.runs_endSearch report)
  | solve fuel => exact (accountable.solve obeying fuel).discard

/-- Hooks report only violated clauses, whatever a solver that is reached becomes. -/
def Obedient (τ : Type) [TheoryAtom τ] (configuration : Configuration) : Prop :=
  ∀ start rest : Solver τ, Reached Operation.Grounded configuration start →
    Steps Rules.free true start rest → rest.Obeys Rules.free

theorem Reached.accountable {configuration : Configuration} (obedient : Obedient τ configuration)
    {solver : Solver τ} (reached : Reached Operation.Grounded configuration solver) :
    solver.Accountable :=
  Reached.induct (.new configuration)
    (fun solver operation reached accountable grounded =>
      operation.accountable accountable grounded fun rest steps =>
        obedient solver rest reached steps) reached

end Operations

namespace Solver

variable {τ : Type} {solver : Solver τ}

/-- The atom opens the level: it is the first one there, and the only choice. -/
structure Opens (solver : Solver τ) (level : Nat) (leader : Atom) : Prop where
  first : (solver.trail.atomsAt level).head? = some leader
  earliest : ∀ leaderEntry atom entry, solver.trail.get? leader = some leaderEntry →
    solver.trail.get? atom = some entry → entry.level = level →
      leaderEntry.position ≤ entry.position
  chosen : ∀ atom, (∃ entry, solver.trail.get? atom = some entry ∧ entry.level = level ∧
    entry.reason = .decided) ↔ atom = leader

/-- Entries are at open levels, each level but the lowest was opened by its only
choice, and what was made true by a clause rests on earlier entries of no higher
level. -/
structure Levelled (solver : Solver τ) : Prop where
  bounded : ∀ atom entry, solver.trail.get? atom = some entry →
    entry.level ≤ solver.trail.level
  opened : ∀ level, 0 < level → level ≤ solver.trail.level → ∃ leader,
    solver.Opens level leader
  lowest : ∀ atom entry, solver.trail.get? atom = some entry → entry.level = 0 →
    entry.reason ≠ .decided
  explained : ∀ atom entry key, solver.trail.get? atom = some entry →
    entry.reason = .clause key → solver.Explained atom entry key

theorem Reasoned.opens (reasoned : solver.Reasoned) (sound : solver.trail.Sound) {level : Nat}
    (positive : 0 < level) (isOpen : level ≤ solver.trail.level) :
    ∃ leader, solver.Opens level leader := by
  obtain ⟨leader, first, decided⟩ := reasoned.led level positive isOpen
  obtain ⟨leaderEntry, led, reason⟩ := Option.map_eq_some_iff.mp decided
  have inside := (sound.listed leader level).mp (List.mem_of_head? first)
  obtain ⟨again, foundAgain, levelled⟩ := Trail.level?_eq_some.mp inside
  obtain rfl := Option.some.inj (led.symm.trans foundAgain)
  refine ⟨leader, first, ?_, fun atom => ⟨?_, ?_⟩⟩
  · intro other atom entry ledOther found same
    exact sound.earliest first ledOther found same
  · intro some
    obtain ⟨entry, found, same, decided⟩ := some
    exact reasoned.choice_eq found led decided reason (same.trans levelled.symm)
  · rintro rfl
    exact ⟨leaderEntry, led, levelled, reason⟩

theorem Accountable.levels [TheoryAtom τ] (accountable : solver.Accountable) : solver.Levelled where
  bounded _ _ := accountable.coherent.assignment.trail.level_le
  opened _ := accountable.reasoned.opens accountable.coherent.assignment.trail
  lowest atom entry found low decided := by
    have positive := (accountable.reasoned.leading atom entry found decided).1
    omega
  explained := accountable.reasoned.explained

end Solver

/-- Levels and reasons are sound in every solver that is reached by operations that
rest on what they need, if hooks report violated clauses only. -/
theorem Reached.levelled {τ : Type} [TheoryAtom τ] {configuration : Configuration}
    (obedient : Obedient τ configuration) {solver : Solver τ}
    (reached : Reached Operation.Grounded configuration solver) : solver.Levelled :=
  (reached.accountable obedient).levels

namespace Bound

theorem obedient (configuration : Configuration) : Obedient Bound configuration :=
  fun _ _ _ _ _ atom _ _ _ => hook_keeps atom _ fun _ => trivial

/-- The formula, after its Boolean variable was decided to be false. -/
def decidedFormula : Solver Bound :=
  left (Operation.perform (.decide (.var 1) (.boolean false))) modestFormula

/-- Both bounds follow from clauses at level one, and the value of the rational
variable is picked there. -/
theorem decidedFormula_levelled : ∃ rest, Obedient Bound {} ∧
    Reached Operation.Grounded {} rest ∧
      Operation.perform (.propagate 10) decidedFormula = .ok () rest ∧ rest.Levelled ∧
        rest.trail.reason? (.theory 1) = some (.clause 1) := by
  have start : Reached Operation.Grounded {} modestFormula :=
    stated_modestFormula.reached fun _ operation builds => by
      cases operation <;> trivial
  have decided : answer? (Operation.perform (.decide (.var 1) (.boolean false)))
      modestFormula = some () := by
    decide +kernel
  have closed : answer? (Operation.perform (.propagate 10)) decidedFormula = some () := by
    decide +kernel
  have reason : (left (Operation.perform (.propagate 10)) decidedFormula).trail.reason?
      (.theory 1) = some (.clause 1) := by
    decide +kernel
  have closed := ok_of_answer closed
  have chosen := start.answered (.decide (.var 1) (.boolean false)) trivial (ok_of_answer decided)
  have reached := chosen.answered (.propagate 10) trivial closed
  exact ⟨_, obedient {}, reached, closed, reached.levelled (obedient {}), reason⟩

end Bound

end ModelSearch
