import ModelSearch.Proofs.Actions.Outcomes
import ModelSearch.Proofs.Steps.Effects

/-!
# What actions add to the record

However it ends, an action only adds to the events and to the stored clauses.  Only
the analysis of a conflict tells of resolutions and of derived clauses, and while a
round propagates and decides only hooks store clauses, which are watched from then on.
-/

namespace ModelSearch

/-- The event is of an analysis, or tells what it has derived. -/
def Event.ofAnalysis : Event → Bool
  | .analysisBegun _ | .resolvedWith _ | .analysisEnded | .derived _ => true
  | _ => false

variable {τ α β : Type}

/-- Events were added that are not of an analysis, and clauses of the theory. -/
structure Adds (before after : Solver τ) : Prop where
  events : ∃ told, after.events.toList = before.events.toList ++ told ∧
    ∀ event ∈ told, event.ofAnalysis = false
  kept : ∀ key stored, before.clauses.stored? key = some stored →
    after.clauses.stored? key = some stored
  fresh : ∀ key stored, after.clauses.stored? key = some stored →
    before.clauses.stored? key = some stored ∨ stored.source = .theory ∧ stored.watched = true

namespace Adds

variable {before middle after : Solver τ}

theorem of_same (events : after.events = before.events)
    (clauses : after.clauses.clauses = before.clauses.clauses) : Adds before after where
  events := ⟨[], by rw [events, List.append_nil], by rintro _ ⟨⟩⟩
  kept key stored present := by
    rwa [ClauseStore.stored?, clauses]
  fresh key stored present := by
    rw [ClauseStore.stored?, clauses] at present
    exact .inl present

theorem refl (solver : Solver τ) : Adds solver solver := of_same rfl rfl

theorem trans (first : Adds before middle) (second : Adds middle after) : Adds before after where
  events := by
    obtain ⟨told, events, aside⟩ := first.events
    obtain ⟨later, last, asideLater⟩ := second.events
    refine ⟨told ++ later, by rw [last, events, List.append_assoc], fun event inside => ?_⟩
    rcases List.mem_append.mp inside with inside | inside
    · exact aside event inside
    · exact asideLater event inside
  kept key stored present := second.kept key stored (first.kept key stored present)
  fresh key stored present := by
    rcases second.fresh key stored present with old | new
    · exact first.fresh key stored old
    · exact .inr new

theorem clause? (adds : Adds before after) {key : ClauseKey} {clause : Clause}
    (stored : before.clauses.clause? key = some clause) :
    after.clauses.clause? key = some clause := by
  obtain ⟨entry, present, same⟩ := ClauseStore.clause?_eq_some.mp stored
  exact ClauseStore.clause?_eq_some.mpr ⟨entry, adds.kept key entry present, same⟩

end Adds

/-! ## Actions that add only this -/

/-- However it ends, the action adds only what it may. -/
def Adding (action : SolverM τ α) : Prop := ∀ solver, Adds solver (left action solver)

section Rules

variable {action : SolverM τ α} {solver rest : Solver τ}

theorem Adding.ends (adding : Adding action) (solver : Solver τ) :
    Ends action solver (fun _ rest => Adds solver rest) fun _ rest => Adds solver rest := by
  have adds := adding solver
  unfold left at adds
  unfold Ends
  cases result : action solver <;> rwa [result] at adds

theorem Adding.of_ok {answer : α} (adding : Adding action)
    (result : action solver = .ok answer rest) : Adds solver rest :=
  (adding.ends solver).of_ok result

theorem Adding.of_error {fault : Fault} (adding : Adding action)
    (result : action solver = .error fault rest) : Adds solver rest :=
  (adding.ends solver).of_error result

theorem Adding.pure (answer : α) : Adding (Pure.pure answer : SolverM τ α) := .refl

theorem Adding.throw (fault : Fault) : Adding (throw fault : SolverM τ α) := .refl

theorem Adding.get {next : Solver τ → SolverM τ α} (goesOn : ∀ solver, Adding (next solver)) :
    Adding (get >>= next) := fun solver => goesOn solver solver

theorem Adding.modify {update : Solver τ → Solver τ}
    (adds : ∀ solver, Adds solver (update solver)) : Adding (modify update : SolverM τ PUnit) :=
  adds

theorem Adding.bind {next : α → SolverM τ β} (adding : Adding action)
    (goesOn : ∀ answer, Adding (next answer)) : Adding (action >>= next) := by
  intro solver
  unfold left
  cases result : action solver with
  | ok answer rest =>
      rw [bind_eq result]
      exact (adding.of_ok result).trans (goesOn answer rest)
  | error fault rest =>
      rw [bind_eq_error result]
      exact adding.of_error result

end Rules

namespace Solver

theorem adding_count (update : Counters → Counters) : Adding (count update : SolverM τ Unit) :=
  .modify fun _ => .of_same rfl rfl

theorem adding_emit {event : Event} (aside : event.ofAnalysis = false) :
    Adding (emit event : SolverM τ Unit) := by
  refine .modify fun solver => ⟨⟨[event], Array.toList_push, ?_⟩, fun _ _ => id, fun _ _ => .inl⟩
  intro other inside
  rw [List.mem_singleton.mp inside, aside]

theorem adding_setValue (atom : Atom) (value : Value) (reason : Reason) (level : Nat) :
    Adding (setValue atom value reason level : SolverM τ Unit) := by
  rw [setValue_eq]
  refine .get fun solver => ?_
  split
  · exact .throw _
  · exact .modify fun other => .of_same rfl (stored_given other atom value reason level)

theorem adding_decide (atom : Atom) (value : Value) :
    Adding (decide atom value : SolverM τ Unit) := by
  refine .get fun solver => ?_
  split
  · exact .throw _
  · refine .bind (.modify fun _ => .of_same rfl rfl) fun _ => .get fun opened => ?_
    exact .bind (adding_setValue _ _ _ _) fun _ => adding_emit rfl

theorem adding_propagateLiteral (key : ClauseKey) (literal : Literal) :
    Adding (propagateLiteral key literal : SolverM τ _) := by
  refine .bind (adding_count _) fun _ => .get fun solver => ?_
  dsimp only
  split
  · exact .pure _
  · exact .pure _
  · refine .bind (adding_setValue _ _ _ _) fun _ => ?_
    exact .bind (adding_emit rfl) fun _ => .pure _

theorem adding_assignImplied (key : VariableKey) (value : Value) :
    Adding (assignImplied key value : SolverM τ Bool) := by
  refine .get fun solver => ?_
  dsimp only
  split
  · exact .pure _
  · refine .bind (adding_setValue _ _ _ _) fun _ => .bind (adding_count _) fun _ => ?_
    exact .bind (adding_emit rfl) fun _ => .pure _

/-- A clause of the theory is stored and watched. -/
theorem adding_offerLemma (clause : Clause) : Adding (offerLemma clause : SolverM τ _) := by
  refine .get fun solver => ?_
  split
  · exact .pure _
  · have inserting : Adding (insertClause clause .theory : SolverM τ _) := by
      intro other
      refine ⟨⟨[], (List.append_nil _).symm, by rintro _ ⟨⟩⟩, fun key stored present => ?_,
        fun key stored present => ?_⟩
      · show (other.clauses.add clause .theory).2.stored? key = some stored
        rw [ClauseStore.stored?_add, if_neg (Nat.ne_of_lt (ClauseStore.stored?_lt present)),
          present]
      · replace present : (other.clauses.add clause .theory).2.stored? key = some stored :=
          present
        rw [ClauseStore.stored?_add] at present
        split at present
        · rw [← Option.some.inj present]
          exact .inr ⟨rfl, rfl⟩
        · exact .inl present
    exact .bind inserting fun _ => .bind (adding_emit rfl) fun _ => .pure _

/-! ## Propagation -/

theorem adding_propagateUnits (units : List (ClauseKey × Literal)) :
    Adding (propagateUnits units : SolverM τ _) := by
  induction units with
  | nil => exact .pure _
  | cons unit units induction =>
      refine .bind (adding_propagateLiteral _ _) fun answer => ?_
      cases answer with
      | error conflict => exact .pure _
      | ok given => exact induction

theorem adding_propagateClauses : Adding (propagateClauses : SolverM τ _) := by
  refine .get fun solver => ?_
  dsimp only
  split
  · exact .pure _
  · exact adding_propagateUnits _

theorem adding_runHook (hook : Hook) : Adding (runHook hook : SolverM τ _) := by
  induction hook with
  | done => exact .pure _
  | conflict key => exact .pure _
  | inspect next induction => exact .get fun solver => induction solver.toAssignment
  | assign key value next induction => exact .bind (adding_assignImplied _ _) induction
  | decide atom value next induction => exact .bind (adding_decide _ _) fun _ => induction
  | learn clause next induction => exact .bind (adding_offerLemma _) induction

theorem adding_makeDecision : Adding (makeDecision : SolverM τ _) := by
  refine .get fun solver => ?_
  split
  · exact .pure _
  · refine .get fun solver => ?_
    dsimp only
    refine .bind (.modify fun _ => .of_same rfl rfl) fun _ => ?_
    split
    · exact .pure _
    · split
      · exact .throw _
      · refine .bind (adding_count _) fun _ => ?_
        exact .bind (adding_decide _ _) fun _ => .pure _

variable [TheoryAtom τ]

theorem adding_evaluateAtom (key : TheoryKey) : Adding (evaluateAtom key : SolverM τ Unit) := by
  refine .get fun solver => ?_
  split
  · exact .pure _
  · split
    · exact .pure _
    · refine .bind (adding_setValue _ _ _ _) fun _ => .bind (adding_count _) fun _ => ?_
      exact adding_emit rfl

theorem adding_evaluateAtoms (keys : List TheoryKey) :
    Adding (evaluateAtoms keys : SolverM τ Unit) := by
  induction keys with
  | nil => exact .pure _
  | cons key keys induction => exact .bind (adding_evaluateAtom key) fun _ => induction

theorem adding_evaluateTheory : Adding (evaluateTheory : SolverM τ Unit) :=
  .get fun _ => adding_evaluateAtoms _

theorem adding_consultAtoms (units : List (TheoryKey × VariableKey)) :
    Adding (consultAtoms units : SolverM τ _) := by
  induction units with
  | nil => exact .pure _
  | cons unit units induction =>
      refine .get fun solver => ?_
      split
      · refine .bind (adding_emit rfl) fun _ => .bind (adding_runHook _) fun answer => ?_
        cases answer with
        | some conflict => exact .pure _
        | none => exact induction
      · exact induction

theorem adding_consultTheory : Adding (consultTheory : SolverM τ _) :=
  .get fun _ => adding_consultAtoms _

theorem adding_propagate (rounds : Nat) : Adding (propagate rounds : SolverM τ _) := by
  have counting : ∀ {γ : Type} {next : Nat → SolverM τ γ}, (∀ size, Adding (next size)) →
      Adding (countAssignments >>= next) := fun goesOn solver => goesOn _ solver
  induction rounds with
  | zero => exact .throw _
  | succ rounds induction =>
      refine counting fun before => .bind adding_evaluateTheory fun _ => ?_
      refine .bind adding_propagateClauses fun answer => ?_
      cases answer with
      | some conflict => exact .pure _
      | none =>
          refine counting fun size => ?_
          split
          · exact induction
          · refine .bind adding_consultTheory fun answer => ?_
            cases answer with
            | some conflict => exact .pure _
            | none =>
                refine counting fun size => ?_
                split
                · exact .pure _
                · exact induction

theorem adding_extendOrReport : Adding (extendOrReport : SolverM τ _) := by
  refine .bind adding_makeDecision fun answer => ?_
  cases answer with
  | some choice => exact .pure _
  | none =>
      refine .get fun solver => ?_
      split
      · exact .pure _
      · exact .bind (.modify fun _ => .of_same rfl rfl) fun _ => .pure _

end Solver

end ModelSearch
