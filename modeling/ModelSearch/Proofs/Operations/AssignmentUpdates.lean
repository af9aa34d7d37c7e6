import ModelSearch.Proofs.Queue.Order
import ModelSearch.Proofs.Theory.Evaluations

/-!
# Updates of an assignment

Whatever is done to a solver updates its assignment in one of a few ways: a level is opened
or levels are removed, a value is given, the queue of decisions changes its form but not
what it holds, or clauses are stored and watched.  An update says what becomes of the queue
and of the watch sets themselves, and not only of what they stand for.

As long as a solver is only asked to decide, to imply values and to propagate, and its
hooks add no clauses, no level is removed and the clauses stay.
-/

namespace ModelSearch

open Solver

/-- One update.  Whether levels may be removed and clauses added is a parameter. -/
inductive AssignmentUpdate (freely : Prop) (before : Assignment) : Assignment → Prop
  | openLevel : AssignmentUpdate freely before { before with trail := before.trail.openLevel }
  /-- Only what theory atoms evaluate to is given below the current level. -/
  | set {atom : Atom} {value : Value} {reason : Reason} {level : Nat} (free : before.Free atom)
      (isOpen : level ≤ before.trail.level)
      (placed : level = before.trail.level ∨ (∃ key, atom = .theory key) ∧ reason = .semantic) :
      AssignmentUpdate freely before (before.set atom value reason level)
  | requeue {queue : LazyQueue} (sound : queue.Sound)
      (same : ∀ key, queue.contains key = true ↔ before.vars.queue.contains key = true)
      (ranked : ∀ rank, before.vars.queue.Ranked rank → queue.Ranked rank) :
      AssignmentUpdate freely before { before with vars := { before.vars with queue := queue } }
  | unset (allowed : freely) (level : Nat) :
      AssignmentUpdate freely before (before.unsetAbove level)
  | restate (allowed : freely) {clauses : ClauseStore}
      (follow : ClausesFollow before.trail.value? clauses) :
      AssignmentUpdate freely before { before with clauses := clauses }

/-- Updates one after another. -/
abbrev AssignmentUpdates (freely : Prop) : Assignment → Assignment → Prop :=
  Relation.ReflTransGen (AssignmentUpdate freely)

variable {freely : Prop} {before after : Assignment}

theorem AssignmentUpdate.coherent (update : AssignmentUpdate freely before after)
    (coherent : before.Coherent) :
    after.Coherent := by
  cases update with
  | openLevel => exact coherent.openLevel
  | set free isOpen placed => exact coherent.set free.unvalued isOpen free.known
  | requeue sound same ranked =>
      exact ⟨coherent.trail, coherent.vars.requeue sound same, coherent.clauses⟩
  | unset allowed level => exact (coherent.unsetAbove level).coherent
  | restate allowed follow => exact ⟨coherent.trail, coherent.vars, follow⟩

theorem AssignmentUpdates.coherent (updates : AssignmentUpdates freely before after)
    (coherent : before.Coherent) :
    after.Coherent := by
  induction updates with
  | refl => exact coherent
  | tail _ update induction => exact update.coherent induction

theorem AssignmentUpdates.choose {atom : Atom} (free : before.Free atom) (value : Value) :
    AssignmentUpdates freely before
      (Assignment.set { before with trail := before.trail.openLevel } atom value .decided
        before.trail.openLevel.level) :=
  .tail (.single .openLevel) (.set ⟨free.unvalued, free.known⟩ (Nat.le_refl _) (.inl rfl))

/-! ## The queue of decisions -/

namespace VariableStore

variable {store : VariableStore}

/-- The urgency of a variable. -/
def rank (store : VariableStore) (key : VariableKey) : Option Nat :=
  (store.get? key).map fun known => known.sort.priority

theorem rank_eq (store : VariableStore) :
    store.rank = fun key : VariableKey =>
      (store.signature[key]?).map fun entry => entry.2.priority := by
  funext key
  rw [getElem?_signature, Option.map_map]
  rfl

/-- The queue holds each variable by its urgency. -/
def Ranked (store : VariableStore) : Prop := store.queue.Ranked store.rank

theorem Ranked.setValue (ranked : store.Ranked) (key : VariableKey) (value : Value) :
    (store.setValue key value).Ranked := by
  unfold Ranked
  rw [rank_eq, signature_setValue, ← rank_eq]
  exact LazyQueue.Ranked.erase ranked key

theorem Ranked.clearValue (ranked : store.Ranked) (key : VariableKey) :
    (store.clearValue key).Ranked := by
  cases present : store.get? key with
  | none =>
      have unchanged : store.clearValue key = store := by
        unfold VariableStore.clearValue
        rw [present]
        rfl
      rw [unchanged]
      exact ranked
  | some known =>
      have queue : (store.clearValue key).queue = store.queue.push key known.sort.priority := by
        rw [clearValue_of_known present]
      unfold Ranked
      rw [rank_eq, signature_clearValue, ← rank_eq, queue]
      exact LazyQueue.Ranked.push ranked (by rw [rank, present]; rfl)

theorem Ranked.push (ranked : store.Ranked) (name : String) (sort : VariableSort) :
    (store.push name sort).Ranked := by
  have known : ∀ key priority, store.rank key = some priority →
      (store.push name sort).rank key = some priority := by
    intro key priority given
    obtain ⟨entry, present, _⟩ := Option.map_eq_some_iff.mp given
    have inside : key < store.size := (Array.getElem?_eq_some_iff.mp present).1
    rw [rank, get?_push, if_neg (Nat.ne_of_lt inside)]
    exact given
  refine LazyQueue.Ranked.push (LazyQueue.Ranked.mono ranked known) ?_
  rw [rank, get?_push, if_pos rfl]
  rfl

end VariableStore

namespace Assignment

theorem ranked_release {assignment : Assignment} (ranked : assignment.vars.Ranked)
    (removed : Atom × Entry) : (assignment.release removed).vars.Ranked := by
  unfold release
  dsimp only
  split
  · exact ranked.clearValue _
  · exact ranked

theorem ranked_unsetAbove {assignment : Assignment} (ranked : assignment.vars.Ranked)
    (level : Nat) : (assignment.unsetAbove level).vars.Ranked := by
  have released : ∀ (removed : List (Atom × Entry)) (cut : Assignment), cut.vars.Ranked →
      (removed.foldl release cut).vars.Ranked := by
    intro removed
    induction removed with
    | nil => exact fun _ => id
    | cons pair removed induction =>
        exact fun cut ranked => induction _ (ranked_release ranked pair)
  exact released _ { assignment with trail := (assignment.trail.clearAbove level).2 } ranked

end Assignment

theorem AssignmentUpdate.ranked (update : AssignmentUpdate freely before after)
    (ranked : before.vars.Ranked) :
    after.vars.Ranked := by
  cases update with
  | openLevel => exact ranked
  | @set atom value reason level free isOpen placed =>
      cases atom with
      | var key => exact ranked.setValue key value
      | theory key => exact ranked
  | requeue sound same kept => exact kept _ ranked
  | unset allowed level => exact Assignment.ranked_unsetAbove ranked level
  | restate allowed follow => exact ranked

theorem AssignmentUpdates.ranked (updates : AssignmentUpdates freely before after)
    (ranked : before.vars.Ranked) :
    after.vars.Ranked := by
  induction updates with
  | refl => exact ranked
  | tail _ update induction => exact update.ranked induction

/-! ## Hooks that add no clauses -/

/-- The hook adds no clause, whatever it finds. -/
def Hook.AddsNoClause : Hook → Prop
  | .done => True
  | .conflict _ => True
  | .inspect next => ∀ assignment, (next assignment).AddsNoClause
  | .assign _ _ next => ∀ answer, (next answer).AddsNoClause
  | .decide _ _ next => next.AddsNoClause
  | .learn _ _ => False

variable {τ : Type} [TheoryAtom τ]

/-- No theory atom adds a clause. -/
def Solver.HooksAddNoClause (solver : Solver τ) : Prop :=
  ∀ (key : Nat) (atom : τ), solver.theoryAtoms[key]? = some atom →
    ∀ this unassigned, (TheoryAtom.hook atom this unassigned).AddsNoClause

/-- The call belongs to a decision, an implied value or a propagation. -/
def Call.GivesValues : Call → Prop
  | .propagate _ | .evaluateTheory | .evaluateAtoms _ | .evaluateAtom _ | .propagateClauses
  | .propagateUnits _ | .propagateLiteral _ _ | .consultTheory | .consultAtoms _
  | .assignImplied _ _ | .makeDecision | .decide _ _ | .setValue .. => True
  | .runHook hook => hook.AddsNoClause
  | _ => False

/-- What is reported of the trail touches no theory atom. -/
theorem ReportsTrail.theoryAtoms {before after : Solver τ} (reports : ReportsTrail before after) :
    after.theoryAtoms = before.theoryAtoms := by
  cases reports with
  | changed change theoryAtoms events => exact theoryAtoms
  | kept keeps => exact keeps.theoryAtoms

namespace Solver

variable {solver before after : Solver τ}

/-- The assignment was updated, or left alone. -/
abbrev Updated (freely : Prop) (before after : Solver τ) : Prop :=
  AssignmentUpdates freely before.toAssignment after.toAssignment

/-! ## Basic calls -/

section Basic

omit [TheoryAtom τ]

theorem updated_decide (atom : Atom) (value : Value) :
    Preserves (Updated freely solver) (decide atom value) solver := by
  by_cases free : solver.Free atom
  · exact (ends_decide free).mpr (AssignmentUpdates.choose free value)
  · obtain ⟨abort, rest, result⟩ := decide_of_not_free free value
    rw [Preserves, Ends, result]
    exact .inl ⟨abort, rfl⟩

theorem updated_propagateLiteral (key : ClauseKey) (literal : Literal) :
    Preserves (Updated freely solver) (propagateLiteral key literal) solver := by
  unfold propagateLiteral
  refine (ends_known rfl).mpr (ends_get_bind.mpr ?_)
  dsimp only
  split
  · exact .refl
  · exact .refl
  · rcases setValue_cases _ literal.atom _ _ _ with ⟨abort, result⟩ | ⟨free, isOpen, result⟩
    · exact (ends_broken result).mpr (.inl ⟨abort, rfl⟩)
    · exact (ends_known result).mpr (.single (.set free isOpen (.inl rfl)))

theorem updated_assignImplied (key : VariableKey) (value : Value) :
    Preserves (Updated freely solver) (assignImplied key value) solver := by
  unfold assignImplied
  refine ends_get_bind.mpr ?_
  dsimp only
  split
  · exact .refl
  · rcases setValue_cases solver (.var key) value .semantic solver.trail.level with
      ⟨abort, result⟩ | ⟨free, isOpen, result⟩
    · exact (ends_broken result).mpr (.inl ⟨abort, rfl⟩)
    · exact (ends_known result).mpr (.single (.set free isOpen (.inl rfl)))

theorem updated_evaluateAtom [TheoryAtom τ] (key : TheoryKey) :
    Preserves (Updated freely solver) (evaluateAtom key) solver := by
  unfold evaluateAtom
  refine ends_get_bind.mpr ?_
  cases present : solver.theoryAtoms[key]? with
  | none => exact .refl
  | some atom =>
      dsimp only
      cases evaluated : TheoryAtom.evaluate atom solver.values with
      | none => exact .refl
      | some truth =>
          rcases setValue_cases solver (.theory key) (.boolean truth) .semantic
            (greatestLevel solver.trail (TheoryAtom.support atom)) with
            ⟨abort, result⟩ | ⟨free, isOpen, result⟩
          · exact (ends_broken result).mpr (.inl ⟨abort, rfl⟩)
          · exact (ends_known result).mpr (.single (.set free isOpen (.inr ⟨⟨key, rfl⟩, rfl⟩)))

/-- The queue is put in order after the choice, and holds the same variables then. -/
theorem Decided.updated {key : VariableKey} {known : Variable}
    (decided : Decided before after key known before.vars.queue.pop.2) :
    Updated freely before after := by
  have same : ∀ other, (before.vars.queue.pop.2.erase key).contains other = true ↔
      (before.vars.queue.erase key).contains other = true := by
    intro other
    rw [LazyQueue.contains_erase, LazyQueue.contains_erase, decided.popped.left]
    constructor
    · rintro ⟨different, -, present⟩
      exact ⟨different, present⟩
    · rintro ⟨different, present⟩
      exact ⟨different, fun equal => different (Option.some.inj equal), present⟩
  have ranked : ∀ rank, (before.vars.queue.erase key).Ranked rank →
      (before.vars.queue.pop.2.erase key).Ranked rank := by
    intro rank ranked
    have former : before.vars.queue.Ranked rank := by
      refine ⟨?_, ?_⟩
      · rw [← LazyQueue.heap_erase before.vars.queue key]
        exact ranked.ordered
      · rw [← LazyQueue.heap_erase before.vars.queue key]
        exact ranked.ranked
    exact former.pop.erase key
  unfold Updated
  rw [decided.assignment]
  exact .tail (AssignmentUpdates.choose decided.free known.sort.defaultValue)
    (.requeue (decided.popped.sound.erase key) same ranked)

theorem updated_makeDecision (coherent : solver.toAssignment.Coherent) :
    Preserves (Updated freely solver) makeDecision solver := by
  cases possible : solver.vars.canDecide with
  | false =>
      rw [Preserves, Ends, makeDecision_of_spent possible]
  | true =>
      refine (ends_popDecision coherent possible).mono ?_ fun _ _ absurdity => absurdity.elim
      rintro _ rest ⟨key, known, _, _, decided⟩
      exact decided.updated

theorem updated_storeClause (allowed : freely) (coherent : solver.toAssignment.Coherent)
    (clause : Clause) (source : ClauseSource) :
    Preserves (Updated freely solver) (storeClause clause source) solver :=
  .single (.restate allowed (coherent.clauses.store clause source))

theorem updated_watchClause (allowed : freely) (coherent : solver.toAssignment.Coherent)
    (key : ClauseKey) : Preserves (Updated freely solver) (watchClause key) solver := by
  unfold watchClause
  refine ends_get_bind.mpr ?_
  split
  · exact .single (.restate allowed (coherent.clauses.watch key))
  · exact .inr .refl

theorem updated_retreat (allowed : freely) (level : Nat) :
    Preserves (Updated freely solver) (retreat level) solver := by
  unfold Preserves Ends
  rcases retreat_cases solver level with ⟨_, same⟩ | ⟨_, same⟩ | ⟨abort, same⟩
  · rw [same]
  · rw [same]
    exact .single (.unset allowed level)
  · rw [same]
    exact .inl ⟨abort, rfl⟩

/-- Resolving leaves the assignment alone. -/
theorem updated_resolveToBackjump (steps : Nat) (clause : Clause) :
    Ends (resolveToBackjump steps clause) solver
      (fun _ rest => rest.toAssignment = solver.toAssignment)
      fun _ rest => rest.toAssignment = solver.toAssignment := by
  induction steps generalizing solver clause with
  | zero => rfl
  | succ steps induction =>
      unfold resolveToBackjump
      split
      · rfl
      · refine ends_get_bind.mpr ?_
        dsimp only
        cases solver.trail.topLiterals clause with
        | error error => exact rfl
        | ok top =>
            show Ends (if _ then _ else _) solver _ _
            split
            · rfl
            · cases solver.trail.latestImplied? clause with
              | none =>
                  dsimp only
                  split <;> exact rfl
              | some pivot =>
                  obtain ⟨literal, reason⟩ := pivot
                  cases stored : solver.clauses.clause? reason with
                  | none => exact (ends_broken (clause_of_missing stored)).mpr rfl
                  | some cause =>
                      refine (ends_known (clause_of_stored stored)).mpr ((ends_known rfl).mpr ?_)
                      exact induction (clause.resolve cause literal)

theorem updated_explain (fuel : Nat) (conflict : ClauseKey) :
    Preserves (Updated freely solver) (explain fuel conflict) solver := by
  have still : Ends (explain fuel conflict) solver
      (fun _ rest => rest.toAssignment = solver.toAssignment)
      fun _ rest => rest.toAssignment = solver.toAssignment := by
    unfold explain
    refine (ends_known rfl).mpr ?_
    cases stored : (telling (.analysisBegun conflict) solver).clauses.clause? conflict with
    | none => exact (ends_broken (clause_of_missing stored)).mpr rfl
    | some clause =>
        refine (ends_known (clause_of_stored stored)).mpr ?_
        exact Ends.bind (updated_resolveToBackjump fuel clause) (fun _ _ => id) fun _ _ => id
  refine still.mono (fun _ rest same => ?_) fun _ rest same => .inr ?_
  all_goals
    unfold Updated
    rw [same]

theorem updated_learn (allowed : freely) (coherent : solver.toAssignment.Coherent)
    (key : ClauseKey) : Preserves (Updated freely solver) (learn key) solver := by
  unfold learn
  refine ends_get_bind.mpr ?_
  cases solver.clauses.stored? key with
  | none => exact .inr .refl
  | some stored =>
      dsimp only
      split
      · exact Ends.bind (updated_watchClause allowed coherent key) (fun _ _ => id) fun _ _ => id
      · exact .refl

theorem updated_storeExplanation (allowed : freely) (coherent : solver.toAssignment.Coherent)
    (conflict : ClauseKey) (explanation : Clause) :
    Preserves (Updated freely solver) (storeExplanation conflict explanation) solver := by
  unfold storeExplanation
  cases stored : solver.clauses.clause? conflict with
  | none => exact (ends_broken (clause_of_missing stored)).mpr (.inr .refl)
  | some clause =>
      refine (ends_known (clause_of_stored stored)).mpr ?_
      split
      · exact .refl
      · exact .single (.restate allowed (coherent.clauses.store explanation .resolution))

theorem updated_offerLemma (allowed : freely) (coherent : solver.toAssignment.Coherent)
    (clause : Clause) : Preserves (Updated freely solver) (offerLemma clause) solver := by
  unfold offerLemma
  refine ends_get_bind.mpr ?_
  cases clauseError? solver clause with
  | some error => exact .refl
  | none => exact .single (.restate allowed (coherent.clauses.add clause .theory))

theorem updated_endSearch (report : Report) :
    Preserves (Updated freely solver) (endSearch report) solver := by
  refine (ends_endSearch report).mono (fun _ rest told => ?_) fun _ _ absurdity => absurdity.elim
  unfold Updated
  rw [told.assignment]

end Basic

theorem updated_basic {call : Call} (basic : call.Basic) (allowed : freely ∨ call.GivesValues)
    (coherent : solver.toAssignment.Coherent) (fuel : Nat) :
    Preserves (Updated freely solver) (call.perform fuel) solver := by
  cases call with
  | evaluateAtom key => exact updated_evaluateAtom key
  | propagateLiteral key literal => exact (updated_propagateLiteral key literal).discard
  | assignImplied key value => exact (updated_assignImplied key value).discard
  | offerLemma clause =>
      exact (updated_offerLemma (allowed.resolve_right id) coherent clause).discard
  | explain conflict => exact (updated_explain fuel conflict).discard
  | storeExplanation conflict explanation =>
      exact (updated_storeExplanation (allowed.resolve_right id) coherent conflict
        explanation).discard
  | learn key => exact updated_learn (allowed.resolve_right id) coherent key
  | makeDecision => exact (updated_makeDecision coherent).discard
  | decide atom value => exact updated_decide atom value
  | endSearch report => exact updated_endSearch report
  | _ => exact basic.elim

/-! ## Whole calls -/

/-- A search leaves the theory atoms as they are. -/
theorem theoryAtoms_acrossBasicCalls (fuel : Nat) : AcrossBasicCalls fuel (fun _ _ => True)
    fun before after : Solver τ => after.theoryAtoms = before.theoryAtoms where
  calls _ _ := trivial
  refl _ := rfl
  trans first second := second.trans first
  aside _ _ _ := rfl
  basic _ basic := (reportsTrail_basic basic fuel).imp fun _ reports => reports.theoryAtoms
  consulted _ _ _ := rfl
  returned _ _ _ retreats := (reportsTrail_returned retreats).theoryAtoms

/-- The call is one of those that remove no levels and add no clauses. -/
structure OnlyGivesValues (call : Call) (solver : Solver τ) : Prop where
  gives : call.GivesValues
  hooks : call.Whole → solver.HooksAddNoClause

theorem OnlyGivesValues.calls {fuel : Nat} {caller callee : Call}
    (limited : OnlyGivesValues caller before)
    (calls : Calls fuel caller before callee after) : OnlyGivesValues callee after := by
  have hooks : callee.Whole → after.HooksAddNoClause := by
    intro whole key atom present
    rw [(theoryAtoms_acrossBasicCalls fuel).called trivial calls whole] at present
    exact limited.hooks (calls.whole whole) key atom present
  refine ⟨?_, hooks⟩
  have gives := limited.gives
  cases calls with
  | runHook unvalued present => exact limited.hooks trivial _ _ present _ _
  | inspected => exact gives _
  | assigned => exact gives _
  | requested => exact gives
  | offerLemma | offered => exact gives.elim
  | searchRounds | endSearch | searchRound | nextRound | propagate | resolveConflict
  | extendOrReport | explain | storeExplanation | backjump | learn | retreat | assertion
  | split => exact gives.elim
  | _ => trivial

theorem updated_acrossBasicCalls (freely : Prop) (fuel : Nat) :
    AcrossBasicCalls fuel (fun call solver => freely ∨ OnlyGivesValues call solver)
      fun before after : Solver τ =>
        before.Coherent → after.Coherent ∧ Updated freely before after where
  calls allowed calls := allowed.imp_right fun limited => limited.calls calls
  refl _ coherent := ⟨coherent, .refl⟩
  trans first second coherent := by
    obtain ⟨coherent, updates⟩ := first coherent
    obtain ⟨coherent, further⟩ := second coherent
    exact ⟨coherent, updates.trans further⟩
  aside solver counters status coherent :=
    ⟨(coherent_acrossBasicCalls fuel).aside solver counters status coherent, .refl⟩
  basic allowed basic := Preserves.under fun coherent =>
    (Call.coherent basic coherent fuel).and
      (updated_basic basic (allowed.imp_right OnlyGivesValues.gives) coherent.assignment fuel)
  consulted _ _ _ coherent :=
    ⟨⟨coherent.assignment, coherent.supports, coherent.registered⟩, .refl⟩
  returned allowed stored aims retreats coherent := by
    have free := allowed.resolve_right fun limited => limited.gives
    have updated : Updated freely _ _ := (updated_retreat free _).of_ok retreats
    exact ⟨(coherent_acrossBasicCalls fuel).returned trivial stored aims retreats coherent, updated⟩

end Solver

/-- Whatever else is asked of a solver updates its assignment. -/
theorem Operation.updated (operation : Operation τ) (builds : ¬operation.Builds)
    {solver : Solver τ} (coherent : solver.Coherent) :
    Preserves (Updated True solver) operation.perform solver := by
  refine (operation.acrossBasicCalls (Solver.updated_acrossBasicCalls True)
    (fun _ _ => .inl trivial) ?_ ?_ ?_ builds solver).imp fun _ updated => (updated coherent).2
  · exact fun state level => Preserves.under fun coherent =>
      (coherent.preserved (alters_retreat level)).and (updated_retreat trivial level)
  · exact fun state clause source => Preserves.under fun coherent =>
      (coherent.stored clause source).and
        (updated_storeClause trivial coherent.assignment clause source)
  · exact fun state key => Preserves.under fun coherent =>
      (coherent.preserved (alters_watchClause key)).and
        (updated_watchClause trivial coherent.assignment key)

/-! ## Every queue is ranked -/

theorem Solver.Extended.ranked {before after : Solver τ} (extended : Extended before after)
    (ranked : before.vars.Ranked) : after.vars.Ranked := by
  cases extended with
  | same => exact ranked
  | withVariable name sort => exact ranked.push name sort
  | withTheoryAtom known => exact ranked
  | withClause fitting => exact ranked

/-- The queue of a solver is ranked whatever was done to it. -/
theorem Reached.ranked {allowed : Solver τ → Operation τ → Prop} {configuration : Configuration}
    {solver : Solver τ} (reached : Reached allowed configuration solver) : solver.vars.Ranked := by
  refine @Reached.induct τ _ allowed configuration (fun solver => solver.vars.Ranked)
    (LazyQueue.ranked_empty _) ?_ solver reached
  intro solver operation reached ranked _
  by_cases builds : operation.Builds
  · exact operation.preserves_of_builds builds fun rest extended => extended.ranked ranked
  · exact (operation.updated builds reached.coherent).imp fun rest updated => updated.ranked ranked

end ModelSearch
