import ModelSearch.Proofs.Actions.Records
import ModelSearch.Proofs.Conflicts.Resolution

/-!
# Reading the record of resolutions

The events of a search tell which clauses an analysis resolved with, but not on which
literals.  A reader who has the stored clauses can find out: a resolution is read only if
a single literal allows it.  A derived clause is accepted if the resolutions told before
lead to it, and a clause that is used as it is only if there were none.
-/

namespace ModelSearch

/-! ## Pivots -/

/-- The literal on which a clause can be resolved with another: the only one whose
negation occurs there. -/
def Clause.pivot? (clause cause : Clause) : Option Literal :=
  match clause.literals.filter fun literal => decide (-literal ∈ cause) with
  | [literal] => some literal
  | _ => none

theorem Clause.pivot?_eq_some {clause cause : Clause} {pivot : Literal} :
    clause.pivot? cause = some pivot ↔ pivot ∈ clause ∧ -pivot ∈ cause ∧
      ∀ literal ∈ clause, -literal ∈ cause → literal = pivot := by
  have listed : ∀ literal, literal ∈ (clause.literals.filter fun literal =>
      decide (-literal ∈ cause)) ↔ literal ∈ clause ∧ -literal ∈ cause := by
    intro literal
    rw [List.mem_filter, decide_eq_true_iff]
    rfl
  unfold pivot?
  constructor
  · intro found
    split at found
    · next literal shape =>
        obtain rfl := Option.some.inj found
        rw [shape] at listed
        obtain ⟨member, negated⟩ := (listed literal).mp List.mem_cons_self
        exact ⟨member, negated, fun other inside opposed =>
          List.mem_singleton.mp ((listed other).mpr ⟨inside, opposed⟩)⟩
    · cases found
  · rintro ⟨member, negated, only⟩
    have same : (clause.literals.filter fun literal => decide (-literal ∈ cause)) =
        clause.literals.filter fun literal => decide (literal = pivot) := by
      refine List.filter_congr fun literal inside => ?_
      exact decide_eq_decide.mpr ⟨only literal inside, by rintro rfl; exact negated⟩
    have once := List.count_eq_one_of_mem (nodup_of_ascending clause.ascending) member
    rw [same, List.filter_eq, once]
    rfl

/-! ## The reader -/

/-- The event is told once a search is over. -/
def Event.closes : Event → Bool
  | .statistic _ _ | .elapsed _ | .reported _ | .finished => true
  | _ => false

/-- How far the reader has come. -/
inductive Phase where
  /-- No analysis is open. -/
  | idle
  /-- An analysis has come to a clause, by so many resolutions. -/
  | resolving (clause : Clause) (count : Nat)
  /-- An analysis has ended with a clause, after so many resolutions. -/
  | ended (clause : Clause) (count : Nat)
  deriving Repr, DecidableEq

namespace ClauseStore

variable {clauses later : ClauseStore}

/-- Reads one event. -/
def audit (clauses : ClauseStore) : Phase → Event → Option Phase
  | .idle, .analysisBegun key => (clauses.clause? key).map fun clause => .resolving clause 0
  | .idle, event => if event.ofAnalysis then none else some .idle
  | .resolving clause count, .resolvedWith key => do
      let cause ← clauses.clause? key
      let pivot ← clause.pivot? cause
      return .resolving (clause.resolve cause pivot) (count + 1)
  | .resolving clause count, .analysisEnded => some (.ended clause count)
  | .resolving _ _, _ => none
  | .ended clause count, .derived key =>
      if clauses.clause? key = some clause ∧ 0 < count then some .idle else none
  | .ended _ count, .backjump _ _ _ => if count = 0 then some .idle else none
  | .ended clause count, event => if event.closes then some (.ended clause count) else none

/-- Reads events in order, from some phase. -/
def audits (clauses : ClauseStore) (phase : Phase) (events : List Event) : Option Phase :=
  events.foldlM clauses.audit phase

theorem audits_append {phase middle last : Phase} {events told : List Event}
    (first : clauses.audits phase events = some middle)
    (second : clauses.audits middle told = some last) :
    clauses.audits phase (events ++ told) = some last := by
  unfold audits at *
  rw [List.foldlM_append, first]
  exact second

/-- While no analysis is open, other events are passed over. -/
theorem audits_aside {events : List Event}
    (aside : ∀ event ∈ events, event.ofAnalysis = false) :
    clauses.audits .idle events = some .idle := by
  induction events with
  | nil => rfl
  | cons event events induction =>
      have plain := aside event List.mem_cons_self
      have read : clauses.audit .idle event = some .idle := by
        cases event <;> first | rfl | cases plain
      unfold audits at induction ⊢
      rw [List.foldlM_cons, read]
      exact induction fun other inside => aside other (List.mem_cons_of_mem _ inside)

/-- The last analysis stands when the search is over. -/
theorem audits_closing {clause : Clause} {count : Nat} {events : List Event}
    (closing : ∀ event ∈ events, event.closes = true) :
    clauses.audits (.ended clause count) events = some (.ended clause count) := by
  induction events with
  | nil => rfl
  | cons event events induction =>
      have last := closing event List.mem_cons_self
      have read : clauses.audit (.ended clause count) event = some (.ended clause count) := by
        cases event <;> first | rfl | cases last
      unfold audits at induction ⊢
      rw [List.foldlM_cons, read]
      exact induction fun other inside => closing other (List.mem_cons_of_mem _ inside)

private theorem audit_mono (more : ∀ key clause, clauses.clause? key = some clause →
    later.clause? key = some clause) {phase next : Phase} {event : Event}
    (read : clauses.audit phase event = some next) : later.audit phase event = some next := by
  unfold audit at read ⊢
  split at read
  · obtain ⟨clause, stored, same⟩ := Option.map_eq_some_iff.mp read
    exact Option.map_eq_some_iff.mpr ⟨clause, more _ _ stored, same⟩
  · exact read
  · obtain ⟨cause, stored, found⟩ := Option.bind_eq_some_iff.mp read
    exact Option.bind_eq_some_iff.mpr ⟨cause, more _ _ stored, found⟩
  · exact read
  · cases read
  · split at read
    · next accepted =>
        rw [if_pos ⟨more _ _ accepted.1, accepted.2⟩]
        exact read
    · cases read
  all_goals exact read

/-- What was read stands when further clauses are stored. -/
theorem audits_mono (more : ∀ key clause, clauses.clause? key = some clause →
    later.clause? key = some clause) {phase last : Phase} {events : List Event}
    (read : clauses.audits phase events = some last) : later.audits phase events = some last := by
  induction events generalizing phase with
  | nil => exact read
  | cons event events induction =>
      unfold audits at read induction ⊢
      rw [List.foldlM_cons] at read ⊢
      obtain ⟨middle, first, second⟩ := Option.bind_eq_some_iff.mp read
      rw [audit_mono more first]
      exact induction second

end ClauseStore

/-! ## What an analysis does -/

/-- The resolutions of an analysis, from one clause to another: each on the latest
implied literal, with its reason, and on no other literal possible. -/
inductive Assignment.Resolved (assignment : Assignment) :
    Clause → List ClauseKey → Clause → Prop
  | none (clause : Clause) : Resolved assignment clause [] clause
  | step {clause cause final : Clause} {literal : Literal} {key : ClauseKey}
      {used : List ClauseKey}
      (latest : assignment.trail.latestImplied? clause = some (literal, key))
      (stored : assignment.clauses.clause? key = some cause)
      (pivot : clause.pivot? cause = some literal)
      (resolved : Resolved assignment (clause.resolve cause literal) used final) :
      Resolved assignment clause (key :: used) final

/-- All literals of the clause are of level zero, and none of them follows from a
clause. -/
def Assignment.Groundless (assignment : Assignment) (clause : Clause) : Prop :=
  ∀ literal ∈ clause, assignment.trail.level? literal.atom = some 0 ∧
    ∀ key, assignment.trail.reason? literal.atom ≠ some (.clause key)

theorem Assignment.Conflicting.groundless {assignment : Assignment} {clause : Clause}
    (conflicting : assignment.Conflicting clause) {top : TopLiterals}
    (tops : assignment.trail.Tops clause top) (zero : top.level = 0)
    (unimplied : assignment.trail.latestImplied? clause = none) :
    assignment.Groundless clause := by
  intro literal member
  obtain ⟨level, levelled⟩ := conflicting.valued member
  have below := tops.bounded literal member level levelled
  rw [zero] at below
  refine ⟨by rw [levelled, Nat.le_zero.mp below], fun key follows => ?_⟩
  obtain ⟨entry, found, reason⟩ := Option.map_eq_some_iff.mp follows
  exact Trail.latestImplied?_eq_none unimplied literal member entry found key reason

/-- The resolutions are read as they were made. -/
theorem Assignment.Resolved.audits {assignment : Assignment} {clause final : Clause}
    {used : List ClauseKey} (resolved : assignment.Resolved clause used final) (count : Nat) :
    assignment.clauses.audits (.resolving clause count) (used.map .resolvedWith) =
      some (.resolving final (count + used.length)) := by
  induction resolved generalizing count with
  | none clause => rfl
  | @step clause cause final literal key used latest stored pivot _ induction =>
      have read : assignment.clauses.audit (.resolving clause count) (.resolvedWith key) =
          some (.resolving (clause.resolve cause literal) (count + 1)) := by
        simp only [ClauseStore.audit, stored, pivot, Option.bind_eq_bind, Option.bind_some]
        rfl
      have rest := induction (count + 1)
      rw [Nat.add_right_comm] at rest
      unfold ClauseStore.audits at rest ⊢
      rw [List.map_cons, List.foldlM_cons, read]
      exact rest

namespace Solver

variable {τ : Type} [TheoryAtom τ] {rules : Rules τ} {origin solver : Solver τ} {clause : Clause}

omit [TheoryAtom τ] in
/-- The reason of a false literal has its negation, and that of no other false literal. -/
theorem Reasoned.pivot (reasoned : solver.Reasoned) (conflicting : solver.Conflicting clause)
    {literal : Literal} {key : ClauseKey}
    (latest : solver.trail.latestImplied? clause = some (literal, key)) {cause : Clause}
    (stored : solver.clauses.clause? key = some cause) : clause.pivot? cause = some literal := by
  obtain ⟨member, entry, found, reason, _⟩ := Trail.latestImplied?_eq_some latest
  obtain ⟨again, storedAgain, negated, others⟩ :=
    (reasoned.explained _ _ _ found reason).negation found (conflicting.falsified _ member)
  obtain rfl := Option.some.inj (stored.symm.trans storedAgain)
  refine Clause.pivot?_eq_some.mpr ⟨member, negated, fun other inside opposed => ?_⟩
  by_contra different
  have apart : -other ≠ -literal := fun same => different <| by
    have negations := congrArg Literal.negate same
    exact (Literal.negate_negate other).symm.trans (negations.trans (Literal.negate_negate literal))
  obtain ⟨otherEntry, otherFound, value, _⟩ := others (-other) opposed apart
  -- The literal would be true by its own falsity and false by its part in the reason.
  obtain ⟨sameEntry, sameFound, falsified⟩ := (conflicting.falsified _ inside).entry
  obtain rfl := Option.some.inj (otherFound.symm.trans sameFound)
  rw [value] at falsified
  exact Bool.not_ne_self _ (Value.boolean.inj falsified)

omit [TheoryAtom τ] in
/-- Resolutions end with implied literals that are no later than before. -/
theorem Reasoned.shallow (reasoned : solver.Reasoned) (sound : solver.trail.Sound)
    {used : List ClauseKey} {final : Clause} (resolved : solver.Resolved clause used final)
    (conflicting : solver.Conflicting clause) {height : Nat}
    (shallow : solver.Shallow clause height) : solver.Shallow final height := by
  induction resolved generalizing height with
  | none clause => exact shallow
  | @step clause cause final literal key used latest stored _ _ induction =>
      obtain ⟨again, entry, storedAgain, found, reason, member, resolved, lower⟩ :=
        reasoned.resolve sound conflicting latest
      obtain rfl := Option.some.inj (stored.symm.trans storedAgain)
      have below := shallow literal member entry found key reason
      refine induction resolved fun other inside otherEntry otherFound otherKey otherReason => ?_
      have rank := lower other inside otherEntry otherFound otherKey otherReason
      omega

omit [TheoryAtom τ] in
/-- Once it has been resolved a clause does not come back. -/
theorem Reasoned.resolved_ne (reasoned : solver.Reasoned) (sound : solver.trail.Sound)
    {key : ClauseKey} {used : List ClauseKey} {final : Clause}
    (resolved : solver.Resolved clause (key :: used) final)
    (conflicting : solver.Conflicting clause) : final ≠ clause := by
  cases resolved with
  | @step _ cause _ literal _ _ latest stored _ resolved =>
      obtain ⟨again, entry, storedAgain, found, reason, member, conflicted, lower⟩ :=
        reasoned.resolve sound conflicting latest
      obtain rfl := Option.some.inj (stored.symm.trans storedAgain)
      rintro rfl
      have rank := reasoned.shallow sound resolved conflicted lower literal member entry found key
        reason
      exact Nat.lt_irrefl _ rank

omit [TheoryAtom τ] in
/-- Resolutions come back to the conflict if there are none. -/
theorem Reasoned.resolved_eq_iff (reasoned : solver.Reasoned) (sound : solver.trail.Sound)
    {used : List ClauseKey} {final : Clause} (resolved : solver.Resolved clause used final)
    (conflicting : solver.Conflicting clause) : final = clause ↔ used = [] := by
  constructor
  · intro same
    cases used with
    | nil => rfl
    | cons key used => exact absurd same (reasoned.resolved_ne sound resolved conflicting)
  · rintro rfl
    cases resolved
    rfl

/-- Only events were added. -/
structure Tells (before after : Solver τ) (events : List Event) : Prop where
  assignment : after.toAssignment = before.toAssignment
  events : after.events.toList = before.events.toList ++ events

omit [TheoryAtom τ] in
theorem Tells.refl (solver : Solver τ) : Tells solver solver [] :=
  ⟨rfl, (List.append_nil _).symm⟩

omit [TheoryAtom τ] in
theorem Tells.trans {first second third : Solver τ} {events later : List Event}
    (left : Tells first second events) (right : Tells second third later) :
    Tells first third (events ++ later) where
  assignment := right.assignment.trans left.assignment
  events := by rw [right.events, left.events, List.append_assoc]

omit [TheoryAtom τ] in
theorem ends_emit {broken : Fault → Solver τ → Prop} (event : Event) :
    Ends (emit event) solver (fun _ rest => Tells solver rest [event]) broken :=
  ⟨rfl, Array.toList_push⟩

omit [TheoryAtom τ] in
/-- An analysis tells of all its resolutions, and arrives where they lead; only what
rests on nothing is given up for the empty clause. -/
theorem ends_resolveToBackjump (coherent : solver.toAssignment.Coherent)
    (reasoned : solver.Reasoned) (conflicting : solver.Conflicting clause) (steps : Nat) :
    Ends (resolveToBackjump steps clause) solver
      (fun answer rest => ∃ used final, Tells solver rest (used.map .resolvedWith) ∧
        solver.Resolved clause used final ∧
          (answer = final ∨ answer = ∅ ∧ solver.Groundless final))
      (fun _ rest => ∃ used final, Tells solver rest (used.map .resolvedWith) ∧
        solver.Resolved clause used final) := by
  induction steps generalizing solver clause with
  | zero => exact ⟨[], clause, .refl solver, .none clause⟩
  | succ steps induction =>
      have nothing := Tells.refl solver
      unfold resolveToBackjump
      by_cases bare : clause.isEmpty = true
      · rw [if_pos bare]
        exact ⟨[], clause, nothing, .none clause, .inl rfl⟩
      · rw [if_neg bare]
        have nonempty : clause.isEmpty = false := by simpa using bare
        obtain ⟨top, answer, tops⟩ := Trail.topLiterals_spec nonempty
          fun _ => conflicting.valued
        simp only [ends_bind, ends_get, answer]
        show Ends (if _ then _ else _) solver _ _
        by_cases usable : solver.trail.isBackjumpable top = true
        · rw [if_pos usable]
          exact ⟨[], clause, nothing, .none clause, .inl rfl⟩
        · rw [if_neg usable]
          cases latest : solver.trail.latestImplied? clause with
          | none =>
              dsimp only
              by_cases zero : top.level = 0
              · rw [if_pos zero]
                have groundless := conflicting.groundless tops zero latest
                exact ⟨[], clause, nothing, .none clause, .inr ⟨rfl, groundless⟩⟩
              · rw [if_neg zero]
                exact ⟨[], clause, nothing, .none clause⟩
          | some pivot =>
              obtain ⟨literal, key⟩ := pivot
              obtain ⟨cause, entry, stored, found, reason, member, resolved, lower⟩ :=
                reasoned.resolve coherent.trail conflicting latest
              have step : ∀ {used : List ClauseKey} {final : Clause},
                  solver.Resolved (clause.resolve cause literal) used final →
                    solver.Resolved clause (key :: used) final :=
                .step latest stored (reasoned.pivot conflicting latest stored)
              refine (ends_known (clause_of_stored stored)).mpr ?_
              refine Ends.bind (ends_emit (.resolvedWith key)) (fun _ told first => ?_)
                fun _ _ => id
              have same := first.assignment
              have reasonedTold : told.Reasoned :=
                reasoned.congr (by rw [same]) fun _ _ => by rw [same]; exact id
              rw [← same] at coherent resolved
              have ends := induction coherent reasonedTold resolved
              rw [same] at ends
              refine ends.mono ?_ ?_
              · rintro answer rest ⟨used, final, tells, resolved, ends⟩
                exact ⟨key :: used, final, first.trans tells, step resolved, ends⟩
              · rintro fault rest ⟨used, final, tells, resolved⟩
                exact ⟨key :: used, final, first.trans tells, step resolved⟩

omit [TheoryAtom τ] in
theorem ends_explain (coherent : solver.toAssignment.Coherent) (reasoned : solver.Reasoned)
    {conflict : ClauseKey} (stored : solver.clauses.clause? conflict = some clause)
    (falsified : ∀ literal ∈ clause, solver.Falsifies literal) (fuel : Nat) :
    Ends (explain fuel conflict) solver
      (fun answer rest => ∃ used final,
        Tells solver rest
          (.analysisBegun conflict :: (used.map .resolvedWith ++ [.analysisEnded])) ∧
        solver.Resolved clause used final ∧
          (answer = final ∨ answer = ∅ ∧ solver.Groundless final))
      (fun _ rest => ∃ used final,
        Tells solver rest (.analysisBegun conflict :: used.map .resolvedWith) ∧
          solver.Resolved clause used final) := by
  have conflicting : solver.Conflicting clause := ⟨Assignment.derives_stored stored, falsified⟩
  unfold explain
  refine Ends.bind (ends_emit (.analysisBegun conflict)) (fun _ begun first => ?_) fun _ _ => id
  have same := first.assignment
  have reasonedBegun : begun.Reasoned :=
    reasoned.congr (by rw [same]) fun _ _ => by rw [same]; exact id
  rw [← same] at coherent conflicting stored ⊢
  refine (ends_known (clause_of_stored stored)).mpr ?_
  refine Ends.bind (ends_resolveToBackjump coherent reasonedBegun conflicting fuel) ?_ ?_
  · rintro answer resolved ⟨used, final, second, ends⟩
    refine Ends.bind (ends_emit .analysisEnded) (fun _ rest third => ?_) fun _ _ => id
    exact ⟨used, final, (first.trans second).trans third, ends⟩
  · rintro fault rest ⟨used, final, second, ends⟩
    exact ⟨used, final, first.trans second, ends⟩

end Solver

end ModelSearch
