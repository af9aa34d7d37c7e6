import ModelSearch.Proofs.Events.Ledgers
import ModelSearch.Proofs.Theory.Consultations

/-!
# The record replays at every moment

A search tells an event each time it has done something to the trail, and of other things
in between.  Whatever has been told so far replays to the trail as it is at that moment.
No event comes about in any other way: after each event of the record there was such a
moment.
-/

namespace ModelSearch

open Solver

variable {τ : Type} [TheoryAtom τ] {fuel : Nat} {origin solver before middle after : Solver τ}

/-! ## Moments -/

/-- A search that begins with the solver has just told an event.  A basic call does all
it does before it tells the first of its events. -/
inductive Moment (fuel : Nat) (origin : Solver τ) : Solver τ → Prop
  | basic {call : Call} {state rest : Solver τ} {events : Array Event}
      (clocked : Clocked fuel origin call state) (basic : call.Basic)
      (leaves : Leaves fuel call state rest) (tells : state.events.size < events.size)
      (begun : state.events.toList <+: events.toList)
      (within : events.toList <+: rest.events.toList) : Moment fuel origin { rest with events }
  | consulted {state : Solver τ} {key : TheoryKey} {unassigned : VariableKey} {atom : τ}
      {units : List (TheoryKey × VariableKey)}
      (clocked : Clocked fuel origin (.consultAtoms ((key, unassigned) :: units)) state)
      (unvalued : state.trail.get? (.var unassigned) = none)
      (present : state.theoryAtoms[key]? = some atom) :
      Moment fuel origin (telling (.consulted (.theory key) unassigned) state)
  | returned {state cut : Solver τ} {key : ClauseKey} {clause : Clause} {target : Nat}
      {kind : BackjumpKind} (clocked : Clocked fuel origin (.backjump key) state)
      (stored : state.clauses.clause? key = some clause)
      (aims : state.trail.backjumpTarget clause = .ok (target, kind))
      (retreats : retreat target state = .ok ⟨⟩ cut) :
      Moment fuel origin (telling (.backjump state.trail.level target kind) cut)

/-! ## Replaying -/

theorem replays_acrossBasicCalls (fuel : Nat) : AcrossBasicCalls fuel (fun _ _ => True)
    fun before after : Solver τ => Replays before → Replays after where
  calls _ _ := trivial
  refl _ := id
  trans first second := second ∘ first
  aside _ _ _ replays := ⟨replays.sound, replays.replayed⟩
  basic _ basic := (reportsTrail_basic basic fuel).imp fun _ reports replays =>
    replays.reported reports
  consulted _ _ _ replays := replays.consulted _ _
  returned _ _ _ retreats replays := replays.reported (reportsTrail_returned retreats)

/-- Also a level that is about to be opened finds the record complete. -/
theorem Clocked.replays {call : Call} {state : Solver τ} (clocked : Clocked fuel origin call state)
    (basic : call.Basic) (begun : Replays origin) : Replays state := by
  have across : AcrossBasicCalls fuel (fun _ _ => True) fun before after : Solver τ =>
      Replays before → Replays after := replays_acrossBasicCalls fuel
  have whole : ∀ {call : Call} {state : Solver τ}, Clocked fuel origin call state → call.Whole →
      Replays state :=
    fun clocked whole => across.clocked (fun _ => trivial) clocked whole begun
  cases call with
  | decide atom value =>
      cases clocked with
      | call clocked calls =>
          cases calls with
          | request => exact whole clocked trivial
          | split stored aims retreats =>
              exact (whole clocked trivial).reported (reportsTrail_returned retreats)
          | decide possible popped present =>
              have replays := whole clocked trivial
              exact ⟨replays.sound, replays.replayed⟩
  | evaluateAtom | propagateLiteral | assignImplied | offerLemma | explain | storeExplanation
  | learn | makeDecision | endSearch => exact whole clocked trivial
  | _ => exact basic.elim

/-- There is a moment when a basic call that tells anything is over. -/
theorem Leaves.moment {call : Call} {state rest : Solver τ} (leaves : Leaves fuel call state rest)
    (clocked : Clocked fuel origin call state) (basic : call.Basic)
    (tells : state.events.size < rest.events.size) : Moment fuel origin rest :=
  .basic clocked basic leaves tells
    (leaves.of_preserves (reportsTrail_basic basic fuel)).events_retained
    List.prefix_rfl

/-- What was done is the same when only some of it has been told. -/
theorem ReportsTrail.partly {events : Array Event} (reports : ReportsTrail before after)
    (tells : before.events.size < events.size)
    (begun : before.events.toList <+: events.toList)
    (within : events.toList <+: after.events.toList) :
    ReportsTrail before { after with events } := by
  cases reports with
  | changed change theoryAtoms single =>
      have all : events.toList = after.events.toList := by
        refine within.eq_of_length_le ?_
        rw [Array.length_toList, Array.length_toList, single, Array.size_push]
        exact tells
      exact .changed change theoryAtoms ((Array.toList_inj.mp all).trans single)
  | kept keeps =>
      obtain ⟨told, all, aside⟩ := keeps.events
      obtain ⟨some, events⟩ := begun
      rw [← events, all, List.prefix_append_right_inj] at within
      exact .kept ⟨keeps.trail, keeps.theoryAtoms, some, events.symm,
        fun event inside => aside event (within.subset inside)⟩

theorem Moment.replays {moment : Solver τ} (told : Moment fuel origin moment)
    (begun : Replays origin) : Replays moment := by
  cases told with
  | basic clocked basic leaves tells beginning within =>
      have reports := leaves.of_preserves (reportsTrail_basic basic fuel)
      exact (clocked.replays basic begun).reported (reports.partly tells beginning within)
  | consulted clocked unvalued present =>
      have replays :=
        (replays_acrossBasicCalls fuel).clocked (fun _ => trivial) clocked trivial begun
      exact replays.consulted _ _
  | returned clocked stored aims retreats =>
      have replays :=
        (replays_acrossBasicCalls fuel).clocked (fun _ => trivial) clocked trivial begun
      exact replays.reported (reportsTrail_returned retreats)

/-! ## No event without its moment -/

/-- Events were added, each at a moment of the search. -/
structure Recorded (fuel : Nat) (origin before after : Solver τ) : Prop where
  kept : before.events.toList <+: after.events.toList
  moments : ∀ count, before.events.size < count → count ≤ after.events.size →
    ∃ moment, Moment fuel origin moment ∧
      moment.events.toList = after.events.toList.take count

namespace Recorded

theorem silent (events : after.events = before.events) : Recorded fuel origin before after where
  kept := events ▸ List.prefix_rfl
  moments count more most := by
    rw [events] at most
    exact absurd (Nat.lt_of_lt_of_le more most) (Nat.lt_irrefl _)

theorem trans (first : Recorded fuel origin before middle)
    (second : Recorded fuel origin middle after) : Recorded fuel origin before after where
  kept := first.kept.trans second.kept
  moments count more most := by
    rcases Nat.lt_or_ge middle.events.size count with later | earlier
    · exact second.moments count later most
    · obtain ⟨moment, told, events⟩ := first.moments count more earlier
      refine ⟨moment, told, ?_⟩
      obtain ⟨further, grown⟩ := second.kept
      rw [events, ← grown, List.take_append_of_le_length]
      rwa [Array.length_toList]

/-- A single event, told at a moment. -/
theorem single {event : Event} (told : Moment fuel origin after)
    (events : after.events = before.events.push event) :
    Recorded fuel origin before after where
  kept := by
    rw [events, Array.toList_push]
    exact List.prefix_append _ _
  moments count more most := by
    refine ⟨after, told, ?_⟩
    rw [List.take_of_length_le]
    rw [Array.length_toList, events, Array.size_push]
    exact more

end Recorded

theorem recorded_acrossBasicCalls (fuel : Nat) (origin : Solver τ) :
    AcrossBasicCalls fuel (Clocked fuel origin) (Recorded fuel origin) where
  calls := .call
  refl _ := .silent rfl
  trans := .trans
  aside _ _ _ := .silent rfl
  basic := by
    intro call state clocked basic
    refine Leaves.preserves fun rest leaves => ?_
    have kept := (leaves.of_preserves (reportsTrail_basic basic fuel)).events_retained
    refine ⟨kept, fun count more most => ?_⟩
    have size : (rest.events.toList.take count).toArray.size = count := by
      rw [List.size_toArray, List.length_take, Array.length_toList, Nat.min_eq_left most]
    refine ⟨_, .basic clocked basic leaves (size.symm ▸ more) ?_ (List.take_prefix _ _), rfl⟩
    refine List.prefix_take_iff.mpr ⟨kept, ?_⟩
    rw [Array.length_toList]
    exact Nat.le_of_lt more
  consulted clocked unvalued present := .single (.consulted clocked unvalued present) rfl
  returned clocked stored aims retreats :=
    .single (.returned clocked stored aims retreats) (by rw [telling, events_retreat retreats])

/-! ## Searches from the beginning -/

/-- Stating a formula tells nothing of the trail. -/
theorem Stated.aside {configuration : Configuration} (stated : Stated configuration solver) :
    ∀ event ∈ solver.events.toList, event.onTrail = false := by
  refine stated.induct ?_ (fun _ _ _ aside => aside) (fun _ _ aside => aside) ?_
  · exact fun _ inside => absurd inside List.not_mem_nil
  · intro solver clause aside event inside
    rw [Solver.withClause, Array.toList_push] at inside
    rcases List.mem_append.mp inside with former | last
    · exact aside event former
    · rw [List.mem_singleton.mp last]
      rfl

theorem ledger_empty : (∅ : Trail).ledger = {} := by
  have bare : (∅ : Trail).toList = [] :=
    Trail.sound_empty.toList_eq .nil fun atom entry => by simp
  unfold Trail.ledger
  rw [bare]
  rfl

theorem Stated.replays {configuration : Configuration} (stated : Stated configuration solver) :
    Replays solver := by
  have untouched := stated.ready.untouched
  refine ⟨untouched ▸ Trail.sound_empty, ?_⟩
  rw [untouched, ledger_empty]
  exact Ledger.reads_aside _ stated.aside

/-- After every event that a search tells, the record replays to the trail, and the record
consists of events that were told at such moments. -/
theorem record_replays {configuration : Configuration} (stated : Stated configuration origin)
    (fuel : Nat) :
    (∀ moment, Moment fuel origin moment →
      Ledger.replay moment.supports moment.events.toList = some moment.trail.ledger) ∧
    ∀ call state rest, Clocked fuel origin call state → call.Whole → Leaves fuel call state rest →
      Recorded fuel origin origin rest := by
  refine ⟨fun moment told => (told.replays stated.replays).replayed, ?_⟩
  intro call state rest clocked whole leaves
  have across := recorded_acrossBasicCalls fuel origin
  exact (across.clocked id clocked whole).trans (leaves.of_preserves (across.whole whole clocked))

/-! ## An evaluation after a pick -/

namespace Bound

/-- The second bound of the hasty formula was evaluated with the number that was picked
for the first. -/
def hastyRefusal : Solver Bound := left (Solver.evaluateAtom 1) hastyPick

/-- The second bound has just been found not to hold, and the record tells how. -/
theorem hastyRefusal_replays : Moment 10 hastyFormula hastyRefusal ∧
    hastyRefusal.trail.truth? (.theory 1) = some false ∧
      Ledger.replay hastyRefusal.supports hastyRefusal.events.toList =
        some hastyRefusal.trail.ledger ∧
      Recorded 10 hastyFormula hastyFormula hastyRefusal := by
  obtain ⟨replays, recorded⟩ := record_replays stated_hastyFormula 10
  have listed : hastyPick.evaluable = [1] := by decide +kernel
  have evaluating : Clocked 10 hastyFormula (.evaluateAtoms [1]) hastyPick :=
    listed ▸ .call (.call clocked_hastyPass.2 .evaluateTheory) .evaluateAtoms
  have evaluated : answer? (Solver.evaluateAtom 1) hastyPick = some ⟨⟩ := by decide +kernel
  have leaves : Leaves 10 (.evaluateAtom 1) hastyPick hastyRefusal :=
    .answered (ok_of_answer evaluated)
  have one : hastyRefusal.events.size = hastyPick.events.size + 1 := by decide +kernel
  have moment : Moment 10 hastyFormula hastyRefusal :=
    leaves.moment (.call evaluating .evaluateAtom) trivial (one ▸ Nat.lt_succ_self _)
  exact ⟨moment, by decide +kernel, replays _ moment,
    recorded _ _ _ (.call evaluating .evaluateAtom) trivial leaves⟩

end Bound

end ModelSearch
