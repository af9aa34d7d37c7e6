import ModelSearch.Proofs.Calls.AcrossBasicCalls

/-!
# What events tell of the trail

A basic call of a search either leaves the trail alone, and tells of other things, or
does one thing to the trail and then tells it by one event.  The event does not say all:
for an evaluation the level has to be found from the levels of the variables, and for
the removal of levels it names the levels but not the atoms.
-/

namespace ModelSearch

/-- The event tells of a change of the trail. -/
def Event.onTrail : Event → Bool
  | .decision _ _ | .clausal _ _ | .semantic _ _ | .backjump _ _ _ => true
  | _ => false

/-- The event tells neither of a change of the trail nor of a consultation. -/
def Event.isAside : Event → Bool
  | .decision _ _ | .clausal _ _ | .semantic _ _ | .backjump _ _ _ | .consulted _ _ => false
  | _ => true

theorem Event.onTrail_of_isAside {event : Event} (aside : event.isAside = true) :
    event.onTrail = false := by
  cases event <;> first | rfl | cases aside

variable {τ : Type}

/-- The trail was left alone, and other things were told. -/
structure KeepsTrail (before after : Solver τ) : Prop where
  trail : after.trail = before.trail
  theoryAtoms : after.theoryAtoms = before.theoryAtoms
  events : ∃ told, after.events.toList = before.events.toList ++ told ∧
    ∀ event ∈ told, event.isAside = true

namespace KeepsTrail

variable {before middle after : Solver τ}

theorem silent (trail : after.trail = before.trail)
    (theoryAtoms : after.theoryAtoms = before.theoryAtoms)
    (events : after.events = before.events) : KeepsTrail before after :=
  ⟨trail, theoryAtoms, [], by rw [events, List.append_nil], by rintro _ ⟨⟩⟩

theorem refl (solver : Solver τ) : KeepsTrail solver solver := silent rfl rfl rfl

theorem trans (first : KeepsTrail before middle) (second : KeepsTrail middle after) :
    KeepsTrail before after where
  trail := second.trail.trans first.trail
  theoryAtoms := second.theoryAtoms.trans first.theoryAtoms
  events := by
    obtain ⟨told, events, aside⟩ := first.events
    obtain ⟨later, last, asideLater⟩ := second.events
    refine ⟨told ++ later, by rw [last, events, List.append_assoc], fun event inside => ?_⟩
    exact (List.mem_append.mp inside).elim (aside event) (asideLater event)

theorem told {event : Event} (trail : after.trail = before.trail)
    (theoryAtoms : after.theoryAtoms = before.theoryAtoms)
    (events : after.events = before.events.push event) (aside : event.isAside = true) :
    KeepsTrail before after := by
  refine ⟨trail, theoryAtoms, [event], by rw [events, Array.toList_push], fun other inside => ?_⟩
  rw [List.mem_singleton.mp inside, aside]

end KeepsTrail

variable [TheoryAtom τ]

/-- What the event tells makes this of the trail. -/
inductive TrailChange (before : Solver τ) : Event → Trail → Prop
  | decision {atom : Atom} {value : Value} (unvalued : before.trail.get? atom = none) :
      TrailChange before (.decision atom value)
        (before.trail.openLevel.push atom value .decided before.trail.openLevel.level)
  | clausal {literal : Literal} {key : ClauseKey}
      (unvalued : before.trail.get? literal.atom = none) :
      TrailChange before (.clausal literal key)
        (before.trail.push literal.atom (.boolean literal.polarity) (.clause key)
          before.trail.level)
  | implied {key : VariableKey} {value : Value} (unvalued : before.trail.get? (.var key) = none) :
      TrailChange before (.semantic (.var key) value)
        (before.trail.push (.var key) value .semantic before.trail.level)
  | evaluation {key : TheoryKey} {atom : τ} {truth : Bool}
      (present : before.theoryAtoms[key]? = some atom)
      (evaluated : TheoryAtom.evaluate atom before.values = some truth)
      (unvalued : before.trail.get? (.theory key) = none)
      (isOpen : Solver.greatestLevel before.trail (TheoryAtom.support atom) ≤ before.trail.level) :
      TrailChange before (.semantic (.theory key) (.boolean truth))
        (before.trail.push (.theory key) (.boolean truth) .semantic
          (Solver.greatestLevel before.trail (TheoryAtom.support atom)))
  | jump {target : Nat} {kind : BackjumpKind} (below : target < before.trail.level) :
      TrailChange before (.backjump before.trail.level target kind)
        (before.trail.clearAbove target).2
  | stay {target : Nat} {kind : BackjumpKind} (above : before.trail.level ≤ target) :
      TrailChange before (.backjump before.trail.level target kind) before.trail

/-- One thing was done to the trail and told, or none. -/
inductive ReportsTrail (before after : Solver τ) : Prop
  | changed {event : Event} (change : TrailChange before event after.trail)
      (theoryAtoms : after.theoryAtoms = before.theoryAtoms)
      (events : after.events = before.events.push event)
  | kept (keeps : KeepsTrail before after)

namespace ReportsTrail

variable {before after : Solver τ}

theorem events_retained (reports : ReportsTrail before after) :
    before.events.toList <+: after.events.toList := by
  cases reports with
  | changed change theoryAtoms events =>
      rw [events, Array.toList_push]
      exact List.prefix_append _ _
  | kept keeps =>
      obtain ⟨told, events, _⟩ := keeps.events
      rw [events]
      exact List.prefix_append _ _

/-- No consultation is told. -/
theorem consulted_before (reports : ReportsTrail before after) {index : Nat} {atom : Atom}
    {unassigned : VariableKey}
    (told : after.events[index]? = some (.consulted atom unassigned)) :
    index < before.events.size := by
  by_contra late
  rw [Nat.not_lt] at late
  rw [← Array.getElem?_toList] at told
  cases reports with
  | changed change theoryAtoms events =>
      rw [events, Array.toList_push, List.getElem?_append_right late] at told
      obtain rfl := List.mem_singleton.mp (List.mem_of_getElem? told)
      cases change
  | kept keeps =>
      obtain ⟨list, events, aside⟩ := keeps.events
      rw [events, List.getElem?_append_right late] at told
      cases aside _ (List.mem_of_getElem? told)

end ReportsTrail

namespace Solver

variable {solver rest : Solver τ}

/-! ## Basic calls -/

omit [TheoryAtom τ] in
/-- A value is given to a free atom, at an open level. -/
theorem setValue_cases (solver : Solver τ) (atom : Atom) (value : Value) (reason : Reason)
    (level : Nat) :
    (∃ abort, setValue atom value reason level solver = .error (.abort abort) solver) ∨
      solver.Free atom ∧ level ≤ solver.trail.level ∧
        setValue atom value reason level solver =
          .ok ⟨⟩ (solver.given atom value reason level) := by
  rw [setValue_eq, get_bind]
  cases refused : solver.setError? atom level with
  | some abort => exact .inl ⟨abort, rfl⟩
  | none =>
      obtain ⟨isOpen, empty, known⟩ := Assignment.setError?_eq_none.mp refused
      exact .inr ⟨⟨empty, known⟩, isOpen, rfl⟩

/-- A choice, after something that was done aside in silence. -/
theorem reportsTrail_decide (before : Solver τ) (trail : solver.trail = before.trail)
    (theoryAtoms : solver.theoryAtoms = before.theoryAtoms)
    (events : solver.events = before.events) (atom : Atom) (value : Value) :
    Preserves (ReportsTrail before) (decide atom value) solver := by
  by_cases free : solver.Free atom
  · have unvalued : before.trail.get? atom = none := trail ▸ free.unvalued
    have change : TrailChange before (.decision atom value) (solver.chosen atom value).trail := by
      show TrailChange before _ (solver.trail.openLevel.push atom value .decided
        solver.trail.openLevel.level)
      rw [trail]
      exact .decision unvalued
    exact (ends_decide free).mpr (.changed change theoryAtoms (by rw [events]))
  · obtain ⟨abort, rest, result⟩ := decide_of_not_free free value
    rw [Preserves, Ends, result]
    exact .inl ⟨abort, rfl⟩

theorem reportsTrail_propagateLiteral (key : ClauseKey) (literal : Literal) :
    Preserves (ReportsTrail solver) (propagateLiteral key literal) solver := by
  unfold propagateLiteral
  refine (ends_known rfl).mpr (ends_get_bind.mpr ?_)
  dsimp only
  split
  · exact .kept (.silent rfl rfl rfl)
  · exact .kept (.silent rfl rfl rfl)
  · rcases setValue_cases _ literal.atom _ _ _ with ⟨abort, result⟩ | ⟨free, isOpen, result⟩
    · exact (ends_broken result).mpr (.inl ⟨abort, rfl⟩)
    · refine (ends_known result).mpr ?_
      exact ReportsTrail.changed (.clausal free.unvalued) rfl rfl

theorem reportsTrail_assignImplied (key : VariableKey) (value : Value) :
    Preserves (ReportsTrail solver) (assignImplied key value) solver := by
  unfold assignImplied
  refine ends_get_bind.mpr ?_
  dsimp only
  split
  · exact .kept (.refl solver)
  · rcases setValue_cases solver (.var key) value .semantic solver.trail.level with
      ⟨abort, result⟩ | ⟨free, isOpen, result⟩
    · exact (ends_broken result).mpr (.inl ⟨abort, rfl⟩)
    · refine (ends_known result).mpr ?_
      exact ReportsTrail.changed (.implied free.unvalued) rfl rfl

theorem reportsTrail_evaluateAtom (key : TheoryKey) :
    Preserves (ReportsTrail solver) (evaluateAtom key) solver := by
  unfold evaluateAtom
  refine ends_get_bind.mpr ?_
  cases present : solver.theoryAtoms[key]? with
  | none => exact .kept (.refl solver)
  | some atom =>
      dsimp only
      cases evaluated : TheoryAtom.evaluate atom solver.values with
      | none => exact .kept (.refl solver)
      | some truth =>
          rcases setValue_cases solver (.theory key) (.boolean truth) .semantic
            (greatestLevel solver.trail (TheoryAtom.support atom)) with
            ⟨abort, result⟩ | ⟨free, isOpen, result⟩
          · exact (ends_broken result).mpr (.inl ⟨abort, rfl⟩)
          · refine (ends_known result).mpr ?_
            exact ReportsTrail.changed (.evaluation present evaluated free.unvalued isOpen) rfl rfl

theorem reportsTrail_offerLemma (clause : Clause) :
    Preserves (ReportsTrail solver) (offerLemma clause) solver := by
  unfold offerLemma
  refine ends_get_bind.mpr ?_
  cases clauseError? solver clause with
  | some error => exact .kept (.refl solver)
  | none => exact .kept (.told rfl rfl rfl rfl)

omit [TheoryAtom τ] in
theorem keepsTrail_resolveToBackjump (steps : Nat) (clause : Clause) :
    Ends (resolveToBackjump steps clause) solver (fun _ rest => KeepsTrail solver rest)
      fun _ rest => KeepsTrail solver rest := by
  induction steps generalizing solver clause with
  | zero => exact .refl solver
  | succ steps induction =>
      unfold resolveToBackjump
      split
      · exact .refl solver
      · refine ends_get_bind.mpr ?_
        dsimp only
        cases solver.trail.topLiterals clause with
        | error error => exact .refl solver
        | ok top =>
            show Ends (if _ then _ else _) solver _ _
            split
            · exact .refl solver
            · cases solver.trail.latestImplied? clause with
              | none =>
                  dsimp only
                  split <;> exact .refl solver
              | some pivot =>
                  obtain ⟨literal, reason⟩ := pivot
                  cases stored : solver.clauses.clause? reason with
                  | none => exact (ends_broken (clause_of_missing stored)).mpr (.refl solver)
                  | some cause =>
                      refine (ends_known (clause_of_stored stored)).mpr ((ends_known rfl).mpr ?_)
                      have told : KeepsTrail solver (telling (.resolvedWith reason) solver) :=
                        .told rfl rfl rfl rfl
                      exact (induction (clause.resolve cause literal)).mono (fun _ _ => told.trans)
                        fun _ _ => told.trans

omit [TheoryAtom τ] in
theorem keepsTrail_explain (fuel : Nat) (conflict : ClauseKey) :
    Ends (explain fuel conflict) solver (fun _ rest => KeepsTrail solver rest)
      fun _ rest => KeepsTrail solver rest := by
  have begun : KeepsTrail solver (telling (.analysisBegun conflict) solver) := .told rfl rfl rfl rfl
  unfold explain
  refine (ends_known rfl).mpr ?_
  cases stored : (telling (.analysisBegun conflict) solver).clauses.clause? conflict with
  | none => exact (ends_broken (clause_of_missing stored)).mpr begun
  | some clause =>
      refine (ends_known (clause_of_stored stored)).mpr ?_
      refine Ends.bind (keepsTrail_resolveToBackjump fuel clause) (fun answer rest resolved => ?_)
        fun _ _ => begun.trans
      exact (begun.trans resolved).trans (.told rfl rfl rfl rfl)

theorem reportsTrail_storeExplanation (conflict : ClauseKey) (explanation : Clause) :
    Preserves (ReportsTrail solver) (storeExplanation conflict explanation) solver := by
  unfold storeExplanation
  cases stored : solver.clauses.clause? conflict with
  | none =>
      exact (ends_broken (clause_of_missing stored)).mpr (.inr (.kept (.refl solver)))
  | some clause =>
      refine (ends_known (clause_of_stored stored)).mpr ?_
      split
      · exact .kept (.refl solver)
      · exact .kept (.told rfl rfl rfl rfl)

theorem reportsTrail_watchClause (key : ClauseKey) :
    Preserves (ReportsTrail solver) (watchClause key) solver := by
  unfold watchClause
  refine ends_get_bind.mpr ?_
  split
  · exact .kept (.silent rfl rfl rfl)
  · exact .inr (.kept (.refl solver))

theorem reportsTrail_learn (key : ClauseKey) :
    Preserves (ReportsTrail solver) (learn key) solver := by
  unfold learn watchClause
  refine ends_get_bind.mpr ?_
  cases solver.clauses.stored? key with
  | none => exact .inr (.kept (.refl solver))
  | some stored =>
      dsimp only
      split
      · refine (ends_bind _ _).mpr (ends_get_bind.mpr ?_)
        split
        · exact .kept (.told rfl rfl rfl rfl)
        · exact .inr (.kept (.refl solver))
      · exact .kept (.refl solver)

theorem reportsTrail_makeDecision : Preserves (ReportsTrail solver) makeDecision solver := by
  unfold makeDecision
  refine ends_get_bind.mpr ?_
  split
  · exact .kept (.refl solver)
  · refine ends_get_bind.mpr ?_
    generalize solver.vars.pop = popped
    obtain ⟨popped, vars⟩ := popped
    refine (ends_known rfl).mpr ?_
    cases popped with
    | none => exact .kept (.silent rfl rfl rfl)
    | some key =>
        dsimp only
        cases vars.get? key with
        | none => exact .inr (.kept (.silent rfl rfl rfl))
        | some known =>
            have decides : ∀ counters, Preserves (ReportsTrail solver)
                (decide (.var key) known.sort.defaultValue) { solver with vars, counters } :=
              fun _ => by refine reportsTrail_decide solver ?_ ?_ ?_ _ _ <;> rfl
            exact (ends_known rfl).mpr ((decides _).bind fun _ _ reports => reports)

theorem reportsTrail_endSearch (report : Report) :
    Preserves (ReportsTrail solver) (endSearch report) solver := by
  refine .kept ⟨rfl, rfl, _, Array.toList_appendList, fun event inside => ?_⟩
  rcases List.mem_append.mp inside with counted | last
  · obtain ⟨kind, _, rfl⟩ := List.mem_map.mp counted
    rfl
  · simp only [List.mem_cons, List.not_mem_nil, or_false] at last
    rcases last with rfl | rfl | rfl <;> rfl

theorem reportsTrail_basic {call : Call} (basic : call.Basic) (fuel : Nat) :
    Preserves (ReportsTrail solver) (call.perform fuel) solver := by
  cases call with
  | evaluateAtom key => exact reportsTrail_evaluateAtom key
  | propagateLiteral key literal => exact (reportsTrail_propagateLiteral key literal).discard
  | assignImplied key value => exact (reportsTrail_assignImplied key value).discard
  | offerLemma clause => exact (reportsTrail_offerLemma clause).discard
  | explain conflict =>
      refine Preserves.discard ((keepsTrail_explain fuel conflict).mono ?_ ?_)
      · exact fun _ _ => .kept
      · exact fun _ _ keeps => .inr (.kept keeps)
  | storeExplanation conflict explanation =>
      exact (reportsTrail_storeExplanation conflict explanation).discard
  | learn key => exact reportsTrail_learn key
  | makeDecision => exact reportsTrail_makeDecision.discard
  | decide atom value => exact reportsTrail_decide solver rfl rfl rfl atom value
  | endSearch report => exact reportsTrail_endSearch report
  | _ => exact basic.elim

/-! ## Between basic calls -/

omit [TheoryAtom τ] in
theorem trail_unsetAbove (assignment : Assignment) (level : Nat) :
    (assignment.unsetAbove level).trail = (assignment.trail.clearAbove level).2 := by
  have released : ∀ (removed : List (Atom × Entry)) (cut : Assignment),
      (removed.foldl Assignment.release cut).trail = cut.trail := by
    intro removed
    induction removed with
    | nil => exact fun _ => rfl
    | cons pair removed induction => exact fun cut => induction (cut.release pair)
  exact released _ _

omit [TheoryAtom τ] in
theorem events_retreat {target : Nat} {cut : Solver τ}
    (retreats : retreat target solver = .ok ⟨⟩ cut) : cut.events = solver.events := by
  rcases eq_of_retreat retreats with ⟨_, rfl⟩ | ⟨_, rfl⟩ <;> rfl

theorem reportsTrail_returned {target : Nat} {kind : BackjumpKind} {cut : Solver τ}
    (retreats : retreat target solver = .ok ⟨⟩ cut) :
    ReportsTrail solver (telling (.backjump solver.trail.level target kind) cut) := by
  rcases eq_of_retreat retreats with ⟨above, rfl⟩ | ⟨below, rfl⟩
  · exact .changed (.stay above) rfl rfl
  · refine .changed ?_ rfl rfl
    show TrailChange solver _ (solver.toAssignment.unsetAbove target).trail
    rw [trail_unsetAbove]
    exact .jump below

end Solver

end ModelSearch
