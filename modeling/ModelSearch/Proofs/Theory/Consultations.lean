import ModelSearch.Proofs.Events.TrailEvents
import ModelSearch.Proofs.Theory.Bounds

/-!
# How theory atoms are called

A theory atom is evaluated once each of its variables has a value, and its hook is told
the only variable without one.  The atoms that lack one value are listed before the
first of them is consulted, and the hooks of the others may give values, open levels and
add clauses in the meantime.  But no hook takes a value away.  So a listed atom can only
have come to lack none, and then it is passed over.

Each consultation is told by an event just before the hook runs, and no other event tells
of one.  So what holds when a hook runs can be read off the record of a search.
-/

namespace ModelSearch

namespace Solver

variable {τ : Type} [TheoryAtom τ] {fuel : Nat} {origin solver rest : Solver τ}

/-! ## Calls of theory atoms -/

/-- A search that begins with the solver evaluates the theory atom in the state. -/
inductive Evaluating (fuel : Nat) (origin : Solver τ) (atom : τ) : Solver τ → Prop
  /-- The atom may get a value. -/
  | propagation {state : Solver τ} {key : TheoryKey}
      (clocked : Clocked fuel origin (.evaluateAtom key) state)
      (present : state.theoryAtoms[key]? = some atom) : Evaluating fuel origin atom state
  /-- Nothing is left to decide, and the value of the atom is compared. -/
  | comparison {state rest : Solver τ} {key : TheoryKey} {truth : Bool}
      (clocked : Clocked fuel origin .extendOrReport state)
      (complete : makeDecision state = .ok none rest)
      (present : rest.theoryAtoms[key]? = some atom)
      (valued : rest.trail.truth? (.theory key) = some truth) : Evaluating fuel origin atom rest

/-- A search that begins with the solver runs the hook of the theory atom in the state,
for the variable. -/
inductive Consulting (fuel : Nat) (origin : Solver τ) (atom : τ) (unassigned : VariableKey) :
    Solver τ → Prop
  | consultation {state : Solver τ} {key : TheoryKey} {units : List (TheoryKey × VariableKey)}
      (clocked : Clocked fuel origin (.consultAtoms ((key, unassigned) :: units)) state)
      (unvalued : state.trail.get? (.var unassigned) = none)
      (present : state.theoryAtoms[key]? = some atom) :
      Consulting fuel origin atom unassigned state

/-! ## What they are called with -/

/-- The variables of the theory atoms have values. -/
def Supplied (solver : Solver τ) (keys : List TheoryKey) : Prop :=
  ∀ key ∈ keys, ∀ atom, solver.theoryAtoms[key]? = some atom →
    ∀ variableKey ∈ TheoryAtom.support atom,
      (solver.trail.get? (.var variableKey)).isSome = true

theorem supplied_evaluable (coherent : solver.Coherent) : solver.Supplied solver.evaluable := by
  intro key inside atom present
  obtain ⟨_, again, presentAgain, valued⟩ := (mem_evaluable coherent).mp inside
  obtain rfl := Option.some.inj (presentAgain.symm.trans present)
  exact valued

theorem Supplied.mono {keys : List TheoryKey} (supplied : solver.Supplied keys)
    (grown : Grown solver rest) (continues : solver.Continues rest) : rest.Supplied keys := by
  intro key inside atom present variableKey member
  rw [continues.theoryAtoms] at present
  exact grown.isSome (supplied key inside atom present variableKey member)

/-- What the atoms a call is about have been found to have. -/
def Provides (solver : Solver τ) : Call → Prop
  | .evaluateAtoms keys => solver.Supplied keys
  | .evaluateAtom key => solver.Supplied [key]
  | .consultAtoms units => solver.Lacking units
  | _ => True

theorem changes_consulted {key : TheoryKey} {unassigned : VariableKey} {hook : Hook}
    {answer : Option ClauseKey}
    (runs : runHook hook (telling (.consulted (.theory key) unassigned) solver) =
      .ok answer rest) : Changes Rules.free false solver rest := by
  have told : Told solver (telling (.consulted (.theory key) unassigned) solver) :=
    told_emit solver rfl
  exact .head told.change ((alters_runHook (hook.asks_free 0 _)).of_ok runs).1

/-- Each call finds its atoms as they were listed. -/
theorem provides_calls {caller callee : Call} (coherent : solver.Coherent)
    (provides : solver.Provides caller) (calls : Calls fuel caller solver callee rest) :
    rest.Provides callee := by
  cases calls with
  | evaluateAtoms => exact supplied_evaluable coherent
  | evaluateAtom =>
      intro key inside
      obtain rfl := List.mem_singleton.mp inside
      exact provides key List.mem_cons_self
  | nextAtom evaluates =>
      have changes : Changes Rules.free false solver rest :=
        ((alters_evaluateAtom coherent _).of_ok evaluates).1
      have others : solver.Supplied _ :=
        fun key inside => provides key (List.mem_cons_of_mem _ inside)
      exact others.mono changes.grown (changes.continues coherent)
  | consultAtoms => exact lacking_semanticUnits coherent
  | nextConsultation unvalued present runs =>
      have changes := changes_consulted runs
      have others : solver.Lacking _ :=
        fun pair inside => provides pair (List.mem_cons_of_mem _ inside)
      exact others.mono (Changes.grown changes) (Changes.continues changes coherent)
  | skippedConsultation => exact fun pair inside => provides pair (List.mem_cons_of_mem _ inside)
  | _ => trivial

theorem provides_clocked {call : Call} (coherent : origin.Coherent)
    (clocked : Clocked fuel origin call solver) : solver.Provides call := by
  induction clocked with
  | round | ending => trivial
  | @call caller callee _ _ clocked calls induction =>
      by_cases whole : callee.Whole
      · exact provides_calls (clocked.coherent (calls.whole whole) coherent) induction calls
      · cases callee with
        | setValue | retreat | decide => trivial
        | _ => exact absurd trivial whole

theorem isSome_values (coherent : solver.Coherent) {key : VariableKey} :
    (solver.values key).isSome = (solver.trail.get? (.var key)).isSome := by
  rw [values, coherent.assignment.vars.values, Trail.value?, Option.isSome_map]

/-- A theory atom that is evaluated has values for its variables. -/
theorem Evaluating.supplied {atom : τ} (evaluating : Evaluating fuel origin atom solver)
    (begun : origin.Coherent) {key : VariableKey} (member : key ∈ TheoryAtom.support atom) :
    (solver.values key).isSome = true := by
  cases evaluating with
  | propagation clocked present =>
      rw [isSome_values (clocked.coherent trivial begun)]
      exact provides_clocked begun clocked _ List.mem_cons_self atom present key member
  | comparison clocked complete present valued =>
      have coherent := clocked.coherent trivial begun
      have decides : Alters Rules.free false makeDecision _ _ := alters_makeDecision coherent
      -- Every variable has a value when there is nothing left to decide.
      obtain ⟨rfl, valued⟩ := (decides.of_ok complete).2 rfl
      rw [isSome_values coherent]
      exact valued key (coherent.registered _ atom present key member)

/-- A theory atom that is consulted lacks the value of the variable, and no other. -/
theorem Consulting.lacking {atom : τ} {unassigned : VariableKey}
    (consulting : Consulting fuel origin atom unassigned solver) (begun : origin.Coherent) :
    unassigned ∈ TheoryAtom.support atom ∧ solver.values unassigned = none ∧
      ∀ key ∈ TheoryAtom.support atom, key ≠ unassigned →
        (solver.values key).isSome = true := by
  cases consulting with
  | consultation clocked unvalued present =>
      have coherent := clocked.coherent trivial begun
      obtain ⟨member, others⟩ := provides_clocked begun clocked _ List.mem_cons_self atom present
      refine ⟨member, ?_, fun key support different => ?_⟩
      · rw [← Option.not_isSome_iff_eq_none, isSome_values coherent, unvalued]
        exact Bool.false_ne_true
      · rw [isSome_values coherent]
        exact others key support different

/-! ## What the record tells of consultations -/

/-- The record only grew, and each consultation that it has come to tell of was made when
the record ended just before. -/
structure Consultations (fuel : Nat) (origin before after : Solver τ) : Prop where
  kept : before.events.toList <+: after.events.toList
  made : ∀ index asked unassigned, before.events.size ≤ index →
    after.events[index]? = some (.consulted asked unassigned) →
      ∃ key atom state, asked = .theory key ∧ state.theoryAtoms[key]? = some atom ∧
        state.events.toList = after.events.toList.take index ∧
          Consulting fuel origin atom unassigned state

namespace Consultations

variable {before middle after : Solver τ}

/-- No consultation was told. -/
theorem of_none (kept : before.events.toList <+: after.events.toList)
    (none : ∀ index asked unassigned,
      after.events[index]? = some (.consulted asked unassigned) → index < before.events.size) :
    Consultations fuel origin before after where
  kept := kept
  made index asked unassigned late told :=
    absurd (none index asked unassigned told) (Nat.not_lt.mpr late)

theorem silent (events : after.events = before.events) :
    Consultations fuel origin before after := by
  refine .of_none (events ▸ List.prefix_rfl) fun index asked unassigned told => ?_
  rw [events] at told
  exact (Array.getElem?_eq_some_iff.mp told).1

theorem trans (first : Consultations fuel origin before middle)
    (second : Consultations fuel origin middle after) :
    Consultations fuel origin before after where
  kept := first.kept.trans second.kept
  made index asked unassigned late told := by
    rcases Nat.lt_or_ge index middle.events.size with earlier | later
    · obtain ⟨further, grown⟩ := second.kept
      rw [← Array.length_toList] at earlier
      -- The record up to the event is that of the state in the middle.
      have same : after.events[index]? = middle.events[index]? := by
        rw [← Array.getElem?_toList, ← grown, List.getElem?_append_left earlier,
          Array.getElem?_toList]
      obtain ⟨key, atom, state, about, present, events, consulting⟩ :=
        first.made index asked unassigned late (same ▸ told)
      refine ⟨key, atom, state, about, present, ?_, consulting⟩
      rw [events, ← grown, List.take_append_of_le_length (Nat.le_of_lt earlier)]
    · exact second.made index asked unassigned later told

/-- A consultation is told as it is made. -/
theorem single {key : TheoryKey} {atom : τ} {unassigned : VariableKey}
    (present : solver.theoryAtoms[key]? = some atom)
    (consulting : Consulting fuel origin atom unassigned solver) :
    Consultations fuel origin solver
      (telling (.consulted (.theory key) unassigned) solver) where
  kept := by
    rw [telling, Array.toList_push]
    exact List.prefix_append _ _
  made index asked told late found := by
    rw [telling, ← Array.getElem?_toList, Array.toList_push,
      List.getElem?_append_right late] at found
    have same := List.mem_singleton.mp (List.mem_of_getElem? found)
    obtain ⟨bound, _⟩ := List.getElem?_eq_some_iff.mp found
    have last : index = solver.events.toList.length := by
      rw [List.length_singleton] at bound
      rw [← Array.length_toList] at late
      omega
    cases same
    subst last
    refine ⟨key, atom, solver, rfl, present, ?_, consulting⟩
    rw [telling, Array.toList_push, List.take_left]

end Consultations

/-- Only consultations are told of as such, wherever the clock stands when they are made. -/
theorem consultations_acrossBasicCalls {may : Call → Solver τ → Prop}
    (calls : ∀ {caller callee before after}, may caller before →
      Calls fuel caller before callee after → may callee after)
    (clocked : ∀ {units state}, may (.consultAtoms units) state →
      Clocked fuel origin (.consultAtoms units) state) :
    AcrossBasicCalls fuel may (Consultations fuel origin) where
  calls := calls
  refl _ := .silent rfl
  trans := .trans
  aside _ _ _ := .silent rfl
  basic _ basic := (reportsTrail_basic basic fuel).imp fun _ reports =>
    .of_none reports.events_retained fun _ _ _ => reports.consulted_before
  consulted allowed unvalued present :=
    .single present (.consultation (clocked allowed) unvalued present)
  returned _ _ _ retreats :=
    .of_none (reportsTrail_returned retreats).events_retained fun _ _ _ =>
      (reportsTrail_returned retreats).consulted_before

/-- A search that begins with the solver leaves this record, or a call made in it does. -/
inductive Records (fuel : Nat) (origin : Solver τ) : Solver τ → Prop
  | search {rest : Solver τ} (leaves : Leaves fuel .solve origin rest) : Records fuel origin rest
  | call {call : Call} {state rest : Solver τ} (clocked : Clocked fuel origin call state)
      (whole : call.Whole) (leaves : Leaves fuel call state rest) : Records fuel origin rest

theorem Records.consultations (records : Records fuel origin rest) :
    Consultations fuel origin origin rest := by
  cases records with
  | search leaves =>
      have across : AcrossBasicCalls fuel (Called fuel origin) (Consultations fuel origin) := by
        refine consultations_acrossBasicCalls .call fun called => ?_
        rcases called.clocked with ⟨other, _⟩ | ⟨_, other, _⟩ | clocked
        · cases other
        · cases other
        · exact clocked
      have whole : Call.Whole .solve := trivial
      exact leaves.of_preserves (across.whole whole .solve)
  | call clocked whole leaves =>
      have across : AcrossBasicCalls fuel (Clocked fuel origin) (Consultations fuel origin) :=
        consultations_acrossBasicCalls .call id
      exact (across.clocked id clocked whole).trans
        (leaves.of_preserves (across.whole whole clocked))

/-- Theory atoms are evaluated only when all their variables have values, and consulted
only about a variable of theirs that is the only one without a value.  The same holds of
each consultation that the record of a search tells of. -/
theorem atoms_called_as_promised {configuration : Configuration}
    (stated : Stated configuration origin) (fuel : Nat) :
    (∀ atom state, Evaluating fuel origin atom state →
      ∀ key ∈ TheoryAtom.support atom, (state.values key).isSome = true) ∧
    (∀ atom unassigned state, Consulting fuel origin atom unassigned state →
      unassigned ∈ TheoryAtom.support atom ∧ state.values unassigned = none ∧
        ∀ key ∈ TheoryAtom.support atom, key ≠ unassigned →
          (state.values key).isSome = true) ∧
    ∀ rest, Records fuel origin rest → ∀ index asked unassigned, origin.events.size ≤ index →
      rest.events[index]? = some (.consulted asked unassigned) →
        ∃ key atom state, asked = .theory key ∧ state.theoryAtoms[key]? = some atom ∧
          state.events.toList = rest.events.toList.take index ∧
          Consulting fuel origin atom unassigned state ∧
          unassigned ∈ TheoryAtom.support atom ∧ state.values unassigned = none ∧
            ∀ key ∈ TheoryAtom.support atom, key ≠ unassigned →
              (state.values key).isSome = true := by
  have begun := stated.ready.coherent
  refine ⟨?_, ?_, ?_⟩
  · intro atom state evaluating key member
    exact evaluating.supplied begun member
  · intro atom unassigned state consulting
    exact consulting.lacking begun
  · intro rest records index asked unassigned late told
    obtain ⟨key, atom, state, same, present, events, consulting⟩ :=
      records.consultations.made index asked unassigned late told
    exact ⟨key, atom, state, same, present, events, consulting, consulting.lacking begun⟩

end Solver

/-! ## Two bounds on one number -/

namespace Bound

/-- What a round of propagation makes of the solver before it consults any bound. -/
def passing (solver : Solver Bound) : Solver Bound :=
  left Solver.propagateClauses (left Solver.evaluateTheory solver)

def hastyStart : Solver Bound :=
  Solver.enteringRound 0 { hastyFormula with status := .solving }

/-- The first bound of the hasty formula is known to hold, and both lack a number. -/
def hastyPass : Solver Bound := passing (passing hastyStart)

/-- The first bound was consulted and has picked a number. -/
def hastyPick : Solver Bound := left Solver.consultTheory hastyPass

theorem clocked_hastyPass : Clocked 10 hastyFormula .consultTheory hastyPass ∧
    Clocked 10 hastyFormula (.propagate 8) hastyPick := by
  have early : Solver.isTimeUp hastyStart = false := rfl
  have begun : Clocked 10 hastyFormula (.propagate 10) hastyStart :=
    .call (.round (.first stated_hastyFormula.ready.unsettled) 0) (.propagate early)
  have evaluates : answer? Solver.evaluateTheory hastyStart = some ⟨⟩ := by decide +kernel
  have passes : answer? Solver.propagateClauses (left Solver.evaluateTheory hastyStart) =
      some none := by decide +kernel
  have longer : hastyStart.trail.size < (passing hastyStart).trail.size := by decide +kernel
  have again : Clocked 10 hastyFormula (.propagate 9) (passing hastyStart) :=
    .call begun (.propagateAgain (ok_of_answer evaluates) (ok_of_answer passes) longer)
  have evaluates : answer? Solver.evaluateTheory (passing hastyStart) = some ⟨⟩ := by
    decide +kernel
  have passes : answer? Solver.propagateClauses
      (left Solver.evaluateTheory (passing hastyStart)) = some none := by decide +kernel
  have settled : ¬(passing hastyStart).trail.size < hastyPass.trail.size := by decide +kernel
  have consults : answer? Solver.consultTheory hastyPass = some none := by decide +kernel
  have different : hastyPick.trail.size ≠ (passing hastyStart).trail.size := by decide +kernel
  exact ⟨.call again (.consultTheory (ok_of_answer evaluates) (ok_of_answer passes) settled),
    .call again (.propagateFurther (ok_of_answer evaluates) (ok_of_answer passes) settled
      (ok_of_answer consults) different)⟩

/-- What the search for a model of the hasty formula leaves. -/
def hastySearch : Solver Bound := left (Solver.solve 10) hastyFormula

theorem consulted_hastySearch :
    hastySearch.events[4]? = some (.consulted (.theory 0) 0) := by
  have told : (hastySearch.events[4]?.any fun
      | .consulted (.theory 0) 0 => true
      | _ => false) = true := by decide +kernel
  obtain ⟨event, found, shape⟩ := (Option.any_eq_true _ _).mp told
  split at shape
  · exact found
  · cases shape

/-- The first bound is consulted about the number, picks one, and the second is evaluated
in the next round.  The record tells of the consultation. -/
theorem hastyFormula_called : ∃ asked later, ∃ recorded : Solver Bound,
    Solver.Consulting 10 hastyFormula ⟨0, 5.0, true⟩ 0 asked ∧
      Solver.Evaluating 10 hastyFormula ⟨0, 3.0, true⟩ later ∧
        asked.values 0 = none ∧ (later.values 0).isSome = true ∧
      recorded.events.toList = hastySearch.events.toList.take 4 ∧
        recorded.values 0 = none := by
  obtain ⟨passed, picked⟩ := clocked_hastyPass
  obtain ⟨evaluated, consulted, told⟩ := Solver.atoms_called_as_promised stated_hastyFormula 10
  have listed : hastyPass.vars.semanticUnits = [(0, 0), (1, 0)] := by decide +kernel
  have consulting : Clocked 10 hastyFormula (.consultAtoms [(0, 0), (1, 0)]) hastyPass :=
    listed ▸ .call passed .consultAtoms
  have listed : hastyPick.evaluable = [1] := by decide +kernel
  have evaluating : Clocked 10 hastyFormula (.evaluateAtoms [1]) hastyPick :=
    listed ▸ .call (.call picked .evaluateTheory) .evaluateAtoms
  have first : Solver.Consulting 10 hastyFormula ⟨0, 5.0, true⟩ 0 hastyPass :=
    .consultation consulting (by decide +kernel) rfl
  have second : Solver.Evaluating 10 hastyFormula ⟨0, 3.0, true⟩ hastyPick :=
    .propagation (.call evaluating .evaluateAtom) rfl
  have answered : answer? (Solver.solve 10) hastyFormula = some .unsatisfiable := by
    decide +kernel
  have records : Solver.Records 10 hastyFormula hastySearch :=
    .search (.of_solve (ok_of_answer answered))
  obtain ⟨_, _, recorded, _, _, events, _, _, unvalued, _⟩ :=
    told _ records 4 _ _ (by decide +kernel) consulted_hastySearch
  exact ⟨_, _, recorded, first, second, (consulted _ _ _ first).2.1,
    evaluated _ _ second 0 List.mem_cons_self, events, unvalued⟩

end Bound

end ModelSearch
