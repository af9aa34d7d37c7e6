import ModelSearch.Proofs.Conflicts.Resolving

/-!
# Rounds of the search

A round that does not end the search has raised the profile of the trail or made
a semantic split.  So between two splits there are fewer rounds than scores, and
with enough fuel a search ends unless it splits without end.
-/

namespace ModelSearch.Solver

variable {τ : Type} [TheoryAtom τ] {rules : Rules τ} {jumping : Bool} {origin solver : Solver τ}
  {excuse : Fault → Solver τ → Prop}

/-! ## Decisions -/

/-- Every variable has a value. -/
def AllValued (solver : Solver τ) : Prop :=
  ∀ key < solver.vars.size, (solver.trail.get? (.var key)).isSome = true

/-- A variable that was popped has been decided. -/
structure Decided (before after : Solver τ) (key : VariableKey) (known : Variable)
    (queue : LazyQueue) : Prop where
  present : before.vars.get? key = some known
  free : before.Free (.var key)
  popped : before.vars.queue.Popped (some key) queue
  assignment : after.toAssignment =
    { (before.chosen (.var key) known.sort.defaultValue).toAssignment with
      vars := { (before.chosen (.var key) known.sort.defaultValue).vars with
        queue := queue.erase key } }
  theoryAtoms : after.theoryAtoms = before.theoryAtoms
  configuration : after.configuration = before.configuration
  splits : after.splits = before.splits

/-- Deciding a variable that was popped is deciding it and then replacing the
queue. -/
theorem Decided.steps {after : Solver τ} {key : VariableKey} {known : Variable}
    {queue : LazyQueue} (decided : Decided solver after key known queue) :
    Steps rules jumping solver after := by
  have choose : Step rules jumping solver (solver.chosen (.var key) known.sort.defaultValue) :=
    .choose decided.free (.search decided.present)
  have same : ∀ other, (queue.erase key).contains other = true ↔
      (solver.chosen (.var key) known.sort.defaultValue).vars.queue.contains other = true := by
    intro other
    show _ ↔ (solver.vars.queue.erase key).contains other = true
    rw [LazyQueue.contains_erase, LazyQueue.contains_erase, decided.popped.left]
    simp
  refine .head choose (.head (.requeue (decided.popped.sound.erase key) same) (.single ?_))
  exact .tell decided.assignment decided.theoryAtoms decided.configuration decided.splits

omit [TheoryAtom τ] in
theorem allValued_iff (follow : VariablesFollow solver.trail.value? solver.vars) :
    solver.AllValued ↔ solver.vars.canDecide = false := by
  rw [← Bool.not_eq_true, follow.canDecide_iff]
  constructor
  · rintro valued ⟨key, inside, unvalued⟩
    rw [Trail.value?, Option.map_eq_none_iff] at unvalued
    have isSome := valued key inside
    rw [unvalued] at isSome
    cases isSome
  · intro none key inside
    by_contra unvalued
    refine none ⟨key, inside, ?_⟩
    rw [Trail.value?, Option.map_eq_none_iff]
    simpa using unvalued

omit [TheoryAtom τ] in
theorem makeDecision_of_spent (spent : solver.vars.canDecide = false) :
    makeDecision solver = .ok none solver := by
  have ends : Ends makeDecision solver (fun answer rest => answer = none ∧ rest = solver)
      fun _ _ => False := by
    unfold makeDecision
    refine ends_get_bind.mpr ?_
    rw [if_pos (by simp [spent])]
    exact ⟨rfl, rfl⟩
  obtain ⟨_, _, result, rfl, rfl⟩ := ends.answer
  exact result

omit [TheoryAtom τ] in
/-- The variable that the queue yields is decided. -/
theorem ends_popDecision (coherent : solver.toAssignment.Coherent)
    (possible : solver.vars.canDecide = true) :
    Ends makeDecision solver
      (fun answer rest => ∃ key known, solver.vars.queue.pop.1 = some key ∧
        answer = some (.var key, known.sort.defaultValue) ∧
          Decided solver rest key known solver.vars.queue.pop.2) fun _ _ => False := by
  have follow := coherent.vars
  unfold makeDecision
  simp only [ends_bind, ends_get]
  rw [if_neg (by simp [possible])]
  simp only [ends_bind, ends_get, ends_modify]
  have popped := LazyQueue.pop_spec follow.queue
  have pop : solver.vars.pop =
      (solver.vars.queue.pop.1, { solver.vars with queue := solver.vars.queue.pop.2 }) := rfl
  rw [pop]
  cases answer : solver.vars.queue.pop.1 with
  | none =>
      obtain ⟨key, inside, unvalued⟩ := follow.canDecide_iff.mp possible
      have absent := popped.exhausted answer key
      rw [(follow.queued key).mpr ⟨inside, unvalued⟩] at absent
      cases absent
  | some key =>
      rw [answer] at popped
      obtain ⟨inside, unvalued⟩ := (follow.queued key).mp (popped.present key rfl)
      have free : solver.Free (.var key) := by
        refine ⟨?_, ?_⟩
        · rw [Trail.value?, Option.map_eq_none_iff] at unvalued
          exact unvalued
        · rintro other ⟨⟩
          exact inside
      obtain ⟨known, present⟩ : ∃ known, solver.vars.get? key = some known :=
        ⟨_, Array.getElem?_eq_getElem inside⟩
      have presentPopped : ({ solver.vars with queue := solver.vars.queue.pop.2 } :
          VariableStore).get? key = some known := present
      -- The queue is out of step until the decision is made.
      unfold count
      simp only [presentPopped, ends_bind, ends_modify]
      refine (ends_decide ?still).mpr ⟨key, known, rfl, rfl, ?_⟩
      case still => exact ⟨free.unvalued, free.known⟩
      refine ⟨present, free, popped, rfl, rfl, rfl, ?_⟩
      rw [splits_eq, Array.countP_push]
      rfl

omit [TheoryAtom τ] in
/-- The search decides a variable without a value, if there is one. -/
theorem ends_makeDecision (coherent : solver.toAssignment.Coherent) :
    Ends makeDecision solver
      (fun answer rest => match answer with
        | some _ => ∃ key known queue, Decided solver rest key known queue
        | none => rest = solver ∧ solver.AllValued) fun _ _ => False := by
  cases possible : solver.vars.canDecide with
  | true =>
      refine (ends_popDecision coherent possible).mono ?_ fun _ _ => id
      rintro _ rest ⟨key, known, _, rfl, decided⟩
      exact ⟨key, known, _, decided⟩
  | false =>
      rw [Ends, makeDecision_of_spent possible]
      exact ⟨rfl, (allValued_iff coherent.vars).mpr possible⟩

theorem runs_makeDecision (valid : origin.Valid rules solver) :
    Runs rules false makeDecision solver
      (fun answer rest => match answer with
        | some _ => Raises solver.trail.profile rest.trail.profile
        | none => rest = solver ∧ solver.AllValued) excuse := by
  refine (ends_makeDecision valid.coherent.assignment).mono (fun answer rest ends => ?_)
    fun _ _ absurdity => absurdity.elim
  cases answer with
  | none =>
      obtain ⟨rfl, valued⟩ := ends
      exact ⟨.refl, rfl, valued⟩
  | some choice =>
      obtain ⟨key, known, queue, decided⟩ := ends
      refine ⟨decided.steps, ?_⟩
      have raises := raises_chosen valid.coherent (.var key) known.sort.defaultValue
      rwa [← congrArg Assignment.trail decided.assignment] at raises

/-- A theory atom lacks no value once every variable has one. -/
theorem AllValued.semanticUnits (valued : solver.AllValued) (coherent : solver.Coherent) :
    solver.vars.semanticUnits = [] := by
  refine List.eq_nil_iff_forall_not_mem.mpr ?_
  rintro ⟨owner, unassigned⟩ inside
  obtain ⟨keys, watching, member, unvalued, _⟩ :=
    coherent.assignment.vars.mem_semanticUnits.mp inside
  obtain ⟨atom, present, rfl⟩ := (coherent.supports _ _).mp watching
  have isSome := valued unassigned (coherent.registered _ _ present _ (mem_canonical.mp member))
  rw [Trail.value?, Option.map_eq_none_iff] at unvalued
  rw [unvalued] at isSome
  cases isSome

/-! ## Complete assignments -/

/-- Every variable has a value, and no watched clause is violated. -/
structure Exhausted (solver : Solver τ) : Prop where
  valued : solver.AllValued
  fine : ∀ key clause, solver.clauses.Watched key clause →
    ¬∀ literal ∈ clause, solver.Falsifies literal

/-- What a report says of the solver left behind. -/
def Outcome (solver : Solver τ) : Report → Prop
  | .satisfiable => solver.Exhausted ∧ inconsistentAtom? solver = none
  | .unsatisfiable => solver.Refuted
  | .timeUp => solver.configuration.timeLimit ≠ none
  | .unknown => solver.Exhausted ∧ (inconsistentAtom? solver).isSome = true

/-- The answer is a report that is right, or there is none and something else
holds. -/
def Reports (solver : Solver τ) (answer : Option Report) (otherwise : Prop) : Prop :=
  match answer with
  | some report => solver.Outcome report
  | none => otherwise

omit [TheoryAtom τ] in
theorem Exhausted.congr {other : Solver τ} (exhausted : solver.Exhausted)
    (same : other.toAssignment = solver.toAssignment) : other.Exhausted := by
  obtain ⟨valued, fine⟩ := exhausted
  refine ⟨?_, ?_⟩
  · unfold AllValued
    rw [same]
    exact valued
  · rw [same]
    exact fine

theorem inconsistentAtom?_congr {other : Solver τ} (told : Told solver other) :
    inconsistentAtom? other = inconsistentAtom? solver := by
  unfold inconsistentAtom? values
  rw [told.theoryAtoms, told.assignment]

/-- A report stands while the solver only tells of it. -/
theorem Outcome.told {other : Solver τ} {report : Report} (outcome : solver.Outcome report)
    (told : Told solver other) : other.Outcome report := by
  have verdict := inconsistentAtom?_congr told
  cases report with
  | satisfiable => exact ⟨outcome.1.congr told.assignment, verdict ▸ outcome.2⟩
  | unsatisfiable =>
      show other.Refuted
      rw [told.assignment]
      exact outcome
  | timeUp =>
      show other.configuration.timeLimit ≠ none
      rw [told.configuration]
      exact outcome
  | unknown => exact ⟨outcome.1.congr told.assignment, verdict ▸ outcome.2⟩

/-- If all variables have values, the last round called no hook. -/
theorem Quiet.exhausted {before : Solver τ} (quiet : Quiet rules before solver)
    (valid : origin.Valid rules before) (valued : solver.AllValued) : solver.Exhausted := by
  obtain ⟨middle, steps, passed, _, later, trail, settled⟩ := quiet
  have validMiddle := Steps.valid steps valid
  have size := (Steps.continues later validMiddle.coherent validMiddle.reasoned).size
  have valuedMiddle : middle.AllValued := by
    unfold AllValued
    rw [← trail, ← size]
    exact valued
  have none := valuedMiddle.semanticUnits validMiddle.coherent
  obtain rfl := settled none
  exact ⟨valued, fun key clause watched falsified =>
    passed.fine key ⟨clause, watched, falsified⟩⟩

/-- A round that found no conflict decides a variable, or ends the search. -/
theorem runs_extendOrReport {before : Solver τ} (validBefore : origin.Valid rules before)
    (quiet : Quiet rules before solver) (valid : origin.Valid rules solver) :
    Runs rules false extendOrReport solver
      (fun answer rest => rest.Reports answer
        (Raises solver.trail.profile rest.trail.profile)) excuse := by
  unfold extendOrReport
  refine Runs.bind valid (runs_makeDecision valid) fun decision rest steps answered => ?_
  cases decision with
  | some choice => exact .pure answered
  | none =>
      obtain ⟨rfl, valued⟩ := answered
      have exhausted := quiet.exhausted validBefore valued
      refine runs_get.mpr ?_
      by_cases inconsistent : (inconsistentAtom? rest).isSome = true
      · rw [if_pos inconsistent]
        exact .pure ⟨exhausted, inconsistent⟩
      · rw [if_neg inconsistent]
        have told := told_status rest .satisfiable
        have outcome : rest.Outcome .satisfiable := ⟨exhausted, by simpa using inconsistent⟩
        refine Runs.bind valid (Runs.modify told.step) fun _ last _ same => .pure ?_
        exact same ▸ outcome.told told

/-! ## Rounds -/

/-- A round advances, or ends the search. -/
theorem runs_searchRound
    (obeying : ∀ solver : Solver τ, origin.Valid rules solver → solver.Obeys rules)
    (valid : origin.Valid rules solver) (fuel time : Nat) :
    Runs rules true (searchRound fuel time) solver
      (fun answer rest => rest.Reports answer (Advanced solver rest))
      (fun fault _ => BrokenOff rules solver fuel fault) := by
  unfold searchRound
  refine Runs.bind valid (runs_count _) fun _ counted steps told => ?_
  have validCounted := Steps.valid steps valid
  rw [runs_get]
  by_cases late : isTimeUp counted = true
  · rw [if_pos late]
    refine .pure fun limitless => ?_
    rw [isTimeUp, limitless] at late
    cases late
  · rw [if_neg late]
    have propagates : Runs rules true (propagate fuel) counted
        (fun answer rest => rest.Concludes answer (Quiet rules counted rest) ∧
          Grown counted rest ∧ Grows counted.trail.profile rest.trail.profile)
        (fun fault _ => BrokenOff rules solver fuel fault) := by
      refine ((runs_propagate obeying validCounted fuel).mono ?_ ?_).any
      · exact fun answer rest steps answered =>
          ⟨answered, Steps.grown steps, Steps.profile steps validCounted⟩
      · rintro fault rest later ⟨rfl, enough⟩
        refine ⟨rest, Relation.ReflTransGen.trans steps (Steps.any later), .inr ⟨rfl, ?_⟩⟩
        omega
    refine Runs.bind validCounted propagates fun answer closed later answered => ?_
    obtain ⟨answered, grown, profile⟩ := answered
    have validClosed := Steps.valid later validCounted
    have trail : counted.trail = solver.trail := congrArg Assignment.trail told.assignment
    have splits : closed.splits = solver.splits := grown.splits.trans told.splits
    rw [trail] at profile
    cases answer with
    | some conflict =>
        refine (runs_resolveConflict validClosed answered fuel).mono ?_ ?_
        · intro answer rest _ ends
          cases answer with
          | some report =>
              obtain ⟨rfl, refuted⟩ := ends
              exact refuted
          | none =>
              rcases ends with ⟨raises, same⟩ | split
              · exact .inl ⟨profile.raises raises, same.trans splits⟩
              · exact .inr (split.trans (by rw [splits]))
        · exact fun fault rest _ broken =>
            broken.before (Relation.ReflTransGen.trans steps later)
    | none =>
        refine (runs_extendOrReport validCounted answered validClosed).grown.any.imp ?_
        intro answer rest _ ends
        cases answer with
        | some report => exact ends.1
        | none => exact .inl ⟨profile.raises ends.1, ends.2.splits.trans splits⟩

/-- All rounds are spent: there were too many splits. -/
def Spent (rules : Rules τ) (before after : Solver τ) (rounds : Nat) : Prop :=
  before.Orderly rules →
    rounds + before.score + before.scoreLimit * before.splits ≤
      before.scoreLimit * after.splits + before.scoreLimit

/-- Rounds that advanced count towards the splits. -/
theorem Spent.round {middle after : Solver τ} {rounds : Nat} (valid : origin.Valid rules solver)
    (steps : Steps rules true solver middle) (advanced : Advanced solver middle)
    (spent : Spent rules middle after rounds) : Spent rules solver after (rounds + 1) := by
  intro orderly
  have validMiddle := Steps.valid steps valid
  have orderlyMiddle := Steps.orderly steps valid orderly
  have sum := spent orderlyMiddle
  have limit : middle.scoreLimit = solver.scoreLimit := by
    unfold scoreLimit
    rw [validMiddle.continues.capacity, valid.continues.capacity]
  rw [limit] at sum
  rcases advanced with ⟨raises, same⟩ | split
  · have more := orderly.score_raise valid orderlyMiddle validMiddle raises
    rw [same] at sum
    omega
  · have less := orderly.score_lt valid
    rw [split, Nat.mul_succ] at sum
    omega

theorem searchRounds_of_none {rest : Solver τ} {fuel : Nat} (rounds : Nat)
    (round : searchRound fuel solver.counters.time solver = .ok none rest) :
    searchRounds fuel (rounds + 1) solver = searchRounds fuel rounds rest :=
  bind_eq round

theorem runs_searchRounds
    (obeying : ∀ solver : Solver τ, origin.Valid rules solver → solver.Obeys rules)
    (valid : origin.Valid rules solver) (fuel rounds : Nat) :
    Runs rules true (searchRounds fuel rounds) solver (fun report rest => rest.Outcome report)
      (fun fault rest => BrokenOff rules solver fuel fault ∨
        fault = .outOfFuel ∧ Spent rules solver rest rounds) := by
  induction rounds generalizing solver with
  | zero =>
      refine .throwOutOfFuel (.inr ⟨rfl, fun orderly => ?_⟩)
      have less := orderly.score_lt valid
      omega
  | succ rounds induction =>
      unfold searchRounds
      rw [runs_get]
      refine Runs.bind valid ((runs_searchRound obeying valid fuel _).mono
        (fun _ _ _ answered => answered) fun _ _ _ broken => .inl broken)
        fun answer middle steps answered => ?_
      cases answer with
      | some report => exact .pure answered
      | none =>
          refine (induction (Steps.valid steps valid)).mono (fun _ _ _ outcome => outcome) ?_
          rintro fault rest _ (broken | ⟨rfl, spent⟩)
          · exact .inl (broken.before steps)
          · exact .inr ⟨rfl, spent.round valid steps answered⟩

/-! ## The search -/

omit [TheoryAtom τ] in
theorem told_endSearch (solver : Solver τ) (told : List Event)
    (plain : ∀ event ∈ told, isSplit event = false) :
    Told solver { solver with events := solver.events ++ told } := by
  refine ⟨rfl, rfl, rfl, ?_⟩
  have none : told.countP isSplit = 0 := List.countP_eq_zero.mpr fun event inside => by
    rw [plain event inside]
    exact Bool.false_ne_true
  rw [splits_eq, splits_eq, ← Array.countP_toList, ← Array.countP_toList]
  simp [none]

omit [TheoryAtom τ] in
theorem ends_endSearch (report : Report) :
    Ends (endSearch report) solver (fun _ rest => Told solver rest) fun _ _ => False := by
  unfold endSearch
  simp only [ends_bind, ends_get, ends_modify]
  refine told_endSearch solver _ fun event inside => ?_
  rcases List.mem_append.mp inside with counted | last
  · obtain ⟨kind, _, rfl⟩ := List.mem_map.mp counted
    rfl
  · simp only [List.mem_cons, List.not_mem_nil, or_false] at last
    rcases last with rfl | rfl | rfl <;> rfl

theorem runs_endSearch (report : Report) :
    Runs rules jumping (endSearch report) solver (fun _ rest => Told solver rest) excuse :=
  (ends_endSearch report).mono (fun _ _ told => ⟨.single told.step, told⟩)
    fun _ _ absurdity => absurdity.elim

theorem solve_of_error {rest : Solver τ} {fuel : Nat} {fault : Fault}
    (unsettled : settled? solver = none)
    (result : searchRounds fuel fuel { solver with status := .solving } = .error fault rest) :
    solve fuel solver = .error fault rest := by
  unfold solve
  rw [get_bind, unsettled]
  exact (bind_eq rfl).trans (bind_eq_error result)

theorem runs_solve
    (obeying : ∀ solver : Solver τ, origin.Valid rules solver → solver.Obeys rules)
    (valid : origin.Valid rules solver) (unsettled : settled? solver = none) (fuel : Nat) :
    Runs rules true (solve fuel) solver (fun report rest => rest.Outcome report)
      (fun fault rest => BrokenOff rules solver fuel fault ∨
        fault = .outOfFuel ∧ Spent rules solver rest fuel) := by
  unfold solve
  rw [runs_get, unsettled]
  have begun := told_status solver .solving
  refine Runs.bind valid (Runs.modify begun.step) fun _ first steps same => ?_
  subst same
  have validFirst := Steps.valid steps valid
  refine Runs.bind validFirst ((runs_searchRounds obeying validFirst fuel fuel).mono
    (fun _ _ _ outcome => outcome) ?_) fun report rest later outcome => ?_
  · rintro fault rest _ (broken | ⟨rfl, spent⟩)
    · exact .inl (broken.before steps)
    · exact .inr ⟨rfl, fun orderly => spent (Steps.orderly steps valid orderly)⟩
  · refine Runs.bind (Steps.valid later validFirst) (runs_endSearch report)
      fun _ last _ told => .pure (outcome.told told)

end ModelSearch.Solver
