import ModelSearch.Proofs.Actions.Outcomes
import ModelSearch.Proofs.Steps.Invariants

/-!
# Actions that take steps

An action runs if it gets from solver to solver by steps only.  It aborts only on
a careless request; any other fault has an excuse that the action names.  Runs
compose like the actions themselves, so each operation is treated once, by its
own text.
-/

namespace ModelSearch

section Logic

variable {τ α β : Type} [TheoryAtom τ] {rules : Rules τ} {jumping : Bool}

/-- An abort is the fault of a careless hook; another fault is excused and comes
after steps only. -/
def Breaks (rules : Rules τ) (jumping : Bool) (solver : Solver τ)
    (excuse : Fault → Solver τ → Prop) (fault : Fault) (rest : Solver τ) : Prop :=
  match fault with
  | .abort _ => ¬solver.Orderly rules
  | .error _ | .outOfFuel => Steps rules jumping solver rest ∧ excuse fault rest

/-- The action takes steps, and then answers as in `after`. -/
def Runs (rules : Rules τ) (jumping : Bool) (action : SolverM τ α) (solver : Solver τ)
    (after : α → Solver τ → Prop) (excuse : Fault → Solver τ → Prop) : Prop :=
  Ends action solver (fun answer rest => Steps rules jumping solver rest ∧ after answer rest)
    (Breaks rules jumping solver excuse)

variable {origin solver rest : Solver τ} {action : SolverM τ α}
  {after later : α → Solver τ → Prop} {excuse other : Fault → Solver τ → Prop}

theorem Breaks.before {fault : Fault} {middle : Solver τ} (valid : origin.Valid rules solver)
    (steps : Steps rules jumping solver middle)
    (breaks : Breaks rules jumping middle excuse fault rest) :
    Breaks rules jumping solver excuse fault rest := by
  cases fault with
  | abort abort => exact fun orderly => breaks (Steps.orderly steps valid orderly)
  | error error => exact ⟨steps.trans breaks.1, breaks.2⟩
  | outOfFuel => exact ⟨steps.trans breaks.1, breaks.2⟩

theorem Breaks.mono {fault : Fault} (breaks : Breaks rules jumping solver excuse fault rest)
    (weaker : ∀ fault rest, Steps rules jumping solver rest → excuse fault rest →
      other fault rest) : Breaks rules jumping solver other fault rest := by
  cases fault with
  | abort abort => exact breaks
  | error error => exact ⟨breaks.1, weaker _ _ breaks.1 breaks.2⟩
  | outOfFuel => exact ⟨breaks.1, weaker _ _ breaks.1 breaks.2⟩

theorem Runs.mono (runs : Runs rules jumping action solver after excuse)
    (answered : ∀ answer rest, Steps rules jumping solver rest → after answer rest →
      later answer rest)
    (faulted : ∀ fault rest, Steps rules jumping solver rest → excuse fault rest →
      other fault rest) : Runs rules jumping action solver later other :=
  Ends.mono runs (fun answer rest ends => ⟨ends.1, answered answer rest ends.1 ends.2⟩)
    fun _ _ breaks => breaks.mono faulted

theorem Runs.imp (runs : Runs rules jumping action solver after excuse)
    (answered : ∀ answer rest, Steps rules jumping solver rest → after answer rest →
      later answer rest) : Runs rules jumping action solver later excuse :=
  runs.mono answered fun _ _ _ excused => excused

theorem Runs.pure {answer : α} (holds : after answer solver) :
    Runs rules jumping (Pure.pure answer) solver after excuse :=
  ⟨.refl, holds⟩

theorem Runs.bind (valid : origin.Valid rules solver) {next : α → SolverM τ β}
    {last : β → Solver τ → Prop} (runs : Runs rules jumping action solver after excuse)
    (goesOn : ∀ answer rest, Steps rules jumping solver rest → after answer rest →
      Runs rules jumping (next answer) rest last excuse) :
    Runs rules jumping (action >>= next) solver last excuse := by
  refine Ends.bind runs ?_ fun _ _ breaks => breaks
  intro answer rest ends
  refine Ends.mono (goesOn answer rest ends.1 ends.2) ?_ ?_
  · intro answer last answered
    exact ⟨ends.1.trans answered.1, answered.2⟩
  · intro fault last breaks
    exact breaks.before valid ends.1

theorem runs_get {next : Solver τ → SolverM τ α} :
    Runs rules jumping (get >>= next) solver after excuse ↔
      Runs rules jumping (next solver) solver after excuse := Iff.rfl

theorem Runs.modify {update : Solver τ → Solver τ}
    (step : Step rules jumping solver (update solver)) :
    Runs rules jumping (modify update) solver (fun _ rest => rest = update solver) excuse :=
  ⟨.single step, rfl⟩

theorem Runs.throwError {error : SolverError} (excused : excuse (.error error) solver) :
    Runs rules jumping (throw (.error error)) solver after excuse :=
  ⟨.refl, excused⟩

theorem Runs.throwOutOfFuel (excused : excuse .outOfFuel solver) :
    Runs rules jumping (throw .outOfFuel) solver after excuse :=
  ⟨.refl, excused⟩

theorem Runs.throwAbort {abort : Abort} (careless : ¬solver.Orderly rules) :
    Runs rules jumping (throw (.abort abort)) solver after excuse :=
  careless

theorem Runs.traced (runs : Runs rules jumping action solver after excuse) :
    Runs rules jumping action solver
      (fun answer rest => after answer rest ∧ action solver = .ok answer rest) excuse :=
  Ends.mono (Ends.traced runs) (fun _ _ ends => ⟨ends.1.1, ends.1.2, ends.2⟩)
    fun _ _ breaks => breaks

/-- An orderly solver does not let an action abort. -/
theorem Runs.unbroken (runs : Runs rules jumping action solver after excuse)
    (orderly : solver.Orderly rules) : Ends action solver after excuse := by
  refine Ends.mono runs (fun _ _ ends => ends.2) fun fault rest breaks => ?_
  cases fault with
  | abort abort => exact absurd orderly breaks
  | error error => exact breaks.2
  | outOfFuel => exact breaks.2

/-- An orderly solver that admits no fault leads to an answer. -/
theorem Runs.answer (runs : Runs rules jumping action solver after fun _ _ => False)
    (orderly : solver.Orderly rules) : ∃ answer rest, action solver = .ok answer rest ∧
      Steps rules jumping solver rest ∧ after answer rest := by
  unfold Runs Ends at runs
  cases result : action solver with
  | ok answer rest =>
      rw [result] at runs
      exact ⟨answer, rest, rfl, runs⟩
  | error fault rest =>
      rw [result] at runs
      cases fault with
      | abort abort => exact absurd orderly runs
      | error error => exact runs.2.elim
      | outOfFuel => exact runs.2.elim

theorem Runs.known {answer : α} (result : action solver = .ok answer solver)
    (holds : after answer solver) : Runs rules jumping action solver after excuse := by
  unfold Runs Ends
  rw [result]
  exact ⟨.refl, holds⟩

theorem runs_known {next : α → SolverM τ β} {last : β → Solver τ → Prop} {answer : α}
    (result : action solver = .ok answer solver) :
    Runs rules jumping (action >>= next) solver last excuse ↔
      Runs rules jumping (next answer) solver last excuse := by
  unfold Runs
  rw [ends_bind, Ends, result]

theorem Runs.of_ok {answer : α} (runs : Runs rules jumping action solver after excuse)
    (result : action solver = .ok answer rest) :
    Steps rules jumping solver rest ∧ after answer rest :=
  Ends.of_ok runs result

/-- Steps may be taken for jumps. -/
theorem Runs.any (runs : Runs rules jumping action solver after excuse) :
    Runs rules true action solver after excuse := by
  refine Ends.mono runs (fun _ _ ends => ⟨Steps.any ends.1, ends.2⟩) ?_
  intro fault rest breaks
  cases fault with
  | abort abort => exact breaks
  | error error => exact ⟨Steps.any breaks.1, breaks.2⟩
  | outOfFuel => exact ⟨Steps.any breaks.1, breaks.2⟩

theorem Runs.excused (runs : Runs rules jumping action solver after excuse) :
    Runs rules jumping action solver after fun _ _ => True :=
  runs.mono (fun _ _ _ answered => answered) fun _ _ _ _ => trivial

end Logic

namespace Solver

variable {τ : Type} [TheoryAtom τ] {rules : Rules τ} {jumping : Bool} {origin solver : Solver τ}
  {excuse : Fault → Solver τ → Prop}

/-! ## Telling and counting -/

/-- Nothing but the counters, the status and the events differ, and the events by
no jump. -/
structure Told (before after : Solver τ) : Prop where
  assignment : after.toAssignment = before.toAssignment
  theoryAtoms : after.theoryAtoms = before.theoryAtoms
  configuration : after.configuration = before.configuration
  splits : after.splits = before.splits

omit [TheoryAtom τ] in
theorem Told.refl (solver : Solver τ) : Told solver solver := ⟨rfl, rfl, rfl, rfl⟩

omit [TheoryAtom τ] in
theorem Told.trans {first second third : Solver τ} (left : Told first second)
    (right : Told second third) : Told first third :=
  ⟨right.1.trans left.1, right.2.trans left.2, right.3.trans left.3, right.4.trans left.4⟩

theorem Told.step {before after : Solver τ} (told : Told before after) :
    Step rules jumping before after :=
  .tell told.assignment told.theoryAtoms told.configuration told.splits

/-- Whether the event tells of a semantic split. -/
def isSplit : Event → Bool
  | .backjump _ _ .semanticSplit => true
  | _ => false

omit [TheoryAtom τ] in
theorem splits_eq (solver : Solver τ) : solver.splits = solver.events.countP isSplit := rfl

omit [TheoryAtom τ] in
theorem told_count (solver : Solver τ) (counters : Counters) :
    Told solver { solver with counters := counters } := ⟨rfl, rfl, rfl, rfl⟩

omit [TheoryAtom τ] in
theorem told_status (solver : Solver τ) (status : Status) :
    Told solver { solver with status := status } := ⟨rfl, rfl, rfl, rfl⟩

omit [TheoryAtom τ] in
theorem told_emit (solver : Solver τ) {event : Event} (plain : isSplit event = false) :
    Told solver { solver with events := solver.events.push event } := by
  refine ⟨rfl, rfl, rfl, ?_⟩
  rw [splits_eq, Array.countP_push, plain]
  rfl

theorem runs_count (update : Counters → Counters) :
    Runs rules jumping (count update) solver (fun _ rest => Told solver rest) excuse := by
  have told := told_count solver (update solver.counters)
  exact ⟨.single told.step, told⟩

theorem runs_emit {event : Event} (plain : isSplit event = false) :
    Runs rules jumping (emit event) solver (fun _ rest => Told solver rest) excuse := by
  have told := told_emit solver plain
  exact ⟨.single told.step, told⟩

omit [TheoryAtom τ] in
theorem clause_of_stored {key : ClauseKey} {clause : Clause}
    (stored : solver.clauses.clause? key = some clause) :
    Solver.clause key solver = .ok clause solver := by
  unfold Solver.clause
  rw [get_bind, stored]
  rfl

omit [TheoryAtom τ] in
theorem clause_of_missing {key : ClauseKey} (missing : solver.clauses.clause? key = none) :
    Solver.clause key solver = .error (.error .missingClause) solver := by
  unfold Solver.clause
  rw [get_bind, missing]
  rfl

theorem runs_clause {α : Type} {next : Clause → SolverM τ α} {last : α → Solver τ → Prop}
    {key : ClauseKey} {clause : Clause} (stored : solver.clauses.clause? key = some clause) :
    Runs rules jumping (Solver.clause key >>= next) solver last excuse ↔
      Runs rules jumping (next clause) solver last excuse :=
  runs_known (clause_of_stored stored)

/-! ## Giving values -/

omit [TheoryAtom τ] in
theorem setError?_of_free {atom : Atom} {level : Nat} (free : solver.Free atom)
    (isOpen : level ≤ solver.trail.level) : solver.setError? atom level = none :=
  Assignment.setError?_eq_none.mpr ⟨isOpen, free.unvalued, free.known⟩

omit [TheoryAtom τ] in
/-- An atom of an orderly solver that could have the value and has none is free. -/
theorem Admits.free {atom : Atom} {value : Value} (admits : solver.Admits atom value)
    (unvalued : solver.trail.get? atom = none) : solver.Free atom := by
  refine ⟨unvalued, ?_⟩
  rintro key rfl
  obtain ⟨known, present, _⟩ := admits
  exact (Array.getElem?_eq_some_iff.mp present).1

/-- A value that follows is given, unless the atom does not exist or has a value. -/
theorem runs_setValue (valid : origin.Valid rules solver) {atom : Atom} {value : Value}
    {reason : Reason} {level : Nat} (grounds : Grounds rules solver atom value reason level)
    (unvalued : solver.Orderly rules → solver.trail.get? atom = none) :
    Runs rules jumping (setValue atom value reason level) solver
      (fun _ rest => solver.Free atom ∧ rest = solver.given atom value reason level) excuse := by
  have isOpen := grounds.level_le valid.coherent.assignment.trail
  rw [setValue_eq, runs_get]
  cases refused : solver.setError? atom level with
  | none =>
      obtain ⟨_, empty, known⟩ := Assignment.setError?_eq_none.mp refused
      have free : solver.Free atom := ⟨empty, known⟩
      exact Runs.modify (.give free grounds) |>.imp fun _ _ _ same => ⟨free, same⟩
  | some abort =>
      refine .throwAbort fun orderly => ?_
      have free := (grounds.cause.admits orderly).free (unvalued orderly)
      rw [setError?_of_free free isOpen] at refused
      cases refused

omit [TheoryAtom τ] in
/-- Between opening a level and giving a value no fault is possible. -/
theorem decide_of_free {atom : Atom} (free : solver.Free atom) (value : Value) :
    decide atom value solver =
      .ok () { solver.chosen atom value with
        events := solver.events.push (.decision atom value) } := by
  have accepted : Assignment.setError?
      { solver.toAssignment with trail := solver.trail.openLevel } atom
      solver.trail.openLevel.level = none :=
    Assignment.setError?_eq_none.mpr ⟨Nat.le_refl _, free.unvalued, free.known⟩
  have ends : Ends (decide atom value) solver (fun _ rest => rest =
      { solver.chosen atom value with
        events := solver.events.push (.decision atom value) }) fun _ _ => False := by
    unfold decide
    simp only [setValue_eq, ends_bind, ends_modify, ends_get, free.unvalued, Option.isSome_none,
      Bool.false_eq_true, if_false]
    rw [accepted]
    rfl
  obtain ⟨_, rest, result, rfl⟩ := ends.answer
  exact result

omit [TheoryAtom τ] in
theorem ends_decide {atom : Atom} (free : solver.Free atom) {value : Value}
    {after : Unit → Solver τ → Prop} {broken : Fault → Solver τ → Prop} :
    Ends (decide atom value) solver after broken ↔
      after () { solver.chosen atom value with
        events := solver.events.push (.decision atom value) } := by
  rw [Ends, decide_of_free free]

omit [TheoryAtom τ] in
theorem decide_of_not_free {atom : Atom} (taken : ¬solver.Free atom) (value : Value) :
    ∃ abort rest, decide atom value solver = .error (.abort abort) rest := by
  have ends : Ends (decide atom value) solver (fun _ _ => False)
      fun fault _ => ∃ abort, fault = .abort abort := by
    unfold decide
    simp only [setValue_eq, ends_bind, ends_get]
    by_cases valued : (solver.trail.get? atom).isSome = true
    · simp [valued]
    · rw [if_neg valued]
      simp only [ends_bind, ends_modify, ends_get]
      cases refused : Assignment.setError?
          { solver.toAssignment with trail := solver.trail.openLevel } atom
          solver.trail.openLevel.level with
      | some abort => exact ⟨abort, rfl⟩
      | none =>
          obtain ⟨_, empty, known⟩ := Assignment.setError?_eq_none.mp refused
          exact absurd ⟨empty, known⟩ taken
  unfold Ends at ends
  cases result : decide atom value solver with
  | ok answer rest =>
      rw [result] at ends
      exact ends.elim
  | error fault rest =>
      rw [result] at ends
      obtain ⟨abort, rfl⟩ := ends
      exact ⟨abort, rest, rfl⟩

/-- A choice with a warrant is made, unless the atom does not exist or has a value. -/
theorem runs_decide {atom : Atom} {value : Value}
    (warrant : Warrant rules solver atom value)
    (unvalued : solver.Orderly rules → solver.trail.get? atom = none) :
    Runs rules jumping (decide atom value) solver
      (fun _ rest => solver.Free atom ∧
        rest.toAssignment = (solver.chosen atom value).toAssignment ∧
        rest.splits = solver.splits) excuse := by
  unfold Runs Ends
  by_cases free : solver.Free atom
  · have told : Told (solver.chosen atom value) { solver.chosen atom value with
        events := solver.events.push (.decision atom value) } := told_emit _ rfl
    rw [decide_of_free free]
    exact ⟨.tail (.single (.choose free warrant)) told.step, free, told.assignment,
      told.splits⟩
  · obtain ⟨abort, rest, result⟩ := decide_of_not_free free value
    rw [result]
    exact fun orderly => free ((warrant.cause.admits orderly).free (unvalued orderly))

omit [TheoryAtom τ] in
/-- A literal whose atom is free is made true at the current level. -/
theorem propagateLiteral_of_free {literal : Literal} (free : solver.Free literal.atom)
    (key : ClauseKey) :
    ∃ rest, propagateLiteral key literal solver = .ok (.ok true) rest ∧
      rest.theoryAtoms = solver.theoryAtoms ∧
        rest.toAssignment = (solver.given literal.atom (.boolean literal.polarity) (.clause key)
          solver.trail.level).toAssignment := by
  have unknown : solver.trail.literalTruth? literal = none := by
    rw [Trail.literalTruth?, Trail.truth?, Trail.value?, free.unvalued]
    rfl
  have accepted := setError?_of_free free (Nat.le_refl _)
  have ends : Ends (propagateLiteral key literal) solver (fun answer rest => answer = .ok true ∧
      rest.theoryAtoms = solver.theoryAtoms ∧
        rest.toAssignment = (solver.given literal.atom (.boolean literal.polarity) (.clause key)
          solver.trail.level).toAssignment) fun _ _ => False := by
    unfold propagateLiteral count
    simp only [setValue_eq, ends_bind, ends_modify, ends_get, unknown, accepted]
    exact ⟨rfl, rfl, rfl⟩
  obtain ⟨_, rest, result, rfl, theoryAtoms, assignment⟩ := ends.answer
  exact ⟨rest, result, theoryAtoms, assignment⟩

/-- What becomes of the literal of a clause whose other literals are false. -/
def Propagated (before : Solver τ) (key : ClauseKey) (literal : Literal)
    (answer : Except ClauseKey Bool) (after : Solver τ) : Prop :=
  match answer with
  | .error conflict => conflict = key ∧ after.Violates key ∧
      before.trail.literalTruth? literal = some false
  | .ok false => after.toAssignment = before.toAssignment ∧
      before.trail.literalTruth? literal = some true
  | .ok true => before.Free literal.atom ∧ after.toAssignment =
      (before.given literal.atom (.boolean literal.polarity) (.clause key)
        before.trail.level).toAssignment

omit [TheoryAtom τ] in
/-- In an orderly solver an atom of a clause has a Boolean value or none. -/
theorem Sorted.unvalued (sorted : solver.Sorted) {key : ClauseKey} {clause : Clause}
    (stored : solver.clauses.clause? key = some clause) {literal : Literal}
    (member : literal ∈ clause) (undetermined : solver.trail.literalTruth? literal = none) :
    solver.trail.get? literal.atom = none := by
  cases found : solver.trail.get? literal.atom with
  | none => rfl
  | some entry =>
      have admits := sorted.typed _ entry found
      have fits := sorted.fitting _ _ stored _ member
      have boolean : entry.value.sort = .boolean := by
        cases shape : literal.atom with
        | theory key =>
            rw [shape] at admits
            exact admits.2
        | var key =>
            rw [shape] at admits fits
            obtain ⟨known, present, same⟩ := admits
            obtain ⟨again, presentAgain, boolean⟩ := fits
            rw [present] at presentAgain
            rw [← same, Option.some.inj presentAgain]
            exact boolean
      cases value : entry.value with
      | rational number =>
          rw [value] at boolean
          cases boolean
      | boolean truth =>
          have determined := Trail.truth?_eq_some.mpr ⟨entry, found, value⟩
          rw [Trail.literalTruth?, determined] at undetermined
          cases undetermined

theorem runs_propagateLiteral (valid : origin.Valid rules solver) {key : ClauseKey}
    {clause : Clause} {literal : Literal} (stored : solver.clauses.clause? key = some clause)
    (member : literal ∈ clause)
    (others : ∀ other ∈ clause, other ≠ literal → solver.Falsifies other) :
    Runs rules jumping (propagateLiteral key literal) solver (Propagated solver key literal)
      excuse := by
  unfold propagateLiteral
  refine Runs.bind valid (runs_count _) fun _ counted steps told => ?_
  have same := told.assignment
  have valid := Steps.valid steps valid
  rw [runs_get]
  have trail : counted.trail = solver.trail := congrArg Assignment.trail same
  have clauses : counted.clauses = solver.clauses := congrArg Assignment.clauses same
  dsimp only
  rw [trail]
  cases truth : solver.trail.literalTruth? literal with
  | none =>
      have grounds : Grounds rules counted literal.atom (.boolean literal.polarity)
          (.clause key) solver.trail.level := by
        rw [← trail]
        refine .clause (clauses ▸ stored) member fun other inside different => ?_
        rw [Assignment.Falsifies, trail]
        exact others other inside different
      refine Runs.bind valid (runs_setValue valid grounds fun orderly => ?_)
        fun _ set steps given => ?_
      · rw [← trail] at truth
        exact orderly.sorted.unvalued (clauses ▸ stored) member truth
      · obtain ⟨free, rfl⟩ := given
        refine Runs.bind (Steps.valid steps valid) (runs_emit rfl)
          fun _ last _ told => .pure ⟨?_, ?_⟩
        · exact ⟨trail ▸ free.unvalued, (congrArg Assignment.vars same) ▸ free.known⟩
        · rw [told.assignment]
          unfold Solver.given
          dsimp only
          rw [same]
  | some truthful =>
      cases truthful with
      | true => exact .pure ⟨same, truth⟩
      | false =>
          refine .pure ⟨rfl, ⟨clause, clauses ▸ stored, fun other inside => ?_⟩, truth⟩
          rw [Assignment.Falsifies, trail]
          exact (Assignment.falsifies_iff.mpr truth).all others other inside

/-- A variable gets an implied value, unless it has one. -/
theorem runs_assignImplied (valid : origin.Valid rules solver) {owner : TheoryKey}
    {key : VariableKey} {value : Value} (allowed : rules.assign solver owner key value) :
    Runs rules jumping (assignImplied key value) solver
      (fun answer rest =>
        if answer then
          solver.Free (.var key) ∧ rest.toAssignment =
            (solver.given (.var key) value .semantic solver.trail.level).toAssignment
        else rest = solver ∧ (solver.trail.get? (.var key)).isSome = true) excuse := by
  unfold assignImplied
  rw [runs_get]
  by_cases valued : (solver.trail.get? (.var key)).isSome = true
  · rw [if_pos valued]
    exact .pure ⟨rfl, valued⟩
  · rw [if_neg valued]
    have empty : solver.trail.get? (.var key) = none := by simpa using valued
    refine Runs.bind valid (runs_setValue valid (.request allowed) fun _ => empty)
      fun _ set steps given => ?_
    obtain ⟨free, rfl⟩ := given
    have valid := Steps.valid steps valid
    refine Runs.bind valid (runs_count _) fun _ counted steps first => ?_
    refine Runs.bind (Steps.valid steps valid) (runs_emit rfl) fun _ last _ second => .pure ?_
    exact ⟨free, second.assignment.trans first.assignment⟩

/-- A lemma is added, unless its literals do not fit. -/
theorem runs_offerLemma (valid : origin.Valid rules solver) {owner : TheoryKey} {clause : Clause}
    (allowed : rules.learn solver owner clause) :
    Runs rules jumping (offerLemma clause) solver (fun _ _ => True) excuse := by
  unfold offerLemma
  rw [runs_get]
  cases fitting : clauseError? solver clause with
  | some error => exact .pure trivial
  | none =>
      have inserted : Runs rules jumping (insertClause clause .theory) solver
          (fun _ _ => True) excuse := ⟨.single (.learn allowed fitting), trivial⟩
      refine Runs.bind valid inserted fun _ rest steps _ => ?_
      exact Runs.bind (Steps.valid steps valid) (runs_emit rfl) fun _ _ _ _ => .pure trivial

end Solver

end ModelSearch
