import ModelSearch.Proofs.Actions.Outcomes
import ModelSearch.Proofs.Steps.Invariants

/-!
# Stating a formula

A formula is stated by adding variables, theory atoms and clauses to a new solver.
Nothing is assigned meanwhile, every clause is watched, and all of it fits, so the
invariants hold when a search begins.
-/

namespace ModelSearch

/-- The solver came about by stating a formula. -/
inductive Stated {τ : Type} [TheoryAtom τ] (configuration : Configuration) : Solver τ → Prop
  | new : Stated configuration (Solver.new configuration)
  | addVariable {solver rest : Solver τ} {name : String} {sort : VariableSort}
      {key : VariableKey} (stated : Stated configuration solver)
      (added : Solver.addVariable name sort solver = .ok key rest) : Stated configuration rest
  | addTheoryAtom {solver rest : Solver τ} {atom : τ} {answer : Atom}
      (stated : Stated configuration solver)
      (added : Solver.addTheoryAtom atom solver = .ok answer rest) : Stated configuration rest
  | addNegation {solver rest : Solver τ} {atom answer : Atom}
      (stated : Stated configuration solver)
      (added : Solver.addNegation atom solver = .ok answer rest) : Stated configuration rest
  | addClause {solver rest : Solver τ} {clause : Clause} {key : ClauseKey}
      (stated : Stated configuration solver)
      (added : Solver.addClause clause solver = .ok key rest) : Stated configuration rest

namespace Solver

variable {τ : Type} {solver rest : Solver τ} {name : String} {sort : VariableSort}
  {clause : Clause}

/-! ## Additions -/

/-- The solver with a variable appended. -/
def withVariable (solver : Solver τ) (name : String) (sort : VariableSort) : Solver τ :=
  { solver with
    vars := solver.vars.push name sort
    counters := { solver.counters with addedVariables := solver.counters.addedVariables + 1 } }

/-- The solver with a theory atom appended. -/
def withTheoryAtom [TheoryAtom τ] (solver : Solver τ) (atom : τ) : Solver τ :=
  { solver with
    vars := solver.vars.watch solver.theoryAtoms.size (TheoryAtom.support atom)
    theoryAtoms := solver.theoryAtoms.push atom }

/-- The solver with a clause of the formula appended. -/
def withClause (solver : Solver τ) (clause : Clause) : Solver τ :=
  { solver with
    clauses := (solver.clauses.add clause .input).2
    counters := { solver.counters with inputClauses := solver.counters.inputClauses + 1 }
    events := solver.events.push (.inputAdded solver.clauses.size) }

/-- The solver with a clause of the theory appended. -/
def withLemma (solver : Solver τ) (clause : Clause) : Solver τ :=
  { solver with
    clauses := (solver.clauses.add clause .theory).2
    events := solver.events.push (.lemmaAdded solver.clauses.size) }

theorem stored?_withClause (solver : Solver τ) (clause : Clause) (key : ClauseKey) :
    (solver.withClause clause).clauses.stored? key =
      if key = solver.clauses.size then some ⟨clause, .input, true⟩
      else solver.clauses.stored? key :=
  ClauseStore.stored?_add _ _ _ _

theorem clause?_withClause (solver : Solver τ) (clause : Clause) (key : ClauseKey) :
    (solver.withClause clause).clauses.clause? key =
      if key = solver.clauses.size then some clause else solver.clauses.clause? key := by
  rw [ClauseStore.clause?, stored?_withClause]
  split <;> rfl

theorem splits_withClause (solver : Solver τ) (clause : Clause) :
    (solver.withClause clause).splits = solver.splits := by
  unfold splits withClause
  rw [Array.countP_push]
  rfl

theorem requireInput_eq (input : solver.status = .input) :
    requireInput solver = .ok ⟨⟩ solver := by
  show (if solver.status ≠ .input then
    (throw (Fault.error .solveStarted) : SolverM τ Unit) else pure ⟨⟩) solver = _
  rw [if_neg (not_not.mpr input)]
  rfl

theorem requireInput_closed (closed : solver.status ≠ .input) :
    requireInput solver = .error (.error .solveStarted) solver := by
  show (if solver.status ≠ .input then
    (throw (Fault.error .solveStarted) : SolverM τ Unit) else pure ⟨⟩) solver = _
  rw [if_pos closed]
  rfl

theorem addVariable_eq (input : solver.status = .input) :
    addVariable name sort solver = match solver.vars.nameError? name with
      | some error => .error (.error error) solver
      | none => .ok solver.vars.size (solver.withVariable name sort) := by
  unfold addVariable
  rw [bind_eq (requireInput_eq input)]
  rw [get_bind]
  cases solver.vars.nameError? name <;> rfl

theorem addClause_eq (input : solver.status = .input) :
    addClause clause solver = match clauseError? solver clause with
      | some error => .error (.error error) solver
      | none => .ok solver.clauses.size (solver.withClause clause) := by
  unfold addClause
  rw [bind_eq (requireInput_eq input)]
  rw [get_bind]
  cases clauseError? solver clause <;> rfl

variable [TheoryAtom τ]

theorem addTheoryAtom_eq (input : solver.status = .input) (atom : τ) :
    addTheoryAtom atom solver =
      if (TheoryAtom.support atom).all (· < solver.vars.size) then
        .ok (.theory solver.theoryAtoms.size) (solver.withTheoryAtom atom)
      else .error (.error .unknownVariable) solver := by
  unfold addTheoryAtom
  rw [bind_eq (requireInput_eq input)]
  show (if _ then _ else _ : SolverM τ _) solver = _
  split <;> rfl

omit [TheoryAtom τ] in
theorem theoryAtom_eq (solver : Solver τ) (key : TheoryKey) : theoryAtom key solver =
    match solver.theoryAtoms[key]? with
    | none => .error (.error .unknownAtom) solver
    | some known => .ok known solver := by
  unfold theoryAtom
  rw [get_bind]
  cases solver.theoryAtoms[key]? <;> rfl

/-! ## What is granted, and what is refused -/

omit [TheoryAtom τ] in
/-- The action ends as in `granted`, or in an error before it has done anything. -/
def Grants {α : Type} (action : SolverM τ α) (solver : Solver τ)
    (granted : α → Solver τ → Prop) : Prop :=
  Ends action solver granted fun fault rest => (∃ error, fault = .error error) ∧ rest = solver

omit [TheoryAtom τ] in
theorem Grants.imp {α : Type} {action : SolverM τ α} {granted later : α → Solver τ → Prop}
    (grants : Grants action solver granted)
    (weaker : ∀ answer rest, granted answer rest → later answer rest) :
    Grants action solver later :=
  Ends.mono grants weaker fun _ _ => id

omit [TheoryAtom τ] in
theorem grants_addVariable (name : String) (sort : VariableSort) :
    Grants (addVariable name sort) solver fun _ rest => solver.status = .input ∧
      solver.vars.nameError? name = none ∧ rest = solver.withVariable name sort := by
  by_cases input : solver.status = .input
  · rw [Grants, Ends, addVariable_eq input]
    cases unused : solver.vars.nameError? name with
    | some error => exact ⟨⟨error, rfl⟩, rfl⟩
    | none => exact ⟨input, rfl, rfl⟩
  · rw [Grants, Ends, addVariable, bind_eq_error (requireInput_closed input)]
    exact ⟨⟨_, rfl⟩, rfl⟩

omit [TheoryAtom τ] in
theorem grants_addBoolean (name : String) :
    Grants (addBoolean name) solver fun _ rest => solver.status = .input ∧
      solver.vars.nameError? name = none ∧ rest = solver.withVariable name .boolean :=
  Ends.bind (grants_addVariable name .boolean) (fun _ _ => id) fun _ _ => id

omit [TheoryAtom τ] in
theorem grants_addClause (clause : Clause) :
    Grants (addClause clause) solver fun _ rest => solver.status = .input ∧
      clauseError? solver clause = none ∧ rest = solver.withClause clause := by
  by_cases input : solver.status = .input
  · rw [Grants, Ends, addClause_eq input]
    cases fitting : clauseError? solver clause with
    | some error => exact ⟨⟨error, rfl⟩, rfl⟩
    | none => exact ⟨input, rfl, rfl⟩
  · rw [Grants, Ends, addClause, bind_eq_error (requireInput_closed input)]
    exact ⟨⟨_, rfl⟩, rfl⟩

omit [TheoryAtom τ] in
/-- A clause of the theory is refused by an answer, in a search as well. -/
theorem ends_offerLemma (clause : Clause) :
    Ends (offerLemma clause) solver
      (fun answer rest => match answer with
        | .error _ => rest = solver
        | .ok _ => clauseError? solver clause = none ∧ rest = solver.withLemma clause)
      fun _ _ => False := by
  unfold offerLemma
  refine ends_get_bind.mpr ?_
  cases fitting : clauseError? solver clause with
  | some error => exact rfl
  | none => exact ⟨rfl, rfl⟩

omit [TheoryAtom τ] in
theorem grants_addLemma (clause : Clause) :
    Grants (addLemma clause) solver fun _ rest =>
      clauseError? solver clause = none ∧ rest = solver.withLemma clause := by
  refine Ends.bind (ends_offerLemma clause) (fun answer rest offered => ?_) fun _ _ => False.elim
  cases answer with
  | ok key => exact offered
  | error error => exact ⟨⟨error, rfl⟩, offered⟩

theorem grants_addTheoryAtom (atom : τ) :
    Grants (addTheoryAtom atom) solver fun _ rest => solver.status = .input ∧
      (∀ key ∈ TheoryAtom.support atom, key < solver.vars.size) ∧
        rest = solver.withTheoryAtom atom := by
  by_cases input : solver.status = .input
  · rw [Grants, Ends, addTheoryAtom_eq input]
    by_cases known : (TheoryAtom.support atom).all (· < solver.vars.size) = true
    · rw [if_pos known]
      exact ⟨input, fun key member => by simpa using List.all_eq_true.mp known key member, rfl⟩
    · rw [if_neg known]
      exact ⟨⟨_, rfl⟩, rfl⟩
  · rw [Grants, Ends, addTheoryAtom, bind_eq_error (requireInput_closed input)]
    exact ⟨⟨_, rfl⟩, rfl⟩

/-- A negation is added as a theory atom of its own. -/
theorem grants_addNegation (atom : Atom) :
    Grants (addNegation atom) solver fun _ rest => ∃ negation : τ, solver.status = .input ∧
      (∀ key ∈ TheoryAtom.support negation, key < solver.vars.size) ∧
        rest = solver.withTheoryAtom negation := by
  cases atom with
  | var key => exact ⟨⟨_, rfl⟩, rfl⟩
  | theory key =>
      have looked := theoryAtom_eq solver key
      show Grants (theoryAtom key >>= fun known => addTheoryAtom (TheoryAtom.negate known)) solver _
      cases present : solver.theoryAtoms[key]? with
      | none =>
          rw [present] at looked
          exact (ends_broken looked).mpr ⟨⟨_, rfl⟩, rfl⟩
      | some known =>
          rw [present] at looked
          refine (ends_known looked).mpr ?_
          exact (grants_addTheoryAtom (TheoryAtom.negate known)).imp fun _ _ granted => ⟨_, granted⟩

/-! ## Coherence of a formula in the making -/

omit [TheoryAtom τ] in
theorem variablesFollow_empty : VariablesFollow (∅ : Trail).value? ∅ where
  queue := LazyQueue.sound_empty
  watches := Watches.sound_empty
  values key := by
    rw [Trail.value?, Trail.get?_empty]
    rfl
  queued key := by
    show (∅ : LazyQueue).contains key = true ↔ key < 0 ∧ _
    simp
  marks key := by
    rw [Trail.value?, Trail.get?_empty]
    exact Std.TreeMap.getD_emptyc

theorem clausesFollow_empty : ClausesFollow (∅ : Trail).value? ∅ where
  watches := Watches.sound_empty
  marks literal := by
    rw [← Trail.literalTruth?_eq, Trail.literalTruth?, Trail.truth?, Trail.value?, Trail.get?_empty]
    exact Std.TreeMap.getD_emptyc
  watched key literals := by
    constructor
    · rintro ⟨index, set, found, _⟩
      exact (Watches.no_sets_empty index set found).elim
    · rintro ⟨stored, found, _⟩
      cases found

theorem Coherent.new (configuration : Configuration) :
    (Solver.new configuration : Solver τ).Coherent := by
  refine ⟨⟨Trail.sound_empty, variablesFollow_empty, clausesFollow_empty⟩, ?_, ?_⟩
  · intro owner members
    constructor
    · rintro ⟨index, set, found, _⟩
      exact (Watches.no_sets_empty index set found).elim
    · rintro ⟨atom, present, _⟩
      cases present
  · intro owner atom present
    cases present

theorem Coherent.withVariable (coherent : solver.Coherent) (name : String)
    (sort : VariableSort) : (solver.withVariable name sort).Coherent := by
  refine ⟨⟨coherent.assignment.trail, coherent.assignment.vars.push name sort,
    coherent.assignment.clauses⟩, coherent.supports, ?_⟩
  intro owner atom present key member
  have inside := coherent.registered owner atom present key member
  show key < (solver.vars.push name sort).size
  rw [VariableStore.size_push]
  exact Nat.lt_succ_of_lt inside

theorem Coherent.withTheoryAtom (coherent : solver.Coherent) {atom : τ}
    (known : ∀ key ∈ TheoryAtom.support atom, key < solver.vars.size) :
    (solver.withTheoryAtom atom).Coherent := by
  have added : ∀ owner : Nat, ∀ other : τ,
      (solver.withTheoryAtom atom).theoryAtoms[owner]? = some other ↔
        solver.theoryAtoms[owner]? = some other ∨
          owner = solver.theoryAtoms.size ∧ other = atom := by
    intro owner other
    show (solver.theoryAtoms.push atom)[owner]? = some other ↔ _
    rw [Array.getElem?_push]
    split
    · next last =>
        subst last
        simp [eq_comm]
    · next earlier => simp [earlier]
  refine ⟨⟨coherent.assignment.trail, coherent.assignment.vars.watch _ _,
    coherent.assignment.clauses⟩, ?_, ?_⟩
  · intro owner members
    show (solver.vars.watches.add _ _).2.Watching owner members ↔ _
    rw [Watches.watching_add coherent.assignment.vars.watches, coherent.supports]
    simp only [added]
    constructor
    · rintro (⟨other, present, same⟩ | ⟨rfl, rfl⟩)
      · exact ⟨other, .inl present, same⟩
      · exact ⟨atom, .inr ⟨rfl, rfl⟩, rfl⟩
    · rintro ⟨other, present | ⟨rfl, rfl⟩, same⟩
      · exact .inl ⟨other, present, same⟩
      · exact .inr ⟨rfl, same.symm⟩
  · intro owner other present key member
    rcases (added owner other).mp present with former | ⟨_, rfl⟩
    · exact coherent.registered owner other former key member
    · exact known key member

theorem Coherent.withClause (coherent : solver.Coherent) (clause : Clause) :
    (solver.withClause clause).Coherent := by
  have added := coherent.withClauses (coherent.assignment.clauses.add clause .input)
  exact ⟨added.assignment, added.supports, added.registered⟩

/-! ## What is ready for a search -/

/-- A formula is stated, and nothing has been assigned. -/
structure Ready (configuration : Configuration) (solver : Solver τ) : Prop where
  coherent : solver.Coherent
  sorted : solver.Sorted
  untouched : solver.trail = ∅
  input : solver.status = .input
  configured : solver.configuration = configuration
  named : solver.vars.Named
  watched : ∀ key clause, solver.clauses.clause? key = some clause →
    solver.clauses.Watched key clause
  unsplit : solver.splits = 0

omit [TheoryAtom τ] in
theorem get?_untouched (untouched : solver.trail = ∅) (atom : Atom) :
    solver.trail.get? atom = none := by
  rw [untouched, Trail.get?_empty]

omit [TheoryAtom τ] in
theorem Reasoned.untouched (untouched : solver.trail = ∅) : solver.Reasoned where
  led level positive below := by
    rw [untouched] at below
    exact absurd positive (Nat.not_lt.mpr below)
  leading atom entry found := by
    rw [get?_untouched untouched] at found
    cases found
  explained atom entry key found := by
    rw [get?_untouched untouched] at found
    cases found

variable {configuration : Configuration} {rules : Rules τ}

theorem Ready.valid (ready : solver.Ready configuration) : solver.Valid rules solver where
  reached := .refl
  continues := .refl solver
  coherent := ready.coherent
  reasoned := .untouched ready.untouched

theorem Ready.posted (ready : solver.Ready configuration) : solver.Posted := by
  intro key stored present _
  obtain ⟨again, found, watched, _⟩ :=
    ready.watched key stored.clause (ClauseStore.clause?_eq_some.mpr ⟨stored, present, rfl⟩)
  obtain rfl := Option.some.inj (found.symm.trans present)
  exact watched

theorem Ready.unsettled (ready : solver.Ready configuration) : settled? solver = none := by
  rw [settled?, ready.input]

theorem Ready.new (configuration : Configuration) :
    (Solver.new configuration : Solver τ).Ready configuration where
  coherent := .new configuration
  sorted := by
    refine ⟨fun atom entry found => ?_, fun key clause stored => ?_⟩
    · rw [get?_untouched rfl] at found
      cases found
    · cases stored
  untouched := rfl
  input := rfl
  configured := rfl
  named name := by
    show (∅ : Std.TreeMap String VariableKey).contains name = true ↔ ∃ sort, (name, sort) ∈ []
    simp
  watched key clause stored := by cases stored
  unsplit := rfl

omit [TheoryAtom τ] in
theorem admits_withVariable {atom : Atom} {value : Value} (admits : solver.Admits atom value) :
    (solver.withVariable name sort).Admits atom value := by
  cases atom with
  | theory key => exact admits
  | var key =>
      obtain ⟨known, present, same⟩ := admits
      refine ⟨known, ?_, same⟩
      show (solver.vars.push name sort).get? key = some known
      have inside : key < solver.vars.size := (Array.getElem?_eq_some_iff.mp present).1
      rw [VariableStore.get?_push, if_neg (Nat.ne_of_lt inside), present]

omit [TheoryAtom τ] in
theorem Checked.withVariable (checked : solver.Checked) (name : String) (sort : VariableSort) :
    (solver.withVariable name sort).Checked :=
  fun key clause stored literal member =>
    admits_withVariable (checked key clause stored literal member)

theorem admits_withTheoryAtom {atom : τ} {subject : Atom} {value : Value}
    (admits : solver.Admits subject value) : (solver.withTheoryAtom atom).Admits subject value := by
  cases subject with
  | var key => exact admits
  | theory key =>
      refine ⟨?_, admits.2⟩
      show key < (solver.theoryAtoms.push atom).size
      rw [Array.size_push]
      exact Nat.lt_succ_of_lt admits.1

theorem Checked.withTheoryAtom (checked : solver.Checked) (atom : τ) :
    (solver.withTheoryAtom atom).Checked :=
  fun key clause stored literal member =>
    admits_withTheoryAtom (checked key clause stored literal member)

omit [TheoryAtom τ] in
theorem Checked.added (checked : solver.Checked) (fitting : clauseError? solver clause = none)
    (source : ClauseSource) :
    Checked { solver with clauses := (solver.clauses.add clause source).2 } := by
  intro key present stored literal member
  replace stored : (solver.clauses.add clause source).2.clause? key = some present := stored
  rw [ClauseStore.clause?, ClauseStore.stored?_add] at stored
  split at stored
  · cases stored
    exact clauseError?_eq_none.mp fitting literal member
  · exact checked key present stored literal member

omit [TheoryAtom τ] in
theorem Checked.withClause (checked : solver.Checked)
    (fitting : clauseError? solver clause = none) : (solver.withClause clause).Checked :=
  checked.added fitting .input

theorem Ready.withVariable (ready : solver.Ready configuration)
    (unused : solver.vars.nameError? name = none) (sort : VariableSort) :
    (solver.withVariable name sort).Ready configuration where
  coherent := ready.coherent.withVariable name sort
  sorted := ⟨fun atom entry found => admits_withVariable (ready.sorted.typed atom entry found),
    Checked.withVariable ready.sorted.fitting name sort⟩
  untouched := ready.untouched
  input := ready.input
  configured := ready.configured
  named other := by
    show (solver.vars.keys.insert name solver.vars.size).contains other = true ↔
      ∃ kind, (other, kind) ∈ (solver.vars.push name sort).signature
    rw [Std.TreeMap.contains_insert, VariableStore.signature_push, Bool.or_eq_true, ready.named]
    simp only [beq_iff_eq, Std.LawfulEqOrd.compare_eq_iff_eq, List.mem_append,
      List.mem_singleton, Prod.mk.injEq]
    constructor
    · rintro (rfl | ⟨kind, member⟩)
      · exact ⟨sort, .inr ⟨rfl, rfl⟩⟩
      · exact ⟨kind, .inl member⟩
    · rintro ⟨kind, member | ⟨rfl, rfl⟩⟩
      · exact .inr ⟨kind, member⟩
      · exact .inl rfl
  watched := ready.watched
  unsplit := ready.unsplit

theorem Ready.withTheoryAtom (ready : solver.Ready configuration) {atom : τ}
    (known : ∀ key ∈ TheoryAtom.support atom, key < solver.vars.size) :
    (solver.withTheoryAtom atom).Ready configuration where
  coherent := ready.coherent.withTheoryAtom known
  sorted := ⟨fun subject entry found =>
    admits_withTheoryAtom (ready.sorted.typed subject entry found),
      Checked.withTheoryAtom ready.sorted.fitting atom⟩
  untouched := ready.untouched
  input := ready.input
  configured := ready.configured
  named := ready.named
  watched := ready.watched
  unsplit := ready.unsplit

theorem Ready.withClause (ready : solver.Ready configuration)
    (fitting : clauseError? solver clause = none) :
    (solver.withClause clause).Ready configuration where
  coherent := ready.coherent.withClause clause
  sorted := ⟨ready.sorted.typed, Checked.withClause ready.sorted.fitting fitting⟩
  untouched := ready.untouched
  input := ready.input
  configured := ready.configured
  named := ready.named
  watched key present stored := by
    obtain ⟨entry, found, rfl⟩ := ClauseStore.clause?_eq_some.mp stored
    refine ⟨entry, found, ?_, rfl⟩
    rw [stored?_withClause] at found
    split at found
    · rw [← Option.some.inj found]
    · obtain ⟨former, present, watched, _⟩ :=
        ready.watched key _ (ClauseStore.clause?_eq_some.mpr ⟨entry, found, rfl⟩)
      obtain rfl := Option.some.inj (present.symm.trans found)
      exact watched
  unsplit := by rw [splits_withClause, ready.unsplit]

end Solver

theorem Stated.ready {τ : Type} [TheoryAtom τ] {configuration : Configuration}
    {solver : Solver τ} (stated : Stated configuration solver) : solver.Ready configuration := by
  induction stated with
  | new => exact .new configuration
  | addVariable _ added ready =>
      obtain ⟨-, unused, rfl⟩ := Ends.of_ok (Solver.grants_addVariable _ _) added
      exact ready.withVariable unused _
  | addTheoryAtom _ added ready =>
      obtain ⟨-, known, rfl⟩ := Ends.of_ok (Solver.grants_addTheoryAtom _) added
      exact ready.withTheoryAtom known
  | addNegation _ added ready =>
      obtain ⟨_, -, known, rfl⟩ := Ends.of_ok (Solver.grants_addNegation _) added
      exact ready.withTheoryAtom known
  | addClause _ added ready =>
      obtain ⟨-, fitting, rfl⟩ := Ends.of_ok (Solver.grants_addClause _) added
      exact ready.withClause fitting

namespace Stated

variable {τ : Type} [TheoryAtom τ] {configuration : Configuration} {solver : Solver τ}

/-- What each addition keeps to holds of every stated formula. -/
@[elab_as_elim] theorem induct {holds : Solver τ → Prop} (new : holds (Solver.new configuration))
    (withVariable : ∀ solver name sort, holds solver → holds (solver.withVariable name sort))
    (withTheoryAtom : ∀ solver atom, holds solver → holds (solver.withTheoryAtom atom))
    (withClause : ∀ solver clause, holds solver → holds (solver.withClause clause))
    (stated : Stated configuration solver) : holds solver := by
  induction stated with
  | new => exact new
  | addVariable _ added kept =>
      obtain ⟨-, -, rfl⟩ := Ends.of_ok (Solver.grants_addVariable _ _) added
      exact withVariable _ _ _ kept
  | addTheoryAtom _ added kept =>
      obtain ⟨-, -, rfl⟩ := Ends.of_ok (Solver.grants_addTheoryAtom _) added
      exact withTheoryAtom _ _ kept
  | addNegation _ added kept =>
      obtain ⟨_, -, -, rfl⟩ := Ends.of_ok (Solver.grants_addNegation _) added
      exact withTheoryAtom _ _ kept
  | addClause _ added kept =>
      obtain ⟨-, -, rfl⟩ := Ends.of_ok (Solver.grants_addClause _) added
      exact withClause _ _ kept

theorem withVariable (stated : Stated configuration solver) {name : String}
    (unused : solver.vars.nameError? name = none) (sort : VariableSort) :
    Stated configuration (solver.withVariable name sort) := by
  have added : Solver.addVariable name sort solver =
      .ok solver.vars.size (solver.withVariable name sort) := by
    rw [Solver.addVariable_eq stated.ready.input, unused]
  exact stated.addVariable added

theorem withTheoryAtom (stated : Stated configuration solver) {atom : τ}
    (known : (TheoryAtom.support atom).all (· < solver.vars.size) = true) :
    Stated configuration (solver.withTheoryAtom atom) := by
  have added : Solver.addTheoryAtom atom solver =
      .ok (.theory solver.theoryAtoms.size) (solver.withTheoryAtom atom) := by
    rw [Solver.addTheoryAtom_eq stated.ready.input, if_pos known]
  exact stated.addTheoryAtom added

theorem withClause (stated : Stated configuration solver) {clause : Clause}
    (fitting : Solver.clauseError? solver clause = none) :
    Stated configuration (solver.withClause clause) := by
  have added : Solver.addClause clause solver =
      .ok solver.clauses.size (solver.withClause clause) := by
    rw [Solver.addClause_eq stated.ready.input, fitting]
  exact stated.addClause added

end Stated

end ModelSearch
