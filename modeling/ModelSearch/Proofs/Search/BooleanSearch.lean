import ModelSearch.Proofs.Operations.Stating
import ModelSearch.Proofs.Search.Soundness
import ModelSearch.Proofs.Search.Termination

/-!
# Searches without theory atoms

Without theory atoms no value is evaluated, so there is never a split, and an
analysis is never stuck.  A search for a model of a Boolean formula therefore ends,
and says whether the formula has a model.
-/

namespace ModelSearch

variable {τ : Type}

/-- Hooks ask for nothing. -/
def Rules.silent : Rules τ where
  assign _ _ _ _ := False
  decide _ _ _ _ := False
  learn _ _ _ := False

theorem Rules.silent_careful : (Rules.silent : Rules τ).Careful where
  assign _ _ _ _ absurdity := absurdity.elim
  decide _ _ _ _ absurdity := absurdity.elim

variable [TheoryAtom τ] {rules : Rules τ} {jumping : Bool} {origin solver before after : Solver τ}

/-! ## What is kept -/

/-- No theory atom has had a part in the search. -/
structure Solver.Plain (solver : Solver τ) : Prop where
  atomless : solver.theoryAtoms = #[]
  unevaluated : ¬solver.Evaluated
  unsplit : solver.splits = 0

theorem Step.plain (step : Step Rules.silent jumping before after) (coherent : before.Coherent)
    (plain : before.Plain) : after.Plain where
  atomless := (step.continues coherent).theoryAtoms.trans plain.atomless
  unevaluated := by
    rintro ⟨atom, entry, found, semantic⟩
    rcases step.entry coherent found with former | ⟨_, decided, _⟩ | grounds
    · exact plain.unevaluated ⟨atom, entry, former, semantic⟩
    · rw [decided] at semantic
      cases semantic
    · rcases entry with ⟨value, level, reason, position⟩
      cases grounds with
      | clause stored member others => cases semantic
      | evaluation present evaluated valued =>
          rw [plain.atomless] at present
          cases present
      | request allowed => exact allowed
  unsplit := by
    cases step with
    | tell assignment theoryAtoms configuration splits => rw [splits, plain.unsplit]
    | requeue sound same => exact plain.unsplit
    | choose free warrant => exact plain.unsplit
    | give free grounds => exact plain.unsplit
    | learn allowed fitting => exact plain.unsplit
    | store derived => exact plain.unsplit
    | watch key => exact plain.unsplit
    | jump allowed kind below splitting =>
        rw [Solver.splits_jumped, if_neg fun split => plain.unevaluated (splitting split),
          plain.unsplit]

theorem Steps.plain (steps : Steps Rules.silent jumping before after)
    (valid : origin.Valid Rules.silent before) (plain : before.Plain) : after.Plain := by
  induction steps with
  | refl => exact plain
  | tail steps step induction => exact step.plain (Steps.valid steps valid).coherent induction

/-! ## Stating a Boolean formula -/

namespace Solver

/-- Adds a Boolean variable under each name. -/
def addBooleans : List String → SolverM τ Unit
  | [] => return
  | name :: names => do
      let _ ← addBoolean name
      addBooleans names

/-- Adds the clause of each list of literals. -/
def addClauses : List (List Literal) → SolverM τ Unit
  | [] => return
  | literals :: clauses => do
      let _ ← addClause (Clause.ofList literals)
      addClauses clauses

/-- The literals are of the first so many variables. -/
def Over (count : Nat) (literals : List Literal) : Prop :=
  ∀ literal ∈ literals, ∃ key < count, literal.atom = .var key

/-- Each list has a literal that the truth assignment makes true. -/
def Satisfies (truth : VariableKey → Bool) (clauses : List (List Literal)) : Prop :=
  ∀ literals ∈ clauses, ∃ literal ∈ literals, ∃ key,
    literal.atom = .var key ∧ truth key = literal.polarity

variable {configuration : Configuration}

/-- The variables of the formula, its clauses, and nothing else. -/
structure Poses (configuration : Configuration) (names : List String)
    (clauses : List (List Literal)) (solver : Solver τ) : Prop where
  ready : solver.Ready configuration
  signature : solver.vars.signature = names.map fun name => (name, .boolean)
  atomless : solver.theoryAtoms = #[]
  clauses : ∀ clause, (∃ key, solver.clauses.clause? key = some clause) ↔
    ∃ literals ∈ clauses, Clause.ofList literals = clause

theorem Poses.new (configuration : Configuration) :
    (Solver.new configuration : Solver τ).Poses configuration [] [] where
  ready := .new configuration
  signature := rfl
  atomless := rfl
  clauses clause := by
    constructor
    · rintro ⟨key, stored⟩
      cases stored
    · rintro ⟨literals, absurdity, _⟩
      cases absurdity

theorem Poses.addBooleans {known : List String} (poses : solver.Poses configuration known [])
    {names : List String} (distinct : (known ++ names).Nodup) :
    Ends (addBooleans names) solver
      (fun _ rest => rest.Poses configuration (known ++ names) []) fun _ _ => False := by
  induction names generalizing known solver with
  | nil =>
      rw [List.append_nil]
      exact poses
  | cons name names induction =>
      have ready := poses.ready
      have unused : solver.vars.nameError? name = none := by
        refine if_neg fun taken => ?_
        obtain ⟨sort, member⟩ := (ready.named name).mp taken
        rw [poses.signature] at member
        obtain ⟨other, inside, same⟩ := List.mem_map.mp member
        cases same
        exact List.disjoint_of_nodup_append distinct inside List.mem_cons_self
      have added : addBoolean name solver = .ok ⟨.var solver.vars.size, true⟩
          (solver.withVariable name .boolean) := by
        have first : addVariable name .boolean solver =
            .ok solver.vars.size (solver.withVariable name .boolean) := by
          rw [addVariable_eq ready.input, unused]
        exact bind_eq first
      have posed : (solver.withVariable name .boolean).Poses configuration
          (known ++ [name]) [] := by
        refine ⟨poses.ready.withVariable unused .boolean, ?_, poses.atomless, poses.clauses⟩
        show (solver.vars.push name .boolean).signature = _
        rw [VariableStore.signature_push, poses.signature, List.map_append]
        rfl
      have rest := induction posed (by rwa [List.append_assoc])
      rw [List.append_assoc] at rest
      unfold addBooleans Ends
      rw [bind_eq added]
      exact rest

theorem Poses.admits {names : List String} {clauses : List (List Literal)}
    (poses : solver.Poses configuration names clauses) {key : VariableKey}
    (known : key < names.length) (truth : Bool) : solver.Admits (.var key) (.boolean truth) := by
  have entry := VariableStore.getElem?_signature solver.vars key
  rw [poses.signature, List.getElem?_map, List.getElem?_eq_getElem known] at entry
  obtain ⟨found, present, same⟩ := Option.map_eq_some_iff.mp entry.symm
  exact ⟨found, present, congrArg Prod.snd same⟩

theorem Poses.withClause {names : List String} {known : List (List Literal)}
    (poses : solver.Poses configuration names known) {literals : List Literal}
    (fitting : clauseError? solver (Clause.ofList literals) = none) :
    (solver.withClause (Clause.ofList literals)).Poses configuration names
      (known ++ [literals]) := by
  refine ⟨poses.ready.withClause fitting, poses.signature, poses.atomless, fun clause => ?_⟩
  simp only [clause?_withClause, List.mem_append, List.mem_singleton]
  constructor
  · rintro ⟨key, stored⟩
    split at stored
    · exact ⟨literals, .inr rfl, Option.some.inj stored⟩
    · obtain ⟨other, inside, same⟩ := (poses.clauses clause).mp ⟨key, stored⟩
      exact ⟨other, .inl inside, same⟩
  · rintro ⟨other, inside | rfl, same⟩
    · obtain ⟨key, stored⟩ := (poses.clauses clause).mpr ⟨other, inside, same⟩
      exact ⟨key, by rw [if_neg (Nat.ne_of_lt (ClauseStore.clause?_lt stored)), stored]⟩
    · exact ⟨solver.clauses.size, by rw [if_pos rfl, same]⟩

theorem Poses.addClauses {names : List String} {known : List (List Literal)}
    (poses : solver.Poses configuration names known) {clauses : List (List Literal)}
    (inScope : ∀ literals ∈ clauses, Over names.length literals) :
    Ends (addClauses clauses) solver
      (fun _ rest => rest.Poses configuration names (known ++ clauses)) fun _ _ => False := by
  induction clauses generalizing known solver with
  | nil =>
      rw [List.append_nil]
      exact poses
  | cons literals clauses induction =>
      have ready := poses.ready
      have fitting : clauseError? solver (Clause.ofList literals) = none := by
        refine clauseError?_eq_none.mpr fun literal member => ?_
        obtain ⟨key, inside, same⟩ :=
          inScope literals List.mem_cons_self literal (Clause.mem_ofList.mp member)
        rw [same]
        exact poses.admits inside _
      have added : addClause (Clause.ofList literals) solver =
          .ok solver.clauses.size (solver.withClause (Clause.ofList literals)) := by
        rw [addClause_eq ready.input, fitting]
      have rest := induction (poses.withClause fitting) fun other inside =>
        inScope other (List.mem_cons_of_mem _ inside)
      rw [List.append_assoc] at rest
      unfold addClauses Ends
      rw [bind_eq added]
      exact rest

/-! ## The search -/

theorem obeys_silent (atomless : origin.theoryAtoms = #[])
    (valid : origin.Valid Rules.silent solver) : solver.Obeys Rules.silent := by
  intro owner atom unassigned present
  rw [valid.continues.theoryAtoms, atomless] at present
  cases present

/-- Nothing has happened yet in a formula without theory atoms. -/
theorem Ready.plain (ready : solver.Ready configuration) (atomless : solver.theoryAtoms = #[]) :
    solver.Plain where
  atomless := atomless
  unevaluated := by
    rintro ⟨atom, entry, found, _⟩
    rw [get?_untouched ready.untouched] at found
    cases found
  unsplit := ready.unsplit

theorem Poses.plain {names : List String} {clauses : List (List Literal)}
    (poses : solver.Poses configuration names clauses) : solver.Plain :=
  poses.ready.plain poses.atomless

theorem Poses.size {names : List String} {clauses : List (List Literal)}
    (poses : solver.Poses configuration names clauses) : solver.vars.size = names.length := by
  rw [← VariableStore.length_signature, poses.signature, List.length_map]

/-- A Boolean formula is searched to the end, and without a fault. -/
theorem Poses.ends {names : List String} {clauses : List (List Literal)}
    (poses : solver.Poses configuration names clauses) {fuel : Nat}
    (enough : (names.length + 1) ^ (names.length + 1) < fuel) :
    Ends (solve fuel) solver
      (fun report rest => Steps Rules.silent true solver rest ∧ rest.Outcome report)
      fun _ _ => False := by
  have ready := poses.ready
  have valid : solver.Valid Rules.silent solver := ready.valid
  have obeying : ∀ reached : Solver τ, solver.Valid Rules.silent reached →
      reached.Obeys Rules.silent := fun reached => obeys_silent poses.atomless
  have orderly : solver.Orderly Rules.silent := ⟨Rules.silent_careful, ready.sorted⟩
  have plain : ∀ rest, Steps Rules.silent true solver rest → rest.Plain :=
    fun rest steps => Steps.plain steps valid poses.plain
  have capacity : solver.capacity = names.length := by
    rw [Solver.capacity, poses.size, poses.atomless]
    rfl
  have limit : solver.scoreLimit * (0 + 1) < fuel := by
    rw [Nat.zero_add, Nat.mul_one, scoreLimit, capacity]
    exact enough
  have ends := endsWithin_of_splits obeying valid ready.unsettled orderly limit
    fun rest steps _ => Nat.le_of_eq (plain rest steps).unsplit
  have runs := runs_solve obeying valid ready.unsettled fuel
  unfold Runs at runs
  unfold EndsWithin at ends
  refine (ends.and runs).mono (fun report rest both => both.2) ?_
  rintro fault rest ⟨⟨error, rfl⟩, _, ⟨reached, steps, ⟨_, evaluated⟩ | ⟨absurdity, _⟩⟩ |
    ⟨absurdity, _⟩⟩
  · exact (plain reached steps).unevaluated evaluated
  · cases absurdity
  · cases absurdity

/-- The truth of each variable as the trail has it, and false if it has no value. -/
def assignedTruth (solver : Solver τ) (key : VariableKey) : Bool :=
  solver.trail.truth? (.var key) == some true

variable {names : List String} {clauses : List (List Literal)} {rest : Solver τ}

theorem Poses.value?_eq (poses : solver.Poses configuration names clauses)
    (steps : Steps Rules.silent true solver rest) (valued : rest.AllValued) {key : VariableKey}
    (known : key < names.length) :
    rest.trail.value? (.var key) = some (.boolean (rest.assignedTruth key)) := by
  have ready := poses.ready
  have valid : solver.Valid Rules.silent rest := Steps.valid steps ready.valid
  have orderly : rest.Orderly Rules.silent :=
    Steps.orderly steps ready.valid ⟨Rules.silent_careful, ready.sorted⟩
  have size : rest.vars.size = names.length := valid.continues.size.trans poses.size
  obtain ⟨entry, found⟩ := Option.isSome_iff_exists.mp (valued key (size ▸ known))
  obtain ⟨variableOf, present, sort⟩ := orderly.sorted.typed _ entry found
  obtain ⟨other, again, boolean⟩ := valid.continues.admits.mpr (poses.admits known true)
  rw [Option.some.inj (present.symm.trans again), boolean] at sort
  cases shape : entry.value with
  | rational number =>
      rw [shape] at sort
      cases sort
  | boolean truth =>
      have held := Trail.truth?_eq_some.mpr ⟨entry, found, shape⟩
      rw [assignedTruth, held]
      refine Trail.value?_eq_some.mpr ⟨entry, found, ?_⟩
      cases truth <;> exact shape

/-- The valuation names the variables in order, each with its truth value. -/
theorem Poses.valuation_eq (poses : solver.Poses configuration names clauses)
    (steps : Steps Rules.silent true solver rest) (valued : rest.AllValued) :
    rest.valuation = names.mapIdx fun key name =>
      (name, some (.boolean (rest.assignedTruth key))) := by
  have valid : solver.Valid Rules.silent rest := Steps.valid steps poses.ready.valid
  refine List.ext_getElem? fun key => ?_
  have listed := VariableStore.getElem?_signature rest.vars key
  rw [valid.continues.signature, poses.signature, List.getElem?_map] at listed
  have stored : rest.valuation[key]? =
      (rest.vars.get? key).map fun known => (known.name, known.value) := by
    simp [Assignment.valuation, VariableStore.get?]
  rw [stored, List.getElem?_mapIdx]
  cases named : names[key]? with
  | none =>
      rw [named] at listed
      rw [Option.map_eq_none_iff.mp listed.symm]
      rfl
  | some name =>
      rw [named] at listed
      obtain ⟨known, present, same⟩ := Option.map_eq_some_iff.mp listed.symm
      have value := poses.value?_eq steps valued (List.getElem?_eq_some_iff.mp named).1
      rw [← valid.coherent.assignment.vars.values, VariableStore.value?, present] at value
      have sameName : known.name = name := congrArg Prod.fst same
      have sameValue : known.value = some (.boolean (rest.assignedTruth key)) := value
      rw [present, Option.map_some, Option.map_some, sameName, sameValue]

/-- If the search has no variable left, every clause has a true literal. -/
theorem Poses.satisfies (poses : solver.Poses configuration names clauses)
    (inScope : ∀ literals ∈ clauses, Over names.length literals)
    (steps : Steps Rules.silent true solver rest) (exhausted : rest.Exhausted) :
    Satisfies rest.assignedTruth clauses := by
  have ready := poses.ready
  intro literals inside
  obtain ⟨key, stored⟩ := (poses.clauses _).mpr ⟨literals, inside, rfl⟩
  have valid : solver.Valid Rules.silent solver := ready.valid
  have watched := Steps.watched steps valid (ready.watched key _ stored)
  have unviolated := exhausted.fine key _ watched
  push Not at unviolated
  obtain ⟨literal, member, unfalsified⟩ := unviolated
  obtain ⟨subject, known, same⟩ := inScope literals inside literal (Clause.mem_ofList.mp member)
  refine ⟨literal, Clause.mem_ofList.mp member, subject, same, ?_⟩
  have value := poses.value?_eq steps exhausted.valued known
  have truth : rest.trail.truth? literal.atom = some (rest.assignedTruth subject) := by
    rw [same, Trail.truth?, value]
    rfl
  by_contra different
  refine unfalsified (truth.trans (congrArg some ?_))
  exact Bool.eq_not_of_ne different

theorem Poses.unrefuted (poses : solver.Poses configuration names clauses)
    (steps : Steps Rules.silent true solver rest) {truth : VariableKey → Bool}
    (satisfies : Satisfies truth clauses) : ¬rest.Refuted := by
  have ready := poses.ready
  have valid : solver.Valid Rules.silent solver := ready.valid
  have faithful : solver.Faithful fun key => .boolean (truth key) := by
    refine ⟨fun atom entry found => ?_, fun key clause stored => ?_⟩
    · rw [get?_untouched ready.untouched] at found
      cases found
    · obtain ⟨literals, inside, rfl⟩ := (poses.clauses clause).mp ⟨key, stored⟩
      obtain ⟨literal, member, subject, same, holds⟩ := satisfies literals inside
      refine ⟨literal, Clause.mem_ofList.mpr member, ?_⟩
      rw [same, truthUnder, ← holds]
      rfl
  have locally : solver.EvaluatesLocally := by
    intro owner atom present
    rw [poses.atomless] at present
    cases present
  have picks : rest.Picks fun key => .boolean (truth key) := fun key entry found _ semantic =>
    absurd ⟨_, entry, found, semantic⟩ (Steps.plain steps valid poses.plain).unevaluated
  exact (steps.faithful locally valid (fun _ _ _ _ absurdity => absurdity.elim) faithful
    picks).unrefuted

/-- A search for a model of a Boolean formula ends with the right answer, and with a
model if there is one. -/
theorem Poses.answers (poses : solver.Poses configuration names clauses)
    (inScope : ∀ literals ∈ clauses, Over names.length literals)
    (limitless : configuration.timeLimit = none)
    (steps : Steps Rules.silent true solver rest) {report : Report}
    (outcome : rest.Outcome report) :
    (report = .satisfiable ∧ Satisfies rest.assignedTruth clauses ∧ rest.valuation =
        names.mapIdx fun key name => (name, some (.boolean (rest.assignedTruth key)))) ∨
      report = .unsatisfiable ∧ ¬∃ truth, Satisfies truth clauses := by
  have valid : solver.Valid Rules.silent rest := Steps.valid steps poses.ready.valid
  cases report with
  | satisfiable =>
      have exhausted := outcome.1
      exact .inl ⟨rfl, poses.satisfies inScope steps exhausted,
        poses.valuation_eq steps exhausted.valued⟩
  | unsatisfiable =>
      refine .inr ⟨rfl, ?_⟩
      rintro ⟨_, satisfies⟩
      exact poses.unrefuted steps satisfies outcome
  | timeUp =>
      refine absurd ?_ outcome
      rw [valid.continues.configuration, poses.ready.configured, limitless]
  | unknown =>
      have consistent : inconsistentAtom? rest = none := by
        unfold inconsistentAtom?
        rw [valid.continues.theoryAtoms, poses.atomless]
        rfl
      have inconsistent := outcome.2
      rw [consistent] at inconsistent
      cases inconsistent

/-- Stating a Boolean formula and searching for a model of it is totally correct:
however much fuel there is beyond a bound that depends on the number of variables
alone, the search ends with the same report and the same valuation.  The formula is
reported satisfiable if some truth assignment satisfies it, and then the valuation
is one, and it is reported unsatisfiable if none does. -/
theorem solve_boolean (learning : Bool) {names : List String} (distinct : names.Nodup)
    {clauses : List (List Literal)} (inScope : ∀ literals ∈ clauses, Over names.length literals) :
    ∃ (variablesAdded start rest : Solver τ) (report : Report),
      addBooleans names (Solver.new { learning }) = .ok () variablesAdded ∧
      addClauses clauses variablesAdded = .ok () start ∧
      (∀ fuel, (names.length + 1) ^ (names.length + 1) < fuel →
        solve fuel start = .ok report rest) ∧
      (report = .satisfiable ↔ ∃ truth, Satisfies truth clauses) ∧
      (report = .unsatisfiable ↔ ¬∃ truth, Satisfies truth clauses) ∧
      (report = .satisfiable → ∃ truth, Satisfies truth clauses ∧
        rest.valuation = names.mapIdx fun key name => (name, some (.boolean (truth key)))) := by
  obtain ⟨_, variablesAdded, named, posesNames⟩ :=
    ((Poses.new (τ := τ) { learning }).addBooleans (by simpa using distinct)).answer
  rw [List.nil_append] at posesNames
  obtain ⟨_, start, stated, poses⟩ := (posesNames.addClauses inScope).answer
  rw [List.nil_append] at poses
  have enough := Nat.lt_succ_self ((names.length + 1) ^ (names.length + 1))
  obtain ⟨report, rest, answered, steps, outcome⟩ := (poses.ends enough).answer
  refine ⟨variablesAdded, start, rest, report, named, stated, fun fuel more => ?_, ?_⟩
  · rw [← answered]
    refine solve_of_le more fun other exhausted => ?_
    rw [answered] at exhausted
    cases exhausted
  · rcases poses.answers inScope rfl steps outcome with ⟨rfl, satisfies, valuation⟩ | ⟨rfl, none⟩
    · have some : ∃ truth, Satisfies truth clauses := ⟨_, satisfies⟩
      refine ⟨⟨fun _ => some, fun _ => rfl⟩, ⟨by rintro ⟨⟩, ?_⟩,
        fun _ => ⟨_, satisfies, valuation⟩⟩
      exact fun none => absurd some none
    · refine ⟨⟨by rintro ⟨⟩, fun some => absurd some none⟩,
        ⟨fun _ => none, fun _ => rfl⟩, by rintro ⟨⟩⟩

/-- The second of two variables is true, and the first is not. -/
theorem solve_boolean_pair : ∃ (variablesAdded start rest : Solver Empty) (report : Report),
    addBooleans ["a", "b"] (Solver.new {}) = .ok () variablesAdded ∧
    addClauses [[⟨.var 1, true⟩, ⟨.var 0, true⟩], [⟨.var 0, false⟩]] variablesAdded =
      .ok () start ∧
    ∀ fuel, 27 < fuel → solve fuel start = .ok report rest := by
  have distinct : ["a", "b"].Nodup := by decide
  have inScope : ∀ literals ∈ [[⟨.var 1, true⟩, ⟨.var 0, true⟩], [⟨.var 0, false⟩]],
      Over ["a", "b"].length literals := by
    unfold Over
    decide
  obtain ⟨variablesAdded, start, rest, report, named, stated, ends, _⟩ :=
    solve_boolean (τ := Empty) true distinct inScope
  exact ⟨variablesAdded, start, rest, report, named, stated, ends⟩

end Solver

end ModelSearch
