import ModelSearch.Proofs.Actions.Runs

/-!
# Propagation

Without jumps the trail only grows.  So what was found of the clauses and theory
atoms when a batch was collected still holds when each of the batch is treated,
and propagation runs as long as its hooks keep to the rules.  It ends, as every
round but the last adds to the trail.
-/

namespace ModelSearch

variable {τ : Type} [TheoryAtom τ] {rules : Rules τ} {origin solver before after : Solver τ}
  {excuse : Fault → Solver τ → Prop}

theorem Step.grown (step : Step rules false before after) : Grown before after := by
  cases step with
  | tell assignment theoryAtoms configuration splits =>
      exact .of_trail (congrArg Assignment.trail assignment) splits
  | requeue sound same => exact .of_trail rfl rfl
  | choose free warrant => exact Solver.grown_chosen free _
  | give free grounds => exact Solver.grown_given free _ _ _
  | learn allowed fitting => exact .of_trail rfl rfl
  | store derived => exact .of_trail rfl rfl
  | watch key => exact .of_trail rfl rfl
  | jump allowed kind below splitting => cases allowed

theorem Steps.grown (steps : Steps rules false before after) : Grown before after := by
  induction steps with
  | refl => exact .refl _
  | tail _ step induction => exact induction.trans step.grown

theorem Runs.grown {α : Type} {action : SolverM τ α} {after : α → Solver τ → Prop}
    (runs : Runs rules false action solver after excuse) :
    Runs rules false action solver (fun answer rest => after answer rest ∧ Grown solver rest)
      excuse :=
  runs.imp fun _ _ steps answered => ⟨answered, Steps.grown steps⟩

namespace Solver

/-- A violated clause is the answer, or there is no answer and something else
holds. -/
def Concludes (solver : Solver τ) (answer : Option ClauseKey) (otherwise : Prop) : Prop :=
  match answer with
  | some conflict => solver.Violates conflict
  | none => otherwise

/-! ## Units -/

/-- Each pair is a clause and its last literal that may be true. -/
def Pending (solver : Solver τ) (units : List (ClauseKey × Literal)) : Prop :=
  ∀ pair ∈ units, ∃ clause, solver.clauses.clause? pair.1 = some clause ∧ pair.2 ∈ clause ∧
    ∀ other ∈ clause, other ≠ pair.2 → solver.Falsifies other

omit [TheoryAtom τ] in
theorem Pending.mono {units : List (ClauseKey × Literal)} (pending : before.Pending units)
    (grown : Grown before after) (continues : before.Continues after) : after.Pending units := by
  intro pair inside
  obtain ⟨clause, stored, member, others⟩ := pending pair inside
  exact ⟨clause, continues.clauses _ _ stored, member, fun other otherMember different =>
    grown.falsifies (others other otherMember different)⟩

omit [TheoryAtom τ] in
/-- The literal of a unit is true once it has been treated without conflict. -/
theorem Propagated.holds {key : ClauseKey} {literal : Literal} {given : Bool}
    (propagated : before.Propagated key literal (.ok given) after) :
    after.trail.literalTruth? literal = some true := by
  cases given with
  | false => rw [congrArg Assignment.trail propagated.1, propagated.2]
  | true =>
      rw [congrArg Assignment.trail propagated.2, Trail.literalTruth?_eq_some,
        Trail.truth?_eq_some]
      refine ⟨_, (get?_given _ _ _ _ _ _).trans (if_pos rfl), ?_⟩
      cases literal.polarity <;> rfl

theorem runs_propagateUnits {units : List (ClauseKey × Literal)} (valid : origin.Valid rules solver)
    (pending : solver.Pending units) :
    Runs rules false (propagateUnits units) solver
      (fun answer rest => rest.Concludes answer
        (∀ pair ∈ units, rest.trail.literalTruth? pair.2 = some true)) excuse := by
  induction units generalizing solver with
  | nil => exact .pure fun pair inside => absurd inside List.not_mem_nil
  | cons unit units induction =>
      obtain ⟨key, literal⟩ := unit
      obtain ⟨clause, stored, member, others⟩ := pending _ List.mem_cons_self
      refine Runs.bind valid (runs_propagateLiteral valid stored member others)
        fun answer middle steps propagated => ?_
      cases answer with
      | error conflict =>
          obtain ⟨rfl, violated⟩ := propagated
          exact .pure violated.1
      | ok given =>
          have validMiddle := Steps.valid steps valid
          have grown := Steps.grown steps
          have remaining : middle.Pending units :=
            Pending.mono (fun pair inside => pending pair (List.mem_cons_of_mem _ inside)) grown
              (Steps.continues steps valid.coherent valid.reasoned)
          refine (induction validMiddle remaining).imp fun answer rest steps answered => ?_
          cases answer with
          | some conflict => exact answered
          | none =>
              intro pair inside
              rcases List.mem_cons.mp inside with rfl | inside
              · exact (Steps.grown steps).literalTrue propagated.holds
              · exact answered pair inside

omit [TheoryAtom τ] in
/-- Two literals that are not false keep each clause from acting. -/
theorem propagateClauses_of_open
    (follow : ClausesFollow solver.trail.value? solver.clauses)
    (isOpen : ∀ key clause, solver.clauses.Watched key clause →
      ∃ first ∈ clause, ∃ second ∈ clause, first ≠ second ∧
        ¬solver.Falsifies first ∧ ¬solver.Falsifies second) :
    propagateClauses solver = .ok none solver := by
  have fine : solver.clauses.violated = [] := by
    refine List.eq_nil_iff_forall_not_mem.mpr fun key inside => ?_
    obtain ⟨clause, watched, falsified⟩ := follow.mem_violated.mp inside
    obtain ⟨first, member, _, _, _, notFalse, _⟩ := isOpen key clause watched
    exact notFalse (Assignment.falsifies_iff.mpr (falsified first member))
  have idle : solver.clauses.units = [] := by
    refine List.eq_nil_iff_forall_not_mem.mpr ?_
    rintro ⟨key, literal⟩ inside
    obtain ⟨clause, unit⟩ := follow.mem_units.mp inside
    obtain ⟨first, firstMember, second, secondMember, different, notFirst, notSecond⟩ :=
      isOpen key clause unit.watched
    by_cases same : first = literal
    · exact notSecond (Assignment.falsifies_iff.mpr
        (unit.others second secondMember fun again => different (same.trans again.symm)))
    · exact notFirst (Assignment.falsifies_iff.mpr (unit.others first firstMember same))
  unfold propagateClauses
  rw [get_bind, fine, idle]
  rfl

/-- What a pass over the clauses that finds no conflict has shown. -/
structure Passed (before after : Solver τ) : Prop where
  fine : ∀ key, ¬∃ clause, before.clauses.Watched key clause ∧
    ∀ literal ∈ clause, before.Falsifies literal
  settled : after.trail = before.trail → before.clauses.units = [] ∧ after = before

theorem runs_propagateClauses (valid : origin.Valid rules solver) :
    Runs rules false propagateClauses solver
      (fun answer rest => rest.Concludes answer (Passed solver rest)) excuse := by
  have follow := valid.coherent.assignment.clauses
  unfold propagateClauses
  rw [runs_get]
  dsimp only
  cases found : solver.clauses.violated.head? with
  | some conflict =>
      have inside := List.mem_of_head? found
      obtain ⟨clause, watched, falsified⟩ := follow.mem_violated.mp inside
      exact .pure ⟨clause, watched.clause?, fun literal member =>
        Assignment.falsifies_iff.mpr (falsified literal member)⟩
  | none =>
      have pending : solver.Pending solver.clauses.units := by
        rintro ⟨key, literal⟩ inside
        obtain ⟨clause, unit⟩ := follow.mem_units.mp inside
        exact ⟨clause, unit.watched.clause?, unit.member, fun other member different =>
          Assignment.falsifies_iff.mpr (unit.others other member different)⟩
      refine (runs_propagateUnits valid pending).traced.imp fun answer rest steps answered => ?_
      obtain ⟨answered, result⟩ := answered
      cases answer with
      | some conflict => exact answered
      | none =>
          refine ⟨?_, fun same => ?_⟩
          · rintro key ⟨clause, watched, falsified⟩
            have inside := follow.mem_violated.mpr ⟨clause, watched, fun literal member =>
              Assignment.falsifies_iff.mp (falsified literal member)⟩
            rw [List.head?_eq_none_iff.mp found] at inside
            exact List.not_mem_nil inside
          · -- The literal of a unit would be true by now, but the trail is the same.
            have none : solver.clauses.units = [] := by
              refine List.eq_nil_iff_forall_not_mem.mpr ?_
              rintro ⟨key, literal⟩ inside
              obtain ⟨clause, unit⟩ := follow.mem_units.mp inside
              have holds := answered _ inside
              rw [same, Trail.literalTruth?_eq, unit.undetermined] at holds
              cases holds
            refine ⟨none, ?_⟩
            rw [none] at result
            cases result
            rfl

/-! ## Evaluation -/

omit [TheoryAtom τ] in
theorem Told.keeps (told : Told before after) (atom : Atom) :
    after.trail.get? atom = before.trail.get? atom := by
  rw [congrArg Assignment.trail told.assignment]

/-- The variables have the same values, and the theory atoms under the keys have
those they evaluate to, at the level of their variables. -/
structure Evaluates (before after : Solver τ) (keys : List TheoryKey) : Prop where
  vars : after.vars = before.vars
  level : after.trail.level = before.trail.level
  clauses : ∀ key, after.clauses.clause? key = before.clauses.clause? key
  others : ∀ atom, (∀ key ∈ keys, atom ≠ .theory key) →
    after.trail.get? atom = before.trail.get? atom
  given : ∀ key ∈ keys, ∀ atom truth, before.theoryAtoms[key]? = some atom →
    TheoryAtom.evaluate atom before.values = some truth →
      ∃ entry, after.trail.get? (.theory key) = some entry ∧ entry.value = .boolean truth ∧
        entry.reason = .semantic ∧
          entry.level = greatestLevel before.trail (TheoryAtom.support atom)

namespace Evaluates

theorem nil (solver : Solver τ) : Evaluates solver solver [] :=
  ⟨rfl, rfl, fun _ => rfl, fun _ _ => rfl, by rintro _ ⟨⟩⟩

theorem absent {key : TheoryKey} (missing : solver.theoryAtoms[key]? = none) :
    Evaluates solver solver [key] :=
  ⟨rfl, rfl, fun _ => rfl, fun _ _ => rfl, fun other inside atom truth present _ => by
    obtain rfl := List.mem_singleton.mp inside
    cases missing.symm.trans present⟩

theorem unevaluated {key : TheoryKey} {atom : τ} (present : solver.theoryAtoms[key]? = some atom)
    (none : TheoryAtom.evaluate atom solver.values = none) : Evaluates solver solver [key] :=
  ⟨rfl, rfl, fun _ => rfl, fun _ _ => rfl, fun other inside again truth found result => by
    obtain rfl := List.mem_singleton.mp inside
    obtain rfl := Option.some.inj (present.symm.trans found)
    cases none.symm.trans result⟩

theorem single {key : TheoryKey} {atom : τ} {truth : Bool}
    (present : solver.theoryAtoms[key]? = some atom)
    (evaluated : TheoryAtom.evaluate atom solver.values = some truth)
    (told : Told (solver.given (.theory key) (.boolean truth) .semantic
      (greatestLevel solver.trail (TheoryAtom.support atom))) after) :
    Evaluates solver after [key] := by
  have same := told.assignment
  refine ⟨?_, ?_, fun other => ?_, fun other outside => ?_,
    fun other inside again value found result => ?_⟩
  · rw [congrArg Assignment.vars same]
    rfl
  · rw [congrArg Assignment.trail same, level_given]
  · rw [congrArg Assignment.clauses same, clause?_given]
  · rw [told.keeps, get?_given, if_neg]
    exact (outside key List.mem_cons_self).symm
  · obtain rfl := List.mem_singleton.mp inside
    obtain rfl := Option.some.inj (present.symm.trans found)
    obtain rfl := Option.some.inj (evaluated.symm.trans result)
    exact ⟨_, (told.keeps _).trans ((get?_given _ _ _ _ _ _).trans (if_pos rfl)), rfl, rfl, rfl⟩

omit [TheoryAtom τ] in
theorem greatestLevel_congr {trail other : Trail}
    (same : ∀ key, other.get? (.var key) = trail.get? (.var key)) (keys : List VariableKey) :
    greatestLevel other keys = greatestLevel trail keys := by
  unfold greatestLevel Trail.level?
  simp only [same]

theorem cons {middle : Solver τ} {key : TheoryKey} {keys : List TheoryKey} (fresh : key ∉ keys)
    (theoryAtoms : middle.theoryAtoms = before.theoryAtoms) (first : Evaluates before middle [key])
    (second : Evaluates middle after keys) : Evaluates before after (key :: keys) := by
  have kept : ∀ variableKey, middle.trail.get? (.var variableKey) =
      before.trail.get? (.var variableKey) := fun variableKey =>
    first.others _ (by rintro _ _ ⟨⟩)
  have values : middle.values = before.values := by
    unfold values
    rw [first.vars]
  refine ⟨second.vars.trans first.vars, second.level.trans first.level,
    fun other => (second.clauses other).trans (first.clauses other), ?_, ?_⟩
  · intro atom outside
    rw [second.others atom fun other inside => outside other (List.mem_cons_of_mem _ inside)]
    exact first.others atom fun other inside =>
      outside other (List.mem_singleton.mp inside ▸ List.mem_cons_self)
  · intro other inside atom truth present evaluated
    rcases List.mem_cons.mp inside with rfl | inside
    · obtain ⟨entry, found, rest⟩ :=
        first.given other List.mem_cons_self atom truth present evaluated
      refine ⟨entry, ?_, rest⟩
      rw [second.others, found]
      rintro key member ⟨⟩
      exact fresh member
    · rw [← theoryAtoms] at present
      rw [← values] at evaluated
      rw [← greatestLevel_congr kept]
      exact second.given other inside atom truth present evaluated

end Evaluates

/-- A theory atom without a value is evaluated once its variables have values. -/
theorem runs_evaluateAtom {key : TheoryKey} (valid : origin.Valid rules solver)
    (ready : ∀ atom, solver.theoryAtoms[key]? = some atom →
      ∀ variableKey ∈ TheoryAtom.support atom,
        (solver.trail.get? (.var variableKey)).isSome = true)
    (unvalued : solver.trail.get? (.theory key) = none) :
    Runs rules false (evaluateAtom key) solver (fun _ rest => Evaluates solver rest [key])
      excuse := by
  unfold evaluateAtom
  rw [runs_get]
  cases present : solver.theoryAtoms[key]? with
  | none => exact .pure (.absent present)
  | some atom =>
      dsimp only
      cases evaluated : TheoryAtom.evaluate atom solver.values with
      | none => exact .pure (.unevaluated present evaluated)
      | some truth =>
          have grounds : Grounds rules solver (.theory key) (.boolean truth) .semantic
              (greatestLevel solver.trail (TheoryAtom.support atom)) :=
            .evaluation present evaluated (ready atom present)
          refine Runs.bind valid (runs_setValue valid grounds fun _ => unvalued)
            fun _ set steps given => ?_
          obtain ⟨free, rfl⟩ := given
          have valid := Steps.valid steps valid
          refine Runs.bind valid (runs_count _) fun _ counted steps first => ?_
          exact (runs_emit rfl).imp fun _ last _ second =>
            .single present evaluated (first.trans second)

theorem runs_evaluateAtoms {keys : List TheoryKey} (valid : origin.Valid rules solver)
    (distinct : keys.Nodup)
    (ready : ∀ key ∈ keys, ∀ atom, solver.theoryAtoms[key]? = some atom →
      ∀ variableKey ∈ TheoryAtom.support atom,
        (solver.trail.get? (.var variableKey)).isSome = true)
    (unvalued : ∀ key ∈ keys, solver.trail.get? (.theory key) = none) :
    Runs rules false (evaluateAtoms keys) solver (fun _ rest => Evaluates solver rest keys)
      excuse := by
  induction keys generalizing solver with
  | nil => exact .pure (.nil solver)
  | cons key keys induction =>
      obtain ⟨fresh, distinctRest⟩ := List.nodup_cons.mp distinct
      refine Runs.bind valid (runs_evaluateAtom valid (ready key List.mem_cons_self)
        (unvalued key List.mem_cons_self)) fun _ rest steps evaluates => ?_
      have grown := Steps.grown steps
      have theoryAtoms := (Steps.continues steps valid.coherent valid.reasoned).theoryAtoms
      refine (induction (Steps.valid steps valid) distinctRest ?_ ?_).imp
        fun _ last _ later => .cons fresh theoryAtoms evaluates later
      · intro other inside atom present variableKey member
        rw [theoryAtoms] at present
        exact grown.isSome (ready other (List.mem_cons_of_mem _ inside) atom present _ member)
      · intro other inside
        rw [evaluates.others]
        · exact unvalued other (List.mem_cons_of_mem _ inside)
        · intro again member
          obtain rfl := List.mem_singleton.mp member
          rintro ⟨⟩
          exact fresh inside

/-- The theory atoms without values whose variables have values. -/
def evaluable (solver : Solver τ) : List TheoryKey :=
  solver.vars.fullyAssigned.filter fun key => (solver.trail.get? (.theory key)).isNone

theorem mem_evaluable (coherent : solver.Coherent) {key : TheoryKey} :
    key ∈ solver.evaluable ↔ solver.trail.get? (.theory key) = none ∧
      ∃ atom, solver.theoryAtoms[key]? = some atom ∧
        ∀ variableKey ∈ TheoryAtom.support atom,
          (solver.trail.get? (.var variableKey)).isSome = true := by
  have follow := coherent.assignment.vars
  unfold evaluable
  rw [List.mem_filter, follow.mem_fullyAssigned, Option.isNone_iff_eq_none, and_comm]
  refine and_congr_right fun _ => ?_
  constructor
  · rintro ⟨keys, watching, valued⟩
    obtain ⟨atom, present, rfl⟩ := (coherent.supports _ _).mp watching
    refine ⟨atom, present, fun variableKey member => ?_⟩
    have isSome := valued variableKey (mem_canonical.mpr member)
    rwa [Trail.value?, Option.isSome_map] at isSome
  · rintro ⟨atom, present, valued⟩
    refine ⟨_, (coherent.supports _ _).mpr ⟨atom, present, rfl⟩, fun variableKey member => ?_⟩
    rw [Trail.value?, Option.isSome_map]
    exact valued variableKey (mem_canonical.mp member)

theorem runs_evaluateTheory (valid : origin.Valid rules solver) :
    Runs rules false evaluateTheory solver
      (fun _ rest => Evaluates solver rest solver.evaluable) excuse := by
  have coherent := valid.coherent
  unfold evaluateTheory
  rw [runs_get]
  refine runs_evaluateAtoms valid (coherent.fullyAssigned_nodup.filter _) ?_ ?_
  · intro key inside atom present
    obtain ⟨_, again, presentAgain, valued⟩ := (mem_evaluable coherent).mp inside
    obtain rfl := Option.some.inj (presentAgain.symm.trans present)
    exact valued
  · exact fun key inside => ((mem_evaluable coherent).mp inside).1

theorem evaluateTheory_of_none (none : solver.evaluable = []) :
    evaluateTheory solver = .ok ⟨⟩ solver := by
  show evaluateAtoms solver.evaluable solver = _
  rw [none]
  rfl

/-! ## Hooks -/

theorem runs_runHook {hook : Hook} {owner : TheoryKey} (valid : origin.Valid rules solver)
    (keeps : hook.Keeps rules owner solver) :
    Runs rules false (runHook hook) solver
      (fun answer rest => ∀ conflict, answer = some conflict → rest.Violates conflict)
      excuse := by
  induction hook generalizing solver with
  | done => exact .pure (by rintro _ ⟨⟩)
  | conflict key =>
      refine .pure ?_
      rintro conflict ⟨⟩
      exact keeps
  | inspect next induction =>
      unfold runHook
      rw [runs_get]
      exact induction _ valid keeps
  | assign key value next induction =>
      refine Runs.bind valid (runs_assignImplied valid keeps.1).traced
        fun given rest steps answered => ?_
      exact induction given (Steps.valid steps valid) (keeps.2 _ _ answered.2)
  | decide atom value next induction =>
      refine Runs.bind valid (runs_decide (.request keeps.1) fun orderly =>
        (orderly.careful.decide _ _ _ _ keeps.1).2).traced fun given rest steps answered => ?_
      exact induction (Steps.valid steps valid) (keeps.2 _ _ answered.2)
  | learn clause next induction =>
      refine Runs.bind valid (runs_offerLemma valid keeps.1).traced
        fun answer rest steps answered => ?_
      exact induction answer (Steps.valid steps valid) (keeps.2 _ _ answered.2)

theorem consultAtoms_of_valued {units : List (TheoryKey × VariableKey)}
    (valued : ∀ pair ∈ units, (solver.trail.get? (.var pair.2)).isSome = true) :
    consultAtoms units solver = .ok none solver := by
  induction units with
  | nil => rfl
  | cons unit units induction =>
      obtain ⟨entry, found⟩ := Option.isSome_iff_exists.mp (valued unit List.mem_cons_self)
      unfold consultAtoms
      rw [get_bind, found]
      exact induction fun pair inside => valued pair (List.mem_cons_of_mem _ inside)

/-- Each pair is a theory atom and the variable whose value it lacks, or lacked. -/
def Lacking (solver : Solver τ) (units : List (TheoryKey × VariableKey)) : Prop :=
  ∀ pair ∈ units, ∀ atom, solver.theoryAtoms[pair.1]? = some atom →
    pair.2 ∈ TheoryAtom.support atom ∧ ∀ key ∈ TheoryAtom.support atom, key ≠ pair.2 →
      (solver.trail.get? (.var key)).isSome = true

theorem Lacking.mono {units : List (TheoryKey × VariableKey)} (lacking : before.Lacking units)
    (grown : Grown before after) (continues : before.Continues after) : after.Lacking units := by
  intro pair inside atom present
  rw [continues.theoryAtoms] at present
  obtain ⟨member, others⟩ := lacking pair inside atom present
  exact ⟨member, fun key support different => grown.isSome (others key support different)⟩

/-- An atom that lacks one value still does after something was told. -/
theorem Lacking.lacks {units : List (TheoryKey × VariableKey)} {key : TheoryKey}
    {unassigned : VariableKey} {atom : τ} (lacking : before.Lacking units)
    (inside : (key, unassigned) ∈ units) (present : before.theoryAtoms[key]? = some atom)
    (unvalued : before.trail.get? (.var unassigned) = none) (told : Told before after) :
    after.Lacks atom unassigned := by
  obtain ⟨member, others⟩ := lacking _ inside atom present
  refine ⟨member, by rw [told.keeps, unvalued], fun other support different => ?_⟩
  rw [told.keeps]
  exact others other support different

theorem runs_consultAtoms {units : List (TheoryKey × VariableKey)}
    (obeying : ∀ solver : Solver τ, origin.Valid rules solver → solver.Obeys rules)
    (valid : origin.Valid rules solver) (lacking : solver.Lacking units) :
    Runs rules false (consultAtoms units) solver
      (fun answer rest => ∀ conflict, answer = some conflict → rest.Violates conflict)
      excuse := by
  induction units generalizing solver with
  | nil => exact .pure (by rintro _ ⟨⟩)
  | cons unit units induction =>
      obtain ⟨key, unassigned⟩ := unit
      have remaining : solver.Lacking units :=
        fun pair inside => lacking pair (List.mem_cons_of_mem _ inside)
      unfold consultAtoms
      rw [runs_get]
      cases unvalued : solver.trail.get? (.var unassigned) with
      | some entry => exact induction valid remaining
      | none =>
          cases present : solver.theoryAtoms[key]? with
          | none => exact induction valid remaining
          | some atom =>
              refine Runs.bind valid (runs_emit rfl) fun _ told steps same => ?_
              have validTold := Steps.valid steps valid
              have keeps := obeying told validTold key atom unassigned
                (by rw [same.theoryAtoms, present])
                (lacking.lacks List.mem_cons_self present unvalued same)
              refine Runs.bind validTold (runs_runHook validTold keeps)
                fun answer rest later violated => ?_
              cases answer with
              | some conflict => exact .pure violated
              | none =>
                  have all := Relation.ReflTransGen.trans steps later
                  exact induction (Steps.valid all valid) (remaining.mono (Steps.grown all)
                    (Steps.continues all valid.coherent valid.reasoned))

theorem lacking_semanticUnits (coherent : solver.Coherent) :
    solver.Lacking solver.vars.semanticUnits := by
  rintro ⟨key, unassigned⟩ inside atom present
  obtain ⟨keys, watching, member, _, others⟩ :=
    coherent.assignment.vars.mem_semanticUnits.mp inside
  obtain ⟨again, presentAgain, rfl⟩ := (coherent.supports _ _).mp watching
  obtain rfl := Option.some.inj (present.symm.trans presentAgain)
  refine ⟨mem_canonical.mp member, fun other support different => ?_⟩
  have isSome := others other (mem_canonical.mpr support) different
  rwa [Trail.value?, Option.isSome_map] at isSome

theorem runs_consultTheory
    (obeying : ∀ solver : Solver τ, origin.Valid rules solver → solver.Obeys rules)
    (valid : origin.Valid rules solver) :
    Runs rules false consultTheory solver
      (fun answer rest => rest.Concludes answer
        (solver.vars.semanticUnits = [] → rest = solver)) excuse := by
  unfold consultTheory
  rw [runs_get]
  refine (runs_consultAtoms obeying valid (lacking_semanticUnits valid.coherent)).traced.imp
    fun answer rest steps answered => ?_
  cases answer with
  | some conflict => exact answered.1 conflict rfl
  | none =>
      intro empty
      have result := answered.2
      rw [empty] at result
      cases result
      rfl

/-! ## Rounds -/

/-- What a propagation without conflict has shown: the clauses were passed with
nothing to do, after which only hooks may have acted, without giving values. -/
def Quiet (rules : Rules τ) (before after : Solver τ) : Prop :=
  ∃ middle, Steps rules false before middle ∧ Passed middle middle ∧
    middle.clauses.units = [] ∧ Steps rules false middle after ∧
    after.trail = middle.trail ∧ (middle.vars.semanticUnits = [] → after = middle)

theorem runs_countAssignments {α : Type} {next : Nat → SolverM τ α}
    {last : α → Solver τ → Prop} :
    Runs rules false (countAssignments >>= next) solver last excuse ↔
      Runs rules false (next solver.trail.size) solver last excuse := Iff.rfl

/-- Propagation keeps to steps, and runs out of rounds only after as many
assignments. -/
theorem runs_propagate
    (obeying : ∀ solver : Solver τ, origin.Valid rules solver → solver.Obeys rules)
    (valid : origin.Valid rules solver) (rounds : Nat) :
    Runs rules false (propagate rounds) solver
      (fun answer rest => rest.Concludes answer (Quiet rules solver rest))
      (fun fault rest => fault = .outOfFuel ∧ solver.trail.size + rounds ≤ rest.trail.size) := by
  induction rounds generalizing solver with
  | zero => exact .throwOutOfFuel ⟨rfl, Nat.le_refl _⟩
  | succ rounds induction =>
      -- A further round is run only after the trail has grown.
      have again : ∀ middle : Solver τ, Steps rules false solver middle →
          solver.trail.size < middle.trail.size →
          Runs rules false (propagate rounds) middle
            (fun answer rest => rest.Concludes answer (Quiet rules solver rest))
            (fun fault rest =>
              fault = .outOfFuel ∧ solver.trail.size + (rounds + 1) ≤ rest.trail.size) := by
        intro middle steps longer
        refine (induction (Steps.valid steps valid)).mono ?_ ?_
        · intro answer rest _ answered
          cases answer with
          | some conflict => exact answered
          | none =>
              obtain ⟨last, first, rest⟩ := answered
              exact ⟨last, Relation.ReflTransGen.trans steps first, rest⟩
        · rintro fault rest _ ⟨exhausted, enough⟩
          exact ⟨exhausted, by omega⟩
      unfold propagate
      rw [runs_countAssignments]
      refine Runs.bind valid (runs_evaluateTheory valid) fun _ evaluated first _ => ?_
      have validEvaluated := Steps.valid first valid
      refine Runs.bind validEvaluated (runs_propagateClauses validEvaluated)
        fun answer passed second answered => ?_
      have steps := Relation.ReflTransGen.trans first second
      have validPassed := Steps.valid steps valid
      cases answer with
      | some conflict => exact .pure answered
      | none =>
          refine runs_countAssignments.mpr ?_
          split
          · next longer => exact again _ steps longer
          · next notLonger =>
              refine Runs.bind validPassed (runs_consultTheory obeying validPassed)
                fun answer consulted third asked => ?_
              have all := Relation.ReflTransGen.trans steps third
              cases answer with
              | some conflict => exact .pure asked
              | none =>
                  refine runs_countAssignments.mpr ?_
                  split
                  · next same =>
                      have growth := Steps.grown steps
                      have clausal := Steps.grown second
                      have settled : passed.trail = evaluated.trail := by
                        refine clausal.trail.resolve_right fun longer => notLonger ?_
                        exact Nat.lt_of_le_of_lt (Steps.grown first).size_le longer
                      obtain ⟨units, rfl⟩ := answered.settled settled
                      refine .pure ⟨_, steps, ⟨answered.fine, fun _ => ⟨units, rfl⟩⟩, units, third,
                        ?_, asked⟩
                      refine (Steps.grown third).trail.resolve_right fun longer => ?_
                      have sizes := growth.size_le
                      omega
                  · next different =>
                      have sizes := (Steps.grown all).size_le
                      exact again _ all (by omega)

end Solver

end ModelSearch
