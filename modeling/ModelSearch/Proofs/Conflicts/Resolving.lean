import ModelSearch.Proofs.Conflicts.Resolution
import ModelSearch.Proofs.Search.Progress

/-!
# Resolving a conflict

After a jump exactly the top literals of the clause are open.  A single one is
asserted, which raises the profile of the trail at the level of the jump; of
several one is decided.  So a conflict ends with progress, a semantic split, or a
refutation.
-/

namespace ModelSearch

/-! ## Where a clause leads -/

namespace Trail

variable {trail : Trail} {clause : Clause} {top : TopLiterals}

/-- The level and the use of a clause with these top literals.  The other literals
stay behind. -/
structure Target (trail : Trail) (clause : Clause) (top : TopLiterals) (target : Nat)
    (kind : BackjumpKind) : Prop where
  answer : trail.backjumpTarget clause = .ok (target, kind)
  below : target < top.level
  apart : ∀ literal ∈ clause, ∀ level, trail.level? literal.atom = some level →
    level ≤ target ∨ level = top.level
  single : kind = .uniqueImplication → top.literals.length = 1
  semantic : kind = .semanticSplit → trail.allSemantic top = true

theorem backjumpTarget_spec (nonempty : clause.isEmpty = false)
    (answer : trail.topLiterals clause = .ok top) (tops : trail.Tops clause top)
    (usable : trail.isBackjumpable top = true) :
    ∃ target kind, trail.Target clause top target kind := by
  have positive : 0 < top.level := by
    simp only [isBackjumpable, Bool.and_eq_true, decide_eq_true_eq] at usable
    exact usable.1
  by_cases one : top.literals.length = 1
  · have lower : ∀ literal ∈ clause, literal ∉ top.literals → ∀ level,
        trail.level? literal.atom = some level → level < top.level := by
      intro literal member outside level levelled
      refine lt_of_le_of_ne (tops.bounded literal member level levelled) ?_
      rintro rfl
      exact outside (tops.mem.mpr ⟨member, levelled⟩)
    obtain ⟨others, listed⟩ : ∃ others, others = (clause.literals.filter fun literal =>
        !top.literals.contains literal).filterMap fun literal => trail.level? literal.atom :=
      ⟨_, rfl⟩
    have member : ∀ level, level ∈ others ↔ ∃ literal ∈ clause, literal ∉ top.literals ∧
        trail.level? literal.atom = some level := by
      intro level
      rw [listed, List.mem_filterMap]
      simp only [List.mem_filter, List.contains_eq_mem, Bool.not_eq_true', decide_eq_false_iff_not,
        and_assoc]
      exact Iff.rfl
    obtain ⟨attained, _, bounded⟩ := foldl_max_spec others 0
    refine ⟨others.foldl max 0, .uniqueImplication, ?_, ?_, ?_, fun _ => one,
      by rintro ⟨⟩⟩
    · simp only [backjumpTarget, nonempty, Bool.false_eq_true, if_false, answer, if_pos one, listed]
    · rcases attained with zero | inside
      · rw [zero]
        exact positive
      · obtain ⟨literal, inClause, outside, levelled⟩ := (member _).mp inside
        exact lower literal inClause outside _ levelled
    · intro literal inClause level levelled
      by_cases inside : literal ∈ top.literals
      · rw [(tops.mem.mp inside).2] at levelled
        exact .inr (Option.some.inj levelled).symm
      · exact .inl (bounded level ((member level).mpr ⟨literal, inClause, inside, levelled⟩))
  · refine ⟨top.level - 1, .semanticSplit, ?_, by omega, ?_,
      by rintro ⟨⟩, fun _ => ?_⟩
    · simp only [backjumpTarget, nonempty, Bool.false_eq_true, if_false, answer, if_neg one,
        usable, if_true]
    · intro literal inClause level levelled
      have bounded := tops.bounded literal inClause level levelled
      omega
    · simpa [isBackjumpable, one, positive] using usable

/-- A clause that asserts a literal has another one at the level it asks for. -/
theorem backjumpTarget_attained {target : Nat}
    (aims : trail.backjumpTarget clause = .ok (target, .uniqueImplication)) :
    target = 0 ∨ ∃ literal ∈ clause, trail.level? literal.atom = some target := by
  unfold backjumpTarget at aims
  split at aims
  · cases aims
  · split at aims
    · cases aims
    · split at aims
      · cases aims
        refine (foldl_max_spec _ 0).1.imp_right fun attained => ?_
        obtain ⟨literal, inside, levelled⟩ := List.mem_filterMap.mp attained
        exact ⟨literal, (List.mem_filter.mp inside).1, levelled⟩
      · split at aims <;> cases aims

/-- A clause with a single top literal asserts it. -/
theorem Target.asserts {target : Nat} {kind : BackjumpKind}
    (aims : trail.Target clause top target kind) (nonempty : clause.isEmpty = false)
    (answer : trail.topLiterals clause = .ok top) (one : top.literals.length = 1) :
    kind = .uniqueImplication := by
  have given := aims.answer
  simp only [backjumpTarget, nonempty, Bool.false_eq_true, if_false, answer, if_pos one,
    Except.ok.injEq, Prod.mk.injEq] at given
  exact given.2.symm

/-- A clause with several top literals leads to the level below them. -/
theorem Target.splits {target : Nat} {kind : BackjumpKind}
    (aims : trail.Target clause top target kind) (nonempty : clause.isEmpty = false)
    (answer : trail.topLiterals clause = .ok top) (several : top.literals.length ≠ 1) :
    target = top.level - 1 ∧ kind = .semanticSplit := by
  have given := aims.answer
  simp only [backjumpTarget, nonempty, Bool.false_eq_true, if_false, answer, if_neg several]
    at given
  split at given
  · cases given
    exact ⟨rfl, rfl⟩
  · cases given

/-- After the jump the top literals are open. -/
theorem Target.open {target : Nat} {kind : BackjumpKind}
    (aims : trail.Target clause top target kind) (tops : trail.Tops clause top)
    (sound : trail.Sound)
    (valued : ∀ literal ∈ clause, ∃ level, trail.level? literal.atom = some level) :
    (clause.literals.filter fun literal =>
      ((trail.clearAbove target).2.get? literal.atom).isNone) = top.literals := by
  rw [tops.literals]
  refine List.filter_congr fun literal member => ?_
  obtain ⟨level, levelled⟩ := valued literal member
  obtain ⟨entry, found, rfl⟩ := level?_eq_some.mp levelled
  have low := aims.below
  rw [sound.get?_clearAbove, found, Option.filter_some, levelled]
  rcases aims.apart literal member _ levelled with below | same
  · have different : entry.level ≠ top.level := by omega
    simp [below, different]
  · have above : ¬top.level ≤ target := by omega
    simp [above, same]

end Trail

/-- An assignment at the level of a cut raises the profile of the trail before it. -/
theorem Trail.Sound.raises_cut {trail : Trail} (sound : trail.Sound) {level : Nat}
    (below : level < trail.level) (atom : Atom) (value : Value) (reason : Reason) :
    Raises trail.profile ((trail.clearAbove level).2.push atom value reason level).profile := by
  have isOpen : level ≤ (trail.clearAbove level).2.level := by
    rw [sound.level_clearAbove]
    omega
  have atoms : ∀ other ≤ level, (trail.clearAbove level).2.atomsAt other = trail.atomsAt other :=
    fun other low => by rw [Trail.atomsAt_clearAbove, if_pos low]
  refine ⟨level, fun lower low => ?_, ?_⟩
  · rw [profile, (sound.clearAbove level).atomsAt_push isOpen, if_neg (Nat.ne_of_gt low),
      atoms lower (Nat.le_of_lt low)]
    rfl
  · rw [profile, profile, (sound.clearAbove level).atomsAt_push isOpen, if_pos rfl,
      atoms level (Nat.le_refl _), List.length_append]
    exact Nat.lt_succ_self _

/-- A split rests on values that theory atoms gave. -/
theorem Trail.Target.evaluated {assignment : Assignment} {clause : Clause} {top : TopLiterals}
    {target : Nat} {kind : BackjumpKind} (aims : assignment.trail.Target clause top target kind)
    (tops : assignment.trail.Tops clause top) (split : kind = .semanticSplit) :
    assignment.Evaluated := by
  obtain ⟨literal, member, levelled⟩ := tops.attained
  have semantic := List.all_eq_true.mp (aims.semantic split) literal
    (tops.mem.mpr ⟨member, levelled⟩)
  obtain ⟨entry, found, reason⟩ := Option.map_eq_some_iff.mp (beq_iff_eq.mp semantic)
  exact ⟨_, entry, found, reason⟩

namespace Solver

variable {τ : Type} [TheoryAtom τ] {rules : Rules τ} {jumping : Bool}
  {origin solver : Solver τ} {clause : Clause} {excuse : Fault → Solver τ → Prop}

/-! ## Jumping back -/

omit [TheoryAtom τ] in
theorem retreat_of_lt (coherent : solver.toAssignment.Coherent) {level : Nat}
    (below : level < solver.trail.level) :
    retreat level solver =
      .ok ⟨⟩ { solver with toAssignment := solver.toAssignment.unsetAbove level } := by
  unfold retreat
  rw [get_bind, if_pos below, coherent.unassignAbove level]
  rfl

omit [TheoryAtom τ] in
theorem retreat_of_le {level : Nat} (above : solver.trail.level ≤ level) :
    retreat level solver = .ok ⟨⟩ solver := by
  unfold retreat
  rw [get_bind, if_neg (Nat.not_lt.mpr above)]
  rfl

omit [TheoryAtom τ] in
theorem exists_retreat (coherent : solver.toAssignment.Coherent) (level : Nat) :
    ∃ cut, retreat level solver = .ok ⟨⟩ cut := by
  rcases Nat.lt_or_ge level solver.trail.level with below | above
  · exact ⟨_, retreat_of_lt coherent below⟩
  · exact ⟨solver, retreat_of_le above⟩

omit [TheoryAtom τ] in
/-- Whatever the state, a retreat leaves it, takes the values above the level, or aborts. -/
theorem retreat_cases (solver : Solver τ) (level : Nat) :
    (solver.trail.level ≤ level ∧ retreat level solver = .ok ⟨⟩ solver) ∨
      (level < solver.trail.level ∧ retreat level solver =
        .ok ⟨⟩ { solver with toAssignment := solver.toAssignment.unsetAbove level }) ∨
      ∃ abort, retreat level solver = .error (.abort abort) solver := by
  rcases Nat.lt_or_ge level solver.trail.level with below | above
  · refine .inr ?_
    unfold retreat
    rw [get_bind, if_pos below]
    cases taken : solver.toAssignment.unassignAbove level with
    | error abort => exact .inr ⟨abort, rfl⟩
    | ok cut => exact .inl ⟨below, Assignment.eq_unsetAbove taken ▸ rfl⟩
  · exact .inl ⟨above, retreat_of_le above⟩

omit [TheoryAtom τ] in
theorem eq_of_retreat {level : Nat} {cut : Solver τ}
    (retreats : retreat level solver = .ok ⟨⟩ cut) :
    (solver.trail.level ≤ level ∧ cut = solver) ∨
      (level < solver.trail.level ∧
        cut = { solver with toAssignment := solver.toAssignment.unsetAbove level }) := by
  rcases retreat_cases solver level with ⟨above, same⟩ | ⟨below, same⟩ | ⟨abort, same⟩
  · exact .inl ⟨above, (EStateM.Result.ok.inj (retreats.symm.trans same)).2⟩
  · exact .inr ⟨below, (EStateM.Result.ok.inj (retreats.symm.trans same)).2⟩
  · cases retreats.symm.trans same

omit [TheoryAtom τ] in
/-- What follows a retreat is seen where the retreat succeeds. -/
theorem ends_retreat {α : Type} {next : PUnit → SolverM τ α} {level : Nat}
    {after : α → Solver τ → Prop} {broken : Fault → Solver τ → Prop}
    (aborts : ∀ abort, broken (.abort abort) solver)
    (goesOn : ∀ cut, retreat level solver = .ok ⟨⟩ cut → Ends (next ⟨⟩) cut after broken) :
    Ends (retreat level >>= next) solver after broken := by
  rcases retreat_cases solver level with ⟨_, same⟩ | ⟨_, same⟩ | ⟨abort, same⟩
  · exact (ends_known same).mpr (goesOn _ same)
  · exact (ends_known same).mpr (goesOn _ same)
  · exact (ends_broken same).mpr (aborts abort)

/-- A retreat that is told of is a jump. -/
theorem runs_jump {α : Type} {next : PUnit → SolverM τ α} {last : α → Solver τ → Prop}
    (valid : origin.Valid rules solver) {target : Nat} {kind : BackjumpKind}
    (below : target < solver.trail.level) (splitting : kind = .semanticSplit → solver.Evaluated)
    (goesOn : Runs rules true (next ⟨⟩) (solver.jumped target kind) last excuse) :
    Runs rules true
      (retreat target >>= fun _ =>
        emit (.backjump solver.trail.level target kind) >>= next) solver last excuse := by
  have step : Step rules true solver (solver.jumped target kind) :=
    .jump rfl kind below splitting
  unfold Runs emit
  refine (ends_known (retreat_of_lt valid.coherent.assignment below)).mpr ?_
  simp only [ends_bind, ends_modify]
  refine Ends.mono goesOn (fun answer rest ends => ⟨.head step ends.1, ends.2⟩) ?_
  exact fun fault rest breaks => breaks.before valid (.single step)

/-- How a jump ends: with an assertion that raises the profile, or with a split. -/
def Returned (before after : Solver τ) (kind : BackjumpKind) : Prop :=
  match kind with
  | .uniqueImplication =>
      Raises before.trail.profile after.trail.profile ∧ after.splits = before.splits
  | .semanticSplit => after.splits = before.splits + 1

omit [TheoryAtom τ] in
theorem splits_jumped (solver : Solver τ) (level : Nat) (kind : BackjumpKind) :
    (solver.jumped level kind).splits =
      solver.splits + if kind = .semanticSplit then 1 else 0 := by
  rw [splits_eq, splits_eq, jumped, Array.countP_push]
  cases kind <;> rfl

theorem runs_retreat (coherent : solver.toAssignment.Coherent) (level : Nat) :
    Runs rules true (retreat level) solver (fun _ _ => True) excuse := by
  unfold Runs Ends
  rcases Nat.lt_or_ge level solver.trail.level with below | above
  · have jump : Step rules true solver (solver.jumped level .uniqueImplication) :=
      .jump rfl _ below nofun
    have told : Told (solver.jumped level .uniqueImplication)
        { solver with toAssignment := solver.toAssignment.unsetAbove level } :=
      ⟨rfl, rfl, rfl, (splits_jumped solver level .uniqueImplication).symm⟩
    rw [retreat_of_lt coherent below]
    exact ⟨.tail (.single jump) told.step, trivial⟩
  · rw [retreat_of_le above]
    exact ⟨.refl, trivial⟩

/-- A clause that is stored, false, and fit to jump back with. -/
structure Usable (solver : Solver τ) (key : ClauseKey) (clause : Clause) : Prop where
  stored : solver.clauses.clause? key = some clause
  backjumpable : solver.Backjumpable clause

section Jump

variable {top : TopLiterals} {target : Nat} {kind : BackjumpKind}

omit [TheoryAtom τ]

theorem target_lt (coherent : solver.toAssignment.Coherent) (tops : solver.trail.Tops clause top)
    (aims : solver.trail.Target clause top target kind) : target < solver.trail.level := by
  obtain ⟨literal, member, levelled⟩ := tops.attained
  obtain ⟨entry, found, same⟩ := Trail.level?_eq_some.mp levelled
  have bounded := coherent.trail.level_le found
  have low := aims.below
  omega

/-- The level after the jump is that of its target. -/
theorem level_jumped (coherent : solver.toAssignment.Coherent)
    (tops : solver.trail.Tops clause top) (aims : solver.trail.Target clause top target kind) :
    (solver.jumped target kind).trail.level = target := by
  rw [trail_jumped coherent, coherent.trail.level_clearAbove,
    Nat.min_eq_left (Nat.le_of_lt (target_lt coherent tops aims))]

/-- After the jump the top literals are open. -/
theorem open_jumped (coherent : solver.toAssignment.Coherent)
    (falsified : ∀ literal ∈ clause, solver.Falsifies literal)
    (tops : solver.trail.Tops clause top) (aims : solver.trail.Target clause top target kind) :
    (clause.literals.filter fun literal =>
      ((solver.jumped target kind).trail.get? literal.atom).isNone) = top.literals := by
  rw [trail_jumped coherent]
  refine aims.open tops coherent.trail fun literal member => ?_
  obtain ⟨entry, found, _⟩ := (falsified literal member).entry
  exact ⟨entry.level, Trail.level?_eq_some.mpr ⟨entry, found, rfl⟩⟩

/-- The clause after the jump: its literals other than the top ones are false. -/
theorem others_jumped (coherent : solver.toAssignment.Coherent)
    (falsified : ∀ literal ∈ clause, solver.Falsifies literal)
    (tops : solver.trail.Tops clause top) (aims : solver.trail.Target clause top target kind) :
    ∀ other ∈ clause, other ∉ top.literals → (solver.jumped target kind).Falsifies other := by
  intro other member outside
  obtain ⟨entry, found, value⟩ := (falsified other member).entry
  have levelled := Trail.level?_eq_some.mpr ⟨entry, found, rfl⟩
  rcases aims.apart other member _ levelled with below | same
  · exact Trail.truth?_eq_some.mpr ⟨entry, (get?_jumped coherent).mpr ⟨found, below⟩, value⟩
  · exact absurd (tops.mem.mpr ⟨member, same ▸ levelled⟩) outside

theorem free_jumped (coherent : solver.toAssignment.Coherent)
    (tops : solver.trail.Tops clause top) (aims : solver.trail.Target clause top target kind)
    {literal : Literal} (inside : literal ∈ top.literals) :
    (solver.jumped target kind).Free literal.atom := by
  obtain ⟨member, levelled⟩ := tops.mem.mp inside
  obtain ⟨entry, found, same⟩ := Trail.level?_eq_some.mp levelled
  refine ⟨?_, ?_⟩
  · rw [trail_jumped coherent, coherent.trail.get?_clearAbove, found, Option.filter_some,
      decide_eq_false]
    · rfl
    · have below := aims.below
      omega
  · intro key shape
    have size : (solver.jumped target kind).vars.size = solver.vars.size :=
      (coherent.unsetAbove target).formula.size
    rw [size]
    exact coherent.vars.known (Trail.value?_eq_some.mpr ⟨entry, shape ▸ found, rfl⟩)

end Jump

/-- A clause whose only top literal is set after the jump. -/
theorem runs_backjump_literal (valid : origin.Valid rules solver) {key : ClauseKey}
    (usable : solver.Usable key clause) {top : TopLiterals} {target : Nat}
    (tops : solver.trail.Tops clause top)
    (aims : solver.trail.Target clause top target .uniqueImplication) {literal : Literal}
    (single : top.literals = [literal]) :
    Runs rules true (backjump key) solver
      (fun kind rest => kind = .uniqueImplication ∧
        Propagated (solver.jumped target .uniqueImplication) key literal (.ok true) rest ∧
        rest.splits = solver.splits) excuse := by
  have coherent := valid.coherent.assignment
  have below := target_lt coherent tops aims
  have stored : (solver.jumped target .uniqueImplication).clauses.clause? key = some clause :=
    (clause?_jumped coherent _ _ _).trans usable.stored
  have splitting := aims.evaluated tops
  have step : Step rules true solver (solver.jumped target .uniqueImplication) :=
    .jump rfl _ below splitting
  have validJumped := step.valid valid
  -- All but the one top literal are below the jump, so they are still false after it.
  have inside : literal ∈ top.literals := by simp [single]
  have free := free_jumped coherent tops aims inside
  have others : ∀ other ∈ clause, other ≠ literal →
      (solver.jumped target .uniqueImplication).Falsifies other := fun other member different =>
    others_jumped coherent usable.backjumpable.conflicting.falsified tops aims other member
      (by simpa [single] using different)
  unfold backjump
  refine (runs_clause usable.stored).mpr ?_
  rw [runs_get]
  dsimp only
  rw [aims.answer]
  refine runs_jump valid below splitting ?_
  rw [runs_get]
  simp only [open_jumped coherent usable.backjumpable.conflicting.falsified tops aims, single]
  refine Runs.bind validJumped
    (runs_propagateLiteral validJumped stored (tops.mem.mp inside).1 others).grown.any
    fun given rest steps propagated => ?_
  obtain ⟨propagated, grown⟩ := propagated
  -- The literal has no value after the jump, so it is not false and the assertion succeeds.
  have unknown : (solver.jumped target .uniqueImplication).trail.literalTruth? literal = none := by
    rw [Trail.literalTruth?, Trail.truth?, Trail.value?, free.unvalued]
    rfl
  cases given with
  | error conflict => cases unknown.symm.trans propagated.2.2
  | ok given =>
      cases given with
      | false => cases unknown.symm.trans propagated.2
      | true => exact .pure ⟨rfl, propagated, grown.splits.trans (splits_jumped _ _ _)⟩

/-- A clause that asserts its only top literal. -/
theorem runs_backjump_assert (valid : origin.Valid rules solver) {key : ClauseKey}
    (usable : solver.Usable key clause) {top : TopLiterals} {target : Nat}
    (tops : solver.trail.Tops clause top)
    (aims : solver.trail.Target clause top target .uniqueImplication) :
    Runs rules true (backjump key) solver
      (fun kind rest => kind = .uniqueImplication ∧ Returned solver rest kind) excuse := by
  have coherent := valid.coherent.assignment
  have below := target_lt coherent tops aims
  obtain ⟨literal, single⟩ := List.length_eq_one_iff.mp (aims.single rfl)
  refine (runs_backjump_literal valid usable tops aims single).imp fun kind rest _ ends => ?_
  obtain ⟨rfl, propagated, splits⟩ := ends
  refine ⟨rfl, ?_, splits⟩
  have same : rest.trail = ((solver.trail.clearAbove target).2.push literal.atom
      (.boolean literal.polarity) (.clause key) target) := by
    rw [congrArg Assignment.trail propagated.2]
    unfold given Assignment.set
    dsimp only
    rw [trail_jumped coherent, coherent.trail.level_clearAbove,
      Nat.min_eq_left (Nat.le_of_lt below)]
  rw [same]
  exact coherent.trail.raises_cut below _ _ _

/-- A clause of which the first top literal is decided. -/
theorem runs_backjump_split (valid : origin.Valid rules solver) {key : ClauseKey}
    (usable : solver.Usable key clause) {top : TopLiterals} {target : Nat}
    (tops : solver.trail.Tops clause top)
    (aims : solver.trail.Target clause top target .semanticSplit) {first : Literal}
    {others : List Literal} (shape : top.literals = first :: others) :
    Runs rules true (backjump key) solver
      (fun kind rest => kind = .semanticSplit ∧ Returned solver rest kind ∧
        rest.toAssignment = ((solver.jumped target .semanticSplit).chosen first.atom
          (.boolean first.polarity)).toAssignment) excuse := by
  have coherent := valid.coherent.assignment
  have below := target_lt coherent tops aims
  have stored : (solver.jumped target .semanticSplit).clauses.clause? key = some clause :=
    (clause?_jumped coherent _ _ _).trans usable.stored
  have splitting := aims.evaluated tops
  have step : Step rules true solver (solver.jumped target .semanticSplit) :=
    .jump rfl _ below splitting
  have validJumped := step.valid valid
  have inside : first ∈ top.literals := by simp [shape]
  have free := free_jumped coherent tops aims inside
  unfold backjump
  refine (runs_clause usable.stored).mpr ?_
  rw [runs_get]
  dsimp only
  rw [aims.answer]
  refine runs_jump valid below splitting ?_
  rw [runs_get]
  simp only [open_jumped coherent usable.backjumpable.conflicting.falsified tops aims, shape]
  refine Runs.bind validJumped (runs_decide
    (.split stored (tops.mem.mp inside).1) fun _ => free.unvalued)
    fun _ last steps chosen => .pure ⟨rfl, ?_, chosen.2.1⟩
  have counted := splits_jumped solver target .semanticSplit
  rw [if_pos rfl] at counted
  exact chosen.2.2.trans counted

theorem runs_backjump (valid : origin.Valid rules solver) {key : ClauseKey}
    (usable : solver.Usable key clause) :
    Runs rules true (backjump key) solver (fun kind rest => Returned solver rest kind)
      excuse := by
  obtain ⟨top, answer, tops, jumps⟩ := usable.backjumpable.top
  obtain ⟨target, kind, aims⟩ :=
    Trail.backjumpTarget_spec usable.backjumpable.nonempty answer tops jumps
  cases kind with
  | uniqueImplication =>
      exact (runs_backjump_assert valid usable tops aims).imp fun _ _ _ returned => returned.2
  | semanticSplit =>
      obtain ⟨literal, member, levelled⟩ := tops.attained
      obtain ⟨first, others, shape⟩ :=
        List.exists_cons_of_ne_nil (List.ne_nil_of_mem (tops.mem.mpr ⟨member, levelled⟩))
      exact (runs_backjump_split valid usable tops aims shape).imp
        fun _ _ _ returned => returned.2.1

/-! ## Storing and learning -/

/-- A clause that explains itself is not stored again. -/
theorem runs_storeExplanation_self {conflict : ClauseKey}
    (stored : solver.clauses.clause? conflict = some clause) :
    Runs rules true (storeExplanation conflict clause) solver
      (fun key rest => key = conflict ∧ rest = solver) excuse := by
  unfold storeExplanation
  refine (runs_clause stored).mpr ?_
  rw [if_pos rfl]
  exact .pure ⟨rfl, rfl⟩

omit [TheoryAtom τ] in
/-- A clause fit to jump back with is usable once it is stored. -/
theorem usable_stored (backjumpable : solver.Backjumpable clause) (source : ClauseSource) :
    ({ solver with clauses := (solver.clauses.store clause source).2 } : Solver τ).Usable
      solver.clauses.size clause := by
  have present : (solver.clauses.store clause source).2.clause? solver.clauses.size =
      some clause := by
    rw [ClauseStore.clause?, ClauseStore.stored?_store, if_pos rfl]
    rfl
  exact ⟨present, backjumpable.nonempty, ⟨Assignment.derives_stored present,
    backjumpable.conflicting.falsified⟩, backjumpable.top⟩

omit [TheoryAtom τ] in
theorem Usable.congr {other : Solver τ} {key : ClauseKey} (usable : solver.Usable key clause)
    (same : other.toAssignment = solver.toAssignment) : other.Usable key clause := by
  obtain ⟨stored, backjumpable⟩ := usable
  refine ⟨?_, ?_⟩
  · rw [same]
    exact stored
  · rw [same]
    exact backjumpable

omit [TheoryAtom τ] in
theorem storeExplanation_eq {conflict : ClauseKey} {original : Clause}
    (stored : solver.clauses.clause? conflict = some original) (explanation : Clause) :
    storeExplanation conflict explanation solver =
      if original = explanation then .ok conflict solver
      else .ok solver.clauses.size { solver with
        clauses := (solver.clauses.store explanation .resolution).2
        events := solver.events.push (.derived solver.clauses.size) } := by
  unfold storeExplanation
  rw [bind_eq (clause_of_stored stored)]
  split <;> rfl

theorem runs_storeExplanation (valid : origin.Valid rules solver) {conflict : ClauseKey}
    (violated : solver.Violates conflict) (backjumpable : solver.Backjumpable clause) :
    Runs rules false (storeExplanation conflict clause) solver
      (fun key rest => rest.Usable key clause ∧ rest.trail = solver.trail) excuse := by
  obtain ⟨original, stored, _⟩ := violated
  unfold storeExplanation
  refine (runs_clause stored).mpr ?_
  by_cases same : original = clause
  · rw [if_pos same]
    exact .pure ⟨⟨same ▸ stored, backjumpable⟩, rfl⟩
  · rw [if_neg same]
    have step : Step rules false solver
        { solver with clauses := (solver.clauses.store clause .resolution).2 } :=
      .store backjumpable.conflicting.derived
    have stores : Runs rules false (storeClause clause .resolution) solver
        (fun key rest => key = solver.clauses.size ∧
          rest = { solver with clauses := (solver.clauses.store clause .resolution).2 })
        excuse := ⟨.single step, rfl, rfl⟩
    refine Runs.bind valid stores fun key extended steps answered => ?_
    obtain ⟨rfl, rfl⟩ := answered
    refine Runs.bind (Steps.valid steps valid) (runs_emit rfl) fun _ rest _ told => .pure ?_
    exact ⟨(usable_stored backjumpable .resolution).congr told.assignment,
      by rw [congrArg Assignment.trail told.assignment]⟩

theorem runs_learn_of_watched {key : ClauseKey} (watched : solver.clauses.Watched key clause) :
    Runs rules true (learn key) solver (fun _ rest => rest = solver) excuse := by
  obtain ⟨stored, present, already, _⟩ := watched
  unfold learn
  rw [runs_get]
  simp only [present]
  rw [if_neg (by simp [already])]
  exact .pure rfl

omit [TheoryAtom τ] in
theorem watchClause_of_lt {key : ClauseKey} (known : key < solver.clauses.size) :
    watchClause key solver = .ok ⟨⟩ { solver with clauses := solver.clauses.watch key } := by
  unfold watchClause
  rw [get_bind, if_pos known]
  rfl

theorem runs_watchClause {key : ClauseKey} (known : key < solver.clauses.size) :
    Runs rules jumping (watchClause key) solver
      (fun _ rest => rest = { solver with clauses := solver.clauses.watch key }) excuse := by
  unfold watchClause
  rw [runs_get, if_pos known]
  exact .modify (.watch key)

theorem runs_learn (valid : origin.Valid rules solver) {key : ClauseKey}
    (stored : ∃ clause, solver.clauses.clause? key = some clause) :
    Runs rules false (learn key) solver (fun _ rest => rest.trail = solver.trail) excuse := by
  obtain ⟨clause, present⟩ := stored
  obtain ⟨entry, found, rfl⟩ := ClauseStore.clause?_eq_some.mp present
  unfold learn
  rw [runs_get]
  simp only [found]
  by_cases wanted : (solver.configuration.learning && !entry.watched) = true
  · rw [if_pos wanted]
    refine Runs.bind valid (runs_watchClause (ClauseStore.stored?_lt found))
      fun _ watched steps same => ?_
    subst same
    have validWatched := Steps.valid steps valid
    refine Runs.bind validWatched (runs_count _) fun _ counted steps first => ?_
    refine (runs_emit rfl).imp fun _ rest _ second => ?_
    rw [congrArg Assignment.trail (first.trans second).assignment]
  · rw [if_neg wanted]
    exact .pure rfl

/-! ## Conflicts -/

/-- A round that goes on has raised the profile, or made a split. -/
def Advanced (before after : Solver τ) : Prop :=
  Raises before.trail.profile after.trail.profile ∧ after.splits = before.splits ∨
    after.splits = before.splits + 1

/-- Why a search may break off: an analysis is stuck on values that theory atoms
gave, or there is no fuel for a trail this long. -/
def BrokenOff (rules : Rules τ) (solver : Solver τ) (fuel : Nat) (fault : Fault) : Prop :=
  ∃ reached, Steps rules true solver reached ∧
    (fault = .error .noResolutionCandidate ∧
        reached.Evaluated ∨
      fault = .outOfFuel ∧ fuel ≤ reached.trail.size)

theorem BrokenOff.before {middle : Solver τ} {fuel : Nat} {fault : Fault}
    (steps : Steps rules true solver middle) (broken : BrokenOff rules middle fuel fault) :
    BrokenOff rules solver fuel fault := by
  obtain ⟨reached, later, why⟩ := broken
  exact ⟨reached, Relation.ReflTransGen.trans steps later, why⟩

theorem runs_resolveConflict (valid : origin.Valid rules solver) {conflict : ClauseKey}
    (violated : solver.Violates conflict) (fuel : Nat) :
    Runs rules true (resolveConflict fuel conflict) solver
      (fun answer rest => match answer with
        | some report => report = .unsatisfiable ∧ rest.Refuted
        | none => Advanced solver rest)
      (fun fault _ => BrokenOff rules solver fuel fault) := by
  unfold resolveConflict
  refine Runs.bind valid (runs_count _) fun _ counted steps first => ?_
  have validCounted := Steps.valid steps valid
  have violatedCounted : counted.Violates conflict := by
    rw [first.assignment]
    exact violated
  refine Runs.bind validCounted ((runs_explain validCounted violatedCounted fuel).mono
    (fun _ _ _ answered => answered) ?_) fun clause explained later answered => ?_
  · exact fun fault rest _ why => ⟨counted, steps, why⟩
  · obtain ⟨second, explanation⟩ := answered
    have told := first.trans second
    rw [← second.assignment] at explanation
    have validExplained := Steps.valid later validCounted
    rcases explanation with ⟨bare, refuted⟩ | usable
    · rw [if_pos bare]
      have status := told_status explained .unsatisfiable
      exact Runs.bind validExplained (Runs.modify status.step) fun _ rest _ same =>
        .pure ⟨rfl, same ▸ refuted⟩
    · rw [if_neg (by rw [usable.nonempty]; exact Bool.false_ne_true)]
      have violatedExplained : explained.Violates conflict := by
        rw [told.assignment]
        exact violated
      refine Runs.bind validExplained
        (runs_storeExplanation validExplained violatedExplained usable).grown.any
        fun key storing storeSteps answered => ?_
      obtain ⟨⟨usableKey, sameTrail⟩, grown⟩ := answered
      have validStoring := Steps.valid storeSteps validExplained
      refine Runs.bind validStoring (runs_backjump validStoring usableKey)
        fun kind returned backSteps back => ?_
      have validReturned := Steps.valid backSteps validStoring
      have stays := (Steps.continues backSteps validStoring.coherent validStoring.reasoned).clauses
        _ _ usableKey.stored
      refine Runs.bind validReturned (runs_learn validReturned ⟨_, stays⟩).grown.any
        fun _ rest _ learned => .pure ?_
      have trail : storing.trail = solver.trail :=
        sameTrail.trans (congrArg Assignment.trail told.assignment)
      have splits : storing.splits = solver.splits := grown.splits.trans told.splits
      unfold Advanced
      rw [learned.1, learned.2.splits, ← trail, ← splits]
      cases kind with
      | uniqueImplication => exact .inl back
      | semanticSplit => exact .inr back

end Solver

end ModelSearch
