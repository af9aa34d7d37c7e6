import ModelSearch.Proofs.Steps.Basic

/-!
# The effects of a change

What becomes of entries, clauses and variables when a value is given, when a level
is opened with a choice, and when levels are removed.  A problem continues as long
as nothing of it is lost, and a trail grows as long as no entry of it is.  A
solver is coherent if its stores follow its trail and each theory atom watches its
variables.
-/

namespace ModelSearch

namespace Assignment

variable {assignment : Assignment} {literal : Literal}

theorem Falsifies.entry (falsified : assignment.Falsifies literal) : ∃ entry,
    assignment.trail.get? literal.atom = some entry ∧
      entry.value = .boolean !literal.polarity :=
  Trail.truth?_eq_some.mp falsified

theorem falsifies_iff :
    assignment.Falsifies literal ↔ assignment.trail.literalTruth? literal = some false := by
  rw [Trail.literalTruth?_eq_some, Falsifies]
  cases literal.polarity <;> rfl

theorem Falsifies.all (falsified : assignment.Falsifies literal) {clause : Clause}
    (others : ∀ other ∈ clause, other ≠ literal → assignment.Falsifies other) :
    ∀ other ∈ clause, assignment.Falsifies other := by
  intro other member
  by_cases same : other = literal
  · exact same ▸ falsified
  · exact others other member same

end Assignment

namespace Solver

variable {τ : Type}

/-! ## The effect of giving a value -/

/-- A value is given unless there is a reason not to. -/
theorem setValue_eq (atom : Atom) (value : Value) (reason : Reason) (level : Nat) :
    setValue atom value reason level = (do
      match (← get).setError? atom level with
      | some abort => throw (.abort abort)
      | none => modify (given · atom value reason level) : SolverM τ Unit) := by
  funext solver
  show reassign (solver.toAssignment.assign atom value reason level) solver =
    (match solver.setError? atom level with
      | some abort => throw (.abort abort)
      | none => modify (given · atom value reason level) : SolverM τ Unit) solver
  rw [Assignment.assign_eq]
  cases solver.setError? atom level <;> rfl

@[simp] theorem get?_given (solver : Solver τ) (atom : Atom) (value : Value) (reason : Reason)
    (level : Nat) (other : Atom) :
    (solver.given atom value reason level).trail.get? other =
      if atom = other then some ⟨value, level, reason, solver.trail.position⟩
      else solver.trail.get? other :=
  Trail.get?_push _ _ _ _ _ _

@[simp] theorem level_given (solver : Solver τ) (atom : Atom) (value : Value) (reason : Reason)
    (level : Nat) : (solver.given atom value reason level).trail.level = solver.trail.level :=
  Trail.level_push _ _ _ _ _

@[simp] theorem stored_given (solver : Solver τ) (atom : Atom) (value : Value) (reason : Reason)
    (level : Nat) :
    (solver.given atom value reason level).clauses.clauses = solver.clauses.clauses := by
  unfold given Assignment.set
  cases value <;> rfl

@[simp] theorem clause?_given (solver : Solver τ) (atom : Atom) (value : Value) (reason : Reason)
    (level : Nat) (key : ClauseKey) :
    (solver.given atom value reason level).clauses.clause? key = solver.clauses.clause? key := by
  unfold ClauseStore.clause? ClauseStore.stored?
  rw [stored_given]

@[simp] theorem signature_given (solver : Solver τ) (atom : Atom) (value : Value)
    (reason : Reason) (level : Nat) :
    (solver.given atom value reason level).vars.signature = solver.vars.signature := by
  unfold given Assignment.set
  cases atom with
  | var key => exact VariableStore.signature_setValue _ _ _
  | theory key => rfl

@[simp] theorem clause?_chosen (solver : Solver τ) (atom : Atom) (value : Value)
    (key : ClauseKey) :
    (solver.chosen atom value).clauses.clause? key = solver.clauses.clause? key :=
  clause?_given _ _ _ _ _ _

@[simp] theorem signature_chosen (solver : Solver τ) (atom : Atom) (value : Value) :
    (solver.chosen atom value).vars.signature = solver.vars.signature :=
  signature_given _ _ _ _ _

@[simp] theorem get?_chosen (solver : Solver τ) (atom : Atom) (value : Value) (other : Atom) :
    (solver.chosen atom value).trail.get? other =
      if atom = other then
        some ⟨value, solver.trail.openLevel.level, .decided, solver.trail.position⟩
      else solver.trail.get? other :=
  get?_given _ _ _ _ _ _

theorem kept_given {solver : Solver τ} {atom : Atom} (free : solver.Free atom) (value : Value)
    (reason : Reason) (level : Nat) {other : Atom} {entry : Entry}
    (found : solver.trail.get? other = some entry) :
    (solver.given atom value reason level).trail.get? other = some entry := by
  rw [get?_given, if_neg (Trail.ne_of_get? free.unvalued found), found]

theorem kept_chosen {solver : Solver τ} {atom : Atom} (free : solver.Free atom) (value : Value)
    {other : Atom} {entry : Entry} (found : solver.trail.get? other = some entry) :
    (solver.chosen atom value).trail.get? other = some entry := by
  rw [get?_chosen, if_neg (Trail.ne_of_get? free.unvalued found), found]

/-- A choice is listed at a level of its own. -/
theorem atomsAt_chosen {solver : Solver τ} (sound : solver.trail.Sound) (atom : Atom)
    (value : Value) (level : Nat) : (solver.chosen atom value).trail.atomsAt level =
      if solver.trail.level + 1 = level then [atom] else solver.trail.atomsAt level := by
  show ((solver.trail.openLevel.push atom value .decided solver.trail.openLevel.level).atomsAt
    level) = _
  rw [sound.openLevel.atomsAt_push (Nat.le_refl _), sound.level_openLevel,
    Trail.atomsAt_openLevel]
  split
  · next newest =>
      rw [sound.atomsAt_above (newest ▸ Nat.lt_succ_self _)]
      rfl
  · rfl

/-! ## The effect of a jump -/

theorem clause?_jumped {solver : Solver τ} (coherent : solver.toAssignment.Coherent)
    (level : Nat) (kind : BackjumpKind) (key : ClauseKey) :
    (solver.jumped level kind).clauses.clause? key = solver.clauses.clause? key := by
  unfold ClauseStore.clause? ClauseStore.stored? jumped
  rw [(coherent.unsetAbove level).formula.clauses]

theorem trail_jumped {solver : Solver τ} (coherent : solver.toAssignment.Coherent)
    (level : Nat) (kind : BackjumpKind) :
    (solver.jumped level kind).trail = (solver.trail.clearAbove level).2 :=
  (coherent.unsetAbove level).trail

theorem get?_jumped {solver : Solver τ} (coherent : solver.toAssignment.Coherent)
    {level : Nat} {kind : BackjumpKind} {atom : Atom} {entry : Entry} :
    (solver.jumped level kind).trail.get? atom = some entry ↔
      solver.trail.get? atom = some entry ∧ entry.level ≤ level := by
  rw [trail_jumped coherent, coherent.trail.get?_clearAbove_eq_some]

/-! ## The problem -/

/-- The problem a solver was set stays: variables, theory atoms, configuration,
and the clauses stored so far. -/
structure Continues (origin solver : Solver τ) : Prop where
  signature : solver.vars.signature = origin.vars.signature
  theoryAtoms : solver.theoryAtoms = origin.theoryAtoms
  configuration : solver.configuration = origin.configuration
  clauses : ∀ key clause, origin.clauses.clause? key = some clause →
    solver.clauses.clause? key = some clause

namespace Continues

variable {first second third : Solver τ}

theorem refl (solver : Solver τ) : Continues solver solver := ⟨rfl, rfl, rfl, fun _ _ => id⟩

theorem trans (left : Continues first second) (right : Continues second third) :
    Continues first third where
  signature := right.signature.trans left.signature
  theoryAtoms := right.theoryAtoms.trans left.theoryAtoms
  configuration := right.configuration.trans left.configuration
  clauses key clause stored := right.clauses key clause (left.clauses key clause stored)

theorem size (continues : Continues first second) : second.vars.size = first.vars.size := by
  rw [← VariableStore.length_signature, continues.signature, VariableStore.length_signature]

theorem sort?_eq (continues : Continues first second) (key : VariableKey) :
    (second.vars.get? key).map Variable.sort = (first.vars.get? key).map Variable.sort := by
  have same := congrArg (fun signature : List (String × VariableSort) =>
    (signature[key]?).map Prod.snd) continues.signature
  simp only [VariableStore.getElem?_signature, Option.map_map] at same
  exact same

theorem admits (continues : Continues first second) {atom : Atom} {value : Value} :
    second.Admits atom value ↔ first.Admits atom value := by
  cases atom with
  | var key => rw [admits_var, admits_var, continues.sort?_eq]
  | theory key =>
      unfold Admits
      rw [continues.theoryAtoms]

end Continues

/-! ## Coherence -/

variable [TheoryAtom τ]

/-- The stores follow the trail, and each theory atom watches its variables. -/
structure Coherent (solver : Solver τ) : Prop where
  assignment : solver.toAssignment.Coherent
  supports : ∀ owner members, solver.vars.watches.Watching owner members ↔
    ∃ atom, solver.theoryAtoms[owner]? = some atom ∧
      canonical (TheoryAtom.support atom) = members
  registered : ∀ (owner : Nat) (atom : τ), solver.theoryAtoms[owner]? = some atom →
    ∀ key ∈ TheoryAtom.support atom, key < solver.vars.size

theorem Coherent.single {solver : Solver τ} (coherent : solver.Coherent) (owner : TheoryKey)
    (left right : List VariableKey) (onLeft : solver.vars.watches.Watching owner left)
    (onRight : solver.vars.watches.Watching owner right) : left = right := by
  obtain ⟨first, present, rfl⟩ := (coherent.supports _ _).mp onLeft
  obtain ⟨second, again, rfl⟩ := (coherent.supports _ _).mp onRight
  rw [Option.some.inj (present.symm.trans again)]

theorem Coherent.semanticUnits_nodup {solver : Solver τ} (coherent : solver.Coherent) :
    solver.vars.semanticUnits.Nodup :=
  Watches.unitOwners_nodup coherent.assignment.vars.watches coherent.single

theorem Coherent.fullyAssigned_nodup {solver : Solver τ} (coherent : solver.Coherent) :
    solver.vars.fullyAssigned.Nodup :=
  Watches.violatedOwners_nodup coherent.assignment.vars.watches coherent.single

/-- Coherence rests on what the formula and the assignment are. -/
theorem Coherent.of_sameFormula {solver other : Solver τ} (coherent : solver.Coherent)
    (assignment : other.toAssignment.Coherent)
    (formula : SameFormula solver.toAssignment other.toAssignment)
    (theoryAtoms : other.theoryAtoms = solver.theoryAtoms) : other.Coherent where
  assignment := assignment
  supports owner members := by
    rw [formula.watching, coherent.supports, theoryAtoms]
  registered owner atom present key member := by
    rw [theoryAtoms] at present
    rw [formula.size]
    exact coherent.registered owner atom present key member

theorem Coherent.withClauses {solver : Solver τ} (coherent : solver.Coherent)
    {clauses : ClauseStore}
    (follow : ClausesFollow solver.trail.value? clauses) :
    ({ solver with clauses := clauses } : Solver τ).Coherent where
  assignment := ⟨coherent.assignment.trail, coherent.assignment.vars, follow⟩
  supports := coherent.supports
  registered := coherent.registered

theorem Coherent.given {solver : Solver τ} (coherent : solver.Coherent) {atom : Atom}
    (free : solver.Free atom) (value : Value) (reason : Reason) {level : Nat}
    (isOpen : level ≤ solver.trail.level) : (solver.given atom value reason level).Coherent :=
  coherent.of_sameFormula
    (coherent.assignment.set free.unvalued isOpen free.known)
    (Assignment.sameFormula_set _ coherent.assignment _ _ _ _) rfl

theorem Coherent.chosen {solver : Solver τ} (coherent : solver.Coherent) {atom : Atom}
    (free : solver.Free atom) (value : Value) : (solver.chosen atom value).Coherent := by
  have opened : ({ solver with trail := solver.trail.openLevel } : Solver τ).Coherent :=
    ⟨coherent.assignment.openLevel, coherent.supports, coherent.registered⟩
  have openedFree : ({ solver with trail := solver.trail.openLevel } : Solver τ).Free atom :=
    ⟨free.unvalued, free.known⟩
  exact opened.given openedFree value .decided (Nat.le_refl _)

/-- Values that follow are recorded at open levels. -/
theorem greatestLevel_le {trail : Trail} (sound : trail.Sound) (keys : List VariableKey) :
    greatestLevel trail keys ≤ trail.level := by
  have bounded : ∀ (levels : List Nat) (start : Nat), start ≤ trail.level →
      (∀ level ∈ levels, level ≤ trail.level) → levels.foldl max start ≤ trail.level := by
    intro levels
    induction levels with
    | nil => exact fun start below _ => below
    | cons level levels induction =>
        intro start below all
        refine induction _ (Nat.max_le.mpr ⟨below, all level List.mem_cons_self⟩) ?_
        exact fun other inside => all other (List.mem_cons_of_mem _ inside)
  refine bounded _ 0 (Nat.zero_le _) fun level inside => ?_
  obtain ⟨key, _, levelled⟩ := List.mem_filterMap.mp inside
  obtain ⟨entry, found, rfl⟩ := Trail.level?_eq_some.mp levelled
  exact sound.level_le found

end Solver

/-! ## Growth -/

variable {τ : Type} {solver before after : Solver τ}

/-- Entries stay, and the trail is the same or longer. -/
structure Grown (before after : Solver τ) : Prop where
  kept : ∀ atom entry, before.trail.get? atom = some entry →
    after.trail.get? atom = some entry
  trail : after.trail = before.trail ∨ before.trail.size < after.trail.size
  splits : after.splits = before.splits

namespace Grown

theorem of_trail (trail : after.trail = before.trail) (splits : after.splits = before.splits) :
    Grown before after where
  kept atom entry found := by rwa [trail]
  trail := .inl trail
  splits := splits

theorem refl (solver : Solver τ) : Grown solver solver := of_trail rfl rfl

theorem trans {middle : Solver τ} (first : Grown before middle) (second : Grown middle after) :
    Grown before after where
  kept atom entry found := second.kept atom entry (first.kept atom entry found)
  trail := by
    rcases first.trail with same | longer
    · rw [← same]
      exact second.trail
    · rcases second.trail with same | longest
      · rw [same]
        exact .inr longer
      · exact .inr (longer.trans longest)
  splits := second.splits.trans first.splits

theorem size_le (grown : Grown before after) : before.trail.size ≤ after.trail.size := by
  rcases grown.trail with same | longer
  · rw [same]
  · exact Nat.le_of_lt longer

theorem isSome (grown : Grown before after) {atom : Atom}
    (valued : (before.trail.get? atom).isSome = true) :
    (after.trail.get? atom).isSome = true := by
  obtain ⟨entry, found⟩ := Option.isSome_iff_exists.mp valued
  rw [grown.kept atom entry found]
  rfl

theorem falsifies (grown : Grown before after) {literal : Literal}
    (falsified : before.Falsifies literal) : after.Falsifies literal := by
  obtain ⟨entry, found, value⟩ := falsified.entry
  exact Trail.truth?_eq_some.mpr ⟨entry, grown.kept _ _ found, value⟩

theorem literalTrue {literal : Literal} (grown : Grown before after)
    (holds : before.trail.literalTruth? literal = some true) :
    after.trail.literalTruth? literal = some true := by
  rw [Trail.literalTruth?_eq_some, Trail.truth?_eq_some] at holds ⊢
  obtain ⟨entry, found, value⟩ := holds
  exact ⟨entry, grown.kept _ _ found, value⟩

end Grown

theorem Solver.size_given {atom : Atom} (free : solver.Free atom) (value : Value)
    (reason : Reason) (level : Nat) :
    (solver.given atom value reason level).trail.size = solver.trail.size + 1 :=
  Trail.size_push free.unvalued

theorem Solver.grown_given {atom : Atom} (free : solver.Free atom) (value : Value)
    (reason : Reason) (level : Nat) : Grown solver (solver.given atom value reason level) where
  kept _ _ := kept_given free value reason level
  trail := .inr ((Nat.lt_succ_self _).trans_eq (size_given free value reason level).symm)
  splits := rfl

theorem Solver.grown_chosen {atom : Atom} (free : solver.Free atom) (value : Value) :
    Grown solver (solver.chosen atom value) := by
  have opened : ({ solver with trail := solver.trail.openLevel } : Solver τ).Free atom :=
    ⟨free.unvalued, free.known⟩
  have longer : (solver.chosen atom value).trail.size = solver.trail.size + 1 :=
    Trail.size_push opened.unvalued
  exact ⟨(grown_given opened value .decided solver.trail.openLevel.level).kept,
    .inr (longer ▸ Nat.lt_succ_self _), rfl⟩

end ModelSearch
