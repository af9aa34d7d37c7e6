import ModelSearch.Proofs.Calls.AcrossBasicCalls

/-!
# Additions

A formula grows by one variable, theory atom or clause at a time.  An addition is made only when
what it needs is there, so names stay with their variables and clauses with their atoms; clauses
of the theory may also be added to a formula that is closed.

Whatever else is done leaves the formula alone: variables, theory atoms and the clauses of the
formula are those of before, and clauses that are stored besides come from elsewhere.
-/

namespace ModelSearch

/-! ## Names and keys -/

namespace VariableStore

variable {store other : VariableStore} {name : String} {key : VariableKey}

/-- Each name leads to the one variable that bears it. -/
def Keyed (store : VariableStore) : Prop :=
  ∀ name key, store.key? name = some key ↔
    ∃ known, store.get? key = some known ∧ known.name = name

theorem bears_iff : (∃ known, store.get? key = some known ∧ known.name = name) ↔
    ∃ sort, store.signature[key]? = some (name, sort) := by
  rw [getElem?_signature]
  cases store.get? key <;> simp

theorem keyed_empty : Keyed ∅ := by
  intro name key
  show (∅ : Std.TreeMap String VariableKey)[name]? = some key ↔
    ∃ known, (#[] : Array Variable)[key]? = some known ∧ _
  simp

theorem Keyed.congr (keyed : store.Keyed) (keys : other.keys = store.keys)
    (signature : other.signature = store.signature) : other.Keyed := by
  intro name key
  rw [bears_iff, signature, ← bears_iff, key?, keys]
  exact keyed name key

theorem Keyed.push (keyed : store.Keyed) (unused : store.nameError? name = none)
    (sort : VariableSort) : (store.push name sort).Keyed := by
  have free : store.key? name = none := by
    unfold nameError? at unused
    split at unused
    · cases unused
    · next absent => simpa [key?] using absent
  intro given key
  have found : (store.push name sort).key? given =
      if name = given then some store.size else store.key? given := by
    show (store.keys.insert name store.size)[given]? = _
    rw [Std.TreeMap.getElem?_insert]
    simp only [Std.LawfulEqOrd.compare_eq_iff_eq]
    rfl
  rw [found, get?_push]
  by_cases last : key = store.size
  · subst last
    have beyond : store.get? store.size = none := Array.getElem?_size
    have unborne : store.key? given ≠ some store.size := by
      intro known
      obtain ⟨_, present, _⟩ := (keyed given _).mp known
      cases beyond.symm.trans present
    by_cases same : name = given <;> simp [same, unborne]
  · rw [if_neg last, ← keyed given key]
    by_cases same : name = given
    · subst same
      simp [free, Ne.symm last]
    · rw [if_neg same]

end VariableStore

/-! ## Clauses and their sources -/

namespace ClauseStore

variable {clauses other : ClauseStore}

/-- The clauses with their sources, in the order of addition. -/
def origins (clauses : ClauseStore) : List (Clause × ClauseSource) :=
  clauses.clauses.toList.map fun stored => (stored.clause, stored.source)

theorem getElem?_origins (clauses : ClauseStore) (key : ClauseKey) :
    clauses.origins[key]? =
      (clauses.stored? key).map fun stored => (stored.clause, stored.source) := by
  simp [origins, stored?]

theorem input_iff (clauses : ClauseStore) (key : ClauseKey) (clause : Clause) :
    clauses.origins[key]? = some (clause, .input) ↔
      ∃ watched, clauses.stored? key = some ⟨clause, .input, watched⟩ := by
  rw [getElem?_origins]
  constructor
  · intro found
    obtain ⟨⟨_, _, watched⟩, present, same⟩ := Option.map_eq_some_iff.mp found
    cases same
    exact ⟨watched, present⟩
  · rintro ⟨watched, present⟩
    rw [present]
    rfl

theorem count_eq_countP (clauses : ClauseStore) (source : ClauseSource) :
    clauses.count source = clauses.origins.countP fun origin => origin.2 == source := by
  rw [count, origins, List.countP_map]
  rfl

@[simp] theorem origins_add (clauses : ClauseStore) (clause : Clause) (source : ClauseSource) :
    (clauses.add clause source).2.origins = clauses.origins ++ [(clause, source)] := by
  simp [origins, add]

theorem count_add_input (clauses : ClauseStore) (clause : Clause) :
    (clauses.add clause .input).2.count .input = clauses.count .input + 1 := by
  rw [count_eq_countP, origins_add, List.countP_append, count_eq_countP]
  rfl

@[simp] theorem origins_store (clauses : ClauseStore) (clause : Clause) (source : ClauseSource) :
    (clauses.store clause source).2.origins = clauses.origins ++ [(clause, source)] := by
  simp [origins, store]

@[simp] theorem origins_watch (clauses : ClauseStore) (key : ClauseKey) :
    (clauses.watch key).origins = clauses.origins := by
  refine List.ext_getElem? fun index => ?_
  rw [getElem?_origins, getElem?_origins, stored?_watch]
  cases clauses.stored? index with
  | none => rfl
  | some stored =>
      simp only [Option.map_some]
      split <;> rfl

end ClauseStore

namespace Solver

variable {τ : Type} {before middle after : Solver τ}

/-- Variables, theory atoms and the clauses of the formula are those of before. -/
structure KeepsFormula (before after : Solver τ) : Prop where
  signature : after.vars.signature = before.vars.signature
  keys : after.vars.keys = before.vars.keys
  theoryAtoms : after.theoryAtoms = before.theoryAtoms
  clauses : ∃ derived, after.clauses.origins = before.clauses.origins ++ derived ∧
    ∀ origin ∈ derived, origin.2 ≠ .input

namespace KeepsFormula

theorem of_origins (signature : after.vars.signature = before.vars.signature)
    (keys : after.vars.keys = before.vars.keys)
    (theoryAtoms : after.theoryAtoms = before.theoryAtoms)
    (origins : after.clauses.origins = before.clauses.origins) : KeepsFormula before after :=
  ⟨signature, keys, theoryAtoms, [], by rw [origins, List.append_nil], by rintro _ ⟨⟩⟩

theorem of_sameFormula (same : SameFormula before.toAssignment after.toAssignment)
    (theoryAtoms : after.theoryAtoms = before.theoryAtoms) : KeepsFormula before after :=
  of_origins same.signature same.keys theoryAtoms (by
    unfold ClauseStore.origins
    rw [same.clauses])

theorem of_appended {clause : Clause} {source : ClauseSource} (derived : source ≠ .input)
    (vars : after.vars = before.vars) (theoryAtoms : after.theoryAtoms = before.theoryAtoms)
    (origins : after.clauses.origins = before.clauses.origins ++ [(clause, source)]) :
    KeepsFormula before after := by
  refine ⟨by rw [vars], by rw [vars], theoryAtoms, _, origins, fun origin inside => ?_⟩
  rw [List.mem_singleton.mp inside]
  exact derived

theorem refl (solver : Solver τ) : KeepsFormula solver solver := of_origins rfl rfl rfl rfl

theorem trans (first : KeepsFormula before middle) (second : KeepsFormula middle after) :
    KeepsFormula before after where
  signature := second.signature.trans first.signature
  keys := second.keys.trans first.keys
  theoryAtoms := second.theoryAtoms.trans first.theoryAtoms
  clauses := by
    obtain ⟨derived, former, sources⟩ := first.clauses
    obtain ⟨further, latter, later⟩ := second.clauses
    refine ⟨derived ++ further, by rw [latter, former, List.append_assoc], fun origin inside => ?_⟩
    exact (List.mem_append.mp inside).elim (sources origin) (later origin)

/-- Clauses of the formula stay under their keys, and no others are added. -/
theorem input_iff (keeps : KeepsFormula before after) (key : ClauseKey) (clause : Clause) :
    after.clauses.origins[key]? = some (clause, .input) ↔
      before.clauses.origins[key]? = some (clause, .input) := by
  obtain ⟨derived, origins, sources⟩ := keeps.clauses
  rw [origins, List.getElem?_append]
  split
  · exact Iff.rfl
  · next beyond =>
      rw [List.getElem?_eq_none (Nat.le_of_not_lt beyond)]
      constructor
      · intro found
        exact absurd rfl (sources _ (List.mem_of_getElem? found))
      · rintro ⟨⟩

theorem count_input (keeps : KeepsFormula before after) :
    after.clauses.count .input = before.clauses.count .input := by
  obtain ⟨derived, origins, sources⟩ := keeps.clauses
  have none : derived.countP (fun origin => origin.2 == ClauseSource.input) = 0 :=
    List.countP_eq_zero.mpr fun origin inside => by simpa using sources origin inside
  rw [ClauseStore.count_eq_countP, origins, List.countP_append, none, Nat.add_zero,
    ClauseStore.count_eq_countP]

end KeepsFormula

end Solver

variable {τ : Type} [TheoryAtom τ] {rules : Rules τ} {jumping : Bool}
  {solver before after : Solver τ}

theorem Change.keepsFormula (change : Change rules jumping before after)
    (coherent : before.Coherent) : before.KeepsFormula after := by
  cases change with
  | tell assignment theoryAtoms _ _ =>
      exact .of_sameFormula (assignment ▸ SameFormula.refl _) theoryAtoms
  | requeue _ _ => exact .of_origins rfl rfl rfl rfl
  | @choose atom value _ _ =>
      have same := Assignment.sameFormula_set _ coherent.assignment.openLevel atom value .decided
        before.trail.openLevel.level
      exact .of_sameFormula ⟨same.signature, same.keys, same.clauses, same.watching⟩ rfl
  | give _ _ _ =>
      exact .of_sameFormula (Assignment.sameFormula_set _ coherent.assignment _ _ _ _) rfl
  | learn _ _ => exact .of_appended (by decide) rfl rfl (ClauseStore.origins_add _ _ _)
  | store _ => exact .of_appended (by decide) rfl rfl (ClauseStore.origins_store _ _ _)
  | watch key => exact .of_origins rfl rfl rfl (ClauseStore.origins_watch _ _)
  | @cut _ level _ assignment theoryAtoms _ =>
      exact .of_sameFormula (assignment ▸ (coherent.assignment.unsetAbove level).formula)
        theoryAtoms

theorem Changes.keepsFormula (changes : Changes rules jumping before after)
    (coherent : before.Coherent) : before.KeepsFormula after := by
  induction changes with
  | refl => exact .refl before
  | tail earlier change induction =>
      exact induction.trans (change.keepsFormula (Changes.coherent earlier coherent))

/-! ## Additions -/

/-- Something was added, or told of reading. -/
inductive Addition (before : Solver τ) : Solver τ → Prop
  | withVariable {name : String} {sort : VariableSort} (input : before.status = .input)
      (unused : before.vars.nameError? name = none) :
      Addition before (before.withVariable name sort)
  | withTheoryAtom {atom : τ} (input : before.status = .input)
      (known : ∀ key ∈ TheoryAtom.support atom, key < before.vars.size) :
      Addition before (before.withTheoryAtom atom)
  | withClause {clause : Clause} (input : before.status = .input)
      (fitting : Solver.clauseError? before clause = none) :
      Addition before (before.withClause clause)
  | withLemma {clause : Clause} (fitting : Solver.clauseError? before clause = none) :
      Addition before (before.withLemma clause)
  | notice {event : Event} (notice : event.notice?.isSome = true) :
      Addition before (Solver.telling event before)

namespace Addition

theorem status (addition : Addition before after) : after.status = before.status := by
  cases addition <;> rfl

theorem coherent (addition : Addition before after) (coherent : before.Coherent) :
    after.Coherent := by
  cases addition with
  | withVariable _ _ => exact coherent.withVariable _ _
  | withTheoryAtom _ known => exact coherent.withTheoryAtom known
  | withClause _ _ => exact coherent.withClause _
  | @withLemma clause _ =>
      have added := coherent.withClauses (coherent.assignment.clauses.add clause .theory)
      exact ⟨added.assignment, added.supports, added.registered⟩
  | notice _ => exact ⟨coherent.assignment, coherent.supports, coherent.registered⟩

theorem checked (addition : Addition before after) (checked : before.Checked) : after.Checked := by
  cases addition with
  | withVariable _ _ => exact checked.withVariable _ _
  | withTheoryAtom _ _ => exact checked.withTheoryAtom _
  | withClause _ fitting => exact checked.withClause fitting
  | withLemma fitting => exact checked.added fitting .theory
  | notice _ => exact checked

theorem keyed (addition : Addition before after) (keyed : before.vars.Keyed) :
    after.vars.Keyed := by
  cases addition with
  | withVariable _ unused => exact keyed.push unused _
  | withTheoryAtom _ _ => exact keyed
  | withClause _ _ => exact keyed
  | withLemma _ => exact keyed
  | notice _ => exact keyed

/-- Nothing is added to a closed formula. -/
theorem keepsFormula (addition : Addition before after) (closed : before.status ≠ .input) :
    before.KeepsFormula after := by
  cases addition with
  | withVariable input _ => exact absurd input closed
  | withTheoryAtom input _ => exact absurd input closed
  | withClause input _ => exact absurd input closed
  | withLemma _ => exact .of_appended (by decide) rfl rfl (ClauseStore.origins_add _ _ _)
  | notice _ => exact .of_origins rfl rfl rfl rfl

end Addition

end ModelSearch
