import ModelSearch.Proofs.Steps.Effects

/-!
# What a search may change

Whatever hooks ask for, and whether or not a clause they report is violated, a
search only makes changes of a few kinds.  These keep the problem, the coherence
of the solver and what is watched, and values stay in their sorts if the requests
do.  The steps of a search are changes that rest on more.
-/

namespace ModelSearch

/-- Each literal of the clause occurs in a stored clause. -/
def Assignment.Shares (assignment : Assignment) (clause : Clause) : Prop :=
  ∀ literal ∈ clause, ∃ key stored,
    assignment.clauses.clause? key = some stored ∧ literal ∈ stored

variable {τ : Type} [TheoryAtom τ]

/-- What gives an atom its value, by choice or not. -/
inductive Cause (rules : Rules τ) (solver : Solver τ) : Atom → Value → Prop
  /-- A variable takes the default value of its sort. -/
  | default {key : VariableKey} {known : Variable} (present : solver.vars.get? key = some known) :
      Cause rules solver (.var key) known.sort.defaultValue
  /-- A literal of a stored clause becomes true. -/
  | literal {key : ClauseKey} {clause : Clause} {literal : Literal}
      (stored : solver.clauses.clause? key = some clause) (member : literal ∈ clause) :
      Cause rules solver literal.atom (.boolean literal.polarity)
  /-- A theory atom takes the value it evaluates to. -/
  | evaluation {key : TheoryKey} {atom : τ} {truth : Bool}
      (present : solver.theoryAtoms[key]? = some atom)
      (evaluated : TheoryAtom.evaluate atom solver.values = some truth) :
      Cause rules solver (.theory key) (.boolean truth)
  /-- A hook gives a variable a value. -/
  | assigned {owner : TheoryKey} {key : VariableKey} {value : Value}
      (allowed : rules.assign solver owner key value) : Cause rules solver (.var key) value
  /-- A hook decides an atom. -/
  | decided {owner : TheoryKey} {atom : Atom} {value : Value}
      (allowed : rules.decide solver owner atom value) : Cause rules solver atom value

/-- A change of the solver.  Levels are removed only if jumping is allowed. -/
inductive Change (rules : Rules τ) (jumping : Bool) : Solver τ → Solver τ → Prop
  /-- Something is told or counted. -/
  | tell {before after : Solver τ} (assignment : after.toAssignment = before.toAssignment)
      (theoryAtoms : after.theoryAtoms = before.theoryAtoms)
      (configuration : after.configuration = before.configuration)
      (splits : jumping = true ∨ after.splits = before.splits) : Change rules jumping before after
  /-- The queue is replaced by one of the same variables. -/
  | requeue {solver : Solver τ} {queue : LazyQueue} (sound : queue.Sound)
      (same : ∀ key, queue.contains key = true ↔ solver.vars.queue.contains key = true) :
      Change rules jumping solver { solver with vars := { solver.vars with queue := queue } }
  /-- A level is opened with a choice. -/
  | choose {solver : Solver τ} {atom : Atom} {value : Value} (free : solver.Free atom)
      (cause : Cause rules solver atom value) :
      Change rules jumping solver (solver.chosen atom value)
  /-- A value is given at an open level. -/
  | give {solver : Solver τ} {atom : Atom} {value : Value} {reason : Reason} {level : Nat}
      (free : solver.Free atom) (cause : Cause rules solver atom value)
      (isOpen : level ≤ solver.trail.level) :
      Change rules jumping solver (solver.given atom value reason level)
  /-- A hook adds a clause. -/
  | learn {solver : Solver τ} {owner : TheoryKey} {clause : Clause}
      (allowed : rules.learn solver owner clause)
      (fitting : Solver.clauseError? solver clause = none) :
      Change rules jumping solver
        { solver with clauses := (solver.clauses.add clause .theory).2 }
  /-- A clause made of literals of stored clauses is stored. -/
  | store {solver : Solver τ} {clause : Clause} (shared : solver.Shares clause) :
      Change rules jumping solver
        { solver with clauses := (solver.clauses.store clause .resolution).2 }
  /-- A stored clause is watched. -/
  | watch {solver : Solver τ} (key : ClauseKey) :
      Change rules jumping solver { solver with clauses := solver.clauses.watch key }
  /-- Levels are removed. -/
  | cut {before after : Solver τ} {level : Nat} (allowed : jumping = true)
      (assignment : after.toAssignment = before.toAssignment.unsetAbove level)
      (theoryAtoms : after.theoryAtoms = before.theoryAtoms)
      (configuration : after.configuration = before.configuration) :
      Change rules jumping before after

/-- A sequence of changes. -/
abbrev Changes (rules : Rules τ) (jumping : Bool) : Solver τ → Solver τ → Prop :=
  Relation.ReflTransGen (Change rules jumping)

variable {rules : Rules τ} {jumping : Bool} {before after : Solver τ}

/-! ## Steps are changes -/

theorem Warrant.cause {solver : Solver τ} {atom : Atom} {value : Value}
    (warrant : Warrant rules solver atom value) : Cause rules solver atom value := by
  cases warrant with
  | search present => exact .default present
  | split stored member => exact .literal stored member
  | request allowed => exact .decided allowed

namespace Grounds

variable {solver : Solver τ} {atom : Atom} {value : Value} {reason : Reason} {level : Nat}

theorem cause (grounds : Grounds rules solver atom value reason level) :
    Cause rules solver atom value := by
  cases grounds with
  | clause stored member others => exact .literal stored member
  | evaluation present evaluated valued => exact .evaluation present evaluated
  | request allowed => exact .assigned allowed

theorem level_le (sound : solver.trail.Sound)
    (grounds : Grounds rules solver atom value reason level) : level ≤ solver.trail.level := by
  cases grounds with
  | clause stored member others => exact Nat.le_refl _
  | evaluation present evaluated valued => exact Solver.greatestLevel_le sound _
  | request allowed => exact Nat.le_refl _

end Grounds

theorem Step.change (step : Step rules jumping before after) (coherent : before.Coherent) :
    Change rules jumping before after := by
  cases step with
  | tell assignment theoryAtoms configuration splits =>
      exact .tell assignment theoryAtoms configuration (.inr splits)
  | requeue sound same => exact .requeue sound same
  | choose free warrant => exact .choose free warrant.cause
  | give free grounds =>
      exact .give free grounds.cause (grounds.level_le coherent.assignment.trail)
  | learn allowed fitting => exact .learn allowed fitting
  | store derived => exact .store derived.shared
  | watch key => exact .watch key
  | jump allowed kind below splitting => exact .cut allowed rfl rfl rfl

/-! ## What is stored -/

/-- A stored clause stays, and stays watched. -/
theorem Change.kept (change : Change rules jumping before after) (coherent : before.Coherent)
    {key : ClauseKey} {stored : StoredClause}
    (present : before.clauses.stored? key = some stored) :
    ∃ later, after.clauses.stored? key = some later ∧ later.clause = stored.clause ∧
      (stored.watched = true → later.watched = true) := by
  -- A clause that is added takes a new key, and only watching touches an old one.
  have known := ClauseStore.stored?_lt present
  cases change with
  | tell assignment theoryAtoms configuration splits =>
      rw [assignment]
      exact ⟨stored, present, rfl, id⟩
  | requeue sound same => exact ⟨stored, present, rfl, id⟩
  | choose free cause =>
      refine ⟨stored, ?_, rfl, id⟩
      rw [ClauseStore.stored?, Solver.chosen, Solver.stored_given]
      exact present
  | give free cause isOpen =>
      refine ⟨stored, ?_, rfl, id⟩
      rw [ClauseStore.stored?, Solver.stored_given]
      exact present
  | learn allowed fitting =>
      refine ⟨stored, ?_, rfl, id⟩
      rw [ClauseStore.stored?_add, if_neg (Nat.ne_of_lt known), present]
  | store shared =>
      refine ⟨stored, ?_, rfl, id⟩
      rw [ClauseStore.stored?_store, if_neg (Nat.ne_of_lt known), present]
  | watch other =>
      refine ⟨_, (ClauseStore.stored?_watch _ _ _).trans (congrArg _ present), ?_, ?_⟩
      · dsimp only
        split <;> rfl
      · intro watched
        dsimp only
        split <;> simp [watched]
  | @cut _ level allowed assignment theoryAtoms configuration =>
      refine ⟨stored, ?_, rfl, id⟩
      rw [ClauseStore.stored?, assignment, (coherent.assignment.unsetAbove level).formula.clauses]
      exact present

/-- A stored clause is old, or was learnt from a hook, or is made of stored ones. -/
theorem Change.stored (change : Change rules jumping before after) (coherent : before.Coherent)
    {key : ClauseKey} {stored : StoredClause}
    (present : after.clauses.stored? key = some stored) :
    (∃ former, before.clauses.stored? key = some former ∧ former.clause = stored.clause ∧
        former.source = stored.source) ∨
      (Solver.clauseError? before stored.clause = none ∧ stored.watched = true) ∨
      (before.Shares stored.clause ∧ stored.source = .resolution) := by
  cases change with
  | tell assignment theoryAtoms configuration splits =>
      rw [assignment] at present
      exact .inl ⟨stored, present, rfl, rfl⟩
  | requeue sound same => exact .inl ⟨stored, present, rfl, rfl⟩
  | choose free cause =>
      rw [ClauseStore.stored?, Solver.chosen, Solver.stored_given] at present
      exact .inl ⟨stored, present, rfl, rfl⟩
  | give free cause isOpen =>
      rw [ClauseStore.stored?, Solver.stored_given] at present
      exact .inl ⟨stored, present, rfl, rfl⟩
  | learn allowed fitting =>
      rw [ClauseStore.stored?_add] at present
      split at present
      · cases present
        exact .inr (.inl ⟨fitting, rfl⟩)
      · exact .inl ⟨stored, present, rfl, rfl⟩
  | store shared =>
      rw [ClauseStore.stored?_store] at present
      split at present
      · cases present
        exact .inr (.inr ⟨shared, rfl⟩)
      · exact .inl ⟨stored, present, rfl, rfl⟩
  | watch other =>
      rw [ClauseStore.stored?_watch] at present
      obtain ⟨former, found, rfl⟩ := Option.map_eq_some_iff.mp present
      refine .inl ⟨former, found, ?_, ?_⟩
      · split <;> rfl
      · split <;> rfl
  | @cut _ level allowed assignment theoryAtoms configuration =>
      rw [ClauseStore.stored?, assignment,
        (coherent.assignment.unsetAbove level).formula.clauses] at present
      exact .inl ⟨stored, present, rfl, rfl⟩

theorem Change.watched (change : Change rules jumping before after) (coherent : before.Coherent)
    {key : ClauseKey} {clause : Clause} (watched : before.clauses.Watched key clause) :
    after.clauses.Watched key clause := by
  obtain ⟨stored, present, marked, rfl⟩ := watched
  obtain ⟨later, found, same, stays⟩ := change.kept coherent present
  exact ⟨later, found, stays marked, same⟩

/-- Clauses that were not derived are watched. -/
def Solver.Posted {τ : Type} (solver : Solver τ) : Prop :=
  ∀ key stored, solver.clauses.stored? key = some stored → stored.source ≠ .resolution →
    stored.watched = true

theorem Change.posted (change : Change rules jumping before after) (coherent : before.Coherent)
    (posted : before.Posted) : after.Posted := by
  intro key stored present given
  rcases change.stored coherent present with ⟨former, old, _, source⟩ | ⟨_, watched⟩ | ⟨_, derived⟩
  · obtain ⟨later, found, _, stays⟩ := change.kept coherent old
    obtain rfl := Option.some.inj (found.symm.trans present)
    exact stays (posted key former old (source ▸ given))
  · exact watched
  · exact absurd derived given

/-! ## The problem and the stores -/

theorem Change.continues (change : Change rules jumping before after)
    (coherent : before.Coherent) : before.Continues after := by
  have clauses : ∀ key clause, before.clauses.clause? key = some clause →
      after.clauses.clause? key = some clause := by
    intro key clause present
    obtain ⟨stored, found, rfl⟩ := ClauseStore.clause?_eq_some.mp present
    obtain ⟨later, kept, same, _⟩ := change.kept coherent found
    exact ClauseStore.clause?_eq_some.mpr ⟨later, kept, same⟩
  cases change with
  | tell assignment theoryAtoms configuration splits =>
      exact ⟨by rw [assignment], theoryAtoms, configuration, clauses⟩
  | requeue sound same => exact ⟨rfl, rfl, rfl, clauses⟩
  | choose free cause => exact ⟨Solver.signature_chosen _ _ _, rfl, rfl, clauses⟩
  | give free cause isOpen => exact ⟨Solver.signature_given _ _ _ _ _, rfl, rfl, clauses⟩
  | learn allowed fitting => exact ⟨rfl, rfl, rfl, clauses⟩
  | store shared => exact ⟨rfl, rfl, rfl, clauses⟩
  | watch key => exact ⟨rfl, rfl, rfl, clauses⟩
  | @cut _ level allowed assignment theoryAtoms configuration =>
      refine ⟨?_, theoryAtoms, configuration, clauses⟩
      rw [assignment]
      exact (coherent.assignment.unsetAbove level).formula.signature

theorem Change.coherent (change : Change rules jumping before after)
    (coherent : before.Coherent) : after.Coherent := by
  cases change with
  | tell assignment theoryAtoms configuration splits =>
      exact coherent.of_sameFormula (assignment ▸ coherent.assignment)
        (assignment ▸ SameFormula.refl _) theoryAtoms
  | requeue sound same =>
      exact ⟨⟨coherent.assignment.trail, coherent.assignment.vars.requeue sound same,
        coherent.assignment.clauses⟩, coherent.supports, coherent.registered⟩
  | choose free cause => exact coherent.chosen free _
  | give free cause isOpen => exact coherent.given free _ _ isOpen
  | learn allowed fitting => exact coherent.withClauses (coherent.assignment.clauses.add _ _)
  | store shared => exact coherent.withClauses (coherent.assignment.clauses.store _ _)
  | watch key => exact coherent.withClauses (coherent.assignment.clauses.watch key)
  | @cut _ level allowed assignment theoryAtoms configuration =>
      have retreated := coherent.assignment.unsetAbove level
      exact coherent.of_sameFormula (assignment ▸ retreated.coherent)
        (assignment ▸ retreated.formula) theoryAtoms

theorem Change.grown (change : Change rules false before after) : Grown before after := by
  cases change with
  | tell assignment theoryAtoms configuration splits =>
      exact .of_trail (congrArg Assignment.trail assignment)
        (splits.resolve_left Bool.false_ne_true)
  | requeue sound same => exact .of_trail rfl rfl
  | choose free cause => exact Solver.grown_chosen free _
  | give free cause isOpen => exact Solver.grown_given free _ _ _
  | learn allowed fitting => exact .of_trail rfl rfl
  | store shared => exact .of_trail rfl rfl
  | watch key => exact .of_trail rfl rfl
  | cut allowed assignment theoryAtoms configuration => cases allowed

theorem Change.entry (change : Change rules jumping before after) (coherent : before.Coherent)
    {atom : Atom} {entry : Entry} (found : after.trail.get? atom = some entry) :
    before.trail.get? atom = some entry ∨ Cause rules before atom entry.value := by
  cases change with
  | tell assignment theoryAtoms configuration splits =>
      rw [assignment] at found
      exact .inl found
  | requeue sound same => exact .inl found
  | choose free cause =>
      rw [Solver.get?_chosen] at found
      split at found
      · next same =>
          subst same
          cases found
          exact .inr cause
      · exact .inl found
  | give free cause isOpen =>
      rw [Solver.get?_given] at found
      split at found
      · next same =>
          subst same
          cases found
          exact .inr cause
      · exact .inl found
  | learn allowed fitting => exact .inl found
  | store shared => exact .inl found
  | watch key => exact .inl found
  | @cut _ level allowed assignment theoryAtoms configuration =>
      rw [assignment, (coherent.assignment.unsetAbove level).trail,
        coherent.assignment.trail.get?_clearAbove_eq_some] at found
      exact .inl found.1

/-! ## Sorts -/

namespace Solver

/-- Values are of the sorts of their atoms, and clauses are of existing atoms. -/
structure Sorted (solver : Solver τ) : Prop where
  typed : ∀ atom entry, solver.trail.get? atom = some entry → solver.Admits atom entry.value
  fitting : ∀ key clause, solver.clauses.clause? key = some clause →
    ∀ literal ∈ clause, solver.Admits literal.atom (.boolean literal.polarity)

omit [TheoryAtom τ] in
theorem literalError?_eq_none {solver : Solver τ} {literal : Literal} :
    literalError? solver literal = none ↔
      solver.Admits literal.atom (.boolean literal.polarity) := by
  unfold literalError? Admits
  cases literal.atom with
  | theory key => simp [Value.sort]
  | var key =>
      cases present : solver.vars.get? key with
      | none => simp [present]
      | some known => simp [present, Value.sort]

omit [TheoryAtom τ] in
theorem clauseError?_eq_none {solver : Solver τ} {clause : Clause} :
    clauseError? solver clause = none ↔
      ∀ literal ∈ clause, solver.Admits literal.atom (.boolean literal.polarity) := by
  unfold clauseError?
  rw [List.findSome?_eq_none_iff]
  simp only [literalError?_eq_none]
  exact Iff.rfl

/-- Hooks ask for nothing odd, and nothing odd has happened. -/
structure Orderly (rules : Rules τ) (solver : Solver τ) : Prop where
  careful : rules.Careful
  sorted : solver.Sorted

end Solver

theorem Cause.admits {solver : Solver τ} (orderly : solver.Orderly rules) {atom : Atom}
    {value : Value} (cause : Cause rules solver atom value) : solver.Admits atom value := by
  cases cause with
  | default present => exact ⟨_, present, (VariableSort.defaultValue_sort _).symm⟩
  | literal stored member => exact orderly.sorted.fitting _ _ stored _ member
  | evaluation present evaluated => exact ⟨(Array.getElem?_eq_some_iff.mp present).1, rfl⟩
  | assigned allowed => exact orderly.careful.assign _ _ _ _ allowed
  | decided allowed => exact (orderly.careful.decide _ _ _ _ allowed).1

/-- The clauses are of existing atoms that may occur in clauses. -/
def Solver.Checked (solver : Solver τ) : Prop :=
  ∀ key clause, solver.clauses.clause? key = some clause →
    ∀ literal ∈ clause, solver.Admits literal.atom (.boolean literal.polarity)

omit [TheoryAtom τ] in
theorem Solver.Checked.shares {solver : Solver τ} (checked : solver.Checked) {clause : Clause}
    (shares : solver.Shares clause) :
    ∀ literal ∈ clause, solver.Admits literal.atom (.boolean literal.polarity) := by
  intro literal member
  obtain ⟨key, stored, present, inside⟩ := shares literal member
  exact checked key stored present literal inside

theorem Change.checked (change : Change rules jumping before after) (coherent : before.Coherent)
    (checked : before.Checked) : after.Checked := by
  intro key clause present literal member
  rw [(change.continues coherent).admits]
  obtain ⟨stored, found, rfl⟩ := ClauseStore.clause?_eq_some.mp present
  rcases change.stored coherent found with ⟨former, old, same, _⟩ | ⟨fitting, _⟩ | ⟨shared, _⟩
  · exact checked key _ (ClauseStore.clause?_eq_some.mpr ⟨former, old, same⟩) literal member
  · exact Solver.clauseError?_eq_none.mp fitting literal member
  · exact checked.shares shared literal member

theorem Change.sorted (change : Change rules jumping before after) (coherent : before.Coherent)
    (orderly : before.Orderly rules) : after.Sorted where
  typed atom entry found := by
    rw [(change.continues coherent).admits]
    rcases change.entry coherent found with former | cause
    · exact orderly.sorted.typed atom entry former
    · exact cause.admits orderly
  fitting := change.checked coherent orderly.sorted.fitting

/-! ## Sequences of changes -/

namespace Changes

theorem coherent (changes : Changes rules jumping before after) (coherent : before.Coherent) :
    after.Coherent := by
  induction changes with
  | refl => exact coherent
  | tail _ change induction => exact change.coherent induction

theorem continues (changes : Changes rules jumping before after) (coherent : before.Coherent) :
    before.Continues after := by
  induction changes with
  | refl => exact .refl _
  | tail earlier change induction =>
      exact induction.trans (change.continues (Changes.coherent earlier coherent))

theorem grown (changes : Changes rules false before after) : Grown before after := by
  induction changes with
  | refl => exact .refl _
  | tail _ change induction => exact induction.trans change.grown

theorem orderly (changes : Changes rules jumping before after) (coherent : before.Coherent)
    (orderly : before.Orderly rules) : after.Orderly rules := by
  induction changes with
  | refl => exact orderly
  | tail earlier change induction =>
      exact ⟨orderly.careful, change.sorted (Changes.coherent earlier coherent) induction⟩

theorem checked (changes : Changes rules jumping before after) (coherent : before.Coherent)
    (checked : before.Checked) : after.Checked := by
  induction changes with
  | refl => exact checked
  | tail earlier change induction =>
      exact change.checked (Changes.coherent earlier coherent) induction

theorem watched (changes : Changes rules jumping before after) (coherent : before.Coherent)
    {key : ClauseKey} {clause : Clause} (watched : before.clauses.Watched key clause) :
    after.clauses.Watched key clause := by
  induction changes with
  | refl => exact watched
  | tail earlier change induction =>
      exact change.watched (Changes.coherent earlier coherent) induction

theorem posted (changes : Changes rules jumping before after) (coherent : before.Coherent)
    (posted : before.Posted) : after.Posted := by
  induction changes with
  | refl => exact posted
  | tail earlier change induction =>
      exact change.posted (Changes.coherent earlier coherent) induction

end Changes

end ModelSearch
