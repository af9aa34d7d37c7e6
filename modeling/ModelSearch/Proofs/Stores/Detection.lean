import ModelSearch.Proofs.Stores.Coherence

/-!
# What the stores find

Clauses, variables and theory atoms may be added at any time without disturbing
what the stores know of the values.  In a coherent assignment the lists of units
and of violated sets then say exactly which clauses are unit or violated, and
which theory atoms lack one value or none.
-/

namespace ModelSearch

/-! ## Additions to the clause store -/

namespace ClauseStore

variable {clauses : ClauseStore} {key : ClauseKey}

/-- The clause is stored under the key and watched. -/
def Watched (clauses : ClauseStore) (key : ClauseKey) (clause : Clause) : Prop :=
  ∃ stored, clauses.stored? key = some stored ∧ stored.watched = true ∧ stored.clause = clause

theorem clause?_eq_some {clause : Clause} :
    clauses.clause? key = some clause ↔
      ∃ stored, clauses.stored? key = some stored ∧ stored.clause = clause :=
  Option.map_eq_some_iff

theorem Watched.clause? {clause : Clause} (watched : clauses.Watched key clause) :
    clauses.clause? key = some clause := by
  obtain ⟨stored, present, _, rfl⟩ := watched
  exact clause?_eq_some.mpr ⟨stored, present, rfl⟩

/-- Which clauses are watched depends only on the clauses that are stored. -/
theorem watched_congr {other : ClauseStore} (same : other.clauses = clauses.clauses)
    {clause : Clause} : other.Watched key clause ↔ clauses.Watched key clause := by
  unfold Watched stored?
  rw [same]

@[simp] theorem stored?_size (clauses : ClauseStore) : clauses.stored? clauses.size = none := by
  simp [stored?, size]

theorem stored?_lt {stored : StoredClause} (present : clauses.stored? key = some stored) :
    key < clauses.size := by
  by_contra above
  have missing : clauses.stored? key = none :=
    Array.getElem?_eq_none_iff.mpr (Nat.not_lt.mp above)
  rw [missing] at present
  cases present

theorem clause?_lt {clause : Clause} (present : clauses.clause? key = some clause) :
    key < clauses.size := by
  obtain ⟨stored, found, _⟩ := clause?_eq_some.mp present
  exact stored?_lt found

theorem stored?_store (clauses : ClauseStore) (clause : Clause) (source : ClauseSource)
    (key : ClauseKey) :
    (clauses.store clause source).2.stored? key =
      if key = clauses.size then some ⟨clause, source, false⟩ else clauses.stored? key :=
  Array.getElem?_push

theorem stored?_add (clauses : ClauseStore) (clause : Clause) (source : ClauseSource)
    (key : ClauseKey) :
    (clauses.add clause source).2.stored? key =
      if key = clauses.size then some ⟨clause, source, true⟩ else clauses.stored? key :=
  Array.getElem?_push

theorem watch_of_missing (missing : clauses.stored? key = none) : clauses.watch key = clauses := by
  rw [watch, missing]

theorem watch_of_watched {stored : StoredClause} (present : clauses.stored? key = some stored)
    (already : stored.watched = true) : clauses.watch key = clauses := by
  rw [watch, present]
  exact if_pos already

theorem watch_of_unwatched {stored : StoredClause} (present : clauses.stored? key = some stored)
    (unwatched : ¬stored.watched = true) :
    clauses.watch key =
      { clauses with
        clauses := clauses.clauses.modify key fun stored => { stored with watched := true }
        watches := (clauses.watches.add key stored.clause.literals).2 } := by
  rw [watch, present]
  exact if_neg unwatched

theorem stored?_watch (clauses : ClauseStore) (key other : ClauseKey) :
    (clauses.watch key).stored? other =
      (clauses.stored? other).map fun stored =>
        if key = other then { stored with watched := true } else stored := by
  cases present : clauses.stored? key with
  | none =>
      rw [watch_of_missing present]
      by_cases same : key = other
      · rw [← same, present]
        rfl
      · simp [same]
  | some stored =>
      by_cases already : stored.watched = true
      · rw [watch_of_watched present already]
        by_cases same : key = other
        · rw [← same, present, Option.map_some, if_pos rfl, ← already]
        · simp [same]
      · rw [watch_of_unwatched present already]
        show (clauses.clauses.modify key _)[other]? = _
        rw [Array.getElem?_modify]
        by_cases same : key = other
        · simp only [same, if_true]
          rfl
        · simp [same, stored?]

theorem clause?_watch (clauses : ClauseStore) (key other : ClauseKey) :
    (clauses.watch key).clause? other = clauses.clause? other := by
  rw [clause?, stored?_watch, clause?, Option.map_map]
  congr 1
  funext stored
  show (if key = other then _ else _ : StoredClause).clause = stored.clause
  split <;> rfl

end ClauseStore

namespace ClausesFollow

variable {view : View} {clauses : ClauseStore}

theorem store (follow : ClausesFollow view clauses) (clause : Clause) (source : ClauseSource) :
    ClausesFollow view (clauses.store clause source).2 where
  watches := follow.watches
  marks := follow.marks
  watched key literals := by
    rw [ClauseStore.stored?_store]
    show clauses.watches.Watching key literals ↔ _
    rw [follow.watched]
    by_cases last : key = clauses.size
    · subst last
      simp
    · rw [if_neg last]

theorem add (follow : ClausesFollow view clauses) (clause : Clause) (source : ClauseSource) :
    ClausesFollow view (clauses.add clause source).2 where
  watches := follow.watches.add _ _
  marks literal := by
    show (clauses.watches.add clauses.size clause.literals).2.mark literal = _
    rw [Watches.mark_add]
    exact follow.marks literal
  watched key literals := by
    rw [ClauseStore.stored?_add]
    show (clauses.watches.add clauses.size clause.literals).2.Watching key literals ↔ _
    rw [Watches.watching_add follow.watches, canonical_of_ascending clause.ascending,
      follow.watched]
    by_cases last : key = clauses.size
    · subst last
      simp [eq_comm (a := literals)]
    · rw [if_neg last]
      simp only [last, false_and, or_false]

theorem watch (follow : ClausesFollow view clauses) (key : ClauseKey) :
    ClausesFollow view (clauses.watch key) := by
  cases present : clauses.stored? key with
  | none =>
      rw [ClauseStore.watch_of_missing present]
      exact follow
  | some stored =>
      by_cases already : stored.watched = true
      · rw [ClauseStore.watch_of_watched present already]
        exact follow
      · have watches := congrArg ClauseStore.watches
          (ClauseStore.watch_of_unwatched present already)
        refine ⟨?_, ?_, ?_⟩
        · rw [watches]
          exact follow.watches.add _ _
        · intro literal
          rw [watches, Watches.mark_add]
          exact follow.marks literal
        · intro other literals
          rw [watches, Watches.watching_add follow.watches,
            canonical_of_ascending stored.clause.ascending, follow.watched,
            ClauseStore.stored?_watch]
          by_cases same : other = key
          · subst same
            simp [present, already, eq_comm (a := literals)]
          · simp [same, Ne.symm same]

/-! ## Units and violated clauses -/

theorem mem_violated (follow : ClausesFollow view clauses) {key : ClauseKey} :
    key ∈ clauses.violated ↔ ∃ clause, clauses.Watched key clause ∧
      ∀ literal ∈ clause, view.literalTruth? literal = some false := by
  unfold ClauseStore.violated
  rw [Watches.mem_violatedOwners follow.watches]
  simp only [follow.watched, follow.marks, Mark.ofTruth_eq_falsified]
  constructor
  · rintro ⟨_, ⟨stored, present, watched, rfl⟩, falsified⟩
    exact ⟨stored.clause, ⟨stored, present, watched, rfl⟩, falsified⟩
  · rintro ⟨_, ⟨stored, present, watched, rfl⟩, falsified⟩
    exact ⟨_, ⟨stored, present, watched, rfl⟩, falsified⟩

/-- The clause is watched, and all its literals but the given one, which has no
truth value, are false. -/
structure Unit (view : View) (clauses : ClauseStore) (key : ClauseKey) (literal : Literal)
    (clause : Clause) : Prop where
  watched : clauses.Watched key clause
  member : literal ∈ clause
  undetermined : view.literalTruth? literal = none
  others : ∀ other ∈ clause, other ≠ literal → view.literalTruth? other = some false

theorem mem_units (follow : ClausesFollow view clauses) {key : ClauseKey} {literal : Literal} :
    (key, literal) ∈ clauses.units ↔ ∃ clause, Unit view clauses key literal clause := by
  unfold ClauseStore.units
  rw [Watches.mem_unitOwners follow.watches]
  simp only [follow.watched, follow.marks, Mark.ofTruth_eq_falsified,
    Mark.ofTruth_eq_undetermined]
  constructor
  · rintro ⟨_, ⟨stored, present, watched, rfl⟩, member, undetermined, others⟩
    exact ⟨stored.clause, ⟨stored, present, watched, rfl⟩, member, undetermined, others⟩
  · rintro ⟨_, ⟨stored, present, watched, rfl⟩, member, undetermined, others⟩
    exact ⟨_, ⟨stored, present, watched, rfl⟩, member, undetermined, others⟩

theorem single (follow : ClausesFollow view clauses) (key : ClauseKey)
    (left right : List Literal) (onLeft : clauses.watches.Watching key left)
    (onRight : clauses.watches.Watching key right) : left = right := by
  obtain ⟨first, present, _, rfl⟩ := (follow.watched _ _).mp onLeft
  obtain ⟨second, again, _, rfl⟩ := (follow.watched _ _).mp onRight
  rw [Option.some.inj (present.symm.trans again)]

theorem units_nodup (follow : ClausesFollow view clauses) : clauses.units.Nodup :=
  Watches.unitOwners_nodup follow.watches follow.single

theorem violated_nodup (follow : ClausesFollow view clauses) : clauses.violated.Nodup :=
  Watches.violatedOwners_nodup follow.watches follow.single

end ClausesFollow

/-! ## Variables and theory atoms -/

namespace VariableStore

theorem get?_push (store : VariableStore) (name : String) (sort : VariableSort)
    (key : VariableKey) :
    (store.push name sort).get? key =
      if key = store.size then some ⟨name, sort, none⟩ else store.get? key :=
  Array.getElem?_push

@[simp] theorem size_push (store : VariableStore) (name : String) (sort : VariableSort) :
    (store.push name sort).size = store.size + 1 := by
  simp [push, size]

@[simp] theorem signature_push (store : VariableStore) (name : String) (sort : VariableSort) :
    (store.push name sort).signature = store.signature ++ [(name, sort)] := by
  simp [push, signature]

end VariableStore

namespace VariablesFollow

variable {view : View} {vars : VariableStore}

theorem push (follow : VariablesFollow view vars) (name : String) (sort : VariableSort) :
    VariablesFollow view (vars.push name sort) := by
  have fresh : view (.var vars.size) = none := by
    cases valued : view (.var vars.size) with
    | none => rfl
    | some value => exact absurd (follow.known valued) (Nat.lt_irrefl _)
  refine ⟨follow.queue.push _ _, follow.watches, ?_, ?_, follow.marks⟩
  · intro key
    rw [VariableStore.value?, VariableStore.get?_push]
    by_cases last : key = vars.size
    · rw [if_pos last, last, fresh]
      rfl
    · rw [if_neg last]
      exact follow.values key
  · intro key
    show (vars.queue.push vars.size sort.priority).contains key = true ↔ _
    rw [LazyQueue.contains_push, follow.queued, VariableStore.size_push]
    by_cases last : key = vars.size
    · subst last
      simp [fresh]
    · simp only [last, false_or]
      constructor
      · rintro ⟨inside, unvalued⟩
        exact ⟨Nat.lt_succ_of_lt inside, unvalued⟩
      · rintro ⟨inside, unvalued⟩
        exact ⟨by omega, unvalued⟩

theorem watch (follow : VariablesFollow view vars) (owner : TheoryKey)
    (keys : List VariableKey) : VariablesFollow view (vars.watch owner keys) where
  queue := follow.queue
  watches := follow.watches.add owner keys
  values := follow.values
  queued := follow.queued
  marks key := by
    show (vars.watches.add owner keys).2.mark key = _
    rw [Watches.mark_add]
    exact follow.marks key

/-- The queue may be replaced by one that holds the same variables. -/
theorem requeue (follow : VariablesFollow view vars) {queue : LazyQueue} (sound : queue.Sound)
    (same : ∀ key, queue.contains key = true ↔ vars.queue.contains key = true) :
    VariablesFollow view { vars with queue := queue } where
  queue := sound
  watches := follow.watches
  values := follow.values
  queued key := (same key).trans (follow.queued key)
  marks := follow.marks

theorem canDecide_iff (follow : VariablesFollow view vars) :
    vars.canDecide = true ↔ ∃ key, key < vars.size ∧ view (.var key) = none := by
  have empty := LazyQueue.isEmpty_iff follow.queue
  unfold VariableStore.canDecide
  rw [Bool.not_eq_true', ← Bool.not_eq_true, empty, not_forall]
  simp only [Bool.not_eq_false, follow.queued]

theorem mark_eq_falsified (follow : VariablesFollow view vars) {key : VariableKey} :
    vars.watches.mark key = .falsified ↔ (view (.var key)).isSome = true := by
  rw [follow.marks]
  split <;> simp_all

theorem mark_eq_undetermined (follow : VariablesFollow view vars) {key : VariableKey} :
    vars.watches.mark key = .undetermined ↔ view (.var key) = none := by
  rw [follow.marks]
  cases view (.var key) <;> simp

theorem mem_fullyAssigned (follow : VariablesFollow view vars) {owner : TheoryKey} :
    owner ∈ vars.fullyAssigned ↔ ∃ keys, vars.watches.Watching owner keys ∧
      ∀ key ∈ keys, (view (.var key)).isSome = true := by
  unfold VariableStore.fullyAssigned
  rw [Watches.mem_violatedOwners follow.watches]
  simp only [follow.mark_eq_falsified]

theorem mem_semanticUnits (follow : VariablesFollow view vars) {owner : TheoryKey}
    {unassigned : VariableKey} :
    (owner, unassigned) ∈ vars.semanticUnits ↔ ∃ keys, vars.watches.Watching owner keys ∧
      unassigned ∈ keys ∧ view (.var unassigned) = none ∧
      ∀ key ∈ keys, key ≠ unassigned → (view (.var key)).isSome = true := by
  unfold VariableStore.semanticUnits
  rw [Watches.mem_unitOwners follow.watches]
  simp only [follow.mark_eq_falsified, follow.mark_eq_undetermined]

end VariablesFollow

end ModelSearch
