import ModelSearch.Proofs.Operations.Stating

/-!
# The index of watch sets

Watch sets are found by their literals.  A set is created when a clause is watched whose
literals are not found, and none is ever removed.  So each set that is found is that of a
watched clause, and a clause with other literals than all watched ones gets a new set.
-/

namespace ModelSearch

/-! ## Watch sets -/

namespace Watches

variable {Member Owner : Type} [Ord Member] [BEq Owner] [Std.TransOrd Member]
  [Std.LawfulEqOrd Member]

/-- Only the members that were added have become known. -/
theorem byMembers_add {watches : Watches Member Owner} {owner : Owner}
    {members others : List Member} {index : Nat}
    (known : (watches.add owner members).2.byMembers[others]? = some index) :
    watches.byMembers[others]? = some index ∨ canonical members = others := by
  cases present : watches.byMembers[canonical members]? with
  | some home =>
      rw [add_of_known present] at known
      exact .inl known
  | none =>
      rw [add_of_new present] at known
      replace known : (watches.byMembers.insert (canonical members) watches.sets.size)[others]? =
        some index := known
      rw [Std.TreeMap.getElem?_insert] at known
      split at known
      · next same => exact .inr (Std.LawfulEqCmp.compare_eq_iff_eq.mp same)
      · exact .inl known

end Watches

namespace ClauseStore

variable {clauses later : ClauseStore}

/-- Each watch set is that of a watched clause. -/
def Indexed (clauses : ClauseStore) : Prop :=
  ∀ members index, clauses.watches.byMembers[members]? = some index →
    ∃ key clause, clauses.Watched key clause ∧ clause.literals = members

/-- The same clauses are stored, and the same watch sets are known. -/
structure Alike (before after : ClauseStore) : Prop where
  clauses : after.clauses = before.clauses
  byMembers : after.watches.byMembers = before.watches.byMembers

theorem Alike.stored? (alike : clauses.Alike later) (key : ClauseKey) :
    later.stored? key = clauses.stored? key := by
  rw [ClauseStore.stored?, alike.clauses, ClauseStore.stored?]

theorem Alike.refl (clauses : ClauseStore) : clauses.Alike clauses := ⟨rfl, rfl⟩

theorem Alike.trans {last : ClauseStore} (first : clauses.Alike later)
    (second : later.Alike last) : clauses.Alike last :=
  ⟨second.clauses.trans first.clauses, second.byMembers.trans first.byMembers⟩

theorem alike_assign (clauses : ClauseStore) (atom : Atom) (truth : Bool) :
    clauses.Alike (clauses.assign atom truth) :=
  ⟨rfl, (Watches.setMark_frame _ _ _).1.trans (Watches.setMark_frame _ _ _).1⟩

theorem alike_unassign (clauses : ClauseStore) (atom : Atom) :
    clauses.Alike (clauses.unassign atom) :=
  ⟨rfl, (Watches.setMark_frame _ _ _).1.trans (Watches.setMark_frame _ _ _).1⟩

/-- Watched clauses stay watched, and a watch set that has become known is that of a
watched clause. -/
structure Indexes (before after : ClauseStore) : Prop where
  kept : ∀ key clause, before.Watched key clause → after.Watched key clause
  known : ∀ members index, after.watches.byMembers[members]? = some index →
    before.watches.byMembers[members]? = some index ∨
      ∃ key clause, after.Watched key clause ∧ clause.literals = members

theorem Indexed.mono (indexed : clauses.Indexed) (indexes : clauses.Indexes later) :
    later.Indexed := by
  intro members index known
  rcases indexes.known members index known with old | new
  · obtain ⟨key, clause, watched, same⟩ := indexed members index old
    exact ⟨key, clause, indexes.kept key clause watched, same⟩
  · exact new

theorem Alike.indexes (alike : clauses.Alike later) : clauses.Indexes later where
  kept key clause watched := by
    rw [Watched, alike.stored?]
    exact watched
  known members index known := .inl (alike.byMembers ▸ known)

/-- A stored clause keeps its key when another is stored or added. -/
private theorem indexes_push {clause : Clause} {source : ClauseSource} {watched : Bool}
    (stored : ∀ key, later.stored? key =
      if key = clauses.size then some ⟨clause, source, watched⟩ else clauses.stored? key)
    (known : ∀ members index, later.watches.byMembers[members]? = some index →
      clauses.watches.byMembers[members]? = some index ∨
        watched = true ∧ clause.literals = members) : clauses.Indexes later where
  kept key former := by
    rintro ⟨entry, present, rest⟩
    refine ⟨entry, ?_, rest⟩
    rw [stored, if_neg (Nat.ne_of_lt (stored?_lt present)), present]
  known members index found := by
    refine (known members index found).imp_right fun ⟨isWatched, same⟩ => ?_
    exact ⟨clauses.size, clause, ⟨_, (stored _).trans (if_pos rfl), isWatched, rfl⟩, same⟩

theorem indexes_store (clauses : ClauseStore) (clause : Clause) (source : ClauseSource) :
    clauses.Indexes (clauses.store clause source).2 :=
  indexes_push (stored?_store clauses clause source) fun _ _ => .inl

/-- Only the literals of the clause have become known. -/
private theorem byMembers_add {key : ClauseKey} {clause : Clause} {members : List Literal}
    {index : Nat}
    (known : (clauses.watches.add key clause.literals).2.byMembers[members]? = some index) :
    clauses.watches.byMembers[members]? = some index ∨ clause.literals = members :=
  (Watches.byMembers_add known).imp_right fun same =>
    (canonical_of_ascending clause.ascending).symm.trans same

theorem indexes_add (clauses : ClauseStore) (clause : Clause) (source : ClauseSource) :
    clauses.Indexes (clauses.add clause source).2 :=
  indexes_push (stored?_add clauses clause source) fun _ _ known =>
    (byMembers_add known).imp_right fun same => ⟨rfl, same⟩

theorem indexes_watch (clauses : ClauseStore) (key : ClauseKey) :
    clauses.Indexes (clauses.watch key) where
  kept other clause watched := by
    obtain ⟨stored, present, already, same⟩ := watched
    refine ⟨_, (stored?_watch _ _ _).trans (congrArg _ present), ?_⟩
    dsimp only
    split
    · exact ⟨rfl, same⟩
    · exact ⟨already, same⟩
  known members index known := by
    cases present : clauses.stored? key with
    | none =>
        rw [watch_of_missing present] at known
        exact .inl known
    | some stored =>
        by_cases already : stored.watched = true
        · rw [watch_of_watched present already] at known
          exact .inl known
        · rw [watch_of_unwatched present already] at known
          refine (byMembers_add known).imp_right fun same => ?_
          refine ⟨key, stored.clause, ⟨{ stored with watched := true }, ?_, rfl, rfl⟩, same⟩
          rw [stored?_watch, present, Option.map_some, if_pos rfl]

/-- A clause with a literal of its own has no watch set yet. -/
theorem Indexed.fresh (indexed : clauses.Indexed) {key : ClauseKey} {clause : Clause}
    (novel : ∀ other stored, clauses.Watched other stored → ∃ literal ∈ stored, literal ∉ clause) :
    (clauses.watches.add key clause.literals).1 = true := by
  rw [Watches.add_eq_true, canonical_of_ascending clause.ascending]
  cases known : clauses.watches.byMembers[clause.literals]? with
  | none => rfl
  | some index =>
      obtain ⟨other, stored, watched, same⟩ := indexed _ index known
      obtain ⟨literal, member, absent⟩ := novel other stored watched
      have present : literal ∈ stored.literals := member
      rw [same] at present
      exact absurd present absent

end ClauseStore

namespace Assignment

theorem alike_set (assignment : Assignment) (atom : Atom) (value : Value) (reason : Reason)
    (level : Nat) : assignment.clauses.Alike (assignment.set atom value reason level).clauses := by
  cases value with
  | boolean truth => exact ClauseStore.alike_assign _ _ _
  | rational number => exact .refl _

theorem alike_release (assignment : Assignment) (removed : Atom × Entry) :
    assignment.clauses.Alike (assignment.release removed).clauses := by
  unfold release
  dsimp only
  split
  · exact ClauseStore.alike_unassign _ _
  · exact .refl _

theorem alike_releaseAll (assignment : Assignment) (removed : List (Atom × Entry)) :
    assignment.clauses.Alike (removed.foldl release assignment).clauses := by
  induction removed generalizing assignment with
  | nil => exact .refl _
  | cons pair removed induction => exact (assignment.alike_release pair).trans (induction _)

theorem alike_unsetAbove (assignment : Assignment) (level : Nat) :
    assignment.clauses.Alike (assignment.unsetAbove level).clauses :=
  alike_releaseAll { assignment with trail := (assignment.trail.clearAbove level).2 } _

end Assignment

namespace Solver

variable {τ : Type}

theorem alike_given (solver : Solver τ) (atom : Atom) (value : Value) (reason : Reason)
    (level : Nat) : solver.clauses.Alike (solver.given atom value reason level).clauses :=
  Assignment.alike_set _ _ _ _ _

theorem alike_chosen (solver : Solver τ) (atom : Atom) (value : Value) :
    solver.clauses.Alike (solver.chosen atom value).clauses :=
  alike_given { solver with trail := solver.trail.openLevel } atom value .decided _

theorem alike_jumped (solver : Solver τ) (target : Nat) (kind : BackjumpKind) :
    solver.clauses.Alike (solver.jumped target kind).clauses :=
  Assignment.alike_unsetAbove _ _

end Solver

/-! ## Along a sequence of steps -/

variable {τ : Type} [TheoryAtom τ] {rules : Rules τ} {jumping : Bool}
  {before after : Solver τ}

theorem Step.indexes (step : Step rules jumping before after) :
    before.clauses.Indexes after.clauses := by
  cases step with
  | tell assignment theoryAtoms configuration splits =>
      rw [assignment]
      exact (ClauseStore.Alike.refl _).indexes
  | requeue sound same => exact (ClauseStore.Alike.refl _).indexes
  | choose free warrant => exact (Solver.alike_chosen _ _ _).indexes
  | give free grounds => exact (Solver.alike_given _ _ _ _ _).indexes
  | learn allowed fitting => exact ClauseStore.indexes_add _ _ _
  | store derived => exact ClauseStore.indexes_store _ _ _
  | watch key => exact ClauseStore.indexes_watch _ _
  | jump allowed kind below splitting => exact (Solver.alike_jumped _ _ _).indexes

theorem Steps.indexed (steps : Steps rules jumping before after)
    (indexed : before.clauses.Indexed) : after.clauses.Indexed := by
  induction steps with
  | refl => exact indexed
  | tail steps step induction => exact induction.mono step.indexes

/-- When a formula is stated each watch set is that of a clause. -/
theorem Stated.indexed {configuration : Configuration} {solver : Solver τ}
    (stated : Stated configuration solver) : solver.clauses.Indexed := by
  refine stated.induct ?_ (fun _ _ _ indexed => indexed) (fun _ _ indexed => indexed) ?_
  · exact fun _ _ known => nomatch known
  · exact fun solver clause indexed => indexed.mono (solver.clauses.indexes_add clause .input)

end ModelSearch
