import ModelSearch.Proofs.Calls.Relation
import ModelSearch.Proofs.Conflicts.Audits
import ModelSearch.Proofs.Operations.Levels
import ModelSearch.Proofs.Search.Faults

/-!
# Where an analysis ends

An analysis takes one resolution after another, each of them determined by the clause it
has come to.  Ranks fall, so it comes to a clause where it stops: to one that is empty or
leads back, to one that rests on level zero alone, or to a deadlock, where a decision meets
a value that a theory atom gave at the same level.  There is no other way to stop, and only
a deadlock is an error.

The reductions are a relation between clauses beside the analysis itself, which follows
them with its fuel.
-/

namespace ModelSearch

namespace Assignment

variable {assignment : Assignment} {clause conflict final other next : Clause}
  {result : Except SolverError Clause}

/-! ## Reductions -/

/-- A resolution of an analysis: the clause cannot be used to jump back, and it is
resolved with the reason of its latest implied literal. -/
inductive Reduces (assignment : Assignment) (clause : Clause) : Clause → Prop
  | resolve {top : TopLiterals} {literal : Literal} {key : ClauseKey} {cause : Clause}
      (answer : assignment.trail.topLiterals clause = .ok top)
      (unusable : assignment.trail.isBackjumpable top = false)
      (latest : assignment.trail.latestImplied? clause = some (literal, key))
      (stored : assignment.clauses.clause? key = some cause) :
      Reduces assignment clause (clause.resolve cause literal)

/-- The resolutions of an analysis from one clause to another. -/
abbrev Reduction (assignment : Assignment) : Clause → Clause → Prop :=
  Relation.ReflTransGen assignment.Reduces

/-- What an analysis answers when it goes no further than to the clause. -/
inductive Settles (assignment : Assignment) (clause : Clause) :
    Except SolverError Clause → Prop
  | empty (bare : clause.isEmpty = true) : Settles assignment clause (.ok clause)
  | usable {top : TopLiterals} (nonempty : clause.isEmpty = false)
      (answer : assignment.trail.topLiterals clause = .ok top)
      (jumps : assignment.trail.isBackjumpable top = true) :
      Settles assignment clause (.ok clause)
  | groundless (nonempty : clause.isEmpty = false) (groundless : assignment.Groundless clause) :
      Settles assignment clause (.ok ∅)
  | deadlocked (deadlocked : assignment.Deadlocked clause) :
      Settles assignment clause (.error .noResolutionCandidate)

private theorem latestImplied?_of_unimplied (unimplied : ∀ literal ∈ clause, ∀ key,
    assignment.trail.reason? literal.atom ≠ some (.clause key)) :
    assignment.trail.latestImplied? clause = none := by
  cases latest : assignment.trail.latestImplied? clause with
  | none => rfl
  | some pivot =>
      obtain ⟨literal, key⟩ := pivot
      obtain ⟨member, entry, found, reason, _⟩ := Trail.latestImplied?_eq_some latest
      have follows : assignment.trail.reason? literal.atom = some (.clause key) := by
        simp [Trail.reason?, found, reason]
      exact absurd follows (unimplied literal member key)

/-- The level of a deadlock is that of the top literals, which lead nowhere. -/
theorem Deadlocked.tops (deadlocked : assignment.Deadlocked clause) :
    clause.isEmpty = false ∧ ∃ top, assignment.trail.topLiterals clause = .ok top ∧
      0 < top.level ∧ assignment.trail.isBackjumpable top = false := by
  obtain ⟨level, positive, bounded, decided, evaluated⟩ := deadlocked.opposed
  obtain ⟨chosen, chosenMember, chosenLevel, chosenReason⟩ := decided
  obtain ⟨given, givenMember, givenLevel, givenReason⟩ := evaluated
  have nonempty := Clause.isEmpty_of_mem chosenMember
  obtain ⟨top, answer, tops⟩ := Trail.topLiterals_spec nonempty fun literal member => by
    obtain ⟨own, _, levelled⟩ := bounded literal member
    exact ⟨own, levelled⟩
  have same : top.level = level := by
    obtain ⟨highest, member, levelled⟩ := tops.attained
    obtain ⟨own, below, levelledAgain⟩ := bounded highest member
    have above := tops.bounded chosen chosenMember level chosenLevel
    have equal := Option.some.inj (levelled.symm.trans levelledAgain)
    omega
  rw [← same] at chosenLevel givenLevel
  have chosenInside := tops.mem.mpr ⟨chosenMember, chosenLevel⟩
  have givenInside := tops.mem.mpr ⟨givenMember, givenLevel⟩
  refine ⟨nonempty, top, answer, by omega, ?_⟩
  by_contra usable
  simp only [Trail.isBackjumpable, Bool.not_eq_false, Bool.and_eq_true, Bool.or_eq_true,
    beq_iff_eq] at usable
  rcases usable.2 with single | semantic
  · obtain ⟨only, listed⟩ := List.length_eq_one_iff.mp single
    rw [listed, List.mem_singleton] at chosenInside givenInside
    rw [chosenInside] at chosenReason
    rw [givenInside, chosenReason] at givenReason
    cases givenReason
  · have claimed := List.all_eq_true.mp semantic chosen chosenInside
    rw [chosenReason] at claimed
    cases claimed

private theorem Groundless.tops (groundless : assignment.Groundless clause)
    (nonempty : clause.isEmpty = false) :
    ∃ top, assignment.trail.topLiterals clause = .ok top ∧ top.level = 0 ∧
      assignment.trail.isBackjumpable top = false := by
  obtain ⟨top, answer, tops⟩ := Trail.topLiterals_spec nonempty fun literal member =>
    ⟨0, (groundless literal member).1⟩
  obtain ⟨highest, member, levelled⟩ := tops.attained
  have zero := Option.some.inj (levelled.symm.trans (groundless highest member).1)
  exact ⟨top, answer, zero, by simp [Trail.isBackjumpable, zero]⟩

private theorem topLiterals_ne_ok {top : TopLiterals} (bare : clause.isEmpty = true) :
    assignment.trail.topLiterals clause ≠ .ok top := by
  intro answer
  rw [Clause.isEmpty, List.isEmpty_iff] at bare
  rw [Trail.topLiterals, bare] at answer
  cases answer

/-! ## Both are determined -/

theorem Reduces.unique (left : assignment.Reduces clause next)
    (right : assignment.Reduces clause other) : next = other := by
  obtain ⟨_, _, latest, stored⟩ := left
  obtain ⟨_, _, again, storedAgain⟩ := right
  obtain ⟨rfl, rfl⟩ := Prod.mk.inj (Option.some.inj (latest.symm.trans again))
  rw [Option.some.inj (stored.symm.trans storedAgain)]

theorem Settles.stops (settles : assignment.Settles clause result) :
    ¬assignment.Reduces clause next := by
  intro reduces
  obtain ⟨answer, unusable, latest, _⟩ := reduces
  cases settles with
  | empty bare => exact topLiterals_ne_ok bare answer
  | usable _ again jumps =>
      rw [again] at answer
      cases answer
      rw [jumps] at unusable
      cases unusable
  | groundless _ groundless =>
      have none := latestImplied?_of_unimplied fun literal member => (groundless literal member).2
      rw [none] at latest
      cases latest
  | deadlocked deadlocked =>
      have none := latestImplied?_of_unimplied deadlocked.unimplied
      rw [none] at latest
      cases latest

/-- Reductions that go no further come to the same clause. -/
theorem Reduction.final_unique {last : Except SolverError Clause}
    (left : assignment.Reduction clause final) (settles : assignment.Settles final result)
    (right : assignment.Reduction clause other) (settled : assignment.Settles other last) :
    final = other := by
  have unique : Relator.RightUnique assignment.Reduces := fun _ _ _ => Reduces.unique
  rcases Relation.ReflTransGen.total_of_right_unique unique left right with onward | onward
  · rcases onward.cases_head with same | ⟨next, reduces, _⟩
    · exact same
    · exact absurd reduces settles.stops
  · rcases onward.cases_head with same | ⟨next, reduces, _⟩
    · exact same.symm
    · exact absurd reduces settled.stops

/-- A deadlock leads to an error, and to nothing else. -/
theorem Deadlocked.settles (deadlocked : assignment.Deadlocked clause)
    (settles : assignment.Settles clause result) : result = .error .noResolutionCandidate := by
  obtain ⟨nonempty, top, answer, positive, unusable⟩ := deadlocked.tops
  cases settles with
  | empty bare =>
      rw [bare] at nonempty
      cases nonempty
  | usable _ again jumps =>
      rw [again] at answer
      cases answer
      rw [jumps] at unusable
      cases unusable
  | groundless nonempty groundless =>
      obtain ⟨low, again, zero, _⟩ := Groundless.tops groundless nonempty
      rw [again] at answer
      cases answer
      omega
  | deadlocked => rfl

/-! ## What is explained -/

/-- At the greatest level of the clause, which is not level zero, there is one literal, or
all literals there were given by theory atoms.  Both tests of this accept the clause. -/
structure LeadsBack (assignment : Assignment) (clause : Clause) : Prop where
  highest : ∃ level, 0 < level ∧
    (∃ literal ∈ clause, assignment.trail.level? literal.atom = some level) ∧
    (∀ literal ∈ clause, ∃ own ≤ level, assignment.trail.level? literal.atom = some own) ∧
    ((∃! literal, literal ∈ clause ∧ assignment.trail.level? literal.atom = some level) ∨
      ∀ literal ∈ clause, assignment.trail.level? literal.atom = some level →
        assignment.trail.reason? literal.atom = some .semantic)
  accepted : ∃ top, assignment.trail.topLiterals clause = .ok top ∧
    assignment.trail.isBackjumpable top = true
  target : ∃ aim, assignment.trail.backjumpTarget clause = .ok aim

/-- The clause explains the conflict: it is false, comes from the conflict by resolutions,
and is empty or leads back.  It follows from the stored clauses, unless it is the empty
clause that was put for one wholly at level zero. -/
structure Explains (assignment : Assignment) (conflict clause : Clause) : Prop where
  falsified : ∀ literal ∈ clause, assignment.Falsifies literal
  origin : assignment.Reduction conflict clause ∧ assignment.Derives clause ∨
    clause = ∅ ∧ ∃ low, assignment.Reduction conflict low ∧ assignment.Derives low ∧
      assignment.Groundless low
  usable : clause.isEmpty = true ∨ assignment.LeadsBack clause

theorem Conflicting.leadsBack (conflicting : assignment.Conflicting clause) {top : TopLiterals}
    (nonempty : clause.isEmpty = false) (answer : assignment.trail.topLiterals clause = .ok top)
    (jumps : assignment.trail.isBackjumpable top = true) : assignment.LeadsBack clause := by
  obtain ⟨again, answerAgain, tops⟩ := Trail.topLiterals_spec nonempty fun _ => conflicting.valued
  obtain rfl : again = top := Except.ok.inj (answerAgain.symm.trans answer)
  obtain ⟨target, kind, aims⟩ := Trail.backjumpTarget_spec nonempty answer tops jumps
  have usable := jumps
  simp only [Trail.isBackjumpable, Bool.and_eq_true, decide_eq_true_eq, Bool.or_eq_true,
    beq_iff_eq] at usable
  refine ⟨⟨again.level, usable.1, tops.attained, ?_, ?_⟩, ⟨again, answer, jumps⟩, _, aims.answer⟩
  · intro literal member
    obtain ⟨level, levelled⟩ := conflicting.valued member
    exact ⟨level, tops.bounded literal member level levelled, levelled⟩
  · apply usable.2.imp
    · intro single
      obtain ⟨only, listed⟩ := List.length_eq_one_iff.mp single
      refine ⟨only, tops.mem.mp (by simp [listed]), fun literal inside => ?_⟩
      have member := tops.mem.mpr inside
      rwa [listed, List.mem_singleton] at member
    · intro semantic literal member levelled
      have given := List.all_eq_true.mp semantic literal (tops.mem.mpr ⟨member, levelled⟩)
      exact beq_iff_eq.mp given

theorem Conflicting.explains (reduction : assignment.Reduction conflict final)
    (conflicting : assignment.Conflicting final) {explanation : Clause}
    (settles : assignment.Settles final (.ok explanation)) :
    assignment.Explains conflict explanation := by
  have own : assignment.Reduction conflict final ∧ assignment.Derives final :=
    ⟨reduction, conflicting.derived⟩
  cases settles with
  | empty bare => exact ⟨conflicting.falsified, .inl own, .inl bare⟩
  | usable nonempty answer jumps =>
      exact ⟨conflicting.falsified, .inl own, .inr (conflicting.leadsBack nonempty answer jumps)⟩
  | groundless _ groundless =>
      refine ⟨fun literal member => ?_, .inr ⟨rfl, final, reduction, own.2, groundless⟩, .inl rfl⟩
      cases member

end Assignment

namespace Solver

variable {τ : Type} {solver rest : Solver τ} {clause conflict final next : Clause}
  {result : Except SolverError Clause}

/-! ## The analysis -/

/-- Where the reductions stop, the analysis answers. -/
theorem resolveToBackjump_of_settles (settles : solver.Settles clause result) (steps : Nat) :
    resolveToBackjump (steps + 1) clause solver = orError result solver := by
  unfold resolveToBackjump
  cases settles with
  | empty bare =>
      rw [if_pos bare]
      rfl
  | usable nonempty answer jumps =>
      rw [if_neg (by simp [nonempty]), get_bind, answer]
      show (if _ then _ else _ : SolverM τ Clause) solver = _
      rw [if_pos jumps]
      rfl
  | groundless nonempty groundless =>
      obtain ⟨top, answer, zero, unusable⟩ := groundless.tops nonempty
      have none := Assignment.latestImplied?_of_unimplied fun literal member =>
        (groundless literal member).2
      rw [if_neg (by simp [nonempty]), get_bind, answer]
      show (if _ then _ else _ : SolverM τ Clause) solver = _
      rw [if_neg (by simp [unusable]), none]
      dsimp only
      rw [if_pos zero]
      rfl
  | deadlocked deadlocked =>
      obtain ⟨nonempty, top, answer, positive, unusable⟩ := deadlocked.tops
      have none := Assignment.latestImplied?_of_unimplied deadlocked.unimplied
      rw [if_neg (by simp [nonempty]), get_bind, answer]
      show (if _ then _ else _ : SolverM τ Clause) solver = _
      rw [if_neg (by simp [unusable]), none]
      dsimp only
      rw [if_neg (by omega)]
      rfl

/-- The analysis follows a reduction, and tells of it. -/
theorem resolveToBackjump_of_reduces (reduces : solver.Reduces clause next) :
    ∃ told : Solver τ, told.toAssignment = solver.toAssignment ∧ ∀ steps,
      resolveToBackjump (steps + 1) clause solver = resolveToBackjump steps next told := by
  obtain ⟨answer, unusable, latest, stored⟩ := reduces
  rename_i top literal key cause
  have nonempty : ¬clause.isEmpty = true := fun bare =>
    Assignment.topLiterals_ne_ok bare answer
  refine ⟨telling (.resolvedWith key) solver, rfl, fun steps => ?_⟩
  rw [resolveToBackjump, if_neg nonempty, get_bind, answer]
  show (if _ then _ else _ : SolverM τ Clause) solver = _
  rw [if_neg (by simp [unusable]), latest]
  exact bind_eq (clause_of_stored stored)

/-- A false clause can be reduced, or the analysis stops there. -/
theorem Reasoned.proceeds (reasoned : solver.Reasoned) (sound : solver.trail.Sound)
    (conflicting : solver.Conflicting clause) :
    (∃ next, solver.Reduces clause next) ∨ ∃ result, solver.Settles clause result := by
  by_cases bare : clause.isEmpty = true
  · exact .inr ⟨_, .empty bare⟩
  have nonempty : clause.isEmpty = false := by simpa using bare
  obtain ⟨top, answer, tops⟩ := Trail.topLiterals_spec nonempty fun _ => conflicting.valued
  by_cases jumps : solver.trail.isBackjumpable top = true
  · exact .inr ⟨_, .usable nonempty answer jumps⟩
  cases latest : solver.trail.latestImplied? clause with
  | some pivot =>
      obtain ⟨literal, key⟩ := pivot
      obtain ⟨cause, _, stored, _⟩ := reasoned.resolve sound conflicting latest
      exact .inl ⟨_, .resolve answer (by simpa using jumps) latest stored⟩
  | none =>
      by_cases zero : top.level = 0
      · exact .inr ⟨_, .groundless nonempty (conflicting.groundless tops zero latest)⟩
      · exact .inr ⟨_, .deadlocked (reasoned.deadlocked conflicting tops jumps zero latest)⟩

/-- What is reduced stays false and goes on to follow from the stored clauses. -/
theorem Reasoned.reduces (reasoned : solver.Reasoned) (sound : solver.trail.Sound)
    (conflicting : solver.Conflicting clause) (reduces : solver.Reduces clause next) :
    solver.Conflicting next := by
  obtain ⟨_, _, latest, stored⟩ := reduces
  obtain ⟨cause, _, storedAgain, _, _, _, resolved, _⟩ :=
    reasoned.resolve sound conflicting latest
  obtain rfl := Option.some.inj (stored.symm.trans storedAgain)
  exact resolved

theorem Reasoned.reduction (reasoned : solver.Reasoned) (sound : solver.trail.Sound)
    (conflicting : solver.Conflicting clause) (reduction : solver.Reduction clause final) :
    solver.Conflicting final := by
  induction reduction with
  | refl => exact conflicting
  | tail _ reduces induction => exact reasoned.reduces sound induction reduces

/-- With fuel for the depth of the reasons, the analysis answers as where the reductions
stop. -/
theorem Reasoned.resolveToBackjump (reasoned : solver.Reasoned) (sound : solver.trail.Sound)
    (conflicting : solver.Conflicting clause) {height steps : Nat}
    (shallow : solver.Shallow clause height) (enough : height < steps) :
    ∃ final result, solver.Reduction clause final ∧ solver.Settles final result ∧
      ∃ rest : Solver τ, rest.toAssignment = solver.toAssignment ∧
        Solver.resolveToBackjump steps clause solver = orError result rest := by
  -- The induction is on the fuel; each reduction lowers the height.
  induction steps generalizing solver clause height with
  | zero => omega
  | succ steps induction =>
      rcases reasoned.proceeds sound conflicting with ⟨next, reduces⟩ | ⟨result, settles⟩
      · obtain ⟨told, same, follows⟩ := resolveToBackjump_of_reduces reduces
        have resolved := reasoned.reduces sound conflicting reduces
        have lower : ∃ lower < height, solver.Shallow next lower := by
          obtain ⟨_, _, latest, stored⟩ := reduces
          obtain ⟨cause, entry, storedAgain, found, reason, member, _, lower⟩ :=
            reasoned.resolve sound conflicting latest
          obtain rfl := Option.some.inj (stored.symm.trans storedAgain)
          exact ⟨_, shallow _ member entry found _ reason, lower⟩
        obtain ⟨lower, less, shallow⟩ := lower
        have reasonedTold : told.Reasoned :=
          reasoned.congr (by rw [same]) fun _ _ => by rw [same]; exact id
        rw [← same] at sound resolved shallow
        obtain ⟨final, result, reduction, settles, rest, unchanged, answers⟩ :=
          induction reasonedTold sound resolved shallow (by omega)
        rw [same] at reduction settles unchanged
        exact ⟨final, result, reduction.head reduces, settles, rest, unchanged,
          (follows steps).trans answers⟩
      · exact ⟨clause, result, .refl, settles, solver, rfl,
          resolveToBackjump_of_settles settles steps⟩

theorem Reasoned.explain (reasoned : solver.Reasoned) (sound : solver.trail.Sound)
    {conflict : ClauseKey} (stored : solver.clauses.clause? conflict = some clause)
    (falsified : ∀ literal ∈ clause, solver.Falsifies literal) {fuel : Nat}
    (enough : solver.trail.size < fuel) :
    ∃ final result, solver.Reduction clause final ∧ solver.Settles final result ∧
      ∃ rest : Solver τ, rest.toAssignment = solver.toAssignment ∧
        Solver.explain fuel conflict solver = orError result rest := by
  have conflicting : solver.Conflicting clause := ⟨Assignment.derives_stored stored, falsified⟩
  have begun : emit (.analysisBegun conflict) solver =
      .ok ⟨⟩ (telling (.analysisBegun conflict) solver) := rfl
  have reasonedBegun : (telling (.analysisBegun conflict) solver).Reasoned :=
    reasoned.congr rfl fun _ _ => id
  obtain ⟨final, result, reduction, settles, rest, same, answers⟩ :=
    reasonedBegun.resolveToBackjump sound conflicting (solver.shallow_size clause) enough
  have looked : Solver.clause conflict (telling (.analysisBegun conflict) solver) =
      .ok clause (telling (.analysisBegun conflict) solver) := clause_of_stored stored
  have opened : Solver.explain fuel conflict solver =
      (Solver.resolveToBackjump fuel clause >>= fun explanation => do
        emit .analysisEnded
        return explanation) (telling (.analysisBegun conflict) solver) :=
    (bind_eq begun).trans (bind_eq looked)
  refine ⟨final, result, reduction, settles, ?_⟩
  cases result with
  | ok explanation =>
      exact ⟨telling .analysisEnded rest, same, opened.trans (bind_eq answers)⟩
  | error error => exact ⟨rest, same, opened.trans (bind_eq_error answers)⟩

end Solver

/-- In a solver that is reached by operations that rest on what they need, the analysis of a
stored clause that is false ends, whatever the fuel above the number of assignments.  It
changes nothing but the events.  It answers a clause that explains the conflict, or ends in
the error that there is no literal to resolve on; and that happens exactly when the
resolutions lead to a deadlock. -/
theorem Reached.analyses {τ : Type} [TheoryAtom τ] {configuration : Configuration}
    (obedient : Obedient τ configuration) {solver : Solver τ}
    (reached : Reached Operation.Grounded configuration solver) {conflict : ClauseKey}
    {clause : Clause} (stored : solver.clauses.clause? conflict = some clause)
    (falsified : ∀ literal ∈ clause, solver.Falsifies literal) {fuel : Nat}
    (enough : solver.trail.size < fuel) :
    Ends (Solver.explain fuel conflict) solver
      (fun explanation rest => rest.toAssignment = solver.toAssignment ∧
        solver.Explains clause explanation)
      (fun fault rest => rest.toAssignment = solver.toAssignment ∧
        fault = .error .noResolutionCandidate) ∧
    ((∃ rest, Solver.explain fuel conflict solver =
        .error (.error .noResolutionCandidate) rest) ↔
      ∃ final, solver.Reduction clause final ∧ solver.Deadlocked final) := by
  have accountable := reached.accountable obedient
  have sound := accountable.coherent.assignment.trail
  have conflicting : solver.Conflicting clause := ⟨Assignment.derives_stored stored, falsified⟩
  obtain ⟨final, result, reduction, settles, rest, same, answers⟩ :=
    accountable.reasoned.explain sound stored falsified enough
  have conflictingFinal := accountable.reasoned.reduction sound conflicting reduction
  constructor
  · unfold Ends
    rw [answers]
    cases result with
    | ok explanation => exact ⟨same, conflictingFinal.explains reduction settles⟩
    | error error =>
        cases settles
        exact ⟨same, rfl⟩
  · constructor
    · rintro ⟨broken, ended⟩
      rw [answers] at ended
      cases settles with
      | deadlocked deadlocked => exact ⟨final, reduction, deadlocked⟩
      | _ => cases ended
    · rintro ⟨last, onward, deadlocked⟩
      obtain rfl := reduction.final_unique settles onward (.deadlocked deadlocked)
      rw [answers, deadlocked.settles settles]
      exact ⟨rest, rfl⟩

namespace Bound

/-- The stuck formula after its search: `x ≥ 10` was decided, and `x` was picked for it. -/
def stuckSearch : Solver Bound :=
  left (Operation.perform (.solve 10)) stuckFormula

theorem reached_stuckSearch : Reached Operation.Grounded {} stuckSearch := by
  have start : Reached Operation.Grounded {} stuckFormula :=
    stated_stuckFormula.reached fun _ operation builds => by
      cases operation <;> trivial
  have broken : fault? (Operation.perform (.solve 10)) stuckFormula =
      some (.error .noResolutionCandidate) := by
    decide +kernel
  have grounded : Operation.Grounded stuckFormula (.solve 10) := trivial
  refine start.perform grounded ?_
  rintro ⟨abort, rest, aborted⟩
  rw [error_of_fault broken] at aborted
  cases aborted

/-- Its second clause is a deadlock, as the decision is false there along with bounds that
were evaluated. -/
theorem stuckSearch_deadlocked : ∃ clause, Obedient Bound {} ∧
    Reached Operation.Grounded {} stuckSearch ∧
      stuckSearch.clauses.clause? 1 = some clause ∧
        (∀ literal ∈ clause, stuckSearch.Falsifies literal) ∧ stuckSearch.trail.size < 5 ∧
          (∃ rest, Solver.explain 5 1 stuckSearch =
            .error (.error .noResolutionCandidate) rest) ∧
          ∃ final, stuckSearch.Reduction clause final ∧ stuckSearch.Deadlocked final := by
  have stored : stuckSearch.clauses.clause? 1 = some (Clause.ofList
      [⟨.theory 0, false⟩, ⟨.theory 1, true⟩, ⟨.theory 2, true⟩]) := by
    decide +kernel
  have falsified : ∀ literal ∈ (Clause.ofList
      [⟨.theory 0, false⟩, ⟨.theory 1, true⟩, ⟨.theory 2, true⟩]).literals,
        stuckSearch.trail.truth? literal.atom = some !literal.polarity := by
    decide +kernel
  have enough : stuckSearch.trail.size < 5 := by decide +kernel
  have broken : fault? (Solver.explain 5 1) stuckSearch =
      some (.error .noResolutionCandidate) := by
    decide +kernel
  have ended := error_of_fault broken
  obtain ⟨_, deadlock⟩ :=
    Reached.analyses (obedient {}) reached_stuckSearch stored falsified enough
  exact ⟨_, obedient {}, reached_stuckSearch, stored, falsified, enough, ⟨_, ended⟩,
    deadlock.mp ⟨_, ended⟩⟩

end Bound

end ModelSearch
