import ModelSearch.Proofs.Actions.Runs
import ModelSearch.Proofs.Syntax.CanonicalClauses
import ModelSearch.Proofs.Trail.TopLiterals

/-!
# Explaining a conflict

The clause under analysis follows from the stored clauses and is false.  Each
resolution replaces its latest implied literal by literals that became false
earlier, so ranks fall and the analysis ends: with a clause to jump back with, or
with one that is false by level zero alone.
-/

namespace ModelSearch

namespace Assignment

variable {assignment : Assignment} {clause cause : Clause} {literal other : Literal}

/-- The clause follows from the stored clauses, and is false. -/
structure Conflicting (assignment : Assignment) (clause : Clause) : Prop where
  derived : assignment.Derives clause
  falsified : ∀ literal ∈ clause, assignment.Falsifies literal

theorem Falsifies.polarity (left : assignment.Falsifies literal)
    (right : assignment.Falsifies other) (same : literal.atom = other.atom) :
    literal = other := by
  obtain ⟨atom, polarity⟩ := literal
  obtain ⟨otherAtom, otherPolarity⟩ := other
  simp only at same
  subst same
  have truths : some (!polarity) = some !otherPolarity := left.symm.trans right
  rw [Bool.not_inj (Option.some.inj truths)]

theorem derives_stored {key : ClauseKey} (stored : assignment.clauses.clause? key = some clause) :
    assignment.Derives clause where
  entailed _ fulfilled := fulfilled key clause stored
  shared _ member := ⟨key, clause, stored, member⟩

/-- The members of a resolvent of a false clause and the reason of the pivot. -/
theorem Conflicting.resolve (conflicting : assignment.Conflicting clause)
    (member : literal ∈ clause) (reason : assignment.Derives cause)
    (others : ∀ other ∈ cause, other ≠ -literal → assignment.Falsifies other ∧ other ≠ literal) :
    assignment.Conflicting (clause.resolve cause literal) := by
  have negation : ∀ other ∈ clause, other ≠ -literal := by
    rintro other inside rfl
    have same := (conflicting.falsified _ inside).polarity
      (conflicting.falsified _ member) rfl
    have polarity := congrArg Literal.polarity same
    exact Bool.not_ne_self _ polarity
  refine ⟨⟨?_, ?_⟩, ?_⟩
  · intro truth fulfilled
    have oneSided : literal ∉ cause := fun inside =>
      (others literal inside (negation literal member)).2 rfl
    exact (conflicting.derived.entailed truth fulfilled).resolve (reason.entailed truth fulfilled)
      oneSided fun inside => negation _ inside rfl
  · intro other inside
    rcases (Clause.mem_resolve.mp inside).1 with former | added
    · exact conflicting.derived.shared other former
    · exact reason.shared other added
  · intro other inside
    obtain ⟨origin, _, different⟩ := Clause.mem_resolve.mp inside
    rcases origin with former | added
    · exact conflicting.falsified other former
    · exact (others other added different).1

/-- Every implied literal of the clause has a rank below the height. -/
def Shallow (assignment : Assignment) (clause : Clause) (height : Nat) : Prop :=
  ∀ literal ∈ clause, ∀ entry, assignment.trail.get? literal.atom = some entry →
    ∀ key, entry.reason = .clause key → assignment.trail.rank entry < height

theorem shallow_size (assignment : Assignment) (clause : Clause) :
    assignment.Shallow clause assignment.trail.size :=
  fun _ _ _ found _ _ => Trail.rank_lt_size found

/-- A clause that refutes the stored clauses, given the values of level zero. -/
def Refuted (assignment : Assignment) : Prop :=
  ∃ clause, assignment.Derives clause ∧ ∀ literal ∈ clause,
    assignment.Falsifies literal ∧ assignment.trail.level? literal.atom = some 0

theorem Conflicting.valued (conflicting : assignment.Conflicting clause) {literal : Literal}
    (member : literal ∈ clause) :
    ∃ level, assignment.trail.level? literal.atom = some level := by
  obtain ⟨entry, found, _⟩ := (conflicting.falsified _ member).entry
  exact ⟨entry.level, Trail.level?_eq_some.mpr ⟨entry, found, rfl⟩⟩

theorem Conflicting.refuted_of_empty (conflicting : assignment.Conflicting clause)
    (bare : clause.isEmpty = true) : assignment.Refuted := by
  refine ⟨clause, conflicting.derived, fun literal member => ?_⟩
  rw [Clause.isEmpty, List.isEmpty_iff] at bare
  have absurdity : literal ∈ clause.literals := member
  rw [bare] at absurdity
  cases absurdity

/-- A clause with no literal above level zero refutes as well. -/
theorem Conflicting.refuted_of_zero (conflicting : assignment.Conflicting clause)
    {top : TopLiterals} (tops : assignment.trail.Tops clause top) (zero : top.level = 0) :
    assignment.Refuted := by
  refine ⟨clause, conflicting.derived, fun literal member => ?_⟩
  refine ⟨conflicting.falsified _ member, ?_⟩
  obtain ⟨level, levelled⟩ := conflicting.valued member
  have below := tops.bounded literal member level levelled
  rw [zero] at below
  rw [levelled, Nat.le_zero.mp below]

/-- A clause to jump back with. -/
structure Backjumpable (assignment : Assignment) (clause : Clause) : Prop where
  nonempty : clause.isEmpty = false
  conflicting : assignment.Conflicting clause
  top : ∃ top, assignment.trail.topLiterals clause = .ok top ∧
    assignment.trail.Tops clause top ∧ assignment.trail.isBackjumpable top = true

/-- What an explanation is: empty if the stored clauses are refuted, and else a
clause to jump back with. -/
def Explanation (assignment : Assignment) (clause : Clause) : Prop :=
  clause.isEmpty = true ∧ assignment.Refuted ∨ assignment.Backjumpable clause

/-- No literal of the clause follows from a clause.  At its greatest level, which is not
level zero, one literal was decided and another one was given by a theory atom. -/
structure Deadlocked (assignment : Assignment) (clause : Clause) : Prop where
  unimplied : ∀ literal ∈ clause, ∀ key,
    assignment.trail.reason? literal.atom ≠ some (.clause key)
  opposed : ∃ level, 0 < level ∧
    (∀ literal ∈ clause, ∃ own ≤ level, assignment.trail.level? literal.atom = some own) ∧
    (∃ literal ∈ clause, assignment.trail.level? literal.atom = some level ∧
      assignment.trail.reason? literal.atom = some .decided) ∧
    ∃ literal ∈ clause, assignment.trail.level? literal.atom = some level ∧
      assignment.trail.reason? literal.atom = some .semantic

theorem Deadlocked.evaluated (deadlocked : assignment.Deadlocked clause) :
    assignment.Evaluated := by
  obtain ⟨_, _, _, _, literal, _, _, given⟩ := deadlocked.opposed
  obtain ⟨entry, found, reason⟩ := Option.map_eq_some_iff.mp given
  exact ⟨literal.atom, entry, found, reason⟩

end Assignment

namespace Solver

variable {τ : Type} [TheoryAtom τ] {rules : Rules τ} {jumping : Bool} {origin solver : Solver τ}
  {clause : Clause}

omit [TheoryAtom τ] in
/-- The clause that explains a false literal has its negation, and other literals that
became false before. -/
theorem Explained.negation {literal : Literal} {entry : Entry} {key : ClauseKey}
    (explained : solver.Explained literal.atom entry key)
    (found : solver.trail.get? literal.atom = some entry) (falsified : solver.Falsifies literal) :
    ∃ cause, solver.clauses.clause? key = some cause ∧ -literal ∈ cause ∧
      ∀ other ∈ cause, other ≠ -literal → ∃ otherEntry,
        solver.trail.get? other.atom = some otherEntry ∧
          otherEntry.value = .boolean !other.polarity ∧ otherEntry.Before entry := by
  obtain ⟨cause, implied, stored, inside, same, value, others⟩ := explained
  have negated : implied = -literal := by
    obtain ⟨again, foundAgain, falsified⟩ := falsified.entry
    obtain rfl := Option.some.inj (found.symm.trans foundAgain)
    rw [value] at falsified
    obtain ⟨atom, polarity⟩ := implied
    simp only at same value
    have flipped := Value.boolean.inj falsified
    simp only at flipped
    subst same flipped
    rfl
  subst negated
  refine ⟨cause, stored, inside, fun other otherInside different => ?_⟩
  obtain ⟨otherEntry, otherFound, falsified, level, position⟩ :=
    others other otherInside different
  refine ⟨otherEntry, otherFound, falsified, ?_⟩
  unfold Entry.Before
  omega

omit [TheoryAtom τ] in
/-- Resolving on the latest implied literal lowers the rank of all implied literals. -/
theorem Reasoned.resolve (reasoned : solver.Reasoned)
    (sound : solver.trail.Sound) (conflicting : solver.Conflicting clause)
    {literal : Literal} {key : ClauseKey}
    (latest : solver.trail.latestImplied? clause = some (literal, key)) :
    ∃ cause entry, solver.clauses.clause? key = some cause ∧
      solver.trail.get? literal.atom = some entry ∧ entry.reason = .clause key ∧
      literal ∈ clause ∧
      solver.Conflicting (clause.resolve cause literal) ∧
      solver.Shallow (clause.resolve cause literal) (solver.trail.rank entry) := by
  obtain ⟨member, entry, found, reason, last⟩ := Trail.latestImplied?_eq_some latest
  obtain ⟨cause, stored, inside, earlier⟩ :=
    (reasoned.explained _ _ _ found reason).negation found (conflicting.falsified _ member)
  have behind : ∀ other ∈ cause, other ≠ -literal →
      solver.Falsifies other ∧ other ≠ literal := by
    intro other otherInside different
    obtain ⟨otherEntry, otherFound, falsified, before⟩ := earlier other otherInside different
    refine ⟨Trail.truth?_eq_some.mpr ⟨otherEntry, otherFound, falsified⟩, ?_⟩
    rintro rfl
    obtain rfl := Option.some.inj (found.symm.trans otherFound)
    exact Entry.Before.irrefl _ before
  have resolved := conflicting.resolve member (Assignment.derives_stored stored) behind
  refine ⟨cause, entry, stored, found, reason, member, resolved, ?_⟩
  intro other otherInside otherEntry otherFound otherKey otherReason
  obtain ⟨origin, notPivot, notNegation⟩ := Clause.mem_resolve.mp otherInside
  -- The pivot was the latest of its clause, and its reason has earlier literals only.
  refine Trail.rank_lt_rank otherFound ?_
  rcases origin with former | added
  · have notAfter := last other former otherEntry otherFound otherKey otherReason
    have apart : otherEntry.position ≠ entry.position := by
      intro samePosition
      have sameAtom := sound.distinct _ _ _ _ otherFound found samePosition
      exact notPivot ((conflicting.falsified _ former).polarity
        (conflicting.falsified _ member) sameAtom)
    unfold Entry.Before at notAfter ⊢
    omega
  · obtain ⟨again, foundAgain, _, before⟩ := earlier other added notNegation
    obtain rfl := Option.some.inj (otherFound.symm.trans foundAgain)
    exact before

omit [TheoryAtom τ] in
/-- A level has one choice. -/
theorem Reasoned.choice_eq (reasoned : solver.Reasoned) {left right : Atom}
    {leftEntry rightEntry : Entry} (leftFound : solver.trail.get? left = some leftEntry)
    (rightFound : solver.trail.get? right = some rightEntry)
    (leftDecided : leftEntry.reason = .decided) (rightDecided : rightEntry.reason = .decided)
    (level : leftEntry.level = rightEntry.level) : left = right := by
  have first := (reasoned.leading _ _ leftFound leftDecided).2
  have second := (reasoned.leading _ _ rightFound rightDecided).2
  rw [level, second] at first
  exact (Option.some.inj first).symm

omit [TheoryAtom τ] in
/-- Without implied literals and off level zero, an analysis is stuck only where a decision
meets a value that a theory atom gave. -/
theorem Reasoned.deadlocked (reasoned : solver.Reasoned) (conflicting : solver.Conflicting clause)
    {top : TopLiterals} (tops : solver.trail.Tops clause top)
    (notBackjumpable : ¬solver.trail.isBackjumpable top = true) (positive : ¬top.level = 0)
    (unimplied : solver.trail.latestImplied? clause = none) : solver.Deadlocked clause := by
  have above := Nat.pos_of_ne_zero positive
  simp only [Trail.isBackjumpable, above, decide_true, Bool.true_and, Bool.or_eq_true,
    beq_iff_eq, not_or, Trail.allSemantic, List.all_eq_true, not_forall] at notBackjumpable
  obtain ⟨several, chosen, chosenInside, notSemantic⟩ := notBackjumpable
  obtain ⟨chosenMember, chosenLevel⟩ := tops.mem.mp chosenInside
  obtain ⟨entry, found, level⟩ := Trail.level?_eq_some.mp chosenLevel
  have decided : entry.reason = .decided := by
    cases reason : entry.reason with
    | decided => rfl
    | clause key =>
        exact absurd reason (Trail.latestImplied?_eq_none unimplied _ chosenMember _ found key)
    | semantic => simp [Trail.reason?, found, reason] at notSemantic
  -- The level has one choice, so another literal there has another reason.
  obtain ⟨other, otherInside, different⟩ := tops.another several chosenInside
  obtain ⟨otherMember, otherLevel⟩ := tops.mem.mp otherInside
  obtain ⟨otherEntry, otherFound, same⟩ := Trail.level?_eq_some.mp otherLevel
  have evaluated : otherEntry.reason = .semantic := by
    cases reason : otherEntry.reason with
    | decided =>
        have sameAtom := reasoned.choice_eq otherFound found reason decided (same.trans level.symm)
        exact absurd ((conflicting.falsified _ otherMember).polarity
          (conflicting.falsified _ chosenMember) sameAtom) different
    | clause key =>
        exact absurd reason (Trail.latestImplied?_eq_none unimplied _ otherMember _ otherFound key)
    | semantic => rfl
  constructor
  · intro literal member key follows
    obtain ⟨implied, present, reason⟩ := Option.map_eq_some_iff.mp follows
    exact Trail.latestImplied?_eq_none unimplied literal member implied present key reason
  · refine ⟨top.level, above, fun literal member => ?_, ⟨chosen, chosenMember, chosenLevel, ?_⟩,
      ⟨other, otherMember, otherLevel, ?_⟩⟩
    · obtain ⟨own, levelled⟩ := conflicting.valued member
      exact ⟨own, tops.bounded literal member own levelled, levelled⟩
    · simp [Trail.reason?, found, decided]
    · simp [Trail.reason?, otherFound, evaluated]

/-- An analysis that ended otherwise was stuck on values that theory atoms gave,
or had too little fuel for the depth of the reasons. -/
def Unexplained (solver : Solver τ) (clause : Clause) (steps : Nat) (fault : Fault) : Prop :=
  fault = .error .noResolutionCandidate ∧
      solver.Evaluated ∨
    fault = .outOfFuel ∧ ∀ height < steps, ¬solver.Shallow clause height

theorem runs_resolveToBackjump (valid : origin.Valid rules solver)
    (conflicting : solver.Conflicting clause) (steps : Nat) :
    Runs rules jumping (resolveToBackjump steps clause) solver
      (fun answer rest => Told solver rest ∧ solver.Explanation answer)
      (fun fault _ => Unexplained solver clause steps fault) := by
  -- The induction is on the fuel; the rank of the pivot says how deep what is left may be.
  induction steps generalizing solver clause with
  | zero =>
      exact .throwOutOfFuel (.inr ⟨rfl, fun _ absurdity => absurd absurdity (Nat.not_lt_zero _)⟩)
  | succ steps induction =>
      unfold resolveToBackjump
      by_cases bare : clause.isEmpty = true
      · rw [if_pos bare]
        exact .pure ⟨.refl _, .inl ⟨bare, conflicting.refuted_of_empty bare⟩⟩
      · rw [if_neg bare, runs_get]
        have nonempty : clause.isEmpty = false := by simpa using bare
        obtain ⟨top, answer, tops⟩ := Trail.topLiterals_spec nonempty
          fun _ => conflicting.valued
        dsimp only
        rw [answer]
        show Runs rules jumping (if _ then _ else _) solver _ _
        by_cases usable : solver.trail.isBackjumpable top = true
        · rw [if_pos usable]
          exact .pure ⟨.refl _, .inr ⟨nonempty, conflicting, top, answer, tops, usable⟩⟩
        · rw [if_neg usable]
          cases latest : solver.trail.latestImplied? clause with
          | none =>
              dsimp only
              by_cases zero : top.level = 0
              · rw [if_pos zero]
                exact .pure ⟨.refl _, .inl ⟨rfl, conflicting.refuted_of_zero tops zero⟩⟩
              · rw [if_neg zero]
                have deadlocked :=
                  valid.reasoned.deadlocked conflicting tops usable zero latest
                exact .throwError (.inl ⟨rfl, deadlocked.evaluated⟩)
          | some pivot =>
              obtain ⟨literal, key⟩ := pivot
              obtain ⟨cause, entry, stored, found, reason, member, resolved, lower⟩ :=
                valid.reasoned.resolve valid.coherent.assignment.trail conflicting latest
              refine (runs_clause stored).mpr ?_
              refine Runs.bind valid (runs_emit rfl) fun _ told steps same => ?_
              have resolvedTold : told.Conflicting (clause.resolve cause literal) := by
                rw [same.assignment]
                exact resolved
              refine (induction (Steps.valid steps valid) resolvedTold).mono ?_ ?_
              · rintro answer rest _ ⟨again, explanation⟩
                rw [same.assignment] at explanation
                exact ⟨same.trans again, explanation⟩
              · rintro fault rest _ (⟨rfl, semantic⟩ | ⟨rfl, deep⟩)
                · rw [same.assignment] at semantic
                  exact .inl ⟨rfl, semantic⟩
                · refine .inr ⟨rfl, fun height below shallow => ?_⟩
                  have rank := shallow literal member entry found key reason
                  refine deep (solver.trail.rank entry) (by omega) ?_
                  rw [same.assignment]
                  exact lower

/-- A clause to jump back with explains itself. -/
theorem runs_explain_self {excuse : Fault → Solver τ → Prop} (valid : origin.Valid rules solver)
    {conflict : ClauseKey} (stored : solver.clauses.clause? conflict = some clause)
    (backjumpable : solver.Backjumpable clause) (fuel : Nat) :
    Runs rules jumping (explain (fuel + 1) conflict) solver
      (fun answer rest => answer = clause ∧ Told solver rest) excuse := by
  obtain ⟨top, answer, _, usable⟩ := backjumpable.top
  unfold explain
  refine Runs.bind valid (runs_emit rfl) fun _ begun steps first => ?_
  have same := first.assignment
  have resolved : Runs rules jumping (resolveToBackjump (fuel + 1) clause) begun
      (fun answer rest => answer = clause ∧ Told begun rest) excuse := by
    unfold resolveToBackjump
    rw [if_neg (by rw [backjumpable.nonempty]; exact Bool.false_ne_true), runs_get]
    dsimp only
    rw [same, answer]
    show Runs rules jumping (if _ then _ else _) begun _ _
    rw [if_pos usable]
    exact .pure ⟨rfl, .refl _⟩
  have validBegun := Steps.valid steps valid
  refine (runs_clause (by rw [congrArg Assignment.clauses same]; exact stored)).mpr ?_
  refine Runs.bind validBegun resolved fun answer told later answered => ?_
  obtain ⟨rfl, second⟩ := answered
  refine Runs.bind (Steps.valid later validBegun) (runs_emit rfl) fun _ rest _ third => ?_
  exact .pure ⟨rfl, (first.trans second).trans third⟩

/-- A violated clause is explained with fuel for every entry of the trail. -/
theorem runs_explain (valid : origin.Valid rules solver) {conflict : ClauseKey}
    (violated : solver.Violates conflict) (fuel : Nat) :
    Runs rules jumping (explain fuel conflict) solver
      (fun answer rest => Told solver rest ∧ solver.Explanation answer)
      (fun fault _ =>
        fault = .error .noResolutionCandidate ∧
          solver.Evaluated ∨
        fault = .outOfFuel ∧ fuel ≤ solver.trail.size) := by
  obtain ⟨clause, stored, falsified⟩ := violated
  have conflicting : solver.Conflicting clause :=
    ⟨Assignment.derives_stored stored, falsified⟩
  unfold explain
  refine Runs.bind valid (runs_emit rfl) fun _ begun steps first => ?_
  have validBegun := Steps.valid steps valid
  have storedBegun : begun.clauses.clause? conflict = some clause := by
    rw [congrArg Assignment.clauses first.assignment]
    exact stored
  refine (runs_clause storedBegun).mpr ?_
  have conflictingBegun : begun.Conflicting clause := by
    rw [first.assignment]
    exact conflicting
  refine Runs.bind validBegun ((runs_resolveToBackjump validBegun conflictingBegun fuel).mono
    (fun _ _ _ answered => answered) ?_) fun answer resolved later answered => ?_
  · rintro fault rest _ (⟨rfl, semantic⟩ | ⟨rfl, deep⟩)
    · rw [first.assignment] at semantic
      exact .inl ⟨rfl, semantic⟩
    · refine .inr ⟨rfl, Nat.le_of_not_lt fun enough => ?_⟩
      refine deep solver.trail.size enough ?_
      rw [first.assignment]
      exact solver.shallow_size clause
  · obtain ⟨second, explanation⟩ := answered
    rw [first.assignment] at explanation
    refine Runs.bind (Steps.valid later validBegun) (runs_emit rfl) fun _ last _ third => ?_
    exact .pure ⟨(first.trans second).trans third, explanation⟩

end Solver

end ModelSearch
