import ModelSearch.Proofs.Calls.AcrossBasicCalls
import ModelSearch.Proofs.Conflicts.Certificates
import ModelSearch.Proofs.Propagation.Timeliness
import ModelSearch.Proofs.Watch.Index

/-!
# Nothing is learned twice

A clause that comes out of an analysis has at most one literal at the current level.  Were
all literals of a stored clause among its literals, that clause would be violated as
well.  But without theory atoms, and with learning, each stored clause is watched, and a
watched clause that is violated has two literals at the current level.

So each clause that is derived differs from all that are stored, and from the violated
clause in particular.  It is the only one that is not watched until it is learned, and
then it gets a watch set of its own.
-/

namespace ModelSearch

/-- Each stored clause has a literal that the clause has not. -/
def Assignment.Novel (assignment : Assignment) (clause : Clause) : Prop :=
  ∀ key stored, assignment.clauses.clause? key = some stored →
    ∃ literal ∈ stored, literal ∉ clause

namespace Solver

variable {τ : Type} {origin solver rest : Solver τ} {key conflict : ClauseKey} {clause : Clause}

/-! ## What is watched -/

/-- Every stored clause is watched. -/
def Tended (solver : Solver τ) : Prop :=
  ∀ key stored, solver.clauses.stored? key = some stored → stored.watched = true

theorem Tended.watched (tended : solver.Tended)
    (stored : solver.clauses.clause? key = some clause) : solver.clauses.Watched key clause := by
  obtain ⟨entry, present, same⟩ := ClauseStore.clause?_eq_some.mp stored
  exact ⟨entry, present, tended key entry present, same⟩

theorem Tended.adds (tended : solver.Tended) (adds : Adds solver rest) : rest.Tended := by
  intro key stored present
  rcases adds.fresh key stored present with old | ⟨_, watched⟩
  · exact tended key stored old
  · exact watched

/-- An action that adds no other clauses leaves all watched. -/
theorem Tended.adding {α : Type} {action : SolverM τ α} (tended : solver.Tended)
    (adding : Adding action) :
    Ends action solver (fun _ rest => rest.Tended) fun _ rest => rest.Tended :=
  (adding.ends solver).mono (fun _ _ => tended.adds) fun _ _ => tended.adds

theorem Tended.told [TheoryAtom τ] (tended : solver.Tended) (told : Told solver rest) :
    rest.Tended := by
  unfold Tended
  rw [told.assignment]
  exact tended

/-- The clause was derived and is stored under the key.  All others are watched, and have
a literal that it has not. -/
structure Unlearned (solver : Solver τ) (key : ClauseKey) (clause : Clause) : Prop where
  stored : solver.clauses.stored? key = some ⟨clause, .resolution, false⟩
  others : ∀ other stored, solver.clauses.stored? other = some stored → other ≠ key →
    stored.watched = true ∧ ∃ literal ∈ stored.clause, literal ∉ clause

namespace Unlearned

theorem alike (unlearned : solver.Unlearned key clause)
    (alike : solver.clauses.Alike rest.clauses) : rest.Unlearned key clause := by
  constructor
  · rw [alike.stored?]
    exact unlearned.stored
  · intro other stored present
    rw [alike.stored?] at present
    exact unlearned.others other stored present

/-- A clause that is to be learned has no watch set yet. -/
theorem fresh (unlearned : solver.Unlearned key clause) (indexed : solver.clauses.Indexed) :
    (solver.clauses.watches.add key clause.literals).1 = true := by
  refine indexed.fresh fun other stored watched => ?_
  obtain ⟨entry, present, isWatched, rfl⟩ := watched
  refine (unlearned.others other entry present ?_).2
  rintro rfl
  rw [unlearned.stored] at present
  rw [← Option.some.inj present] at isWatched
  cases isWatched

theorem tended (unlearned : solver.Unlearned key clause)
    (watches : rest.clauses = solver.clauses.watch key) : rest.Tended := by
  intro other stored present
  rw [watches, ClauseStore.stored?_watch] at present
  obtain ⟨former, found, rfl⟩ := Option.map_eq_some_iff.mp present
  by_cases same : key = other
  · rw [if_pos same]
  · rw [if_neg same]
    exact (unlearned.others other former found (Ne.symm same)).1

theorem learn (unlearned : solver.Unlearned key clause)
    (learning : solver.configuration.learning = true) :
    Ends (learn key) solver (fun _ rest => rest.clauses = solver.clauses.watch key)
      fun _ _ => False := by
  unfold Solver.learn
  refine ends_get_bind.mpr ?_
  rw [unlearned.stored]
  dsimp only
  rw [if_pos (by rw [learning]; rfl)]
  exact (ends_known (watchClause_of_lt (ClauseStore.stored?_lt unlearned.stored))).mpr rfl

end Unlearned

variable [TheoryAtom τ]

/-! ## Conflicts -/

omit [TheoryAtom τ] in
/-- Without evaluations a clause to jump back with has a single literal at its level. -/
theorem Plain.single (plain : solver.Plain) {top : TopLiterals}
    (tops : solver.trail.Tops clause top) (usable : solver.trail.isBackjumpable top = true) :
    0 < top.level ∧ ∃ literal, top.literals = [literal] := by
  rw [Trail.isBackjumpable, Bool.and_eq_true, Bool.or_eq_true, decide_eq_true_iff,
    beq_iff_eq] at usable
  refine ⟨usable.1, List.length_eq_one_iff.mp (usable.2.resolve_right fun semantic => ?_)⟩
  obtain ⟨literal, member, levelled⟩ := tops.attained
  have evaluated := List.all_eq_true.mp semantic literal (tops.mem.mpr ⟨member, levelled⟩)
  obtain ⟨entry, found, reason⟩ := Option.map_eq_some_iff.mp (beq_iff_eq.mp evaluated)
  exact plain.unevaluated ⟨literal.atom, entry, found, reason⟩

/-- A clause to jump back with has at most one literal at the current level. -/
theorem Punctual.alone (punctual : origin.Punctual solver)
    (backjumpable : solver.Backjumpable clause) :
    0 < solver.trail.level ∧ ∃ literal, ∀ other ∈ clause,
      solver.trail.level? other.atom = some solver.trail.level → other = literal := by
  obtain ⟨top, answer, tops, usable⟩ := backjumpable.top
  obtain ⟨positive, literal, single⟩ := punctual.plain.single tops usable
  obtain ⟨highest, _, levelled⟩ := tops.attained
  obtain ⟨entry, found, same⟩ := Trail.level?_eq_some.mp levelled
  have bounded := punctual.sound.level_le found
  refine ⟨by omega, literal, fun other member current => ?_⟩
  -- The levels of the clause do not exceed its own, which does not exceed the current one.
  have attained := tops.bounded other member _ current
  have level : solver.trail.level = top.level := by omega
  have inside := tops.mem.mpr ⟨member, current.trans (congrArg some level)⟩
  rw [single] at inside
  exact List.mem_singleton.mp inside

/-- A search that learns has come here without theory atoms.  Nothing has come late, and
every stored clause is watched. -/
structure Poised (origin solver : Solver τ) : Prop where
  punctual : origin.Punctual solver
  tended : solver.Tended
  learning : solver.configuration.learning = true

namespace Poised

theorem next (poised : origin.Poised solver) (punctual : origin.Punctual rest)
    (tended : rest.Tended) : origin.Poised rest where
  punctual := punctual
  tended := tended
  learning := by
    rw [punctual.valid.continues.configuration,
      ← poised.punctual.valid.continues.configuration, poised.learning]

theorem told (poised : origin.Poised solver) (told : Told solver rest) : origin.Poised rest :=
  poised.next (poised.punctual.told told) (poised.tended.told told)

theorem counting (poised : origin.Poised solver) (update : Counters → Counters) :
    origin.Poised (solver.counting update) :=
  poised.told (told_count solver _)

/-- A clause to jump back with has no stored clause within it, as that would be violated
by two literals of the current level. -/
theorem novel (poised : origin.Poised solver) (backjumpable : solver.Backjumpable clause) :
    solver.Novel clause := by
  intro key stored present
  by_contra within
  push Not at within
  obtain ⟨positive, literal, alone⟩ := poised.punctual.alone backjumpable
  have watched := poised.tended.watched present
  have falsified : ∀ literal ∈ stored, solver.Falsifies literal :=
    fun literal member => backjumpable.conflicting.falsified literal (within literal member)
  obtain ⟨again, presentAgain, _, first, inFirst, second, inSecond, different, firstLevel,
    secondLevel⟩ :=
      poised.punctual.prompt.torn poised.punctual.sound watched falsified positive
  obtain rfl := Option.some.inj (presentAgain.symm.trans present)
  have firstSame := alone first (within first inFirst) firstLevel
  have secondSame := alone second (within second inSecond) secondLevel
  exact different (congrArg Literal.atom (firstSame.trans secondSame.symm))

/-- An analysis comes to an empty clause or to one without any stored clause within it,
unless there is too little fuel. -/
theorem explains (poised : origin.Poised solver) (violated : solver.Violates conflict)
    (fuel : Nat) :
    Ends (Solver.explain fuel conflict) solver
      (fun explanation rest => origin.Poised rest ∧ rest.Violates conflict ∧
        (explanation.isEmpty = true ∨ rest.Backjumpable explanation ∧ solver.Novel explanation))
      fun fault _ => fault = .outOfFuel ∧ fuel ≤ solver.trail.size := by
  have runs : Runs Rules.silent false (Solver.explain fuel conflict) solver
      (fun explanation rest => Told solver rest ∧ solver.Explanation explanation) _ :=
    runs_explain poised.punctual.valid violated fuel
  refine Ends.mono runs ?_ ?_
  · rintro explanation rest ⟨_, told, explained⟩
    refine ⟨poised.told told, ?_, ?_⟩
    · rw [told.assignment]
      exact violated
    · rw [told.assignment]
      exact explained.imp And.left fun backjumpable => ⟨backjumpable, poised.novel backjumpable⟩
  · rintro fault rest breaks
    cases fault with
    | abort abort => exact absurd poised.punctual.orderly breaks
    | error error =>
        rcases breaks.2 with ⟨_, evaluated⟩ | ⟨absurdity, _⟩
        · exact absurd evaluated poised.punctual.plain.unevaluated
        · cases absurdity
    | outOfFuel =>
        rcases breaks.2 with ⟨absurdity, _⟩ | exhausted
        · cases absurdity
        · exact exhausted

/-- A derived clause is stored under a new key. -/
theorem storeExplanation (poised : origin.Poised solver) (violated : solver.Violates conflict)
    (backjumpable : solver.Backjumpable clause) :
    Ends (Solver.storeExplanation conflict clause) solver
      (fun key rest => solver.clauses.stored? key = none ∧ rest.Unlearned key clause)
      fun _ _ => False := by
  have novel := poised.novel backjumpable
  obtain ⟨original, stored, _⟩ := violated
  have different : original ≠ clause := by
    rintro rfl
    obtain ⟨literal, member, absent⟩ := novel conflict original stored
    exact absent member
  rw [Ends, storeExplanation_eq stored, if_neg different]
  have derived := (ClauseStore.stored?_store solver.clauses clause .resolution _).trans (if_pos rfl)
  refine ⟨ClauseStore.stored?_size _, derived, fun other entry present another => ?_⟩
  rw [ClauseStore.stored?_store, if_neg another] at present
  exact ⟨poised.tended other entry present,
    novel other entry.clause (ClauseStore.clause?_eq_some.mpr ⟨entry, present, rfl⟩)⟩

end Poised

/-- A jump leaves the stored clauses alone. -/
theorem Punctual.alike_backjump (punctual : origin.Punctual solver)
    (usable : solver.Usable key clause) :
    Ends (Solver.backjump key) solver (fun _ rest => solver.clauses.Alike rest.clauses)
      fun _ _ => False := by
  obtain ⟨top, target, literal, asserts⟩ := punctual.asserts usable
  have runs : Runs Rules.silent true (Solver.backjump key) solver
      (fun kind rest => kind = .uniqueImplication ∧
        Propagated (solver.jumped target .uniqueImplication) key literal (.ok true) rest ∧
        rest.splits = solver.splits) fun _ _ => False :=
    runs_backjump_literal punctual.valid usable asserts.tops asserts.aims asserts.single
  refine (runs.unbroken punctual.orderly).mono ?_ fun _ _ absurdity => absurdity
  rintro kind rest ⟨_, ⟨_, same⟩, _⟩
  rw [same]
  exact (alike_jumped _ _ _).trans (alike_given _ _ _ _ _)

namespace Poised

variable {fuel : Nat} {analysed stored : Solver τ} {kind : BackjumpKind}

/-- An analysis comes to a clause to jump back with, and tells no more. -/
theorem explained (poised : origin.Poised solver) (violated : solver.Violates conflict)
    (explains : Solver.explain fuel conflict (enteringConflict solver) = .ok clause analysed)
    (nonempty : clause.isEmpty = false) :
    origin.Poised analysed ∧ analysed.Violates conflict ∧ analysed.Backjumpable clause := by
  obtain ⟨poised, violated, explanation⟩ :=
    ((poised.counting _).explains violated fuel).of_ok explains
  refine ⟨poised, violated, (explanation.resolve_left fun bare => ?_).1⟩
  rw [nonempty] at bare
  cases bare

/-- What was derived at a conflict is the only clause that is not watched once the search
has jumped back. -/
theorem returned (poised : origin.Poised solver) (violated : solver.Violates conflict)
    (explains : Solver.explain fuel conflict (enteringConflict solver) = .ok clause analysed)
    (nonempty : clause.isEmpty = false)
    (stores : Solver.storeExplanation conflict clause analysed = .ok key stored)
    (returns : Solver.backjump key stored = .ok kind rest) :
    origin.Punctual rest ∧ rest.configuration.learning = true ∧ rest.Unlearned key clause := by
  obtain ⟨poised, violated, backjumpable⟩ := poised.explained violated explains nonempty
  have unlearned := ((poised.storeExplanation violated backjumpable).of_ok stores).2
  obtain ⟨punctual, usable⟩ :=
    (poised.punctual.storeExplanation violated backjumpable).of_ok stores
  have after := ((punctual.backjump usable).of_ok returns).1
  refine ⟨after, ?_, unlearned.alike ((punctual.alike_backjump usable).of_ok returns)⟩
  rw [after.valid.continues.configuration,
    ← poised.punctual.valid.continues.configuration, poised.learning]

/-! ## Rounds -/

theorem resolveConflict (poised : origin.Poised solver) (violated : solver.Violates conflict)
    (fuel : Nat) :
    Ends (Solver.resolveConflict fuel conflict) solver (fun _ rest => rest.Tended)
      fun _ _ => True := by
  unfold Solver.resolveConflict
  refine (ends_known (count_eq _ _)).mpr ?_
  refine Ends.bind ((poised.counting _).explains violated fuel).traced ?_ fun _ _ _ => trivial
  rintro clause analysed ⟨⟨poisedAfter, _⟩, explains⟩
  split
  · exact poisedAfter.tended
  · next filled =>
      have nonempty : clause.isEmpty = false := by simpa using filled
      obtain ⟨_, violatedAfter, backjumpable⟩ := poised.explained violated explains nonempty
      refine Ends.bind (poisedAfter.punctual.storeExplanation violatedAfter backjumpable).traced ?_
        fun _ _ _ => trivial
      rintro key stored ⟨⟨punctual, usable⟩, stores⟩
      refine Ends.bind (punctual.backjump usable).traced ?_ fun _ _ _ => trivial
      rintro kind returned ⟨_, returns⟩
      obtain ⟨_, learning, unlearned⟩ :=
        poised.returned violated explains nonempty stores returns
      exact Ends.bind (unlearned.learn learning) (fun _ _ watches => unlearned.tended watches)
        fun _ _ _ => trivial

theorem searchRound (poised : origin.Poised solver) (fuel time : Nat) :
    Ends (Solver.searchRound fuel time) solver (fun _ rest => rest.Tended) fun _ _ => True := by
  have entered : origin.Poised (enteringRound time solver) := poised.counting _
  unfold Solver.searchRound
  refine (ends_known rfl).mpr (ends_get_bind.mpr ?_)
  split
  · exact entered.tended
  · refine Ends.bind ((entered.punctual.propagate fuel).and
      (entered.tended.adding (adding_propagate fuel))) ?_ fun _ _ _ => trivial
    rintro answer closed ⟨⟨punctual, closes⟩, tended⟩
    cases answer with
    | some conflict => exact (entered.next punctual tended).resolveConflict closes.1 fuel
    | none => exact (tended.adding adding_extendOrReport).mono (fun _ _ => id) fun _ _ _ => trivial

end Poised

end Solver

open Solver

variable {τ : Type} [TheoryAtom τ] {fuel : Nat} {origin solver : Solver τ} {conflict : ClauseKey}

theorem RoundBegins.poised (begins : RoundBegins fuel origin solver)
    (begun : origin.Poised origin) :
    origin.Poised solver := by
  induction begins with
  | first => exact begun.told (told_status origin .solving)
  | next begins went poised =>
      exact poised.next ((poised.punctual.searchRound fuel _).of_ok went)
        ((poised.searchRound fuel _).of_ok went)

/-- Nothing has come late when a conflict is met, and all clauses are watched. -/
theorem Clocked.met (clocked : Clocked fuel origin (.resolveConflict conflict) solver)
    (begun : origin.Poised origin) : origin.Poised solver ∧ solver.Violates conflict := by
  cases clocked with
  | call clocked calls =>
      cases calls with
      | resolveConflict early violated =>
          have poised := clocked.roundBegins.poised begun
          have closed := ((poised.counting _).punctual.propagate fuel).of_ok violated
          have tended :=
            ((poised.counting _).tended.adding (adding_propagate fuel)).of_ok violated
          exact ⟨poised.next closed.1 tended, closed.2.1⟩

/-! ## Searches from the beginning -/

namespace Solver

theorem poised_stated {configuration : Configuration} (stated : Stated configuration origin)
    (atomless : origin.theoryAtoms = #[]) (learning : configuration.learning = true) :
    origin.Poised origin where
  punctual := punctual_stated stated atomless
  tended := by
    intro key stored present
    have known := ClauseStore.clause?_eq_some.mpr ⟨stored, present, rfl⟩
    obtain ⟨again, presentAgain, watched, _⟩ := stated.ready.watched key stored.clause known
    rw [Option.some.inj (present.symm.trans presentAgain)]
    exact watched
  learning := by rw [stated.ready.configured, learning]

/-- Without theory atoms, and with learning, no stored clause is within a clause that an
analysis comes to, unless that is empty.  So what is derived at a conflict is stored under
a new key, is not watched when it is to be learned, and gets a new watch set. -/
theorem nothing_learned_twice {configuration : Configuration}
    (stated : Stated configuration origin) (atomless : origin.theoryAtoms = #[])
    (learning : configuration.learning = true) (fuel : Nat) :
    (∀ conflict state, Clocked fuel origin (.explain conflict) state →
      Ends (explain fuel conflict) state
        (fun explanation _ => explanation.isEmpty = true ∨ state.Novel explanation)
        fun fault _ => fault = .outOfFuel ∧ fuel ≤ state.trail.size) ∧
    (∀ conflict explanation state,
      Clocked fuel origin (.storeExplanation conflict explanation) state →
        state.Novel explanation ∧
          Ends (storeExplanation conflict explanation) state
            (fun key _ => state.clauses.stored? key = none) fun _ _ => False) ∧
    ∀ key state, Clocked fuel origin (.learn key) state →
      ∃ clause, state.Unlearned key clause ∧
        (state.clauses.watches.add key clause.literals).1 = true ∧
        Ends (learn key) state (fun _ rest => rest.clauses = state.clauses.watch key)
          fun _ _ => False := by
  have begun := poised_stated stated atomless learning
  refine ⟨?_, ?_, ?_⟩
  · rintro conflict state (_ | _ | ⟨clocked, calls⟩)
    cases calls with
    | explain =>
        obtain ⟨poised, violated⟩ := clocked.met begun
        exact ((poised.counting _).explains violated fuel).mono
          (fun _ _ ends => ends.2.2.imp_right And.right) fun _ _ => id
  · rintro conflict explanation state (_ | _ | ⟨clocked, calls⟩)
    cases calls with
    | storeExplanation explains nonempty =>
        obtain ⟨poised, violated⟩ := clocked.met begun
        obtain ⟨poised, violated, backjumpable⟩ := poised.explained violated explains nonempty
        exact ⟨poised.novel backjumpable, (poised.storeExplanation violated backjumpable).mono
          (fun _ _ ends => ends.1) fun _ _ => id⟩
  · rintro key state (_ | _ | ⟨clocked, calls⟩)
    cases calls with
    | learn explains nonempty stores returns =>
        obtain ⟨poised, violated⟩ := clocked.met begun
        obtain ⟨punctual, learns, unlearned⟩ :=
          poised.returned violated explains nonempty stores returns
        have indexed := punctual.valid.reached.indexed stated.indexed
        exact ⟨_, unlearned, unlearned.fresh indexed, unlearned.learn learns⟩

end Solver

/-! ## What is learned from a clash -/

/-- The clash that the second round of the search finds. -/
def clashingMeet : Solver Empty :=
  left (Solver.propagate 10) (Solver.enteringRound 0 clashingRound)

/-- What the search learns from it. -/
def clashingLesson : Clause := Clause.ofList [⟨.var 0, true⟩]

/-- The clash has been analysed, but what it shows is not stored. -/
def clashingAnalysis : Solver Empty :=
  left (Solver.explain 10 1) (Solver.enteringConflict clashingMeet)

/-- The search has jumped back. -/
def clashingReturn : Solver Empty :=
  left (Solver.backjump 2) (left (Solver.storeExplanation 1 clashingLesson) clashingAnalysis)

/-- The clash teaches that `p` is true, which no clause of the formula says. -/
theorem clashingFormula_learned :
    Clocked 10 clashingFormula (.explain 1) (Solver.enteringConflict clashingMeet) ∧
    Clocked 10 clashingFormula (.storeExplanation 1 clashingLesson) clashingAnalysis ∧
    Clocked 10 clashingFormula (.learn 2) clashingReturn ∧
    (Solver.enteringConflict clashingMeet).Novel clashingLesson ∧
    clashingAnalysis.Novel clashingLesson ∧
    clashingReturn.Unlearned 2 clashingLesson ∧
    (clashingReturn.clauses.watches.add 2 clashingLesson.literals).1 = true := by
  have went : answer? (Solver.searchRound 10 0)
      { clashingFormula with status := .solving } = some none := by decide +kernel
  have early : Solver.isTimeUp (Solver.enteringRound 0 clashingRound) = false := by
    decide +kernel
  have found : answer? (Solver.propagate 10) (Solver.enteringRound 0 clashingRound) =
      some (some 1) := by decide +kernel
  have explains : answer? (Solver.explain 10 1) (Solver.enteringConflict clashingMeet) =
      some clashingLesson := by decide +kernel
  have stores : answer? (Solver.storeExplanation 1 clashingLesson) clashingAnalysis = some 2 := by
    decide +kernel
  have returns : answer? (Solver.backjump 2)
      (left (Solver.storeExplanation 1 clashingLesson) clashingAnalysis) =
        some .uniqueImplication := by decide +kernel
  have begins : RoundBegins 10 clashingFormula clashingRound :=
    .next (.first stated_clashingFormula.ready.unsettled) (ok_of_answer went)
  have met : Clocked 10 clashingFormula (.resolveConflict 1) clashingMeet :=
    .call (.round begins 0) (.resolveConflict early (ok_of_answer found))
  have explained : Clocked 10 clashingFormula (.explain 1)
      (Solver.enteringConflict clashingMeet) := .call met .explain
  have stored : Clocked 10 clashingFormula (.storeExplanation 1 clashingLesson)
      clashingAnalysis := .call met (.storeExplanation (ok_of_answer explains) rfl)
  have returned : Clocked 10 clashingFormula (.learn 2) clashingReturn :=
    .call met (.learn (ok_of_answer explains) rfl (ok_of_answer stores) (ok_of_answer returns))
  obtain ⟨novel, derived, learned⟩ :=
    Solver.nothing_learned_twice stated_clashingFormula rfl rfl 10
  have fresh := ((novel 1 _ explained).of_ok (ok_of_answer explains)).resolve_left nofun
  obtain ⟨clause, unlearned, alone, _⟩ := learned 2 _ returned
  obtain rfl : clause = clashingLesson := by
    have kept : clashingReturn.clauses.clause? 2 = some clashingLesson := by decide +kernel
    rw [ClauseStore.clause?, unlearned.stored] at kept
    exact Option.some.inj kept
  exact ⟨explained, stored, returned, fresh, (derived 1 _ _ stored).1, unlearned, alone⟩

end ModelSearch
