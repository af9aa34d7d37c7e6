import ModelSearch.Proofs.Conflicts.Resolving

/-!
# Values given in time

A value that follows from a clause is in time if it is given at the greatest level of
the clause's other literals.  None is late as long as each watched clause is at rest
below the current level: one of its literals is true there, or two are not false.  A
level is opened only when the clauses are at rest at the current one, and a clause that
asserted a literal has another one at the level of the jump.
-/

namespace ModelSearch

/-- The greatest level of some literals, zero if none of them has a value. -/
def Trail.height (trail : Trail) (literals : List Literal) : Nat :=
  (literals.filterMap fun literal => trail.level? literal.atom).foldl max 0

theorem Trail.height_eq_iff {trail : Trail} {literals : List Literal} {height : Nat} :
    trail.height literals = height ↔
      (∀ literal ∈ literals, ∀ level, trail.level? literal.atom = some level → level ≤ height) ∧
        (height = 0 ∨ ∃ literal ∈ literals, trail.level? literal.atom = some height) := by
  obtain ⟨attained, _, bounded⟩ :=
    foldl_max_spec (literals.filterMap fun literal => trail.level? literal.atom) 0
  have member : ∀ level, level ∈ (literals.filterMap fun literal => trail.level? literal.atom) ↔
      ∃ literal ∈ literals, trail.level? literal.atom = some level := fun _ => List.mem_filterMap
  constructor
  · rintro rfl
    refine ⟨fun literal inside level levelled => ?_, attained.imp_right (member _).mp⟩
    exact bounded level ((member level).mpr ⟨literal, inside, levelled⟩)
  · rintro ⟨above, reached⟩
    refine Nat.le_antisymm ?_ ?_
    · rcases attained with zero | inside
      · exact (Nat.le_of_eq zero).trans (Nat.zero_le _)
      · obtain ⟨literal, inside, levelled⟩ := (member _).mp inside
        exact above literal inside _ levelled
    · rcases reached with rfl | some
      · exact Nat.zero_le _
      · exact bounded _ ((member _).mpr some)

namespace Assignment

variable {assignment later : Assignment} {clause : Clause} {literal : Literal} {level : Nat}
  {key : ClauseKey}

/-! ## Clauses at rest -/

/-- The literal is true, at the level or below. -/
def HoldsBy (assignment : Assignment) (level : Nat) (literal : Literal) : Prop :=
  ∃ entry, assignment.trail.get? literal.atom = some entry ∧ entry.level ≤ level ∧
    entry.value = .boolean literal.polarity

/-- The literal is false, at the level or below. -/
def FailsBy (assignment : Assignment) (level : Nat) (literal : Literal) : Prop :=
  ∃ entry, assignment.trail.get? literal.atom = some entry ∧ entry.level ≤ level ∧
    entry.value = .boolean !literal.polarity

/-- By the values at the level and below the clause is neither unit nor violated. -/
def RestsBy (assignment : Assignment) (level : Nat) (clause : Clause) : Prop :=
  (∃ literal ∈ clause, assignment.HoldsBy level literal) ∨
    ∃ first ∈ clause, ∃ second ∈ clause, first ≠ second ∧
      ¬assignment.FailsBy level first ∧ ¬assignment.FailsBy level second

/-- Only the values at the level and below matter. -/
theorem RestsBy.congr (rests : assignment.RestsBy level clause)
    (same : ∀ atom entry, entry.level ≤ level →
      (later.trail.get? atom = some entry ↔ assignment.trail.get? atom = some entry)) :
    later.RestsBy level clause := by
  rcases rests with ⟨literal, member, entry, found, low, value⟩ |
    ⟨first, firstMember, second, secondMember, different, notFirst, notSecond⟩
  · exact .inl ⟨literal, member, entry, (same _ entry low).mpr found, low, value⟩
  · have former : ∀ literal, later.FailsBy level literal → assignment.FailsBy level literal :=
      fun literal ⟨entry, found, low, value⟩ => ⟨entry, (same _ entry low).mp found, low, value⟩
    exact .inr ⟨first, firstMember, second, secondMember, different, mt (former first) notFirst,
      mt (former second) notSecond⟩

theorem Falsifies.not_holdsBy (falsified : assignment.Falsifies literal) (level : Nat) :
    ¬assignment.HoldsBy level literal := by
  rintro ⟨entry, found, _, value⟩
  obtain ⟨again, foundAgain, opposite⟩ := falsified.entry
  rw [Option.some.inj (found.symm.trans foundAgain), opposite] at value
  exact Bool.not_ne_self _ (Value.boolean.inj value)

/-- A false literal that is not false below the current level is false there. -/
theorem Falsifies.level?_eq (falsified : assignment.Falsifies literal)
    (sound : assignment.trail.Sound) (positive : 0 < assignment.trail.level)
    (lately : ¬assignment.FailsBy (assignment.trail.level - 1) literal) :
    assignment.trail.level? literal.atom = some assignment.trail.level := by
  obtain ⟨entry, found, value⟩ := falsified.entry
  have bounded := sound.level_le found
  refine Trail.level?_eq_some.mpr ⟨entry, found, Nat.le_antisymm bounded ?_⟩
  by_contra below
  exact lately ⟨entry, found, by omega, value⟩

theorem Falsifies.atom_ne {first second : Literal} (firstFalse : assignment.Falsifies first)
    (secondFalse : assignment.Falsifies second) (different : first ≠ second) :
    first.atom ≠ second.atom := by
  intro same
  refine different ?_
  unfold Falsifies at firstFalse secondFalse
  rw [same, secondFalse] at firstFalse
  have opposite := Option.some.inj firstFalse
  cases first
  cases second
  simp_all

/-! ## Entries in time -/

/-- The entry makes a literal of the clause true, at the greatest level of the others,
which all have values. -/
def InTime (assignment : Assignment) (atom : Atom) (entry : Entry) (key : ClauseKey) : Prop :=
  ∃ clause literal, assignment.clauses.clause? key = some clause ∧ literal ∈ clause ∧
    literal.atom = atom ∧ entry.value = .boolean literal.polarity ∧
    (∀ other ∈ clause, other ≠ literal →
      ∃ level, assignment.trail.level? other.atom = some level) ∧
    entry.level = assignment.trail.height (clause.literals.filter fun other => other ≠ literal)

/-- Every entry that follows from a clause is in time. -/
def Timely (assignment : Assignment) : Prop :=
  ∀ atom entry key, assignment.trail.get? atom = some entry → entry.reason = .clause key →
    assignment.InTime atom entry key

/-- The clause is violated, and two of its literals became false at the current
level. -/
def Torn (assignment : Assignment) (key : ClauseKey) : Prop :=
  ∃ clause, assignment.clauses.clause? key = some clause ∧
    (∀ literal ∈ clause, assignment.Falsifies literal) ∧
    ∃ first ∈ clause, ∃ second ∈ clause, first.atom ≠ second.atom ∧
      assignment.trail.level? first.atom = some assignment.trail.level ∧
      assignment.trail.level? second.atom = some assignment.trail.level

theorem mem_others {other : Literal} :
    other ∈ (clause.literals.filter fun other => other ≠ literal) ↔
      other ∈ clause ∧ other ≠ literal := by
  rw [List.mem_filter, decide_eq_true_iff]
  rfl

/-- An entry stays in time as long as the clause and the entries below stand. -/
theorem InTime.mono {atom : Atom} {entry : Entry} (inTime : assignment.InTime atom entry key)
    (clauses : ∀ clause, assignment.clauses.clause? key = some clause →
      later.clauses.clause? key = some clause)
    (entries : ∀ lower lowerEntry, assignment.trail.get? lower = some lowerEntry →
      lowerEntry.level ≤ entry.level → later.trail.get? lower = some lowerEntry) :
    later.InTime atom entry key := by
  obtain ⟨clause, literal, stored, member, same, value, valued, level⟩ := inTime
  obtain ⟨bounded, attained⟩ := Trail.height_eq_iff.mp level.symm
  have kept : ∀ other ∈ clause, other ≠ literal →
      later.trail.level? other.atom = assignment.trail.level? other.atom := by
    intro other inside different
    obtain ⟨height, levelled⟩ := valued other inside different
    obtain ⟨otherEntry, found, rfl⟩ := Trail.level?_eq_some.mp levelled
    have low := bounded other (mem_others.mpr ⟨inside, different⟩) _ levelled
    rw [levelled, Trail.level?_eq_some]
    exact ⟨otherEntry, entries _ _ found low, rfl⟩
  refine ⟨clause, literal, clauses clause stored, member, same, value, ?_, ?_⟩
  · intro other inside different
    rw [kept other inside different]
    exact valued other inside different
  · refine (Trail.height_eq_iff.mpr ⟨fun other inside => ?_, ?_⟩).symm
    · rw [kept other (mem_others.mp inside).1 (mem_others.mp inside).2]
      exact bounded other inside
    · refine attained.imp_right fun ⟨other, inside, levelled⟩ => ⟨other, inside, ?_⟩
      rw [kept other (mem_others.mp inside).1 (mem_others.mp inside).2, levelled]

/-- Entries stay in time while clauses are only added. -/
theorem Timely.congr (timely : assignment.Timely) (trail : later.trail = assignment.trail)
    (clauses : ∀ key clause, assignment.clauses.clause? key = some clause →
      later.clauses.clause? key = some clause) : later.Timely := by
  intro atom entry key found follows
  rw [trail] at found
  refine (timely atom entry key found follows).mono (clauses key) ?_
  rw [trail]
  exact fun _ _ found _ => found

/-- No value has come late, and below the current level none is due. -/
structure Prompt (assignment : Assignment) : Prop where
  timely : assignment.Timely
  resting : ∀ key clause, assignment.clauses.Watched key clause →
    ∀ level < assignment.trail.level, assignment.RestsBy level clause

theorem Prompt.congr (prompt : assignment.Prompt) (trail : later.trail = assignment.trail)
    (clauses : later.clauses = assignment.clauses) : later.Prompt where
  timely := prompt.timely.congr trail fun _ _ stored => by rw [clauses, stored]
  resting key clause watched level below := by
    rw [clauses] at watched
    rw [trail] at below
    exact (prompt.resting key clause watched level below).congr fun _ _ _ => by rw [trail]

/-- No value is due. -/
def Settled (assignment : Assignment) : Prop :=
  ∀ key clause, assignment.clauses.Watched key clause →
    assignment.RestsBy assignment.trail.level clause

/-- A watched clause is violated by two values of the current level. -/
theorem Prompt.torn (prompt : assignment.Prompt) (sound : assignment.trail.Sound)
    (watched : assignment.clauses.Watched key clause)
    (falsified : ∀ literal ∈ clause, assignment.Falsifies literal)
    (positive : 0 < assignment.trail.level) : assignment.Torn key := by
  refine ⟨clause, watched.clause?, falsified, ?_⟩
  rcases prompt.resting key clause watched (assignment.trail.level - 1) (by omega) with
    ⟨literal, member, holds⟩ |
    ⟨first, firstMember, second, secondMember, different, notFirst, notSecond⟩
  · exact absurd holds ((falsified literal member).not_holdsBy _)
  · have firstFalse := falsified first firstMember
    have secondFalse := falsified second secondMember
    exact ⟨first, firstMember, second, secondMember, firstFalse.atom_ne secondFalse different,
      firstFalse.level?_eq sound positive notFirst,
      secondFalse.level?_eq sound positive notSecond⟩

/-- In a watched clause that becomes unit a value of the current level did so. -/
theorem Prompt.latest (prompt : assignment.Prompt) (sound : assignment.trail.Sound)
    (watched : assignment.clauses.Watched key clause)
    (others : ∀ other ∈ clause, other ≠ literal → assignment.Falsifies other)
    (unvalued : assignment.trail.get? literal.atom = none)
    (positive : 0 < assignment.trail.level) :
    ∃ other ∈ clause, other ≠ literal ∧
      assignment.trail.level? other.atom = some assignment.trail.level := by
  have late : ∀ other ∈ clause, other ≠ literal →
      ¬assignment.FailsBy (assignment.trail.level - 1) other →
        assignment.trail.level? other.atom = some assignment.trail.level :=
    fun other member different => (others other member different).level?_eq sound positive
  rcases prompt.resting key clause watched (assignment.trail.level - 1) (by omega) with
    ⟨other, member, holds⟩ |
    ⟨first, firstMember, second, secondMember, different, notFirst, notSecond⟩
  · by_cases same : other = literal
    · obtain ⟨entry, found, _⟩ := holds
      rw [same, unvalued] at found
      cases found
    · exact absurd holds ((others other member same).not_holdsBy _)
  · by_cases same : first = literal
    · have other : second ≠ literal := fun again => different (same.trans again.symm)
      exact ⟨second, secondMember, other, late second secondMember other notSecond⟩
    · exact ⟨first, firstMember, same, late first firstMember same notFirst⟩

/-- If the store finds no clause to act on, all are at rest. -/
theorem Coherent.settled (coherent : assignment.Coherent) (idle : assignment.clauses.units = [])
    (fine : ∀ key clause, assignment.clauses.Watched key clause →
      ¬∀ literal ∈ clause, assignment.Falsifies literal) : assignment.Settled := by
  intro key clause watched
  have failing : ∀ literal, assignment.FailsBy assignment.trail.level literal →
      assignment.Falsifies literal := fun _ ⟨entry, found, _, value⟩ =>
    Trail.truth?_eq_some.mpr ⟨entry, found, value⟩
  by_contra restless
  have untrue : ∀ literal ∈ clause, assignment.trail.literalTruth? literal ≠ some true := by
    intro literal member holds
    obtain ⟨entry, found, value⟩ :=
      Trail.truth?_eq_some.mp (Trail.literalTruth?_eq_some.mp holds)
    rw [beq_true] at value
    exact restless (.inl ⟨literal, member, entry, found, coherent.trail.level_le found, value⟩)
  obtain ⟨first, firstMember, notFalse⟩ : ∃ literal ∈ clause, ¬assignment.Falsifies literal := by
    by_contra none
    exact fine key clause watched fun literal member => by_contra fun notFalse =>
      none ⟨literal, member, notFalse⟩
  -- Were all other literals false, the clause would be unit.
  have unit : (key, first) ∈ assignment.clauses.units := by
    refine coherent.clauses.mem_units.mpr ⟨clause, watched, firstMember, ?_, ?_⟩
    · rw [← Trail.literalTruth?_eq]
      cases truth : assignment.trail.literalTruth? first with
      | none => rfl
      | some given =>
          cases given with
          | true => exact absurd truth (untrue first firstMember)
          | false => exact absurd (falsifies_iff.mpr truth) notFalse
    · intro second secondMember different
      refine falsifies_iff.mp (by_contra fun secondNotFalse => restless (.inr ?_))
      exact ⟨first, firstMember, second, secondMember, different.symm,
        mt (failing first) notFalse, mt (failing second) secondNotFalse⟩
  rw [idle] at unit
  cases unit

end Assignment

namespace Solver

variable {τ : Type} {solver : Solver τ} {atom : Atom} {value : Value} {key : ClauseKey}
  {clause : Clause}

/-! ## Giving values -/

/-- A value leaves all others in time. -/
theorem Timely.given (timely : solver.Timely) (unvalued : solver.trail.get? atom = none)
    {reason : Reason} {level : Nat} (inTime : ∀ key, reason = .clause key →
      (solver.given atom value reason level).InTime atom
        ⟨value, level, reason, solver.trail.position⟩ key) :
    (solver.given atom value reason level).Timely := by
  intro other entry key found follows
  rw [get?_given] at found
  split at found
  · next same =>
      subst same
      cases found
      exact inTime key follows
  · refine (timely other entry key found follows).mono ?_ fun lower lowerEntry lowerFound _ => ?_
    · exact fun clause stored => (clause?_given _ _ _ _ _ _).trans stored
    · rw [get?_given, if_neg (Trail.ne_of_get? unvalued lowerFound), lowerFound]

theorem Timely.opened (timely : solver.Timely) :
    ({ solver with trail := solver.trail.openLevel } : Solver τ).Timely := timely

theorem Timely.chosen (timely : solver.Timely) (unvalued : solver.trail.get? atom = none)
    (value : Value) : (solver.chosen atom value).Timely :=
  Timely.given (Timely.opened timely) unvalued nofun

/-- A value of the current level is above all levels that are to be at rest. -/
theorem Prompt.given (prompt : solver.Prompt) (unvalued : solver.trail.get? atom = none)
    {reason : Reason} (inTime : ∀ key, reason = .clause key →
      (solver.given atom value reason solver.trail.level).InTime atom
        ⟨value, solver.trail.level, reason, solver.trail.position⟩ key) :
    (solver.given atom value reason solver.trail.level).Prompt where
  timely := Timely.given prompt.timely unvalued inTime
  resting key clause watched level below := by
    rw [level_given] at below
    have former := (ClauseStore.watched_congr (stored_given _ _ _ _ _)).mp watched
    refine (prompt.resting key clause former level below).congr fun other entry low => ?_
    rw [get?_given]
    split
    · next same =>
        subst same
        rw [unvalued]
        constructor
        · rintro ⟨⟩
          exact absurd below (Nat.not_lt.mpr low)
        · rintro ⟨⟩
    · exact Iff.rfl

/-- A level may be opened when no value is due. -/
theorem Prompt.chosen (prompt : solver.Prompt) (settled : solver.Settled)
    (sound : solver.trail.Sound) (unvalued : solver.trail.get? atom = none) (value : Value) :
    (solver.chosen atom value).Prompt where
  timely := Timely.chosen prompt.timely unvalued value
  resting key clause watched level below := by
    have top : (solver.chosen atom value).trail.level = solver.trail.level + 1 :=
      (level_given _ _ _ _ _).trans sound.level_openLevel
    rw [top] at below
    have former := (ClauseStore.watched_congr (stored_given _ _ _ _ _)).mp watched
    have rests : solver.RestsBy level clause := by
      rcases Nat.lt_or_eq_of_le (Nat.le_of_lt_succ below) with lower | rfl
      · exact prompt.resting key clause former level lower
      · exact settled key clause former
    refine rests.congr fun other entry low => ?_
    rw [get?_chosen]
    split
    · next same =>
        subst same
        rw [unvalued]
        constructor
        · rintro ⟨⟩
          have high := sound.level_openLevel
          simp only at low
          omega
        · rintro ⟨⟩
    · exact Iff.rfl

/-- The literal is the last of its clause that is not false, and above level zero the
clause was not unit before the current level. -/
def Due (solver : Solver τ) (key : ClauseKey) (literal : Literal) : Prop :=
  ∃ clause, solver.clauses.clause? key = some clause ∧ literal ∈ clause ∧
    (∀ other ∈ clause, other ≠ literal → solver.Falsifies other) ∧
    (solver.trail.get? literal.atom = none → 0 < solver.trail.level →
      ∃ other ∈ clause, other ≠ literal ∧
        solver.trail.level? other.atom = some solver.trail.level)

theorem Due.inTime {literal : Literal} (due : solver.Due key literal)
    (sound : solver.trail.Sound) (unvalued : solver.trail.get? literal.atom = none) :
    (solver.given literal.atom (.boolean literal.polarity) (.clause key)
      solver.trail.level).InTime literal.atom
        ⟨.boolean literal.polarity, solver.trail.level, .clause key, solver.trail.position⟩
          key := by
  obtain ⟨clause, stored, member, others, latest⟩ := due
  have kept : ∀ other level, solver.trail.level? other = some level →
      (solver.given literal.atom (.boolean literal.polarity) (.clause key)
        solver.trail.level).trail.level? other = some level := by
    intro other level levelled
    obtain ⟨entry, found, same⟩ := Trail.level?_eq_some.mp levelled
    rw [Trail.level?_eq_some, get?_given, if_neg (Trail.ne_of_get? unvalued found)]
    exact ⟨entry, found, same⟩
  have valued : ∀ other ∈ clause, other ≠ literal → ∃ level ≤ solver.trail.level,
      (solver.given literal.atom (.boolean literal.polarity) (.clause key)
        solver.trail.level).trail.level? other.atom = some level := by
    intro other inside different
    obtain ⟨entry, found, _⟩ := (others other inside different).entry
    exact ⟨entry.level, sound.level_le found,
      kept _ _ (Trail.level?_eq_some.mpr ⟨entry, found, rfl⟩)⟩
  refine ⟨clause, literal, (clause?_given _ _ _ _ _ _).trans stored, member, rfl, rfl, ?_, ?_⟩
  · intro other inside different
    obtain ⟨level, _, levelled⟩ := valued other inside different
    exact ⟨level, levelled⟩
  · refine (Trail.height_eq_iff.mpr ⟨fun other inside level levelled => ?_, ?_⟩).symm
    · obtain ⟨member, different⟩ := Assignment.mem_others.mp inside
      obtain ⟨own, low, again⟩ := valued other member different
      rw [Option.some.inj (levelled.symm.trans again)]
      exact low
    · rcases Nat.eq_zero_or_pos solver.trail.level with zero | positive
      · exact .inl zero
      · obtain ⟨other, inside, different, levelled⟩ := latest unvalued positive
        exact .inr ⟨other, Assignment.mem_others.mpr ⟨inside, different⟩, kept _ _ levelled⟩

/-! ## Jumping back, storing and watching -/

theorem Prompt.jumped (prompt : solver.Prompt) (coherent : solver.toAssignment.Coherent)
    (target : Nat) (kind : BackjumpKind) : (solver.jumped target kind).Prompt where
  timely atom entry key found follows := by
    obtain ⟨former, low⟩ := (get?_jumped coherent).mp found
    refine (prompt.timely atom entry key former follows).mono
      (fun clause => (clause?_jumped coherent _ _ _).trans) ?_
    intro lower lowerEntry lowerFound below
    exact (get?_jumped coherent).mpr ⟨lowerFound, below.trans low⟩
  resting key clause watched level below := by
    rw [trail_jumped coherent, coherent.trail.level_clearAbove] at below
    have former :=
      (ClauseStore.watched_congr (coherent.unsetAbove target).formula.clauses).mp watched
    refine (prompt.resting key clause former level (below.trans_le (Nat.min_le_right _ _))).congr
      fun other entry low => ?_
    rw [get?_jumped coherent]
    exact and_iff_left (low.trans (Nat.le_of_lt (below.trans_le (Nat.min_le_left _ _))))

/-- A clause may be stored without being watched. -/
theorem Prompt.stored (prompt : solver.Prompt) (clause : Clause) (source : ClauseSource) :
    ({ solver with clauses := (solver.clauses.store clause source).2 } : Solver τ).Prompt where
  timely := prompt.timely.congr rfl fun key former present => by
    rw [ClauseStore.clause?, ClauseStore.stored?_store,
      if_neg (Nat.ne_of_lt (ClauseStore.clause?_lt present))]
    exact present
  resting key other watched := by
    obtain ⟨stored, present, isWatched, rfl⟩ := watched
    rw [ClauseStore.stored?_store] at present
    split at present
    · rw [← Option.some.inj present] at isWatched
      cases isWatched
    · exact prompt.resting key _ ⟨stored, present, isWatched, rfl⟩

/-- A clause may be watched if it is at rest below the current level. -/
theorem Prompt.watch (prompt : solver.Prompt)
    (rests : ∀ clause, solver.clauses.clause? key = some clause →
      ∀ level < solver.trail.level, solver.RestsBy level clause) :
    ({ solver with clauses := solver.clauses.watch key } : Solver τ).Prompt where
  timely := prompt.timely.congr rfl fun other clause => (ClauseStore.clause?_watch _ _ _).trans
  resting other clause watched := by
    by_cases same : other = key
    · subst same
      exact rests clause ((ClauseStore.clause?_watch _ _ _).symm.trans watched.clause?)
    · obtain ⟨stored, present, isWatched, rfl⟩ := watched
      refine prompt.resting other _ ?_
      rw [ClauseStore.stored?_watch] at present
      obtain ⟨former, found, rfl⟩ := Option.map_eq_some_iff.mp present
      rw [if_neg (Ne.symm same)] at isWatched ⊢
      exact ⟨former, found, isWatched, rfl⟩

end Solver

end ModelSearch
