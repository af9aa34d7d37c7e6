import ModelSearch.Proofs.Steps.Changes

/-!
# Invariants of the steps

Every step leaves the problem as it is, keeps the stores in line with the trail,
and keeps every reason a reason: a level opens with its only choice, and a value
that follows from a clause was given after all other literals of the clause had
become false.  If hooks are careful, all values stay in their sorts as well.
-/

namespace ModelSearch

variable {τ : Type} [TheoryAtom τ] {rules : Rules τ} {jumping : Bool} {before after : Solver τ}

theorem Step.continues (step : Step rules jumping before after) (coherent : before.Coherent) :
    before.Continues after :=
  (step.change coherent).continues coherent

theorem Step.coherent (step : Step rules jumping before after) (coherent : before.Coherent) :
    after.Coherent :=
  (step.change coherent).coherent coherent

theorem Step.watched (step : Step rules jumping before after) (coherent : before.Coherent)
    {key : ClauseKey} {clause : Clause} (watched : before.clauses.Watched key clause) :
    after.clauses.Watched key clause :=
  (step.change coherent).watched coherent watched

theorem Step.sorted (step : Step rules jumping before after) (coherent : before.Coherent)
    (orderly : before.Orderly rules) : after.Sorted :=
  (step.change coherent).sorted coherent orderly

/-! ## What is new after a step -/

/-- An entry is old, or a choice that opens a level, or has grounds. -/
theorem Step.entry (step : Step rules jumping before after) (coherent : before.Coherent)
    {atom : Atom} {entry : Entry} (found : after.trail.get? atom = some entry) :
    before.trail.get? atom = some entry ∨
      (Warrant rules before atom entry.value ∧ entry.reason = .decided ∧
        entry.level = before.trail.level + 1) ∨
      Grounds rules before atom entry.value entry.reason entry.level := by
  cases step with
  | tell assignment theoryAtoms configuration splits =>
      rw [assignment] at found
      exact .inl found
  | requeue sound same => exact .inl found
  | choose free warrant =>
      rw [Solver.get?_chosen] at found
      split at found
      · next same =>
          subst same
          cases found
          exact .inr (.inl ⟨warrant, rfl, coherent.assignment.trail.level_openLevel⟩)
      · exact .inl found
  | give free grounds =>
      rw [Solver.get?_given] at found
      split at found
      · next same =>
          subst same
          cases found
          exact .inr (.inr grounds)
      · exact .inl found
  | learn allowed fitting => exact .inl found
  | store derived => exact .inl found
  | watch key => exact .inl found
  | jump allowed kind below splitting =>
      exact .inl ((Solver.get?_jumped coherent.assignment).mp found).1

/-- A stored clause is old, or learnt from a hook, or derived. -/
theorem Step.clause (step : Step rules jumping before after) (coherent : before.Coherent)
    {key : ClauseKey} {clause : Clause} (stored : after.clauses.clause? key = some clause) :
    before.clauses.clause? key = some clause ∨
      (Solver.clauseError? before clause = none ∧ ∃ owner, rules.learn before owner clause) ∨
      before.Derives clause := by
  cases step with
  | tell assignment theoryAtoms configuration splits =>
      rw [assignment] at stored
      exact .inl stored
  | requeue sound same => exact .inl stored
  | choose free warrant => exact .inl ((Solver.clause?_chosen _ _ _ _).symm.trans stored)
  | give free grounds => exact .inl ((Solver.clause?_given _ _ _ _ _ _).symm.trans stored)
  | learn allowed fitting =>
      obtain ⟨entry, found, rfl⟩ := ClauseStore.clause?_eq_some.mp stored
      rw [ClauseStore.stored?_add] at found
      split at found
      · rw [← Option.some.inj found]
        exact .inr (.inl ⟨fitting, _, allowed⟩)
      · exact .inl (ClauseStore.clause?_eq_some.mpr ⟨_, found, rfl⟩)
  | store derived =>
      obtain ⟨entry, found, rfl⟩ := ClauseStore.clause?_eq_some.mp stored
      rw [ClauseStore.stored?_store] at found
      split at found
      · rw [← Option.some.inj found]
        exact .inr (.inr derived)
      · exact .inl (ClauseStore.clause?_eq_some.mpr ⟨_, found, rfl⟩)
  | watch other => exact .inl ((ClauseStore.clause?_watch _ _ _).symm.trans stored)
  | jump allowed kind below splitting =>
      exact .inl ((Solver.clause?_jumped coherent.assignment _ _ _).symm.trans stored)

/-! ## Reasons -/

namespace Solver

/-- The entry made a literal of the clause true after all others had become
false, at its level or below. -/
def Explained (solver : Solver τ) (atom : Atom) (entry : Entry) (key : ClauseKey) : Prop :=
  ∃ clause literal, solver.clauses.clause? key = some clause ∧ literal ∈ clause ∧
    literal.atom = atom ∧ entry.value = .boolean literal.polarity ∧
    ∀ other ∈ clause, other ≠ literal → ∃ otherEntry,
      solver.trail.get? other.atom = some otherEntry ∧
      otherEntry.value = .boolean !other.polarity ∧
      otherEntry.level ≤ entry.level ∧ otherEntry.position < entry.position

/-- A level other than the lowest opens with its only choice, and values that
follow from a clause have been explained. -/
structure Reasoned (solver : Solver τ) : Prop where
  led : ∀ level, 0 < level → level ≤ solver.trail.level → ∃ atom,
    (solver.trail.atomsAt level).head? = some atom ∧ solver.trail.reason? atom = some .decided
  leading : ∀ atom entry, solver.trail.get? atom = some entry → entry.reason = .decided →
    0 < entry.level ∧ (solver.trail.atomsAt entry.level).head? = some atom
  explained : ∀ atom entry key, solver.trail.get? atom = some entry →
    entry.reason = .clause key → solver.Explained atom entry key

omit [TheoryAtom τ] in
/-- An explanation stands as long as the clause and the entries below stand. -/
theorem Explained.mono {solver other : Solver τ} {atom : Atom} {entry : Entry} {key : ClauseKey}
    (explained : solver.Explained atom entry key)
    (clauses : ∀ clause, solver.clauses.clause? key = some clause →
      other.clauses.clause? key = some clause)
    (entries : ∀ lower lowerEntry, solver.trail.get? lower = some lowerEntry →
      lowerEntry.level ≤ entry.level → other.trail.get? lower = some lowerEntry) :
    other.Explained atom entry key := by
  obtain ⟨clause, literal, stored, member, same, value, others⟩ := explained
  refine ⟨clause, literal, clauses clause stored, member, same, value, ?_⟩
  intro lower inside different
  obtain ⟨lowerEntry, found, falsified, level, position⟩ := others lower inside different
  exact ⟨lowerEntry, entries _ _ found level, falsified, level, position⟩

omit [TheoryAtom τ] in
theorem Reasoned.congr {solver other : Solver τ} (reasoned : solver.Reasoned)
    (trail : other.trail = solver.trail)
    (clauses : ∀ key clause, solver.clauses.clause? key = some clause →
      other.clauses.clause? key = some clause) : other.Reasoned where
  led := by
    rw [trail]
    exact reasoned.led
  leading := by
    rw [trail]
    exact reasoned.leading
  explained atom entry key found reason := by
    rw [trail] at found
    refine (reasoned.explained atom entry key found reason).mono (clauses key) ?_
    rw [trail]
    exact fun _ _ found _ => found

theorem Reasoned.given {solver : Solver τ} (reasoned : solver.Reasoned)
    (coherent : solver.Coherent) {atom : Atom} {value : Value} {reason : Reason} {level : Nat}
    (free : solver.Free atom) (grounds : Grounds rules solver atom value reason level) :
    (solver.given atom value reason level).Reasoned := by
  have sound := coherent.assignment.trail
  have isOpen := grounds.level_le sound
  have kept : ∀ {other entry}, solver.trail.get? other = some entry →
      (solver.given atom value reason level).trail.get? other = some entry :=
    kept_given free value reason level
  have headed : ∀ {other leader}, (solver.trail.atomsAt other).head? = some leader →
      ((solver.given atom value reason level).trail.atomsAt other).head? = some leader := by
    intro other leader first
    show ((solver.trail.push atom value reason level).atomsAt other).head? = some leader
    rw [sound.atomsAt_push isOpen]
    split
    · rw [List.head?_append, first]
      rfl
    · exact first
  have justified : reason ≠ .decided := by
    cases grounds <;> rintro ⟨⟩
  -- Levels keep their leaders; a value that follows from a clause is explained by it.
  refine ⟨?_, ?_, ?_⟩
  · intro other positive below
    rw [level_given] at below
    obtain ⟨leader, first, decided⟩ := reasoned.led other positive below
    obtain ⟨entry, found, decided⟩ := Option.map_eq_some_iff.mp decided
    exact ⟨leader, headed first, Option.map_eq_some_iff.mpr ⟨entry, kept found, decided⟩⟩
  · intro other entry found decided
    rw [get?_given] at found
    split at found
    · rw [← Option.some.inj found] at decided
      exact absurd decided justified
    · obtain ⟨positive, first⟩ := reasoned.leading other entry found decided
      exact ⟨positive, headed first⟩
  · intro other entry key found follows
    rw [get?_given] at found
    split at found
    · next same =>
        subst same
        cases found
        cases grounds with
        | @clause ownKey clause literal stored member others =>
            obtain rfl := Reason.clause.inj follows
            refine ⟨clause, literal, (clause?_given _ _ _ _ _ _).trans stored, member, rfl, rfl, ?_⟩
            intro lower inside different
            obtain ⟨lowerEntry, lowerFound, falsified⟩ := (others lower inside different).entry
            exact ⟨lowerEntry, kept lowerFound, falsified, sound.level_le lowerFound,
              sound.numbered _ _ lowerFound⟩
        | evaluation present evaluated valued => cases follows
        | request allowed => cases follows
    · refine (reasoned.explained other entry key found follows).mono ?_
        fun _ _ found _ => kept found
      exact fun clause stored => (clause?_given _ _ _ _ _ _).trans stored

theorem Reasoned.chosen {solver : Solver τ} (reasoned : solver.Reasoned)
    (coherent : solver.Coherent) {atom : Atom} (free : solver.Free atom) (value : Value) :
    (solver.chosen atom value).Reasoned := by
  have sound := coherent.assignment.trail
  have top := sound.level_openLevel
  have atoms := atomsAt_chosen sound atom value
  -- The new level is led by the choice, and nothing new follows from a clause.
  refine ⟨?_, ?_, ?_⟩
  · intro other positive below
    have below : other ≤ solver.trail.level + 1 := by
      rw [← top]
      exact below.trans (Nat.le_of_eq (level_given _ _ _ _ _))
    by_cases last : solver.trail.level + 1 = other
    · refine ⟨atom, by rw [atoms, if_pos last, List.head?_cons], ?_⟩
      rw [Trail.reason?, get?_chosen, if_pos rfl]
      rfl
    · obtain ⟨leader, first, decided⟩ := reasoned.led other positive (by omega)
      obtain ⟨entry, found, decided⟩ := Option.map_eq_some_iff.mp decided
      refine ⟨leader, by rw [atoms, if_neg last, first], ?_⟩
      exact Option.map_eq_some_iff.mpr ⟨entry, kept_chosen free value found, decided⟩
  · intro other entry found decided
    rw [get?_chosen] at found
    split at found
    · next same =>
        subst same
        rw [← Option.some.inj found, top]
        exact ⟨Nat.succ_pos _, by rw [atoms, if_pos rfl, List.head?_cons]⟩
    · obtain ⟨positive, first⟩ := reasoned.leading other entry found decided
      refine ⟨positive, ?_⟩
      have below := sound.level_le found
      rw [atoms, if_neg (by omega), first]
  · intro other entry key found follows
    rw [get?_chosen] at found
    split at found
    · rw [← Option.some.inj found] at follows
      cases follows
    · refine (reasoned.explained other entry key found follows).mono ?_
        fun _ _ found _ => kept_chosen free value found
      exact fun clause stored => (clause?_chosen _ _ _ _).trans stored

omit [TheoryAtom τ] in
theorem Reasoned.jumped {solver : Solver τ} (reasoned : solver.Reasoned)
    (coherent : solver.toAssignment.Coherent) (level : Nat) (kind : BackjumpKind) :
    (solver.jumped level kind).Reasoned := by
  have sound := coherent.trail
  have trail := trail_jumped coherent level kind
  have kept : ∀ {atom entry}, solver.trail.get? atom = some entry → entry.level ≤ level →
      (solver.jumped level kind).trail.get? atom = some entry := fun found low =>
    (get?_jumped coherent).mpr ⟨found, low⟩
  have former : ∀ {atom entry}, (solver.jumped level kind).trail.get? atom = some entry →
      solver.trail.get? atom = some entry ∧ entry.level ≤ level := (get?_jumped coherent).mp
  -- What an entry rests on is at its level or below, so it stays if the entry does.
  refine ⟨?_, ?_, ?_⟩
  · intro height positive below
    rw [trail, sound.level_clearAbove] at below
    have low : height ≤ level := below.trans (Nat.min_le_left _ _)
    obtain ⟨leader, first, decided⟩ :=
      reasoned.led height positive (below.trans (Nat.min_le_right _ _))
    have inside := (sound.listed leader height).mp (List.mem_of_head? first)
    obtain ⟨entry, found, rfl⟩ := Trail.level?_eq_some.mp inside
    refine ⟨leader, ?_, ?_⟩
    · rw [trail, Trail.atomsAt_clearAbove, if_pos low, first]
    · rw [Trail.reason?, kept found low]
      rw [Trail.reason?, found] at decided
      exact decided
  · intro atom entry found decided
    obtain ⟨found, low⟩ := former found
    obtain ⟨positive, first⟩ := reasoned.leading atom entry found decided
    exact ⟨positive, by rw [trail, Trail.atomsAt_clearAbove, if_pos low, first]⟩
  · intro atom entry key found follows
    obtain ⟨found, low⟩ := former found
    exact (reasoned.explained atom entry key found follows).mono
      (fun clause => (clause?_jumped coherent _ _ _).trans) fun _ _ lowerFound lower =>
        kept lowerFound (lower.trans low)

end Solver

theorem Step.reasoned (step : Step rules jumping before after) (coherent : before.Coherent)
    (reasoned : before.Reasoned) : after.Reasoned := by
  have clauses := (step.continues coherent).clauses
  cases step with
  | tell assignment theoryAtoms configuration splits =>
      exact reasoned.congr (congrArg Assignment.trail assignment) clauses
  | requeue sound same => exact reasoned.congr rfl clauses
  | choose free warrant => exact reasoned.chosen coherent free _
  | give free grounds => exact reasoned.given coherent free grounds
  | learn allowed fitting => exact reasoned.congr rfl clauses
  | store derived => exact reasoned.congr rfl clauses
  | watch key => exact reasoned.congr rfl clauses
  | jump allowed kind below splitting =>
      exact reasoned.jumped coherent.assignment _ kind

/-! ## Along a sequence of steps -/

/-- The solver is reached from the origin, and all is well with it. -/
structure Solver.Valid (rules : Rules τ) (origin solver : Solver τ) : Prop where
  reached : Steps rules true origin solver
  continues : origin.Continues solver
  coherent : solver.Coherent
  reasoned : solver.Reasoned

theorem Step.valid {origin : Solver τ} (step : Step rules jumping before after)
    (valid : origin.Valid rules before) : origin.Valid rules after where
  reached := valid.reached.tail step.any
  continues := valid.continues.trans (step.continues valid.coherent)
  coherent := step.coherent valid.coherent
  reasoned := step.reasoned valid.coherent valid.reasoned

theorem Steps.valid {origin : Solver τ} (steps : Steps rules jumping before after)
    (valid : origin.Valid rules before) : origin.Valid rules after := by
  induction steps with
  | refl => exact valid
  | tail _ step induction => exact step.valid induction

theorem Steps.continues (steps : Steps rules jumping before after)
    (coherent : before.Coherent) (reasoned : before.Reasoned) : before.Continues after :=
  (steps.valid ⟨.refl, .refl before, coherent, reasoned⟩).continues

theorem Steps.watched {origin : Solver τ} (steps : Steps rules jumping before after)
    (valid : origin.Valid rules before) {key : ClauseKey} {clause : Clause}
    (watched : before.clauses.Watched key clause) : after.clauses.Watched key clause := by
  induction steps with
  | refl => exact watched
  | tail steps step induction =>
      exact step.watched (Steps.valid steps valid).coherent induction

theorem Steps.orderly {origin : Solver τ} (steps : Steps rules jumping before after)
    (valid : origin.Valid rules before) (orderly : before.Orderly rules) : after.Orderly rules := by
  induction steps with
  | refl => exact orderly
  | tail steps step induction =>
      exact ⟨orderly.careful, step.sorted (Steps.valid steps valid).coherent induction⟩

end ModelSearch
