import ModelSearch.Proofs.Events.TrailEvents
import ModelSearch.Proofs.Theory.Bounds

/-!
# Evaluations stand

An evaluation is recorded at the level of the last of its variables, which may lie below
the current level.  So levels are removed together with the evaluations that rest on
them, and no others, whatever was chosen, implied, added or taken back in between.  A
theory atom can have another value than it evaluates to only if it was decided or follows
from a clause.
-/

namespace ModelSearch

variable {τ : Type} [TheoryAtom τ]

/-- The truth of the theory atom depends on the values of its variables alone, and it has
none while one of them lacks a value. -/
structure Steady (atom : τ) : Prop where
  dependent : ∀ left right : Valuation, (∀ key ∈ TheoryAtom.support atom, left key = right key) →
    TheoryAtom.evaluate atom left = TheoryAtom.evaluate atom right
  strict : ∀ (values : Valuation), ∀ key ∈ TheoryAtom.support atom, values key = none →
    TheoryAtom.evaluate atom values = none

/-- The values a trail gives to variables. -/
def Trail.values (trail : Trail) : Valuation := fun key => trail.value? (.var key)

namespace Solver

variable {solver before after : Solver τ}

theorem Coherent.values (coherent : solver.Coherent) : solver.values = solver.trail.values :=
  funext coherent.assignment.vars.values

/-! ## The greatest level -/

theorem le_greatestLevel {trail : Trail} {keys : List VariableKey} {key : VariableKey}
    {entry : Entry} (member : key ∈ keys) (found : trail.get? (.var key) = some entry) :
    entry.level ≤ greatestLevel trail keys := by
  refine (Trail.foldl_max_spec _ 0).2.2 _ (List.mem_filterMap.mpr ⟨key, member, ?_⟩)
  exact Trail.level?_eq_some.mpr ⟨entry, found, rfl⟩

theorem greatestLevel_mem (trail : Trail) (keys : List VariableKey) :
    greatestLevel trail keys = 0 ∨
      ∃ key ∈ keys, trail.level? (.var key) = some (greatestLevel trail keys) := by
  refine (Trail.foldl_max_spec _ 0).1.imp_right fun inside => ?_
  obtain ⟨key, member, levelled⟩ := List.mem_filterMap.mp inside
  exact ⟨key, member, levelled⟩

/-! ## Entries of evaluated atoms -/

/-- The entry of a theory atom says what the atom evaluates to, at the greatest level of
its variables. -/
structure Upholds (trail : Trail) (atom : τ) (entry : Entry) : Prop where
  valued : ∀ key ∈ TheoryAtom.support atom, (trail.get? (.var key)).isSome = true
  level : entry.level = greatestLevel trail (TheoryAtom.support atom)
  value : ∃ truth, entry.value = .boolean truth ∧
    TheoryAtom.evaluate atom trail.values = some truth

/-- An entry stands as long as the entries of the variables do. -/
theorem Upholds.congr {trail other : Trail} {atom : τ} {entry : Entry} (steady : Steady atom)
    (upholds : Upholds trail atom entry)
    (same : ∀ key ∈ TheoryAtom.support atom, other.get? (.var key) = trail.get? (.var key)) :
    Upholds other atom entry where
  valued key member := by
    rw [same key member]
    exact upholds.valued key member
  level := by
    have levels : (TheoryAtom.support atom).filterMap (fun key => other.level? (.var key)) =
        (TheoryAtom.support atom).filterMap fun key => trail.level? (.var key) :=
      List.filterMap_congr fun key member => by
        rw [Trail.level?, Trail.level?, same key member]
    rw [upholds.level, greatestLevel, greatestLevel, levels]
  value := by
    obtain ⟨truth, value, evaluated⟩ := upholds.value
    refine ⟨truth, value, ?_⟩
    rw [← evaluated]
    refine steady.dependent _ _ fun key member => ?_
    rw [Trail.values, Trail.values, Trail.value?, Trail.value?, same key member]

/-- What is evaluated now is upheld. -/
theorem upholds_evaluation {atom : τ} {truth : Bool} {entry : Entry} (steady : Steady atom)
    (coherent : solver.Coherent)
    (evaluated : TheoryAtom.evaluate atom solver.values = some truth)
    (level : entry.level = greatestLevel solver.trail (TheoryAtom.support atom))
    (value : entry.value = .boolean truth) : Upholds solver.trail atom entry where
  valued key member := by
    rw [coherent.values] at evaluated
    cases found : solver.trail.get? (.var key) with
    | some entry => rfl
    | none =>
        have unvalued : solver.trail.values key = none := by
          rw [Trail.values, Trail.value?, found]
          rfl
        rw [steady.strict _ key member unvalued] at evaluated
        cases evaluated
  level := level
  value := ⟨truth, value, coherent.values ▸ evaluated⟩

/-- Each evaluated theory atom exists, and is upheld if it is steady. -/
def Sustained (solver : Solver τ) : Prop :=
  ∀ key entry, solver.trail.get? (.theory key) = some entry → entry.reason = .semantic →
    ∃ atom, solver.theoryAtoms[key]? = some atom ∧
      (Steady atom → Upholds solver.trail atom entry)

namespace Sustained

theorem congr (sustained : before.Sustained) (trail : after.trail = before.trail)
    (theoryAtoms : ∀ (key : Nat) (atom : τ), before.theoryAtoms[key]? = some atom →
      after.theoryAtoms[key]? = some atom) : after.Sustained := by
  intro key entry found reason
  rw [trail] at found ⊢
  obtain ⟨atom, present, upholds⟩ := sustained key entry found reason
  exact ⟨atom, theoryAtoms key atom present, upholds⟩

/-- A further entry disturbs none, and stands if it is upheld itself. -/
theorem push (sustained : before.Sustained) (theoryAtoms : after.theoryAtoms = before.theoryAtoms)
    {trail : Trail} {atom : Atom} {value : Value} {reason : Reason} {level : Nat}
    (pushed : after.trail = trail.push atom value reason level)
    (same : ∀ atom, trail.get? atom = before.trail.get? atom)
    (unvalued : before.trail.get? atom = none)
    (fresh : ∀ key, atom = .theory key → reason = .semantic →
      ∃ known, before.theoryAtoms[key]? = some known ∧ (Steady known →
        Upholds before.trail known ⟨value, level, reason, trail.position⟩)) :
    after.Sustained := by
  have kept : ∀ (known : τ) entry, Steady known → Upholds before.trail known entry →
      Upholds after.trail known entry := by
    intro known entry steady upholds
    refine upholds.congr steady fun key member => ?_
    obtain ⟨held, found⟩ := Option.isSome_iff_exists.mp (upholds.valued key member)
    rw [pushed, Trail.get?_push, if_neg (Trail.ne_of_get? unvalued found), same]
  intro key entry found semantic
  rw [theoryAtoms]
  rw [pushed, Trail.get?_push] at found
  split at found
  · next here =>
      cases found
      obtain ⟨known, present, upholds⟩ := fresh key here semantic
      exact ⟨known, present, fun steady => kept _ _ steady (upholds steady)⟩
  · rw [same] at found
    obtain ⟨known, present, upholds⟩ := sustained key entry found semantic
    exact ⟨known, present, fun steady => kept _ _ steady (upholds steady)⟩

/-- Evaluations leave the trail together with the last of their variables. -/
theorem clearAbove (sustained : before.Sustained) (sound : before.trail.Sound)
    (theoryAtoms : after.theoryAtoms = before.theoryAtoms) {target : Nat}
    (cut : after.trail = (before.trail.clearAbove target).2) : after.Sustained := by
  intro key entry found semantic
  rw [cut, sound.get?_clearAbove_eq_some] at found
  obtain ⟨found, low⟩ := found
  obtain ⟨atom, present, upholds⟩ := sustained key entry found semantic
  refine ⟨atom, theoryAtoms ▸ present, fun steady => ?_⟩
  refine (upholds steady).congr steady fun variableKey member => ?_
  obtain ⟨held, valued⟩ := Option.isSome_iff_exists.mp ((upholds steady).valued variableKey member)
  have below := le_greatestLevel member valued
  rw [← (upholds steady).level] at below
  rw [cut, valued]
  exact sound.get?_clearAbove_eq_some.mpr ⟨valued, Nat.le_trans below low⟩

/-- Nothing that is done to a trail disturbs an evaluation. -/
theorem reported (sustained : before.Sustained) (coherent : before.Coherent)
    (reports : ReportsTrail before after) : after.Sustained := by
  cases reports with
  | kept keeps =>
      exact sustained.congr keeps.trail fun key atom present => keeps.theoryAtoms ▸ present
  | changed change theoryAtoms events =>
      generalize shape : after.trail = trail at change
      cases change with
      | decision unvalued =>
          exact sustained.push theoryAtoms shape (fun _ => rfl) unvalued nofun
      | clausal unvalued =>
          exact sustained.push theoryAtoms shape (fun _ => rfl) unvalued nofun
      | implied unvalued =>
          exact sustained.push theoryAtoms shape (fun _ => rfl) unvalued nofun
      | evaluation present evaluated unvalued isOpen =>
          refine sustained.push theoryAtoms shape (fun _ => rfl) unvalued ?_
          rintro _ ⟨⟩ _
          exact ⟨_, present, fun steady => upholds_evaluation steady coherent evaluated rfl rfl⟩
      | jump below => exact sustained.clearAbove coherent.assignment.trail theoryAtoms shape
      | stay above => exact sustained.congr shape fun key atom present => theoryAtoms ▸ present

end Sustained

/-! ## Operations -/

/-- The stores follow the trail, and evaluations stand. -/
structure Lasting (solver : Solver τ) : Prop where
  coherent : solver.Coherent
  sustained : solver.Sustained

namespace Lasting

theorem new (configuration : Configuration) : (Solver.new configuration : Solver τ).Lasting where
  coherent := .new configuration
  sustained key entry found := by
    rw [get?_untouched rfl] at found
    cases found

theorem congr (lasting : before.Lasting) (coherent : after.Coherent)
    (trail : after.trail = before.trail) (theoryAtoms : after.theoryAtoms = before.theoryAtoms) :
    after.Lasting :=
  ⟨coherent, lasting.sustained.congr trail fun _ _ present => theoryAtoms ▸ present⟩

theorem extended (lasting : before.Lasting) (extended : Extended before after) :
    after.Lasting := by
  refine ⟨extended.coherent lasting.coherent, ?_⟩
  cases extended with
  | same => exact lasting.sustained
  | withVariable name sort => exact lasting.sustained.congr rfl fun _ _ => id
  | withClause fitting => exact lasting.sustained.congr rfl fun _ _ => id
  | @withTheoryAtom added known =>
      refine lasting.sustained.congr rfl fun key atom present => ?_
      have inside := (Array.getElem?_eq_some_iff.mp present).1
      show (before.theoryAtoms.push added)[key]? = some atom
      rw [Array.getElem?_push, if_neg (Nat.ne_of_lt inside), present]

/-- An action that reports what it does to the trail leaves evaluations as they are. -/
theorem preserved {α : Type} {action : SolverM τ α} (lasting : solver.Lasting)
    (coherent : Preserves Coherent action solver)
    (reports : Preserves (ReportsTrail solver) action solver) :
    Preserves Lasting action solver :=
  (coherent.and reports).imp fun _ both =>
    ⟨both.1, lasting.sustained.reported lasting.coherent both.2⟩

theorem basic (lasting : solver.Lasting) (call : Call) (basic : call.Basic) (fuel : Nat) :
    Preserves Lasting (call.perform fuel) solver :=
  lasting.preserved (Call.coherent basic lasting.coherent fuel) (reportsTrail_basic basic fuel)

theorem retreat (lasting : solver.Lasting) (level : Nat) :
    Preserves Lasting (retreat level) solver := by
  have coherent := lasting.coherent.preserved (alters_retreat level)
  obtain ⟨cut, retreats⟩ := exists_retreat lasting.coherent.assignment level
  have reports : ReportsTrail solver
      (telling (.backjump solver.trail.level level .uniqueImplication) cut) :=
    reportsTrail_returned retreats
  rw [Preserves, Ends, retreats] at coherent ⊢
  exact ⟨coherent, (lasting.sustained.reported lasting.coherent reports).congr rfl fun _ _ => id⟩

theorem stored (lasting : solver.Lasting) (clause : Clause) (source : ClauseSource) :
    Preserves Lasting (storeClause clause source) solver :=
  lasting.preserved (lasting.coherent.stored clause source) (.kept (.silent rfl rfl rfl))

theorem watched (lasting : solver.Lasting) (key : ClauseKey) :
    Preserves Lasting (watchClause key) solver :=
  lasting.preserved (lasting.coherent.preserved (alters_watchClause key))
    (reportsTrail_watchClause key)

end Lasting

theorem lasting_acrossBasicCalls (fuel : Nat) : AcrossBasicCalls fuel (fun _ _ => True)
    fun before after : Solver τ => before.Lasting → after.Lasting where
  calls _ _ := trivial
  refl _ := id
  trans first second := second ∘ first
  aside _ _ _ lasting :=
    lasting.congr ⟨lasting.coherent.assignment, lasting.coherent.supports,
      lasting.coherent.registered⟩ rfl rfl
  basic _ basic := Preserves.under fun lasting => lasting.basic _ basic fuel
  consulted _ _ _ lasting :=
    lasting.congr ⟨lasting.coherent.assignment, lasting.coherent.supports,
      lasting.coherent.registered⟩ rfl rfl
  returned allowed stored aims retreats lasting :=
    ⟨(coherent_acrossBasicCalls fuel).returned allowed stored aims retreats lasting.coherent,
      lasting.sustained.reported lasting.coherent (reportsTrail_returned retreats)⟩

end Solver

/-- No operation disturbs an evaluation. -/
theorem Operation.lasting (operation : Operation τ) {solver : Solver τ}
    (lasting : solver.Lasting) : Preserves Solver.Lasting operation.perform solver := by
  by_cases builds : operation.Builds
  · exact operation.preserves_of_builds builds fun rest extended => lasting.extended extended
  · refine (operation.acrossBasicCalls Solver.lasting_acrossBasicCalls (fun _ _ => trivial)
      ?_ ?_ ?_ builds solver).imp
      fun _ kept => kept lasting
    · exact fun state level => Preserves.under fun lasting => lasting.retreat level
    · exact fun state clause source => Preserves.under fun lasting => lasting.stored clause source
    · exact fun state key => Preserves.under fun lasting => lasting.watched key

theorem Reached.lasting {allowed : Solver τ → Operation τ → Prop}
    {configuration : Configuration} {solver : Solver τ}
    (reached : Reached allowed configuration solver) : solver.Lasting :=
  Reached.induct (.new configuration) (fun _ operation _ lasting _ => operation.lasting lasting)
    reached

/-! ## Inconsistent atoms -/

theorem Solver.inconsistentAtom?_eq_some {solver : Solver τ} {key : TheoryKey}
    (found : Solver.inconsistentAtom? solver = some key) :
    ∃ entry atom truth, solver.trail.get? (.theory key) = some entry ∧
      solver.theoryAtoms[key]? = some atom ∧
        TheoryAtom.evaluate atom solver.values = some truth ∧ entry.value ≠ .boolean truth := by
  have differs := List.find?_some found
  split at differs
  · next given atom valued present =>
      obtain ⟨entry, held, value⟩ := Trail.truth?_eq_some.mp valued
      split at differs
      · next truth evaluated =>
          refine ⟨entry, atom, truth, held, present, evaluated, fun same => ?_⟩
          rw [value] at same
          cases same
          simp at differs
      · cases differs
  · cases differs

namespace Solver.Lasting

variable {solver : Solver τ} {key : TheoryKey} {entry : Entry}

/-- An evaluated theory atom has its value at the greatest level of its variables. -/
theorem stands (lasting : solver.Lasting)
    (steady : ∀ (key : Nat) (atom : τ), solver.theoryAtoms[key]? = some atom → Steady atom)
    (found : solver.trail.get? (.theory key) = some entry) (semantic : entry.reason = .semantic) :
    ∃ atom, solver.theoryAtoms[key]? = some atom ∧
      (∀ variableKey ∈ TheoryAtom.support atom, ∃ level,
        solver.trail.level? (.var variableKey) = some level ∧ level ≤ entry.level) ∧
      (entry.level = 0 ∨ ∃ variableKey ∈ TheoryAtom.support atom,
        solver.trail.level? (.var variableKey) = some entry.level) ∧
      ∃ truth, entry.value = .boolean truth ∧
        TheoryAtom.evaluate atom solver.values = some truth := by
  obtain ⟨atom, present, upholds⟩ := lasting.sustained key entry found semantic
  obtain ⟨valued, level, value⟩ := upholds (steady key atom present)
  refine ⟨atom, present, fun variableKey member => ?_, ?_, lasting.coherent.values ▸ value⟩
  · obtain ⟨held, variableFound⟩ := Option.isSome_iff_exists.mp (valued variableKey member)
    refine ⟨held.level, Trail.level?_eq_some.mpr ⟨held, variableFound, rfl⟩, ?_⟩
    rw [level]
    exact le_greatestLevel member variableFound
  · rw [level]
    exact greatestLevel_mem _ _

/-- A theory atom with another value than it evaluates to was not evaluated. -/
theorem unevaluated (lasting : solver.Lasting)
    (steady : ∀ (key : Nat) (atom : τ), solver.theoryAtoms[key]? = some atom → Steady atom)
    (inconsistent : inconsistentAtom? solver = some key) :
    ∃ entry, solver.trail.get? (.theory key) = some entry ∧
      (entry.reason = .decided ∨ ∃ clause, entry.reason = .clause clause) := by
  obtain ⟨entry, atom, truth, found, present, evaluated, different⟩ :=
    inconsistentAtom?_eq_some inconsistent
  refine ⟨entry, found, ?_⟩
  cases reason : entry.reason with
  | decided => exact .inl rfl
  | clause clause => exact .inr ⟨clause, rfl⟩
  | semantic =>
      obtain ⟨again, presentAgain, _, _, given, value, upheld⟩ := lasting.stands steady found reason
      obtain rfl := Option.some.inj (presentAgain.symm.trans present)
      rw [evaluated] at upheld
      cases upheld
      exact absurd value different

end Solver.Lasting

/-- However a solver is reached, each evaluated theory atom has the value it evaluates
to, at the greatest level of its variables, which all have values.  So an inconsistent
atom was decided or follows from a clause. -/
theorem Reached.evaluations_stand {allowed : Solver τ → Operation τ → Prop}
    {configuration : Configuration} {solver : Solver τ}
    (reached : Reached allowed configuration solver)
    (steady : ∀ (key : Nat) (atom : τ), solver.theoryAtoms[key]? = some atom → Steady atom) :
    (∀ key entry, solver.trail.get? (.theory key) = some entry → entry.reason = .semantic →
      ∃ atom, solver.theoryAtoms[key]? = some atom ∧
        (∀ variableKey ∈ TheoryAtom.support atom, ∃ level,
          solver.trail.level? (.var variableKey) = some level ∧ level ≤ entry.level) ∧
        (entry.level = 0 ∨ ∃ variableKey ∈ TheoryAtom.support atom,
          solver.trail.level? (.var variableKey) = some entry.level) ∧
        ∃ truth, entry.value = .boolean truth ∧
          TheoryAtom.evaluate atom solver.values = some truth) ∧
    ∀ key, Solver.inconsistentAtom? solver = some key →
      ∃ entry, solver.trail.get? (.theory key) = some entry ∧
        (entry.reason = .decided ∨ ∃ clause, entry.reason = .clause clause) := by
  constructor
  · intro key entry found semantic
    exact reached.lasting.stands steady found semantic
  · intro key inconsistent
    exact reached.lasting.unevaluated steady inconsistent

/-! ## An evaluation below the current level -/

namespace Bound

theorem steady (atom : Bound) : Steady atom where
  dependent left right same := by
    have value : left atom.key = right atom.key := same atom.key List.mem_cons_self
    show Option.map _ ((left atom.key).bind Value.number?) = Option.map _ _
    rw [value]
  strict values key member unvalued := by
    obtain rfl := List.mem_singleton.mp member
    show Option.map _ ((values atom.key).bind Value.number?) = none
    rw [unvalued]
    rfl

/-- The number of the hasty formula was decided, and then its second bound. -/
def hastyChoice : Solver Bound :=
  left (Solver.decide (.theory 1) (.boolean true))
    (left (Solver.decide (.var 0) (.rational 4.0)) hastyFormula)

/-- The first bound is evaluated below the current level, and the second has a value that
was decided and is wrong. -/
theorem hastyChoice_evaluated : ∃ rest, Reached (fun _ _ => True) {} rest ∧
    Operation.perform (.propagate 10) hastyChoice = .ok () rest ∧ rest.trail.level = 2 ∧
      (∃ entry, rest.trail.get? (.theory 0) = some entry ∧ entry.level = 1 ∧
        ∃ truth, entry.value = .boolean truth ∧
          TheoryAtom.evaluate (⟨0, 5.0, true⟩ : Bound) rest.values = some truth) ∧
      Solver.inconsistentAtom? rest = some 1 ∧
        ∃ entry, rest.trail.get? (.theory 1) = some entry ∧
          (entry.reason = .decided ∨ ∃ clause, entry.reason = .clause clause) := by
  have first : answer? (Operation.perform (.decide (.var 0) (.rational 4.0))) hastyFormula =
      some () := by decide +kernel
  have second : answer? (Operation.perform (.decide (.theory 1) (.boolean true)))
      (left (Operation.perform (.decide (.var 0) (.rational 4.0))) hastyFormula) = some () := by
    decide +kernel
  have closed : answer? (Operation.perform (.propagate 10)) hastyChoice = some () := by
    decide +kernel
  have closed := ok_of_answer closed
  have start : Reached (fun _ _ => True) {} hastyFormula :=
    stated_hastyFormula.reached fun _ _ _ => trivial
  have reached := ((start.answered (.decide (.var 0) (.rational 4.0)) trivial
    (ok_of_answer first)).answered (.decide (.theory 1) (.boolean true)) trivial
      (ok_of_answer second)).answered (.propagate 10) trivial closed
  obtain ⟨stand, consistent⟩ := reached.evaluations_stand fun _ atom _ => steady atom
  have level : (left (Operation.perform (.propagate 10)) hastyChoice).trail.level = 2 := by
    decide +kernel
  have levelled : (left (Operation.perform (.propagate 10)) hastyChoice).trail.level?
      (.theory 0) = some 1 := by decide +kernel
  have reason : (left (Operation.perform (.propagate 10)) hastyChoice).trail.reason?
      (.theory 0) = some .semantic := by decide +kernel
  have wrong : Solver.inconsistentAtom?
      (left (Operation.perform (.propagate 10)) hastyChoice) = some 1 := by decide +kernel
  obtain ⟨entry, found, low⟩ := Trail.level?_eq_some.mp levelled
  rw [Trail.reason?, found] at reason
  obtain ⟨atom, present, _, _, value⟩ := stand 0 entry found (Option.some.inj reason)
  obtain rfl : atom = ⟨0, 5.0, true⟩ := (Option.some.inj present).symm
  exact ⟨_, reached, closed, level, ⟨entry, found, low, value⟩, wrong, consistent 1 wrong⟩

end Bound

end ModelSearch
