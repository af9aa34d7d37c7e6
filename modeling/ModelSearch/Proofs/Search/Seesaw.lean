import ModelSearch.Proofs.Theory.Bounds

/-!
# A search without end

Of two clauses each is made true by a split, whose pick makes the other one false.
So the splits go back and forth, although the formula has a model.
-/

namespace ModelSearch.Bound

/-! ## The formula -/

/-- The bound that leads a side: `x ≥ 10` on one side, and `x < 1` on the other. -/
def leadBound : Bool → Bound
  | false => ⟨0, 10.0, false⟩
  | true => ⟨0, 1.0, true⟩

/-- The key of the lead, and of the clause of its side. -/
def lead : Bool → TheoryKey
  | false => 0
  | true => 1

/-- The clause of a side: its lead, or `x < -5`. -/
def sideClause (side : Bool) : Clause :=
  Clause.ofList [⟨.theory (lead side), true⟩, ⟨.theory 2, true⟩]

/-- Both sides over the variable `x`. -/
def seesaw : Solver Bound :=
  (((((Solver.new {}).withVariable "x" .rational).withTheoryAtom (leadBound false)).withTheoryAtom
    (leadBound true)).withTheoryAtom ⟨0, -5.0, true⟩ |>.withClause (sideClause false)).withClause
      (sideClause true)

theorem stated_seesaw : Stated {} seesaw := by
  refine .withClause (.withClause (.withTheoryAtom (.withTheoryAtom (.withTheoryAtom
    (.withVariable .new ?_ _) ?_) ?_) ?_) ?_) ?_
  all_goals decide +kernel

theorem overRationals_seesaw : OverRationals seesaw :=
  overRationals_of_sorts (by decide +kernel)

/-- Minus six is below all of the bounds. -/
theorem model_seesaw : seesaw.Model fun _ => .rational (-6.0) where
  theoryModel key known present := by
    match key, present with
    | 0, present =>
        cases present
        rfl
    | key + 1, present => cases present
  fulfilled key clause stored := by
    match key, stored with
    | 0, stored =>
        cases stored
        exact ⟨⟨.theory 2, true⟩, by decide, rfl⟩
    | 1, stored =>
        cases stored
        exact ⟨⟨.theory 2, true⟩, by decide, rfl⟩
    | key + 2, stored => cases stored

/-- The value that the lead of a side picks. -/
def sidePick (side : Bool) : Value := .rational ((leadBound side).pick true)

theorem seesaw_lead (side : Bool) : seesaw.theoryAtoms[lead side]? = some (leadBound side) := by
  cases side <;> rfl

theorem seesaw_key {owner : TheoryKey} {atom : Bound}
    (present : seesaw.theoryAtoms[owner]? = some atom) : atom.key = 0 := by
  match owner, present with
  | 0, present | 1, present | 2, present =>
      cases present
      rfl
  | owner + 3, present => cases present

theorem seesaw_watched (side : Bool) :
    seesaw.clauses.Watched (lead side) (sideClause side) := by
  cases side <;> exact ⟨_, rfl, rfl, rfl⟩

theorem literals_sideClause (side : Bool) :
    (sideClause side).literals = [⟨.theory (lead side), true⟩, ⟨.theory 2, true⟩] := by
  cases side <;> rfl

/-- Under the pick of one lead all other bounds are false. -/
theorem evaluate_pick (side : Bool) {owner : TheoryKey} {atom : Bound}
    (present : seesaw.theoryAtoms[owner]? = some atom) (other : owner ≠ lead side)
    {values : Valuation} (value : values 0 = some (sidePick side)) :
    TheoryAtom.evaluate atom values = some false := by
  have alike := evaluatesLocally seesaw owner atom present values (fun _ => some (sidePick side))
  rw [alike]
  · match owner, present, other with
    | 0, present, other =>
        cases present
        cases side
        · exact absurd rfl other
        · decide +kernel
    | 1, present, other =>
        cases present
        cases side
        · decide +kernel
        · exact absurd rfl other
    | 2, present, other =>
        cases present
        cases side <;> decide +kernel
    | owner + 3, present, other => cases present
  · intro key member
    obtain rfl : key = atom.key := List.mem_singleton.mp member
    rw [seesaw_key present, value]

/-- The clause of the other side speaks of other bounds. -/
theorem opposed {side : Bool} {literal : Literal} (member : literal ∈ sideClause (!side)) :
    ∃ owner atom, literal = ⟨.theory owner, true⟩ ∧ owner ≠ lead side ∧
      seesaw.theoryAtoms[owner]? = some atom := by
  have listed : literal ∈ (sideClause (!side)).literals := member
  rw [literals_sideClause] at listed
  rcases List.mem_cons.mp listed with rfl | last
  · exact ⟨_, _, rfl, by cases side <;> decide, seesaw_lead _⟩
  · obtain rfl := List.mem_singleton.mp last
    exact ⟨_, _, rfl, by cases side <;> decide, rfl⟩

/-! ## One side up -/

variable {side : Bool} {solver rest : Solver Bound} {excuse : Fault → Solver Bound → Prop}

theorem orderly_of_valid (valid : seesaw.Valid carefulRules solver) :
    solver.Orderly carefulRules :=
  Steps.orderly valid.reached stated_seesaw.ready.valid
    ⟨carefulRules_careful, stated_seesaw.ready.sorted⟩

/-- The lead of the side is true at level one, where all values are. -/
structure Standing (side : Bool) (solver : Solver Bound) : Prop where
  valid : seesaw.Valid carefulRules solver
  level : solver.trail.level = 1
  clauses : ∀ key clause, solver.clauses.clause? key = some clause →
    ∃ side, key = lead side ∧ clause = sideClause side
  led : solver.trail.truth? (.theory (lead side)) = some true
  raised : ∀ atom entry, solver.trail.get? atom = some entry → entry.level = 1

/-- Nothing but the lead has a value. -/
structure Leaning (side : Bool) (solver : Solver Bound) : Prop extends Standing side solver where
  empty : ∀ atom, atom ≠ .theory (lead side) → solver.trail.get? atom = none

/-- The variable has the value picked by the lead. -/
structure Weighed (side : Bool) (solver : Solver Bound) : Prop extends Standing side solver where
  weight : ∃ entry, solver.trail.get? (.var 0) = some entry ∧ entry.value = sidePick side
  empty : ∀ owner, owner ≠ lead side → solver.trail.get? (.theory owner) = none

/-- The clause of the other side was found to be false. -/
structure Tipped (side : Bool) (solver : Solver Bound) : Prop extends Standing side solver where
  against : ∀ literal ∈ sideClause (!side), ∃ entry,
    solver.trail.get? literal.atom = some entry ∧ entry.value = .boolean !literal.polarity ∧
      entry.reason = .semantic

namespace Standing

theorem present (standing : Standing side solver) {owner : TheoryKey} {atom : Bound} :
    solver.theoryAtoms[owner]? = some atom ↔ seesaw.theoryAtoms[owner]? = some atom := by
  rw [standing.valid.continues.theoryAtoms]

theorem watched (standing : Standing side solver) (either : Bool) :
    solver.clauses.Watched (lead either) (sideClause either) :=
  Steps.watched standing.valid.reached (stated_seesaw.ready.valid) (seesaw_watched either)

/-- Every theory atom watches the one variable. -/
theorem watching (standing : Standing side solver) {owner : TheoryKey} {keys : List VariableKey}
    (watching : solver.vars.watches.Watching owner keys) : keys = [0] := by
  obtain ⟨atom, present, rfl⟩ := (standing.valid.coherent.supports _ _).mp watching
  have key := seesaw_key (standing.present.mp present)
  show canonical [atom.key] = [0]
  rw [key]
  rfl

theorem told (standing : Standing side solver) (told : Solver.Told solver rest)
    (valid : seesaw.Valid carefulRules rest) : Standing side rest := by
  have same := told.assignment
  refine ⟨valid, ?_, ?_, ?_, ?_⟩
  all_goals rw [same]
  · exact standing.level
  · exact standing.clauses
  · exact standing.led
  · exact standing.raised

end Standing

/-! ## Propagating -/

namespace Leaning

theorem told (leaning : Leaning side solver) (told : Solver.Told solver rest)
    (valid : seesaw.Valid carefulRules rest) : Leaning side rest where
  toStanding := leaning.toStanding.told told valid
  empty := by
    rw [told.assignment]
    exact leaning.empty

theorem unvalued (leaning : Leaning side solver) (key : VariableKey) :
    solver.trail.get? (.var key) = none :=
  leaning.empty _ (by rintro ⟨⟩)

theorem not_false (leaning : Leaning side solver) (owner : TheoryKey) :
    ¬solver.Falsifies ⟨.theory owner, true⟩ := by
  intro falsified
  by_cases same : owner = lead side
  · have led := leaning.led
    rw [← same] at led
    cases led.symm.trans falsified
  · obtain ⟨entry, found, _⟩ := falsified.entry
    rw [leaning.empty _ fun again => same (Atom.theory.inj again)] at found
    cases found

/-- Without a value for the variable no bound is evaluated. -/
theorem evaluateTheory (leaning : Leaning side solver) :
    Solver.evaluateTheory solver = .ok ⟨⟩ solver := by
  refine Solver.evaluateTheory_of_none (List.eq_nil_iff_forall_not_mem.mpr fun owner inside => ?_)
  obtain ⟨_, atom, present, valued⟩ := (Solver.mem_evaluable leaning.valid.coherent).mp inside
  have isSome := valued atom.key List.mem_cons_self
  rw [leaning.unvalued] at isSome
  cases isSome

/-- No literal is false. -/
theorem propagateClauses (leaning : Leaning side solver) :
    Solver.propagateClauses solver = .ok none solver := by
  refine Solver.propagateClauses_of_open leaning.valid.coherent.assignment.clauses ?_
  intro key clause watched
  obtain ⟨either, rfl, rfl⟩ := leaning.clauses key clause watched.clause?
  have member : ∀ literal ∈ [⟨.theory (lead either), true⟩, ⟨.theory 2, true⟩],
      literal ∈ sideClause either := by
    rw [← literals_sideClause]
    exact fun _ => id
  exact ⟨_, member _ List.mem_cons_self, _, member _ (List.mem_cons_of_mem _ List.mem_cons_self),
    by cases either <;> decide, leaning.not_false _, leaning.not_false _⟩

theorem weighed (leaning : Leaning side solver) (valid : seesaw.Valid carefulRules rest)
    (given : rest.toAssignment =
      (solver.given (.var 0) (sidePick side) .semantic solver.trail.level).toAssignment) :
    Weighed side rest := by
  have found : ∀ atom, rest.trail.get? atom = if .var 0 = atom then
      some ⟨sidePick side, solver.trail.level, .semantic, solver.trail.position⟩
      else solver.trail.get? atom := by
    rw [given]
    exact Solver.get?_given _ _ _ _ _
  refine ⟨⟨valid, ?_, ?_, ?_, ?_⟩, ⟨_, (found _).trans (if_pos rfl), rfl⟩, ?_⟩
  · rw [given, Solver.level_given, leaning.level]
  · rw [given]
    simp only [Solver.clause?_given]
    exact leaning.clauses
  · rw [Trail.truth?, Trail.value?, found, if_neg (by rintro ⟨⟩)]
    exact leaning.led
  · intro atom entry present
    rw [found] at present
    split at present
    · cases present
      exact leaning.level
    · exact leaning.raised atom entry present
  · intro owner other
    rw [found, if_neg (by rintro ⟨⟩)]
    exact leaning.empty _ fun again => other (Atom.theory.inj again)

theorem runs_hook (leaning : Leaning side solver) :
    Runs carefulRules false
      (Solver.runHook (TheoryAtom.hook (leadBound side) (.theory (lead side)) 0)) solver
      (fun answer rest => answer = none ∧ Weighed side rest) excuse := by
  have valid := leaning.valid
  have allowed : carefulRules.assign solver (lead side) 0 (sidePick side) := by
    obtain ⟨known, present, rational⟩ := overRationals_seesaw _ _ (seesaw_lead side)
    rw [seesaw_key (seesaw_lead side)] at present
    have admits : seesaw.Admits (.var 0) (sidePick side) := ⟨known, present, rational⟩
    exact valid.continues.admits.mpr admits
  show Runs carefulRules false (Solver.runHook ((leadBound side).response 0
    (solver.trail.truth? (.theory (lead side))))) solver _ _
  rw [leaning.led]
  refine Runs.bind valid (Solver.runs_assignImplied valid allowed)
    fun given rest steps answered => ?_
  cases given with
  | false =>
      have isSome := answered.2
      rw [leaning.unvalued] at isSome
      cases isSome
  | true => exact .pure ⟨rfl, leaning.weighed (Steps.valid steps valid) answered.2⟩

/-- Of the hooks of all bounds that of the lead acts. -/
theorem runs_consultAtoms {units : List (TheoryKey × VariableKey)} (leaning : Leaning side solver)
    (single : ∀ pair ∈ units, pair.2 = 0) (member : (lead side, 0) ∈ units) :
    Runs carefulRules false (Solver.consultAtoms units) solver
      (fun answer rest => answer = none ∧ Weighed side rest) excuse := by
  induction units generalizing solver with
  | nil => cases member
  | cons unit units induction =>
      obtain ⟨owner, unassigned⟩ := unit
      obtain rfl : unassigned = 0 := single _ List.mem_cons_self
      have later := fun pair inside => single pair (List.mem_cons_of_mem _ inside)
      have valid := leaning.valid
      unfold Solver.consultAtoms
      rw [runs_get, leaning.unvalued]
      by_cases same : owner = lead side
      · subst same
        rw [leaning.present.mpr (seesaw_lead side)]
        refine Runs.bind valid (Solver.runs_emit rfl) fun _ told steps same => ?_
        have validTold := Steps.valid steps valid
        refine Runs.bind validTold (leaning.told same validTold).runs_hook
          fun answer rest steps answered => ?_
        obtain ⟨rfl, weighed⟩ := answered
        obtain ⟨entry, found, _⟩ := weighed.weight
        refine .known (Solver.consultAtoms_of_valued fun pair inside => ?_) ⟨rfl, weighed⟩
        rw [later pair inside, found]
        rfl
      · have inside : (lead side, 0) ∈ units :=
          (List.mem_cons.mp member).resolve_left fun again => same (congrArg Prod.fst again).symm
        cases present : solver.theoryAtoms[owner]? with
        | none => exact induction leaning later inside
        | some atom =>
            refine Runs.bind valid (Solver.runs_emit rfl) fun _ told steps silent => ?_
            have leaningTold := leaning.told silent (Steps.valid steps valid)
            have idle : Solver.runHook (TheoryAtom.hook atom (.theory owner) 0) told =
                .ok none told := by
              show Solver.runHook (atom.response 0 (told.trail.truth? (.theory owner))) told = _
              rw [Trail.truth?, Trail.value?,
                leaningTold.empty _ fun again => same (Atom.theory.inj again)]
              rfl
            exact (runs_known idle).mpr (induction leaningTold later inside)

theorem runs_consultTheory (leaning : Leaning side solver) :
    Runs carefulRules false Solver.consultTheory solver
      (fun answer rest => answer = none ∧ Weighed side rest) excuse := by
  have follow := leaning.valid.coherent.assignment.vars
  unfold Solver.consultTheory
  rw [runs_get]
  refine leaning.runs_consultAtoms ?_ ?_
  · rintro ⟨owner, unassigned⟩ inside
    obtain ⟨keys, watching, member, _⟩ := follow.mem_semanticUnits.mp inside
    rw [leaning.watching watching] at member
    exact List.mem_singleton.mp member
  · have watching := (leaning.valid.coherent.supports (lead side) [0]).mpr
      ⟨leadBound side, leaning.present.mpr (seesaw_lead side), by cases side <;> rfl⟩
    refine follow.mem_semanticUnits.mpr ⟨[0], watching, List.mem_cons_self, ?_, ?_⟩
    · rw [Trail.value?, leaning.unvalued]
      rfl
    · exact fun key member different => absurd (List.mem_singleton.mp member) different

end Leaning

namespace Weighed

theorem values (weighed : Weighed side solver) : solver.values 0 = some (sidePick side) := by
  obtain ⟨entry, found, value⟩ := weighed.weight
  rw [← value]
  exact (weighed.valid.coherent.assignment.vars.values 0).trans (congrArg _ found)

theorem ne_lead (weighed : Weighed side solver) {owner : TheoryKey}
    (inside : owner ∈ solver.evaluable) : owner ≠ lead side := by
  rintro rfl
  have led := weighed.led
  rw [Trail.truth?, Trail.value?,
    ((Solver.mem_evaluable weighed.valid.coherent).mp inside).1] at led
  cases led

theorem mem_evaluable (weighed : Weighed side solver) {owner : TheoryKey} {atom : Bound}
    (present : solver.theoryAtoms[owner]? = some atom) (other : owner ≠ lead side) :
    owner ∈ solver.evaluable := by
  obtain ⟨entry, found, _⟩ := weighed.weight
  refine (Solver.mem_evaluable weighed.valid.coherent).mpr
    ⟨weighed.empty owner other, atom, present, fun key support => ?_⟩
  rw [List.mem_singleton.mp support, seesaw_key (weighed.present.mp present), found]
  rfl

/-- All other bounds become false at level one. -/
theorem evaluated (weighed : Weighed side solver)
    (evaluates : solver.Evaluates rest solver.evaluable) {owner : TheoryKey} {atom : Bound}
    (present : solver.theoryAtoms[owner]? = some atom) (inside : owner ∈ solver.evaluable) :
    ∃ entry, rest.trail.get? (.theory owner) = some entry ∧ entry.value = .boolean false ∧
      entry.reason = .semantic ∧ entry.level = 1 := by
  obtain ⟨entry, found, value, reason, level⟩ := evaluates.given owner inside atom false present
    (evaluate_pick side (weighed.present.mp present) (weighed.ne_lead inside) weighed.values)
  refine ⟨entry, found, value, reason, level.trans ?_⟩
  obtain ⟨weight, there, _⟩ := weighed.weight
  have support : TheoryAtom.support atom = [0] :=
    congrArg (fun key => [key]) (seesaw_key (weighed.present.mp present))
  unfold Solver.greatestLevel Trail.level?
  rw [support, List.filterMap_cons, there]
  exact weighed.raised _ _ there

/-- The variable is weighed by the bounds of the other side. -/
theorem runs_evaluateTheory (weighed : Weighed side solver) :
    Runs carefulRules false Solver.evaluateTheory solver (fun _ rest => Tipped side rest)
      excuse := by
  have valid := weighed.valid
  refine (Solver.runs_evaluateTheory valid).imp fun _ rest steps evaluates => ?_
  refine ⟨⟨Steps.valid steps valid, evaluates.level.trans weighed.level, ?_, ?_, ?_⟩, ?_⟩
  · intro key clause stored
    exact weighed.clauses key clause ((evaluates.clauses key).symm.trans stored)
  · rw [Trail.truth?, Trail.value?, evaluates.others]
    · exact weighed.led
    · rintro owner inside ⟨⟩
      exact weighed.ne_lead inside rfl
  · intro atom entry present
    by_cases listed : ∃ owner ∈ solver.evaluable, atom = .theory owner
    · obtain ⟨owner, inside, rfl⟩ := listed
      obtain ⟨_, bound, bounded, _⟩ := (Solver.mem_evaluable valid.coherent).mp inside
      obtain ⟨given, there, _, _, level⟩ := weighed.evaluated evaluates bounded inside
      obtain rfl := Option.some.inj (there.symm.trans present)
      exact level
    · push Not at listed
      rw [evaluates.others atom listed] at present
      exact weighed.raised atom entry present
  · intro literal member
    obtain ⟨owner, bound, rfl, other, present⟩ := opposed member
    have bounded := weighed.present.mpr present
    obtain ⟨given, there, value, reason, _⟩ :=
      weighed.evaluated evaluates bounded (weighed.mem_evaluable bounded other)
    exact ⟨given, there, value, reason⟩

end Weighed

/-! ## Splitting -/

namespace Tipped

theorem told (tipped : Tipped side solver) (told : Solver.Told solver rest)
    (valid : seesaw.Valid carefulRules rest) : Tipped side rest where
  toStanding := tipped.toStanding.told told valid
  against := by
    rw [told.assignment]
    exact tipped.against

theorem falsifies (tipped : Tipped side solver) {literal : Literal}
    (member : literal ∈ sideClause (!side)) : solver.Falsifies literal := by
  obtain ⟨entry, found, value, _⟩ := tipped.against literal member
  exact Trail.truth?_eq_some.mpr ⟨entry, found, value⟩

/-- The clause of the other side is the violated one. -/
theorem propagateClauses (tipped : Tipped side solver) :
    Solver.propagateClauses solver = .ok (some (lead (!side))) solver := by
  have follow := tipped.valid.coherent.assignment.clauses
  have violated : ∀ key, key ∈ solver.clauses.violated → key = lead (!side) := by
    intro key inside
    obtain ⟨clause, watched, falsified⟩ := follow.mem_violated.mp inside
    obtain ⟨either, rfl, rfl⟩ := tipped.clauses key clause watched.clause?
    have member : ⟨.theory (lead either), true⟩ ∈ sideClause either := by
      show _ ∈ (sideClause either).literals
      rw [literals_sideClause]
      exact List.mem_cons_self
    have leadFalse := Assignment.falsifies_iff.mpr (falsified _ member)
    by_cases same : either = side
    · subst same
      cases tipped.led.symm.trans leadFalse
    · rw [Bool.eq_not.mpr same]
  have inside : lead (!side) ∈ solver.clauses.violated :=
    follow.mem_violated.mpr ⟨_, tipped.watched (!side), fun literal member =>
      Assignment.falsifies_iff.mp (tipped.falsifies member)⟩
  have first : solver.clauses.violated.head? = some (lead (!side)) := by
    cases shape : solver.clauses.violated with
    | nil =>
        rw [shape] at inside
        cases inside
    | cons key keys => exact congrArg some (violated key (by rw [shape]; exact List.mem_cons_self))
  unfold Solver.propagateClauses
  rw [get_bind, first]
  rfl

theorem tops (tipped : Tipped side solver) : ∃ top,
    solver.trail.topLiterals (sideClause (!side)) = .ok top ∧
      solver.trail.Tops (sideClause (!side)) top ∧ top.level = 1 ∧
        top.literals = (sideClause (!side)).literals := by
  have levelled : ∀ literal ∈ sideClause (!side), solver.trail.level? literal.atom = some 1 := by
    intro literal member
    obtain ⟨entry, found, _⟩ := tipped.against literal member
    exact Trail.level?_eq_some.mpr ⟨entry, found, tipped.raised _ _ found⟩
  obtain ⟨top, answer, tops⟩ := Trail.topLiterals_spec (by cases side <;> rfl)
    fun literal member => ⟨1, levelled literal member⟩
  obtain ⟨literal, member, attained⟩ := tops.attained
  have level : top.level = 1 := Option.some.inj (attained.symm.trans (levelled literal member))
  refine ⟨top, answer, tops, level, ?_⟩
  rw [tops.literals, List.filter_eq_self]
  intro literal member
  rw [level, levelled literal member]
  rfl

theorem backjumpable (tipped : Tipped side solver) :
    solver.Backjumpable (sideClause (!side)) := by
  obtain ⟨top, answer, tops, level, literals⟩ := tipped.tops
  have semantic : solver.trail.allSemantic top = true := by
    refine List.all_eq_true.mpr fun literal member => ?_
    rw [literals] at member
    obtain ⟨entry, found, _, reason⟩ := tipped.against literal member
    rw [Trail.reason?, found, Option.map_some, reason]
    rfl
  have usable : solver.trail.isBackjumpable top = true := by
    rw [Trail.isBackjumpable, level, semantic, Bool.or_true]
    rfl
  exact ⟨by cases side <;> rfl, ⟨Assignment.derives_stored (tipped.watched _).clause?,
    fun literal member => tipped.falsifies member⟩, top, answer, tops, usable⟩

/-- After the jump the lead of the other side is decided. -/
theorem leaning (tipped : Tipped side solver) (valid : seesaw.Valid carefulRules rest)
    (same : rest.toAssignment = ((solver.jumped 0 .semanticSplit).chosen
      (.theory (lead (!side))) (.boolean true)).toAssignment) : Leaning (!side) rest := by
  have coherent := tipped.valid.coherent.assignment
  have cleared : ∀ atom, (solver.jumped 0 .semanticSplit).trail.get? atom = none := by
    intro atom
    refine Option.eq_none_iff_forall_ne_some.mpr fun entry found => ?_
    obtain ⟨former, low⟩ := (Solver.get?_jumped coherent).mp found
    rw [tipped.raised atom entry former] at low
    exact absurd low (by decide)
  have bottom : (solver.jumped 0 .semanticSplit).trail.openLevel.level = 1 := by
    have sound := coherent.trail.clearAbove 0
    rw [Solver.trail_jumped coherent, sound.level_openLevel, coherent.trail.level_clearAbove,
      Nat.zero_min]
  have found : ∀ atom, rest.trail.get? atom = if .theory (lead (!side)) = atom then
      some ⟨.boolean true, 1, .decided, (solver.jumped 0 .semanticSplit).trail.position⟩
      else none := by
    intro atom
    rw [same, Solver.get?_chosen, bottom, cleared]
  refine ⟨⟨valid, ?_, ?_, ?_, ?_⟩, ?_⟩
  · rw [same]
    exact (Solver.level_given _ _ _ _ _).trans bottom
  · intro key clause stored
    rw [same, Solver.clause?_chosen, Solver.clause?_jumped coherent] at stored
    exact tipped.clauses key clause stored
  · rw [Trail.truth?, Trail.value?, found, if_pos rfl]
    rfl
  · intro atom entry present
    rw [found] at present
    split at present
    · cases present
      rfl
    · cases present
  · intro atom other
    rw [found, if_neg other.symm]

/-- The clause of the other side is used for a split. -/
theorem runs_backjump (tipped : Tipped side solver) :
    Runs carefulRules true (Solver.backjump (lead (!side))) solver
      (fun _ rest => Leaning (!side) rest) excuse := by
  obtain ⟨top, answer, tops, level, literals⟩ := tipped.tops
  obtain ⟨again, answerAgain, _, usable⟩ := tipped.backjumpable.top
  obtain rfl : again = top := Except.ok.inj (answerAgain.symm.trans answer)
  obtain ⟨target, kind, aims⟩ :=
    Trail.backjumpTarget_spec tipped.backjumpable.nonempty answer tops usable
  rw [literals_sideClause] at literals
  have bottom : target = 0 := by
    have below := aims.below
    omega
  subst bottom
  cases kind with
  | uniqueImplication =>
      have single := aims.single rfl
      rw [literals] at single
      cases single
  | semanticSplit =>
      refine (Solver.runs_backjump_split tipped.valid
        ⟨(tipped.watched _).clause?, tipped.backjumpable⟩ tops aims literals).imp
        fun _ rest steps returned => ?_
      exact tipped.leaning (Steps.valid steps tipped.valid) returned.2.2

theorem runs_resolveConflict (tipped : Tipped side solver) (fuel : Nat) :
    Runs carefulRules true (Solver.resolveConflict (fuel + 1) (lead (!side))) solver
      (fun answer rest => answer = none ∧ Leaning (!side) rest) excuse := by
  unfold Solver.resolveConflict
  refine Runs.bind tipped.valid (Solver.runs_count _) fun _ counted steps first => ?_
  have tipped := tipped.told first (Steps.valid steps tipped.valid)
  refine Runs.bind tipped.valid (Solver.runs_explain_self tipped.valid
    (tipped.watched _).clause? tipped.backjumpable fuel) fun _ explained steps answered => ?_
  obtain ⟨rfl, second⟩ := answered
  have tipped := tipped.told second (Steps.valid steps tipped.valid)
  rw [if_neg (by rw [tipped.backjumpable.nonempty]; exact Bool.false_ne_true)]
  refine Runs.bind tipped.valid (Solver.runs_storeExplanation_self (tipped.watched _).clause?)
    fun _ _ _ answered => ?_
  obtain ⟨rfl, rfl⟩ := answered
  refine Runs.bind tipped.valid tipped.runs_backjump fun _ jumped steps leaning => ?_
  refine Runs.bind leaning.valid (Solver.runs_learn_of_watched (leaning.watched _))
    fun _ rest _ same => .pure ⟨rfl, ?_⟩
  rw [same]
  exact leaning

end Tipped

/-! ## Back and forth -/

/-- A propagation ends with the conflict of the other side. -/
theorem Leaning.runs_propagate (leaning : Leaning side solver) (fuel : Nat) :
    Runs carefulRules false (Solver.propagate (fuel + 2)) solver
      (fun answer rest => answer = some (lead (!side)) ∧ Tipped side rest) excuse := by
  unfold Solver.propagate
  rw [Solver.runs_countAssignments]
  refine (runs_known leaning.evaluateTheory).mpr ?_
  refine (runs_known leaning.propagateClauses).mpr ?_
  refine Solver.runs_countAssignments.mpr ?_
  rw [if_neg (Nat.lt_irrefl _)]
  refine Runs.bind leaning.valid leaning.runs_consultTheory fun _ consulted steps answered => ?_
  obtain ⟨rfl, weighed⟩ := answered
  refine Solver.runs_countAssignments.mpr ?_
  have longer : consulted.trail.size ≠ solver.trail.size := by
    intro same
    rcases (Steps.grown steps).trail with kept | longer
    · obtain ⟨entry, found, _⟩ := weighed.weight
      rw [kept, leaning.unvalued] at found
      cases found
    · exact absurd same (Nat.ne_of_gt longer)
  rw [if_neg longer]
  unfold Solver.propagate
  refine Solver.runs_countAssignments.mpr ?_
  refine Runs.bind weighed.valid weighed.runs_evaluateTheory fun _ evaluated steps tipped => ?_
  refine (runs_known tipped.propagateClauses).mpr ?_
  exact .pure ⟨rfl, tipped⟩

/-- A round leads from one side to the other. -/
theorem Leaning.runs_searchRound (leaning : Leaning side solver) (fuel time : Nat) :
    Runs carefulRules true (Solver.searchRound (fuel + 2) time) solver
      (fun answer rest => answer = none ∧ Leaning (!side) rest) excuse := by
  unfold Solver.searchRound
  refine Runs.bind leaning.valid (Solver.runs_count _) fun _ counted steps told => ?_
  have leaning := leaning.told told (Steps.valid steps leaning.valid)
  have timeless : Solver.isTimeUp counted = false := by
    unfold Solver.isTimeUp
    rw [leaning.valid.continues.configuration]
    rfl
  rw [runs_get, if_neg (by rw [timeless]; exact Bool.false_ne_true)]
  refine Runs.bind leaning.valid (leaning.runs_propagate fuel).any fun _ rest steps answered => ?_
  obtain ⟨rfl, tipped⟩ := answered
  exact tipped.runs_resolveConflict (fuel + 1)

/-- Rounds that lead from side to side run out of fuel only. -/
theorem Leaning.searchRounds (leaning : Leaning side solver) (fuel rounds : Nat) :
    ∃ rest, Solver.searchRounds (fuel + 2) rounds solver = .error .outOfFuel rest := by
  induction rounds generalizing side solver with
  | zero => exact ⟨solver, rfl⟩
  | succ rounds induction =>
      obtain ⟨answer, middle, result, _, rfl, turned⟩ :=
        (leaning.runs_searchRound fuel solver.counters.time).answer
          (orderly_of_valid leaning.valid)
      obtain ⟨rest, exhausted⟩ := induction turned
      exact ⟨rest, (Solver.searchRounds_of_none rounds result).trans exhausted⟩

/-! ## The first rounds -/

/-- The formula once it is closed. -/
def started : Solver Bound := { seesaw with status := .solving }

/-- The solver after one more round. -/
def afterRound (solver : Solver Bound) : Solver Bound := left (Solver.searchRound 2 0) solver

/-- The solver leans to the first side, as far as the atoms of the formula go. -/
def leans (solver : Solver Bound) : Bool :=
  solver.trail.level == 1 && solver.clauses.size == 2 &&
    solver.trail.truth? (.theory 0) == some true && solver.trail.level? (.theory 0) == some 1 &&
      [Atom.theory 1, .theory 2, .var 0].all fun atom => (solver.trail.get? atom).isNone

theorem leaning_of_leans (valid : seesaw.Valid carefulRules solver)
    (leans : leans solver = true) : Leaning false solver := by
  simp only [Bound.leans, Bool.and_eq_true, beq_iff_eq, List.all_cons, List.all_nil,
    Option.isNone_iff_eq_none, and_true] at leans
  obtain ⟨⟨⟨⟨level, size⟩, truth⟩, height⟩, first, second, weight⟩ := leans
  have empty : ∀ atom, atom ≠ .theory 0 → solver.trail.get? atom = none := by
    intro atom other
    refine Option.eq_none_iff_forall_ne_some.mpr fun entry found => ?_
    have admits := valid.continues.admits.mp ((orderly_of_valid valid).sorted.typed _ _ found)
    match atom, other, admits, found with
    | .var 0, _, _, found => cases weight.symm.trans found
    | .var (key + 1), _, ⟨_, present, _⟩, _ => cases present
    | .theory 0, other, _, _ => exact other rfl
    | .theory 1, _, _, found => cases first.symm.trans found
    | .theory 2, _, _, found => cases second.symm.trans found
    | .theory (key + 3), _, ⟨below, _⟩, _ =>
        exact absurd below (Nat.not_lt.mpr (Nat.le_add_left 3 key))
  refine ⟨⟨valid, level, ?_, truth, ?_⟩, empty⟩
  · intro key clause stored
    have former : ∀ either, key = lead either → clause = sideClause either := by
      rintro either rfl
      have known := valid.continues.clauses _ _ (seesaw_watched either).clause?
      exact Option.some.inj (stored.symm.trans known)
    obtain ⟨entry, present, _⟩ := ClauseStore.clause?_eq_some.mp stored
    have below := ClauseStore.stored?_lt present
    rw [size] at below
    match key, below, former with
    | 0, _, former => exact ⟨false, rfl, former false rfl⟩
    | 1, _, former => exact ⟨true, rfl, former true rfl⟩
  · intro atom entry found
    by_cases same : atom = .theory 0
    · subst same
      exact Option.some.inj ((congrArg (Option.map Entry.level) found).symm.trans height)
    · rw [empty atom same] at found
      cases found

/-- A round of an orderly solver keeps it valid. -/
theorem valid_afterRound (valid : seesaw.Valid carefulRules solver)
    (result : Solver.searchRound 2 0 solver = .ok none (afterRound solver)) :
    seesaw.Valid carefulRules (afterRound solver) := by
  have runs := Solver.runs_searchRound
    (fun _ valid => obeys_carefulRules overRationals_seesaw valid.continues) valid 2 0
  exact Steps.valid (runs.of_ok result).1 valid

/-- First zero is tried as the value of the variable, which violates the clause of
the first side; so its lead is decided. -/
theorem seesaw_leans : ∃ middle rest, Solver.searchRound 2 0 started = .ok none middle ∧
    middle.counters.time = 0 ∧ Solver.searchRound 2 0 middle = .ok none rest ∧
      Leaning false rest := by
  have first : answer? (Solver.searchRound 2 0) started = some none := by decide +kernel
  have time : (afterRound started).counters.time = 0 := by decide +kernel
  have second : answer? (Solver.searchRound 2 0) (afterRound started) = some none := by
    decide +kernel
  have leans : leans (afterRound (afterRound started)) = true := by decide +kernel
  have step : Step carefulRules true seesaw started := .tell rfl rfl rfl rfl
  have valid := step.valid stated_seesaw.ready.valid
  have validFirst := valid_afterRound valid (ok_of_answer first)
  have validSecond := valid_afterRound validFirst (ok_of_answer second)
  exact ⟨_, _, ok_of_answer first, time, ok_of_answer second, leaning_of_leans validSecond leans⟩

theorem searchRounds_more {fuel : Nat} (rounds : Nat) (time : solver.counters.time = 0)
    (result : Solver.searchRound 2 0 solver = .ok none rest) :
    Solver.searchRounds (fuel + 2) (rounds + 1) solver =
      Solver.searchRounds (fuel + 2) rounds rest := by
  refine Solver.searchRounds_of_none rounds ?_
  rw [time]
  rcases Solver.refuels_searchRound (Nat.le_add_left 2 fuel) 0 solver with same | ⟨_, exhausted⟩
  · exact same.trans result
  · cases result.symm.trans exhausted

/-- However much fuel there is, it is used up. -/
theorem seesaw_exhausts (fuel : Nat) :
    ∃ rest, Solver.solve (fuel + 2) seesaw = .error .outOfFuel rest := by
  obtain ⟨middle, last, first, time, second, leaning⟩ := seesaw_leans
  obtain ⟨rest, exhausted⟩ := leaning.searchRounds fuel fuel
  rw [← searchRounds_more fuel time second, ← searchRounds_more (fuel + 1) rfl first] at exhausted
  exact ⟨rest, Solver.solve_of_error stated_seesaw.ready.unsettled exhausted⟩

/-- The formula has a model, and the search for one does not end. -/
theorem seesaw_endless : Stated {} seesaw ∧ OverRationals seesaw ∧
    (∃ values, seesaw.Model values) ∧ ¬seesaw.Terminates := by
  refine ⟨stated_seesaw, overRationals_seesaw, ⟨_, model_seesaw⟩, ?_⟩
  rintro ⟨fuel, ends⟩
  obtain ⟨rest, exhausted⟩ := seesaw_exhausts fuel
  have same := ends.solve_eq (Nat.le_add_right fuel 2)
  exact ends.not_outOfFuel rest (same.symm.trans exhausted)

end ModelSearch.Bound
