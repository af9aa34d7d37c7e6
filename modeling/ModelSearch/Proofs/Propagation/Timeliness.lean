import ModelSearch.Proofs.Calls.Relation
import ModelSearch.Proofs.Conflicts.Audits
import ModelSearch.Proofs.Propagation.Promptness
import ModelSearch.Proofs.Search.BooleanSearch

/-!
# No propagation is late

Without theory atoms every call of a search is made while nothing has come late: below
the current level all clauses are at rest, and a level is opened only after propagation
has come to rest at the current one.  So a value that follows from a clause is always at
the level of the clause's other literals, and a violated clause is violated by two values
of the current level.
-/

namespace ModelSearch

namespace Assignment

/-- The clause is violated, and above level zero by two values of the current level. -/
def Clashes (assignment : Assignment) (key : ClauseKey) : Prop :=
  assignment.Violates key ∧ (0 < assignment.trail.level → assignment.Torn key)

end Assignment

namespace Solver

variable {τ : Type} [TheoryAtom τ] {origin solver rest : Solver τ} {jumping : Bool}
  {key : ClauseKey} {clause : Clause}

/-- A search without theory atoms has come here, and nothing has come late. -/
structure Punctual (origin solver : Solver τ) : Prop where
  valid : origin.Valid Rules.silent solver
  orderly : solver.Orderly Rules.silent
  plain : solver.Plain
  prompt : solver.Prompt

namespace Punctual

theorem steps (punctual : origin.Punctual solver) (steps : Steps Rules.silent jumping solver rest)
    (prompt : rest.Prompt) : origin.Punctual rest where
  valid := Steps.valid steps punctual.valid
  orderly := Steps.orderly steps punctual.valid punctual.orderly
  plain := Steps.plain steps punctual.valid punctual.plain
  prompt := prompt

theorem told (punctual : origin.Punctual solver) (told : Told solver rest) :
    origin.Punctual rest :=
  punctual.steps (.single (told.step : Step Rules.silent false solver rest))
    (told.assignment ▸ punctual.prompt)

/-- An action that runs, and leaves nothing late, is punctual. -/
theorem ends {α : Type} {action : SolverM τ α} {after : α → Solver τ → Prop}
    (punctual : origin.Punctual solver)
    (runs : Runs Rules.silent jumping action solver after fun _ _ => True)
    (prompt : Ends action solver (fun _ rest => rest.Prompt) fun _ rest => rest.Prompt) :
    Ends action solver (fun answer rest => origin.Punctual rest ∧ after answer rest)
      fun _ rest => origin.Punctual rest := by
  refine Ends.mono (Ends.and runs prompt) ?_ ?_
  · rintro answer rest ⟨⟨steps, answered⟩, prompt⟩
    exact ⟨punctual.steps steps prompt, answered⟩
  · rintro fault rest ⟨breaks, prompt⟩
    cases fault with
    | abort abort => exact absurd punctual.orderly breaks
    | error error => exact punctual.steps breaks.1 prompt
    | outOfFuel => exact punctual.steps breaks.1 prompt

theorem counting (punctual : origin.Punctual solver) (update : Counters → Counters) :
    origin.Punctual (solver.counting update) :=
  punctual.told (told_count solver _)

theorem sound (punctual : origin.Punctual solver) : solver.trail.Sound :=
  punctual.valid.coherent.assignment.trail

theorem clashes (punctual : origin.Punctual solver) (watched : solver.clauses.Watched key clause)
    (falsified : ∀ literal ∈ clause, solver.Falsifies literal) : solver.Clashes key :=
  ⟨⟨clause, watched.clause?, falsified⟩, punctual.prompt.torn punctual.sound watched falsified⟩

end Punctual

/-! ## Theory atoms -/

theorem evaluable_of_atomless (coherent : solver.Coherent) (atomless : solver.theoryAtoms = #[]) :
    solver.evaluable = [] := by
  refine List.eq_nil_iff_forall_not_mem.mpr fun key inside => ?_
  obtain ⟨_, atom, present, _⟩ := (mem_evaluable coherent).mp inside
  rw [atomless] at present
  cases present

theorem semanticUnits_of_atomless (coherent : solver.Coherent)
    (atomless : solver.theoryAtoms = #[]) : solver.vars.semanticUnits = [] := by
  refine List.eq_nil_iff_forall_not_mem.mpr ?_
  rintro ⟨owner, unassigned⟩ inside
  obtain ⟨keys, watching, _⟩ := coherent.assignment.vars.mem_semanticUnits.mp inside
  obtain ⟨atom, present, _⟩ := (coherent.supports _ _).mp watching
  rw [atomless] at present
  cases present

theorem evaluateTheory_of_atomless (coherent : solver.Coherent)
    (atomless : solver.theoryAtoms = #[]) : evaluateTheory solver = .ok ⟨⟩ solver :=
  evaluateTheory_of_none (evaluable_of_atomless coherent atomless)

theorem consultTheory_of_atomless (coherent : solver.Coherent)
    (atomless : solver.theoryAtoms = #[]) : consultTheory solver = .ok none solver := by
  unfold Solver.consultTheory
  rw [get_bind, semanticUnits_of_atomless coherent atomless]
  rfl

theorem Punctual.evaluateTheory (punctual : origin.Punctual solver) :
    evaluateTheory solver = .ok ⟨⟩ solver :=
  evaluateTheory_of_atomless punctual.valid.coherent punctual.plain.atomless

theorem Punctual.consultTheory (punctual : origin.Punctual solver) :
    consultTheory solver = .ok none solver :=
  consultTheory_of_atomless punctual.valid.coherent punctual.plain.atomless

/-! ## Clauses -/

omit [TheoryAtom τ] in
theorem propagateLiteral_of_false {literal : Literal}
    (falsified : solver.trail.literalTruth? literal = some false) :
    propagateLiteral key literal solver = .ok (.error key) (solver.counting fun counters =>
      { counters with clausalPropagations := counters.clausalPropagations + 1 }) := by
  unfold propagateLiteral
  rw [bind_eq (count_eq _ _), get_bind, toAssignment_counting, falsified]
  rfl

omit [TheoryAtom τ] in
theorem propagateLiteral_of_true {literal : Literal}
    (verified : solver.trail.literalTruth? literal = some true) :
    propagateLiteral key literal solver = .ok (.ok false) (solver.counting fun counters =>
      { counters with clausalPropagations := counters.clausalPropagations + 1 }) := by
  unfold propagateLiteral
  rw [bind_eq (count_eq _ _), get_bind, toAssignment_counting, verified]
  rfl

theorem Punctual.propagateLiteral (punctual : origin.Punctual solver) {literal : Literal}
    (due : solver.Due key literal) :
    Ends (propagateLiteral key literal) solver
      (fun answer rest => origin.Punctual rest ∧ Steps Rules.silent false solver rest ∧
        Propagated solver key literal answer rest)
      fun _ rest => origin.Punctual rest := by
  obtain ⟨clause, stored, member, others, _⟩ := id due
  have runs : ∀ excuse, Runs Rules.silent false (Solver.propagateLiteral key literal) solver
      (Propagated solver key literal) excuse := fun _ =>
    runs_propagateLiteral punctual.valid stored member others
  have stepping := (runs fun _ _ => True).imp fun _ _ steps propagated => And.intro steps propagated
  refine punctual.ends stepping (Ends.mono ((runs fun _ _ => False).traced.unbroken
    punctual.orderly) ?_ fun _ _ => False.elim)
  rintro answer rest ⟨propagated, result⟩
  match answer, propagated with
  | .error conflict, propagated =>
      rw [propagateLiteral_of_false propagated.2.2] at result
      cases result
      exact punctual.prompt
  | .ok false, propagated => exact propagated.1 ▸ punctual.prompt
  | .ok true, propagated =>
      rw [propagated.2]
      refine Prompt.given punctual.prompt propagated.1.unvalued ?_
      rintro _ ⟨⟩
      exact due.inTime punctual.sound propagated.1.unvalued

/-- Each pair is a watched clause and its last literal that may be true. -/
def Awaiting (solver : Solver τ) (units : List (ClauseKey × Literal)) : Prop :=
  ∀ pair ∈ units, ∃ clause, solver.clauses.Watched pair.1 clause ∧ pair.2 ∈ clause ∧
    ∀ other ∈ clause, other ≠ pair.2 → solver.Falsifies other

theorem Punctual.due (punctual : origin.Punctual solver) {literal : Literal}
    {units : List (ClauseKey × Literal)} (awaiting : solver.Awaiting ((key, literal) :: units)) :
    solver.Due key literal := by
  obtain ⟨clause, watched, member, others⟩ := awaiting _ List.mem_cons_self
  exact ⟨clause, watched.clause?, member, others,
    punctual.prompt.latest punctual.sound watched others⟩

theorem Punctual.awaiting_tail (punctual : origin.Punctual solver) {pair : ClauseKey × Literal}
    {units : List (ClauseKey × Literal)} (awaiting : solver.Awaiting (pair :: units))
    (steps : Steps Rules.silent false solver rest) : rest.Awaiting units := by
  intro other inside
  obtain ⟨clause, watched, member, others⟩ := awaiting other (List.mem_cons_of_mem _ inside)
  exact ⟨clause, Steps.watched steps punctual.valid watched, member, fun literal within different =>
    (Steps.grown steps).falsifies (others literal within different)⟩

theorem Punctual.propagateUnits {units : List (ClauseKey × Literal)}
    (punctual : origin.Punctual solver) (awaiting : solver.Awaiting units) :
    Ends (propagateUnits units) solver
      (fun answer rest => origin.Punctual rest ∧
        ∀ conflict, answer = some conflict → rest.Clashes conflict)
      fun _ rest => origin.Punctual rest := by
  induction units generalizing solver with
  | nil => exact ⟨punctual, nofun⟩
  | cons unit units induction =>
      obtain ⟨key, literal⟩ := unit
      refine Ends.bind (punctual.propagateLiteral (punctual.due awaiting)) ?_ fun _ _ => id
      rintro answer middle ⟨punctualMiddle, steps, propagated⟩
      cases answer with
      | error conflict =>
          -- An earlier literal of the batch made this one false, at the same level.
          obtain ⟨clause, watched, _⟩ := awaiting _ List.mem_cons_self
          obtain ⟨rfl, ⟨again, stored, falsified⟩, _⟩ := propagated
          have watched := Steps.watched steps punctual.valid watched
          obtain rfl := Option.some.inj (watched.clause?.symm.trans stored)
          refine ⟨punctualMiddle, ?_⟩
          rintro _ ⟨⟩
          exact punctualMiddle.clashes watched falsified
      | ok given => exact induction punctualMiddle (punctual.awaiting_tail awaiting steps)

theorem awaiting_units (coherent : solver.Coherent) : solver.Awaiting solver.clauses.units := by
  rintro ⟨key, literal⟩ inside
  obtain ⟨clause, unit⟩ := coherent.assignment.clauses.mem_units.mp inside
  exact ⟨clause, unit.watched, unit.member, fun other member different =>
    Assignment.falsifies_iff.mpr (unit.others other member different)⟩

theorem Punctual.propagateClauses (punctual : origin.Punctual solver) :
    Ends propagateClauses solver
      (fun answer rest => origin.Punctual rest ∧
        ∀ conflict, answer = some conflict → rest.Clashes conflict)
      fun _ rest => origin.Punctual rest := by
  unfold Solver.propagateClauses
  refine ends_get_bind.mpr ?_
  dsimp only
  cases found : solver.clauses.violated.head? with
  | some conflict =>
      obtain ⟨clause, watched, falsified⟩ :=
        punctual.valid.coherent.assignment.clauses.mem_violated.mp (List.mem_of_head? found)
      refine ⟨punctual, ?_⟩
      rintro _ ⟨⟩
      exact punctual.clashes watched fun literal member =>
        Assignment.falsifies_iff.mpr (falsified literal member)
  | none => exact punctual.propagateUnits (awaiting_units punctual.valid.coherent)

/-- What a propagation shows: two values of the current level violate a clause, or no
value is due. -/
def Closed (solver : Solver τ) (answer : Option ClauseKey) : Prop :=
  match answer with
  | some conflict => solver.Clashes conflict
  | none => solver.Settled

/-- Without theory atoms a round that adds nothing leaves the clauses at rest. -/
theorem Punctual.settled (punctual : origin.Punctual solver) (passed : Passed solver rest)
    (grown : Grown solver rest) (same : ¬solver.trail.size < rest.trail.size) :
    rest.Settled := by
  obtain ⟨idle, rfl⟩ := passed.settled (grown.trail.resolve_right same)
  exact punctual.valid.coherent.assignment.settled idle fun key clause watched falsified =>
    passed.fine key ⟨clause, watched, falsified⟩

theorem Punctual.propagate (punctual : origin.Punctual solver) (rounds : Nat) :
    Ends (propagate rounds) solver
      (fun answer rest => origin.Punctual rest ∧ rest.Closed answer)
      fun _ rest => origin.Punctual rest := by
  induction rounds generalizing solver with
  | zero => exact punctual
  | succ rounds induction =>
      have runs : Runs Rules.silent false Solver.propagateClauses solver
          (fun answer rest => rest.Concludes answer (Passed solver rest)) fun _ _ => True :=
        runs_propagateClauses punctual.valid
      unfold Solver.propagate
      refine (ends_known rfl).mpr ((ends_known punctual.evaluateTheory).mpr ?_)
      refine Ends.bind (Ends.and runs.grown punctual.propagateClauses) ?_ fun _ _ ends => ends.2
      rintro answer passed ⟨⟨_, concludes, grown⟩, punctualPassed, clashes⟩
      cases answer with
      | some conflict => exact ⟨punctualPassed, clashes conflict rfl⟩
      | none =>
          refine (ends_known rfl).mpr ?_
          split
          · exact induction punctualPassed
          · next same =>
              refine (ends_known punctualPassed.consultTheory).mpr ((ends_known rfl).mpr ?_)
              split
              · exact ⟨punctualPassed, punctual.settled concludes grown same⟩
              · exact induction punctualPassed

/-! ## Conflicts -/

theorem Punctual.explain (punctual : origin.Punctual solver) {conflict : ClauseKey}
    (violated : solver.Violates conflict) (fuel : Nat) :
    Ends (explain fuel conflict) solver
      (fun explanation rest => origin.Punctual rest ∧ rest.Violates conflict ∧
        rest.Explanation explanation)
      fun _ rest => origin.Punctual rest := by
  obtain ⟨clause, stored, falsified⟩ := id violated
  have runs : Runs Rules.silent false (Solver.explain fuel conflict) solver
      (fun explanation rest => Told solver rest ∧ solver.Explanation explanation) _ :=
    runs_explain punctual.valid violated fuel
  have tells := ends_explain punctual.valid.coherent.assignment punctual.valid.reasoned stored
    falsified fuel
  refine (punctual.ends runs.excused (tells.mono ?_ ?_)).mono ?_ fun _ _ => id
  · rintro _ rest ⟨_, _, tells, _⟩
    exact tells.assignment ▸ punctual.prompt
  · rintro _ rest ⟨_, _, tells, _⟩
    exact tells.assignment ▸ punctual.prompt
  · rintro explanation rest ⟨punctual, told, explained⟩
    rw [told.assignment]
    exact ⟨punctual, violated, explained⟩

theorem Punctual.storeExplanation (punctual : origin.Punctual solver) {conflict : ClauseKey}
    (violated : solver.Violates conflict) (backjumpable : solver.Backjumpable clause) :
    Ends (storeExplanation conflict clause) solver
      (fun key rest => origin.Punctual rest ∧ rest.Usable key clause)
      fun _ rest => origin.Punctual rest := by
  obtain ⟨original, stored, _⟩ := id violated
  have runs : Runs Rules.silent false (Solver.storeExplanation conflict clause) solver
      (fun key rest => rest.Usable key clause ∧ rest.trail = solver.trail) fun _ _ => True :=
    runs_storeExplanation punctual.valid violated backjumpable
  refine (punctual.ends runs ?_).mono (fun _ _ ends => ⟨ends.1, ends.2.1⟩) fun _ _ => id
  rw [Ends, storeExplanation_eq stored]
  by_cases same : original = clause
  · rw [if_pos same]
    exact punctual.prompt
  · rw [if_neg same]
    exact Prompt.stored punctual.prompt clause .resolution

/-- The clause is at rest below the current level, if it is stored. -/
def Learnable (solver : Solver τ) (key : ClauseKey) : Prop :=
  ∀ clause, solver.clauses.clause? key = some clause →
    ∀ level < solver.trail.level, solver.RestsBy level clause

/-- A jump leads to where a single literal of the clause is due. -/
structure Asserts (origin solver : Solver τ) (key : ClauseKey) (clause : Clause)
    (top : TopLiterals) (target : Nat) (literal : Literal) : Prop where
  tops : solver.trail.Tops clause top
  aims : solver.trail.Target clause top target .uniqueImplication
  single : top.literals = [literal]
  punctual : origin.Punctual (solver.jumped target .uniqueImplication)
  due : (solver.jumped target .uniqueImplication).Due key literal

theorem Punctual.asserts (punctual : origin.Punctual solver) (usable : solver.Usable key clause) :
    ∃ top target literal, origin.Asserts solver key clause top target literal := by
  have valid := punctual.valid
  have coherent := valid.coherent.assignment
  obtain ⟨top, answer, tops, jumps⟩ := usable.backjumpable.top
  obtain ⟨target, kind, aims⟩ :=
    Trail.backjumpTarget_spec usable.backjumpable.nonempty answer tops jumps
  have unsplit : kind ≠ .semanticSplit := fun split =>
    punctual.plain.unevaluated (aims.evaluated tops split)
  obtain rfl : kind = .uniqueImplication := by
    cases kind with
    | uniqueImplication => rfl
    | semanticSplit => exact absurd rfl unsplit
  obtain ⟨literal, single⟩ := List.length_eq_one_iff.mp (aims.single rfl)
  have below := target_lt coherent tops aims
  have step : Step Rules.silent true solver (solver.jumped target .uniqueImplication) :=
    .jump rfl _ below (aims.evaluated tops)
  have level := level_jumped coherent tops aims
  have inside : literal ∈ top.literals := by rw [single]; exact List.mem_cons_self
  have stored := (clause?_jumped coherent target .uniqueImplication key).trans usable.stored
  refine ⟨top, target, literal, tops, aims, single, ?_, clause, stored,
    (tops.mem.mp inside).1, fun other member different => ?_, fun _ positive => ?_⟩
  · exact punctual.steps (.single step) (Prompt.jumped punctual.prompt coherent target _)
  · refine others_jumped coherent usable.backjumpable.conflicting.falsified tops aims other member
      fun top => different ?_
    rw [single] at top
    exact List.mem_singleton.mp top
  · rw [level] at positive ⊢
    obtain ⟨other, member, levelled⟩ := (Trail.backjumpTarget_attained aims.answer).resolve_left
      (Nat.ne_of_gt positive)
    obtain ⟨entry, found, same⟩ := Trail.level?_eq_some.mp levelled
    refine ⟨other, member, ?_, Trail.level?_eq_some.mpr ⟨entry, ?_, same⟩⟩
    · rintro rfl
      have top := (tops.mem.mp inside).2
      rw [levelled] at top
      exact absurd (Option.some.inj top) (Nat.ne_of_lt aims.below)
    · exact (get?_jumped coherent).mpr ⟨found, Nat.le_of_eq same⟩

/-- A clause that asserted a literal is at rest below the level of the jump. -/
theorem Asserts.learnable {top : TopLiterals} {target : Nat} {literal : Literal}
    (asserts : origin.Asserts solver key clause top target literal)
    (propagated : Propagated (solver.jumped target .uniqueImplication) key literal (.ok true)
      rest) : rest.Learnable key := by
  obtain ⟨free, same⟩ := propagated
  obtain ⟨stored, present, member, others, latest⟩ := asserts.due
  have clauses : rest.clauses.clause? key = some stored := by
    rw [congrArg Assignment.clauses same]
    exact (clause?_given _ _ _ _ _ _).trans present
  have found : ∀ atom, rest.trail.get? atom =
      if literal.atom = atom then some ⟨.boolean literal.polarity,
        (solver.jumped target .uniqueImplication).trail.level, .clause key,
        (solver.jumped target .uniqueImplication).trail.position⟩
      else (solver.jumped target .uniqueImplication).trail.get? atom := by
    intro atom
    rw [congrArg Assignment.trail same]
    exact get?_given _ _ _ _ _ _
  intro clause again level below
  obtain rfl := Option.some.inj (clauses.symm.trans again)
  have height : rest.trail.level = (solver.jumped target .uniqueImplication).trail.level := by
    rw [congrArg Assignment.trail same]
    exact level_given _ _ _ _ _
  rw [height] at below
  obtain ⟨other, inside, different, levelled⟩ :=
    latest free.unvalued (Nat.zero_lt_of_lt below)
  refine .inr ⟨literal, member, other, inside, different.symm, ?_, ?_⟩
  · rintro ⟨entry, given, _, value⟩
    rw [found, if_pos rfl] at given
    rw [← Option.some.inj given] at value
    exact Bool.self_ne_not _ (Value.boolean.inj value)
  · rintro ⟨entry, given, low, _⟩
    obtain ⟨former, held, same⟩ := Trail.level?_eq_some.mp levelled
    rw [found, if_neg (Trail.ne_of_get? free.unvalued held), held] at given
    rw [← Option.some.inj given] at low
    omega

theorem Punctual.backjump (punctual : origin.Punctual solver)
    (usable : solver.Usable key clause) :
    Ends (backjump key) solver (fun _ rest => origin.Punctual rest ∧ rest.Learnable key)
      fun _ rest => origin.Punctual rest := by
  obtain ⟨top, target, literal, asserts⟩ := punctual.asserts usable
  have runs : ∀ excuse, Runs Rules.silent true (Solver.backjump key) solver
      (fun kind rest => kind = .uniqueImplication ∧
        Propagated (solver.jumped target .uniqueImplication) key literal (.ok true) rest ∧
        rest.splits = solver.splits) excuse := fun _ =>
    runs_backjump_literal punctual.valid usable asserts.tops asserts.aims asserts.single
  refine (punctual.ends (runs _) ?_).mono
    (fun _ _ ends => ⟨ends.1, asserts.learnable ends.2.2.1⟩) fun _ _ => id
  refine Ends.mono ((runs fun _ _ => False).unbroken punctual.orderly) ?_ fun _ _ => False.elim
  rintro kind rest ⟨_, ⟨free, same⟩, _⟩
  rw [same]
  refine Prompt.given asserts.punctual.prompt free.unvalued ?_
  rintro _ ⟨⟩
  exact asserts.due.inTime asserts.punctual.sound free.unvalued

theorem Punctual.learn (punctual : origin.Punctual solver) (learnable : solver.Learnable key) :
    Ends (learn key) solver (fun _ rest => origin.Punctual rest)
      fun _ rest => origin.Punctual rest := by
  unfold Solver.learn
  refine ends_get_bind.mpr ?_
  cases present : solver.clauses.stored? key with
  | none => exact punctual
  | some stored =>
      dsimp only
      split
      · have watched : origin.Punctual { solver with clauses := solver.clauses.watch key } :=
          punctual.steps (.single (.watch key : Step Rules.silent false solver _))
            (Prompt.watch punctual.prompt learnable)
        refine (ends_known (watchClause_of_lt (ClauseStore.stored?_lt present))).mpr
          ((ends_known (count_eq _ _)).mpr ?_)
        exact (watched.counting _).told (told_emit _ rfl)
      · exact punctual

theorem Punctual.resolveConflict (punctual : origin.Punctual solver) {conflict : ClauseKey}
    (violated : solver.Violates conflict) (fuel : Nat) :
    Ends (resolveConflict fuel conflict) solver (fun _ rest => origin.Punctual rest)
      fun _ rest => origin.Punctual rest := by
  unfold Solver.resolveConflict
  refine (ends_known (count_eq _ _)).mpr ?_
  refine Ends.bind ((punctual.counting _).explain violated fuel) ?_ fun _ _ => id
  rintro explanation explained ⟨punctual, violated, explains⟩
  split
  · exact punctual.told (told_status _ .unsatisfiable)
  · next nonempty =>
      have backjumpable := explains.resolve_left fun empty => nonempty empty.1
      refine Ends.bind (punctual.storeExplanation violated backjumpable) ?_ fun _ _ => id
      rintro key storing ⟨punctual, usable⟩
      refine Ends.bind (punctual.backjump usable) ?_ fun _ _ => id
      rintro kind returned ⟨punctual, learnable⟩
      exact Ends.bind (punctual.learn learnable) (fun _ _ => id) fun _ _ => id

/-! ## Rounds -/

theorem Punctual.makeDecision (punctual : origin.Punctual solver) (settled : solver.Settled) :
    Ends makeDecision solver (fun _ rest => origin.Punctual rest)
      fun _ rest => origin.Punctual rest := by
  refine (ends_makeDecision punctual.valid.coherent.assignment).mono ?_
    fun _ _ absurdity => absurdity.elim
  intro answer rest ends
  cases answer with
  | none => exact ends.1 ▸ punctual
  | some choice =>
      obtain ⟨key, known, queue, decided⟩ := ends
      have chosen : (solver.chosen (.var key) known.sort.defaultValue).Prompt :=
        Prompt.chosen punctual.prompt settled punctual.sound decided.free.unvalued _
      refine punctual.steps (decided.steps : Steps Rules.silent false solver rest)
        (chosen.congr ?_ ?_) <;> rw [decided.assignment]

theorem Punctual.extendOrReport (punctual : origin.Punctual solver) (settled : solver.Settled) :
    Ends extendOrReport solver (fun _ rest => origin.Punctual rest)
      fun _ rest => origin.Punctual rest := by
  unfold Solver.extendOrReport
  refine Ends.bind (punctual.makeDecision settled) (fun decision rest punctual => ?_) fun _ _ => id
  cases decision with
  | some choice => exact punctual
  | none =>
      refine ends_get_bind.mpr ?_
      split
      · exact punctual
      · exact punctual.told (told_status _ .satisfiable)

theorem Punctual.searchRound (punctual : origin.Punctual solver) (fuel time : Nat) :
    Ends (searchRound fuel time) solver (fun _ rest => origin.Punctual rest)
      fun _ rest => origin.Punctual rest := by
  have punctual := punctual.counting fun counters =>
    { counters with iterations := counters.iterations + 1, time }
  unfold Solver.searchRound
  refine (ends_known (count_eq _ _)).mpr (ends_get_bind.mpr ?_)
  split
  · exact punctual
  · refine Ends.bind (punctual.propagate fuel) ?_ fun _ _ => id
    rintro answer closed ⟨punctual, closes⟩
    cases answer with
    | some conflict => exact punctual.resolveConflict closes.1 fuel
    | none => exact punctual.extendOrReport closes

theorem Punctual.searchRounds (punctual : origin.Punctual solver) (fuel rounds : Nat) :
    Ends (searchRounds fuel rounds) solver (fun _ rest => origin.Punctual rest)
      fun _ rest => origin.Punctual rest := by
  induction rounds generalizing solver with
  | zero => exact punctual
  | succ rounds induction =>
      unfold Solver.searchRounds
      refine ends_get_bind.mpr (Ends.bind (punctual.searchRound fuel _) ?_ fun _ _ => id)
      intro answer rest punctual
      cases answer with
      | some report => exact punctual
      | none => exact induction punctual

theorem Punctual.endSearch (punctual : origin.Punctual solver) (report : Report) :
    Ends (endSearch report) solver (fun _ rest => origin.Punctual rest)
      fun _ rest => origin.Punctual rest :=
  (ends_endSearch report).mono (fun _ _ told => punctual.told told)
    fun _ _ absurdity => absurdity.elim

theorem Punctual.solve (punctual : origin.Punctual solver) (fuel : Nat) :
    Ends (solve fuel) solver (fun _ rest => origin.Punctual rest)
      fun _ rest => origin.Punctual rest := by
  unfold Solver.solve
  refine ends_get_bind.mpr ?_
  split
  · exact punctual
  · have searching := punctual.told (told_status solver .solving)
    refine (ends_known rfl).mpr (Ends.bind (searching.searchRounds fuel fuel)
      (fun report rest punctual => ?_) fun _ _ => id)
    exact Ends.bind (punctual.endSearch report) (fun _ _ => id) fun _ _ => id

/-! ## Between opening a level and giving the value -/

omit [TheoryAtom τ] in
theorem timely_setValue {atom : Atom} {value : Value} {reason : Reason} {level : Nat}
    (timely : solver.Timely) (given : solver.trail.get? atom = none →
      (solver.given atom value reason level).Timely) :
    Ends (setValue atom value reason level) solver (fun _ rest => rest.Timely)
      fun _ rest => rest.Timely := by
  rw [setValue_eq]
  refine ends_get_bind.mpr ?_
  cases accepted : solver.setError? atom level with
  | some abort => exact timely
  | none => exact given (Assignment.setError?_eq_none.mp accepted).2.1

theorem Punctual.retreat (punctual : origin.Punctual solver) (level : Nat) :
    Ends (retreat level) solver (fun _ rest => rest.Timely) fun _ rest => rest.Timely := by
  have coherent := punctual.valid.coherent.assignment
  unfold Ends
  rcases Nat.lt_or_ge level solver.trail.level with below | above
  · rw [retreat_of_lt coherent below]
    exact (Prompt.jumped punctual.prompt coherent level .uniqueImplication).timely
  · rw [retreat_of_le above]
    exact punctual.prompt.timely

omit [TheoryAtom τ] in
theorem timely_decide {atom : Atom} {value : Value} (timely : solver.Timely) :
    Ends (decide atom value) solver (fun _ rest => rest.Timely) fun _ rest => rest.Timely := by
  unfold decide
  refine ends_get_bind.mpr ?_
  split
  · exact timely
  · refine (ends_known rfl).mpr (ends_get_bind.mpr ?_)
    refine Ends.bind (timely_setValue (Timely.opened timely) fun unvalued => ?_)
      (fun _ _ => id) fun _ _ => id
    exact Timely.given (Timely.opened timely) unvalued nofun

/-! ## Calls -/

/-- What holds of the solver when a call is made, in a search without theory atoms. -/
def Serves (solver : Solver τ) : Call → Prop
  | .evaluateAtoms keys => keys = []
  | .consultAtoms units => units = []
  | .evaluateAtom _ | .runHook _ | .assignImplied _ _ | .offerLemma _ => False
  | .propagateUnits units => solver.Awaiting units
  | .propagateLiteral key literal => solver.Due key literal
  | .resolveConflict conflict | .explain conflict => solver.Violates conflict
  | .storeExplanation conflict explanation =>
      solver.Violates conflict ∧ solver.Backjumpable explanation
  | .backjump key => ∃ clause, solver.Usable key clause
  | .learn key => solver.Learnable key
  | .extendOrReport | .makeDecision => solver.Settled
  | _ => True

/-- Calls are made of punctual solvers, but a choice is made of one that was popped from
the queue or has a level without entries. -/
def Fits (origin : Solver τ) : Call → Solver τ → Prop
  | .decide _ _, solver => solver.Timely
  | .setValue atom value reason level, solver => solver.Timely ∧
      (solver.trail.get? atom = none → (solver.given atom value reason level).Timely)
  | call, solver => origin.Punctual solver ∧ solver.Serves call

theorem Fits.timely {call : Call} (fits : origin.Fits call solver) : solver.Timely := by
  cases call with
  | decide atom value => exact fits
  | setValue atom value reason level => exact fits.1
  | _ => exact fits.1.prompt.timely

private theorem timely_of_punctual {α : Type} {action : SolverM τ α}
    (ends : Ends action solver (fun _ rest => origin.Punctual rest)
      fun _ rest => origin.Punctual rest) :
    Ends action solver (fun _ rest => rest.Timely) fun _ rest => rest.Timely :=
  ends.mono (fun _ _ punctual => punctual.prompt.timely)
    fun _ _ punctual => punctual.prompt.timely

/-- What else an action shows does not matter, nor what it answers. -/
private theorem discard_timely {α : Type} {action : SolverM τ α} {also : α → Solver τ → Prop}
    (ends : Ends action solver (fun answer rest => origin.Punctual rest ∧ also answer rest)
      fun _ rest => origin.Punctual rest) :
    Ends (discard action) solver (fun _ rest => rest.Timely) fun _ rest => rest.Timely :=
  ends_discard.mpr (timely_of_punctual (ends.mono (fun _ _ ends => ends.1) fun _ _ => id))

/-- A call leaves no late value behind. -/
theorem Fits.leaves {call : Call} (fits : origin.Fits call solver) (fuel : Nat) :
    Ends (call.perform fuel) solver (fun _ rest => rest.Timely) fun _ rest => rest.Timely := by
  cases call with
  | solve => exact ends_discard.mpr (timely_of_punctual (fits.1.solve fuel))
  | searchRounds rounds =>
      exact ends_discard.mpr (timely_of_punctual (fits.1.searchRounds fuel rounds))
  | searchRound time =>
      exact ends_discard.mpr (timely_of_punctual (fits.1.searchRound fuel time))
  | propagate rounds => exact discard_timely (fits.1.propagate rounds)
  | evaluateTheory =>
      show Ends Solver.evaluateTheory solver _ _
      rw [Ends, fits.1.evaluateTheory]
      exact fits.1.prompt.timely
  | evaluateAtoms keys =>
      obtain ⟨punctual, rfl⟩ := fits
      exact punctual.prompt.timely
  | propagateClauses => exact discard_timely fits.1.propagateClauses
  | propagateUnits units => exact discard_timely (fits.1.propagateUnits fits.2)
  | propagateLiteral key literal => exact discard_timely (fits.1.propagateLiteral fits.2)
  | consultTheory =>
      refine ends_discard.mpr ?_
      rw [Ends, fits.1.consultTheory]
      exact fits.1.prompt.timely
  | consultAtoms units =>
      obtain ⟨punctual, rfl⟩ := fits
      exact punctual.prompt.timely
  | evaluateAtom | runHook | assignImplied | offerLemma => exact fits.2.elim
  | resolveConflict conflict =>
      exact ends_discard.mpr (timely_of_punctual (fits.1.resolveConflict fits.2 fuel))
  | explain conflict => exact discard_timely (fits.1.explain fits.2 fuel)
  | storeExplanation conflict explanation =>
      exact discard_timely (fits.1.storeExplanation fits.2.1 fits.2.2)
  | backjump key =>
      obtain ⟨punctual, clause, usable⟩ := fits
      exact discard_timely (punctual.backjump usable)
  | retreat level => exact fits.1.retreat level
  | learn key => exact timely_of_punctual (fits.1.learn fits.2)
  | extendOrReport =>
      exact ends_discard.mpr (timely_of_punctual (fits.1.extendOrReport fits.2))
  | makeDecision => exact ends_discard.mpr (timely_of_punctual (fits.1.makeDecision fits.2))
  | decide atom value => exact timely_decide fits
  | setValue atom value reason level => exact timely_setValue fits.1 fits.2
  | endSearch report => exact timely_of_punctual (fits.1.endSearch report)

/-- The calls of a round of propagation. -/
private theorem Punctual.passed {passed : Solver τ} (punctual : origin.Punctual solver)
    (evaluates : Solver.evaluateTheory solver = .ok ⟨⟩ rest)
    (passes : Solver.propagateClauses rest = .ok none passed) : origin.Punctual passed := by
  rw [punctual.evaluateTheory] at evaluates
  cases evaluates
  exact (punctual.propagateClauses.of_ok passes).1

/-- An analysis comes to a clause to jump back with. -/
private theorem Punctual.explained {fuel : Nat} {conflict : ClauseKey}
    (punctual : origin.Punctual solver) (violated : solver.Violates conflict)
    (explains : Solver.explain fuel conflict (enteringConflict solver) = .ok clause rest)
    (nonempty : clause.isEmpty = false) :
    origin.Punctual rest ∧ rest.Violates conflict ∧ rest.Backjumpable clause := by
  obtain ⟨punctual, violated, explained⟩ :=
    ((punctual.counting _).explain violated fuel).of_ok explains
  refine ⟨punctual, violated, explained.resolve_left fun bare => ?_⟩
  rw [nonempty] at bare
  cases bare.1

/-- A jump calls for the only top literal of its clause. -/
private theorem Asserts.assertion {top : TopLiterals} {target : Nat} {literal single : Literal}
    (asserts : origin.Asserts solver key clause top target literal)
    (punctual : origin.Punctual solver) (usable : solver.Usable key clause)
    (retreats : Solver.retreat target solver = .ok ⟨⟩ rest)
    (opened : (clause.literals.filter fun literal =>
      (rest.trail.get? literal.atom).isNone) = [single]) :
    single = literal ∧ telling (.backjump solver.trail.level target .uniqueImplication) rest =
      solver.jumped target .uniqueImplication := by
  have coherent := punctual.valid.coherent.assignment
  rw [retreat_of_lt coherent (target_lt coherent asserts.tops asserts.aims)] at retreats
  cases retreats
  have again := open_jumped coherent usable.backjumpable.conflicting.falsified asserts.tops
    asserts.aims
  rw [asserts.single] at again
  exact ⟨(List.cons.inj (opened.symm.trans again)).1, rfl⟩

/-- Calls are made with what they need. -/
theorem Fits.calls {fuel : Nat} {caller callee : Call} (fits : origin.Fits caller solver)
    (calls : Calls fuel caller solver callee rest) : origin.Fits callee rest := by
  cases calls with
  | searchRounds unsettled => exact ⟨fits.1.told (told_status solver .solving), trivial⟩
  | endSearch unsettled reported =>
      exact ⟨((fits.1.told (told_status solver .solving)).searchRounds fuel fuel).of_ok reported,
        trivial⟩
  | searchRound => exact fits
  | nextRound went => exact ⟨(fits.1.searchRound fuel _).of_ok went, trivial⟩
  | propagate early => exact ⟨fits.1.counting _, trivial⟩
  | resolveConflict early violated =>
      have ends := ((fits.1.counting _).propagate fuel).of_ok violated
      exact ⟨ends.1, ends.2.1⟩
  | extendOrReport early closed => exact ((fits.1.counting _).propagate fuel).of_ok closed
  | evaluateTheory => exact fits
  | propagateClauses evaluates =>
      rw [fits.1.evaluateTheory] at evaluates
      cases evaluates
      exact fits
  | propagateAgain evaluates passes longer => exact ⟨fits.1.passed evaluates passes, trivial⟩
  | consultTheory evaluates passes settled => exact ⟨fits.1.passed evaluates passes, trivial⟩
  | propagateFurther evaluates passes settled consults different =>
      have punctual := fits.1.passed evaluates passes
      rw [punctual.consultTheory] at consults
      cases consults
      exact ⟨punctual, trivial⟩
  | evaluateAtoms =>
      exact ⟨fits.1, evaluable_of_atomless fits.1.valid.coherent fits.1.plain.atomless⟩
  | evaluateAtom | nextAtom => exact absurd fits.2 nofun
  | propagateUnits fine => exact ⟨fits.1, awaiting_units fits.1.valid.coherent⟩
  | propagateLiteral => exact ⟨fits.1, fits.1.due fits.2⟩
  | nextUnit propagates =>
      obtain ⟨punctual, steps, _⟩ :=
        (fits.1.propagateLiteral (fits.1.due fits.2)).of_ok propagates
      exact ⟨punctual, fits.1.awaiting_tail fits.2 steps⟩
  | consequence undetermined =>
      refine ⟨fits.1.prompt.timely, fun unvalued => ?_⟩
      refine Timely.given fits.1.prompt.timely unvalued ?_
      rintro _ ⟨⟩
      exact fits.2.inTime fits.1.sound unvalued
  | consultAtoms =>
      exact ⟨fits.1, semanticUnits_of_atomless fits.1.valid.coherent fits.1.plain.atomless⟩
  | runHook | nextConsultation | skippedConsultation => exact absurd fits.2 nofun
  | evaluation | inspected | assignImplied | assigned | implied | request | requested
  | offerLemma | offered => exact fits.2.elim
  | explain => exact ⟨fits.1.counting _, fits.2⟩
  | storeExplanation explains nonempty => exact fits.1.explained fits.2 explains nonempty
  | backjump explains nonempty stores =>
      obtain ⟨punctual, violated, backjumpable⟩ := fits.1.explained fits.2 explains nonempty
      obtain ⟨punctual, usable⟩ := (punctual.storeExplanation violated backjumpable).of_ok stores
      exact ⟨punctual, _, usable⟩
  | learn explains nonempty stores returns =>
      obtain ⟨punctual, violated, backjumpable⟩ := fits.1.explained fits.2 explains nonempty
      obtain ⟨punctual, usable⟩ := (punctual.storeExplanation violated backjumpable).of_ok stores
      exact (punctual.backjump usable).of_ok returns
  | retreat stored aims => exact ⟨fits.1, trivial⟩
  | assertion stored aims retreats single =>
      obtain ⟨punctual, clause, usable⟩ := fits
      obtain rfl := Option.some.inj (stored.symm.trans usable.stored)
      obtain ⟨top, target, literal, asserts⟩ := punctual.asserts usable
      cases aims.symm.trans asserts.aims.answer
      obtain ⟨rfl, jumped⟩ := asserts.assertion punctual usable retreats single
      rw [jumped]
      exact ⟨asserts.punctual, asserts.due⟩
  | split stored aims retreats first =>
      obtain ⟨punctual, clause, usable⟩ := fits
      obtain rfl := Option.some.inj (stored.symm.trans usable.stored)
      obtain ⟨top, target, literal, asserts⟩ := punctual.asserts usable
      cases aims.symm.trans asserts.aims.answer
  | makeDecision => exact fits
  | decide possible popped present => exact fits.1.prompt.timely
  | choice unvalued =>
      exact ⟨Timely.opened fits, fun unvalued =>
        Timely.given (Timely.opened fits) unvalued nofun⟩

/-! ## Stated formulas -/

/-- A formula without theory atoms is punctual when it has been stated. -/
theorem punctual_stated {configuration : Configuration} (stated : Stated configuration solver)
    (atomless : solver.theoryAtoms = #[]) : solver.Punctual solver := by
  have ready := stated.ready
  refine ⟨ready.valid, ⟨Rules.silent_careful, ready.sorted⟩, ready.plain atomless, ?_, ?_⟩
  · intro atom entry key found
    rw [get?_untouched ready.untouched] at found
    cases found
  · intro key clause watched level below
    rw [ready.untouched] at below
    cases below

/-- No propagation is late in a search without theory atoms: in every state it sees each
value that follows from a clause is in time, and every conflict that propagation finds
above level zero is due to two values of the current level. -/
theorem solve_never_late {configuration : Configuration} (stated : Stated configuration solver)
    (atomless : solver.theoryAtoms = #[]) (fuel : Nat) :
    (∀ state, Sees fuel solver state → state.Timely) ∧
      ∀ rounds start conflict rest, Called fuel solver (.propagate rounds) start →
        propagate rounds start = .ok (some conflict) rest → 0 < rest.trail.level →
          rest.Torn conflict := by
  have fits : ∀ {call state}, Called fuel solver call state → solver.Fits call state :=
    Called.induct ⟨punctual_stated stated atomless, trivial⟩
      fun _ _ _ _ calls fits => Fits.calls fits calls
  constructor
  · intro state seen
    cases seen with
    | made called => exact Fits.timely (fits called)
    | left called => exact (Fits.leaves (fits called) fuel).left
  · intro rounds start conflict rest called found
    exact (((fits called).1.propagate rounds).of_ok found).2.2

end Solver

/-! ## Two clauses that clash -/

/-- Once `p` is false, `q` has to be both true and false. -/
def clashingFormula : Solver Empty :=
  (((Solver.new {}).withVariable "p" .boolean).withVariable "q" .boolean |>.withClause
    (Clause.ofList [⟨.var 0, true⟩, ⟨.var 1, true⟩])).withClause
      (Clause.ofList [⟨.var 0, true⟩, ⟨.var 1, false⟩])

theorem stated_clashingFormula : Stated {} clashingFormula := by
  refine .withClause (.withClause (.withVariable (.withVariable .new ?_ _) ?_ _) ?_) ?_
  all_goals decide +kernel

/-- What is left after the first round of its search, in which `p` is decided. -/
def clashingRound : Solver Empty :=
  left (Solver.searchRound 10 0) { clashingFormula with status := .solving }

/-- The second round finds the clash at level one. -/
theorem clashingFormula_torn : ∃ start rest,
    Called 10 clashingFormula (.propagate 10) start ∧
      Solver.propagate 10 start = .ok (some 1) rest ∧ rest.trail.level = 1 ∧ rest.Torn 1 ∧
        ∀ state, Sees 10 clashingFormula state → state.Timely := by
  obtain ⟨timely, torn⟩ := Solver.solve_never_late stated_clashingFormula rfl 10
  have went : answer? (Solver.searchRound 10 0)
      { clashingFormula with status := .solving } = some none := by
    decide +kernel
  have early : Solver.isTimeUp
      (Solver.enteringRound clashingRound.counters.time clashingRound) = false := by
    decide +kernel
  have found : answer? (Solver.propagate 10)
      (Solver.enteringRound clashingRound.counters.time clashingRound) = some (some 1) := by
    decide +kernel
  have level : (left (Solver.propagate 10)
      (Solver.enteringRound clashingRound.counters.time clashingRound)).trail.level = 1 := by
    decide +kernel
  have begun : Called 10 clashingFormula (.searchRounds 10)
      { clashingFormula with status := .solving } :=
    .call .solve (.searchRounds stated_clashingFormula.ready.unsettled)
  have called : Called 10 clashingFormula (.propagate 10)
      (Solver.enteringRound clashingRound.counters.time clashingRound) :=
    .call (.call (.call begun (.nextRound (ok_of_answer went))) .searchRound) (.propagate early)
  exact ⟨_, _, called, ok_of_answer found, level,
    torn _ _ _ _ called (ok_of_answer found) (by rw [level]; exact Nat.one_pos), timely⟩

end ModelSearch
