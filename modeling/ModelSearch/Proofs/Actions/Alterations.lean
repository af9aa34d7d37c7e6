import ModelSearch.Proofs.Search.Rounds

/-!
# Actions that make changes

An action alters a solver if it gets from solver to solver by changes only.  That
asks less of hooks than running does: they may report any clause, so an
explanation need not explain anything, and errors have no excuse.  Still the last
round of a search that finds a model has left nothing to do.
-/

namespace ModelSearch

/-! ## Requests -/

section Requests

variable {τ : Type} {rules : Rules τ} {owner : TheoryKey}

/-- Every request of the hook is allowed when it is made. -/
def Hook.Asks (rules : Rules τ) (owner : TheoryKey) : Hook → Solver τ → Prop
  | .done, _ => True
  | .conflict _, _ => True
  | .inspect next, solver => (next solver.toAssignment).Asks rules owner solver
  | .assign key value next, solver =>
      rules.assign solver owner key value ∧ ∀ answer rest,
        Solver.assignImplied key value solver = .ok answer rest →
          (next answer).Asks rules owner rest
  | .decide atom value next, solver =>
      rules.decide solver owner atom value ∧ ∀ answer rest,
        Solver.decide atom value solver = .ok answer rest → next.Asks rules owner rest
  | .learn clause next, solver =>
      rules.learn solver owner clause ∧ ∀ answer rest,
        Solver.offerLemma clause solver = .ok answer rest →
          (next answer).Asks rules owner rest

theorem Hook.Keeps.asks {hook : Hook} {solver : Solver τ}
    (keeps : hook.Keeps rules owner solver) : hook.Asks rules owner solver := by
  induction hook generalizing solver with
  | done => trivial
  | conflict key => trivial
  | inspect next induction => exact induction _ keeps
  | assign key value next induction =>
      exact ⟨keeps.1, fun answer rest result => induction answer (keeps.2 answer rest result)⟩
  | decide atom value next induction =>
      exact ⟨keeps.1, fun answer rest result => induction (keeps.2 answer rest result)⟩
  | learn clause next induction =>
      exact ⟨keeps.1, fun answer rest result => induction answer (keeps.2 answer rest result)⟩

variable [TheoryAtom τ]

/-- Hooks that are run when their atoms lack one value ask for what is allowed. -/
def Solver.Heeds (solver : Solver τ) (rules : Rules τ) : Prop :=
  ∀ (owner : TheoryKey) (atom : τ) (unassigned : VariableKey),
    solver.theoryAtoms[owner]? = some atom → solver.Lacks atom unassigned →
      (TheoryAtom.hook atom (.theory owner) unassigned).Asks rules owner solver

/-- Hooks ask for what is allowed whatever the solver becomes. -/
def Solver.Heedful (solver : Solver τ) (rules : Rules τ) : Prop :=
  ∀ reached, Changes rules true solver reached → reached.Heeds rules

end Requests

/-! ## Alterations -/

section Logic

variable {τ α β : Type} [TheoryAtom τ] {rules : Rules τ} {jumping : Bool}
  {before after : Solver τ}

theorem Change.any (change : Change rules jumping before after) :
    Change rules true before after := by
  cases change with
  | tell assignment theoryAtoms configuration splits =>
      exact .tell assignment theoryAtoms configuration (.inl rfl)
  | requeue sound same => exact .requeue sound same
  | choose free cause => exact .choose free cause
  | give free cause isOpen => exact .give free cause isOpen
  | learn allowed fitting => exact .learn allowed fitting
  | store shared => exact .store shared
  | watch key => exact .watch key
  | cut _ assignment theoryAtoms configuration =>
      exact .cut rfl assignment theoryAtoms configuration

theorem Changes.any (changes : Changes rules jumping before after) :
    Changes rules true before after := by
  induction changes with
  | refl => exact .refl
  | tail _ change induction => exact induction.tail change.any

theorem Steps.changes (steps : Steps rules jumping before after) (coherent : before.Coherent) :
    Changes rules jumping before after := by
  induction steps with
  | refl => exact .refl
  | tail _ step induction => exact induction.tail (step.change (induction.coherent coherent))

theorem Solver.Heedful.changes {solver rest : Solver τ} (heedful : solver.Heedful rules)
    (changes : Changes rules jumping solver rest) : rest.Heedful rules :=
  fun reached later => heedful reached (.trans changes.any later)

/-- The action makes changes, and then answers as in `after`.  Of an abort nothing
is said. -/
def Alters (rules : Rules τ) (jumping : Bool) (action : SolverM τ α) (solver : Solver τ)
    (after : α → Solver τ → Prop) : Prop :=
  Ends action solver (fun answer rest => Changes rules jumping solver rest ∧ after answer rest)
    fun fault rest => (∃ abort, fault = .abort abort) ∨ Changes rules jumping solver rest

variable {solver rest : Solver τ} {action : SolverM τ α} {after later : α → Solver τ → Prop}

theorem Alters.imp (alters : Alters rules jumping action solver after)
    (answered : ∀ answer rest, Changes rules jumping solver rest → after answer rest →
      later answer rest) : Alters rules jumping action solver later :=
  Ends.mono alters (fun answer rest ends => ⟨ends.1, answered answer rest ends.1 ends.2⟩)
    fun _ _ broken => broken

theorem Alters.pure {answer : α} (holds : after answer solver) :
    Alters rules jumping (Pure.pure answer) solver after :=
  ⟨.refl, holds⟩

theorem alters_throw (fault : Fault) : Alters rules jumping (throw fault) solver after :=
  .inr .refl

theorem Alters.bind {next : α → SolverM τ β} {last : β → Solver τ → Prop}
    (alters : Alters rules jumping action solver after)
    (goesOn : ∀ answer rest, Changes rules jumping solver rest → after answer rest →
      Alters rules jumping (next answer) rest last) :
    Alters rules jumping (action >>= next) solver last := by
  refine Ends.bind alters ?_ fun _ _ broken => broken
  intro answer rest ends
  refine Ends.mono (goesOn answer rest ends.1 ends.2) ?_ ?_
  · intro answer last answered
    exact ⟨ends.1.trans answered.1, answered.2⟩
  · intro fault last broken
    exact broken.imp_right ends.1.trans

theorem alters_get {next : Solver τ → SolverM τ α} :
    Alters rules jumping (get >>= next) solver after ↔
      Alters rules jumping (next solver) solver after := Iff.rfl

theorem Alters.modify {update : Solver τ → Solver τ}
    (change : Change rules jumping solver (update solver)) :
    Alters rules jumping (modify update) solver fun _ rest => rest = update solver :=
  ⟨.single change, rfl⟩

theorem Alters.traced (alters : Alters rules jumping action solver after) :
    Alters rules jumping action solver
      fun answer rest => after answer rest ∧ action solver = .ok answer rest :=
  Ends.mono (Ends.traced alters) (fun _ _ ends => ⟨ends.1.1, ends.1.2, ends.2⟩)
    fun _ _ broken => broken

theorem Alters.any (alters : Alters rules jumping action solver after) :
    Alters rules true action solver after :=
  Ends.mono alters (fun _ _ ends => ⟨Changes.any ends.1, ends.2⟩)
    fun _ _ broken => broken.imp_right Changes.any

theorem Alters.of_ok {answer : α} (alters : Alters rules jumping action solver after)
    (result : action solver = .ok answer rest) :
    Changes rules jumping solver rest ∧ after answer rest :=
  Ends.of_ok alters result

end Logic

namespace Solver

variable {τ : Type} [TheoryAtom τ] {rules : Rules τ} {jumping : Bool}
  {solver before after : Solver τ}

/-! ## Telling, counting and looking up -/

theorem Told.change (told : Told before after) : Change rules jumping before after :=
  .tell told.assignment told.theoryAtoms told.configuration (.inr told.splits)

theorem alters_count (update : Counters → Counters) :
    Alters rules jumping (count update) solver fun _ rest => Told solver rest := by
  have told := told_count solver (update solver.counters)
  exact ⟨.single told.change, told⟩

theorem alters_emit {event : Event} (plain : isSplit event = false) :
    Alters rules jumping (emit event) solver fun _ rest => Told solver rest := by
  have told := told_emit solver plain
  exact ⟨.single told.change, told⟩

theorem alters_clause (key : ClauseKey) :
    Alters rules jumping (clause key) solver
      fun clause rest => rest = solver ∧ solver.clauses.clause? key = some clause := by
  unfold Solver.clause
  rw [alters_get]
  cases stored : solver.clauses.clause? key with
  | none => exact alters_throw _
  | some clause => exact .pure ⟨rfl, rfl⟩

/-! ## Giving values -/

theorem alters_setValue {atom : Atom} {value : Value} {reason : Reason} {level : Nat}
    (cause : Cause rules solver atom value) (isOpen : level ≤ solver.trail.level) :
    Alters rules jumping (setValue atom value reason level) solver
      fun _ rest => solver.Free atom ∧ rest = solver.given atom value reason level := by
  rw [setValue_eq, alters_get]
  cases refused : solver.setError? atom level with
  | some abort => exact alters_throw _
  | none =>
      obtain ⟨_, empty, known⟩ := Assignment.setError?_eq_none.mp refused
      have free : solver.Free atom := ⟨empty, known⟩
      exact (Alters.modify (.give free cause isOpen)).imp fun _ _ _ same => ⟨free, same⟩

theorem alters_decide {atom : Atom} {value : Value} (cause : Cause rules solver atom value) :
    Alters rules jumping (decide atom value) solver fun _ _ => True := by
  unfold Alters Ends
  by_cases free : solver.Free atom
  · have told : Told (solver.chosen atom value) { solver.chosen atom value with
        events := solver.events.push (.decision atom value) } := told_emit _ rfl
    rw [decide_of_free free]
    exact ⟨.tail (.single (.choose free cause)) told.change, trivial⟩
  · obtain ⟨abort, rest, result⟩ := decide_of_not_free free value
    rw [result]
    exact .inl ⟨abort, rfl⟩

/-- A literal without a truth value makes the trail longer. -/
theorem alters_propagateLiteral {key : ClauseKey} {literal : Literal}
    (cause : ∀ counted, Told solver counted →
      Cause rules counted literal.atom (.boolean literal.polarity)) :
    Alters rules jumping (propagateLiteral key literal) solver fun _ rest =>
      solver.trail.literalTruth? literal = none → solver.trail.size < rest.trail.size := by
  unfold propagateLiteral
  refine Alters.bind (alters_count _) fun _ counted _ told => ?_
  have trail : counted.trail = solver.trail := congrArg Assignment.trail told.assignment
  rw [alters_get]
  dsimp only
  rw [trail]
  cases truth : solver.trail.literalTruth? literal with
  | some truthful =>
      cases truthful with
      | true => exact .pure (by rintro ⟨⟩)
      | false => exact .pure (by rintro ⟨⟩)
  | none =>
      have isOpen : solver.trail.level ≤ counted.trail.level := by rw [trail]
      refine Alters.bind (alters_setValue (cause counted told) isOpen) fun _ set _ given => ?_
      obtain ⟨free, rfl⟩ := given
      refine Alters.bind (alters_emit rfl) fun _ rest _ again => .pure fun _ => ?_
      have longer := size_given free (.boolean literal.polarity) (.clause key) solver.trail.level
      rw [congrArg Assignment.trail again.assignment, longer, trail]
      exact Nat.lt_succ_self _

theorem alters_assignImplied {owner : TheoryKey} {key : VariableKey} {value : Value}
    (allowed : rules.assign solver owner key value) :
    Alters rules jumping (assignImplied key value) solver fun _ _ => True := by
  unfold assignImplied
  rw [alters_get]
  by_cases valued : (solver.trail.get? (.var key)).isSome = true
  · rw [if_pos valued]
    exact .pure trivial
  · rw [if_neg valued]
    refine Alters.bind (alters_setValue (.assigned allowed) (Nat.le_refl _)) fun _ _ _ _ => ?_
    refine Alters.bind (alters_count _) fun _ _ _ _ => ?_
    exact Alters.bind (alters_emit rfl) fun _ _ _ _ => .pure trivial

theorem alters_offerLemma {owner : TheoryKey} {clause : Clause}
    (allowed : rules.learn solver owner clause) :
    Alters rules jumping (offerLemma clause) solver fun _ _ => True := by
  unfold offerLemma
  rw [alters_get]
  cases fitting : clauseError? solver clause with
  | some error => exact .pure trivial
  | none =>
      have inserted : Alters rules jumping (insertClause clause .theory) solver
          fun _ _ => True := ⟨.single (.learn allowed fitting), trivial⟩
      refine Alters.bind inserted fun _ _ _ _ => ?_
      exact Alters.bind (alters_emit rfl) fun _ _ _ _ => .pure trivial

/-! ## Propagation -/

/-- Each pair is a stored clause and one of its literals. -/
def Offered (solver : Solver τ) (units : List (ClauseKey × Literal)) : Prop :=
  ∀ pair ∈ units, ∃ clause, solver.clauses.clause? pair.1 = some clause ∧ pair.2 ∈ clause

omit [TheoryAtom τ] in
theorem Offered.mono {units : List (ClauseKey × Literal)} (offered : before.Offered units)
    (continues : before.Continues after) : after.Offered units := by
  intro pair inside
  obtain ⟨clause, stored, member⟩ := offered pair inside
  exact ⟨clause, continues.clauses _ _ stored, member⟩

theorem Told.literal {key : ClauseKey} {clause : Clause} {literal : Literal}
    (stored : solver.clauses.clause? key = some clause) (member : literal ∈ clause)
    (told : Told solver after) : Cause rules after literal.atom (.boolean literal.polarity) :=
  .literal ((congrArg (·.clauses.clause? key) told.assignment).trans stored) member

theorem alters_propagateUnits {units : List (ClauseKey × Literal)} (coherent : solver.Coherent)
    (offered : solver.Offered units) :
    Alters rules jumping (propagateUnits units) solver fun _ _ => True := by
  induction units generalizing solver with
  | nil => exact .pure trivial
  | cons unit units induction =>
      obtain ⟨key, literal⟩ := unit
      obtain ⟨clause, stored, member⟩ := offered _ List.mem_cons_self
      refine Alters.bind (alters_propagateLiteral fun _ told => told.literal stored member)
        fun answer middle changes _ => ?_
      cases answer with
      | error conflict => exact .pure trivial
      | ok given =>
          have remaining : solver.Offered units :=
            fun pair inside => offered pair (List.mem_cons_of_mem _ inside)
          exact induction (changes.coherent coherent)
            (remaining.mono (changes.continues coherent))

/-- A pass over the clauses that finds no conflict has nothing to do, or makes the
trail longer. -/
theorem alters_propagateClauses (coherent : solver.Coherent) :
    Alters rules false propagateClauses solver fun answer rest => answer = none →
      solver.clauses.violated = [] ∧
        (rest = solver ∧ solver.clauses.units = [] ∨ solver.trail.size < rest.trail.size) := by
  have follow := coherent.assignment.clauses
  unfold propagateClauses
  rw [alters_get]
  dsimp only
  cases found : solver.clauses.violated.head? with
  | some conflict => exact .pure (by rintro ⟨⟩)
  | none =>
      have fine := List.head?_eq_none_iff.mp found
      have listed : ∀ pair ∈ solver.clauses.units, ∃ clause,
          ClausesFollow.Unit solver.trail.value? solver.clauses pair.1 pair.2 clause :=
        fun pair inside => follow.mem_units.mp inside
      cases shape : solver.clauses.units with
      | nil => exact .pure fun _ => ⟨fine, .inl ⟨rfl, rfl⟩⟩
      | cons unit units =>
          rw [shape] at listed
          obtain ⟨clause, first⟩ := listed unit List.mem_cons_self
          have remaining : solver.Offered units := fun pair inside => by
            obtain ⟨clause, later⟩ := listed pair (List.mem_cons_of_mem _ inside)
            exact ⟨clause, later.watched.clause?, later.member⟩
          refine Alters.bind (alters_propagateLiteral fun _ told =>
            told.literal first.watched.clause? first.member) fun answer middle changes longer => ?_
          cases answer with
          | error conflict => exact .pure (by rintro ⟨⟩)
          | ok given =>
              refine (alters_propagateUnits (changes.coherent coherent)
                (remaining.mono (changes.continues coherent))).imp fun _ rest later _ _ => ?_
              exact ⟨fine, .inr (Nat.lt_of_lt_of_le (longer first.undetermined)
                later.grown.size_le)⟩

/-- What comes of evaluating theory atoms: nothing, since none has an evaluation, or
a longer trail. -/
def Attempted (before after : Solver τ) (keys : List TheoryKey) : Prop :=
  (after = before ∧ ∀ key ∈ keys, ∀ atom, before.theoryAtoms[key]? = some atom →
    TheoryAtom.evaluate atom before.values = none) ∨ before.trail.size < after.trail.size

theorem alters_evaluateAtom (coherent : solver.Coherent) (key : TheoryKey) :
    Alters rules jumping (evaluateAtom key) solver fun _ rest => Attempted solver rest [key] := by
  unfold evaluateAtom
  rw [alters_get]
  cases present : solver.theoryAtoms[key]? with
  | none =>
      refine .pure (.inl ⟨rfl, fun other inside atom found => ?_⟩)
      obtain rfl := List.mem_singleton.mp inside
      cases present.symm.trans found
  | some atom =>
      dsimp only
      cases evaluated : TheoryAtom.evaluate atom solver.values with
      | none =>
          refine .pure (.inl ⟨rfl, fun other inside again found => ?_⟩)
          obtain rfl := List.mem_singleton.mp inside
          obtain rfl := Option.some.inj (present.symm.trans found)
          exact evaluated
      | some truth =>
          refine Alters.bind (alters_setValue (.evaluation present evaluated)
            (greatestLevel_le coherent.assignment.trail _)) fun _ set _ given => ?_
          obtain ⟨free, rfl⟩ := given
          refine Alters.bind (alters_count _) fun _ counted _ first => ?_
          refine (alters_emit rfl).imp fun _ rest _ second => .inr ?_
          rw [congrArg Assignment.trail (first.trans second).assignment, size_given free]
          exact Nat.lt_succ_self _

theorem alters_evaluateAtoms {keys : List TheoryKey} (coherent : solver.Coherent) :
    Alters rules false (evaluateAtoms keys) solver
      fun _ rest => Attempted solver rest keys := by
  induction keys generalizing solver with
  | nil => exact .pure (.inl ⟨rfl, by rintro _ ⟨⟩⟩)
  | cons key keys induction =>
      refine Alters.bind (alters_evaluateAtom coherent key) fun _ middle changes first => ?_
      refine (induction (changes.coherent coherent)).imp fun _ rest later second => ?_
      rcases first with ⟨rfl, none⟩ | longer
      · rcases second with ⟨rfl, others⟩ | longer
        · refine .inl ⟨rfl, fun other inside => ?_⟩
          rcases List.mem_cons.mp inside with rfl | inside
          · exact none other List.mem_cons_self
          · exact others other inside
        · exact .inr longer
      · exact .inr (Nat.lt_of_lt_of_le longer later.grown.size_le)

theorem alters_evaluateTheory (coherent : solver.Coherent) :
    Alters rules false evaluateTheory solver
      fun _ rest => Attempted solver rest solver.evaluable := by
  unfold evaluateTheory
  rw [alters_get]
  exact alters_evaluateAtoms coherent

theorem alters_runHook {hook : Hook} {owner : TheoryKey} (asks : hook.Asks rules owner solver) :
    Alters rules false (runHook hook) solver fun _ _ => True := by
  induction hook generalizing solver with
  | done => exact .pure trivial
  | conflict key => exact .pure trivial
  | inspect next induction =>
      unfold runHook
      rw [alters_get]
      exact induction _ asks
  | assign key value next induction =>
      refine Alters.bind (alters_assignImplied asks.1).traced fun given rest _ answered => ?_
      exact induction given (asks.2 _ _ answered.2)
  | decide atom value next induction =>
      refine Alters.bind (alters_decide (.decided asks.1)).traced fun given rest _ answered => ?_
      exact induction (asks.2 _ _ answered.2)
  | learn clause next induction =>
      refine Alters.bind (alters_offerLemma asks.1).traced fun answer rest _ answered => ?_
      exact induction answer (asks.2 _ _ answered.2)

theorem alters_consultAtoms {units : List (TheoryKey × VariableKey)}
    (heedful : solver.Heedful rules) (coherent : solver.Coherent)
    (lacking : solver.Lacking units) :
    Alters rules false (consultAtoms units) solver fun _ _ => True := by
  induction units generalizing solver with
  | nil => exact .pure trivial
  | cons unit units induction =>
      obtain ⟨key, unassigned⟩ := unit
      have remaining : solver.Lacking units :=
        fun pair inside => lacking pair (List.mem_cons_of_mem _ inside)
      unfold consultAtoms
      rw [alters_get]
      cases unvalued : solver.trail.get? (.var unassigned) with
      | some entry => exact induction heedful coherent remaining
      | none =>
          cases present : solver.theoryAtoms[key]? with
          | none => exact induction heedful coherent remaining
          | some atom =>
              refine Alters.bind (alters_emit rfl) fun _ told first same => ?_
              have lacks : told.Lacks atom unassigned :=
                lacking.lacks List.mem_cons_self present unvalued same
              have asks := heedful told first.any key atom unassigned
                (by rw [same.theoryAtoms, present]) lacks
              refine Alters.bind (alters_runHook asks) fun answer rest second _ => ?_
              cases answer with
              | some conflict => exact .pure trivial
              | none =>
                  -- The hook took no value away, so the other atoms lack no more than before.
                  have changes := Relation.ReflTransGen.trans first second
                  exact induction (heedful.changes changes) (Changes.coherent changes coherent)
                    (remaining.mono (Changes.grown changes)
                      (Changes.continues changes coherent))

theorem alters_consultTheory (heedful : solver.Heedful rules) (coherent : solver.Coherent) :
    Alters rules false consultTheory solver fun answer rest => answer = none →
      solver.vars.semanticUnits = [] → rest = solver := by
  unfold consultTheory
  rw [alters_get]
  refine (alters_consultAtoms heedful coherent (lacking_semanticUnits coherent)).traced.imp
    fun answer rest _ answered none empty => ?_
  have result := answered.2
  rw [empty, none] at result
  cases result
  rfl

/-! ## Nothing left to do -/

/-- No clause is violated or unit, and no theory atom can be evaluated. -/
structure AtRest (solver : Solver τ) : Prop where
  fine : solver.clauses.violated = []
  idle : solver.clauses.units = []
  unevaluated : ∀ key ∈ solver.evaluable, ∀ atom, solver.theoryAtoms[key]? = some atom →
    TheoryAtom.evaluate atom solver.values = none

/-- There was nothing left to do for clauses and evaluations, after which hooks gave
no value, if there were any hooks to be run. -/
def Rested (solver : Solver τ) : Prop :=
  ∃ middle : Solver τ, middle.Coherent ∧ middle.AtRest ∧ middle.Continues solver ∧
    solver.trail = middle.trail ∧ (middle.vars.semanticUnits = [] → solver = middle)

theorem alters_countAssignments {α : Type} {next : Nat → SolverM τ α}
    {last : α → Solver τ → Prop} :
    Alters rules jumping (countAssignments >>= next) solver last ↔
      Alters rules jumping (next solver.trail.size) solver last := Iff.rfl

/-- When propagation stops without a conflict, the last round found nothing to do for
clauses and evaluations, and its hooks gave no value. -/
structure Consulted (middle solver : Solver τ) : Prop where
  coherent : middle.Coherent
  atRest : middle.AtRest
  continues : middle.Continues solver
  trail : solver.trail = middle.trail
  quiet : middle.vars.semanticUnits = [] → solver = middle
  answer : consultTheory middle = .ok none solver

theorem Consulted.rested {middle : Solver τ} (consulted : Consulted middle solver) :
    solver.Rested :=
  ⟨middle, consulted.coherent, consulted.atRest, consulted.continues, consulted.trail,
    consulted.quiet⟩

theorem alters_propagate_last (heedful : solver.Heedful rules) (coherent : solver.Coherent)
    (rounds : Nat) :
    Alters rules false (propagate rounds) solver fun answer rest => answer = none →
      ∃ middle, solver.Continues middle ∧ Consulted middle rest := by
  induction rounds generalizing solver with
  | zero => exact alters_throw _
  | succ rounds induction =>
      have again : ∀ middle : Solver τ, Changes rules false solver middle →
          Alters rules false (propagate rounds) middle fun answer rest => answer = none →
            ∃ last, solver.Continues last ∧ Consulted last rest := by
        intro middle changes
        refine (induction (heedful.changes changes) (changes.coherent coherent)).imp ?_
        intro answer rest _ stopped none
        obtain ⟨last, continues, consulted⟩ := stopped none
        exact ⟨last, (changes.continues coherent).trans continues, consulted⟩
      unfold propagate
      rw [alters_countAssignments]
      refine Alters.bind (alters_evaluateTheory coherent) fun _ evaluated first attempted => ?_
      have coherentEvaluated := first.coherent coherent
      refine Alters.bind (alters_propagateClauses coherentEvaluated)
        fun answer passed second found => ?_
      have changes := Relation.ReflTransGen.trans first second
      cases answer with
      | some conflict => exact .pure (by rintro ⟨⟩)
      | none =>
          refine alters_countAssignments.mpr ?_
          split
          · exact again _ changes
          · next notLonger =>
              -- The trail is no longer than before, so there was nothing to be done.
              obtain ⟨fine, found⟩ := found rfl
              have sizes := (Changes.grown first).size_le
              obtain ⟨rfl, idle⟩ := found.resolve_right fun longer => notLonger
                (Nat.lt_of_le_of_lt sizes longer)
              obtain ⟨rfl, unevaluated⟩ := attempted.resolve_right notLonger
              refine Alters.bind (alters_consultTheory heedful coherent).traced
                fun answer consulted third asked => ?_
              cases answer with
              | some conflict => exact .pure (by rintro ⟨⟩)
              | none =>
                  refine alters_countAssignments.mpr ?_
                  split
                  · next same =>
                      refine .pure fun _ => ⟨_, .refl _, coherent, ⟨fine, idle, unevaluated⟩,
                        third.continues coherent, ?_, asked.1 rfl, asked.2⟩
                      refine third.grown.trail.resolve_right fun longer => ?_
                      exact absurd same (Nat.ne_of_gt longer)
                  · exact again _ third

theorem alters_propagate (heedful : solver.Heedful rules) (coherent : solver.Coherent)
    (rounds : Nat) :
    Alters rules false (propagate rounds) solver
      fun answer rest => answer = none → rest.Rested :=
  (alters_propagate_last heedful coherent rounds).imp fun _ _ _ stopped none => by
    obtain ⟨_, _, consulted⟩ := stopped none
    exact consulted.rested

/-! ## Conflicts -/

omit [TheoryAtom τ] in
theorem shares_stored {key : ClauseKey} {clause : Clause}
    (stored : solver.clauses.clause? key = some clause) : solver.Shares clause :=
  fun _ member => ⟨key, clause, stored, member⟩

theorem alters_resolveToBackjump {clause : Clause} (shares : solver.Shares clause)
    (steps : Nat) :
    Alters rules jumping (resolveToBackjump steps clause) solver
      fun answer rest => rest.Shares answer := by
  induction steps generalizing solver clause with
  | zero => exact alters_throw _
  | succ steps induction =>
      unfold resolveToBackjump
      by_cases bare : clause.isEmpty = true
      · rw [if_pos bare]
        exact .pure shares
      · rw [if_neg bare, alters_get]
        dsimp only
        cases solver.trail.topLiterals clause with
        | error error => exact alters_throw _
        | ok top =>
            show Alters rules jumping (if _ then _ else _) solver _
            by_cases usable : solver.trail.isBackjumpable top = true
            · rw [if_pos usable]
              exact .pure shares
            · rw [if_neg usable]
              cases solver.trail.latestImplied? clause with
              | none =>
                  dsimp only
                  split
                  · exact .pure (by rintro _ ⟨⟩)
                  · exact alters_throw _
              | some pivot =>
                  obtain ⟨literal, reason⟩ := pivot
                  refine Alters.bind (alters_clause reason) fun cause _ _ looked => ?_
                  obtain ⟨rfl, stored⟩ := looked
                  refine Alters.bind (alters_emit rfl) fun _ told _ same => ?_
                  refine induction ?_
                  rw [same.assignment]
                  intro other inside
                  rcases (Clause.mem_resolve.mp inside).1 with former | added
                  · exact shares other former
                  · exact shares_stored stored other added

theorem alters_explain (fuel : Nat) (key : ClauseKey) :
    Alters rules jumping (explain fuel key) solver
      fun answer rest => rest.Shares answer := by
  unfold explain
  refine Alters.bind (alters_emit rfl) fun _ _ _ _ => ?_
  refine Alters.bind (alters_clause key) fun clause _ _ looked => ?_
  obtain ⟨rfl, stored⟩ := looked
  refine Alters.bind (alters_resolveToBackjump (shares_stored stored) fuel)
    fun answer resolved _ shares => ?_
  refine Alters.bind (alters_emit rfl) fun _ rest _ same => .pure ?_
  rw [same.assignment]
  exact shares

theorem alters_storeExplanation {conflict : ClauseKey} {explanation : Clause}
    (shares : solver.Shares explanation) :
    Alters rules jumping (storeExplanation conflict explanation) solver
      fun _ _ => True := by
  unfold storeExplanation
  refine Alters.bind (alters_clause conflict) fun clause solver _ looked => ?_
  obtain ⟨rfl, _⟩ := looked
  split
  · exact .pure trivial
  · have inserted : Alters rules jumping (storeClause explanation .resolution) solver
        fun _ _ => True := ⟨.single (.store shares), trivial⟩
    refine Alters.bind inserted fun _ _ _ _ => ?_
    exact Alters.bind (alters_emit rfl) fun _ _ _ _ => .pure trivial

theorem alters_retreat (level : Nat) :
    Alters rules true (retreat level) solver fun _ _ => True := by
  unfold Alters Ends
  rcases retreat_cases solver level with ⟨_, same⟩ | ⟨_, same⟩ | ⟨abort, same⟩ <;> rw [same]
  · exact ⟨.refl, trivial⟩
  · exact ⟨.single (.cut rfl rfl rfl rfl), trivial⟩
  · exact .inr .refl

theorem alters_backjump (coherent : solver.Coherent) (key : ClauseKey) :
    Alters rules true (backjump key) solver fun _ _ => True := by
  unfold backjump
  refine Alters.bind (alters_clause key) fun clause solver _ looked => ?_
  obtain ⟨rfl, stored⟩ := looked
  rw [alters_get]
  dsimp only
  cases solver.trail.backjumpTarget clause with
  | error fault => exact alters_throw _
  | ok target =>
      obtain ⟨level, kind⟩ := target
      refine Alters.bind (alters_retreat level) fun _ cut first _ => ?_
      have event : Alters rules true (emit (.backjump solver.trail.level level kind)) cut
          fun _ rest => rest.toAssignment = cut.toAssignment :=
        ⟨.single (.tell rfl rfl rfl (.inl rfl)), rfl⟩
      refine Alters.bind event fun _ told _ same => ?_
      have stored : told.clauses.clause? key = some clause := by
        rw [same]
        exact (first.continues coherent).clauses _ _ stored
      rw [alters_get]
      have member : ∀ {literal : Literal} {others : List Literal},
          (clause.literals.filter fun literal => (told.trail.get? literal.atom).isNone) =
            literal :: others → literal ∈ clause := fun shape =>
        (List.mem_filter.mp (shape ▸ List.mem_cons_self)).1
      split
      · next shape =>
          refine Alters.bind (alters_propagateLiteral fun _ same =>
            same.literal stored (member shape)) fun answer _ _ _ => ?_
          cases answer with
          | error conflict => exact alters_throw _
          | ok given => exact .pure trivial
      · exact alters_throw _
      · next shape =>
          exact Alters.bind (alters_decide (.literal stored (member shape)))
            fun _ _ _ _ => .pure trivial
      · exact alters_throw _

theorem alters_watchClause (key : ClauseKey) :
    Alters rules jumping (watchClause key) solver fun _ _ => True := by
  unfold watchClause
  rw [alters_get]
  split
  · exact (Alters.modify (.watch key)).imp fun _ _ _ _ => trivial
  · exact alters_throw _

theorem alters_learn (key : ClauseKey) :
    Alters rules jumping (learn key) solver fun _ _ => True := by
  unfold learn
  rw [alters_get]
  cases solver.clauses.stored? key with
  | none => exact alters_throw _
  | some stored =>
      dsimp only
      split
      · refine Alters.bind (alters_watchClause key) fun _ _ _ _ => ?_
        refine Alters.bind (alters_count _) fun _ _ _ _ => ?_
        exact (alters_emit rfl).imp fun _ _ _ _ => trivial
      · exact .pure trivial

theorem alters_status (status : Status) :
    Alters rules jumping (modify fun solver => { solver with status := status }) solver
      fun _ rest => Told solver rest := by
  have told := told_status solver status
  exact ⟨.single told.change, told⟩

theorem alters_resolveConflict (coherent : solver.Coherent) (fuel : Nat)
    (conflict : ClauseKey) :
    Alters rules true (resolveConflict fuel conflict) solver
      fun answer _ => answer ≠ some .satisfiable := by
  unfold resolveConflict
  refine Alters.bind (alters_count _) fun _ _ first _ => ?_
  refine Alters.bind (alters_explain fuel conflict) fun explanation _ second shares => ?_
  split
  · exact Alters.bind (alters_status .unsatisfiable) fun _ _ _ _ => .pure (by rintro ⟨⟩)
  · refine Alters.bind (alters_storeExplanation shares) fun key _ third _ => ?_
    have changes := (first.trans second).trans third
    refine Alters.bind (alters_backjump (Changes.coherent changes coherent) key)
      fun _ _ _ _ => ?_
    exact Alters.bind (alters_learn key) fun _ _ _ _ => .pure (by rintro ⟨⟩)

/-! ## Complete assignments -/

/-- Every variable has a value, nothing is left to do, and no theory atom has a value
that differs from its evaluation. -/
structure Complete (solver : Solver τ) : Prop where
  valued : solver.AllValued
  rest : solver.AtRest
  consistent : inconsistentAtom? solver = none

theorem Complete.told (complete : before.Complete) (told : Told before after) :
    after.Complete where
  valued := by
    unfold AllValued
    rw [told.assignment]
    exact complete.valued
  rest := by
    obtain ⟨fine, idle, unevaluated⟩ := complete.rest
    refine ⟨by rw [told.assignment, fine], by rw [told.assignment, idle], ?_⟩
    unfold evaluable values
    rw [told.assignment, told.theoryAtoms]
    exact unevaluated
  consistent := (inconsistentAtom?_congr told).trans complete.consistent

/-- Once every variable has a value the last round called no hook. -/
theorem Rested.atRest (rested : solver.Rested) (valued : solver.AllValued) : solver.AtRest := by
  obtain ⟨middle, coherent, atRest, continues, trail, settled⟩ := rested
  have valuedMiddle : middle.AllValued := by
    unfold AllValued
    rw [← trail, ← continues.size]
    exact valued
  rw [settled (valuedMiddle.semanticUnits coherent)]
  exact atRest

theorem alters_makeDecision (coherent : solver.Coherent) :
    Alters rules false makeDecision solver
      fun answer rest => answer = none → rest = solver ∧ solver.AllValued := by
  refine (ends_makeDecision coherent.assignment).mono (fun answer rest ends => ?_)
    fun _ _ absurdity => absurdity.elim
  cases answer with
  | none =>
      obtain ⟨rfl, valued⟩ := ends
      exact ⟨.refl, fun _ => ⟨rfl, valued⟩⟩
  | some choice =>
      obtain ⟨key, known, queue, decided⟩ := ends
      exact ⟨decided.steps.changes coherent, by rintro ⟨⟩⟩

theorem alters_extendOrReport (coherent : solver.Coherent) (rested : solver.Rested) :
    Alters rules false extendOrReport solver
      fun answer rest => answer = some .satisfiable → rest.Complete := by
  unfold extendOrReport
  refine Alters.bind (alters_makeDecision coherent) fun decision solver _ answered => ?_
  cases decision with
  | some choice => exact .pure (by rintro ⟨⟩)
  | none =>
      obtain ⟨rfl, valued⟩ := answered rfl
      rw [alters_get]
      by_cases inconsistent : (inconsistentAtom? solver).isSome = true
      · rw [if_pos inconsistent]
        exact .pure (by rintro ⟨⟩)
      · rw [if_neg inconsistent]
        have complete : solver.Complete :=
          ⟨valued, rested.atRest valued, by simpa using inconsistent⟩
        exact Alters.bind (alters_status .satisfiable) fun _ _ _ told =>
          .pure fun _ => complete.told told

/-! ## The search -/

theorem alters_searchRound (heedful : solver.Heedful rules) (coherent : solver.Coherent)
    (fuel time : Nat) :
    Alters rules true (searchRound fuel time) solver
      fun answer rest => answer = some .satisfiable → rest.Complete := by
  unfold searchRound
  refine Alters.bind (alters_count _) fun _ counted first _ => ?_
  rw [alters_get]
  split
  · exact .pure (by rintro ⟨⟩)
  · have coherentCounted := first.coherent coherent
    refine Alters.bind (alters_propagate (heedful.changes first) coherentCounted fuel).any
      fun answer closed second rested => ?_
    have coherentClosed := second.coherent coherentCounted
    cases answer with
    | some conflict =>
        exact (alters_resolveConflict coherentClosed fuel conflict).imp
          fun _ _ _ other satisfiable => absurd satisfiable other
    | none => exact (alters_extendOrReport coherentClosed (rested rfl)).any

theorem alters_searchRounds (heedful : solver.Heedful rules) (coherent : solver.Coherent)
    (fuel rounds : Nat) :
    Alters rules true (searchRounds fuel rounds) solver
      fun report rest => report = .satisfiable → rest.Complete := by
  induction rounds generalizing solver with
  | zero => exact alters_throw _
  | succ rounds induction =>
      unfold searchRounds
      rw [alters_get]
      refine Alters.bind (alters_searchRound heedful coherent fuel _)
        fun answer middle changes complete => ?_
      cases answer with
      | some report => exact .pure fun satisfiable => complete (congrArg some satisfiable)
      | none => exact induction (heedful.changes changes) (changes.coherent coherent)

theorem alters_endSearch (report : Report) :
    Alters rules jumping (endSearch report) solver fun _ rest => Told solver rest :=
  (ends_endSearch report).mono (fun _ _ told => ⟨.single told.change, told⟩)
    fun _ _ absurdity => absurdity.elim

/-- A search that finds a model leaves a complete assignment. -/
theorem alters_solve (heedful : solver.Heedful rules) (coherent : solver.Coherent)
    (fuel : Nat) :
    Alters rules true (solve fuel) solver fun report rest =>
      settled? solver = none → report = .satisfiable → rest.Complete := by
  unfold solve
  rw [alters_get]
  cases unsettled : settled? solver with
  | some report => exact .pure (by rintro ⟨⟩)
  | none =>
      have begun : Alters rules true beginSearch solver fun _ rest => Told solver rest :=
        alters_status .solving
      refine Alters.bind begun fun _ _ first _ => ?_
      refine Alters.bind (alters_searchRounds (heedful.changes first) (first.coherent coherent)
        fuel fuel) fun report _ _ complete => ?_
      exact Alters.bind (alters_endSearch report) fun _ _ _ told =>
        .pure fun _ satisfiable => (complete satisfiable).told told

end Solver

end ModelSearch
