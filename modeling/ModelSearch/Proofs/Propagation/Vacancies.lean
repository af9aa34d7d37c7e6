import ModelSearch.Proofs.Actions.Fuel
import ModelSearch.Proofs.Operations.Basic
import ModelSearch.Proofs.Search.FoundModels
import ModelSearch.Proofs.Search.Progress
import ModelSearch.Theory.Scripted

/-!
# Propagation ends before the vacant atoms do

Hooks may open levels, give values and add clauses while propagation goes on, so there can
be more to do after a round than before.  But no round takes a value away, and a further
round is run only if some atom without a value was given one.  Atoms are never added, so
the number of those that are vacant at the start bounds the number of rounds, whatever
hooks ask for, if they keep to the sorts and decide vacant atoms only.

No fault is possible on the way.  The clauses that are propagated are over existing atoms,
lemmas that are not are refused, and theory atoms are evaluated once each.
-/

namespace ModelSearch

/-! ## Actions that answer -/

section Logic

variable {τ α β : Type} [TheoryAtom τ] {rules : Rules τ} {solver : Solver τ}
  {action : SolverM τ α}

/-- The action answers, after changes that take no value away. -/
def Answers (rules : Rules τ) (action : SolverM τ α) (solver : Solver τ) : Prop :=
  ∃ answer rest, action solver = .ok answer rest ∧ Changes rules false solver rest

theorem Answers.pure (answer : α) : Answers rules (Pure.pure answer) solver :=
  ⟨answer, solver, rfl, .refl⟩

theorem Answers.bind {next : α → SolverM τ β} (answers : Answers rules action solver)
    (goesOn : ∀ answer rest, action solver = .ok answer rest → Changes rules false solver rest →
      Answers rules (next answer) rest) : Answers rules (action >>= next) solver := by
  obtain ⟨answer, rest, result, changes⟩ := answers
  obtain ⟨last, final, answered, later⟩ := goesOn answer rest result changes
  exact ⟨last, final, (bind_eq result).trans answered, changes.trans later⟩

/-- After an action that answers and is known to alter the solver in some way. -/
theorem Answers.after {next : α → SolverM τ β} {after : α → Solver τ → Prop}
    (answers : Answers rules action solver) (alters : Alters rules false action solver after)
    (goesOn : ∀ answer rest, Changes rules false solver rest → after answer rest →
      Answers rules (next answer) rest) : Answers rules (action >>= next) solver :=
  answers.bind fun answer rest result changes =>
    goesOn answer rest changes (alters.of_ok result).2

theorem answers_get {next : Solver τ → SolverM τ α} :
    Answers rules (get >>= next) solver ↔ Answers rules (next solver) solver := Iff.rfl

theorem Alters.answers {after : α → Solver τ → Prop} {answer : α} {rest : Solver τ}
    (alters : Alters rules false action solver after)
    (result : action solver = .ok answer rest) : Answers rules action solver :=
  ⟨answer, rest, result, (alters.of_ok result).1⟩

theorem answers_countAssignments {next : Nat → SolverM τ α} :
    Answers rules (Solver.countAssignments >>= next) solver ↔
      Answers rules (next solver.trail.size) solver := Iff.rfl

end Logic

namespace Solver

variable {τ : Type} [TheoryAtom τ] {rules : Rules τ} {solver rest : Solver τ}

/-! ## Single values -/

theorem answers_count (update : Counters → Counters) : Answers rules (count update) solver :=
  (alters_count update).answers rfl

theorem answers_emit {event : Event} (plain : isSplit event = false) :
    Answers rules (emit event) solver :=
  (alters_emit plain).answers rfl

omit [TheoryAtom τ] in
theorem setValue_of_free {atom : Atom} (free : solver.Free atom) (value : Value) (reason : Reason)
    {level : Nat} (isOpen : level ≤ solver.trail.level) :
    setValue atom value reason level solver = .ok ⟨⟩ (solver.given atom value reason level) := by
  rw [setValue_eq, get_bind, setError?_of_free free isOpen]
  rfl

theorem answers_setValue {atom : Atom} {value : Value} {reason : Reason} {level : Nat}
    (free : solver.Free atom) (cause : Cause rules solver atom value)
    (isOpen : level ≤ solver.trail.level) :
    Answers rules (setValue atom value reason level) solver :=
  (alters_setValue cause isOpen).answers (setValue_of_free free value reason isOpen)

theorem answers_decide {atom : Atom} {value : Value} (free : solver.Free atom)
    (cause : Cause rules solver atom value) : Answers rules (decide atom value) solver :=
  (alters_decide cause).answers (decide_of_free free value)

theorem answers_propagateLiteral (sorted : solver.Sorted) {key : ClauseKey}
    {clause : Clause} {literal : Literal} (stored : solver.clauses.clause? key = some clause)
    (member : literal ∈ clause) : Answers rules (propagateLiteral key literal) solver := by
  unfold propagateLiteral
  refine Answers.after (answers_count _) (alters_count _) fun _ counted _ told => ?_
  have trail : counted.trail = solver.trail := congrArg Assignment.trail told.assignment
  rw [answers_get]
  dsimp only
  rw [trail]
  cases truth : solver.trail.literalTruth? literal with
  | some truthful => cases truthful <;> exact .pure _
  | none =>
      have free := (sorted.fitting _ _ stored _ member).free (sorted.unvalued stored member truth)
      have freeCounted : counted.Free literal.atom := by
        refine ⟨(told.keeps _).trans free.unvalued, ?_⟩
        rw [congrArg Assignment.vars told.assignment]
        exact free.known
      refine .bind (answers_setValue freeCounted (told.literal stored member)
        (Nat.le_of_eq (congrArg Trail.level trail.symm))) fun _ _ _ _ => ?_
      exact .bind (answers_emit rfl) fun _ _ _ _ => .pure _

theorem answers_assignImplied {owner : TheoryKey} {key : VariableKey} {value : Value}
    (admits : solver.Admits (.var key) value) (allowed : rules.assign solver owner key value) :
    Answers rules (assignImplied key value) solver := by
  unfold assignImplied
  rw [answers_get]
  dsimp only
  split
  · exact .pure _
  · next unvalued =>
      have free := admits.free (Option.not_isSome_iff_eq_none.mp unvalued)
      refine .bind (answers_setValue free (.assigned allowed) (Nat.le_refl _)) fun _ _ _ _ => ?_
      refine .bind (answers_count _) fun _ _ _ _ => ?_
      exact .bind (answers_emit rfl) fun _ _ _ _ => .pure _

theorem answers_offerLemma {owner : TheoryKey} {clause : Clause}
    (allowed : rules.learn solver owner clause) : Answers rules (offerLemma clause) solver := by
  unfold offerLemma
  rw [answers_get]
  cases fitting : clauseError? solver clause with
  | some error => exact .pure _
  | none =>
      have inserted : Answers rules (insertClause clause .theory) solver :=
        ⟨_, _, rfl, .single (.learn allowed fitting)⟩
      exact .bind inserted fun _ _ _ _ => .bind (answers_emit rfl) fun _ _ _ _ => .pure _

/-! ## Parts of a round -/

theorem answers_propagateUnits {units : List (ClauseKey × Literal)} (coherent : solver.Coherent)
    (orderly : solver.Orderly rules) (offered : solver.Offered units) :
    Answers rules (propagateUnits units) solver := by
  induction units generalizing solver with
  | nil => exact .pure _
  | cons unit units induction =>
      obtain ⟨key, literal⟩ := unit
      obtain ⟨clause, stored, member⟩ := offered _ List.mem_cons_self
      refine .bind (answers_propagateLiteral orderly.sorted stored member)
        fun answer middle _ changes => ?_
      cases answer with
      | error conflict => exact .pure _
      | ok given =>
          have remaining : solver.Offered units :=
            fun pair inside => offered pair (List.mem_cons_of_mem _ inside)
          exact induction (changes.coherent coherent) (changes.orderly coherent orderly)
            (remaining.mono (changes.continues coherent))

theorem answers_propagateClauses (coherent : solver.Coherent) (orderly : solver.Orderly rules) :
    Answers rules propagateClauses solver := by
  unfold propagateClauses
  rw [answers_get]
  dsimp only
  cases solver.clauses.violated.head? with
  | some conflict => exact .pure _
  | none =>
      refine answers_propagateUnits coherent orderly fun pair inside => ?_
      obtain ⟨clause, unit⟩ := coherent.assignment.clauses.mem_units.mp inside
      exact ⟨clause, unit.watched.clause?, unit.member⟩

theorem answers_evaluateAtom (coherent : solver.Coherent) {key : TheoryKey}
    (unvalued : solver.trail.get? (.theory key) = none) :
    Answers rules (evaluateAtom key) solver := by
  unfold evaluateAtom
  rw [answers_get]
  cases present : solver.theoryAtoms[key]? with
  | none => exact .pure _
  | some atom =>
      dsimp only
      cases evaluated : TheoryAtom.evaluate atom solver.values with
      | none => exact .pure _
      | some truth =>
          have free : solver.Free (.theory key) := ⟨unvalued, by rintro _ ⟨⟩⟩
          refine .bind (answers_setValue free (.evaluation present evaluated)
            (greatestLevel_le coherent.assignment.trail _)) fun _ _ _ _ => ?_
          exact .bind (answers_count _) fun _ _ _ _ => answers_emit rfl

theorem alters_evaluateAtom_evaluates (coherent : solver.Coherent) (key : TheoryKey) :
    Alters rules false (evaluateAtom key) solver fun _ rest => Evaluates solver rest [key] := by
  unfold evaluateAtom
  rw [alters_get]
  cases present : solver.theoryAtoms[key]? with
  | none => exact .pure (.absent present)
  | some atom =>
      dsimp only
      cases evaluated : TheoryAtom.evaluate atom solver.values with
      | none => exact .pure (.unevaluated present evaluated)
      | some truth =>
          refine Alters.bind (alters_setValue (.evaluation present evaluated)
            (greatestLevel_le coherent.assignment.trail _)) fun _ _ _ given => ?_
          obtain ⟨_, rfl⟩ := given
          refine Alters.bind (alters_count _) fun _ _ _ first => ?_
          exact (alters_emit rfl).imp fun _ _ _ second =>
            .single present evaluated (first.trans second)

theorem answers_evaluateAtoms {keys : List TheoryKey} (coherent : solver.Coherent)
    (distinct : keys.Nodup) (unvalued : ∀ key ∈ keys, solver.trail.get? (.theory key) = none) :
    Answers rules (evaluateAtoms keys) solver := by
  induction keys generalizing solver with
  | nil => exact .pure _
  | cons key keys induction =>
      obtain ⟨fresh, distinctRest⟩ := List.nodup_cons.mp distinct
      refine Answers.after (answers_evaluateAtom coherent (unvalued key List.mem_cons_self))
        (alters_evaluateAtom_evaluates coherent key) fun _ middle changes evaluates => ?_
      refine induction (changes.coherent coherent) distinctRest fun other inside => ?_
      -- Evaluating one atom gives no value to another.
      rw [evaluates.others]
      · exact unvalued other (List.mem_cons_of_mem _ inside)
      · rintro _ single ⟨⟩
        exact fresh (List.mem_singleton.mp single ▸ inside)

theorem answers_evaluateTheory (coherent : solver.Coherent) :
    Answers rules evaluateTheory solver := by
  unfold evaluateTheory
  rw [answers_get]
  refine answers_evaluateAtoms coherent (coherent.fullyAssigned_nodup.filter _) fun key inside => ?_
  exact Option.isNone_iff_eq_none.mp (List.mem_filter.mp inside).2

theorem answers_runHook {hook : Hook} {owner : TheoryKey} (coherent : solver.Coherent)
    (orderly : solver.Orderly rules) (asks : hook.Asks rules owner solver) :
    Answers rules (runHook hook) solver := by
  induction hook generalizing solver with
  | done => exact .pure _
  | conflict key => exact .pure _
  | inspect next induction =>
      unfold runHook
      rw [answers_get]
      exact induction _ coherent orderly asks
  | assign key value next induction =>
      refine .bind (answers_assignImplied (orderly.careful.assign _ _ _ _ asks.1) asks.1)
        fun given rest result changes => ?_
      exact induction given (changes.coherent coherent) (changes.orderly coherent orderly)
        (asks.2 _ _ result)
  | decide atom value next induction =>
      obtain ⟨admits, unvalued⟩ := orderly.careful.decide _ _ _ _ asks.1
      refine .bind (answers_decide (admits.free unvalued) (.decided asks.1))
        fun _ rest result changes => ?_
      exact induction (changes.coherent coherent) (changes.orderly coherent orderly)
        (asks.2 _ _ result)
  | learn clause next induction =>
      refine .bind (answers_offerLemma asks.1) fun answer rest result changes => ?_
      exact induction answer (changes.coherent coherent) (changes.orderly coherent orderly)
        (asks.2 _ _ result)

theorem answers_consultAtoms {units : List (TheoryKey × VariableKey)}
    (heedful : solver.Heedful rules) (coherent : solver.Coherent)
    (orderly : solver.Orderly rules) (lacking : solver.Lacking units) :
    Answers rules (consultAtoms units) solver := by
  induction units generalizing solver with
  | nil => exact .pure _
  | cons unit units induction =>
      obtain ⟨key, unassigned⟩ := unit
      have remaining : solver.Lacking units :=
        fun pair inside => lacking pair (List.mem_cons_of_mem _ inside)
      unfold consultAtoms
      rw [answers_get]
      cases unvalued : solver.trail.get? (.var unassigned) with
      | some entry => exact induction heedful coherent orderly remaining
      | none =>
          cases present : solver.theoryAtoms[key]? with
          | none => exact induction heedful coherent orderly remaining
          | some atom =>
              refine Answers.after (answers_emit rfl) (alters_emit rfl)
                fun _ told first same => ?_
              have lacks : told.Lacks atom unassigned :=
                lacking.lacks List.mem_cons_self present unvalued same
              have asks := heedful told first.any key atom unassigned
                (by rw [same.theoryAtoms, present]) lacks
              refine .bind (answers_runHook (first.coherent coherent)
                (first.orderly coherent orderly) asks) fun answer rest _ second => ?_
              cases answer with
              | some conflict => exact .pure _
              | none =>
                  have changes := Relation.ReflTransGen.trans first second
                  exact induction (heedful.changes changes) (Changes.coherent changes coherent)
                    (Changes.orderly changes coherent orderly)
                    (remaining.mono (Changes.grown changes)
                      (Changes.continues changes coherent))

theorem answers_consultTheory (heedful : solver.Heedful rules) (coherent : solver.Coherent)
    (orderly : solver.Orderly rules) : Answers rules consultTheory solver := by
  unfold consultTheory
  rw [answers_get]
  exact answers_consultAtoms heedful coherent orderly (lacking_semanticUnits coherent)

/-! ## Rounds -/

/-- The atoms without a value. -/
def vacant (solver : Solver τ) : List Atom :=
  solver.atoms.filter fun atom => (solver.trail.get? atom).isNone

omit [TheoryAtom τ] in
theorem nodup_atoms (solver : Solver τ) : solver.atoms.Nodup := by
  refine List.nodup_append.mpr ⟨?_, ?_, ?_⟩
  · exact List.nodup_range.map fun _ _ same => Atom.var.inj same
  · exact List.nodup_range.map fun _ _ same => Atom.theory.inj same
  · intro left first right second same
    obtain ⟨_, _, rfl⟩ := List.mem_map.mp first
    obtain ⟨_, _, rfl⟩ := List.mem_map.mp second
    cases same

omit [TheoryAtom τ] in
/-- Every atom has a value or is vacant. -/
theorem Sorted.length_vacant (sorted : solver.Sorted) :
    solver.vacant.length + solver.trail.size = solver.capacity := by
  have valued : ∀ atom, atom ∈ (solver.atoms.filter fun other => (solver.trail.get? other).isSome) ↔
      ∃ entry, solver.trail.get? atom = some entry := by
    intro atom
    rw [List.mem_filter, ← Option.isSome_iff_exists]
    refine ⟨And.right, fun present => ⟨?_, present⟩⟩
    obtain ⟨entry, found⟩ := Option.isSome_iff_exists.mp present
    exact sorted.exists found
  have size := Trail.size_eq_length (solver.nodup_atoms.filter _) valued
  have parts := List.length_eq_length_filter_add (l := solver.atoms)
    fun atom => (solver.trail.get? atom).isNone
  simp only [Option.not_isNone] at parts
  rw [← length_atoms, parts, size]
  rfl

omit [TheoryAtom τ] in
theorem vacant_lt (sorted : solver.Sorted) (sortedRest : rest.Sorted)
    (continues : solver.Continues rest) (longer : solver.trail.size < rest.trail.size) :
    rest.vacant.length < solver.vacant.length := by
  have before := sorted.length_vacant
  have after := sortedRest.length_vacant
  rw [continues.capacity] at after
  omega

theorem answers_propagate {rounds : Nat} (heedful : solver.Heedful rules)
    (coherent : solver.Coherent) (orderly : solver.Orderly rules)
    (enough : solver.vacant.length < rounds) : Answers rules (propagate rounds) solver := by
  induction rounds generalizing solver with
  | zero => cases enough
  | succ rounds induction =>
      -- A further round starts with fewer atoms vacant.
      have again : ∀ middle : Solver τ, Changes rules false solver middle →
          solver.trail.size < middle.trail.size → Answers rules (propagate rounds) middle := by
        intro middle changes longer
        have orderlyMiddle := changes.orderly coherent orderly
        have fewer := vacant_lt orderly.sorted orderlyMiddle.sorted
          (changes.continues coherent) longer
        exact induction (heedful.changes changes) (changes.coherent coherent) orderlyMiddle
          (Nat.lt_of_lt_of_le fewer (Nat.le_of_lt_succ enough))
      unfold propagate
      rw [answers_countAssignments]
      refine .bind (answers_evaluateTheory coherent) fun _ evaluated _ first => ?_
      refine .bind (answers_propagateClauses (first.coherent coherent)
        (first.orderly coherent orderly)) fun answer passed _ second => ?_
      have changes : Changes rules false solver passed := Relation.ReflTransGen.trans first second
      cases answer with
      | some conflict => exact .pure _
      | none =>
          rw [answers_countAssignments]
          split
          · next longer => exact again _ changes longer
          · refine .bind (answers_consultTheory (heedful.changes changes)
              (changes.coherent coherent) (changes.orderly coherent orderly))
              fun answer consulted _ third => ?_
            have all : Changes rules false solver consulted :=
              Relation.ReflTransGen.trans changes third
            cases answer with
            | some conflict => exact .pure _
            | none =>
                rw [answers_countAssignments]
                split
                · exact .pure _
                · next different =>
                    exact again _ all
                      (Nat.lt_of_le_of_ne all.grown.size_le (Ne.symm different))

end Solver

/-- Propagation ends, after at most one round more than there are atoms without a value at
the start, and all values that there were are kept. -/
theorem Reached.propagates_within_vacancies {τ : Type} [TheoryAtom τ]
    {allowed : Solver τ → Operation τ → Prop} {configuration : Configuration}
    {solver : Solver τ} (reached : Reached allowed configuration solver)
    (sorted : solver.Sorted) (heedful : solver.Heedful Rules.typed) :
    ∃ answer rest,
      (∀ rounds, solver.vacant.length < rounds →
        Solver.propagate rounds solver = .ok answer rest) ∧
      ∀ atom entry, solver.trail.get? atom = some entry →
        rest.trail.get? atom = some entry := by
  obtain ⟨answer, rest, ends, changes⟩ := Solver.answers_propagate heedful reached.coherent
    ⟨Rules.typed_careful, sorted⟩ (Nat.lt_succ_self solver.vacant.length)
  refine ⟨answer, rest, fun rounds enough => ?_, changes.grown.kept⟩
  rcases Solver.refuels_propagate (Nat.succ_le_of_lt enough) solver with same | ⟨_, exhausted⟩
  · exact same.trans ends
  · cases ends.symm.trans exhausted

-- With one vacant atom a second round may be needed, which finds nothing to do.
example :
    let solver := ((Solver.new {} : Solver Empty).withVariable "x" .boolean).withClause
      (Clause.ofList [⟨.var 0, true⟩])
    solver.vacant = [.var 0] ∧ answer? (Solver.propagate 1) solver = none ∧
      answer? (Solver.propagate 2) solver = some none := by
  decide +kernel

/-! ## Scripts that keep to the sorts -/

/-- What the action asks for exists and is of the sort of the value it gets. -/
def ScriptAction.Fits (solver : Solver ScriptedAtom) (unassigned : VariableKey) :
    ScriptAction → Prop
  | .assign value target => solver.Admits (.var (target.getD unassigned)) value
  | .complete => ∀ truth, solver.Admits (.var unassigned) (.boolean truth)
  | .decide atom value => solver.Admits atom value
  | .learn _ _ | .conflict _ => True

instance (solver : Solver ScriptedAtom) (unassigned : VariableKey) (action : ScriptAction) :
    Decidable (action.Fits solver unassigned) :=
  match action with
  | .assign value target =>
      inferInstanceAs (Decidable (solver.Admits (.var (target.getD unassigned)) value))
  | .complete => inferInstanceAs (Decidable (∀ truth, solver.Admits _ (.boolean truth)))
  | .decide atom value => inferInstanceAs (Decidable (solver.Admits atom value))
  | .learn _ _ | .conflict _ => inferInstanceAs (Decidable True)

namespace ScriptedAtom

variable {solver rest : Solver ScriptedAtom} {owner : TheoryKey} {unassigned : VariableKey}

theorem fits_of_continues {action : ScriptAction} (continues : solver.Continues rest)
    (fits : action.Fits solver unassigned) : action.Fits rest unassigned := by
  cases action with
  | assign value target =>
      have admits : solver.Admits (.var (target.getD unassigned)) value := fits
      exact continues.admits.mpr admits
  | complete => exact fun truth => continues.admits.mpr (fits truth)
  | decide atom value =>
      have admits : solver.Admits atom value := fits
      exact continues.admits.mpr admits
  | learn clause conflict => trivial
  | conflict key => trivial

theorem assign_asks {hook : Hook} {key : VariableKey} {value : Value}
    (admits : solver.Admits (.var key) value)
    (later : ∀ rest, Changes Rules.typed false solver rest → hook.Asks Rules.typed owner rest) :
    (Hook.assign key value fun _ => hook).Asks Rules.typed owner solver := by
  have allowed : Rules.typed.assign solver owner key value := admits
  exact ⟨allowed, fun _ rest result =>
    later rest ((Solver.alters_assignImplied allowed).of_ok result).1⟩

/-- An action that fits may be requested, if what follows it may be requested after any
changes. -/
theorem request_asks {action : ScriptAction} {hook : Hook} (atom : ScriptedAtom)
    (truth : Option Bool) (fits : action.Fits solver unassigned)
    (later : ∀ rest, Changes Rules.typed false solver rest → hook.Asks Rules.typed owner rest) :
    (atom.request unassigned truth solver.toAssignment action hook).Asks Rules.typed owner
      solver := by
  cases action with
  | assign value target => exact assign_asks fits later
  | complete =>
      unfold request
      dsimp only
      split
      · exact later _ .refl
      · next choice _ => exact assign_asks (fits choice) later
  | decide target value =>
      unfold request
      dsimp only
      split
      · exact later _ .refl
      · next unvalued =>
          have allowed : Rules.typed.decide solver owner target value :=
            ⟨fits, Option.not_isSome_iff_eq_none.mp unvalued⟩
          exact ⟨allowed, fun _ rest result =>
            later rest ((Solver.alters_decide (.decided allowed)).of_ok result).1⟩
  | learn clause conflict =>
      have allowed : Rules.typed.learn solver owner clause := trivial
      refine ⟨allowed, fun answer rest result => ?_⟩
      have changes : Changes Rules.typed false solver rest :=
        ((Solver.alters_offerLemma allowed).of_ok result).1
      cases answer with
      | ok key =>
          dsimp only
          split
          · trivial
          · exact later rest changes
      | error error => exact later rest changes
  | conflict key => trivial

theorem run_asks {steps : List GuardedAction} (atom : ScriptedAtom) (this : Atom)
    (coherent : solver.Coherent)
    (fits : ∀ step ∈ steps, step.action.Fits solver unassigned) :
    (atom.run this unassigned steps).Asks Rules.typed owner solver := by
  induction steps generalizing solver with
  | nil => trivial
  | cons step steps induction =>
      have later : ∀ rest, Changes Rules.typed false solver rest →
          (atom.run this unassigned steps).Asks Rules.typed owner rest :=
        fun rest changes => induction (changes.coherent coherent) fun other inside =>
          fits_of_continues (changes.continues coherent)
            (fits other (List.mem_cons_of_mem _ inside))
      unfold run
      show Hook.Asks Rules.typed owner (if _ then _ else _) solver
      split
      · exact request_asks atom _ (fits step List.mem_cons_self) later
      · exact later solver .refl

/-- Scripted atoms keep to the sorts if all their actions fit. -/
theorem heedful_typed (coherent : solver.Coherent)
    (fits : ∀ atom ∈ solver.theoryAtoms.toList, ∀ unassigned ∈ atom.inputs,
      ∀ step ∈ atom.actions, step.action.Fits solver unassigned) :
    solver.Heedful Rules.typed := by
  intro reached changes owner atom unassigned present lacks
  have continues := changes.continues coherent
  rw [continues.theoryAtoms] at present
  have listed : atom ∈ solver.theoryAtoms.toList :=
    Array.mem_toList_iff.mpr (Array.mem_of_getElem? present)
  exact run_asks atom _ (changes.coherent coherent) fun step inside =>
    fits_of_continues continues (fits atom listed unassigned lacks.member step inside)

end ScriptedAtom

/-! ## A hook that keeps propagation busy -/

/-- An atom that adds a lemma, opens a level for another variable, and then gives its own
variable a value. -/
def busyAtom : ScriptedAtom where
  inputs := [0]
  connective := .parity
  actions := [
    ⟨none, .learn (Clause.ofList [⟨.var 0, false⟩, ⟨.var 3, true⟩]) false⟩,
    ⟨none, .decide (.var 2) (.boolean true)⟩,
    ⟨none, .assign (.boolean true) none⟩]
  name := "busy"

def busyFormula : Solver ScriptedAtom :=
  (((((Solver.new {}).withVariable "a" .boolean).withVariable "b" .boolean).withVariable
    "c" .boolean).withVariable "d" .boolean).withTheoryAtom busyAtom

theorem stated_busyFormula : Stated {} busyFormula := by
  refine .withTheoryAtom (.withVariable (.withVariable (.withVariable (.withVariable .new
    ?_ _) ?_ _) ?_ _) ?_ _) ?_
  all_goals decide +kernel

/-- The second variable is true when propagation starts. -/
def busySolver : Solver ScriptedAtom :=
  left (Operation.perform (.decide (.var 1) (.boolean true))) busyFormula

theorem free_busyFormula : busyFormula.Free (.var 1) :=
  ⟨Solver.get?_untouched stated_busyFormula.ready.untouched _, by rintro _ ⟨⟩; decide +kernel⟩

theorem changes_busySolver : Changes Rules.typed true busyFormula busySolver := by
  have allowed : Rules.typed.decide busyFormula 0 (.var 1) (.boolean true) :=
    ⟨by decide +kernel, free_busyFormula.unvalued⟩
  exact ((Solver.alters_decide (.decided allowed)).of_ok
    (Solver.decide_of_free free_busyFormula (.boolean true))).1

theorem reached_busySolver : Reached (fun _ _ => True) {} busySolver :=
  (stated_busyFormula.reached fun _ _ _ => trivial).answered
    (.decide (.var 1) (.boolean true)) trivial
    (Solver.decide_of_free free_busyFormula (.boolean true))

theorem heedful_busySolver : busySolver.Heedful Rules.typed :=
  ScriptedAtom.heedful_typed reached_busySolver.coherent (by decide +kernel)

/-- Four atoms are vacant, so five rounds are enough, though the hook adds a clause and
opens a level meanwhile. -/
theorem busySolver_propagates :
    busySolver.vacant = [.var 0, .var 2, .var 3, .theory 0] ∧
      ∃ answer rest, Solver.propagate 5 busySolver = .ok answer rest ∧
        ∀ atom entry, busySolver.trail.get? atom = some entry →
          rest.trail.get? atom = some entry := by
  have ready := stated_busyFormula.ready
  have sorted : busySolver.Sorted :=
    (changes_busySolver.orderly ready.coherent ⟨Rules.typed_careful, ready.sorted⟩).sorted
  have vacant : busySolver.vacant = [.var 0, .var 2, .var 3, .theory 0] := by decide +kernel
  obtain ⟨answer, rest, ends, kept⟩ :=
    reached_busySolver.propagates_within_vacancies sorted heedful_busySolver
  exact ⟨vacant, answer, rest, ends 5 (by rw [vacant]; decide), kept⟩

end ModelSearch
