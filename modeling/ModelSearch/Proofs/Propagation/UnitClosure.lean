import ModelSearch.Proofs.Propagation.Timeliness
import ModelSearch.Proofs.Stores.Mirrors

/-!
# What propagation makes true

Without theory atoms propagation only makes true what watched clauses leave over.  It
collects the unit clauses in batches, so a literal may be set although the same batch has
made it true or false already, and the clauses come in the order of the buckets.  This does
not matter: whatever is made true is implied, and when no clause is left to act on, all
that is implied is true.
-/

namespace ModelSearch

/-- The literal is true on the trail. -/
def Assignment.Verifies (assignment : Assignment) (literal : Literal) : Prop :=
  assignment.trail.truth? literal.atom = some literal.polarity

namespace Assignment

variable {assignment : Assignment} {literal : Literal}

theorem verifies_iff :
    assignment.Verifies literal ↔ assignment.trail.literalTruth? literal = some true := by
  rw [Trail.literalTruth?_eq_some, beq_true]
  exact Iff.rfl

/-- A literal is false if its negation is true. -/
theorem verifies_neg : assignment.Verifies (-literal) ↔ assignment.Falsifies literal := Iff.rfl

theorem Verifies.not_falsifies (verified : assignment.Verifies literal) :
    ¬assignment.Falsifies literal := fun falsified =>
  Bool.self_ne_not _ (Option.some.inj (verified.symm.trans falsified))

end Assignment

theorem Grown.verifies {τ : Type} {before after : Solver τ} (grown : Grown before after)
    {literal : Literal} (verified : before.Verifies literal) : after.Verifies literal :=
  Assignment.verifies_iff.mpr (grown.literalTrue (Assignment.verifies_iff.mp verified))

namespace Solver

variable {τ : Type} {origin solver rest other : Solver τ} {key : ClauseKey} {clause : Clause}
  {literal : Literal}

/-! ## The closure -/

/-- The literal is true, or the negations of all other literals of a watched clause are
implied. -/
inductive Implied (solver : Solver τ) : Literal → Prop
  | given {literal : Literal} (verified : solver.Verifies literal) : Implied solver literal
  | unit {key : ClauseKey} {clause : Clause} {literal : Literal}
      (watched : solver.clauses.Watched key clause) (member : literal ∈ clause)
      (others : ∀ other ∈ clause, other ≠ literal → Implied solver (-other)) :
      Implied solver literal

/-- A literal and its negation are implied, or the negations of all literals of a watched
clause. -/
inductive Clashing (solver : Solver τ) : Prop
  | literal {literal : Literal} (holds : solver.Implied literal)
      (fails : solver.Implied (-literal)) : Clashing solver
  | clause {key : ClauseKey} {clause : Clause} (watched : solver.clauses.Watched key clause)
      (fails : ∀ literal ∈ clause, solver.Implied (-literal)) : Clashing solver

/-- There are no theory atoms, and all values are Boolean. -/
structure Boolean (solver : Solver τ) : Prop where
  atomless : solver.theoryAtoms = #[]
  valued : ∀ atom entry, solver.trail.get? atom = some entry →
    ∃ truth, entry.value = .boolean truth

/-- The same clauses are watched, whatever their keys, and all values are the same. -/
structure Matches (solver other : Solver τ) : Prop where
  clauses : ∀ clause, (∃ key, solver.clauses.Watched key clause) ↔
    ∃ key, other.clauses.Watched key clause
  values : ∀ atom, solver.trail.value? atom = other.trail.value? atom

namespace Matches

theorem symm (same : solver.Matches other) : other.Matches solver :=
  ⟨fun clause => (same.clauses clause).symm, fun atom => (same.values atom).symm⟩

theorem verifies (same : solver.Matches other) (verified : solver.Verifies literal) :
    other.Verifies literal := by
  unfold Assignment.Verifies Trail.truth? at verified ⊢
  rwa [← same.values]

theorem implied (same : solver.Matches other) (implied : solver.Implied literal) :
    other.Implied literal := by
  induction implied with
  | given verified => exact .given (same.verifies verified)
  | unit watched member _ others =>
      obtain ⟨_, watched⟩ := (same.clauses _).mp ⟨_, watched⟩
      exact .unit watched member others

theorem clashing (same : solver.Matches other) (clashing : solver.Clashing) :
    other.Clashing := by
  cases clashing with
  | literal holds fails => exact .literal (same.implied holds) (same.implied fails)
  | clause watched fails =>
      obtain ⟨_, watched⟩ := (same.clauses _).mp ⟨_, watched⟩
      exact .clause watched fun literal member => same.implied (fails literal member)

end Matches

theorem Boolean.unvalued (boolean : solver.Boolean) {atom : Atom}
    (undetermined : solver.trail.truth? atom = none) : solver.trail.get? atom = none := by
  cases found : solver.trail.get? atom with
  | none => rfl
  | some entry =>
      obtain ⟨truth, value⟩ := boolean.valued atom entry found
      have determined := Trail.truth?_eq_some.mpr ⟨entry, found, value⟩
      rw [undetermined] at determined
      cases determined

/-- Values that are Boolean are known by the literals that are true. -/
theorem Boolean.value?_eq (boolean : solver.Boolean) (booleanOther : other.Boolean)
    (same : ∀ literal, solver.Verifies literal ↔ other.Verifies literal) (atom : Atom) :
    solver.trail.value? atom = other.trail.value? atom := by
  have one : ∀ {left right : Solver τ}, left.Boolean →
      (∀ literal, left.Verifies literal → right.Verifies literal) →
        ∀ value, left.trail.value? atom = some value → right.trail.value? atom = some value := by
    intro left right boolean keeps value valued
    obtain ⟨entry, found, rfl⟩ := Option.map_eq_some_iff.mp valued
    obtain ⟨truth, value⟩ := boolean.valued atom entry found
    have verified : left.Verifies ⟨atom, truth⟩ := Trail.truth?_eq_some.mpr ⟨entry, found, value⟩
    obtain ⟨again, foundAgain, same⟩ := Trail.truth?_eq_some.mp (keeps _ verified)
    exact Option.map_eq_some_iff.mpr ⟨again, foundAgain, same.trans value.symm⟩
  cases valued : solver.trail.value? atom with
  | some value => exact (one boolean (fun literal => (same literal).mp) value valued).symm
  | none =>
      cases other : other.trail.value? atom with
      | none => rfl
      | some value =>
          have back := one booleanOther (fun literal => (same literal).mpr) value other
          rw [valued] at back
          cases back

/-! ## Variables without a value -/

/-- The variables without a value. -/
def unvalued (solver : Solver τ) : Finset VariableKey :=
  (Finset.range solver.vars.size).filter fun key => (solver.trail.get? (.var key)).isNone

theorem mem_unvalued {key : VariableKey} : key ∈ solver.unvalued ↔
    key < solver.vars.size ∧ solver.trail.get? (.var key) = none := by
  unfold unvalued
  rw [Finset.mem_filter, Finset.mem_range, Option.isNone_iff_eq_none]

theorem card_unvalued_le (solver : Solver τ) : solver.unvalued.card ≤ solver.vars.size :=
  (Finset.card_filter_le _ _).trans_eq (Finset.card_range _)

theorem size_vars_given (solver : Solver τ) (atom : Atom) (value : Value) (reason : Reason)
    (level : Nat) : (solver.given atom value reason level).vars.size = solver.vars.size := by
  rw [← VariableStore.length_signature, signature_given, VariableStore.length_signature]

theorem unvalued_given {key : VariableKey} (value : Value) (reason : Reason) (level : Nat) :
    (solver.given (.var key) value reason level).unvalued = solver.unvalued.erase key := by
  ext other
  rw [Finset.mem_erase, mem_unvalued, mem_unvalued, size_vars_given, get?_given]
  by_cases same : key = other
  · simp [same]
  · simp [same, Ne.symm same]

/-! ## What propagation keeps -/

variable [TheoryAtom τ]

/-- The clauses are those of the beginning, what was true then is true, and what is true is
implied.  Every value that has been given since has taken a variable from those without. -/
structure Nearing (origin solver : Solver τ) : Prop where
  coherent : solver.Coherent
  boolean : solver.Boolean
  checked : solver.Checked
  watched : ∀ key clause, solver.clauses.Watched key clause ↔ origin.clauses.Watched key clause
  kept : ∀ literal, origin.Verifies literal → solver.Verifies literal
  implied : ∀ literal, solver.Verifies literal → origin.Implied literal
  balanced : solver.trail.size + solver.unvalued.card = origin.trail.size + origin.unvalued.card

namespace Nearing

theorem refl (coherent : solver.Coherent) (boolean : solver.Boolean)
    (checked : solver.Checked) : solver.Nearing solver where
  coherent := coherent
  boolean := boolean
  checked := checked
  watched _ _ := .rfl
  kept _ := id
  implied _ := .given
  balanced := rfl

theorem congr (nearing : origin.Nearing solver)
    (assignment : rest.toAssignment = solver.toAssignment)
    (theoryAtoms : rest.theoryAtoms = solver.theoryAtoms) : origin.Nearing rest where
  coherent := nearing.coherent.of_sameFormula (assignment ▸ nearing.coherent.assignment)
    (assignment ▸ SameFormula.refl _) theoryAtoms
  boolean := ⟨theoryAtoms.trans nearing.boolean.atomless, assignment ▸ nearing.boolean.valued⟩
  checked := by
    have checked := nearing.checked
    unfold Checked Admits at checked ⊢
    rwa [assignment, theoryAtoms]
  watched := assignment ▸ nearing.watched
  kept := assignment ▸ nearing.kept
  implied := assignment ▸ nearing.implied
  balanced := by
    have balanced := nearing.balanced
    unfold unvalued at balanced ⊢
    rwa [assignment]

/-- A violated clause shows that the closure clashes. -/
theorem clashing (nearing : origin.Nearing solver) (watched : solver.clauses.Watched key clause)
    (falsified : ∀ literal ∈ clause, solver.Falsifies literal) : origin.Clashing :=
  .clause ((nearing.watched key clause).mp watched) fun literal member =>
    nearing.implied (-literal) (Assignment.verifies_neg.mpr (falsified literal member))

/-- A literal of a clause is of a variable that exists. -/
theorem atom_eq (nearing : origin.Nearing solver)
    (stored : solver.clauses.clause? key = some clause) (member : literal ∈ clause) :
    ∃ index, literal.atom = .var index ∧ index < solver.vars.size := by
  have admits := nearing.checked key clause stored literal member
  unfold Admits at admits
  cases shape : literal.atom with
  | var index =>
      rw [shape] at admits
      obtain ⟨known, present, _⟩ := admits
      exact ⟨index, rfl, (Array.getElem?_eq_some_iff.mp present).1⟩
  | theory index =>
      rw [shape] at admits
      dsimp only at admits
      rw [nearing.boolean.atomless] at admits
      exact absurd admits.1 (Nat.not_lt_zero _)

/-- What the others of a watched clause leave over is implied. -/
theorem implied_last (nearing : origin.Nearing solver)
    (watched : solver.clauses.Watched key clause) (member : literal ∈ clause)
    (others : ∀ other ∈ clause, other ≠ literal → solver.Falsifies other) :
    origin.Implied literal :=
  .unit ((nearing.watched key clause).mp watched) member fun other inside different =>
    nearing.implied (-other) (Assignment.verifies_neg.mpr (others other inside different))

/-- The last literal of a unit clause is made true. -/
theorem given (nearing : origin.Nearing solver) (watched : solver.clauses.Watched key clause)
    (member : literal ∈ clause)
    (others : ∀ other ∈ clause, other ≠ literal → solver.Falsifies other)
    (free : solver.Free literal.atom) (reason : Reason) {level : Nat}
    (isOpen : level ≤ solver.trail.level) :
    origin.Nearing (solver.given literal.atom (.boolean literal.polarity) reason level) := by
  have change : Change Rules.free false solver
      (solver.given literal.atom (.boolean literal.polarity) reason level) :=
    .give free (.literal watched.clause? member) isOpen
  have found := get?_given solver literal.atom (.boolean literal.polarity) reason level
  refine ⟨change.coherent nearing.coherent, ⟨nearing.boolean.atomless, ?_⟩,
    change.checked nearing.coherent nearing.checked, ?_, ?_, ?_, ?_⟩
  · intro atom entry present
    rw [found] at present
    split at present
    · cases present
      exact ⟨_, rfl⟩
    · exact nearing.boolean.valued atom entry present
  · intro key clause
    exact (ClauseStore.watched_congr (stored_given _ _ _ _ _)).trans (nearing.watched key clause)
  · exact fun other verified => change.grown.verifies (nearing.kept other verified)
  · intro other verified
    obtain ⟨entry, present, value⟩ := Trail.truth?_eq_some.mp verified
    rw [found] at present
    split at present
    · next same =>
        cases present
        obtain rfl : literal = other := congrArg₂ Literal.mk same (Value.boolean.inj value)
        exact nearing.implied_last watched member others
    · exact nearing.implied other (Trail.truth?_eq_some.mpr ⟨entry, present, value⟩)
  · obtain ⟨index, shape, inside⟩ := nearing.atom_eq watched.clause? member
    have balanced := nearing.balanced
    have fewer : (solver.unvalued.erase index).card + 1 = solver.unvalued.card :=
      Finset.card_erase_add_one (mem_unvalued.mpr ⟨inside, shape ▸ free.unvalued⟩)
    rw [size_given free, shape, unvalued_given]
    omega

/-! ## Rounds -/

theorem propagateLiteral (nearing : origin.Nearing solver)
    (watched : solver.clauses.Watched key clause) (member : literal ∈ clause)
    (others : ∀ other ∈ clause, other ≠ literal → solver.Falsifies other) :
    Ends (propagateLiteral key literal) solver
      (fun answer rest => origin.Nearing rest ∧
        (∀ other, solver.Verifies other → rest.Verifies other) ∧
        ∀ conflict, answer = .error conflict → rest.Violates conflict ∧ origin.Clashing)
      fun _ _ => False := by
  cases truth : solver.trail.literalTruth? literal with
  | none =>
      obtain ⟨index, shape, inside⟩ := nearing.atom_eq watched.clause? member
      have free : solver.Free literal.atom :=
        ⟨nearing.boolean.unvalued (literalTruth?_eq_none.mp truth), fun _ same => by
          rw [shape] at same
          exact Atom.var.inj same ▸ inside⟩
      obtain ⟨rest, result, theoryAtoms, assignment⟩ := propagateLiteral_of_free free key
      rw [Ends, result]
      have given := nearing.given watched member others free (.clause key) (Nat.le_refl _)
      refine ⟨given.congr assignment theoryAtoms, fun other verified => ?_, ?_⟩
      · rw [assignment]
        exact (grown_given free _ _ _).verifies verified
      · rintro _ ⟨⟩
  | some verified =>
      cases verified with
      | true =>
          rw [Ends, propagateLiteral_of_true truth]
          refine ⟨nearing.congr rfl rfl, fun _ => id, ?_⟩
          rintro _ ⟨⟩
      | false =>
          have falsified := (Assignment.falsifies_iff.mpr truth).all others
          rw [Ends, propagateLiteral_of_false truth]
          refine ⟨nearing.congr rfl rfl, fun _ => id, ?_⟩
          rintro _ ⟨⟩
          exact ⟨⟨clause, watched.clause?, falsified⟩, nearing.clashing watched falsified⟩

theorem propagateUnits (nearing : origin.Nearing solver) {units : List (ClauseKey × Literal)}
    (awaiting : solver.Awaiting units) :
    Ends (propagateUnits units) solver
      (fun answer rest => origin.Nearing rest ∧
        ∀ conflict, answer = some conflict → rest.Violates conflict ∧ origin.Clashing)
      fun _ _ => False := by
  induction units generalizing solver with
  | nil => exact ⟨nearing, nofun⟩
  | cons unit units induction =>
      obtain ⟨key, literal⟩ := unit
      obtain ⟨clause, watched, member, others⟩ := awaiting _ List.mem_cons_self
      refine Ends.bind (nearing.propagateLiteral watched member others) ?_ fun _ _ => id
      rintro answer middle ⟨nearingMiddle, grown, conflicting⟩
      cases answer with
      | error conflict =>
          refine ⟨nearingMiddle, ?_⟩
          rintro _ ⟨⟩
          exact conflicting conflict rfl
      | ok given =>
          refine induction nearingMiddle fun pair inside => ?_
          obtain ⟨clause, watched, member, others⟩ := awaiting pair (List.mem_cons_of_mem _ inside)
          exact ⟨clause, (nearingMiddle.watched _ _).mpr ((nearing.watched _ _).mp watched), member,
            fun other within different => grown (-other) (others other within different)⟩

theorem propagateClauses (nearing : origin.Nearing solver) :
    Ends propagateClauses solver
      (fun answer rest => origin.Nearing rest ∧
        ∀ conflict, answer = some conflict → rest.Violates conflict ∧ origin.Clashing)
      fun _ _ => False := by
  unfold Solver.propagateClauses
  refine ends_get_bind.mpr ?_
  dsimp only
  cases found : solver.clauses.violated.head? with
  | some conflict =>
      obtain ⟨clause, watched, falsified⟩ :=
        (nearing.coherent.mirrors.violated.2 conflict).mp (List.mem_of_head? found)
      refine ⟨nearing, ?_⟩
      rintro _ ⟨⟩
      exact ⟨⟨clause, watched.clause?, falsified⟩, nearing.clashing watched falsified⟩
  | none => exact nearing.propagateUnits (awaiting_units nearing.coherent)

/-! ## The end -/

/-- When no clause is left to act on, all that is implied is true. -/
theorem complete (nearing : origin.Nearing solver) (fine : solver.clauses.violated = [])
    (idle : solver.clauses.units = []) (implied : origin.Implied literal) :
    solver.Verifies literal := by
  have mirrors := nearing.coherent.mirrors
  induction implied with
  | given verified => exact nearing.kept _ verified
  | @unit key clause literal watched member _ others =>
      have watched := (nearing.watched key clause).mpr watched
      cases truth : solver.trail.literalTruth? literal with
      | none =>
          have unit := (mirrors.units.2 key literal).mpr
            ⟨clause, watched, member, literalTruth?_eq_none.mp truth, others⟩
          rw [idle] at unit
          cases unit
      | some verified =>
          cases verified with
          | true => exact Assignment.verifies_iff.mpr truth
          | false =>
              have violated := (mirrors.violated.2 key).mpr
                ⟨clause, watched, (Assignment.falsifies_iff.mpr truth).all others⟩
              rw [fine] at violated
              cases violated

theorem not_clashing (nearing : origin.Nearing solver) (fine : solver.clauses.violated = [])
    (idle : solver.clauses.units = []) : ¬origin.Clashing := by
  have complete : ∀ {literal}, origin.Implied literal → solver.Verifies literal :=
    nearing.complete fine idle
  rintro (⟨holds, fails⟩ | ⟨watched, fails⟩)
  · exact (complete holds).not_falsifies (complete fails)
  · have violated := (nearing.coherent.mirrors.violated.2 _).mpr
      ⟨_, (nearing.watched _ _).mpr watched, fun literal member => complete (fails literal member)⟩
    rw [fine] at violated
    cases violated

end Nearing

/-- There is no conflict exactly if the closure does not clash, and then the true literals
are the closure; otherwise the answer is a clause that is false. -/
structure Saturates (origin : Solver τ) (answer : Option ClauseKey) (rest : Solver τ) : Prop where
  consistent : answer = none ↔ ¬origin.Clashing
  closed : answer = none → ∀ literal, rest.Verifies literal ↔ origin.Implied literal
  conflicting : ∀ conflict, answer = some conflict → rest.Violates conflict

omit [TheoryAtom τ] in
theorem Saturates.of_conflict {conflict : ClauseKey} (violated : rest.Violates conflict)
    (clashing : origin.Clashing) : origin.Saturates (some conflict) rest where
  consistent := ⟨nofun, fun consistent => absurd clashing consistent⟩
  closed := nofun
  conflicting := by
    rintro _ ⟨⟩
    exact violated

namespace Nearing

theorem saturates_of_rest (nearing : origin.Nearing rest) (fine : rest.clauses.violated = [])
    (idle : rest.clauses.units = []) : origin.Saturates none rest where
  consistent := ⟨fun _ => nearing.not_clashing fine idle, fun _ => rfl⟩
  closed _ literal := ⟨nearing.implied literal, nearing.complete fine idle⟩
  conflicting := nofun

/-- Each round but the last gives a variable its value. -/
theorem propagate (nearing : origin.Nearing solver) {rounds : Nat}
    (enough : solver.unvalued.card < rounds) :
    Ends (propagate rounds) solver
      (fun answer rest => origin.Nearing rest ∧ origin.Saturates answer rest)
      fun _ _ => False := by
  induction rounds generalizing solver with
  | zero => exact absurd enough (Nat.not_lt_zero _)
  | succ rounds induction =>
      have stepped : Alters Rules.free false Solver.propagateClauses solver _ :=
        alters_propagateClauses nearing.coherent
      have evaluated := evaluateTheory_of_atomless nearing.coherent nearing.boolean.atomless
      unfold Solver.propagate
      refine (ends_known rfl).mpr ((ends_known evaluated).mpr ?_)
      refine Ends.bind (Ends.and stepped nearing.propagateClauses) ?_ fun _ _ ends => ends.2
      rintro answer passed ⟨⟨changes, found⟩, nearingPassed, conflicting⟩
      cases answer with
      | some conflict =>
          obtain ⟨violated, clashing⟩ := conflicting conflict rfl
          exact ⟨nearingPassed, Saturates.of_conflict violated clashing⟩
      | none =>
          obtain ⟨fine, settled⟩ := found rfl
          refine (ends_known rfl).mpr ?_
          rcases settled with ⟨rfl, idle⟩ | longer
          · have consulted := consultTheory_of_atomless nearing.coherent nearing.boolean.atomless
            rw [if_neg (Nat.lt_irrefl _)]
            refine (ends_known consulted).mpr ((ends_known rfl).mpr ?_)
            rw [if_pos rfl]
            exact ⟨nearing, nearing.saturates_of_rest fine idle⟩
          · rw [if_pos longer]
            have balanced := nearing.balanced.trans nearingPassed.balanced.symm
            exact induction nearingPassed (by omega)

end Nearing

/-! ## Clauses stored from outside -/

theorem Extended.checked (extended : solver.Extended rest) (checked : solver.Checked) :
    rest.Checked := by
  cases extended with
  | same => exact checked
  | withVariable name sort => exact checked.withVariable name sort
  | withTheoryAtom known => exact checked.withTheoryAtom _
  | withClause fitting => exact checked.withClause fitting

omit [TheoryAtom τ] in
theorem Checked.stored (checked : solver.Checked)
    (fitting : ∀ literal ∈ clause, solver.Admits literal.atom (.boolean literal.polarity))
    (source : ClauseSource) : Preserves Checked (storeClause clause source) solver := by
  intro key present found literal member
  obtain ⟨stored, entered, rfl⟩ := ClauseStore.clause?_eq_some.mp found
  replace entered := (ClauseStore.stored?_store solver.clauses clause source key).symm.trans entered
  split at entered
  · cases entered
    exact fitting literal member
  · exact checked key _ (ClauseStore.clause?_eq_some.mpr ⟨stored, entered, rfl⟩) literal member

end Solver

variable {τ : Type} [TheoryAtom τ]

omit [TheoryAtom τ] in
/-- A clause that is stored from outside passes the check of the clauses that are added. -/
def Operation.Fitting (solver : Solver τ) (operation : Operation τ) : Prop :=
  ∀ clause, operation.stores? = some clause → Solver.clauseError? solver clause = none

omit [TheoryAtom τ] in
theorem Operation.fitting_of_builds {solver : Solver τ} {operation : Operation τ}
    (builds : operation.Builds) : operation.Fitting solver := by
  intro clause stores
  cases operation with
  | storeClause => exact builds.elim
  | _ => cases stores

theorem Operation.checked (operation : Operation τ) {solver : Solver τ}
    (coherent : solver.Coherent) (checked : solver.Checked)
    (fitting : operation.Fitting solver) : Preserves Solver.Checked operation.perform solver := by
  by_cases builds : operation.Builds
  · exact operation.preserves_of_builds builds fun rest extended => extended.checked checked
  · have both : Preserves (fun rest => rest.Coherent ∧ rest.Checked) operation.perform solver := by
      refine Operation.keeps And.left ?_ ?_ operation builds ?_ ⟨coherent, checked⟩
      · exact fun ⟨coherent, checked⟩ changes =>
          ⟨changes.coherent coherent, changes.checked coherent checked⟩
      · exact fun source ⟨coherent, checked⟩ shares =>
          (coherent.stored _ source).and (checked.stored (checked.shares shares) source)
      · exact fun clause source stores => (coherent.stored clause source).and
          (checked.stored (Solver.clauseError?_eq_none.mp (fitting clause stores)) source)
    exact both.imp fun _ => And.right

theorem Reached.checked {configuration : Configuration} {solver : Solver τ}
    (reached : Reached Operation.Fitting configuration solver) : solver.Checked :=
  Reached.induct (fun _ _ stored => by cases stored)
    (fun _ operation reached checked fitting =>
      operation.checked reached.coherent checked fitting) reached

theorem Reached.saturates {configuration : Configuration} {solver : Solver τ}
    (reached : Reached Operation.Fitting configuration solver) (boolean : solver.Boolean)
    {fuel : Nat} (enough : solver.vars.size < fuel) :
    ∃ answer rest, Solver.propagate fuel solver = .ok answer rest ∧ rest.Boolean ∧
      solver.Saturates answer rest := by
  have nearing := Solver.Nearing.refl reached.coherent boolean reached.checked
  obtain ⟨answer, rest, result, nearing, saturates⟩ :=
    (nearing.propagate (solver.card_unvalued_le.trans_lt enough)).answer
  exact ⟨answer, rest, result, nearing.boolean, saturates⟩

/-- On a Boolean formula propagation computes the closure under unit clauses: it ends without
a conflict exactly if the closure does not clash, and then the closure is what is true.  What
it finds does not depend on the order or the keys of the clauses. -/
theorem Reached.propagate_saturates {configuration : Configuration} {solver : Solver τ}
    (reached : Reached Operation.Fitting configuration solver) (boolean : solver.Boolean)
    {fuel : Nat} (enough : solver.vars.size < fuel) :
    ∃ answer rest, Solver.propagate fuel solver = .ok answer rest ∧
      solver.Saturates answer rest ∧
      ∀ (configuration : Configuration) (other : Solver τ) (fuel : Nat),
        Reached Operation.Fitting configuration other → other.Boolean → solver.Matches other →
        other.vars.size < fuel →
        ∃ otherAnswer last, Solver.propagate fuel other = .ok otherAnswer last ∧
          (otherAnswer = none ↔ answer = none) ∧
          (answer = none → ∀ atom, last.trail.value? atom = rest.trail.value? atom) := by
  obtain ⟨answer, rest, result, booleanRest, saturates⟩ := reached.saturates boolean enough
  refine ⟨answer, rest, result, saturates, fun _ other fuel reached boolean same enough => ?_⟩
  obtain ⟨otherAnswer, last, otherResult, booleanLast, otherSaturates⟩ :=
    reached.saturates boolean enough
  have agree : otherAnswer = none ↔ answer = none := by
    rw [otherSaturates.consistent, saturates.consistent]
    exact not_congr ⟨same.symm.clashing, same.clashing⟩
  refine ⟨otherAnswer, last, otherResult, agree, fun none => ?_⟩
  refine booleanLast.value?_eq booleanRest fun literal => ?_
  rw [otherSaturates.closed (agree.mpr none), saturates.closed none]
  exact ⟨same.symm.implied, same.implied⟩

/-! ## A chain in either order -/

omit [TheoryAtom τ] in
theorem Solver.exists_watched_withClause {solver : Solver τ} {clause other : Clause} :
    (∃ key, (solver.withClause clause).clauses.Watched key other) ↔
      other = clause ∨ ∃ key, solver.clauses.Watched key other := by
  constructor
  · rintro ⟨key, stored, present, watched, rfl⟩
    rw [stored?_withClause] at present
    split at present
    · cases present
      exact .inl rfl
    · exact .inr ⟨key, stored, present, watched, rfl⟩
  · rintro (rfl | ⟨key, stored, present, watched, rfl⟩)
    · exact ⟨solver.clauses.size, _, by rw [stored?_withClause, if_pos rfl], rfl, rfl⟩
    · refine ⟨key, stored, ?_, watched, rfl⟩
      rw [stored?_withClause, if_neg (Nat.ne_of_lt (ClauseStore.stored?_lt present)), present]

omit [TheoryAtom τ] in
/-- The order of two clauses does not matter. -/
theorem Solver.matches_swap (solver : Solver τ) (first second : Clause) :
    ((solver.withClause first).withClause second).Matches
      ((solver.withClause second).withClause first) where
  clauses clause := by
    simp only [exists_watched_withClause, or_left_comm]
  values _ := rfl

/-- The first variable is true, and the second follows from it. -/
def chainVariables : Solver Empty :=
  ((Solver.new {}).withVariable "p" .boolean).withVariable "q" .boolean

def chainStart : Clause := Clause.ofList [⟨.var 0, true⟩]

def chainLink : Clause := Clause.ofList [⟨.var 0, false⟩, ⟨.var 1, true⟩]

theorem stated_chain : Stated {} ((chainVariables.withClause chainStart).withClause chainLink) ∧
    Stated {} ((chainVariables.withClause chainLink).withClause chainStart) := by
  constructor
  all_goals
    refine .withClause (.withClause (.withVariable (.withVariable .new ?_ _) ?_ _) ?_) ?_
    all_goals decide +kernel

/-- In either order propagation makes the second variable true. -/
theorem chain_saturates : ∃ rest last,
    Solver.propagate 3 ((chainVariables.withClause chainStart).withClause chainLink) =
      .ok none rest ∧
    Solver.propagate 3 ((chainVariables.withClause chainLink).withClause chainStart) =
      .ok none last ∧
    rest.Verifies ⟨.var 1, true⟩ ∧
    ∀ atom, last.trail.value? atom = rest.trail.value? atom := by
  obtain ⟨forward, backward⟩ := stated_chain
  have reached : ∀ {solver : Solver Empty}, Stated {} solver →
      Reached Operation.Fitting {} solver := fun stated =>
    stated.reached fun _ _ builds => Operation.fitting_of_builds builds
  have boolean : ∀ {solver : Solver Empty}, Stated {} solver → solver.theoryAtoms = #[] →
      solver.Boolean := fun stated atomless => ⟨atomless, fun atom entry found => by
    rw [Solver.get?_untouched stated.ready.untouched] at found
    cases found⟩
  have answered : answer? (Solver.propagate 3)
      ((chainVariables.withClause chainStart).withClause chainLink) = some none := by
    decide +kernel
  have enough : chainVariables.vars.size < 3 := by decide +kernel
  obtain ⟨answer, rest, result, saturates, same⟩ :=
    (reached forward).propagate_saturates (boolean forward rfl) enough
  obtain ⟨otherAnswer, last, otherResult, agree, values⟩ := same {} _ 3 (reached backward)
    (boolean backward rfl) (chainVariables.matches_swap _ _) enough
  obtain rfl : answer = none := by
    rw [answer?, result] at answered
    exact Option.some.inj answered
  obtain rfl := agree.mpr rfl
  refine ⟨rest, last, result, otherResult, (saturates.closed rfl _).mpr ?_, values rfl⟩
  obtain ⟨_, start⟩ := Solver.exists_watched_withClause.mpr
    (.inr (Solver.exists_watched_withClause.mpr (.inl rfl)))
  obtain ⟨_, link⟩ := Solver.exists_watched_withClause.mpr (.inl rfl)
  have first : ((chainVariables.withClause chainStart).withClause chainLink).Implied
      ⟨.var 0, true⟩ := by
    refine .unit start (Clause.mem_ofList.mpr (by simp)) fun other member different => ?_
    exact absurd (List.mem_singleton.mp (Clause.mem_ofList.mp member)) different
  refine .unit link (Clause.mem_ofList.mpr (by simp)) fun other member different => ?_
  obtain rfl | rfl : other = ⟨.var 0, false⟩ ∨ other = ⟨.var 1, true⟩ := by
    simpa using Clause.mem_ofList.mp member
  · exact first
  · exact absurd rfl different

end ModelSearch
