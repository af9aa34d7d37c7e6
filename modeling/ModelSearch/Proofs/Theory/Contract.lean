import ModelSearch.Proofs.Operations.Stating
import ModelSearch.Proofs.Search.Soundness
import ModelSearch.Theory.Scripted

/-!
# Theories that keep their contract

The contract of a theory is that a hook assigns a value only if every theory model
that agrees with its atom and the other variables of it has that value, and learns
only clauses that hold in every theory model.  Then values of level zero hold in
every model of the formula, and a refuted formula has none.
-/

namespace ModelSearch

namespace Solver

variable {τ : Type} [TheoryAtom τ]

/-- The valuation agrees with the present values of a theory atom and of its
variables other than one. -/
structure AgreesAround (solver : Solver τ) (owner : TheoryKey) (assigned : VariableKey)
    (values : VariableKey → Value) : Prop where
  atom : ∀ value, solver.trail.value? (.theory owner) = some value →
    solver.Agrees values (.theory owner) value
  others : ∀ atom, solver.theoryAtoms[owner]? = some atom → ∀ key ∈ TheoryAtom.support atom,
    key ≠ assigned → ∀ value, solver.values key = some value → values key = value

end Solver

/-- What a hook may ask for if its theory keeps the contract. -/
def Rules.contract {τ : Type} [TheoryAtom τ] : Rules τ where
  assign solver owner key value := ∀ values, solver.TheoryModel values →
    solver.AgreesAround owner key values → values key = value
  decide solver _ atom value := solver.Admits atom value ∧ solver.trail.get? atom = none
  learn solver _ clause := ∀ values, solver.TheoryModel values →
    clause.Holds (solver.truthUnder values)

variable {τ : Type} [TheoryAtom τ] {jumping : Bool} {origin solver before after rest : Solver τ}
  {values : VariableKey → Value}

namespace Solver

/-- At level zero a faithful valuation agrees with all present values. -/
theorem Faithful.agreesAround (faithful : solver.Faithful values)
    (coherent : solver.toAssignment.Coherent) (zero : solver.trail.level = 0)
    (owner : TheoryKey) (assigned : VariableKey) : solver.AgreesAround owner assigned values := by
  have present : ∀ atom value, solver.trail.value? atom = some value →
      solver.Agrees values atom value := by
    intro atom value valued
    obtain ⟨entry, found, rfl⟩ := Trail.value?_eq_some.mp valued
    have low := coherent.trail.level_le found
    exact faithful.base atom entry found (by omega)
  refine ⟨fun value valued => present _ value valued, ?_⟩
  intro atom _ key _ _ value valued
  exact present (.var key) value ((coherent.vars.values key).symm.trans valued)

end Solver

/-- Under the contract a model of the formula stays faithful. -/
theorem Steps.faithful_of_contract (steps : Steps Rules.contract jumping before after)
    (locally : origin.EvaluatesLocally) (valid : origin.Valid Rules.contract before)
    (model : origin.TheoryModel values) (faithful : before.Faithful values) :
    after.Faithful values := by
  induction steps with
  | refl => exact faithful
  | @tail middle last steps step induction =>
      have validMiddle := Steps.valid steps valid
      have modelMiddle := model.continues validMiddle.continues
      have picks : last.Picks values := by
        refine step.picks validMiddle.coherent induction fun zero owner key value allowed => ?_
        exact allowed values modelMiddle
          (induction.agreesAround validMiddle.coherent.assignment zero owner key)
      refine step.faithful ?_ validMiddle induction picks fun owner clause allowed =>
        allowed values modelMiddle
      exact fun key atom present => locally key atom (validMiddle.continues.theoryAtoms ▸ present)

/-- A stated formula is fulfilled by no theory model if the search refutes it and
the theory keeps its contract. -/
theorem unsatisfiable_of_contract {configuration : Configuration} {fuel : Nat}
    (stated : Stated configuration solver) (locally : solver.EvaluatesLocally)
    (keeps : ∀ reached, Steps Rules.contract true solver reached →
      reached.Obeys Rules.contract)
    (answered : Solver.solve fuel solver = .ok .unsatisfiable rest) :
    ¬∃ values, solver.Model values := by
  rintro ⟨values, model⟩
  have ready := stated.ready
  have valid : solver.Valid Rules.contract solver := ready.valid
  have runs := Solver.runs_solve (fun state valid => keeps state valid.reached) valid
    ready.unsettled fuel
  obtain ⟨steps, refuted⟩ := runs.of_ok answered
  have faithful := model.faithful (Solver.get?_untouched ready.untouched)
  exact (steps.faithful_of_contract locally valid model.theoryModel faithful).unrefuted refuted

/-! ## A theory that keeps it -/

/-- An atom that is a copy of the first variable, and completes it. -/
def copyAtom : ScriptedAtom where
  inputs := [0]
  connective := .parity
  actions := [⟨none, .complete⟩]
  name := "copy"

/-- The copy is true, and the variable implies both another one and its negation. -/
def copyFormula : Solver ScriptedAtom :=
  (((((Solver.new {}).withVariable "a" .boolean).withVariable "b" .boolean).withTheoryAtom
    copyAtom).withClause (Clause.ofList [⟨.theory 0, true⟩]) |>.withClause
      (Clause.ofList [⟨.var 0, false⟩, ⟨.var 1, false⟩])).withClause
        (Clause.ofList [⟨.var 0, false⟩, ⟨.var 1, true⟩])

theorem stated_copyFormula : Stated {} copyFormula := by
  refine .withClause (.withClause (.withClause (.withTheoryAtom
    (.withVariable (.withVariable .new ?_ _) ?_ _) ?_) ?_) ?_) ?_
  all_goals decide +kernel

theorem evaluate_copyAtom (values : Valuation) :
    copyAtom.evaluate values = (values 0).bind Value.truth? := by
  show Option.map (xor false) (Option.map (·.foldl xor false)
    (List.mapM id [(values 0).bind Value.truth?])) = _
  cases (values 0).bind Value.truth? with
  | none => rfl
  | some truth => cases truth <;> rfl

/-- The copy gives the variable its own value. -/
theorem keeps_copyAtom {state : Solver ScriptedAtom} {owner : TheoryKey}
    (present : state.theoryAtoms[owner]? = some copyAtom) :
    (TheoryAtom.hook copyAtom (.theory owner) 0).Keeps Rules.contract owner state := by
  show (copyAtom.request 0 (state.trail.truth? (.theory owner)) state.toAssignment .complete
    .done).Keeps Rules.contract owner state
  unfold ScriptedAtom.request
  dsimp only
  cases completed : (state.trail.truth? (.theory owner)).bind
      (copyAtom.completion? state.vars.value? 0) with
  | none => trivial
  | some choice =>
      refine ⟨fun values _ agrees => ?_, fun _ _ _ => trivial⟩
      obtain ⟨truth, valued, found⟩ := Option.bind_eq_some_iff.mp completed
      have chosen := List.find?_some found
      rw [evaluate_copyAtom, beq_iff_eq] at chosen
      obtain ⟨entry, entered, value⟩ := Trail.truth?_eq_some.mp valued
      have holds := Solver.agrees_boolean.mp
        (agrees.atom _ (Trail.value?_eq_some.mpr ⟨entry, entered, value⟩))
      rw [Solver.truthUnder, present] at holds
      have same : (values 0).truth? = some truth := (evaluate_copyAtom _).symm.trans holds
      cases shape : values 0 with
      | rational number =>
          rw [shape] at same
          cases same
      | boolean other =>
          rw [shape] at same
          exact congrArg Value.boolean (Option.some.inj (same.trans chosen.symm))

theorem keeps_copyFormula {reached : Solver ScriptedAtom}
    (steps : Steps Rules.contract true copyFormula reached) : reached.Obeys Rules.contract := by
  have ready := stated_copyFormula.ready
  have continues := steps.continues ready.coherent (.untouched ready.untouched)
  intro owner atom unassigned present lacks
  have former : copyFormula.theoryAtoms[owner]? = some atom := continues.theoryAtoms ▸ present
  obtain rfl : atom = copyAtom := by
    have only : copyFormula.theoryAtoms = #[copyAtom] := rfl
    rw [only, Array.getElem?_eq_some_iff] at former
    obtain ⟨inside, same⟩ := former
    have zero : owner = 0 := Nat.lt_one_iff.mp inside
    subst zero
    exact same.symm
  obtain rfl : unassigned = 0 := List.mem_singleton.mp lacks.member
  exact keeps_copyAtom present

theorem scripted_evaluatesLocally (solver : Solver ScriptedAtom) : solver.EvaluatesLocally := by
  intro _ atom _ left right same
  have inputs : (atom.inputs.map fun key => (left key).bind Value.truth?) =
      atom.inputs.map fun key => (right key).bind Value.truth? :=
    List.map_congr_left fun key member => by rw [same key member]
  show Option.map _ (atom.connective.apply _) = Option.map _ (atom.connective.apply _)
  rw [inputs]

theorem copyFormula_unsatisfiable : ¬∃ values, copyFormula.Model values := by
  have answered : answer? (Solver.solve 10) copyFormula = some .unsatisfiable := by
    decide +kernel
  have answered := ok_of_answer answered
  exact unsatisfiable_of_contract stated_copyFormula (scripted_evaluatesLocally _)
    (fun _ => keeps_copyFormula) answered

end ModelSearch
