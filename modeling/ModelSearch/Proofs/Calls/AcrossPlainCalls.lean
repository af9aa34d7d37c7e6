import ModelSearch.Proofs.Calls.Relation

/-!
# Relations across plain calls

What a search does is put together from a few basic calls.  A relation between solvers that
holds across each of these, and that composes, holds across whole calls.

A conflict is counted before it is explained, and a jump is told before it has made its clause
true.  So a relation that counts what is told need not hold within an explanation or a jump, as
long as it holds across each of them.
-/

namespace ModelSearch

open Solver

variable {τ : Type} [TheoryAtom τ]

/-- The call does its work itself, and is not of those that decide or explain. -/
def Call.Plain : Call → Prop
  | .evaluateAtom _ | .propagateLiteral _ _ | .assignImplied _ _ | .offerLemma _
  | .storeExplanation _ _ | .learn _ | .makeDecision | .endSearch _ => True
  | _ => False

/-- The relation holds across the plain calls that may be made, across decisions of hooks,
explanations and jumps, and across what is done between them.  The formula is not opened. -/
structure AcrossPlainCalls (fuel : Nat) (may : Call → Solver τ → Prop)
    (related : Solver τ → Solver τ → Prop) : Prop where
  calls : ∀ {caller callee before after}, may caller before →
    Calls fuel caller before callee after → may callee after
  refl : ∀ solver, related solver solver
  trans : ∀ {before middle after}, related before middle → related middle after →
    related before after
  entered : ∀ (solver : Solver τ) time, related solver (enteringRound time solver)
  closed : ∀ (solver : Solver τ) {status}, status ≠ .input → related solver { solver with status }
  plain : ∀ {call solver}, may call solver → call.Plain →
    Preserves (related solver) (call.perform fuel) solver
  requested : ∀ {solver : Solver τ} {atom value next},
    may (.runHook (.decide atom value next)) solver →
      Preserves (related solver) (Solver.decide atom value) solver
  consulted : ∀ {solver : Solver τ} {key unassigned atom units},
    may (.consultAtoms ((key, unassigned) :: units)) solver →
      solver.trail.get? (.var unassigned) = none → solver.theoryAtoms[key]? = some atom →
        related solver (telling (.consulted (.theory key) unassigned) solver)
  explained : ∀ {solver : Solver τ} {conflict}, may (.resolveConflict conflict) solver →
    Preserves (related solver) (explain fuel conflict) (enteringConflict solver)
  returned : ∀ {solver : Solver τ} {key}, may (.backjump key) solver →
    Preserves (related solver) (Solver.backjump key) solver

section Composition

omit [TheoryAtom τ]

variable {related : Solver τ → Solver τ → Prop} {solver : Solver τ}

/-- Something was done before. -/
theorem Preserves.after {α : Type} {action : SolverM τ α} {former : Solver τ}
    (trans : ∀ {before middle after}, related before middle → related middle after →
      related before after)
    (relates : related former solver) (preserves : Preserves (related solver) action solver) :
    Preserves (related former) action solver :=
  preserves.imp fun _ => trans relates

/-- One action after another. -/
theorem Preserves.follow {α β : Type} {action : SolverM τ α} {next : α → SolverM τ β}
    (trans : ∀ {before middle after}, related before middle → related middle after →
      related before after)
    (first : Preserves (related solver) action solver)
    (goesOn : ∀ answer rest, action solver = .ok answer rest →
      Preserves (related rest) (next answer) rest) :
    Preserves (related solver) (action >>= next) solver := by
  refine Ends.bind (Ends.traced first) ?_ fun _ _ broken => broken
  rintro answer rest ⟨relates, result⟩
  exact (goesOn answer rest result).imp fun _ => trans relates

end Composition

namespace AcrossPlainCalls

variable {fuel : Nat} {may : Call → Solver τ → Prop} {related : Solver τ → Solver τ → Prop}
  {solver : Solver τ}

theorem bind {α β : Type} {action : SolverM τ α} {next : α → SolverM τ β}
    (across : AcrossPlainCalls fuel may related) (first : Preserves (related solver) action solver)
    (goesOn : ∀ answer rest, action solver = .ok answer rest →
      Preserves (related rest) (next answer) rest) :
    Preserves (related solver) (action >>= next) solver :=
  first.follow across.trans goesOn

theorem after {α : Type} {action : SolverM τ α} {before : Solver τ}
    (across : AcrossPlainCalls fuel may related) (relates : related before solver)
    (preserves : Preserves (related solver) action solver) :
    Preserves (related before) action solver :=
  preserves.after across.trans relates

theorem propagateUnits (across : AcrossPlainCalls fuel may related)
    {units : List (ClauseKey × Literal)}
    (allowed : may (.propagateUnits units) solver) :
    Preserves (related solver) (propagateUnits units) solver := by
  induction units generalizing solver with
  | nil => exact across.refl solver
  | cons unit units induction =>
      obtain ⟨key, literal⟩ := unit
      have first := across.plain (across.calls allowed .propagateLiteral) trivial
      refine across.bind (ends_discard.mp first) fun answer rest propagates => ?_
      cases answer with
      | error conflict => exact across.refl rest
      | ok given => exact induction (across.calls allowed (.nextUnit propagates))

theorem propagateClauses (across : AcrossPlainCalls fuel may related)
    (allowed : may .propagateClauses solver) :
    Preserves (related solver) propagateClauses solver := by
  unfold Solver.propagateClauses
  refine ends_get_bind.mpr ?_
  dsimp only
  cases fine : solver.clauses.violated.head? with
  | some conflict => exact across.refl solver
  | none => exact across.propagateUnits (across.calls allowed (.propagateUnits fine))

theorem evaluateAtoms (across : AcrossPlainCalls fuel may related) {keys : List TheoryKey}
    (allowed : may (.evaluateAtoms keys) solver) :
    Preserves (related solver) (evaluateAtoms keys) solver := by
  induction keys generalizing solver with
  | nil => exact across.refl solver
  | cons key keys induction =>
      refine across.bind (across.plain (across.calls allowed .evaluateAtom) trivial) ?_
      exact fun _ _ evaluates => induction (across.calls allowed (.nextAtom evaluates))

theorem evaluateTheory (across : AcrossPlainCalls fuel may related)
    (allowed : may .evaluateTheory solver) :
    Preserves (related solver) evaluateTheory solver :=
  across.evaluateAtoms (across.calls allowed .evaluateAtoms)

theorem runHook (across : AcrossPlainCalls fuel may related) {hook : Hook}
    (allowed : may (.runHook hook) solver) :
    Preserves (related solver) (runHook hook) solver := by
  induction hook generalizing solver with
  | done => exact across.refl solver
  | conflict key => exact across.refl solver
  | inspect next induction => exact induction _ (across.calls allowed .inspected)
  | assign key value next induction =>
      have first := across.plain (across.calls allowed .assignImplied) trivial
      refine across.bind (ends_discard.mp first) fun answer rest assigns => ?_
      exact induction answer (across.calls allowed (.assigned assigns))
  | decide atom value next induction =>
      refine across.bind (across.requested allowed) ?_
      exact fun _ _ decides => induction (across.calls allowed (.requested decides))
  | learn clause next induction =>
      have first := across.plain (across.calls allowed .offerLemma) trivial
      refine across.bind (ends_discard.mp first) fun answer rest offers => ?_
      exact induction answer (across.calls allowed (.offered offers))

theorem consultAtoms (across : AcrossPlainCalls fuel may related)
    {units : List (TheoryKey × VariableKey)}
    (allowed : may (.consultAtoms units) solver) :
    Preserves (related solver) (consultAtoms units) solver := by
  induction units generalizing solver with
  | nil => exact across.refl solver
  | cons unit units induction =>
      obtain ⟨key, unassigned⟩ := unit
      unfold Solver.consultAtoms
      refine ends_get_bind.mpr ?_
      split
      · next atom unvalued present =>
          refine (ends_known rfl).mpr (across.after (across.consulted allowed unvalued present) ?_)
          refine across.bind (across.runHook (across.calls allowed (.runHook unvalued present))) ?_
          intro answer rest runs
          cases answer with
          | some conflict => exact across.refl rest
          | none => exact induction (across.calls allowed (.nextConsultation unvalued present runs))
      · next idle =>
          refine induction (across.calls allowed (.skippedConsultation fun unvalued => ?_))
          cases present : solver.theoryAtoms[key]? with
          | none => rfl
          | some atom => exact (idle atom unvalued present).elim

theorem consultTheory (across : AcrossPlainCalls fuel may related)
    (allowed : may .consultTheory solver) :
    Preserves (related solver) consultTheory solver :=
  across.consultAtoms (across.calls allowed .consultAtoms)

theorem propagate (across : AcrossPlainCalls fuel may related) {rounds : Nat}
    (allowed : may (.propagate rounds) solver) :
    Preserves (related solver) (propagate rounds) solver := by
  induction rounds generalizing solver with
  | zero => exact .inr (across.refl solver)
  | succ rounds induction =>
      unfold Solver.propagate
      refine (ends_known rfl).mpr ?_
      refine across.bind (across.evaluateTheory (across.calls allowed .evaluateTheory)) ?_
      intro _ evaluated evaluates
      refine across.bind (across.propagateClauses
        (across.calls allowed (.propagateClauses evaluates))) ?_
      intro answer passed passes
      cases answer with
      | some conflict => exact across.refl passed
      | none =>
          refine (ends_known rfl).mpr ?_
          split
          · next longer =>
              exact induction (across.calls allowed (.propagateAgain evaluates passes longer))
          · next settled =>
              refine across.bind (across.consultTheory
                (across.calls allowed (.consultTheory evaluates passes settled))) ?_
              intro answer rest consults
              cases answer with
              | some conflict => exact across.refl rest
              | none =>
                  refine (ends_known rfl).mpr ?_
                  split
                  · exact across.refl rest
                  · next different =>
                      exact induction (across.calls allowed
                        (.propagateFurther evaluates passes settled consults different))

theorem resolveConflict (across : AcrossPlainCalls fuel may related) {conflict : ClauseKey}
    (allowed : may (.resolveConflict conflict) solver) :
    Preserves (related solver) (resolveConflict fuel conflict) solver := by
  unfold Solver.resolveConflict
  refine (ends_known rfl).mpr ?_
  refine Ends.bind (Ends.traced (across.explained allowed)) ?_ fun _ _ broken => broken
  rintro explanation explained ⟨relates, explains⟩
  refine across.after relates ?_
  split
  · exact across.closed explained (by decide)
  · next filled =>
      have nonempty : explanation.isEmpty = false := by simpa using filled
      have storing := across.calls allowed (.storeExplanation explains nonempty)
      have second := across.plain storing trivial
      refine across.bind (ends_discard.mp second) fun key stored stores => ?_
      refine across.bind (across.returned
        (across.calls allowed (.backjump explains nonempty stores))) fun kind returned returns => ?_
      refine across.bind (across.plain
        (across.calls allowed (.learn explains nonempty stores returns)) trivial) ?_
      exact fun _ rest _ => across.refl rest

theorem extendOrReport (across : AcrossPlainCalls fuel may related)
    (allowed : may .extendOrReport solver) :
    Preserves (related solver) extendOrReport solver := by
  unfold Solver.extendOrReport
  have first := across.plain (across.calls allowed .makeDecision) trivial
  refine across.bind (ends_discard.mp first) fun decision rest _ => ?_
  cases decision with
  | some choice => exact across.refl rest
  | none =>
      refine ends_get_bind.mpr ?_
      split
      · exact across.refl rest
      · exact across.closed rest (by decide)

theorem searchRound (across : AcrossPlainCalls fuel may related) {time : Nat}
    (allowed : may (.searchRound time) solver) :
    Preserves (related solver) (searchRound fuel time) solver := by
  unfold Solver.searchRound
  refine (ends_known rfl).mpr ?_
  refine across.after (across.entered solver time) ?_
  refine ends_get_bind.mpr ?_
  split
  · exact across.refl _
  · next late =>
      have early : isTimeUp (enteringRound time solver) = false := Bool.eq_false_iff.mpr late
      refine across.bind (across.propagate (across.calls allowed (.propagate early))) ?_
      intro answer rest propagates
      cases answer with
      | some conflict =>
          exact across.resolveConflict (across.calls allowed (.resolveConflict early propagates))
      | none =>
          exact across.extendOrReport (across.calls allowed (.extendOrReport early propagates))

theorem searchRounds (across : AcrossPlainCalls fuel may related) {rounds : Nat}
    (allowed : may (.searchRounds rounds) solver) :
    Preserves (related solver) (searchRounds fuel rounds) solver := by
  induction rounds generalizing solver with
  | zero => exact .inr (across.refl solver)
  | succ rounds induction =>
      unfold Solver.searchRounds
      refine ends_get_bind.mpr ?_
      refine across.bind (across.searchRound (across.calls allowed .searchRound)) ?_
      intro answer rest went
      cases answer with
      | some report => exact across.refl rest
      | none => exact induction (across.calls allowed (.nextRound went))

/-- A search that has begun goes on until it reports. -/
theorem untilReport (across : AcrossPlainCalls fuel may related) (allowed : may .solve solver)
    (unsettled : settled? solver = none) :
    Preserves (related { solver with status := .solving })
      (do
        let report ← Solver.searchRounds fuel fuel
        endSearch report
        return report)
      { solver with status := .solving } := by
  refine across.bind (across.searchRounds (across.calls allowed (.searchRounds unsettled))) ?_
  intro report rest reported
  have ending := across.calls allowed (.endSearch unsettled reported)
  refine across.bind (across.plain ending trivial) ?_
  exact fun _ last _ => across.refl last

theorem solve (across : AcrossPlainCalls fuel may related) (allowed : may .solve solver) :
    Preserves (related solver) (solve fuel) solver := by
  unfold Solver.solve
  refine ends_get_bind.mpr ?_
  cases unsettled : settled? solver with
  | some report => exact across.refl solver
  | none =>
      refine (ends_known rfl).mpr (across.after (across.closed solver (by decide)) ?_)
      exact across.untilReport allowed unsettled

end AcrossPlainCalls

end ModelSearch
