import ModelSearch.Proofs.Calls.AcrossPlainCalls

/-!
# Relations across basic calls

The time a round of a search is told is read off a clock.  `Clocked` are the calls of
searches on any clock, also on one that stands still.

What a search does is put together from a few basic calls.  So a relation between
solvers that holds across each of these, and that composes, holds across whole calls,
and leads from the beginning of a search to every call made in it.
-/

namespace ModelSearch

open Solver

variable {τ : Type} [TheoryAtom τ]

/-! ## Searches on a running clock -/

/-- A round of a search that begins with the solver begins in the state. -/
inductive RoundBegins (fuel : Nat) (solver : Solver τ) : Solver τ → Prop
  | first (unsettled : settled? solver = none) :
      RoundBegins fuel solver { solver with status := .solving }
  | next {state rest : Solver τ} {time : Nat} (begins : RoundBegins fuel solver state)
      (went : Solver.searchRound fuel time state = .ok none rest) : RoundBegins fuel solver rest

/-- The call is made in a search that begins with the solver, whatever the clock shows
at each round. -/
inductive Clocked (fuel : Nat) (solver : Solver τ) : Call → Solver τ → Prop
  | round {state : Solver τ} (begins : RoundBegins fuel solver state) (time : Nat) :
      Clocked fuel solver (.searchRound time) state
  | ending {state rest : Solver τ} {time : Nat} {report : Report}
      (begins : RoundBegins fuel solver state)
      (ended : Solver.searchRound fuel time state = .ok (some report) rest) :
      Clocked fuel solver (.endSearch report) rest
  | call {caller callee : Call} {before after : Solver τ}
      (clocked : Clocked fuel solver caller before)
      (calls : Calls fuel caller before callee after) : Clocked fuel solver callee after

/-- Only the search itself begins rounds. -/
theorem Clocked.roundBegins {fuel time : Nat} {solver state : Solver τ}
    (clocked : Clocked fuel solver (.searchRound time) state) : RoundBegins fuel solver state := by
  have rooted : ∀ {call : Call} {state : Solver τ}, Clocked fuel solver call state →
      match call with
      | .solve | .searchRounds _ => False
      | .searchRound _ => RoundBegins fuel solver state
      | _ => True := by
    intro call state clocked
    induction clocked with
    | round begins time => exact begins
    | ending => trivial
    | call _ calls induction =>
        cases calls with
        | searchRounds | searchRound | nextRound => exact induction.elim
        | _ => trivial
  exact rooted clocked

/-- The rounds of a search that reports end with one that reports. -/
theorem RoundBegins.last {fuel rounds : Nat} {solver state rest : Solver τ} {report : Report}
    (begins : RoundBegins fuel solver state)
    (reported : Solver.searchRounds fuel rounds state = .ok report rest) :
    ∃ last time, RoundBegins fuel solver last ∧
      Solver.searchRound fuel time last = .ok (some report) rest := by
  induction rounds generalizing state with
  | zero => cases reported
  | succ rounds induction =>
      unfold Solver.searchRounds at reported
      rw [get_bind] at reported
      cases went : Solver.searchRound fuel state.counters.time state with
      | error fault broken =>
          rw [bind_eq_error went] at reported
          cases reported
      | ok answer middle =>
          rw [bind_eq went] at reported
          cases answer with
          | none => exact induction (begins.next went) reported
          | some given =>
              cases reported
              exact ⟨state, _, begins, went⟩

/-- A clock may stand still. -/
theorem Called.clocked {fuel : Nat} {solver state : Solver τ} {call : Call}
    (called : Called fuel solver call state) :
    call = .solve ∧ state = solver ∨
      (∃ rounds, call = .searchRounds rounds ∧ RoundBegins fuel solver state) ∨
        Clocked fuel solver call state := by
  induction called with
  | solve => exact .inl ⟨rfl, rfl⟩
  | call _ calls induction =>
      rcases induction with ⟨rfl, rfl⟩ | ⟨rounds, rfl, begins⟩ | clocked
      · cases calls with
        | searchRounds unsettled => exact .inr (.inl ⟨fuel, rfl, .first unsettled⟩)
        | endSearch unsettled reported =>
            obtain ⟨last, time, begins, ended⟩ := (RoundBegins.first unsettled).last reported
            exact .inr (.inr (.ending begins ended))
      · cases calls with
        | searchRound => exact .inr (.inr (.round begins _))
        | nextRound went => exact .inr (.inl ⟨_, rfl, begins.next went⟩)
      · exact .inr (.inr (clocked.call calls))

/-! ## Whole calls -/

/-- The call does its work itself. -/
def Call.Basic : Call → Prop
  | .evaluateAtom _ | .propagateLiteral _ _ | .assignImplied _ _ | .offerLemma _ | .explain _
  | .storeExplanation _ _ | .learn _ | .makeDecision | .decide _ _ | .endSearch _ => True
  | _ => False

theorem Call.Plain.basic {call : Call} (plain : call.Plain) : call.Basic := by
  cases call <;> trivial

/-- The call is made when all that was done has been told, and nothing is about to be. -/
def Call.Whole : Call → Prop
  | .setValue .. | .retreat _ | .decide _ _ => False
  | _ => True

/-- Only whole calls make whole calls. -/
theorem Calls.whole {fuel : Nat} {caller callee : Call} {before after : Solver τ}
    (calls : Calls fuel caller before callee after) (whole : callee.Whole) : caller.Whole := by
  cases calls <;> trivial

/-- The relation holds across the basic calls that may be made, and across what is
done between them. -/
structure AcrossBasicCalls (fuel : Nat) (may : Call → Solver τ → Prop)
    (related : Solver τ → Solver τ → Prop) : Prop where
  calls : ∀ {caller callee before after}, may caller before →
    Calls fuel caller before callee after → may callee after
  refl : ∀ solver, related solver solver
  trans : ∀ {before middle after}, related before middle → related middle after →
    related before after
  aside : ∀ (solver : Solver τ) counters status, related solver { solver with counters, status }
  basic : ∀ {call solver}, may call solver → call.Basic →
    Preserves (related solver) (call.perform fuel) solver
  consulted : ∀ {solver : Solver τ} {key unassigned atom units},
    may (.consultAtoms ((key, unassigned) :: units)) solver →
      solver.trail.get? (.var unassigned) = none → solver.theoryAtoms[key]? = some atom →
        related solver (telling (.consulted (.theory key) unassigned) solver)
  returned : ∀ {solver cut : Solver τ} {key clause target kind}, may (.backjump key) solver →
    solver.clauses.clause? key = some clause →
      solver.trail.backjumpTarget clause = .ok (target, kind) →
        retreat target solver = .ok ⟨⟩ cut →
          related solver (telling (.backjump solver.trail.level target kind) cut)

namespace AcrossBasicCalls

variable {fuel : Nat} {may : Call → Solver τ → Prop} {related : Solver τ → Solver τ → Prop}
  {solver : Solver τ}

theorem bind {α β : Type} {action : SolverM τ α} {next : α → SolverM τ β}
    (across : AcrossBasicCalls fuel may related) (first : Preserves (related solver) action solver)
    (goesOn : ∀ answer rest, action solver = .ok answer rest →
      Preserves (related rest) (next answer) rest) :
    Preserves (related solver) (action >>= next) solver :=
  first.follow across.trans goesOn

theorem backjump (across : AcrossBasicCalls fuel may related) {key : ClauseKey}
    (allowed : may (.backjump key) solver) :
    Preserves (related solver) (backjump key) solver := by
  unfold Solver.backjump
  cases stored : solver.clauses.clause? key with
  | none => exact (ends_broken (clause_of_missing stored)).mpr (.inr (across.refl solver))
  | some clause =>
      refine (ends_known (clause_of_stored stored)).mpr (ends_get_bind.mpr ?_)
      dsimp only
      cases aims : solver.trail.backjumpTarget clause with
      | error fault => exact .inr (across.refl solver)
      | ok aim =>
          obtain ⟨target, kind⟩ := aim
          refine ends_retreat (fun abort => .inl ⟨abort, rfl⟩) fun cut retreats =>
            (ends_known rfl).mpr ?_
          refine Preserves.after across.trans (across.returned allowed stored aims retreats)
            (ends_get_bind.mpr ?_)
          split
          · next single =>
              have asserts := across.calls allowed (.assertion stored aims retreats single)
              refine across.bind (ends_discard.mp (across.basic asserts trivial))
                fun answer rest _ => ?_
              cases answer with
              | error conflict => exact .inr (across.refl rest)
              | ok given => exact across.refl rest
          · exact .inr (across.refl _)
          · next first =>
              have splits := across.calls allowed (.split stored aims retreats first)
              exact across.bind (across.basic splits trivial) fun _ rest _ => across.refl rest
          · exact .inr (across.refl _)

/-- What holds across basic calls holds across the longer ones. -/
theorem plainCalls (across : AcrossBasicCalls fuel may related) :
    AcrossPlainCalls fuel may related where
  calls := across.calls
  refl := across.refl
  trans := across.trans
  entered solver _ := across.aside solver _ _
  closed solver status _ := across.aside solver solver.counters status
  plain allowed plain := across.basic allowed plain.basic
  requested allowed := across.basic (across.calls allowed .request) trivial
  consulted := across.consulted
  explained allowed := Preserves.after across.trans (across.aside _ _ _)
    (ends_discard.mp (across.basic (across.calls allowed .explain) trivial))
  returned := across.backjump

/-- The relation holds across every whole call. -/
theorem whole (across : AcrossBasicCalls fuel may related) {call : Call} (whole : call.Whole)
    (allowed : may call solver) : Preserves (related solver) (call.perform fuel) solver := by
  cases call with
  | solve => exact (across.plainCalls.solve allowed).discard
  | searchRounds rounds => exact (across.plainCalls.searchRounds allowed).discard
  | searchRound time => exact (across.plainCalls.searchRound allowed).discard
  | propagate rounds => exact (across.plainCalls.propagate allowed).discard
  | evaluateTheory => exact across.plainCalls.evaluateTheory allowed
  | evaluateAtoms keys => exact across.plainCalls.evaluateAtoms allowed
  | propagateClauses => exact (across.plainCalls.propagateClauses allowed).discard
  | propagateUnits units => exact (across.plainCalls.propagateUnits allowed).discard
  | consultTheory => exact (across.plainCalls.consultTheory allowed).discard
  | consultAtoms units => exact (across.plainCalls.consultAtoms allowed).discard
  | runHook hook => exact (across.plainCalls.runHook allowed).discard
  | resolveConflict conflict => exact (across.plainCalls.resolveConflict allowed).discard
  | backjump key => exact (across.backjump allowed).discard
  | extendOrReport => exact (across.plainCalls.extendOrReport allowed).discard
  | setValue | retreat | decide => exact whole.elim
  | evaluateAtom | propagateLiteral | assignImplied | offerLemma | explain | storeExplanation
  | learn | makeDecision | endSearch => exact across.basic allowed trivial

/-! ## From call to call -/

section Parts

variable {before after : Solver τ}

private theorem passed {evaluated : Solver τ} {rounds : Nat} {answer : Option ClauseKey}
    (across : AcrossBasicCalls fuel may related) (allowed : may (.propagate (rounds + 1)) before)
    (evaluates : Solver.evaluateTheory before = .ok ⟨⟩ evaluated)
    (passes : Solver.propagateClauses evaluated = .ok answer after) : related before after :=
  across.trans
    ((across.plainCalls.evaluateTheory (across.calls allowed .evaluateTheory)).of_ok evaluates)
    ((across.plainCalls.propagateClauses
      (across.calls allowed (.propagateClauses evaluates))).of_ok passes)

private theorem explained {conflict : ClauseKey} {explanation : Clause}
    (across : AcrossBasicCalls fuel may related) (allowed : may (.resolveConflict conflict) before)
    (explains : Solver.explain fuel conflict (enteringConflict before) = .ok explanation after) :
    related before after := by
  have entered : related before (enteringConflict before) := across.aside before _ _
  have basic := across.basic (across.calls allowed .explain) trivial
  exact across.trans entered ((ends_discard.mp basic).of_ok explains)

private theorem stored {conflict key : ClauseKey} {explanation : Clause} {middle : Solver τ}
    (across : AcrossBasicCalls fuel may related) (allowed : may (.resolveConflict conflict) before)
    (explains : Solver.explain fuel conflict (enteringConflict before) = .ok explanation middle)
    (nonempty : explanation.isEmpty = false)
    (stores : Solver.storeExplanation conflict explanation middle = .ok key after) :
    related before after := by
  have basic := across.basic (across.calls allowed (.storeExplanation explains nonempty)) trivial
  exact across.trans (across.explained allowed explains) ((ends_discard.mp basic).of_ok stores)

private theorem propagated {time : Nat} {answer : Option ClauseKey}
    (across : AcrossBasicCalls fuel may related) (allowed : may (.searchRound time) before)
    (early : isTimeUp (enteringRound time before) = false)
    (propagates : Solver.propagate fuel (enteringRound time before) = .ok answer after) :
    related before after := by
  have entered : related before (enteringRound time before) := across.aside before _ _
  exact across.trans entered
    ((across.plainCalls.propagate (across.calls allowed (.propagate early))).of_ok propagates)

end Parts

/-- The relation leads from call to call. -/
theorem called (across : AcrossBasicCalls fuel may related) {caller callee : Call}
    {before after : Solver τ}
    (allowed : may caller before)
    (calls : Calls fuel caller before callee after) (whole : callee.Whole) :
    related before after := by
  cases calls with
  | searchRounds => exact across.aside before before.counters .solving
  | endSearch unsettled reported =>
      have searches := across.calls allowed (.searchRounds unsettled)
      have searched := across.plainCalls.searchRounds searches
      exact across.trans (across.aside before before.counters .solving) (searched.of_ok reported)
  | nextRound went =>
      exact (across.plainCalls.searchRound (across.calls allowed .searchRound)).of_ok went
  | propagate => exact across.aside before _ _
  | resolveConflict early propagates | extendOrReport early propagates =>
      exact across.propagated allowed early propagates
  | propagateClauses evaluates =>
      have evaluated := across.plainCalls.evaluateTheory (across.calls allowed .evaluateTheory)
      exact evaluated.of_ok evaluates
  | propagateAgain evaluates passes | consultTheory evaluates passes =>
      exact across.passed allowed evaluates passes
  | propagateFurther evaluates passes settled consults =>
      have asked := across.calls allowed (.consultTheory evaluates passes settled)
      exact across.trans (across.passed allowed evaluates passes)
        ((across.plainCalls.consultTheory asked).of_ok consults)
  | nextAtom evaluates =>
      exact (across.basic (across.calls allowed .evaluateAtom) trivial).of_ok evaluates
  | nextUnit propagates =>
      have basic := across.basic (across.calls allowed .propagateLiteral) trivial
      exact (ends_discard.mp basic).of_ok propagates
  | runHook unvalued present => exact across.consulted allowed unvalued present
  | nextConsultation unvalued present runs =>
      exact across.trans (across.consulted allowed unvalued present)
        ((across.plainCalls.runHook (across.calls allowed (.runHook unvalued present))).of_ok runs)
  | assigned assigns =>
      have basic := across.basic (across.calls allowed .assignImplied) trivial
      exact (ends_discard.mp basic).of_ok assigns
  | requested decides =>
      exact (across.basic (across.calls allowed .request) trivial).of_ok decides
  | offered offers =>
      have basic := across.basic (across.calls allowed .offerLemma) trivial
      exact (ends_discard.mp basic).of_ok offers
  | explain => exact across.aside before _ _
  | storeExplanation explains => exact across.explained allowed explains
  | backjump explains nonempty stores => exact across.stored allowed explains nonempty stores
  | learn explains nonempty stores returns =>
      have returned := across.backjump (across.calls allowed (.backjump explains nonempty stores))
      exact across.trans (across.stored allowed explains nonempty stores) (returned.of_ok returns)
  | assertion stored aims retreats => exact across.returned allowed stored aims retreats
  | evaluation | consequence | implied | request | retreat | split | decide | choice =>
      exact whole.elim
  | searchRound | evaluateTheory | evaluateAtoms | evaluateAtom | propagateUnits | propagateLiteral
  | consultAtoms | skippedConsultation | inspected | assignImplied | offerLemma | makeDecision =>
      exact across.refl before

/-- The relation leads from a search's beginning to each of its rounds. -/
theorem roundBegins (across : AcrossBasicCalls fuel may related) {origin : Solver τ}
    (allowed : ∀ {call state}, Clocked fuel origin call state → may call state)
    (begins : RoundBegins fuel origin solver) : related origin solver := by
  induction begins with
  | first => exact across.aside origin _ _
  | next begins went induction =>
      exact across.trans induction
        ((across.plainCalls.searchRound (allowed (.round begins _))).of_ok went)

/-- The relation leads from a search's beginning to each of its whole calls. -/
theorem clocked (across : AcrossBasicCalls fuel may related) {origin : Solver τ}
    (allowed : ∀ {call state}, Clocked fuel origin call state → may call state)
    {call : Call} (clocked : Clocked fuel origin call solver) (whole : call.Whole) :
    related origin solver := by
  induction clocked with
  | round begins => exact across.roundBegins allowed begins
  | ending begins ended =>
      exact across.trans (across.roundBegins allowed begins)
        ((across.plainCalls.searchRound (allowed (.round begins _))).of_ok ended)
  | call clocked calls induction =>
      exact across.trans (induction (calls.whole whole))
        (across.called (allowed clocked) calls whole)

end AcrossBasicCalls

/-! ## Operations -/

/-- A relation that holds across whole calls, and across the steps that are otherwise parts
of them, holds across every operation that states nothing of the formula. -/
theorem Operation.acrossBasicCalls {may : Call → Solver τ → Prop}
    {related : Solver τ → Solver τ → Prop}
    (across : ∀ fuel, AcrossBasicCalls fuel may related) (free : ∀ call solver, may call solver)
    (retreats : ∀ solver level, Preserves (related solver) (Solver.retreat level) solver)
    (stores : ∀ solver clause source,
      Preserves (related solver) (Solver.storeClause clause source) solver)
    (watches : ∀ solver key, Preserves (related solver) (Solver.watchClause key) solver)
    (operation : Operation τ) (builds : ¬operation.Builds) (solver : Solver τ) :
    Preserves (related solver) operation.perform solver := by
  have whole : ∀ (fuel : Nat) (call : Call), call.Whole → ∀ state : Solver τ,
      Preserves (related state) (call.perform fuel) state := fun fuel call whole state =>
    (across fuel).whole whole (free call state)
  have basic : ∀ (fuel : Nat) (call : Call), call.Basic → ∀ state : Solver τ,
      Preserves (related state) (call.perform fuel) state := fun fuel call basic state =>
    (across fuel).basic (free call state) basic
  cases operation with
  | addVariable | addTheoryAtom | addNegation | addClause => exact absurd trivial builds
  | addLemma clause =>
      have offered := ends_discard.mp (basic 0 (.offerLemma clause) trivial solver)
      refine Preserves.discard ((across 0).bind offered fun answer rest _ => ?_)
      cases answer with
      | ok key => exact (across 0).refl rest
      | error error => exact .inr ((across 0).refl rest)
  | storeClause clause source => exact (stores solver clause source).discard
  | watchClause key => exact watches solver key
  | decide atom value => exact basic 0 (.decide atom value) trivial solver
  | makeDecision => exact basic 0 .makeDecision trivial solver
  | assignImplied key value => exact basic 0 (.assignImplied key value) trivial solver
  | propagateLiteral key literal => exact basic 0 (.propagateLiteral key literal) trivial solver
  | propagate fuel => exact whole 0 (.propagate fuel) trivial solver
  | retreat level => exact retreats solver level
  | backjump key => exact whole 0 (.backjump key) trivial solver
  | explain fuel conflict => exact basic fuel (.explain conflict) trivial solver
  | resolve fuel conflict source watching =>
      have explained := ends_discard.mp (basic fuel (.explain conflict) trivial solver)
      refine (across 0).bind explained fun explanation rest _ => ?_
      split
      · exact (across 0).refl rest
      · refine (across 0).bind (stores rest explanation source) fun key state _ => ?_
        have returned := ends_discard.mp (whole 0 (.backjump key) trivial state)
        refine (across 0).bind returned fun _ last _ => ?_
        split
        · exact watches last key
        · exact (across 0).refl last
  | beginSearch => exact (across 0).aside solver solver.counters .solving
  | searchRound fuel time => exact whole fuel (.searchRound time) trivial solver
  | endSearch report => exact basic 0 (.endSearch report) trivial solver
  | solve fuel => exact whole fuel .solve trivial solver

/-! ## Coherence -/

omit [TheoryAtom τ] in
/-- What is kept under a condition. -/
theorem Preserves.under {α : Type} {action : SolverM τ α} {solver : Solver τ} {condition : Prop}
    {holds : Solver τ → Prop} (preserves : condition → Preserves holds action solver) :
    Preserves (fun rest => condition → holds rest) action solver := by
  by_cases given : condition
  · exact (preserves given).imp fun _ kept _ => kept
  · have ends : Ends action solver (fun _ _ => True) fun _ _ => True := by
      unfold Ends
      split <;> trivial
    exact ends.mono (fun _ _ _ kept => absurd kept given) fun _ _ _ => .inr fun kept =>
      absurd kept given

theorem Call.coherent {call : Call} {solver : Solver τ} (basic : call.Basic)
    (coherent : solver.Coherent) (fuel : Nat) :
    Preserves Solver.Coherent (call.perform fuel) solver := by
  have assigns : ∀ key value, Rules.free.assign solver 0 key value := fun _ _ => trivial
  have learns : ∀ clause, Rules.free.learn solver 0 clause := fun _ => trivial
  have wanted : ∀ (state : Solver τ) atom value, Rules.free.decide state 0 atom value :=
    fun _ _ _ => trivial
  cases call with
  | evaluateAtom key => exact coherent.preserved (alters_evaluateAtom coherent key)
  | propagateLiteral key literal =>
      exact (coherent.preserved (alters_propagateLiteral fun counted _ =>
        .decided (wanted counted _ _))).discard
  | assignImplied key value =>
      exact (coherent.preserved (alters_assignImplied (assigns key value))).discard
  | offerLemma clause => exact (coherent.preserved (alters_offerLemma (learns clause))).discard
  | explain conflict => exact (coherent.preserved (alters_explain fuel conflict)).discard
  | storeExplanation conflict explanation =>
      refine Preserves.discard ((coherent.preserved (alters_clause conflict)).bind
        fun clause known coherent => ?_)
      split
      · exact coherent
      · refine (coherent.stored explanation .resolution).bind fun key stored coherent => ?_
        exact (coherent.preserved (alters_emit rfl)).bind fun _ _ coherent => coherent
  | learn key => exact coherent.preserved (alters_learn key)
  | makeDecision => exact (coherent.preserved (alters_makeDecision coherent).any).discard
  | decide atom value =>
      exact coherent.preserved (alters_decide (.decided (wanted solver atom value)))
  | endSearch report => exact coherent.preserved (alters_endSearch report)
  | _ => exact basic.elim

/-- A search keeps its solver coherent. -/
theorem coherent_acrossBasicCalls (fuel : Nat) : AcrossBasicCalls fuel (fun _ _ => True)
    fun before after : Solver τ => before.Coherent → after.Coherent where
  calls _ _ := trivial
  refl _ := id
  trans first second := second ∘ first
  aside _ _ _ coherent := ⟨coherent.assignment, coherent.supports, coherent.registered⟩
  basic _ basic := Preserves.under fun coherent => Call.coherent basic coherent fuel
  consulted _ _ _ coherent := ⟨coherent.assignment, coherent.supports, coherent.registered⟩
  returned _ _ _ retreats coherent := by
    have cut := (coherent.preserved (alters_retreat _)).of_ok retreats
    exact ⟨cut.assignment, cut.supports, cut.registered⟩

theorem Clocked.coherent {fuel : Nat} {origin solver : Solver τ} {call : Call}
    (clocked : Clocked fuel origin call solver) (whole : call.Whole)
    (coherent : origin.Coherent) : solver.Coherent :=
  (coherent_acrossBasicCalls fuel).clocked (fun _ => trivial) clocked whole coherent

end ModelSearch