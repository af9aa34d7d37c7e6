import ModelSearch.Proofs.Actions.Fuel
import ModelSearch.Proofs.Operations.Requests

/-!
# The clock

Nothing in a search reads the clock but the check at the beginning of a round, so a time
limit only cuts a search off.  What a limited search reports, other than that its time is
up, is what the search reports without a limit, whatever the clock showed.
-/

namespace ModelSearch

variable {τ α β : Type}

/-- What a clock shows, and the seconds that are allowed. -/
structure Clock where
  time : Nat
  limit : Option Nat

/-- The same solver on another clock. -/
def Solver.on (solver : Solver τ) (clock : Clock) : Solver τ :=
  { solver with
    counters := { solver.counters with time := clock.time }
    configuration := { solver.configuration with timeLimit := clock.limit } }

/-- The same result on another clock. -/
def resultOn (clock : Clock) :
    EStateM.Result Fault (Solver τ) α → EStateM.Result Fault (Solver τ) α
  | .ok answer rest => .ok answer (rest.on clock)
  | .error fault rest => .error fault (rest.on clock)

/-- The action neither reads the clock nor changes it. -/
def Timeless (action : SolverM τ α) : Prop :=
  ∀ solver clock, action (Solver.on solver clock) = resultOn clock (action solver)

namespace Timeless

theorem pure (answer : α) : Timeless (pure answer : SolverM τ α) := fun _ _ => rfl

theorem throw (fault : Fault) : Timeless (throw fault : SolverM τ α) := fun _ _ => rfl

theorem modify {update : Solver τ → Solver τ}
    (same : ∀ solver clock, update (solver.on clock) = (update solver).on clock) :
    Timeless (modify update : SolverM τ PUnit) := by
  intro solver clock
  show EStateM.Result.ok _ (update (solver.on clock)) = .ok _ ((update solver).on clock)
  rw [same]

theorem get {next : Solver τ → SolverM τ α}
    (same : ∀ solver clock, next (solver.on clock) = next solver)
    (goesOn : ∀ solver, Timeless (next solver)) : Timeless (get >>= next) := by
  intro solver clock
  show next (solver.on clock) (solver.on clock) = resultOn clock (next solver solver)
  rw [same, goesOn]

theorem bind {action : SolverM τ α} {next : α → SolverM τ β} (timeless : Timeless action)
    (goesOn : ∀ answer, Timeless (next answer)) : Timeless (action >>= next) := by
  intro solver clock
  have same := timeless solver clock
  cases result : action solver with
  | ok answer rest =>
      rw [result] at same
      rw [bind_eq result, bind_eq same, goesOn]
  | error fault rest =>
      rw [result] at same
      rw [bind_eq_error result, bind_eq_error same]
      rfl

end Timeless

namespace Solver

/-! ## Actions -/

theorem timeless_count {update : Counters → Counters}
    (same : ∀ counters time, update { counters with time } = { update counters with time }) :
    Timeless (count update : SolverM τ Unit) :=
  .modify fun solver clock =>
    congrArg (fun counters => { solver.on clock with counters }) (same solver.counters clock.time)

theorem timeless_emit (event : Event) : Timeless (emit event : SolverM τ Unit) :=
  .modify fun _ _ => rfl

theorem timeless_clause (key : ClauseKey) : Timeless (clause key : SolverM τ Clause) := by
  refine .get (fun _ _ => rfl) fun solver => ?_
  split
  · exact .pure _
  · exact .throw _

theorem timeless_reassign (updated : Except Abort Assignment) :
    Timeless (reassign updated : SolverM τ Unit) := by
  cases updated with
  | error abort => exact .throw _
  | ok assignment => exact .modify fun _ _ => rfl

theorem timeless_setValue (atom : Atom) (value : Value) (reason : Reason) (level : Nat) :
    Timeless (setValue atom value reason level : SolverM τ Unit) :=
  .get (fun _ _ => rfl) fun _ => timeless_reassign _

theorem timeless_decide (atom : Atom) (value : Value) :
    Timeless (decide atom value : SolverM τ Unit) := by
  refine .get (fun _ _ => rfl) fun solver => ?_
  split
  · exact .throw _
  · refine .bind (.modify fun _ _ => rfl) fun _ => .get (fun _ _ => rfl) fun opened => ?_
    exact .bind (timeless_setValue _ _ _ _) fun _ => timeless_emit _

theorem timeless_propagateLiteral (key : ClauseKey) (literal : Literal) :
    Timeless (propagateLiteral key literal : SolverM τ _) := by
  refine .bind (timeless_count fun _ _ => rfl) fun _ => .get (fun _ _ => rfl) fun solver => ?_
  dsimp only
  split
  · exact .pure _
  · exact .pure _
  · refine .bind (timeless_setValue _ _ _ _) fun _ => ?_
    exact .bind (timeless_emit _) fun _ => .pure _

theorem timeless_assignImplied (key : VariableKey) (value : Value) :
    Timeless (assignImplied key value : SolverM τ Bool) := by
  refine .get (fun _ _ => rfl) fun solver => ?_
  dsimp only
  split
  · exact .pure _
  · refine .bind (timeless_setValue _ _ _ _) fun _ =>
      .bind (timeless_count fun _ _ => rfl) fun _ => ?_
    exact .bind (timeless_emit _) fun _ => .pure _

theorem timeless_offerLemma (clause : Clause) : Timeless (offerLemma clause : SolverM τ _) := by
  refine .get (fun _ _ => rfl) fun solver => ?_
  split
  · exact .pure _
  · have inserting : Timeless (insertClause clause .theory : SolverM τ _) := fun _ _ => rfl
    exact .bind inserting fun _ => .bind (timeless_emit _) fun _ => .pure _

theorem timeless_makeDecision : Timeless (makeDecision : SolverM τ _) := by
  refine .get (fun _ _ => rfl) fun solver => ?_
  split
  · exact .pure _
  · refine .get (fun _ _ => rfl) fun solver => ?_
    dsimp only
    refine .bind (.modify fun _ _ => rfl) fun _ => ?_
    split
    · exact .pure _
    · split
      · exact .throw _
      · refine .bind (timeless_count fun _ _ => rfl) fun _ => ?_
        exact .bind (timeless_decide _ _) fun _ => .pure _

/-! ## Propagation -/

theorem timeless_propagateUnits (units : List (ClauseKey × Literal)) :
    Timeless (propagateUnits units : SolverM τ _) := by
  induction units with
  | nil => exact .pure _
  | cons unit units induction =>
      refine .bind (timeless_propagateLiteral _ _) fun answer => ?_
      cases answer with
      | error conflict => exact .pure _
      | ok given => exact induction

theorem timeless_propagateClauses : Timeless (propagateClauses : SolverM τ _) := by
  refine .get (fun _ _ => rfl) fun solver => ?_
  dsimp only
  split
  · exact .pure _
  · exact timeless_propagateUnits _

theorem timeless_runHook (hook : Hook) : Timeless (runHook hook : SolverM τ _) := by
  induction hook with
  | done => exact .pure _
  | conflict key => exact .pure _
  | inspect next induction =>
      exact .get (fun _ _ => rfl) fun solver => induction solver.toAssignment
  | assign key value next induction => exact .bind (timeless_assignImplied _ _) induction
  | decide atom value next induction => exact .bind (timeless_decide _ _) fun _ => induction
  | learn clause next induction => exact .bind (timeless_offerLemma _) induction

theorem timeless_countAssignments : Timeless (countAssignments : SolverM τ Nat) :=
  fun _ _ => rfl

section Theory

variable [TheoryAtom τ]

theorem timeless_evaluateAtom (key : TheoryKey) :
    Timeless (evaluateAtom key : SolverM τ Unit) := by
  refine .get (fun _ _ => rfl) fun solver => ?_
  split
  · exact .pure _
  · split
    · exact .pure _
    · refine .bind (timeless_setValue _ _ _ _) fun _ => ?_
      exact .bind (timeless_count fun _ _ => rfl) fun _ => timeless_emit _

theorem timeless_evaluateAtoms (keys : List TheoryKey) :
    Timeless (evaluateAtoms keys : SolverM τ Unit) := by
  induction keys with
  | nil => exact .pure _
  | cons key keys induction => exact .bind (timeless_evaluateAtom key) fun _ => induction

theorem timeless_evaluateTheory : Timeless (evaluateTheory : SolverM τ Unit) :=
  .get (fun _ _ => rfl) fun _ => timeless_evaluateAtoms _

theorem timeless_consultAtoms (units : List (TheoryKey × VariableKey)) :
    Timeless (consultAtoms units : SolverM τ _) := by
  induction units with
  | nil => exact .pure _
  | cons unit units induction =>
      refine .get (fun _ _ => rfl) fun solver => ?_
      split
      · refine .bind (timeless_emit _) fun _ => .bind (timeless_runHook _) fun answer => ?_
        cases answer with
        | some conflict => exact .pure _
        | none => exact induction
      · exact induction

theorem timeless_propagate (rounds : Nat) : Timeless (propagate rounds : SolverM τ _) := by
  induction rounds with
  | zero => exact .throw _
  | succ rounds induction =>
      refine .bind timeless_countAssignments fun before => ?_
      refine .bind timeless_evaluateTheory fun _ => ?_
      refine .bind timeless_propagateClauses fun answer => ?_
      cases answer with
      | some conflict => exact .pure _
      | none =>
          refine .bind timeless_countAssignments fun size => ?_
          split
          · exact induction
          · refine .bind (.get (fun _ _ => rfl) fun _ => timeless_consultAtoms _) fun answer => ?_
            cases answer with
            | some conflict => exact .pure _
            | none =>
                refine .bind timeless_countAssignments fun size => ?_
                split
                · exact .pure _
                · exact induction

end Theory

/-! ## Conflicts -/

theorem timeless_resolveToBackjump (steps : Nat) (clause : Clause) :
    Timeless (resolveToBackjump steps clause : SolverM τ Clause) := by
  induction steps generalizing clause with
  | zero => exact .throw _
  | succ steps induction =>
      unfold resolveToBackjump
      split
      · exact .pure _
      · refine .get (fun _ _ => rfl) fun solver => ?_
        dsimp only
        refine .bind ?_ fun top => ?_
        · cases solver.trail.topLiterals clause with
          | ok top => exact .pure _
          | error error => exact .throw _
        · split
          · exact .pure _
          · split
            · refine .bind (timeless_clause _) fun cause => ?_
              exact .bind (timeless_emit _) fun _ => induction _
            · split
              · exact .pure _
              · exact .throw _

theorem timeless_explain (fuel : Nat) (key : ClauseKey) :
    Timeless (explain fuel key : SolverM τ Clause) := by
  refine .bind (timeless_emit _) fun _ => .bind (timeless_clause _) fun conflict => ?_
  refine .bind (timeless_resolveToBackjump _ _) fun explanation => ?_
  exact .bind (timeless_emit _) fun _ => .pure _

theorem timeless_storeExplanation (conflict : ClauseKey) (explanation : Clause) :
    Timeless (storeExplanation conflict explanation : SolverM τ ClauseKey) := by
  refine .bind (timeless_clause _) fun clause => ?_
  split
  · exact .pure _
  · have storing : Timeless (storeClause explanation .resolution : SolverM τ _) := fun _ _ => rfl
    exact .bind storing fun _ => .bind (timeless_emit _) fun _ => .pure _

theorem timeless_backjump (key : ClauseKey) : Timeless (backjump key : SolverM τ _) := by
  refine .bind (timeless_clause _) fun clause => .get (fun _ _ => rfl) fun solver => ?_
  dsimp only
  split
  · exact .throw _
  · refine .bind ?_ fun _ => .bind (timeless_emit _) fun _ => .get (fun _ _ => rfl) fun cut => ?_
    · refine .get (fun _ _ => rfl) fun solver => ?_
      split
      · exact timeless_reassign _
      · exact .pure _
    · split
      · refine .bind (timeless_propagateLiteral _ _) fun answer => ?_
        cases answer with
        | error conflict => exact .throw _
        | ok given => exact .pure _
      · exact .throw _
      · exact .bind (timeless_decide _ _) fun _ => .pure _
      · exact .throw _

theorem timeless_learn (key : ClauseKey) : Timeless (learn key : SolverM τ Unit) := by
  have watching : Timeless (watchClause key : SolverM τ Unit) := by
    refine .get (fun _ _ => rfl) fun solver => ?_
    split
    · exact .modify fun _ _ => rfl
    · exact .throw _
  refine .get (fun _ _ => rfl) fun solver => ?_
  split
  · exact .throw _
  · split
    · exact .bind watching fun _ => .bind (timeless_count fun _ _ => rfl) fun _ => timeless_emit _
    · exact .pure _

theorem timeless_resolveConflict (fuel : Nat) (conflict : ClauseKey) :
    Timeless (resolveConflict fuel conflict : SolverM τ _) := by
  refine .bind (timeless_count fun _ _ => rfl) fun _ => ?_
  refine .bind (timeless_explain _ _) fun explanation => ?_
  split
  · exact .bind (.modify fun _ _ => rfl) fun _ => .pure _
  · refine .bind (timeless_storeExplanation _ _) fun key => ?_
    exact .bind (timeless_backjump _) fun _ => .bind (timeless_learn _) fun _ => .pure _

/-! ## Rounds -/

variable [TheoryAtom τ] {solver : Solver τ} {fuel : Nat}

theorem timeless_extendOrReport : Timeless (extendOrReport : SolverM τ _) := by
  refine .bind timeless_makeDecision fun answer => ?_
  cases answer with
  | some choice => exact .pure _
  | none =>
      refine .get (fun _ _ => rfl) fun solver => ?_
      split
      · exact .pure _
      · exact .bind (.modify fun _ _ => rfl) fun _ => .pure _

/-- A round that is not cut off. -/
def roundWork (fuel : Nat) : SolverM τ (Option Report) := do
  match ← propagate fuel with
  | some conflict => resolveConflict fuel conflict
  | none => extendOrReport

theorem timeless_roundWork (fuel : Nat) : Timeless (roundWork fuel : SolverM τ _) := by
  refine .bind (timeless_propagate fuel) fun answer => ?_
  cases answer with
  | some conflict => exact timeless_resolveConflict _ _
  | none => exact timeless_extendOrReport

theorem searchRound_eq (fuel time : Nat) (solver : Solver τ) :
    searchRound fuel time solver =
      (if isTimeUp (enteringRound time solver) = true then pure (some .timeUp)
        else roundWork fuel : SolverM τ _) (enteringRound time solver) := rfl

/-- Of these times one is past what is allowed. -/
def Overruns (solver : Solver τ) (times : List Nat) : Prop :=
  ∃ seconds, solver.configuration.timeLimit = some seconds ∧ ∃ time ∈ times, 1000 * seconds ≤ time

omit [TheoryAtom τ] in
theorem Overruns.of_late {time : Nat} {times : List Nat}
    (late : isTimeUp (enteringRound time solver) = true) : solver.Overruns (time :: times) := by
  cases limit : solver.configuration.timeLimit with
  | none =>
      rw [isTimeUp, show (enteringRound time solver).configuration.timeLimit = none from limit]
        at late
      cases late
  | some seconds =>
      rw [isTimeUp, show (enteringRound time solver).configuration.timeLimit = some seconds
        from limit] at late
      exact ⟨seconds, limit, time, List.mem_cons_self, of_decide_eq_true late⟩

omit [TheoryAtom τ] in
theorem Overruns.cons {rest : Solver τ} {time : Nat} {times : List Nat}
    (overruns : rest.Overruns times)
    (same : rest.configuration.timeLimit = solver.configuration.timeLimit) :
    solver.Overruns (time :: times) := by
  obtain ⟨seconds, limit, late, member, past⟩ := overruns
  exact ⟨seconds, same.symm.trans limit, late, List.mem_cons_of_mem _ member, past⟩

/-- A round that is not cut off is a round of a search without a limit. -/
theorem searchRound_on (fuel shown : Nat) {time : Nat}
    (early : isTimeUp (enteringRound time solver) = false) :
    searchRound fuel shown (solver.on ⟨shown, none⟩) =
      resultOn ⟨shown, none⟩ (searchRound fuel time solver) := by
  rw [searchRound_eq, searchRound_eq, if_neg (Bool.eq_false_iff.mp early), if_neg nofun]
  exact timeless_roundWork fuel (enteringRound time solver) ⟨shown, none⟩

/-- A round keeps the limit. -/
theorem limit_searchRound {rest : Solver τ} {answer : Option Report} {time : Nat}
    (went : searchRound fuel time solver = .ok answer rest) :
    rest.configuration.timeLimit = solver.configuration.timeLimit := by
  rw [searchRound_eq] at went
  split at went
  · cases went
    rfl
  · -- On its own clock the solver is itself, so what is left is on that clock as well.
    have same := timeless_roundWork fuel (enteringRound time solver)
      ⟨time, solver.configuration.timeLimit⟩
    rw [went] at same
    have stays := went.symm.trans same
    rw [(EStateM.Result.ok.inj stays).2]
    rfl

theorem searchRounds_succ (fuel rounds : Nat) (solver : Solver τ) :
    searchRounds fuel (rounds + 1) solver =
      (searchRound fuel solver.counters.time >>= fun
        | some report => pure report
        | none => searchRounds fuel rounds) solver := rfl

/-- Rounds on a clock end because time is up, or go as they go without a limit. -/
theorem clockedRounds_on (times : List Nat) (shown : Nat) :
    Ends (clockedRounds fuel times) solver
      (fun answer rest => match answer with
        | none => ∀ more, searchRounds fuel (times.length + more) (solver.on ⟨shown, none⟩) =
            searchRounds fuel more (rest.on ⟨shown, none⟩)
        | some report => (report = .timeUp ∧ solver.Overruns times) ∨
            searchRounds fuel times.length (solver.on ⟨shown, none⟩) =
              .ok report (rest.on ⟨shown, none⟩))
      (fun fault rest => searchRounds fuel times.length (solver.on ⟨shown, none⟩) =
        .error fault (rest.on ⟨shown, none⟩)) := by
  induction times generalizing solver with
  | nil =>
      intro more
      rw [List.length_nil, Nat.zero_add]
  | cons time times induction =>
      rw [List.length_cons]
      by_cases late : isTimeUp (enteringRound time solver) = true
      · have cut : searchRound fuel time solver =
            .ok (some .timeUp) (enteringRound time solver) := by
          rw [searchRound_eq, if_pos late]
          rfl
        exact (ends_known cut).mpr (.inl ⟨rfl, .of_late late⟩)
      · have same := searchRound_on fuel shown (Bool.eq_false_iff.mpr late)
        cases went : searchRound fuel time solver with
        | error fault rest =>
            rw [went] at same
            refine (ends_broken went).mpr ?_
            rw [searchRounds_succ]
            exact bind_eq_error same
        | ok answer rest =>
            rw [went] at same
            refine (ends_known went).mpr ?_
            have round : ∀ rounds, searchRounds fuel (rounds + 1) (solver.on ⟨shown, none⟩) = _ :=
              fun rounds => (searchRounds_succ ..).trans (bind_eq same)
            cases answer with
            | some report => exact .inr (round _)
            | none =>
                refine induction.mono (fun answer last ends => ?_) fun fault last ends => ?_
                · cases answer with
                  | none =>
                      intro more
                      rw [Nat.add_right_comm, round]
                      exact ends more
                  | some report =>
                      refine ends.imp (fun cut => ⟨cut.1, ?_⟩) fun ends => (round _).trans ends
                      exact cut.2.cons (limit_searchRound went)
                · exact (round _).trans ends

/-! ## Searches -/

theorem solve_of_unsettled (fuel : Nat) (unsettled : settled? solver = none) :
    solve fuel solver = (searchRounds fuel fuel >>= fun report => endSearch report >>= fun _ =>
      pure report) { solver with status := .solving } := by
  unfold solve
  rw [get_bind, unsettled]
  rfl

omit [TheoryAtom τ] in
theorem endSearch_eq (report : Report) (solver : Solver τ) :
    endSearch report solver = .ok ⟨⟩ (left (endSearch report) solver) := rfl

/-- What a search reports it reports without a limit as well, unless the clock is past the
limit, and the assignment that it leaves is the same. -/
theorem search_within_limit (times : List Nat) (shown : Nat) :
    Ends (search fuel times) solver
      (fun answer rest => ∀ report, answer = some report →
        (report = .timeUp ∧ solver.Overruns times) ∨
          ∃ still, solve (max fuel times.length) (solver.on ⟨shown, none⟩) = .ok report still ∧
            still.toAssignment = rest.toAssignment)
      (fun fault rest => fault = .outOfFuel ∨
        ∃ still, solve (max fuel times.length) (solver.on ⟨shown, none⟩) = .error fault still ∧
          still.toAssignment = rest.toAssignment) := by
  unfold search
  refine ends_get_bind.mpr ?_
  cases unsettled : settled? solver with
  | some report =>
      rintro _ ⟨⟩
      refine .inr ⟨solver.on ⟨shown, none⟩, ?_, rfl⟩
      unfold solve
      rw [get_bind, show settled? (solver.on ⟨shown, none⟩) = some report from unsettled]
      rfl
  | none =>
      have more := refuels_searchRounds (τ := τ) (Nat.le_max_left fuel times.length)
        (Nat.le_max_right fuel times.length)
        (Solver.on { solver with status := .solving } ⟨shown, none⟩)
      rw [solve_of_unsettled _ (show settled? (solver.on ⟨shown, none⟩) = none from unsettled)]
      refine (ends_known rfl).mpr (Ends.bind (clockedRounds_on times shown) ?_ ?_)
      · intro answer rest ends
        cases answer with
        | none => exact nofun
        | some report =>
            show Ends (endSearch report >>= fun _ => pure (some report)) rest _ _
            refine (ends_known (endSearch_eq report rest)).mpr ?_
            rintro _ ⟨⟩
            refine ends.imp id fun still => ?_
            rcases more with same | ⟨_, spent⟩
            · exact ⟨_, bind_eq (same.trans still), rfl⟩
            · cases still.symm.trans spent
      · intro fault rest still
        rcases more with same | ⟨_, spent⟩
        · exact .inr ⟨_, bind_eq_error (same.trans still), rfl⟩
        · cases still.symm.trans spent
          exact .inl rfl

/-- A second is allowed for the empty formula, and the clock shows that it is over, or not. -/
example : answer? (search 10 [1000]) (new { timeLimit := some 1 } : Solver Empty) =
      some (some .timeUp) ∧
    answer? (search 10 [999]) (new { timeLimit := some 1 } : Solver Empty) =
      some (some .satisfiable) := by
  decide +kernel

end Solver

end ModelSearch
