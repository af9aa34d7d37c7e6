import ModelSearch.Proofs.Operations.AssignmentUpdates

/-!
# Counts and events

What a search counts it also tells, by one event each time.  Within a call one may come before
the other, but a call that is over leaves the difference between counts and events as it found it.

Decisions are the exception.  The choice of a semantic split is told and not counted, and so is the
choice of a hook; so the difference grows with each split, and is lost if hooks decide.
-/

namespace ModelSearch

/-! ## What is told of each kind -/

namespace Event

def isDecision : Event → Bool
  | .decision _ _ => true
  | _ => false

def isAnalysis : Event → Bool
  | .analysisBegun _ => true
  | _ => false

def isLearning : Event → Bool
  | .learned _ => true
  | _ => false

def isSemantic : Event → Bool
  | .semantic _ _ => true
  | _ => false

def isSplit : Event → Bool
  | .backjump _ _ .semanticSplit => true
  | _ => false

/-- The event is of a kind that is compared with a count. -/
def compared (event : Event) : Bool :=
  event.isDecision || event.isAnalysis || event.isLearning || event.isSemantic || event.isSplit

end Event

namespace Solver

variable {τ : Type} {solver before middle after : Solver τ} {passive : Prop}

/-- How many events of a kind were told so far. -/
def told (kind : Event → Bool) (solver : Solver τ) : Nat := solver.events.countP kind

theorem told_push {event : Event} (events : after.events = before.events.push event)
    (kind : Event → Bool) : after.told kind = before.told kind + (kind event).toNat := by
  rw [told, events, Array.countP_push, told]
  cases kind event <;> rfl

theorem told_append {list : List Event} (events : after.events = before.events ++ list)
    {kind : Event → Bool} (plain : ∀ event ∈ list, kind event = false) :
    after.told kind = before.told kind := by
  have none : list.countP kind = 0 := List.countP_eq_zero.mpr fun event inside => by
    simp [plain event inside]
  rw [told, events, told, ← Array.countP_toList, ← Array.countP_toList, Array.toList_appendList,
    List.countP_append, none, Nat.add_zero]

theorem told_isSplit (solver : Solver τ) : solver.told Event.isSplit = solver.splits := rfl

/-- What is stated by the counters, and by how much they exceed the events. -/
structure Account where
  added : Nat
  inputs : Nat
  conflicts : Int
  learned : Int
  semantic : Int

def account (solver : Solver τ) : Account where
  added := solver.counters.addedVariables
  inputs := solver.counters.inputClauses
  conflicts := solver.counters.conflicts - solver.told Event.isAnalysis
  learned := solver.counters.learnedClauses - solver.told Event.isLearning
  semantic := solver.counters.semanticEvaluations + solver.counters.semanticPropagations -
    solver.told Event.isSemantic

/-- By how much the decisions counted and the splits exceed the decisions told. -/
def balance (solver : Solver τ) : Int :=
  solver.counters.decisions + solver.told Event.isSplit - solver.told Event.isDecision

/-- A closed formula stays closed, and counts and events keep step; decisions do while nothing
but the search decides. -/
structure KeepsAccount (passive : Prop) (before after : Solver τ) : Prop where
  closed : before.status ≠ .input → after.status ≠ .input
  account : after.account = before.account
  balance : passive → after.balance = before.balance

/-- The event is counted once, and nothing else is. -/
structure Counted (passive : Prop) (event : Event) (before after : Counters) : Prop where
  added : after.addedVariables = before.addedVariables
  inputs : after.inputClauses = before.inputClauses
  conflicts : after.conflicts = before.conflicts + event.isAnalysis.toNat
  learned : after.learnedClauses = before.learnedClauses + event.isLearning.toNat
  semantic : after.semanticEvaluations + after.semanticPropagations =
    before.semanticEvaluations + before.semanticPropagations + event.isSemantic.toNat
  decisions : passive →
    after.decisions + event.isSplit.toNat = before.decisions + event.isDecision.toNat

namespace KeepsAccount

theorem refl (solver : Solver τ) : KeepsAccount passive solver solver := ⟨id, rfl, fun _ => rfl⟩

theorem trans (first : KeepsAccount passive before middle)
    (second : KeepsAccount passive middle after) :
    KeepsAccount passive before after :=
  ⟨second.closed ∘ first.closed, second.account.trans first.account, fun given =>
    (second.balance given).trans (first.balance given)⟩

theorem of_counted {event : Event} (status : after.status = before.status)
    (events : after.events = before.events.push event)
    (counted : Counted passive event before.counters after.counters) :
    KeepsAccount passive before after where
  closed := by rw [status]; exact id
  account := by
    have conflicts := counted.conflicts
    have learned := counted.learned
    have semantic := counted.semantic
    simp only [Solver.account, told_push events, counted.added, counted.inputs, Account.mk.injEq,
      true_and]
    omega
  balance given := by
    have decisions := counted.decisions given
    simp only [Solver.balance, told_push events]
    omega

/-- Nothing was told that is compared with a count. -/
theorem appended (list : List Event) (status : after.status = before.status)
    (counters : after.counters = before.counters) (events : after.events = before.events ++ list)
    (plain : ∀ event ∈ list, event.compared = false) : KeepsAccount passive before after := by
  simp only [Event.compared, Bool.or_eq_false_iff] at plain
  refine ⟨by rw [status]; exact id, ?_, fun _ => ?_⟩
  · unfold Solver.account
    rw [counters, told_append events fun event inside => (plain event inside).1.1.1.2,
      told_append events fun event inside => (plain event inside).1.1.2,
      told_append events fun event inside => (plain event inside).1.2]
  · unfold Solver.balance
    rw [counters, told_append events fun event inside => (plain event inside).1.1.1.1,
      told_append events fun event inside => (plain event inside).2]

theorem aside {event : Event} (status : after.status = before.status)
    (counters : after.counters = before.counters)
    (events : after.events = before.events.push event) (plain : event.compared = false) :
    KeepsAccount passive before after := by
  refine appended [event] status counters (by simp [events]) fun other inside => ?_
  rw [List.mem_singleton.mp inside, plain]

theorem silent (status : after.status = before.status)
    (counters : after.counters = before.counters) (events : after.events = before.events) :
    KeepsAccount passive before after :=
  appended [] status counters (by simp [events]) (by rintro _ ⟨⟩)

/-- A split tells of the choice that it makes. -/
theorem split {origin target : Nat} {atom : Atom} {value : Value}
    (status : after.status = before.status) (counters : after.counters = before.counters)
    (events : after.events = (before.events.push
      (.backjump origin target .semanticSplit)).push (.decision atom value)) :
    KeepsAccount passive before after := by
  let jumped : Solver τ := telling (.backjump origin target .semanticSplit) before
  have jumps : jumped.events = before.events.push (.backjump origin target .semanticSplit) := rfl
  have decides : after.events = jumped.events.push (.decision atom value) := events
  refine ⟨by rw [status]; exact id, ?_, fun _ => ?_⟩
  · simp only [Solver.account, told_push decides, told_push jumps, counters]
    rfl
  · simp only [Solver.balance, told_push decides, told_push jumps, counters, Event.isSplit,
      Event.isDecision, Bool.toNat_true, Bool.toNat_false]
    omega

end KeepsAccount

/-! ## Basic calls -/

theorem keepsAccount_decide (atom : Atom) (value : Value) :
    Preserves (KeepsAccount False solver) (decide atom value) solver := by
  by_cases free : solver.Free atom
  · exact (ends_decide free).mpr (.of_counted rfl rfl ⟨rfl, rfl, rfl, rfl, rfl, False.elim⟩)
  · obtain ⟨abort, rest, result⟩ := decide_of_not_free free value
    rw [Preserves, Ends, result]
    exact .inl ⟨abort, rfl⟩

theorem keepsAccount_propagateLiteral (key : ClauseKey) (literal : Literal) :
    Preserves (KeepsAccount passive solver) (propagateLiteral key literal) solver := by
  have counts : KeepsAccount passive solver (counting (fun counters =>
      { counters with clausalPropagations := counters.clausalPropagations + 1 }) solver) :=
    ⟨id, rfl, fun _ => rfl⟩
  unfold propagateLiteral
  refine (ends_known rfl).mpr (ends_get_bind.mpr ?_)
  dsimp only
  split
  · exact counts
  · exact counts
  · rcases setValue_cases _ literal.atom _ _ _ with ⟨abort, result⟩ | ⟨_, _, result⟩
    · exact (ends_broken result).mpr (.inl ⟨abort, rfl⟩)
    · refine (ends_known result).mpr (counts.trans ?_)
      exact .aside rfl rfl rfl rfl

theorem keepsAccount_assignImplied (key : VariableKey) (value : Value) :
    Preserves (KeepsAccount passive solver) (assignImplied key value) solver := by
  unfold assignImplied
  refine ends_get_bind.mpr ?_
  dsimp only
  split
  · exact .refl solver
  · rcases setValue_cases solver (.var key) value .semantic solver.trail.level with
      ⟨abort, result⟩ | ⟨_, _, result⟩
    · exact (ends_broken result).mpr (.inl ⟨abort, rfl⟩)
    · refine (ends_known result).mpr ?_
      exact KeepsAccount.of_counted rfl rfl ⟨rfl, rfl, rfl, rfl, rfl, fun _ => rfl⟩

theorem keepsAccount_evaluateAtom [TheoryAtom τ] (key : TheoryKey) :
    Preserves (KeepsAccount passive solver) (evaluateAtom key) solver := by
  unfold evaluateAtom
  refine ends_get_bind.mpr ?_
  cases solver.theoryAtoms[key]? with
  | none => exact .refl solver
  | some atom =>
      dsimp only
      cases TheoryAtom.evaluate atom solver.values with
      | none => exact .refl solver
      | some truth =>
          rcases setValue_cases solver (.theory key) (.boolean truth) .semantic
            (greatestLevel solver.trail (TheoryAtom.support atom)) with
            ⟨abort, result⟩ | ⟨_, _, result⟩
          · exact (ends_broken result).mpr (.inl ⟨abort, rfl⟩)
          · refine (ends_known result).mpr
              (.of_counted rfl rfl ⟨rfl, rfl, rfl, rfl, ?_, fun _ => rfl⟩)
            exact Nat.add_right_comm _ 1 _

theorem keepsAccount_offerLemma (clause : Clause) :
    Preserves (KeepsAccount passive solver) (offerLemma clause) solver := by
  refine (ends_offerLemma clause).mono (fun answer rest offered => ?_) fun _ _ => False.elim
  cases answer with
  | error error =>
      rw [offered]
      exact .refl solver
  | ok key =>
      rw [offered.2]
      exact .aside rfl rfl rfl rfl

/-- Resolving tells of the clauses resolved with. -/
theorem keepsAccount_resolveToBackjump (steps : Nat) (clause : Clause) :
    Preserves (KeepsAccount passive solver) (resolveToBackjump steps clause) solver := by
  induction steps generalizing solver clause with
  | zero => exact .inr (.refl solver)
  | succ steps induction =>
      unfold resolveToBackjump
      split
      · exact .refl solver
      · refine ends_get_bind.mpr ?_
        dsimp only
        cases solver.trail.topLiterals clause with
        | error error => exact .inr (.refl solver)
        | ok top =>
            show Ends (if _ then _ else _) solver _ _
            split
            · exact .refl solver
            · cases solver.trail.latestImplied? clause with
              | none =>
                  dsimp only
                  split
                  · exact .refl solver
                  · exact .inr (.refl solver)
              | some pivot =>
                  obtain ⟨literal, reason⟩ := pivot
                  cases stored : solver.clauses.clause? reason with
                  | none => exact (ends_broken (clause_of_missing stored)).mpr (.inr (.refl solver))
                  | some cause =>
                      refine (ends_known (clause_of_stored stored)).mpr ((ends_known rfl).mpr ?_)
                      have told : KeepsAccount passive solver
                          (telling (.resolvedWith reason) solver) :=
                        .aside rfl rfl rfl rfl
                      exact (induction (clause.resolve cause literal)).after KeepsAccount.trans told

/-- The conflict was counted before it is told. -/
theorem keepsAccount_explain (fuel : Nat) (conflict : ClauseKey) :
    Preserves (KeepsAccount passive solver) (explain fuel conflict) (enteringConflict solver) := by
  have begun : KeepsAccount passive solver
      (telling (.analysisBegun conflict) (enteringConflict solver)) :=
    .of_counted rfl rfl ⟨rfl, rfl, rfl, rfl, rfl, fun _ => rfl⟩
  unfold explain
  refine (ends_known rfl).mpr ?_
  cases stored : (telling (.analysisBegun conflict)
      (enteringConflict solver)).clauses.clause? conflict with
  | none => exact (ends_broken (clause_of_missing stored)).mpr (.inr begun)
  | some clause =>
      refine (ends_known (clause_of_stored stored)).mpr ?_
      refine Preserves.after KeepsAccount.trans begun
        ((keepsAccount_resolveToBackjump fuel clause).follow KeepsAccount.trans fun _ rest _ => ?_)
      show KeepsAccount passive rest (telling .analysisEnded rest)
      exact .aside rfl rfl rfl rfl

theorem keepsAccount_storeExplanation (conflict : ClauseKey) (explanation : Clause) :
    Preserves (KeepsAccount passive solver) (storeExplanation conflict explanation) solver := by
  unfold storeExplanation
  cases stored : solver.clauses.clause? conflict with
  | none => exact (ends_broken (clause_of_missing stored)).mpr (.inr (.refl solver))
  | some clause =>
      refine (ends_known (clause_of_stored stored)).mpr ?_
      split
      · exact .refl solver
      · exact .aside rfl rfl rfl rfl

theorem keepsAccount_learn (key : ClauseKey) :
    Preserves (KeepsAccount passive solver) (learn key) solver := by
  unfold learn watchClause
  refine ends_get_bind.mpr ?_
  cases solver.clauses.stored? key with
  | none => exact .inr (.refl solver)
  | some stored =>
      dsimp only
      split
      · refine (ends_bind _ _).mpr (ends_get_bind.mpr ?_)
        split
        · exact .of_counted rfl rfl ⟨rfl, rfl, rfl, rfl, rfl, fun _ => rfl⟩
        · exact .inr (.refl solver)
      · exact .refl solver

/-- The search counts what it decides. -/
theorem keepsAccount_makeDecision :
    Preserves (KeepsAccount passive solver) makeDecision solver := by
  unfold makeDecision
  refine ends_get_bind.mpr ?_
  split
  · exact .refl solver
  · refine ends_get_bind.mpr ?_
    generalize solver.vars.pop = popped
    obtain ⟨popped, vars⟩ := popped
    refine (ends_known rfl).mpr ?_
    cases popped with
    | none => exact .silent rfl rfl rfl
    | some key =>
        dsimp only
        cases vars.get? key with
        | none => exact .inr (.silent rfl rfl rfl)
        | some known =>
            refine (ends_known rfl).mpr ?_
            let counted : Solver τ := { solver with
              vars
              counters := { solver.counters with decisions := solver.counters.decisions + 1 } }
            by_cases free : counted.Free (.var key)
            · refine (ends_known (decide_of_free free _)).mpr ?_
              exact .of_counted rfl rfl ⟨rfl, rfl, rfl, rfl, rfl, fun _ => rfl⟩
            · obtain ⟨abort, rest, result⟩ := decide_of_not_free free known.sort.defaultValue
              exact (ends_broken result).mpr (.inl ⟨abort, rfl⟩)

theorem keepsAccount_endSearch (report : Report) :
    Preserves (KeepsAccount passive solver) (endSearch report) solver := by
  refine .appended _ rfl rfl rfl fun event inside => ?_
  rcases List.mem_append.mp inside with counted | last
  · obtain ⟨kind, _, rfl⟩ := List.mem_map.mp counted
    rfl
  · simp only [List.mem_cons, List.not_mem_nil, or_false] at last
    rcases last with rfl | rfl | rfl <;> rfl

/-! ## Jumps -/

theorem silent_retreat {target : Nat} {cut : Solver τ}
    (retreats : retreat target solver = .ok ⟨⟩ cut) :
    cut.status = solver.status ∧ cut.counters = solver.counters ∧ cut.events = solver.events := by
  rcases eq_of_retreat retreats with ⟨_, rfl⟩ | ⟨_, rfl⟩ <;> exact ⟨rfl, rfl, rfl⟩

theorem keepsAccount_backjump (key : ClauseKey) :
    Preserves (KeepsAccount passive solver) (backjump key) solver := by
  unfold backjump
  cases stored : solver.clauses.clause? key with
  | none => exact (ends_broken (clause_of_missing stored)).mpr (.inr (.refl solver))
  | some clause =>
      refine (ends_known (clause_of_stored stored)).mpr (ends_get_bind.mpr ?_)
      dsimp only
      cases solver.trail.backjumpTarget clause with
      | error fault => exact .inr (.refl solver)
      | ok aim =>
          obtain ⟨target, kind⟩ := aim
          refine ends_retreat (fun abort => .inl ⟨abort, rfl⟩) fun cut retreats =>
            (ends_known rfl).mpr (ends_get_bind.mpr ?_)
          obtain ⟨status, counters, events⟩ := silent_retreat retreats
          split
          · next single =>
              have returned : KeepsAccount passive solver
                  (telling (.backjump solver.trail.level target .uniqueImplication) cut) :=
                .aside status counters
                  (congrArg (·.push (.backjump solver.trail.level target .uniqueImplication))
                    events)
                  rfl
              refine Preserves.after KeepsAccount.trans returned ?_
              refine (keepsAccount_propagateLiteral key _).follow KeepsAccount.trans
                fun answer rest _ => ?_
              cases answer with
              | error conflict => exact .inr (.refl rest)
              | ok given => exact .refl rest
          · exact .inl ⟨_, rfl⟩
          · next literal _ _ =>
              let told : Solver τ :=
                telling (.backjump solver.trail.level target .semanticSplit) cut
              by_cases free : told.Free literal.atom
              · refine (ends_known (decide_of_free free _)).mpr ?_
                have jumped : told.events = solver.events.push
                    (.backjump solver.trail.level target .semanticSplit) :=
                  congrArg (·.push (.backjump solver.trail.level target .semanticSplit)) events
                exact .split status counters
                  (congrArg (·.push (.decision literal.atom (.boolean literal.polarity))) jumped)
              · obtain ⟨abort, rest, result⟩ :=
                  decide_of_not_free free (.boolean literal.polarity)
                exact (ends_broken result).mpr (.inl ⟨abort, rfl⟩)
          · exact .inl ⟨_, rfl⟩

end Solver

/-! ## Hooks that do not decide -/

/-- Nothing is decided, whatever answers come. -/
def Hook.Passive : Hook → Prop
  | .done => True
  | .conflict _ => True
  | .inspect next => ∀ assignment, (next assignment).Passive
  | .assign _ _ next => ∀ answer, (next answer).Passive
  | .decide _ _ _ => False
  | .learn _ next => ∀ answer, (next answer).Passive

variable {τ : Type} [TheoryAtom τ] {fuel : Nat} {solver before after : Solver τ}

/-- No theory atom decides. -/
def Solver.Passive (solver : Solver τ) : Prop :=
  ∀ atom ∈ solver.theoryAtoms, ∀ this unassigned, (TheoryAtom.hook atom this unassigned).Passive

/-- The call is made where no theory atom decides. -/
structure Call.Passive (call : Call) (solver : Solver τ) : Prop where
  hook : ∀ hook, call = .runHook hook → hook.Passive
  hooks : call.Whole → solver.Passive

namespace Solver

theorem passive_congr (passive : before.Passive) (same : after.theoryAtoms = before.theoryAtoms) :
    after.Passive := by
  unfold Passive
  rwa [same]

theorem passive_calls {caller callee : Call} (passive : caller.Passive before)
    (calls : Calls fuel caller before callee after) : callee.Passive after := by
  have hooks : callee.Whole → after.Passive := fun whole =>
    passive_congr (passive.hooks (calls.whole whole))
      ((theoryAtoms_acrossBasicCalls fuel).called trivial calls whole)
  refine ⟨fun hook same => ?_, hooks⟩
  cases calls with
  | runHook unvalued present =>
      cases same
      exact passive.hooks trivial _ (Array.mem_of_getElem? present) _ _
  | inspected =>
      cases same
      exact passive.hook _ rfl _
  | assigned =>
      cases same
      exact passive.hook _ rfl _
  | requested => exact (passive.hook _ rfl).elim
  | offered =>
      cases same
      exact passive.hook _ rfl _
  | _ => cases same

/-- Counts and events keep step throughout a search. -/
theorem keepsAccount_acrossPlainCalls (passive : Prop) (fuel : Nat) :
    AcrossPlainCalls fuel (fun call solver => passive → call.Passive solver)
      (KeepsAccount passive : Solver τ → Solver τ → Prop) where
  calls allowed calls given := passive_calls (allowed given) calls
  refl := .refl
  trans := .trans
  entered solver time := ⟨id, rfl, fun _ => rfl⟩
  closed solver status closed := ⟨fun _ => closed, rfl, fun _ => rfl⟩
  plain {call solver} allowed plain := by
    cases call with
    | evaluateAtom key => exact keepsAccount_evaluateAtom key
    | propagateLiteral key literal => exact (keepsAccount_propagateLiteral key literal).discard
    | assignImplied key value => exact (keepsAccount_assignImplied key value).discard
    | offerLemma clause => exact (keepsAccount_offerLemma clause).discard
    | storeExplanation conflict explanation =>
        exact (keepsAccount_storeExplanation conflict explanation).discard
    | learn key => exact keepsAccount_learn key
    | makeDecision => exact keepsAccount_makeDecision.discard
    | endSearch report => exact keepsAccount_endSearch report
    | _ => exact plain.elim
  requested {solver atom value next} allowed := by
    refine (keepsAccount_decide atom value).imp fun _ accounts => ?_
    exact ⟨accounts.closed, accounts.account, fun given => ((allowed given).hook _ rfl).elim⟩
  consulted allowed unvalued present := .aside rfl rfl rfl rfl
  explained allowed := keepsAccount_explain fuel _
  returned allowed := keepsAccount_backjump _

end Solver

end ModelSearch
