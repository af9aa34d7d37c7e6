import ModelSearch.Proofs.Operations.AssignmentUpdates
import ModelSearch.Proofs.Watch.Recounts

/-!
# Going back undoes what was done

A level is opened by a decision, and then values are decided, implied and propagated in
any order.  Going back to the level before takes all of these away but evaluations that
rest on older values, and leaves every older entry alone.  If there is no such evaluation,
nothing that can be observed tells that anything was done: the values, the watch sets with
their totals, what they find, and the order in which variables will be decided.
-/

namespace ModelSearch

namespace Watches

variable {Member Owner : Type} [Ord Member] [DecidableEq Member]

/-- The sets are those of the origin, but for their totals. -/
structure Drawn (origin watches : Watches Member Owner) : Prop where
  sound : watches.Sound
  outline : watches.outline = origin.outline

variable [Std.TransOrd Member] [Std.LawfulEqOrd Member]

theorem Drawn.setMark {origin watches : Watches Member Owner} (drawn : origin.Drawn watches)
    (member : Member) (mark : Mark) : origin.Drawn (watches.setMark member mark) :=
  ⟨drawn.sound.setMark member mark, (outline_setMark drawn.sound member mark).trans drawn.outline⟩

end Watches

/-- Variables and watch sets are those of the origin, but for values and totals. -/
structure Assignment.Drawn (origin assignment : Assignment) : Prop where
  signature : assignment.vars.signature = origin.vars.signature
  vars : origin.vars.watches.Drawn assignment.vars.watches
  clauses : origin.clauses.watches.Drawn assignment.clauses.watches

namespace Assignment.Drawn

variable {origin assignment : Assignment}

theorem refl (coherent : assignment.Coherent) : assignment.Drawn assignment :=
  ⟨rfl, ⟨coherent.vars.watches, rfl⟩, ⟨coherent.clauses.watches, rfl⟩⟩

theorem set (drawn : origin.Drawn assignment) (atom : Atom) (value : Value) (reason : Reason)
    (level : Nat) : origin.Drawn (assignment.set atom value reason level) := by
  constructor
  · cases atom with
    | var key => exact (VariableStore.signature_setValue _ _ _).trans drawn.signature
    | theory key => exact drawn.signature
  · cases atom with
    | var key => exact drawn.vars.setMark _ _
    | theory key => exact drawn.vars
  · cases value with
    | boolean truth => exact (drawn.clauses.setMark _ _).setMark _ _
    | rational number => exact drawn.clauses

theorem release (drawn : origin.Drawn assignment) (removed : Atom × Entry) :
    origin.Drawn (assignment.release removed) := by
  obtain ⟨atom, value, level, reason, position⟩ := removed
  constructor
  · cases atom with
    | var key => exact (VariableStore.signature_clearValue _ _).trans drawn.signature
    | theory key => exact drawn.signature
  · cases atom with
    | var key =>
        show origin.vars.watches.Drawn (assignment.vars.clearValue key).watches
        unfold VariableStore.clearValue
        split
        · exact drawn.vars
        · exact drawn.vars.setMark _ _
    | theory key => exact drawn.vars
  · cases value with
    | boolean truth => exact (drawn.clauses.setMark _ _).setMark _ _
    | rational number => exact drawn.clauses

theorem unsetAbove (drawn : origin.Drawn assignment) (level : Nat) :
    origin.Drawn (assignment.unsetAbove level) := by
  have released : ∀ (removed : List (Atom × Entry)) (cut : Assignment), origin.Drawn cut →
      origin.Drawn (removed.foldl Assignment.release cut) := by
    intro removed
    induction removed with
    | nil => exact fun _ => id
    | cons pair removed induction => exact fun cut drawn => induction _ (drawn.release pair)
  exact released _ { assignment with trail := (assignment.trail.clearAbove level).2 }
    ⟨drawn.signature, drawn.vars, drawn.clauses⟩

theorem update {after : Assignment} (drawn : origin.Drawn assignment)
    (update : AssignmentUpdate False assignment after) : origin.Drawn after := by
  cases update with
  | openLevel => exact ⟨drawn.signature, drawn.vars, drawn.clauses⟩
  | set free isOpen placed => exact drawn.set _ _ _ _
  | requeue sound same ranked => exact ⟨drawn.signature, drawn.vars, drawn.clauses⟩
  | unset allowed level => exact allowed.elim
  | restate allowed follow => exact allowed.elim

end Assignment.Drawn

/-! ## What is put on the trail after a decision -/

/-- The trail has more levels than the origin.  Nothing of the origin was changed, and what
was added lies above it or was evaluated. -/
structure Trail.Rises (origin trail : Trail) : Prop where
  higher : origin.level < trail.level
  kept : ∀ atom entry, origin.get? atom = some entry → trail.get? atom = some entry
  fresh : ∀ atom entry, trail.get? atom = some entry → origin.get? atom = some entry ∨
    origin.level < entry.level ∨ (∃ key, atom = .theory key) ∧ entry.reason = .semantic

namespace Trail.Rises

variable {origin : Trail} {before after : Assignment}

theorem push {trail : Trail} (rises : origin.Rises trail) {atom : Atom} {value : Value}
    {reason : Reason} {level : Nat} (unvalued : trail.get? atom = none)
    (placed : level = trail.level ∨ (∃ key, atom = .theory key) ∧ reason = .semantic) :
    origin.Rises (trail.push atom value reason level) where
  higher := by
    rw [level_push]
    exact rises.higher
  kept other entry found := by
    have present := rises.kept other entry found
    rw [get?_push, if_neg (ne_of_get? unvalued present), present]
  fresh other entry found := by
    rw [get?_push] at found
    split at found
    · next here =>
        cases found
        subst here
        rcases placed with rfl | evaluated
        · exact .inr (.inl rises.higher)
        · exact .inr (.inr evaluated)
    · exact rises.fresh other entry found

theorem update (rises : origin.Rises before.trail) (coherent : before.Coherent)
    (update : AssignmentUpdate False before after) : origin.Rises after.trail := by
  cases update with
  | openLevel =>
      refine ⟨?_, rises.kept, rises.fresh⟩
      show origin.level < before.trail.openLevel.level
      rw [coherent.trail.level_openLevel]
      exact Nat.lt_succ_of_lt rises.higher
  | set free isOpen placed => exact rises.push free.unvalued placed
  | requeue sound same ranked => exact rises
  | unset allowed level => exact allowed.elim
  | restate allowed follow => exact allowed.elim

end Trail.Rises

theorem AssignmentUpdates.drawn {origin before after : Assignment}
    (updates : AssignmentUpdates False before after)
    (drawn : origin.Drawn before) : origin.Drawn after := by
  induction updates with
  | refl => exact drawn
  | tail _ update induction => exact induction.update update

theorem AssignmentUpdates.rises {origin : Trail} {before after : Assignment}
    (updates : AssignmentUpdates False before after)
    (coherent : before.Coherent) (rises : origin.Rises before.trail) :
    origin.Rises after.trail := by
  induction updates with
  | refl => exact rises
  | tail updates update induction =>
      exact induction.update (AssignmentUpdates.coherent updates coherent) update

/-! ## Operations that give values -/

/-- The operation decides, implies a value or propagates. -/
def Operation.Plays {τ : Type} : Operation τ → Prop
  | .decide _ _ | .makeDecision | .assignImplied _ _ | .propagate _ => True
  | _ => False

/-- The operation decides. -/
def Operation.Chooses {τ : Type} : Operation τ → Prop
  | .decide _ _ | .makeDecision => True
  | _ => False

theorem Operation.Chooses.plays {τ : Type} {operation : Operation τ}
    (chooses : operation.Chooses) : operation.Plays := by
  cases operation <;> first | exact chooses.elim | trivial

variable {τ : Type} [TheoryAtom τ]

open Solver

/-- One operation that gives values was carried out, and not aborted. -/
inductive Play (before : Solver τ) : Solver τ → Prop
  | perform {operation : Operation τ} (plays : operation.Plays)
      (performed : ¬Aborts operation.perform before) :
      Play before (left operation.perform before)

namespace Solver

variable {solver before after rest : Solver τ}

theorem hooksAddNoClause_congr (noClause : before.HooksAddNoClause)
    (same : after.theoryAtoms = before.theoryAtoms) :
    after.HooksAddNoClause := by
  unfold HooksAddNoClause
  rw [same]
  exact noClause

theorem updated_plays {operation : Operation τ} (plays : operation.Plays)
    (coherent : solver.Coherent) (noClause : solver.HooksAddNoClause) :
    Preserves (fun rest => rest.HooksAddNoClause ∧ rest.Coherent ∧ Updated False solver rest)
      operation.perform solver := by
  have covers : ∀ call : Call, call.Basic ∨ call.Whole → call.GivesValues →
      Preserves (fun rest => rest.HooksAddNoClause ∧ rest.Coherent ∧ Updated False solver rest)
        (call.perform 0) solver := by
    intro call kind called
    have limited : False ∨ OnlyGivesValues call solver := .inr ⟨called, fun _ => noClause⟩
    have both : Preserves (fun rest => rest.theoryAtoms = solver.theoryAtoms ∧
        (solver.Coherent → rest.Coherent ∧ Updated False solver rest)) (call.perform 0) solver := by
      rcases kind with basic | whole
      · exact ((theoryAtoms_acrossBasicCalls 0).basic trivial basic).and
          ((updated_acrossBasicCalls False 0).basic limited basic)
      · exact ((theoryAtoms_acrossBasicCalls 0).whole whole trivial).and
          ((updated_acrossBasicCalls False 0).whole whole limited)
    exact both.imp fun rest both => ⟨hooksAddNoClause_congr noClause both.1, both.2 coherent⟩
  cases operation with
  | decide atom value => exact covers (.decide atom value) (.inl trivial) trivial
  | makeDecision => exact covers .makeDecision (.inl trivial) trivial
  | assignImplied key value => exact covers (.assignImplied key value) (.inl trivial) trivial
  | propagate fuel => exact covers (.propagate fuel) (.inr trivial) trivial
  | _ => exact plays.elim

theorem updated_play (play : Play before after) (coherent : before.Coherent)
    (noClause : before.HooksAddNoClause) :
    after.HooksAddNoClause ∧ after.Coherent ∧ Updated False before after := by
  obtain ⟨plays, performed⟩ := play
  exact (updated_plays plays coherent noClause).left performed

theorem updated_playAll (plays : Relation.ReflTransGen Play before after)
    (coherent : before.Coherent) (noClause : before.HooksAddNoClause) :
    after.HooksAddNoClause ∧ after.Coherent ∧ Updated False before after := by
  induction plays with
  | refl => exact ⟨noClause, coherent, .refl⟩
  | tail _ play induction =>
      obtain ⟨noClause, coherent, updates⟩ := induction
      obtain ⟨noClause, coherent, further⟩ := updated_play play coherent noClause
      exact ⟨noClause, coherent, updates.trans further⟩

/-! ## The decision that opens a level -/

omit [TheoryAtom τ] in
theorem rises_chosen (coherent : solver.toAssignment.Coherent) {atom : Atom}
    (free : solver.Free atom) (value : Value) :
    solver.trail.Rises (solver.chosen atom value).trail := by
  have level : solver.trail.openLevel.level = solver.trail.level + 1 :=
    coherent.trail.level_openLevel
  refine ⟨?_, fun other entry => kept_chosen free value, fun other entry found => ?_⟩
  · rw [chosen, level_given]
    exact level ▸ Nat.lt_succ_self _
  · rw [get?_chosen] at found
    split at found
    · cases found
      exact .inr (.inl (level ▸ Nat.lt_succ_self _))
    · exact .inl found

theorem rises_chooses {first : Operation τ} (chooses : first.Chooses)
    (coherent : solver.toAssignment.Coherent) (performed : ¬Aborts first.perform solver)
    (opened : solver.trail.level < (left first.perform solver).trail.level) :
    solver.trail.Rises (left first.perform solver).trail := by
  cases first with
  | decide atom value =>
      by_cases free : solver.Free atom
      · have result : left (Operation.decide atom value).perform solver =
            { solver.chosen atom value with
              events := solver.events.push (.decision atom value) } := by
          rw [left, Operation.perform, decide_of_free free]
        rw [result]
        exact rises_chosen coherent free value
      · obtain ⟨abort, broken, result⟩ := decide_of_not_free free value
        exact absurd ⟨abort, broken, result⟩ performed
  | makeDecision =>
      cases possible : solver.vars.canDecide with
      | false =>
          have result : left (Operation.makeDecision : Operation τ).perform solver = solver := by
            rw [left, Operation.perform, discard_of_ok (makeDecision_of_spent possible)]
          rw [result] at opened
          exact absurd opened (Nat.lt_irrefl _)
      | true =>
          obtain ⟨_, rest, answered, key, known, _, _, decided⟩ :=
            (ends_popDecision coherent possible).answer
          have result : left (Operation.makeDecision : Operation τ).perform solver = rest := by
            rw [left, Operation.perform, discard_of_ok answered]
          have trail : rest.trail = (solver.chosen (.var key) known.sort.defaultValue).trail := by
            rw [decided.assignment]
          rw [result, trail]
          exact rises_chosen coherent decided.free _
  | _ => exact chooses.elim

/-! ## What is left -/

omit [TheoryAtom τ]

/-- The level is that of the origin, nothing of the origin was changed, and what was added
are theory atoms evaluated at its levels. -/
structure Restored (origin back : Solver τ) : Prop where
  level : back.trail.level = origin.trail.level
  kept : ∀ atom entry, origin.trail.get? atom = some entry → back.trail.get? atom = some entry
  further : ∀ atom entry, back.trail.get? atom = some entry →
    origin.trail.get? atom = some entry ∨ origin.trail.get? atom = none ∧
      (∃ key, atom = .theory key) ∧ entry.reason = .semantic ∧ entry.level ≤ origin.trail.level

/-- Values, watch sets with their totals, what these find, and the order of the decisions to
come are the same. -/
structure Indistinct (origin back : Solver τ) : Prop where
  values : ∀ key, back.vars.value? key = origin.vars.value? key
  clauseSets : back.clauses.watches.sets = origin.clauses.watches.sets
  variableSets : back.vars.watches.sets = origin.vars.watches.sets
  units : back.clauses.units = origin.clauses.units
  violated : back.clauses.violated = origin.clauses.violated
  semanticUnits : back.vars.semanticUnits = origin.vars.semanticUnits
  fullyAssigned : back.vars.fullyAssigned = origin.vars.fullyAssigned
  decisions : back.vars.queue.drain.1 = origin.vars.queue.drain.1

theorem restored_of_rises {origin back : Solver τ} (sound : rest.trail.Sound)
    (rises : origin.trail.Rises rest.trail)
    (cut : back.trail = (rest.trail.clearAbove origin.trail.level).2)
    (origins : origin.trail.Sound) : origin.Restored back where
  level := by
    rw [cut, sound.level_clearAbove, Nat.min_eq_left (Nat.le_of_lt rises.higher)]
  kept atom entry found := by
    rw [cut, sound.get?_clearAbove_eq_some]
    exact ⟨rises.kept atom entry found, origins.level_le found⟩
  further atom entry found := by
    rw [cut, sound.get?_clearAbove_eq_some] at found
    obtain ⟨found, low⟩ := found
    rcases rises.fresh atom entry found with former | above | ⟨theory, evaluated⟩
    · exact .inl former
    · exact absurd above (Nat.not_lt.mpr low)
    · cases former : origin.trail.get? atom with
      | none => exact .inr ⟨rfl, theory, evaluated, low⟩
      | some other =>
          obtain rfl := Option.some.inj ((rises.kept atom other former).symm.trans found)
          exact .inl rfl

/-- The stores are determined by the trail and by what was stated. -/
theorem indistinct_of_drawn {origin back : Solver τ} (coherent : origin.toAssignment.Coherent)
    (coherentBack : back.toAssignment.Coherent) (ranked : origin.vars.Ranked)
    (rankedBack : back.vars.Ranked) (drawn : origin.Drawn back.toAssignment)
    (same : ∀ atom, back.trail.get? atom = origin.trail.get? atom) : origin.Indistinct back := by
  have view : back.trail.value? = origin.trail.value? := by
    funext atom
    rw [Trail.value?, Trail.value?, same]
  have follow := coherentBack.vars
  have followClauses := coherentBack.clauses
  rw [view] at follow followClauses
  have variableMarks : ∀ key, back.vars.watches.mark key = origin.vars.watches.mark key :=
    fun key => (follow.marks key).trans (coherent.vars.marks key).symm
  have clauseMarks : ∀ literal,
      back.clauses.watches.mark literal = origin.clauses.watches.mark literal :=
    fun literal => (followClauses.marks literal).trans (coherent.clauses.marks literal).symm
  have variableSets := Watches.sets_eq drawn.vars.sound coherent.vars.watches drawn.vars.outline
    variableMarks
  have clauseSets := Watches.sets_eq drawn.clauses.sound coherent.clauses.watches
    drawn.clauses.outline clauseMarks
  have size : back.vars.size = origin.vars.size := by
    rw [← VariableStore.length_signature, drawn.signature, VariableStore.length_signature]
  refine ⟨fun key => ?_, clauseSets, variableSets, ?_, ?_, ?_, ?_, ?_⟩
  · rw [follow.values, coherent.vars.values]
  · exact Watches.unitOwners_eq drawn.clauses.sound coherent.clauses.watches clauseSets clauseMarks
  · exact Watches.violatedOwners_eq drawn.clauses.sound coherent.clauses.watches clauseSets
  · exact Watches.unitOwners_eq drawn.vars.sound coherent.vars.watches variableSets variableMarks
  · exact Watches.violatedOwners_eq drawn.vars.sound coherent.vars.watches variableSets
  · unfold VariableStore.Ranked at rankedBack
    rw [VariableStore.rank_eq, drawn.signature, ← VariableStore.rank_eq] at rankedBack
    refine LazyQueue.drain_eq follow.queue rankedBack coherent.vars.queue ranked fun key => ?_
    rw [follow.queued, coherent.vars.queued, size]

end Solver

/-- Going back to the level before a decision undoes it and all that was decided, implied
and propagated since, but for evaluations that rest on older values.  If there are none,
nothing that can be observed has changed. -/
theorem Reached.retreat_undoes {allowed : Solver τ → Operation τ → Prop}
    {configuration : Configuration} {solver rest : Solver τ} {first : Operation τ}
    (reached : Reached allowed configuration solver) (noClause : solver.HooksAddNoClause)
    (chooses : first.Chooses) (performed : ¬Aborts first.perform solver)
    (opened : solver.trail.level < (left first.perform solver).trail.level)
    (plays : Relation.ReflTransGen Play (left first.perform solver) rest) :
    ∃ back, retreat solver.trail.level rest = .ok ⟨⟩ back ∧ solver.Restored back ∧
      ((∀ atom, solver.trail.get? atom = none → back.trail.get? atom = none) →
        solver.Indistinct back) := by
  have coherent := reached.coherent
  obtain ⟨noClauseFirst, coherentFirst, updates⟩ :=
    updated_play (.perform chooses.plays performed) coherent noClause
  obtain ⟨_, coherentRest, further⟩ := updated_playAll plays coherentFirst noClauseFirst
  have rises := AssignmentUpdates.rises further coherentFirst.assignment
    (rises_chooses chooses coherent.assignment performed opened)
  have drawn := AssignmentUpdates.drawn (updates.trans further) (.refl coherent.assignment)
  have ranked := AssignmentUpdates.ranked (updates.trans further) reached.ranked
  have cut := coherentRest.assignment.unsetAbove solver.trail.level
  have restored : solver.Restored
      { rest with toAssignment := rest.toAssignment.unsetAbove solver.trail.level } :=
    restored_of_rises coherentRest.assignment.trail rises cut.trail coherent.assignment.trail
  refine ⟨_, retreat_of_lt coherentRest.assignment rises.higher, restored, fun none => ?_⟩
  refine indistinct_of_drawn coherent.assignment cut.coherent reached.ranked
    (Assignment.ranked_unsetAbove ranked _) (drawn.unsetAbove _) fun atom => ?_
  cases found : solver.trail.get? atom with
  | none => exact none atom found
  | some entry => exact restored.kept atom entry found

namespace Bound

theorem hooksAddNoClause (solver : Solver Bound) : solver.HooksAddNoClause := by
  intro key atom _ this unassigned assignment
  show (atom.response unassigned (assignment.trail.truth? this)).AddsNoClause
  cases assignment.trail.truth? this with
  | none => trivial
  | some truth => exact fun _ => trivial

/-- A number for the hasty formula that makes its second bound false, and what follows. -/
def hastyPlay : Solver Bound :=
  left (Operation.perform (.propagate 10))
    (left (Operation.perform (.decide (.var 0) (.rational 4.0))) hastyFormula)

/-- Both bounds are evaluated, a clause gives the other variable a value, and the last clause
is violated.  None of this is left. -/
theorem hastyPlay_undone : hastyPlay.trail.size = 4 ∧ hastyPlay.clauses.violated = [2] ∧
    ∃ back, retreat 0 hastyPlay = .ok ⟨⟩ back ∧ hastyFormula.Restored back ∧
      hastyFormula.Indistinct back := by
  have values : hastyPlay.trail.size = 4 := by decide +kernel
  have violated : hastyPlay.clauses.violated = [2] := by decide +kernel
  have chosen : answer? (Operation.perform (.decide (.var 0) (.rational 4.0))) hastyFormula =
      some () := by decide +kernel
  have propagated : answer? (Operation.perform (.propagate 10))
      (left (Operation.perform (.decide (.var 0) (.rational 4.0))) hastyFormula) = some () := by
    decide +kernel
  have opened : hastyFormula.trail.level <
      (left (Operation.perform (.decide (.var 0) (.rational 4.0))) hastyFormula).trail.level := by
    decide +kernel
  have emptied : (left (retreat 0) hastyPlay).trail.isEmpty = true := by decide +kernel
  have start : Reached (fun _ _ => True) {} hastyFormula :=
    stated_hastyFormula.reached fun _ _ _ => trivial
  have chooses : (Operation.decide (.var 0) (.rational 4.0) : Operation Bound).Chooses := trivial
  have play : Play (left (Operation.perform (.decide (.var 0) (.rational 4.0))) hastyFormula)
      hastyPlay := .perform trivial (not_aborts_of_ok (ok_of_answer propagated))
  obtain ⟨back, returned, restored, indistinct⟩ := start.retreat_undoes (hooksAddNoClause _) chooses
    (not_aborts_of_ok (ok_of_answer chosen)) opened (.single play)
  have returned : retreat 0 hastyPlay = .ok ⟨⟩ back := returned
  unfold left at emptied
  rw [returned] at emptied
  refine ⟨values, violated, back, returned, restored, indistinct fun atom _ => ?_⟩
  exact Std.TreeMap.getElem?_of_isEmpty emptied

end Bound

end ModelSearch
