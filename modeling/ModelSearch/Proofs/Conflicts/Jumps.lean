import ModelSearch.Proofs.Operations.Basic
import ModelSearch.Theory.Bound

/-!
# Jumping back with a clause

A jump takes away all levels above the one the clause leads to, and makes the clause true.
If the clause has one literal at its greatest level, it leads to the greatest level of its
other literals, which are still false there.  If it has several that were evaluated, it
leads to the level below them, and the first of them is decided.  Entries at lower levels
stay as they are, also those that were made late.
-/

namespace ModelSearch

namespace Trail

variable {trail : Trail} {clause : Clause} {level : Nat} {top : TopLiterals}

/-- The greatest level of the literals of the clause. -/
structure Peak (trail : Trail) (clause : Clause) (level : Nat) : Prop where
  attained : ∃ literal ∈ clause, trail.level? literal.atom = some level
  bounded : ∀ literal ∈ clause, ∀ other, trail.level? literal.atom = some other → other ≤ level

/-- The only literal of the clause at the level. -/
structure Alone (trail : Trail) (clause : Clause) (level : Nat) (literal : Literal) : Prop where
  member : literal ∈ clause
  levelled : trail.level? literal.atom = some level
  single : ∀ other ∈ clause, trail.level? other.atom = some level → other = literal

theorem Tops.level_eq (tops : trail.Tops clause top) (peak : trail.Peak clause level) :
    top.level = level := by
  obtain ⟨literal, member, levelled⟩ := tops.attained
  obtain ⟨highest, inside, attained⟩ := peak.attained
  exact Nat.le_antisymm (peak.bounded literal member _ levelled)
    (tops.bounded highest inside _ attained)

theorem Tops.eq_of_alone (tops : trail.Tops clause top) {literal : Literal}
    (alone : trail.Alone clause top.level literal) : top.literals = [literal] := by
  have inside := tops.mem.mpr ⟨alone.member, alone.levelled⟩
  have one : top.literals.length = 1 := by
    by_contra several
    obtain ⟨other, top, different⟩ := tops.another several inside
    obtain ⟨member, levelled⟩ := tops.mem.mp top
    exact different (alone.single other member levelled)
  obtain ⟨only, shape⟩ := List.length_eq_one_iff.mp one
  rw [shape] at inside
  rw [shape, List.mem_singleton.mp inside]

theorem Tops.alone_of_eq (tops : trail.Tops clause top) {literal : Literal}
    (shape : top.literals = [literal]) : trail.Alone clause top.level literal := by
  have inside : ∀ other, other ∈ top.literals ↔ other = literal := by simp [shape]
  obtain ⟨member, levelled⟩ := tops.mem.mp ((inside literal).mpr rfl)
  exact ⟨member, levelled, fun other member levelled =>
    (inside other).mp (tops.mem.mpr ⟨member, levelled⟩)⟩

end Trail

namespace Solver

variable {τ : Type} {solver : Solver τ} {key : ClauseKey} {clause : Clause} {top : TopLiterals}
  {target : Nat}

/-! ## What a jump leaves -/

/-- The literal was made true at the greatest level of the others, and nothing else is left
above it. -/
structure Asserted (before : Solver τ) (key : ClauseKey) (clause : Clause) (literal : Literal)
    (target : Nat) (after : Solver τ) : Prop where
  highest : ∀ other ∈ clause, other ≠ literal → ∀ level,
    before.trail.level? other.atom = some level → level ≤ target
  attained : target = 0 ∨
    ∃ other ∈ clause, other ≠ literal ∧ before.trail.level? other.atom = some target
  level : after.trail.level = target
  entries : ∀ atom, after.trail.get? atom =
    if atom = literal.atom then
      some ⟨.boolean literal.polarity, target, .clause key, before.trail.position⟩
    else (before.trail.get? atom).filter fun entry => entry.level ≤ target
  others : ∀ other ∈ clause, other ≠ literal → after.Falsifies other
  satisfied : after.satisfies clause = true

/-- The first literal at the level was decided there, and nothing else is left at it or
above. -/
structure Split (before : Solver τ) (clause : Clause) (peak : Nat) (after : Solver τ) :
    Prop where
  level : after.trail.level = peak
  entries : ∃ first, (clause.literals.find? fun literal =>
      before.trail.level? literal.atom == some peak) = some first ∧
    ∀ atom, after.trail.get? atom =
      if atom = first.atom then
        some ⟨.boolean first.polarity, peak, .decided, before.trail.position⟩
      else (before.trail.get? atom).filter fun entry => entry.level ≤ peak - 1
  satisfied : after.satisfies clause = true

theorem satisfies_of_entry {literal : Literal} {entry : Entry} (member : literal ∈ clause)
    (found : solver.trail.get? literal.atom = some entry)
    (value : entry.value = .boolean literal.polarity) : solver.satisfies clause = true := by
  refine List.any_eq_true.mpr ⟨literal, member, beq_iff_eq.mpr ?_⟩
  refine Trail.literalTruth?_eq_some.mpr (Trail.truth?_eq_some.mpr ⟨entry, found, ?_⟩)
  simp [value]

theorem filtered_jumped (coherent : solver.toAssignment.Coherent) (target : Nat)
    (kind : BackjumpKind) (atom : Atom) :
    (solver.jumped target kind).trail.get? atom =
      (solver.trail.get? atom).filter fun entry => entry.level ≤ target := by
  rw [trail_jumped coherent, coherent.trail.get?_clearAbove]

theorem position_jumped (coherent : solver.toAssignment.Coherent) (target : Nat)
    (kind : BackjumpKind) :
    (solver.jumped target kind).trail.position = solver.trail.position := by
  rw [trail_jumped coherent]
  rfl

/-- Makes the clause true after a jump, with the literals that have no value there. -/
def land (key : ClauseKey) (clause : Clause) (kind : BackjumpKind) (openLiterals : List Literal) :
    SolverM τ BackjumpKind :=
  match kind, openLiterals with
  | .uniqueImplication, [literal] => do
      match ← propagateLiteral key literal with
      | .error conflict => throw (.abort (.conflictOnAsserted conflict))
      | .ok _ => return kind
  | .uniqueImplication, _ => throw (.abort (.notAsserting clause))
  | .semanticSplit, literal :: _ => do
      decide literal.atom (.boolean literal.polarity)
      return kind
  | .semanticSplit, [] => throw (.abort (.notSplitting clause))

/-- Once the levels are gone, it is the top literals that have no value. -/
theorem backjump_eq (coherent : solver.toAssignment.Coherent)
    (stored : solver.clauses.clause? key = some clause)
    (falsified : ∀ literal ∈ clause, solver.Falsifies literal)
    (tops : solver.trail.Tops clause top) {kind : BackjumpKind}
    (aims : solver.trail.Target clause top target kind) :
    backjump key solver = land key clause kind top.literals (solver.jumped target kind) := by
  unfold backjump
  rw [bind_eq (clause_of_stored stored), get_bind]
  dsimp only
  rw [aims.answer, ← open_jumped coherent falsified tops aims]
  exact bind_eq (retreat_of_lt coherent (target_lt coherent tops aims))

/-! ## A single literal -/

theorem backjump_single (coherent : solver.toAssignment.Coherent)
    (stored : solver.clauses.clause? key = some clause)
    (falsified : ∀ literal ∈ clause, solver.Falsifies literal)
    (tops : solver.trail.Tops clause top)
    (aims : solver.trail.Target clause top target .uniqueImplication) {literal : Literal}
    (shape : top.literals = [literal]) :
    ∃ rest, backjump key solver = .ok .uniqueImplication rest ∧
      rest.toAssignment = ((solver.jumped target .uniqueImplication).given literal.atom
        (.boolean literal.polarity) (.clause key) target).toAssignment := by
  have inside : literal ∈ top.literals := by simp [shape]
  obtain ⟨rest, propagated, -, assignment⟩ :=
    propagateLiteral_of_free (free_jumped coherent tops aims inside) key
  rw [level_jumped coherent tops aims] at assignment
  have result := backjump_eq coherent stored falsified tops aims
  rw [shape] at result
  exact ⟨rest, result.trans (bind_eq propagated), assignment⟩

theorem asserted_backjump (coherent : solver.toAssignment.Coherent)
    (falsified : ∀ literal ∈ clause, solver.Falsifies literal)
    (tops : solver.trail.Tops clause top)
    (aims : solver.trail.Target clause top target .uniqueImplication) {literal : Literal}
    (shape : top.literals = [literal]) {rest : Solver τ}
    (assignment : rest.toAssignment = ((solver.jumped target .uniqueImplication).given literal.atom
      (.boolean literal.polarity) (.clause key) target).toAssignment) :
    solver.Asserted key clause literal target rest := by
  have alone := tops.alone_of_eq shape
  have free := free_jumped coherent tops aims (tops.mem.mpr ⟨alone.member, alone.levelled⟩)
  have entries : ∀ atom, rest.trail.get? atom =
      if atom = literal.atom then
        some ⟨.boolean literal.polarity, target, .clause key, solver.trail.position⟩
      else (solver.trail.get? atom).filter fun entry => entry.level ≤ target := by
    intro atom
    rw [assignment, get?_given, position_jumped coherent, filtered_jumped coherent]
    simp only [eq_comm (a := literal.atom)]
  refine ⟨?_, ?_, ?_, entries, ?_, ?_⟩
  · intro other member different level levelled
    rcases aims.apart other member level levelled with below | same
    · exact below
    · exact absurd (alone.single other member (same ▸ levelled)) different
  · refine (Trail.backjumpTarget_attained aims.answer).imp_right ?_
    rintro ⟨other, member, levelled⟩
    refine ⟨other, member, ?_, levelled⟩
    rintro rfl
    rw [alone.levelled] at levelled
    exact Nat.ne_of_gt aims.below (Option.some.inj levelled)
  · rw [assignment, level_given]
    exact level_jumped coherent tops aims
  · intro other member different
    have outside : other ∉ top.literals := by simpa [shape] using different
    obtain ⟨entry, found, value⟩ :=
      (others_jumped coherent falsified tops aims other member outside).entry
    refine Trail.truth?_eq_some.mpr ⟨entry, ?_, value⟩
    rw [assignment]
    exact kept_given free _ _ _ found
  · exact satisfies_of_entry alone.member ((entries _).trans (if_pos rfl)) rfl

/-! ## Several literals that were evaluated -/

theorem backjump_several (coherent : solver.toAssignment.Coherent)
    (stored : solver.clauses.clause? key = some clause)
    (falsified : ∀ literal ∈ clause, solver.Falsifies literal)
    (tops : solver.trail.Tops clause top)
    (aims : solver.trail.Target clause top target .semanticSplit) {first : Literal}
    {others : List Literal} (shape : top.literals = first :: others) :
    ∃ rest, backjump key solver = .ok .semanticSplit rest ∧
      rest.toAssignment = ((solver.jumped target .semanticSplit).chosen first.atom
        (.boolean first.polarity)).toAssignment := by
  have inside : first ∈ top.literals := by simp [shape]
  have decided := decide_of_free (free_jumped coherent tops aims inside) (.boolean first.polarity)
  have result := backjump_eq coherent stored falsified tops aims
  rw [shape] at result
  exact ⟨_, result.trans (bind_eq decided), rfl⟩

theorem split_backjump (coherent : solver.toAssignment.Coherent)
    (tops : solver.trail.Tops clause top)
    (aims : solver.trail.Target clause top target .semanticSplit) (below : target = top.level - 1)
    {first : Literal} {others : List Literal} (shape : top.literals = first :: others)
    {rest : Solver τ}
    (assignment : rest.toAssignment = ((solver.jumped target .semanticSplit).chosen first.atom
      (.boolean first.polarity)).toAssignment) : solver.Split clause top.level rest := by
  have inside : first ∈ top.literals := by simp [shape]
  have opened : (solver.jumped target .semanticSplit).trail.openLevel.level = top.level := by
    have sound : (solver.jumped target .semanticSplit).trail.Sound :=
      (coherent.unsetAbove target).coherent.trail
    have positive := aims.below
    rw [sound.level_openLevel, level_jumped coherent tops aims]
    omega
  have entries : ∀ atom, rest.trail.get? atom =
      if atom = first.atom then
        some ⟨.boolean first.polarity, top.level, .decided, solver.trail.position⟩
      else (solver.trail.get? atom).filter fun entry => entry.level ≤ top.level - 1 := by
    intro atom
    rw [assignment, get?_chosen, opened, position_jumped coherent, filtered_jumped coherent,
      below]
    simp only [eq_comm (a := first.atom)]
  refine ⟨?_, ⟨first, ?_, entries⟩, ?_⟩
  · rw [assignment, chosen, level_given]
    exact opened
  · rw [← List.head?_filter, ← tops.literals, shape]
    exact List.head?_cons
  · exact satisfies_of_entry (tops.mem.mp inside).1 ((entries _).trans (if_pos rfl)) rfl

end Solver

open Solver

variable {τ : Type} [TheoryAtom τ]

/-- A jump back with a stored clause that is false succeeds if its greatest level is not
level zero and either one literal is at it, or all literals at it were evaluated. -/
theorem Reached.jumps_back {allowed : Solver τ → Operation τ → Prop}
    {configuration : Configuration} {solver : Solver τ}
    (reached : Reached allowed configuration solver) {key : ClauseKey} {clause : Clause}
    (stored : solver.clauses.clause? key = some clause)
    (falsified : ∀ literal ∈ clause, solver.Falsifies literal) {level : Nat}
    (peak : solver.trail.Peak clause level) (positive : 0 < level) :
    (∀ literal, solver.trail.Alone clause level literal →
      ∃ target rest, backjump key solver = .ok .uniqueImplication rest ∧
        solver.Asserted key clause literal target rest) ∧
    ((∀ literal, ¬solver.trail.Alone clause level literal) →
      (∀ literal ∈ clause, solver.trail.level? literal.atom = some level →
        solver.trail.reason? literal.atom = some .semantic) →
      ∃ rest, backjump key solver = .ok .semanticSplit rest ∧ solver.Split clause level rest) := by
  have coherent := reached.coherent.assignment
  obtain ⟨highest, member, attained⟩ := peak.attained
  have nonempty := Clause.isEmpty_of_mem member
  obtain ⟨top, answer, tops⟩ := Trail.topLiterals_spec nonempty fun literal member => by
    obtain ⟨entry, found, _⟩ := (falsified literal member).entry
    exact ⟨entry.level, Trail.level?_eq_some.mpr ⟨entry, found, rfl⟩⟩
  obtain rfl := tops.level_eq peak
  refine ⟨fun literal alone => ?_, fun several evaluated => ?_⟩
  · have shape := tops.eq_of_alone alone
    have usable : solver.trail.isBackjumpable top = true := by
      simp [Trail.isBackjumpable, positive, shape]
    obtain ⟨target, kind, aims⟩ := Trail.backjumpTarget_spec nonempty answer tops usable
    obtain rfl := aims.asserts nonempty answer (by simp [shape])
    obtain ⟨rest, result, assignment⟩ :=
      backjump_single coherent stored falsified tops aims shape
    exact ⟨target, rest, result,
      asserted_backjump coherent falsified tops aims shape assignment⟩
  · have semantic : solver.trail.allSemantic top = true :=
      List.all_eq_true.mpr fun literal inside => by
        obtain ⟨member, levelled⟩ := tops.mem.mp inside
        exact beq_iff_eq.mpr (evaluated literal member levelled)
    have usable : solver.trail.isBackjumpable top = true := by
      simp [Trail.isBackjumpable, positive, semantic]
    obtain ⟨target, kind, aims⟩ := Trail.backjumpTarget_spec nonempty answer tops usable
    have more : top.literals.length ≠ 1 := fun one => by
      obtain ⟨only, shape⟩ := List.length_eq_one_iff.mp one
      exact several only (tops.alone_of_eq shape)
    obtain ⟨below, rfl⟩ := aims.splits nonempty answer more
    obtain ⟨first, others, shape⟩ := List.exists_cons_of_ne_nil
      (List.ne_nil_of_mem (tops.mem.mpr ⟨member, attained⟩))
    obtain ⟨rest, result, assignment⟩ :=
      backjump_several coherent stored falsified tops aims shape
    exact ⟨rest, result, split_backjump coherent tops aims below shape assignment⟩

namespace Bound

/-- One number makes two bounds false, above a choice that was made before.  Two clauses are
kept that are false then. -/
def overshoot : List (Operation Bound) :=
  [.addVariable "x" .rational, .addVariable "p" .boolean, .addTheoryAtom ⟨0, 5.0, true⟩,
    .addTheoryAtom ⟨0, 3.0, true⟩, .decide (.var 1) (.boolean false),
    .decide (.var 0) (.rational 6.0), .propagate 10,
    .storeClause (Clause.ofList [⟨.var 1, true⟩, ⟨.theory 0, true⟩]) .resolution,
    .storeClause (Clause.ofList [⟨.theory 0, true⟩, ⟨.theory 1, true⟩]) .resolution]

def overshot : Solver Bound := left (Operation.performAll overshoot) (Solver.new {})

theorem reached_overshot : Reached (fun _ _ => True) {} overshot := by
  have answered : answer? (Operation.performAll overshoot) (Solver.new {}) = some () := by
    decide +kernel
  exact Reached.new.answeredAll (fun _ _ _ => trivial) (ok_of_answer answered)

/-- With the first clause the bound is implied at the level of the choice; with the second,
it is decided anew. -/
theorem overshot_jumps :
    (∃ target rest, backjump 0 overshot = .ok .uniqueImplication rest ∧
      overshot.Asserted 0 (Clause.ofList [⟨.var 1, true⟩, ⟨.theory 0, true⟩])
        ⟨.theory 0, true⟩ target rest) ∧
    ∃ rest, backjump 1 overshot = .ok .semanticSplit rest ∧
      overshot.Split (Clause.ofList [⟨.theory 0, true⟩, ⟨.theory 1, true⟩]) 2 rest := by
  have storedFirst : overshot.clauses.clause? 0 =
      some (Clause.ofList [⟨.var 1, true⟩, ⟨.theory 0, true⟩]) := by decide +kernel
  have storedSecond : overshot.clauses.clause? 1 =
      some (Clause.ofList [⟨.theory 0, true⟩, ⟨.theory 1, true⟩]) := by decide +kernel
  have levels : overshot.trail.level? (.var 1) = some 1 ∧
      overshot.trail.level? (.theory 0) = some 2 ∧
      overshot.trail.level? (.theory 1) = some 2 := by decide +kernel
  have chosenFalse : overshot.trail.truth? (.var 1) = some false := by decide +kernel
  have firstFalse : overshot.trail.truth? (.theory 0) = some false := by decide +kernel
  have secondFalse : overshot.trail.truth? (.theory 1) = some false := by decide +kernel
  have evaluated : overshot.trail.reason? (.theory 0) = some .semantic ∧
      overshot.trail.reason? (.theory 1) = some .semantic := by decide +kernel
  obtain ⟨chosenAt, firstAt, secondAt⟩ := levels
  constructor
  · have peak : overshot.trail.Peak (Clause.ofList [⟨.var 1, true⟩, ⟨.theory 0, true⟩]) 2 :=
      ⟨⟨⟨.theory 0, true⟩, by simp [Clause.mem_ofList], firstAt⟩, by
        simp [Clause.mem_ofList, chosenAt, firstAt]⟩
    refine (reached_overshot.jumps_back storedFirst ?_ peak Nat.two_pos).1 ⟨.theory 0, true⟩
      ⟨by simp [Clause.mem_ofList], firstAt, ?_⟩
    · simp [Clause.mem_ofList, Assignment.Falsifies, chosenFalse, firstFalse]
    · simp [Clause.mem_ofList, chosenAt]
  · have peak : overshot.trail.Peak (Clause.ofList [⟨.theory 0, true⟩, ⟨.theory 1, true⟩]) 2 :=
      ⟨⟨⟨.theory 0, true⟩, by simp [Clause.mem_ofList], firstAt⟩, by
        simp [Clause.mem_ofList, firstAt, secondAt]⟩
    refine (reached_overshot.jumps_back storedSecond ?_ peak Nat.two_pos).2 ?_ ?_
    · simp [Clause.mem_ofList, Assignment.Falsifies, firstFalse, secondFalse]
    · intro literal alone
      have first := alone.single ⟨.theory 0, true⟩ (by simp [Clause.mem_ofList]) firstAt
      have second := alone.single ⟨.theory 1, true⟩ (by simp [Clause.mem_ofList]) secondAt
      cases first.trans second.symm
    · simp [Clause.mem_ofList, evaluated]

end Bound

end ModelSearch
