import Mathlib.Data.List.Chain
import ModelSearch.Proofs.Conflicts.Novelty
import ModelSearch.Proofs.Conflicts.Reductions

/-!
# The first implication point

At the current level each value follows from earlier values there, and all of them from the
choice that opened the level.  An implication point is an atom that lies on every route from
this choice to the conflict.  The choice is one, and an analysis comes to the last one.

The clause under analysis is a cut: every route to the conflict meets it.  Its literals of
the current level go on to the conflict around every implication point but themselves, and
so the analysis never resolves on an implication point.
-/

namespace ModelSearch

namespace Assignment

variable {assignment : Assignment} {conflict clause : Clause} {atom before after : Atom}

/-! ## Routes -/

/-- The atom has its value at the current level. -/
def Current (assignment : Assignment) (atom : Atom) : Prop :=
  assignment.trail.level? atom = some assignment.trail.level

/-- One atom got its value before another. -/
def Precedes (assignment : Assignment) (before after : Atom) : Prop :=
  ∃ former latter, assignment.trail.get? before = some former ∧
    assignment.trail.get? after = some latter ∧ former.position < latter.position

/-- Both atoms are of the current level, and one occurs in the reason of the other. -/
structure Leads (assignment : Assignment) (before after : Atom) : Prop where
  source : assignment.Current before
  target : assignment.Current after
  occurs : ∃ key cause literal, assignment.trail.reason? after = some (.clause key) ∧
    assignment.clauses.clause? key = some cause ∧ literal ∈ cause ∧ literal.atom = before

/-- A route leads from the choice of the current level to an atom of the clause. -/
structure Route (assignment : Assignment) (clause : Clause) (route : List Atom) : Prop where
  begins : ∃ leader, route.head? = some leader ∧ assignment.Current leader ∧
    assignment.trail.reason? leader = some .decided
  leads : route.IsChain assignment.Leads
  ends : ∃ literal ∈ clause, route.getLast? = some literal.atom

/-- An implication point is an atom of the current level on every route to the clause. -/
structure Point (assignment : Assignment) (clause : Clause) (atom : Atom) : Prop where
  current : assignment.Current atom
  passed : ∀ route, assignment.Route clause route → atom ∈ route

/-- The first implication point, seen from the conflict, is the one that got its value
last. -/
structure FirstPoint (assignment : Assignment) (clause : Clause) (atom : Atom) : Prop extends
    assignment.Point clause atom where
  last : ∀ other, assignment.Point clause other → other ≠ atom → assignment.Precedes other atom

/-- A step between atoms of which the second one is permitted. -/
def Passes (assignment : Assignment) (permitted : Atom → Prop) (before after : Atom) : Prop :=
  assignment.Leads before after ∧ permitted after

private theorem current_of_chain {route : List Atom} {leader : Atom}
    (first : route.head? = some leader) (current : assignment.Current leader)
    (chain : route.IsChain assignment.Leads) : ∀ atom ∈ route, assignment.Current atom := by
  induction route generalizing leader with
  | nil => cases first
  | cons head rest induction =>
      obtain rfl : head = leader := Option.some.inj first
      intro atom member
      rcases List.mem_cons.mp member with rfl | inside
      · exact current
      · cases rest with
        | nil => cases inside
        | cons second rest =>
            obtain ⟨step, chain⟩ := List.isChain_cons_cons.mp chain
            exact induction rfl step.target chain atom inside

theorem Route.current {route : List Atom} (isRoute : assignment.Route clause route) :
    ∀ atom ∈ route, assignment.Current atom := by
  obtain ⟨leader, first, current, _⟩ := isRoute.begins
  exact current_of_chain first current isRoute.leads

/-- Steps over permitted atoms can be listed. -/
private theorem listed_of_passes (permitted : Atom → Prop) {start last : Atom}
    (allowed : permitted start)
    (passes : Relation.ReflTransGen (assignment.Passes permitted) start last) :
    ∃ route : List Atom, route.head? = some start ∧ route.getLast? = some last ∧
      route.IsChain assignment.Leads ∧ ∀ atom ∈ route, permitted atom := by
  induction passes using Relation.ReflTransGen.head_induction_on with
  | refl => exact ⟨[last], rfl, rfl, .singleton _, by simpa using allowed⟩
  | @head start next step _ induction =>
      obtain ⟨route, first, ending, chain, all⟩ := induction step.2
      obtain ⟨rest, rfl⟩ : ∃ rest, route = next :: rest := by
        cases route with
        | nil => cases first
        | cons head rest => exact ⟨rest, by rw [Option.some.inj first]⟩
      refine ⟨start :: next :: rest, rfl, ending, .cons_cons step.1 chain, fun atom member => ?_⟩
      rcases List.mem_cons.mp member with rfl | inside
      · exact allowed
      · exact all atom inside

end Assignment

namespace Solver

variable {τ : Type} [TheoryAtom τ] {origin solver : Solver τ} {conflict clause next : Clause}
  {atom : Atom} {entry : Entry}

/-! ## The choice leads everywhere -/

/-- A value of the current level was chosen, or follows from an earlier one there. -/
theorem Punctual.led (punctual : origin.Punctual solver) (positive : 0 < solver.trail.level)
    (found : solver.trail.get? atom = some entry) (current : entry.level = solver.trail.level) :
    entry.reason = .decided ∨ ∃ before former, solver.Leads before atom ∧
      solver.trail.get? before = some former ∧ former.level = solver.trail.level ∧
        former.position < entry.position := by
  cases reason : entry.reason with
  | decided => exact .inl rfl
  | semantic => exact absurd ⟨atom, entry, found, reason⟩ punctual.plain.unevaluated
  | clause key =>
      obtain ⟨cause, implied, stored, inside, same, value, valued, height⟩ :=
        punctual.prompt.timely atom entry key found reason
      obtain ⟨again, other, storedAgain, _, otherSame, otherValue, earlier⟩ :=
        punctual.valid.reasoned.explained atom entry key found reason
      obtain rfl := Option.some.inj (stored.symm.trans storedAgain)
      obtain rfl : implied = other := by
        rw [value] at otherValue
        have polarity := Value.boolean.inj otherValue
        cases implied
        cases other
        simp_all
      obtain ⟨_, attained⟩ := Trail.height_eq_iff.mp height.symm
      rw [current] at attained
      obtain ⟨latest, listed, levelled⟩ := attained.resolve_left (by omega)
      obtain ⟨member, different⟩ := Assignment.mem_others.mp listed
      obtain ⟨former, formerFound, _, _, position⟩ := earlier latest member different
      obtain ⟨again, againFound, formerLevel⟩ := Trail.level?_eq_some.mp levelled
      obtain rfl := Option.some.inj (formerFound.symm.trans againFound)
      refine .inr ⟨latest.atom, former, ⟨levelled, ?_, key, cause, latest, ?_, stored, member,
        rfl⟩, formerFound, formerLevel, position⟩
      · exact Trail.level?_eq_some.mpr ⟨entry, found, current⟩
      · simp [Trail.reason?, found, reason]

/-- The choice leads to every atom of its level, over earlier atoms only. -/
theorem Punctual.reached (punctual : origin.Punctual solver) (positive : 0 < solver.trail.level)
    {permitted : Atom → Prop} (found : solver.trail.get? atom = some entry)
    (current : entry.level = solver.trail.level)
    (earlier : ∀ other former, solver.trail.get? other = some former →
      former.position ≤ entry.position → permitted other) :
    ∃ leader, solver.Current leader ∧ solver.trail.reason? leader = some .decided ∧
      permitted leader ∧ Relation.ReflTransGen (solver.Passes permitted) leader atom := by
  -- The induction is on the position.
  induction position : entry.position using Nat.strong_induction_on generalizing atom entry with
  | _ position induction =>
      subst position
      have own := earlier atom entry found (Nat.le_refl _)
      rcases punctual.led positive found current with decided | follows
      · refine ⟨atom, Trail.level?_eq_some.mpr ⟨entry, found, current⟩, ?_, own, .refl⟩
        simp [Trail.reason?, found, decided]
      · obtain ⟨before, former, leads, formerFound, formerLevel, less⟩ := follows
        obtain ⟨leader, level, decided, allowed, passes⟩ :=
          induction former.position less formerFound formerLevel
            (fun other middle present below => earlier other middle present (by omega)) rfl
        exact ⟨leader, level, decided, allowed, passes.tail ⟨leads, own⟩⟩

/-- What precedes an implication point does not go on to the conflict around it. -/
theorem Punctual.not_around (punctual : origin.Punctual solver)
    (positive : 0 < solver.trail.level) {point start : Atom} (isPoint : solver.Point conflict point)
    (current : solver.Current start) (precedes : solver.Precedes start point) {last : Literal}
    (member : last ∈ conflict)
    (around : Relation.ReflTransGen (solver.Passes (· ≠ point)) start last.atom) : False := by
  obtain ⟨former, latter, formerFound, latterFound, less⟩ := precedes
  obtain ⟨again, againFound, level⟩ := Trail.level?_eq_some.mp current
  obtain rfl := Option.some.inj (formerFound.symm.trans againFound)
  have earlier : ∀ other middle, solver.trail.get? other = some middle →
      middle.position ≤ former.position → other ≠ point := by
    rintro other middle present below rfl
    obtain rfl := Option.some.inj (present.symm.trans latterFound)
    omega
  obtain ⟨leader, leaderCurrent, decided, allowed, passes⟩ :=
    punctual.reached positive formerFound level earlier
  obtain ⟨route, first, ending, chain, avoids⟩ :=
    Assignment.listed_of_passes (· ≠ point) allowed (passes.trans around)
  have inside := isPoint.passed route ⟨⟨leader, first, leaderCurrent, decided⟩, chain, last,
    member, ending⟩
  exact avoids point inside rfl

/-! ## The clause under analysis -/

/-- The clause has a literal of the current level, and every route to the conflict meets
it.  From its literals of that level the conflict is reached around each implication point
but themselves. -/
structure Cut (solver : Solver τ) (conflict clause : Clause) : Prop where
  current : ∃ literal ∈ clause, solver.Current literal.atom
  met : ∀ route, solver.Route conflict route → ∃ literal ∈ clause, literal.atom ∈ route
  around : ∀ point, solver.Point conflict point → ∀ literal ∈ clause,
    solver.Current literal.atom → literal.atom ≠ point → ∃ last ∈ conflict,
      Relation.ReflTransGen (solver.Passes (· ≠ point)) literal.atom last.atom

/-- The literal resolved on is of the current level, and the clause has another one there,
which became false before. -/
structure Pivot (solver : Solver τ) (clause cause : Clause) (pivot : Literal) : Prop where
  member : pivot ∈ clause
  current : solver.Current pivot.atom
  reason : ∃ key, solver.trail.reason? pivot.atom = some (.clause key) ∧
    solver.clauses.clause? key = some cause
  another : ∃ other ∈ clause, other ≠ pivot ∧ solver.Current other.atom ∧
    solver.Precedes other.atom pivot.atom

omit [TheoryAtom τ] in
/-- A clause with a literal of the current level has its top literals there. -/
theorem level_tops (sound : solver.trail.Sound) {top : TopLiterals}
    (tops : solver.trail.Tops clause top) {literal : Literal} (member : literal ∈ clause)
    (current : solver.Current literal.atom) : top.level = solver.trail.level := by
  obtain ⟨highest, _, levelled⟩ := tops.attained
  obtain ⟨entry, found, level⟩ := Trail.level?_eq_some.mp levelled
  have below := sound.level_le found
  have above := tops.bounded literal member _ current
  omega

/-- Of two false literals of the current level one follows from a clause. -/
theorem Punctual.implied (punctual : origin.Punctual solver)
    (conflicting : solver.Conflicting clause) {first second : Literal}
    (firstMember : first ∈ clause) (secondMember : second ∈ clause) (different : second ≠ first)
    (firstCurrent : solver.Current first.atom) (secondCurrent : solver.Current second.atom) :
    ∃ literal ∈ clause, ∃ entry key, solver.trail.get? literal.atom = some entry ∧
      entry.level = solver.trail.level ∧ entry.reason = .clause key := by
  obtain ⟨firstEntry, firstFound, firstLevel⟩ := Trail.level?_eq_some.mp firstCurrent
  obtain ⟨secondEntry, secondFound, secondLevel⟩ := Trail.level?_eq_some.mp secondCurrent
  have apart := (conflicting.falsified _ secondMember).atom_ne
    (conflicting.falsified _ firstMember) different
  cases firstReason : firstEntry.reason with
  | clause key => exact ⟨first, firstMember, firstEntry, key, firstFound, firstLevel, firstReason⟩
  | semantic => exact absurd ⟨_, _, firstFound, firstReason⟩ punctual.plain.unevaluated
  | decided =>
      refine ⟨second, secondMember, secondEntry, ?_⟩
      cases secondReason : secondEntry.reason with
      | clause key => exact ⟨key, secondFound, secondLevel, rfl⟩
      | semantic => exact absurd ⟨_, _, secondFound, secondReason⟩ punctual.plain.unevaluated
      | decided =>
          have same := punctual.valid.reasoned.choice_eq secondFound firstFound secondReason
            firstReason (secondLevel.trans firstLevel.symm)
          exact absurd same apart

/-- The latest implied literal is the last of its level, if that is the current one. -/
theorem Punctual.precedes (punctual : origin.Punctual solver) (positive : 0 < solver.trail.level)
    (conflicting : solver.Conflicting clause) {pivot other : Literal} {key : ClauseKey}
    (latest : solver.trail.latestImplied? clause = some (pivot, key))
    (current : solver.Current pivot.atom) (member : other ∈ clause) (different : other ≠ pivot)
    (otherCurrent : solver.Current other.atom) : solver.Precedes other.atom pivot.atom := by
  obtain ⟨pivotMember, entry, found, reason, last⟩ := Trail.latestImplied?_eq_some latest
  obtain ⟨again, foundAgain, level⟩ := Trail.level?_eq_some.mp current
  obtain rfl := Option.some.inj (found.symm.trans foundAgain)
  obtain ⟨otherEntry, otherFound, otherLevel⟩ := Trail.level?_eq_some.mp otherCurrent
  have apart := (conflicting.falsified _ member).atom_ne (conflicting.falsified _ pivotMember)
    different
  have distinct : otherEntry.position ≠ entry.position := fun same =>
    apart (punctual.sound.distinct _ _ _ _ otherFound found same)
  have earlier : otherEntry.position ≤ entry.position := by
    cases otherReason : otherEntry.reason with
    | decided =>
        obtain ⟨leader, opens⟩ := punctual.valid.reasoned.opens punctual.sound positive
          (Nat.le_refl _)
        obtain rfl := (opens.chosen other.atom).mp
          ⟨otherEntry, otherFound, otherLevel, otherReason⟩
        exact opens.earliest otherEntry pivot.atom entry otherFound found level
    | semantic => exact absurd ⟨_, _, otherFound, otherReason⟩ punctual.plain.unevaluated
    | clause otherKey =>
        have notAfter := last other member otherEntry otherFound otherKey otherReason
        unfold Entry.Before at notAfter
        omega
  exact ⟨otherEntry, entry, otherFound, found, by omega⟩

/-- While the clause has a literal of the current level, it is resolved on one of them. -/
theorem Punctual.pivot (punctual : origin.Punctual solver) (positive : 0 < solver.trail.level)
    (conflicting : solver.Conflicting clause)
    (current : ∃ literal ∈ clause, solver.Current literal.atom)
    (reduces : solver.Reduces clause next) :
    ∃ cause pivot, next = clause.resolve cause pivot ∧ solver.Pivot clause cause pivot := by
  obtain ⟨answer, unusable, latest, stored⟩ := reduces
  rename_i top pivot key cause
  obtain ⟨member, entry, found, reason, last⟩ := Trail.latestImplied?_eq_some latest
  obtain ⟨first, firstMember, firstCurrent⟩ := current
  obtain ⟨again, answerAgain, tops⟩ :=
    Trail.topLiterals_spec (Clause.isEmpty_of_mem firstMember) fun _ => conflicting.valued
  obtain rfl : again = top := Except.ok.inj (answerAgain.symm.trans answer)
  have level := level_tops punctual.sound tops firstMember firstCurrent
  have mem : ∀ literal, literal ∈ again.literals ↔ literal ∈ clause ∧
      solver.Current literal.atom := by
    intro literal
    rw [tops.mem, level]
    exact Iff.rfl
  -- The clause does not lead back yet, so each literal of the level has another one there.
  have several : again.literals.length ≠ 1 := by
    intro single
    simp [Trail.isBackjumpable, level, positive, single] at unusable
  have pivotCurrent : solver.Current pivot.atom := by
    obtain ⟨second, secondInside, different⟩ :=
      tops.another several ((mem first).mpr ⟨firstMember, firstCurrent⟩)
    obtain ⟨secondMember, secondCurrent⟩ := (mem second).mp secondInside
    obtain ⟨implied, impliedMember, impliedEntry, otherKey, impliedFound, high, follows⟩ :=
      punctual.implied conflicting firstMember secondMember different firstCurrent secondCurrent
    have notAfter := last implied impliedMember impliedEntry impliedFound otherKey follows
    have below := punctual.sound.level_le found
    unfold Entry.Before at notAfter
    exact Trail.level?_eq_some.mpr ⟨entry, found, by omega⟩
  obtain ⟨other, otherInside, different⟩ :=
    tops.another several ((mem pivot).mpr ⟨member, pivotCurrent⟩)
  obtain ⟨otherMember, otherCurrent⟩ := (mem other).mp otherInside
  have precedes := punctual.precedes positive conflicting latest pivotCurrent otherMember different
    otherCurrent
  refine ⟨cause, pivot, rfl, member, pivotCurrent, ⟨key, ?_, stored⟩, other, otherMember,
    different, otherCurrent, precedes⟩
  simp [Trail.reason?, found, reason]

omit [TheoryAtom τ] in
/-- A literal over another atom than the pivot is kept. -/
private theorem mem_resolve_of_ne {cause : Clause} {pivot literal : Literal}
    (member : literal ∈ clause ∨ literal ∈ cause) (different : literal.atom ≠ pivot.atom) :
    literal ∈ clause.resolve cause pivot := by
  refine Clause.mem_resolve.mpr ⟨member, ?_, ?_⟩
  · rintro rfl
    exact different rfl
  · rintro rfl
    exact different rfl

omit [TheoryAtom τ] in
/-- A route through the pivot has come from a literal of its reason. -/
private theorem Pivot.met {cause : Clause} {pivot : Literal}
    (isPivot : solver.Pivot clause cause pivot) {route : List Atom}
    (isRoute : solver.Route conflict route) (inside : pivot.atom ∈ route) :
    ∃ literal ∈ cause, literal.atom ≠ pivot.atom ∧ literal.atom ∈ route := by
  obtain ⟨key, reason, stored⟩ := isPivot.reason
  obtain ⟨front, back, rfl, absent⟩ := List.eq_append_cons_of_mem inside
  have nonempty : front ≠ [] := by
    rintro rfl
    obtain ⟨leader, first, _, decided⟩ := isRoute.begins
    obtain rfl : pivot.atom = leader := Option.some.inj first
    rw [reason] at decided
    cases decided
  obtain ⟨_, _, joint⟩ := List.isChain_append.mp isRoute.leads
  have leads := joint _ (List.getLast?_eq_some_getLast nonempty) pivot.atom rfl
  have before := List.getLast_mem nonempty
  obtain ⟨again, known, literal, reasonAgain, storedAgain, member, same⟩ := leads.occurs
  rw [reason] at reasonAgain
  cases reasonAgain
  obtain rfl := Option.some.inj (stored.symm.trans storedAgain)
  refine ⟨literal, member, ?_, ?_⟩
  · rintro again
    rw [← same, again] at before
    exact absent before
  · rw [same]
    exact List.mem_append_left _ before

/-- What is resolved stays a cut. -/
theorem Cut.reduces (punctual : origin.Punctual solver) (positive : 0 < solver.trail.level)
    (cut : solver.Cut conflict clause) (conflicting : solver.Conflicting clause)
    (reduces : solver.Reduces clause next) : solver.Cut conflict next := by
  obtain ⟨cause, pivot, rfl, isPivot⟩ := punctual.pivot positive conflicting cut.current reduces
  obtain ⟨other, otherMember, different, otherCurrent, precedes⟩ := isPivot.another
  have apart : ∀ literal ∈ clause, literal ≠ pivot → literal.atom ≠ pivot.atom :=
    fun literal member => (conflicting.falsified _ member).atom_ne
      (conflicting.falsified _ isPivot.member)
  have kept : ∀ literal ∈ clause, literal ≠ pivot → literal ∈ clause.resolve cause pivot :=
    fun literal member different => mem_resolve_of_ne (.inl member) (apart literal member different)
  constructor
  · exact ⟨other, kept other otherMember different, otherCurrent⟩
  · intro route isRoute
    obtain ⟨literal, member, inside⟩ := cut.met route isRoute
    by_cases same : literal = pivot
    · subst same
      obtain ⟨former, formerMember, formerApart, formerInside⟩ := isPivot.met isRoute inside
      exact ⟨former, mem_resolve_of_ne (.inr formerMember) formerApart, formerInside⟩
    · exact ⟨literal, kept literal member same, inside⟩
  · intro point isPoint literal member current different
    -- Were the pivot an implication point, the other literal would lead around it.
    have passable : pivot.atom ≠ point := by
      rintro rfl
      obtain ⟨last, lastMember, around⟩ := cut.around _ isPoint other otherMember otherCurrent
        (apart other otherMember ‹_›)
      exact punctual.not_around positive isPoint otherCurrent precedes lastMember around
    rcases (Clause.mem_resolve.mp member).1 with former | added
    · exact cut.around point isPoint literal former current different
    · obtain ⟨key, reason, stored⟩ := isPivot.reason
      obtain ⟨last, lastMember, around⟩ :=
        cut.around point isPoint pivot isPivot.member isPivot.current passable
      have leads : solver.Leads literal.atom pivot.atom :=
        ⟨current, isPivot.current, key, cause, literal, reason, stored, added, rfl⟩
      exact ⟨last, lastMember, around.head ⟨leads, passable⟩⟩

theorem Cut.reduction (punctual : origin.Punctual solver) (positive : 0 < solver.trail.level)
    (cut : solver.Cut conflict clause) (conflicting : solver.Conflicting clause) {final : Clause}
    (reduction : solver.Reduction clause final) : solver.Cut conflict final := by
  induction reduction with
  | refl => exact cut
  | tail onward reduces induction =>
      have conflicting := punctual.valid.reasoned.reduction punctual.sound conflicting onward
      exact induction.reduces punctual positive conflicting reduces

omit [TheoryAtom τ] in
/-- The clause that is violated is a cut itself. -/
theorem cut_self (current : ∃ literal ∈ clause, solver.Current literal.atom) :
    solver.Cut clause clause where
  current := current
  met route isRoute := by
    obtain ⟨literal, member, last⟩ := isRoute.ends
    exact ⟨literal, member, List.mem_of_getLast? last⟩
  around _ _ literal member _ _ := ⟨literal, member, .refl⟩

/-- Where the analysis stops, the clause has one literal of the current level, and that is
over the first implication point. -/
theorem Cut.firstPoint (punctual : origin.Punctual solver) (positive : 0 < solver.trail.level)
    (cut : solver.Cut conflict clause) (conflicting : solver.Conflicting clause)
    {result : Except SolverError Clause} (settles : solver.Settles clause result) :
    result = .ok clause ∧ ∃ literal,
      (∀ other, other ∈ clause ∧ solver.Current other.atom ↔ other = literal) ∧
        solver.FirstPoint conflict literal.atom := by
  obtain ⟨present, member, current⟩ := cut.current
  cases settles with
  | empty bare =>
      rw [Clause.isEmpty_of_mem member] at bare
      cases bare
  | groundless _ groundless =>
      have zero := Option.some.inj (current.symm.trans (groundless present member).1)
      omega
  | deadlocked deadlocked => exact absurd deadlocked.evaluated punctual.plain.unevaluated
  | usable nonempty answer jumps =>
      obtain ⟨top, answerAgain, tops⟩ :=
        Trail.topLiterals_spec nonempty fun _ => conflicting.valued
      obtain rfl := Except.ok.inj (answerAgain.symm.trans answer)
      have level := level_tops punctual.sound tops member current
      obtain ⟨_, literal, single⟩ := punctual.plain.single tops jumps
      have only : ∀ other, other ∈ clause ∧ solver.Current other.atom ↔ other = literal := by
        intro other
        rw [← List.mem_singleton, ← single, tops.mem, level]
        exact Iff.rfl
      obtain ⟨inside, own⟩ := (only literal).mpr rfl
      refine ⟨rfl, literal, only, ⟨own, fun route isRoute => ?_⟩, fun point isPoint different => ?_⟩
      · obtain ⟨other, otherMember, passed⟩ := cut.met route isRoute
        rwa [(only other).mp ⟨otherMember, isRoute.current _ passed⟩] at passed
      · obtain ⟨entry, found, _⟩ := Trail.level?_eq_some.mp own
        obtain ⟨pointEntry, pointFound, _⟩ := Trail.level?_eq_some.mp isPoint.current
        obtain ⟨last, lastMember, around⟩ :=
          cut.around point isPoint literal inside own different.symm
        refine ⟨pointEntry, entry, pointFound, found, ?_⟩
        have distinct : pointEntry.position ≠ entry.position := fun same =>
          different (punctual.sound.distinct _ _ _ _ pointFound found same)
        by_contra late
        exact punctual.not_around positive isPoint own
          ⟨entry, pointEntry, found, pointFound, by omega⟩ lastMember around

end Solver

open Solver

variable {τ : Type} [TheoryAtom τ] {fuel : Nat} {origin state : Solver τ} {conflict : ClauseKey}

/-! ## The conflicts of a search -/

theorem RoundBegins.punctual (begins : RoundBegins fuel origin state)
    (begun : origin.Punctual origin) :
    origin.Punctual state := by
  induction begins with
  | first => exact begun.told (told_status origin .solving)
  | next _ went punctual => exact (punctual.searchRound fuel _).of_ok went

/-- The conflicts that a search analyses clash at the current level. -/
theorem Clocked.clashes (clocked : Clocked fuel origin (.explain conflict) state)
    (begun : origin.Punctual origin) : origin.Punctual state ∧ state.Clashes conflict := by
  rcases clocked with _ | _ | ⟨clocked, calls⟩
  cases calls with
  | explain =>
      rcases clocked with _ | _ | ⟨clocked, calls⟩
      cases calls with
      | resolveConflict early violated =>
          have punctual := clocked.roundBegins.punctual begun
          obtain ⟨punctual, clashes⟩ := ((punctual.counting _).propagate fuel).of_ok violated
          exact ⟨punctual.counting _, clashes⟩

namespace Solver

omit [TheoryAtom τ] in
/-- An analysis with enough fuel has the answer of every analysis that answers. -/
private theorem ends_explain_of_ok {explanation : Clause} {rest : Solver τ}
    (explains : explain (state.trail.size + 1) conflict state = .ok explanation rest)
    (steps : Nat) :
    Ends (explain steps conflict) state (fun answer _ => answer = explanation)
      fun fault _ => fault = .outOfFuel ∧ steps ≤ state.trail.size := by
  unfold Ends
  rcases Nat.lt_or_ge state.trail.size steps with more | few
  · rcases refuels_explain (Nat.succ_le_of_lt more) conflict state with same | ⟨spent, exhausted⟩
    · rw [same, explains]
    · rw [explains] at exhausted
      cases exhausted
  · rcases refuels_explain (Nat.le_succ_of_le few) conflict state with same | ⟨spent, exhausted⟩
    · rw [← same, explains]
    · rw [exhausted]
      exact ⟨rfl, few⟩

/-- Without theory atoms every conflict that a search meets above level zero is explained by
a clause with one literal of the current level, which is over the first implication point.
There is a route from the choice of the level to the conflict, and all such routes pass
through this point. -/
theorem explains_at_first_point {configuration : Configuration}
    (stated : Stated configuration origin) (atomless : origin.theoryAtoms = #[])
    (clocked : Clocked fuel origin (.explain conflict) state) (positive : 0 < state.trail.level) :
    ∃ clause explanation literal, state.clauses.clause? conflict = some clause ∧
      (∀ steps, Ends (explain steps conflict) state (fun answer _ => answer = explanation)
        fun fault _ => fault = .outOfFuel ∧ steps ≤ state.trail.size) ∧
      (∀ other, other ∈ explanation ∧ state.Current other.atom ↔ other = literal) ∧
      (∃ route, state.Route clause route) ∧ state.FirstPoint clause literal.atom := by
  obtain ⟨punctual, clashes⟩ := clocked.clashes (punctual_stated stated atomless)
  obtain ⟨clause, stored, falsified, first, member, _, _, _, current, _⟩ := clashes.2 positive
  have conflicting : state.Conflicting clause := ⟨Assignment.derives_stored stored, falsified⟩
  have cut : state.Cut clause clause := cut_self ⟨first, member, current⟩
  obtain ⟨final, result, reduction, settles, rest, _, answers⟩ :=
    punctual.valid.reasoned.explain punctual.sound stored falsified (Nat.lt_succ_self _)
  obtain ⟨rfl, literal, only, point⟩ :=
    (cut.reduction punctual positive conflicting reduction).firstPoint punctual positive
      (punctual.valid.reasoned.reduction punctual.sound conflicting reduction) settles
  refine ⟨clause, final, literal, stored, ends_explain_of_ok answers, only, ?_, point⟩
  obtain ⟨entry, found, level⟩ := Trail.level?_eq_some.mp current
  obtain ⟨leader, leaderCurrent, decided, allowed, passes⟩ :=
    punctual.reached positive found level fun _ _ _ _ => trivial
  obtain ⟨route, begins, ends, chain, _⟩ :=
    Assignment.listed_of_passes (fun _ => True) allowed passes
  exact ⟨route, ⟨leader, begins, leaderCurrent, decided⟩, chain, first, member, ends⟩

end Solver

/-! ## A point after the choice -/

/-- Once `p` is false, `q` is true, and then `r` has to be both true and false. -/
def funnelFormula : Solver Empty :=
  (((((Solver.new {}).withVariable "p" .boolean).withVariable "q" .boolean).withVariable
    "r" .boolean |>.withClause (Clause.ofList [⟨.var 0, true⟩, ⟨.var 1, true⟩])).withClause
      (Clause.ofList [⟨.var 1, false⟩, ⟨.var 2, true⟩])).withClause
        (Clause.ofList [⟨.var 1, false⟩, ⟨.var 2, false⟩])

theorem stated_funnelFormula : Stated {} funnelFormula := by
  refine .withClause (.withClause (.withClause (.withVariable (.withVariable (.withVariable .new
    ?_ _) ?_ _) ?_ _) ?_) ?_) ?_
  all_goals decide +kernel

/-- What is left after the first round of its search, in which `p` is decided. -/
def funnelRound : Solver Empty :=
  left (Solver.searchRound 10 0) { funnelFormula with status := .solving }

/-- The conflict that the second round of its search finds. -/
def funnelMeet : Solver Empty :=
  Solver.enteringConflict (left (Solver.propagate 10) (Solver.enteringRound 0 funnelRound))

/-- All of this goes through `q`, and so the analysis stops at `q` and not at the choice. -/
theorem funnelFormula_point : ∃ clause,
    Clocked 10 funnelFormula (.explain 2) funnelMeet ∧ 0 < funnelMeet.trail.level ∧
      funnelMeet.clauses.clause? 2 = some clause ∧ (∃ route, funnelMeet.Route clause route) ∧
        funnelMeet.FirstPoint clause (.var 1) ∧
          answer? (Solver.explain 10 2) funnelMeet = some (Clause.ofList [⟨.var 1, false⟩]) := by
  have went : answer? (Solver.searchRound 10 0)
      { funnelFormula with status := .solving } = some none := by decide +kernel
  have early : Solver.isTimeUp (Solver.enteringRound 0 funnelRound) = false := by
    decide +kernel
  have found : answer? (Solver.propagate 10) (Solver.enteringRound 0 funnelRound) =
      some (some 2) := by decide +kernel
  have level : funnelMeet.trail.level = 1 := by decide +kernel
  have positive : 0 < funnelMeet.trail.level := by omega
  have explains : answer? (Solver.explain 10 2) funnelMeet =
      some (Clause.ofList [⟨.var 1, false⟩]) := by decide +kernel
  have current : funnelMeet.trail.level? (.var 1) = some 1 := by decide +kernel
  have member : (⟨.var 1, false⟩ : Literal) ∈ Clause.ofList [⟨.var 1, false⟩] := by
    decide +kernel
  have begins : RoundBegins 10 funnelFormula funnelRound :=
    .next (.first stated_funnelFormula.ready.unsettled) (ok_of_answer went)
  have met : Clocked 10 funnelFormula (.explain 2) funnelMeet :=
    .call (.call (.round begins 0) (.resolveConflict early (ok_of_answer found))) .explain
  obtain ⟨clause, explanation, literal, stored, ends, only, route, point⟩ :=
    Solver.explains_at_first_point stated_funnelFormula rfl met positive
  obtain rfl := (ends 10).of_ok (ok_of_answer explains)
  have own : funnelMeet.Current (.var 1) := by
    rw [Assignment.Current, level]
    exact current
  rw [← (only ⟨.var 1, false⟩).mp ⟨member, own⟩] at point
  exact ⟨clause, met, positive, stored, route, point, explains⟩

end ModelSearch
