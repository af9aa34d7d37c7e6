import ModelSearch.Proofs.Operations.AssignmentUpdates

/-!
# Decisions take the most urgent variable

Whatever was asked of a solver before, a decision goes to a rational variable if one
lacks a value, else to a Boolean one, and of these to the variable that was added first.
The queue may be full of stale tickets by then: a variable leaves it when it gets a value
and is pushed anew when the value is taken back.
-/

namespace ModelSearch

variable {τ : Type}

namespace Solver

variable {solver : Solver τ}

/-! ## The most urgent variable -/

/-- The variable exists and has no value. -/
def Undecided (solver : Solver τ) (key : VariableKey) (known : Variable) : Prop :=
  solver.vars.get? key = some known ∧ solver.trail.get? (.var key) = none

/-- Of the variables without a value it is the least of its sort, and it is Boolean only if
all of them are. -/
structure Urgent (solver : Solver τ) (key : VariableKey) (known : Variable) : Prop where
  undecided : solver.Undecided key known
  rational : known.sort = .boolean → ∀ other entry, solver.Undecided other entry →
    entry.sort = .boolean
  least : ∀ other entry, solver.Undecided other entry → entry.sort = known.sort → key ≤ other

theorem Undecided.queued (coherent : solver.toAssignment.Coherent) {key : VariableKey}
    {known : Variable} (undecided : solver.Undecided key known) :
    solver.vars.queue.contains key = true := by
  refine (coherent.vars.queued key).mpr ⟨(Array.getElem?_eq_some_iff.mp undecided.1).1, ?_⟩
  rw [Trail.value?, undecided.2]
  rfl

theorem Undecided.rank {key : VariableKey} {known : Variable}
    (undecided : solver.Undecided key known) :
    solver.vars.rank key = some known.sort.priority := by
  rw [VariableStore.rank, undecided.1]
  rfl

/-- The queue yields the most urgent variable. -/
theorem urgent_of_popped (coherent : solver.toAssignment.Coherent)
    (ranked : solver.vars.Ranked) {key : VariableKey} {known : Variable}
    (popped : solver.vars.queue.pop.1 = some key) (undecided : solver.Undecided key known) :
    solver.Urgent key known := by
  have before : ∀ other entry, solver.Undecided other entry → other ≠ key →
      entry.sort.priority < known.sort.priority ∨
        entry.sort.priority = known.sort.priority ∧ key < other := by
    intro other entry waiting different
    obtain ⟨high, low, own, others, order⟩ := LazyQueue.Ranked.before_of_pop ranked
      coherent.vars.queue popped (waiting.queued coherent) different
    obtain rfl := Option.some.inj (undecided.rank.symm.trans own)
    obtain rfl := Option.some.inj (waiting.rank.symm.trans others)
    exact order
  refine ⟨undecided, fun boolean other entry waiting => ?_, fun other entry waiting same => ?_⟩
  · by_cases here : other = key
    · subst here
      obtain rfl := Option.some.inj (undecided.1.symm.trans waiting.1)
      exact boolean
    · have order := before other entry waiting here
      rw [boolean] at order
      cases sort : entry.sort with
      | boolean => rfl
      | rational =>
          rw [sort] at order
          simp [VariableSort.priority] at order
  · by_cases here : other = key
    · exact Nat.le_of_eq here.symm
    · rcases before other entry waiting here with less | ⟨_, below⟩
      · exact absurd (same ▸ less) (Nat.lt_irrefl _)
      · exact Nat.le_of_lt below

end Solver

variable [TheoryAtom τ]

open Solver

/-- A decision is refused only if every variable has a value.  Otherwise it opens a level
for the most urgent variable, with the default value of its sort, and leaves all other
entries as they are. -/
theorem Reached.decides_urgently {allowed : Solver τ → Operation τ → Prop}
    {configuration : Configuration} {solver : Solver τ}
    (reached : Reached allowed configuration solver) :
    ((∃ rest, makeDecision solver = .ok none rest) ↔ solver.AllValued) ∧
      (¬solver.AllValued → ∃ key known value rest, solver.Urgent key known ∧
        (known.sort = .boolean ∧ value = .boolean false ∨
          known.sort = .rational ∧ value = .rational 0.0) ∧
        makeDecision solver = .ok (some (.var key, value)) rest ∧
        rest.trail.level = solver.trail.level + 1 ∧
        ∀ atom, rest.trail.get? atom =
          if atom = .var key then
            some ⟨value, solver.trail.level + 1, .decided, solver.trail.position⟩
          else solver.trail.get? atom) := by
  have coherent := reached.coherent.assignment
  have spent := allValued_iff coherent.vars
  cases possible : solver.vars.canDecide with
  | false =>
      have valued := spent.mpr possible
      exact ⟨⟨fun _ => valued, fun _ => ⟨solver, makeDecision_of_spent possible⟩⟩,
        fun unvalued => absurd valued unvalued⟩
  | true =>
      have unvalued : ¬solver.AllValued := fun valued => by
        rw [spent.mp valued] at possible
        cases possible
      obtain ⟨_, rest, result, key, known, popped, rfl, decided⟩ :=
        (ends_popDecision coherent possible).answer
      have level : solver.trail.openLevel.level = solver.trail.level + 1 :=
        coherent.trail.level_openLevel
      have trail : rest.trail = (solver.chosen (.var key) known.sort.defaultValue).trail :=
        by rw [decided.assignment]
      refine ⟨⟨?_, fun valued => absurd valued unvalued⟩, fun _ => ?_⟩
      · rintro ⟨_, refused⟩
        rw [result] at refused
        cases refused
      · refine ⟨key, known, known.sort.defaultValue, rest, ?_, ?_, result, ?_, fun atom => ?_⟩
        · exact urgent_of_popped coherent reached.ranked popped
            ⟨decided.present, decided.free.unvalued⟩
        · cases known.sort with
          | boolean => exact .inl ⟨rfl, rfl⟩
          | rational => exact .inr ⟨rfl, rfl⟩
        · rw [trail, chosen, level_given]
          exact level
        · rw [trail, get?_chosen, level]
          simp only [eq_comm (a := atom)]

/-! ## A worn queue -/

/-- Rational variables are queued and given values over and over. -/
def wornQueue : List (Operation Empty) :=
  [.addVariable "p" .boolean, .addVariable "x" .rational, .addVariable "q" .boolean,
    .addVariable "y" .rational, .decide (.var 1) (.rational 1.5),
    .decide (.var 0) (.boolean true), .retreat 0, .makeDecision, .retreat 0, .makeDecision]

def wornSolver : Solver Empty := left (Operation.performAll wornQueue) (Solver.new {})

theorem reached_wornSolver : Reached (fun _ _ => True) {} wornSolver := by
  have answered : answer? (Operation.performAll wornQueue) (Solver.new {}) = some () := by
    decide +kernel
  exact Reached.new.answeredAll (fun _ _ _ => trivial) (ok_of_answer answered)

/-- Of the three variables without a value the last is rational, and is decided. -/
theorem wornSolver_decides : Reached (fun _ _ => True) {} wornSolver ∧ ¬wornSolver.AllValued ∧
    ∃ known value rest, wornSolver.Urgent 3 known ∧
      makeDecision wornSolver = .ok (some (.var 3, value)) rest := by
  have unvalued : ¬wornSolver.AllValued := fun valued => by
    have lacking : 3 < wornSolver.vars.size ∧ (wornSolver.trail.get? (.var 3)).isSome = false := by
      decide +kernel
    rw [valued 3 lacking.1] at lacking
    cases lacking.2
  have yields : (answer? makeDecision wornSolver).map (Option.map Prod.fst) =
      some (some (.var 3)) := by decide +kernel
  obtain ⟨key, known, value, rest, urgent, _, result, _⟩ :=
    reached_wornSolver.decides_urgently.2 unvalued
  obtain rfl : key = 3 := by
    rw [answer?, result] at yields
    exact Atom.var.inj (Option.some.inj (Option.some.inj yields))
  exact ⟨reached_wornSolver, unvalued, known, value, rest, urgent, result⟩

end ModelSearch
