import ModelSearch.Solver.State

/-!
# How an action ends

`Ends action solver after broken` says what holds of the answer and the solver
left behind, and what holds if the action ends in a fault.  The equations open
an action step by step, so a statement about it follows its own text.
-/

namespace ModelSearch

variable {τ α β : Type}

theorem get_bind (next : Solver τ → SolverM τ α) (solver : Solver τ) :
    (get >>= next) solver = next solver solver := rfl

theorem bind_eq {action : SolverM τ α} {next : α → SolverM τ β} {solver rest : Solver τ}
    {answer : α} (result : action solver = .ok answer rest) :
    (action >>= next) solver = next answer rest := by
  show EStateM.bind action next solver = _
  unfold EStateM.bind
  rw [result]

theorem bind_eq_error {action : SolverM τ α} {next : α → SolverM τ β} {solver rest : Solver τ}
    {fault : Fault} (result : action solver = .error fault rest) :
    (action >>= next) solver = .error fault rest := by
  show EStateM.bind action next solver = _
  unfold EStateM.bind
  rw [result]

/-- The action ends with an answer as in `after`, or with a fault as in `broken`. -/
def Ends (action : SolverM τ α) (solver : Solver τ) (after : α → Solver τ → Prop)
    (broken : Fault → Solver τ → Prop) : Prop :=
  match action solver with
  | .ok answer rest => after answer rest
  | .error fault rest => broken fault rest

section Equations

variable {solver : Solver τ} {after : α → Solver τ → Prop} {broken : Fault → Solver τ → Prop}

@[simp] theorem ends_pure (answer : α) :
    Ends (pure answer) solver after broken ↔ after answer solver := Iff.rfl

@[simp] theorem ends_throw (fault : Fault) :
    Ends (throw fault) solver after broken ↔ broken fault solver := Iff.rfl

@[simp] theorem ends_get {after : Solver τ → Solver τ → Prop} :
    Ends get solver after broken ↔ after solver solver := Iff.rfl

@[simp] theorem ends_modify {after : PUnit → Solver τ → Prop} (update : Solver τ → Solver τ) :
    Ends (modify update) solver after broken ↔ after ⟨⟩ (update solver) := Iff.rfl

@[simp] theorem ends_bind (first : SolverM τ α) (next : α → SolverM τ β)
    {after : β → Solver τ → Prop} :
    Ends (first >>= next) solver after broken ↔
      Ends first solver (fun answer rest => Ends (next answer) rest after broken) broken := by
  unfold Ends
  cases result : first solver with
  | ok answer rest => rw [bind_eq result]
  | error fault rest => rw [bind_eq_error result]

theorem ends_get_bind {next : Solver τ → SolverM τ α} :
    Ends (get >>= next) solver after broken ↔ Ends (next solver) solver after broken := Iff.rfl

/-- An action whose outcome is known. -/
theorem ends_known {first : SolverM τ α} {next : α → SolverM τ β} {answer : α} {rest : Solver τ}
    {after : β → Solver τ → Prop} (result : first solver = .ok answer rest) :
    Ends (first >>= next) solver after broken ↔ Ends (next answer) rest after broken := by
  rw [ends_bind, Ends, result]

/-- An action that is known to end in a fault. -/
theorem ends_broken {first : SolverM τ α} {next : α → SolverM τ β} {fault : Fault}
    {rest : Solver τ} {after : β → Solver τ → Prop} (result : first solver = .error fault rest) :
    Ends (first >>= next) solver after broken ↔ broken fault rest := by
  rw [ends_bind, Ends, result]

end Equations

section Rules

variable {action : SolverM τ α} {solver rest : Solver τ} {after later : α → Solver τ → Prop}
  {broken worse : Fault → Solver τ → Prop}

theorem Ends.mono (ends : Ends action solver after broken)
    (answered : ∀ answer rest, after answer rest → later answer rest)
    (faulted : ∀ fault rest, broken fault rest → worse fault rest) :
    Ends action solver later worse := by
  unfold Ends at ends ⊢
  cases result : action solver with
  | ok answer rest =>
      rw [result] at ends
      exact answered answer rest ends
  | error fault rest =>
      rw [result] at ends
      exact faulted fault rest ends

theorem Ends.and (first : Ends action solver after broken)
    (second : Ends action solver later worse) :
    Ends action solver (fun answer rest => after answer rest ∧ later answer rest)
      fun fault rest => broken fault rest ∧ worse fault rest := by
  unfold Ends at first second ⊢
  cases result : action solver with
  | ok answer rest =>
      rw [result] at first second
      exact ⟨first, second⟩
  | error fault rest =>
      rw [result] at first second
      exact ⟨first, second⟩

theorem Ends.bind {next : α → SolverM τ β} {last : β → Solver τ → Prop}
    (ends : Ends action solver after broken)
    (answered : ∀ answer rest, after answer rest → Ends (next answer) rest last worse)
    (faulted : ∀ fault rest, broken fault rest → worse fault rest) :
    Ends (action >>= next) solver last worse :=
  (ends_bind action next).mpr (ends.mono answered faulted)

theorem Ends.of_ok {answer : α} (ends : Ends action solver after broken)
    (result : action solver = .ok answer rest) : after answer rest := by
  unfold Ends at ends
  rw [result] at ends
  exact ends

theorem Ends.of_error {fault : Fault} (ends : Ends action solver after broken)
    (result : action solver = .error fault rest) : broken fault rest := by
  unfold Ends at ends
  rw [result] at ends
  exact ends

/-- The answer is kept together with the run that gave it. -/
theorem Ends.traced (ends : Ends action solver after broken) :
    Ends action solver (fun answer rest => after answer rest ∧ action solver = .ok answer rest)
      broken := by
  unfold Ends at ends ⊢
  cases result : action solver with
  | ok answer rest =>
      rw [result] at ends
      exact ⟨ends, rfl⟩
  | error fault rest =>
      rw [result] at ends
      exact ends

/-- What an action does, if no fault is possible. -/
theorem Ends.answer (ends : Ends action solver after fun _ _ => False) :
    ∃ answer rest, action solver = .ok answer rest ∧ after answer rest := by
  unfold Ends at ends
  cases result : action solver with
  | ok answer rest =>
      rw [result] at ends
      exact ⟨answer, rest, rfl, ends⟩
  | error fault rest =>
      rw [result] at ends
      exact ends.elim

end Rules

/-- The answer an action gives, if it gives one. -/
def answer? (action : SolverM τ α) (solver : Solver τ) : Option α :=
  match action solver with
  | .ok answer _ => some answer
  | .error _ _ => none

/-- The fault an action ends in, if it ends in one. -/
def fault? (action : SolverM τ α) (solver : Solver τ) : Option Fault :=
  match action solver with
  | .ok _ _ => none
  | .error fault _ => some fault

/-- The solver an action leaves behind. -/
def left (action : SolverM τ α) (solver : Solver τ) : Solver τ :=
  match action solver with
  | .ok _ rest | .error _ rest => rest

/-- What holds however an action ends holds of the solver left behind. -/
theorem Ends.left {action : SolverM τ α} {solver : Solver τ} {holds : Solver τ → Prop}
    (ends : Ends action solver (fun _ rest => holds rest) fun _ rest => holds rest) :
    holds (left action solver) := by
  unfold Ends at ends
  unfold ModelSearch.left
  cases result : action solver with
  | ok answer rest =>
      rw [result] at ends
      exact ends
  | error fault rest =>
      rw [result] at ends
      exact ends

theorem ok_of_answer {action : SolverM τ α} {solver : Solver τ} {answer : α}
    (answered : answer? action solver = some answer) :
    action solver = .ok answer (left action solver) := by
  unfold answer? at answered
  unfold left
  cases result : action solver with
  | ok given rest =>
      rw [result] at answered
      rw [Option.some.inj answered]
  | error fault rest =>
      rw [result] at answered
      cases answered

theorem error_of_fault {action : SolverM τ α} {solver : Solver τ} {fault : Fault}
    (broken : fault? action solver = some fault) :
    action solver = .error fault (left action solver) := by
  unfold fault? at broken
  unfold left
  cases result : action solver with
  | ok answer rest =>
      rw [result] at broken
      cases broken
  | error given rest =>
      rw [result] at broken
      rw [Option.some.inj broken]

end ModelSearch
