import ModelSearch.Proofs.Actions.Outcomes
import ModelSearch.Solver.Search

/-!
# More fuel

Fuel only cuts a run short.  With more fuel an action does the same, unless it ran
out of fuel; so of all runs that end there is only one.
-/

namespace ModelSearch

variable {τ α β : Type}

/-- The second action does what the first one does, unless that runs out of fuel. -/
def Refuels (first second : SolverM τ α) : Prop :=
  ∀ solver, second solver = first solver ∨ ∃ rest, first solver = .error .outOfFuel rest

namespace Refuels

theorem refl (action : SolverM τ α) : Refuels action action := fun _ => .inl rfl

theorem throw (action : SolverM τ α) : Refuels (throw .outOfFuel) action :=
  fun solver => .inr ⟨solver, rfl⟩

theorem bind {first second : SolverM τ α} (refuels : Refuels first second)
    {next later : α → SolverM τ β} (goesOn : ∀ answer, Refuels (next answer) (later answer)) :
    Refuels (first >>= next) (second >>= later) := by
  intro solver
  rcases refuels solver with same | ⟨rest, exhausted⟩
  · cases result : first solver with
    | ok answer rest =>
        rw [bind_eq result, bind_eq (same.trans result)]
        exact goesOn answer rest
    | error fault rest =>
        rw [bind_eq_error result, bind_eq_error (same.trans result)]
        exact .inl rfl
  · exact .inr ⟨rest, bind_eq_error exhausted⟩

theorem after {first second : α → SolverM τ β} (action : SolverM τ α)
    (goesOn : ∀ answer, Refuels (first answer) (second answer)) :
    Refuels (action >>= first) (action >>= second) :=
  (refl action).bind goesOn

end Refuels

namespace Solver

/-! ## Explaining a conflict -/

theorem refuels_resolveToBackjump {fuel more : Nat} (enough : fuel ≤ more) (clause : Clause) :
    Refuels (τ := τ) (resolveToBackjump fuel clause) (resolveToBackjump more clause) := by
  induction fuel generalizing more clause with
  | zero => exact .throw _
  | succ fuel induction =>
      obtain ⟨more, rfl⟩ := Nat.exists_eq_add_of_le' (Nat.lt_of_lt_of_le (Nat.succ_pos _) enough)
      unfold resolveToBackjump
      split
      · exact .refl _
      · refine .after _ fun solver => .after _ fun top => ?_
        split
        · exact .refl _
        · split
          · refine .after _ fun cause => .after _ fun _ => ?_
            exact induction (Nat.le_of_succ_le_succ enough) _
          · exact .refl _

theorem refuels_explain {fuel more : Nat} (enough : fuel ≤ more) (key : ClauseKey) :
    Refuels (τ := τ) (explain fuel key) (explain more key) :=
  .after _ fun _ => .after _ fun _ =>
    (refuels_resolveToBackjump enough _).bind fun _ => .refl _

theorem refuels_resolveConflict {fuel more : Nat} (enough : fuel ≤ more) (conflict : ClauseKey) :
    Refuels (τ := τ) (resolveConflict fuel conflict) (resolveConflict more conflict) :=
  .after _ fun _ => (refuels_explain enough conflict).bind fun _ => .refl _

/-! ## Searching -/

variable [TheoryAtom τ]

theorem refuels_propagate {fuel more : Nat} (enough : fuel ≤ more) :
    Refuels (τ := τ) (propagate fuel) (propagate more) := by
  induction fuel generalizing more with
  | zero => exact .throw _
  | succ fuel induction =>
      obtain ⟨more, rfl⟩ := Nat.exists_eq_add_of_le' (Nat.lt_of_lt_of_le (Nat.succ_pos _) enough)
      have again := induction (Nat.le_of_succ_le_succ enough)
      unfold propagate
      refine .after _ fun size => .after _ fun _ => .after _ fun answer => ?_
      cases answer with
      | some conflict => exact .refl _
      | none =>
          refine .after _ fun longer => ?_
          split
          · exact again
          · refine .after _ fun answer => ?_
            cases answer with
            | some conflict => exact .refl _
            | none =>
                refine .after _ fun last => ?_
                split
                · exact .refl _
                · exact again

theorem refuels_searchRound {fuel more : Nat} (enough : fuel ≤ more) (time : Nat) :
    Refuels (τ := τ) (searchRound fuel time) (searchRound more time) := by
  unfold searchRound
  refine .after _ fun _ => .after _ fun solver => ?_
  split
  · exact .refl _
  · refine (refuels_propagate enough).bind fun answer => ?_
    cases answer with
    | some conflict => exact refuels_resolveConflict enough conflict
    | none => exact .refl _

theorem refuels_searchRounds {fuel more rounds longer : Nat} (enough : fuel ≤ more)
    (rounded : rounds ≤ longer) :
    Refuels (τ := τ) (searchRounds fuel rounds) (searchRounds more longer) := by
  induction rounds generalizing longer with
  | zero => exact .throw _
  | succ rounds induction =>
      obtain ⟨longer, rfl⟩ :=
        Nat.exists_eq_add_of_le' (Nat.lt_of_lt_of_le (Nat.succ_pos _) rounded)
      unfold searchRounds
      refine .after _ fun solver => (refuels_searchRound enough _).bind fun answer => ?_
      cases answer with
      | some report => exact .refl _
      | none => exact induction (Nat.le_of_succ_le_succ rounded)

theorem refuels_solve {fuel more : Nat} (enough : fuel ≤ more) :
    Refuels (τ := τ) (solve fuel) (solve more) := by
  unfold solve
  refine .after _ fun solver => ?_
  cases settled? solver with
  | some report => exact .refl _
  | none =>
      exact .after _ fun _ => (refuels_searchRounds enough enough).bind fun _ => .refl _

/-- A search that ends does the same with more fuel. -/
theorem solve_of_le {fuel more : Nat} (enough : fuel ≤ more) {solver : Solver τ}
    (ends : ∀ rest, solve fuel solver ≠ .error .outOfFuel rest) :
    solve more solver = solve fuel solver :=
  (refuels_solve enough solver).resolve_right (by
    rintro ⟨rest, exhausted⟩
    exact ends rest exhausted)

end Solver

end ModelSearch
