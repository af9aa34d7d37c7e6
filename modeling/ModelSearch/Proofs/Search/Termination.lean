import Mathlib.Data.Finset.Lattice.Fold
import ModelSearch.Proofs.Actions.Fuel
import ModelSearch.Proofs.Search.Rounds

/-!
# When a search ends

Between two splits a search makes fewer rounds than there are scores.  So with a
bound on the number of splits there is one on the fuel, and conversely a search
that ends has made no more splits than one of its finitely many prefixes.
-/

namespace ModelSearch.Solver

variable {τ : Type} [TheoryAtom τ] {rules : Rules τ} {solver : Solver τ}

/-- With this much fuel the search ends with a report or an error. -/
def EndsWithin (solver : Solver τ) (fuel : Nat) : Prop :=
  Ends (solve fuel) solver (fun _ _ => True) fun fault _ => ∃ error, fault = .error error

/-- The search ends with a report or an error. -/
def Terminates (solver : Solver τ) : Prop := ∃ fuel, solver.EndsWithin fuel

/-- The number of splits that a search makes with this much fuel. -/
def splitsWithin (solver : Solver τ) (fuel : Nat) : Nat := (left (solve fuel) solver).splits

theorem EndsWithin.not_outOfFuel {fuel : Nat} (ends : solver.EndsWithin fuel) (rest : Solver τ) :
    solve fuel solver ≠ .error .outOfFuel rest := by
  intro exhausted
  obtain ⟨error, absurdity⟩ := Ends.of_error ends exhausted
  cases absurdity

/-- More fuel makes no difference to a search that ends. -/
theorem EndsWithin.solve_eq {fuel more : Nat} (ends : solver.EndsWithin fuel)
    (enough : fuel ≤ more) : solve more solver = solve fuel solver :=
  solve_of_le enough ends.not_outOfFuel

omit [TheoryAtom τ] in
theorem capacity_lt_scoreLimit (solver : Solver τ) : solver.capacity < solver.scoreLimit :=
  Nat.lt_of_lt_of_le (Nat.lt_succ_self _) (Nat.le_self_pow (Nat.succ_ne_zero _) _)

/-- Fuel for every score between any two splits is enough. -/
theorem endsWithin_of_splits
    (obeying : ∀ reached : Solver τ, solver.Valid rules reached → reached.Obeys rules)
    (valid : solver.Valid rules solver) (unsettled : settled? solver = none)
    (orderly : solver.Orderly rules) {most fuel : Nat}
    (enough : solver.scoreLimit * (most + 1) < fuel)
    (bounded : ∀ rest, Steps rules true solver rest →
      solve fuel solver = .error .outOfFuel rest → rest.splits ≤ most) :
    solver.EndsWithin fuel := by
  have runs := runs_solve obeying valid unsettled fuel
  unfold Runs Ends at runs
  unfold EndsWithin Ends
  cases result : solve fuel solver with
  | ok report rest => trivial
  | error fault rest =>
      rw [result] at runs
      cases fault with
      | abort abort => exact absurd orderly runs
      | error error => exact ⟨error, rfl⟩
      | outOfFuel =>
          obtain ⟨steps, ⟨reached, there, ⟨absurdity, _⟩ | ⟨_, long⟩⟩ | ⟨_, spent⟩⟩ := runs
          · cases absurdity
          · -- The trail of a solver that was reached is too short.
            have short := (Steps.orderly there valid orderly).sorted.size_le
            rw [(Steps.valid there valid).continues.capacity] at short
            have limit := solver.capacity_lt_scoreLimit
            rw [Nat.mul_succ] at enough
            omega
          · have sum := spent orderly
            have few := Nat.mul_le_mul_left solver.scoreLimit (bounded rest steps result)
            rw [Nat.mul_succ] at enough
            omega

/-- A search ends if and only if the number of its splits is bounded. -/
theorem terminates_iff
    (obeying : ∀ reached : Solver τ, solver.Valid rules reached → reached.Obeys rules)
    (valid : solver.Valid rules solver) (unsettled : settled? solver = none)
    (orderly : solver.Orderly rules) :
    solver.Terminates ↔ ∃ most, ∀ fuel, solver.splitsWithin fuel ≤ most := by
  constructor
  · rintro ⟨last, ends⟩
    -- Searches with more fuel make the splits of the one that ends.
    refine ⟨(Finset.range (last + 1)).sup solver.splitsWithin, fun fuel => ?_⟩
    rcases Nat.lt_or_ge last fuel with more | less
    · have same : solver.splitsWithin fuel = solver.splitsWithin last := by
        unfold splitsWithin left
        rw [ends.solve_eq (Nat.le_of_lt more)]
      rw [same]
      exact Finset.le_sup (Finset.mem_range.mpr (Nat.lt_succ_self last))
    · exact Finset.le_sup (Finset.mem_range.mpr (Nat.lt_succ_of_le less))
  · rintro ⟨most, bounded⟩
    refine ⟨_, endsWithin_of_splits obeying valid unsettled orderly
      (Nat.lt_succ_self (solver.scoreLimit * (most + 1))) fun rest _ exhausted => ?_⟩
    have few := bounded (solver.scoreLimit * (most + 1) + 1)
    unfold splitsWithin left at few
    rwa [exhausted] at few

end ModelSearch.Solver
