import ModelSearch.Proofs.Dimacs.Loading
import ModelSearch.Proofs.Events.Tallies
import ModelSearch.Proofs.Operations.Additions
import ModelSearch.Proofs.Search.Faults

/-!
# Requests from outside

A solver is asked to extend its formula, to load formula files, to take clauses of the theory
and to search, in any order and whatever it refused before.  What it is asked to add it adds as a
whole or refuses before it has done anything, so its stores fit together whenever it is asked.

Once a search has begun the formula is closed: what follows may derive clauses and learn some of
the theory, but variables, theory atoms and clauses of the formula stay as they are.
-/

namespace ModelSearch

variable {τ : Type} [TheoryAtom τ] {solver before after : Solver τ}

/-- A search whose clock shows these times at its rounds, and that has not reported yet if
they do not suffice. -/
def Solver.search (fuel : Nat) (times : List Nat) : SolverM τ (Option Report) := do
  match settled? (← get) with
  | some report => return some report
  | none =>
      beginSearch
      match ← clockedRounds fuel times with
      | none => return none
      | some report =>
          endSearch report
          return some report

omit [TheoryAtom τ] in
/-- What a solver is asked for from outside. -/
inductive Request (τ : Type) where
  | addVariable (name : String) (sort : VariableSort)
  | addBoolean (name : String)
  | addTheoryAtom (atom : τ)
  | addNegation (atom : Atom)
  | addClause (clause : Clause)
  | addLemma (clause : Clause)
  | load (document : Dimacs.Document)
  | solve (fuel : Nat)
  | search (fuel : Nat) (times : List Nat)

namespace Request

/-- Carries a request out. -/
def perform : Request τ → SolverM τ Unit
  | .addVariable name sort => discard (Solver.addVariable name sort)
  | .addBoolean name => discard (Solver.addBoolean name)
  | .addTheoryAtom atom => discard (Solver.addTheoryAtom atom)
  | .addNegation atom => discard (Solver.addNegation atom)
  | .addClause clause => discard (Solver.addClause clause)
  | .addLemma clause => discard (Solver.addLemma clause)
  | .load document => discard (Dimacs.load document)
  | .solve fuel => discard (Solver.solve fuel)
  | .search fuel times => discard (Solver.search fuel times)

omit [TheoryAtom τ] in
/-- A single thing is to be added. -/
def Adds : Request τ → Prop
  | .load _ | .solve _ | .search _ _ => False
  | _ => True

omit [TheoryAtom τ] in
/-- The solver is to search. -/
def Searches : Request τ → Prop
  | .solve _ | .search _ _ => True
  | _ => False

end Request

/-! ## Additions -/

/-- However it ends, the action has only made additions. -/
def Accrues {α : Type} (action : SolverM τ α) (solver : Solver τ) : Prop :=
  Ends action solver (fun _ rest => Relation.ReflTransGen Addition solver rest)
    fun _ rest => Relation.ReflTransGen Addition solver rest

section Accrues

variable {α β : Type} {action : SolverM τ α}

theorem Accrues.bind {next : α → SolverM τ β} (first : Accrues action solver)
    (goesOn : ∀ answer rest, Accrues (next answer) rest) : Accrues (action >>= next) solver := by
  refine Ends.bind first (fun answer rest additions => ?_) fun _ _ => id
  exact (goesOn answer rest).mono (fun _ _ => additions.trans) fun _ _ => additions.trans

theorem Accrues.pure (answer : α) : Accrues (Pure.pure answer) solver := .refl

theorem accrues_get : Accrues (get : SolverM τ (Solver τ)) solver := .refl

theorem accrues_throw (fault : Fault) : Accrues (throw fault : SolverM τ α) solver := .refl

theorem accrues_notice {event : Event} (notice : event.notice?.isSome = true) :
    Accrues (Solver.emit event) solver := .single (.notice notice)

theorem accrues_of_grants
    (grants : Solver.Grants action solver fun _ rest => Addition solver rest) :
    Accrues action solver := by
  refine Ends.mono grants (fun _ _ => .single) ?_
  rintro _ _ ⟨-, rfl⟩
  exact .refl

end Accrues

/-- What is asked to be added is added, or refused before anything is done. -/
theorem Request.grants (request : Request τ) (adds : request.Adds) (solver : Solver τ) :
    Solver.Grants request.perform solver fun _ rest => Addition solver rest := by
  cases request with
  | addVariable name sort =>
      refine ends_discard.mpr ((Solver.grants_addVariable name sort).imp ?_)
      rintro _ _ ⟨input, unused, rfl⟩
      exact .withVariable input unused
  | addBoolean name =>
      refine ends_discard.mpr ((Solver.grants_addBoolean name).imp ?_)
      rintro _ _ ⟨input, unused, rfl⟩
      exact .withVariable input unused
  | addTheoryAtom atom =>
      refine ends_discard.mpr ((Solver.grants_addTheoryAtom atom).imp ?_)
      rintro _ _ ⟨input, known, rfl⟩
      exact .withTheoryAtom input known
  | addNegation atom =>
      refine ends_discard.mpr ((Solver.grants_addNegation atom).imp ?_)
      rintro _ _ ⟨_, input, known, rfl⟩
      exact .withTheoryAtom input known
  | addClause clause =>
      refine ends_discard.mpr ((Solver.grants_addClause clause).imp ?_)
      rintro _ _ ⟨input, fitting, rfl⟩
      exact .withClause input fitting
  | addLemma clause =>
      refine ends_discard.mpr ((Solver.grants_addLemma clause).imp ?_)
      rintro _ _ ⟨fitting, rfl⟩
      exact .withLemma fitting
  | load | solve | search => exact adds.elim

namespace Dimacs

theorem accrues_declare (loading : Loading) (number : Nat) :
    Accrues (declare loading number) solver := by
  have grants := Request.grants (.addVariable (variableName number) .boolean) trivial solver
  exact .bind (ends_discard.mp (accrues_of_grants grants)) fun _ _ => .pure _

theorem accrues_declareFrom (loading : Loading) (first count : Nat) :
    Accrues (declareFrom loading first count) solver := by
  induction count generalizing loading first solver with
  | zero => exact .pure _
  | succ count induction => exact .bind (accrues_declare loading first) fun _ _ => induction _ _

theorem accrues_accept (loading : Loading) (number : Int) :
    Accrues (accept loading number) solver := by
  by_cases zero : number = 0
  · subst zero
    rw [accept_zero]
    have grants := Request.grants (.addClause (.ofList loading.pending.reverse)) trivial solver
    exact .bind (ends_discard.mp (accrues_of_grants grants)) fun _ _ => .pure _
  · rw [accept_literal loading zero]
    refine .bind ?_ fun _ _ => .pure _
    split
    · exact .pure _
    · exact accrues_declare loading _

theorem accrues_acceptAll (loading : Loading) (numbers : List Int) :
    Accrues (numbers.foldlM accept loading) solver := by
  induction numbers generalizing loading solver with
  | nil => exact .pure _
  | cons number numbers induction =>
      rw [List.foldlM_cons]
      exact .bind (accrues_accept loading number) fun _ _ => induction _

theorem accrues_numbers (document : Document) (loading : Loading) : Accrues (do
      let loading ← document.numbers.toList.foldlM accept loading
      match document.fault with
      | some error => throw (.error error)
      | none =>
          Solver.emit (.sizeRead (← get).vars.size loading.clauses)
          return loading.atoms) solver := by
  refine .bind (accrues_acceptAll loading _) fun loading rest => ?_
  cases document.fault with
  | some error => exact accrues_throw _
  | none => exact .bind accrues_get fun _ _ => .bind (accrues_notice rfl) fun _ _ => .pure _

/-- Loading makes additions, also if the document has a fault or is refused in part. -/
theorem accrues_load (document : Document) : Accrues (load document) solver := by
  unfold load
  cases document.header with
  | none => exact accrues_numbers document {}
  | some header =>
      refine .bind (accrues_notice rfl) fun _ _ => ?_
      exact .bind (accrues_declareFrom _ _ _) fun loading _ => accrues_numbers document loading

end Dimacs

/-! ## Searches -/

section Searches

variable {fuel : Nat} {may : Call → Solver τ → Prop} {related : Solver τ → Solver τ → Prop}

/-- The rounds of a clocked search that reports end with one that reports. -/
theorem RoundBegins.ended {origin rest : Solver τ} {times : List Nat} {report : Report}
    (begins : RoundBegins fuel origin solver)
    (reported : Solver.clockedRounds fuel times solver = .ok (some report) rest) :
    ∃ last time, RoundBegins fuel origin last ∧
      Solver.searchRound fuel time last = .ok (some report) rest := by
  induction times generalizing solver with
  | nil => cases reported
  | cons time times induction =>
      unfold Solver.clockedRounds at reported
      cases went : Solver.searchRound fuel time solver with
      | error fault broken =>
          rw [bind_eq_error went] at reported
          cases reported
      | ok answer middle =>
          rw [bind_eq went] at reported
          cases answer with
          | none => exact induction (begins.next went) reported
          | some given =>
              cases reported
              exact ⟨solver, time, begins, went⟩

theorem AcrossPlainCalls.clockedRounds (across : AcrossPlainCalls fuel may related)
    {origin : Solver τ}
    (allowed : ∀ {call state}, Clocked fuel origin call state → may call state)
    (begins : RoundBegins fuel origin solver) (times : List Nat) :
    Preserves (related solver) (Solver.clockedRounds fuel times) solver := by
  induction times generalizing solver with
  | nil => exact across.refl solver
  | cons time times induction =>
      unfold Solver.clockedRounds
      refine across.bind (across.searchRound (allowed (.round begins time))) ?_
      intro answer rest went
      cases answer with
      | some report => exact across.refl rest
      | none => exact induction (begins.next went)

/-- A clocked search that has begun goes on until it reports, or as long as the clock says. -/
theorem AcrossPlainCalls.untilTime (across : AcrossPlainCalls fuel may related)
    (allowed : ∀ {call state}, Clocked fuel solver call state → may call state)
    (unsettled : Solver.settled? solver = none) (times : List Nat) :
    Preserves (related { solver with status := .solving })
      (do
        match ← Solver.clockedRounds fuel times with
        | none => return none
        | some report =>
            Solver.endSearch report
            return some report)
      { solver with status := .solving } := by
  have first : RoundBegins fuel solver { solver with status := .solving } := .first unsettled
  refine across.bind (across.clockedRounds allowed first times) fun answer rest went => ?_
  cases answer with
  | none => exact across.refl rest
  | some report =>
      obtain ⟨last, time, begins, ended⟩ := first.ended went
      refine across.bind (across.plain (allowed (.ending begins ended)) trivial) ?_
      exact fun _ rest _ => across.refl rest

theorem AcrossPlainCalls.search (across : AcrossPlainCalls fuel may related)
    (allowed : ∀ {call state}, Clocked fuel solver call state → may call state)
    (times : List Nat) : Preserves (related solver) (Solver.search fuel times) solver := by
  unfold Solver.search
  refine ends_get_bind.mpr ?_
  cases unsettled : Solver.settled? solver with
  | some report => exact across.refl solver
  | none =>
      refine (ends_known rfl).mpr (across.after (across.closed solver (by decide)) ?_)
      exact across.untilTime allowed unsettled times

/-- Hooks that do not decide are not made to by a search. -/
theorem Clocked.passive {call : Call} {origin : Solver τ}
    (clocked : Clocked fuel origin call solver) (passive : origin.Passive) :
    call.Passive solver := by
  have passive_rounds {state : Solver τ} (begins : RoundBegins fuel origin state) : state.Passive :=
    Solver.passive_congr passive
      ((Solver.theoryAtoms_acrossBasicCalls fuel).roundBegins (fun _ => trivial) begins)
  induction clocked with
  | round begins time => exact ⟨nofun, fun _ => passive_rounds begins⟩
  | ending begins ended =>
      refine ⟨nofun, fun _ => Solver.passive_congr (passive_rounds begins) ?_⟩
      exact ((Solver.theoryAtoms_acrossBasicCalls fuel).plainCalls.searchRound trivial).of_ok ended
  | call _ calls induction => exact Solver.passive_calls induction calls

end Searches

namespace Solver

theorem alters_clockedRounds (coherent : solver.Coherent) (fuel : Nat) (times : List Nat) :
    Alters Rules.free true (clockedRounds fuel times) solver fun _ _ => True := by
  induction times generalizing solver with
  | nil => exact .pure trivial
  | cons time times induction =>
      unfold clockedRounds
      refine Alters.bind (alters_searchRound (heedful_free solver) coherent fuel time)
        fun answer middle changes _ => ?_
      cases answer with
      | some report => exact .pure trivial
      | none => exact induction (changes.coherent coherent)

theorem alters_search (coherent : solver.Coherent) (fuel : Nat) (times : List Nat) :
    Alters Rules.free true (search fuel times) solver fun _ _ => True := by
  unfold search
  rw [alters_get]
  cases settled? solver with
  | some report => exact .pure trivial
  | none =>
      have begun : Alters Rules.free true beginSearch solver fun _ rest => Told solver rest :=
        alters_status .solving
      refine Alters.bind begun fun _ _ first _ => ?_
      refine Alters.bind (alters_clockedRounds (first.coherent coherent) fuel times)
        fun answer _ _ _ => ?_
      cases answer with
      | none => exact .pure trivial
      | some report => exact Alters.bind (alters_endSearch report) fun _ _ _ _ => .pure trivial

omit [TheoryAtom τ] in
theorem closed_of_settled {report : Report} (settled : settled? solver = some report) :
    solver.status ≠ .input := by
  intro input
  rw [settled?, input] at settled
  cases settled

end Solver

namespace Request

/-- A search only makes changes. -/
theorem alters (request : Request τ) (searches : request.Searches) (coherent : solver.Coherent) :
    Preserves (Changes Rules.free true solver) request.perform solver := by
  cases request with
  | solve fuel =>
      exact (Alters.preserves (Solver.alters_solve (Solver.heedful_free solver) coherent fuel)
        fun _ => id).discard
  | search fuel times =>
      exact (Alters.preserves (Solver.alters_search coherent fuel times) fun _ => id).discard
  | _ => exact searches.elim

/-- Once a search was asked for, the formula is closed. -/
theorem closes (request : Request τ) (searches : request.Searches) (solver : Solver τ) :
    Preserves (fun rest => rest.status ≠ .input) request.perform solver := by
  cases request with
  | solve fuel =>
      refine Preserves.discard (ends_get_bind.mpr ?_)
      cases unsettled : Solver.settled? solver with
      | some report => exact Solver.closed_of_settled unsettled
      | none =>
          refine (ends_known rfl).mpr ?_
          have across := Solver.keepsAccount_acrossPlainCalls (τ := τ) False fuel
          exact (across.untilReport False.elim unsettled).imp fun _ accounts =>
            accounts.closed nofun
  | search fuel times =>
      refine Preserves.discard (ends_get_bind.mpr ?_)
      cases unsettled : Solver.settled? solver with
      | some report => exact Solver.closed_of_settled unsettled
      | none =>
          refine (ends_known rfl).mpr ?_
          have across := Solver.keepsAccount_acrossPlainCalls (τ := τ) False fuel
          exact (across.untilTime (fun _ => False.elim) unsettled times).imp fun _ accounts =>
            accounts.closed nofun
  | _ => exact searches.elim

/-- Counts and events keep step in a search. -/
theorem accounts (request : Request τ) (searches : request.Searches) (solver : Solver τ) :
    Preserves (Solver.KeepsAccount solver.Passive solver) request.perform solver := by
  cases request with
  | solve fuel =>
      exact ((Solver.keepsAccount_acrossPlainCalls solver.Passive fuel).solve fun passive =>
        ⟨nofun, fun _ => passive⟩).discard
  | search fuel times =>
      have across := Solver.keepsAccount_acrossPlainCalls (τ := τ) solver.Passive fuel
      exact (across.search Clocked.passive times).discard
  | _ => exact searches.elim

theorem accrues (request : Request τ) (idle : ¬request.Searches) (solver : Solver τ) :
    Accrues request.perform solver := by
  by_cases adds : request.Adds
  · exact accrues_of_grants (request.grants adds solver)
  · cases request with
    | load document => exact ends_discard.mpr (Dimacs.accrues_load document)
    | solve | search => exact absurd trivial idle
    | _ => exact absurd trivial adds

end Request

/-! ## What is served -/

/-- A request takes the solver from one state to the other, granted or not. -/
def Takes (before after : Solver τ) : Prop :=
  ∃ request : Request τ, ¬Aborts request.perform before ∧ left request.perform before = after

/-- The solver comes about from a new one by requests. -/
def Served (configuration : Configuration) (solver : Solver τ) : Prop :=
  Relation.ReflTransGen Takes (Solver.new configuration) solver

/-- A search has made changes and closed the formula, and has counted what it told. -/
structure Searched (before after : Solver τ) : Prop where
  changes : Changes Rules.free true before after
  closed : after.status ≠ .input
  accounts : Solver.KeepsAccount before.Passive before after

/-- A request makes additions or it searches. -/
theorem Takes.cases (takes : Takes before after) (coherent : before.Coherent) :
    Relation.ReflTransGen Addition before after ∨ Searched before after := by
  obtain ⟨request, performed, rfl⟩ := takes
  by_cases searches : request.Searches
  · exact .inr ⟨(request.alters searches coherent).left performed,
      (request.closes searches before).left performed,
      (request.accounts searches before).left performed⟩
  · exact .inl (Ends.left (request.accrues searches before))

theorem Additions.kept {holds : Solver τ → Prop}
    (added : ∀ {before after}, Addition before after → holds before → holds after)
    (additions : Relation.ReflTransGen Addition before after) (held : holds before) :
    holds after := by
  induction additions with
  | refl => exact held
  | tail _ addition induction => exact added addition induction

/-- What is added to a closed formula leaves it as it is. -/
theorem Additions.keepsFormula (additions : Relation.ReflTransGen Addition before after)
    (closed : before.status ≠ .input) :
    before.KeepsFormula after ∧ after.status = before.status := by
  induction additions with
  | refl => exact ⟨.refl before, rfl⟩
  | tail _ addition induction =>
      obtain ⟨keeps, status⟩ := induction
      exact ⟨keeps.trans (addition.keepsFormula (status ▸ closed)), addition.status.trans status⟩

namespace Served

variable {configuration : Configuration}

theorem coherent (served : Served configuration solver) : solver.Coherent := by
  induction served with
  | refl => exact .new configuration
  | tail _ takes coherent =>
      rcases takes.cases coherent with additions | searched
      · exact Additions.kept Addition.coherent additions coherent
      · exact Changes.coherent searched.changes coherent

/-- What additions and searches keep to holds of every solver that is served. -/
theorem induct {holds : Solver τ → Prop} (new : holds (Solver.new configuration))
    (added : ∀ {before after}, Addition before after → holds before → holds after)
    (searched : ∀ {before after}, before.Coherent → Searched before after →
      holds before → holds after)
    (served : Served configuration solver) : holds solver := by
  induction served with
  | refl => exact new
  | tail former takes held =>
      have coherent := Served.coherent former
      rcases takes.cases coherent with additions | searches
      · exact Additions.kept added additions held
      · exact searched coherent searches held

theorem checked (served : Served configuration solver) : solver.Checked :=
  served.induct (fun _ _ stored => by cases stored) Addition.checked
    fun coherent searched checked => Changes.checked searched.changes coherent checked

theorem keyed (served : Served configuration solver) : solver.vars.Keyed := by
  refine @induct τ _ solver configuration (fun solver => solver.vars.Keyed) ?_ Addition.keyed ?_
    served
  · exact VariableStore.keyed_empty
  · intro before after coherent searched keyed
    have keeps := Changes.keepsFormula searched.changes coherent
    exact keyed.congr keeps.keys keeps.signature

/-- The formula stays as it is once it is closed. -/
theorem keepsFormula (served : Served configuration before) (closed : before.status ≠ .input)
    (later : Relation.ReflTransGen Takes before after) : before.KeepsFormula after := by
  have kept : before.KeepsFormula after ∧ after.status ≠ .input := by
    induction later with
    | refl => exact ⟨.refl before, closed⟩
    | @tail middle last former takes induction =>
        have coherent : middle.Coherent := Served.coherent (served.trans former)
        obtain ⟨keeps, closed⟩ := induction
        rcases takes.cases coherent with additions | searched
        · obtain ⟨further, status⟩ := Additions.keepsFormula additions closed
          exact ⟨keeps.trans further, status ▸ closed⟩
        · exact ⟨keeps.trans (Changes.keepsFormula searched.changes coherent), searched.closed⟩
  exact kept.1

theorem answered (served : Served configuration solver) (request : Request τ)
    (result : request.perform solver = .ok () after) : Served configuration after := by
  have same : left request.perform solver = after := by
    unfold left
    rw [result]
  exact served.tail ⟨request, not_aborts_of_ok result, same⟩

/-- A solver that is asked for something adds it as a whole or stays as it was, clauses are of
atoms that exist and theory atoms of variables that exist, names and keys belong together, and once
a search was asked for the formula stays as it is. -/
theorem builds_atomically (served : Served configuration solver) :
    (∀ request : Request τ, request.Adds → ∀ fault rest,
      request.perform solver = .error fault rest →
        (∃ error, fault = .error error) ∧ rest = solver) ∧
    (∀ (state : Solver τ) clause error rest,
      Solver.offerLemma clause state = .ok (.error error) rest → rest = state) ∧
    (∀ key clause, solver.clauses.clause? key = some clause → ∀ literal ∈ clause,
      solver.Admits literal.atom (.boolean literal.polarity)) ∧
    (∀ owner members, solver.vars.watches.Watching owner members →
      owner < solver.theoryAtoms.size ∧ ∀ key ∈ members, key < solver.vars.size) ∧
    (∀ name key, solver.vars.key? name = some key ↔
      ∃ known, solver.vars.get? key = some known ∧ known.name = name) ∧
    (∀ request : Request τ, request.Searches → ¬Aborts request.perform solver →
      ∀ later, Relation.ReflTransGen Takes (left request.perform solver) later →
        later.vars.signature = solver.vars.signature ∧ later.vars.keys = solver.vars.keys ∧
        later.theoryAtoms = solver.theoryAtoms ∧
        ∀ key clause, (∃ watched, later.clauses.stored? key = some ⟨clause, .input, watched⟩) ↔
          ∃ watched, solver.clauses.stored? key = some ⟨clause, .input, watched⟩) := by
  refine ⟨?atomic, ?offered, served.checked, ?watched, served.keyed, ?fixed⟩
  case atomic =>
    intro request adds fault rest refused
    exact Ends.of_error (request.grants adds solver) refused
  case offered =>
    intro state clause error rest refused
    exact (Solver.ends_offerLemma clause).of_ok refused
  case watched =>
    intro owner members watching
    obtain ⟨atom, present, rfl⟩ := (served.coherent.supports owner members).mp watching
    refine ⟨(Array.getElem?_eq_some_iff.mp present).1, fun key inside => ?_⟩
    exact served.coherent.registered owner atom present key (mem_canonical.mp inside)
  case fixed =>
    intro request searches performed later takes
    have changes := (request.alters searches served.coherent).left performed
    have begun := Changes.keepsFormula changes served.coherent
    have asked : Served configuration (left request.perform solver) :=
      served.tail ⟨request, performed, rfl⟩
    have closed := (request.closes searches solver).left performed
    have keeps := begun.trans (asked.keepsFormula closed takes)
    refine ⟨keeps.signature, keeps.keys, keeps.theoryAtoms, fun key clause => ?_⟩
    rw [← ClauseStore.input_iff, ← ClauseStore.input_iff]
    exact keeps.input_iff key clause

end Served

theorem Stated.served {configuration : Configuration} (stated : Stated configuration solver) :
    Served configuration solver := by
  induction stated with
  | new => exact .refl
  | @addVariable _ _ name sort _ _ added served =>
      exact served.answered (.addVariable name sort) (discard_of_ok added)
  | @addTheoryAtom _ _ atom _ _ added served =>
      exact served.answered (.addTheoryAtom atom) (discard_of_ok added)
  | @addNegation _ _ atom _ _ added served =>
      exact served.answered (.addNegation atom) (discard_of_ok added)
  | @addClause _ _ clause _ _ added served =>
      exact served.answered (.addClause clause) (discard_of_ok added)

/-- After the search another variable is refused, and the two there were are left. -/
theorem hastyFormula_closed :
    let searched := left (Request.perform (.solve 10)) Bound.hastyFormula
    let refused := left (Request.perform (.addVariable "q" .boolean)) searched
    Served {} Bound.hastyFormula ∧
      fault? (Request.perform (.addVariable "q" .boolean)) searched =
        some (.error .solveStarted) ∧
      refused.vars.signature = [("x", .rational), ("p", .boolean)] := by
  intro searched refused
  have served : Served {} Bound.hastyFormula := Bound.stated_hastyFormula.served
  obtain ⟨rest, reported⟩ := Bound.hastyFormula_answer
  have performed : ¬Aborts (Request.perform (.solve 10)) Bound.hastyFormula :=
    not_aborts_of_ok (discard_of_ok reported)
  have broken : fault? (Request.perform (.addVariable "q" .boolean)) searched =
      some (.error .solveStarted) := by
    decide +kernel
  have unbroken : ¬Aborts (Request.perform (.addVariable "q" .boolean)) searched := by
    rintro ⟨abort, rest, aborted⟩
    cases (error_of_fault broken).symm.trans aborted
  obtain ⟨-, -, -, -, -, fixed⟩ := served.builds_atomically
  obtain ⟨signature, -, -, -⟩ := fixed (.solve 10) trivial performed refused
    (.single ⟨.addVariable "q" .boolean, unbroken, rfl⟩)
  exact ⟨served, broken, signature.trans (by decide +kernel)⟩

end ModelSearch
