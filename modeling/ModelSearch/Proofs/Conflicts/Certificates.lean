import ModelSearch.Proofs.Conflicts.Audits
import ModelSearch.Proofs.Theory.Bounds

/-!
# Certified searches

Whatever a search does and however it ends, a reader accepts its record: each derived
clause is where the resolutions told before lead to, and a refutation is read as one
that rests on level zero alone.  So whatever was derived holds wherever the clauses of
the formula and of the theory do.
-/

namespace ModelSearch

/-- All clauses stored hold wherever those do that were not derived. -/
def ClauseStore.Founded (clauses : ClauseStore) : Prop :=
  ∀ truth : Atom → Option Bool,
    (∀ key stored, clauses.stored? key = some stored → stored.source ≠ .resolution →
      stored.clause.Holds truth) →
    ∀ key stored, clauses.stored? key = some stored → stored.clause.Holds truth

namespace Solver

variable {τ : Type} {solver rest : Solver τ} {clause : Clause}

/-- The record is read up to a phase, and what was derived is founded. -/
structure Certified (solver : Solver τ) (phase : Phase) : Prop where
  audited : solver.clauses.audits .idle solver.events.toList = some phase
  founded : solver.clauses.Founded

/-- The record ends with an analysis that came to a clause without ground. -/
def Shown (solver : Solver τ) : Prop :=
  ∃ final count, solver.Certified (.ended final count) ∧ solver.Groundless final

/-! ## Reading on -/

/-- Clauses that are not derived may be added. -/
private theorem Founded.grow {clauses later : ClauseStore} (founded : clauses.Founded)
    (kept : ∀ key stored, clauses.stored? key = some stored → later.stored? key = some stored)
    (fresh : ∀ key stored, later.stored? key = some stored →
      clauses.stored? key = some stored ∨ stored.source ≠ .resolution) : later.Founded := by
  intro truth given key stored present
  rcases fresh key stored present with old | underived
  · refine founded truth (fun other former found underived => ?_) key stored old
    exact given other former (kept other former found) underived
  · exact given key stored present underived

theorem Certified.tells {phase next : Phase} {events : List Event}
    (certified : solver.Certified phase) (tells : Tells solver rest events)
    (read : solver.clauses.audits phase events = some next) : rest.Certified next := by
  obtain ⟨audited, founded⟩ := certified
  have same := tells.assignment
  refine ⟨?_, by rw [same]; exact founded⟩
  rw [tells.events, same]
  exact ClauseStore.audits_append audited read

theorem Certified.adds (certified : solver.Certified .idle) (adds : Adds solver rest) :
    rest.Certified .idle := by
  obtain ⟨told, events, aside⟩ := adds.events
  have founded := Founded.grow certified.founded adds.kept fun key stored present =>
    (adds.fresh key stored present).imp_right fun theory => by rw [theory.1]; exact nofun
  refine ⟨?_, founded⟩
  rw [events]
  refine ClauseStore.audits_append ?_ (ClauseStore.audits_aside aside)
  exact ClauseStore.audits_mono (fun _ _ => adds.clause?) certified.audited

/-- An action that adds nothing else leaves the record as readable as it was. -/
theorem Certified.adding {α : Type} {action : SolverM τ α} (certified : solver.Certified .idle)
    (adding : Adding action) :
    Ends action solver (fun _ rest => rest.Certified .idle)
      fun _ rest => ∃ phase, rest.Certified phase := by
  unfold Ends
  cases result : action solver with
  | ok answer rest => exact certified.adds (adding.of_ok result)
  | error fault rest => exact ⟨_, certified.adds (adding.of_error result)⟩

/-! ## Storing, jumping back and learning -/

/-- A clause that follows may be stored. -/
private theorem Founded.store (founded : solver.clauses.Founded)
    (derived : solver.Derives clause) :
    (solver.clauses.store clause .resolution).2.Founded := by
  intro truth given key stored present
  have former : ∀ other entry, solver.clauses.stored? other = some entry →
      (solver.clauses.store clause .resolution).2.stored? other = some entry := by
    intro other entry found
    rw [ClauseStore.stored?_store, if_neg (Nat.ne_of_lt (ClauseStore.stored?_lt found)), found]
  have holds := founded truth fun other entry found underived =>
    given other entry (former other entry found) underived
  rw [ClauseStore.stored?_store] at present
  split at present
  · rw [← Option.some.inj present]
    refine derived.entailed truth fun other known found => ?_
    obtain ⟨entry, inside, rfl⟩ := ClauseStore.clause?_eq_some.mp found
    exact holds other entry inside
  · exact holds key stored present

/-- A clause may be watched. -/
private theorem Certified.watch {phase : Phase} (certified : solver.Certified phase)
    (key : ClauseKey) :
    ({ solver with clauses := solver.clauses.watch key } : Solver τ).Certified phase := by
  refine ⟨?_, fun truth given other stored present => ?_⟩
  · refine ClauseStore.audits_mono (fun other clause found => ?_) certified.audited
    exact (ClauseStore.clause?_watch _ _ _).trans found
  · have watched : ∀ other former, solver.clauses.stored? other = some former →
        ∃ later, (solver.clauses.watch key).stored? other = some later ∧
          later.clause = former.clause ∧ later.source = former.source := by
      intro other former found
      rw [ClauseStore.stored?_watch, found]
      refine ⟨_, rfl, ?_⟩
      split <;> exact ⟨rfl, rfl⟩
    have holds := certified.founded truth fun other former found underived => by
      obtain ⟨later, foundLater, same, source⟩ := watched other former found
      rw [← same]
      exact given other later foundLater (by rwa [source])
    replace present : (solver.clauses.watch key).stored? other = some stored := present
    rw [ClauseStore.stored?_watch] at present
    obtain ⟨former, found, rfl⟩ := Option.map_eq_some_iff.mp present
    have former := holds other _ found
    split <;> exact former

theorem certified_learn (certified : solver.Certified .idle) (key : ClauseKey) :
    Ends (learn key) solver (fun _ rest => rest.Certified .idle)
      fun _ rest => ∃ phase, rest.Certified phase := by
  unfold learn
  refine ends_get_bind.mpr ?_
  cases present : solver.clauses.stored? key with
  | none => exact ⟨_, certified⟩
  | some stored =>
      dsimp only
      split
      · refine (ends_known (watchClause_of_lt (ClauseStore.stored?_lt present))).mpr
          ((certified.watch key).adding ?_)
        exact .bind (adding_count _) fun _ => adding_emit rfl
      · exact certified

variable [TheoryAtom τ] {rules : Rules τ} {origin : Solver τ}

/-- Jumping back adds to what is left after the jump. -/
theorem ends_backjump (valid : origin.Valid rules solver) {key : ClauseKey}
    (usable : solver.Usable key clause) :
    Ends (backjump key) solver (fun _ rest => ∃ target kind, Adds (solver.jumped target kind) rest)
      fun _ rest => ∃ target kind, Adds (solver.jumped target kind) rest := by
  obtain ⟨top, answer, tops, jumps⟩ := usable.backjumpable.top
  obtain ⟨target, kind, aims⟩ :=
    Trail.backjumpTarget_spec usable.backjumpable.nonempty answer tops jumps
  have below := target_lt valid.coherent.assignment tops aims
  unfold backjump
  refine (ends_known (clause_of_stored usable.stored)).mpr ?_
  refine ends_get_bind.mpr ?_
  dsimp only
  rw [aims.answer]
  refine (ends_known (retreat_of_lt valid.coherent.assignment below)).mpr ((ends_known rfl).mpr ?_)
  refine Ends.mono (Adding.ends (.get fun jumped => ?_) (solver.jumped target kind))
    (fun _ _ adds => ⟨target, kind, adds⟩) fun _ _ adds => ⟨target, kind, adds⟩
  split
  · refine .bind (adding_propagateLiteral _ _) fun answer => ?_
    cases answer with
    | error conflict => exact .throw _
    | ok given => exact .pure _
  · exact .throw _
  · exact .bind (adding_decide _ _) fun _ => .pure _
  · exact .throw _

omit [TheoryAtom τ] in
private theorem Certified.jumped {phase : Phase} (certified : solver.Certified phase)
    (coherent : solver.toAssignment.Coherent) (target : Nat) (kind : BackjumpKind)
    (read : solver.clauses.audits phase
      [.backjump solver.trail.level target kind] = some .idle) :
    (solver.jumped target kind).Certified .idle := by
  have same : (solver.jumped target kind).clauses.clauses = solver.clauses.clauses :=
    (coherent.unsetAbove target).formula.clauses
  have stored : ∀ key, (solver.jumped target kind).clauses.stored? key =
      solver.clauses.stored? key := fun key => by rw [ClauseStore.stored?, same]; rfl
  constructor
  · show (solver.jumped target kind).clauses.audits .idle
      (solver.events.push (.backjump solver.trail.level target kind)).toList = _
    rw [Array.toList_push]
    refine ClauseStore.audits_mono (fun key clause found => ?_)
      (ClauseStore.audits_append certified.audited read)
    rw [ClauseStore.clause?, stored]
    exact found
  · intro truth given key entry present
    rw [stored] at present
    refine certified.founded truth (fun other former found => ?_) key entry present
    exact given other former (by rw [stored, found])

/-- A jump may be told of in this phase. -/
def Phase.Returns (clauses : ClauseStore) (phase : Phase) : Prop :=
  ∀ origin target kind, clauses.audits phase [.backjump origin target kind] = some .idle

omit [TheoryAtom τ] in
/-- An analysis leads to a jump by a clause it derived, unless there were no resolutions. -/
private theorem certified_storeExplanation {conflict : ClauseKey} {final : Clause} {count : Nat}
    (stored : solver.clauses.clause? conflict = some clause)
    (certified : solver.Certified (.ended final count)) (derived : solver.Derives final)
    (resolved : final = clause ↔ count = 0) :
    Ends (storeExplanation conflict final) solver
      (fun _ rest => ∃ phase, rest.Certified phase ∧ Phase.Returns rest.clauses phase)
      fun _ _ => False := by
  rw [Ends, storeExplanation_eq stored]
  by_cases same : clause = final
  · rw [if_pos same]
    obtain rfl := resolved.mp same.symm
    exact ⟨_, certified, fun _ _ _ => rfl⟩
  · rw [if_neg same]
    have positive : 0 < count :=
      Nat.pos_of_ne_zero fun zero => same (resolved.mpr zero).symm
    refine ⟨.idle, ⟨?_, Founded.store certified.founded derived⟩, fun _ _ _ => rfl⟩
    have present : (solver.clauses.store final .resolution).2.clause? solver.clauses.size =
        some final := by
      rw [ClauseStore.clause?, ClauseStore.stored?_store, if_pos rfl]
      rfl
    rw [Array.toList_push]
    refine ClauseStore.audits_append (ClauseStore.audits_mono ?_ certified.audited) ?_
    · intro key clause found
      have inside := ClauseStore.clause?_lt found
      rw [ClauseStore.clause?, ClauseStore.stored?_store, if_neg (Nat.ne_of_lt inside)]
      exact found
    · show (if _ then _ else _ : Option Phase) >>= _ = _
      rw [if_pos ⟨present, positive⟩]
      rfl

private theorem certified_return (valid : origin.Valid rules solver) {key : ClauseKey}
    (usable : solver.Usable key clause) {phase : Phase} (certified : solver.Certified phase)
    (returns : Phase.Returns solver.clauses phase) :
    Ends (backjump key >>= fun _ => learn key >>= fun _ => pure (none : Option Report)) solver
      (fun answer rest => answer = none ∧ rest.Certified .idle)
      fun _ rest => ∃ phase, rest.Certified phase := by
  have jumped := fun target kind =>
    certified.jumped valid.coherent.assignment target kind (returns _ _ _)
  refine Ends.bind (ends_backjump valid usable) ?_ ?_
  · rintro kind returned ⟨target, jump, adds⟩
    have certified := (jumped target jump).adds adds
    refine Ends.bind (certified_learn certified key) (fun _ rest certified => ?_) fun _ _ => id
    exact ⟨rfl, certified⟩
  · rintro fault rest ⟨target, jump, adds⟩
    exact ⟨.idle, (jumped target jump).adds adds⟩

/-- What an analysis came to is stored, jumped back with and learned. -/
private theorem certified_apply (valid : origin.Valid rules solver) {conflict : ClauseKey}
    {final : Clause} {count : Nat} (stored : solver.clauses.clause? conflict = some clause)
    (violated : solver.Violates conflict) (certified : solver.Certified (.ended final count))
    (backjumpable : solver.Backjumpable final) (resolved : final = clause ↔ count = 0) :
    Ends (storeExplanation conflict final >>= fun key => backjump key >>= fun _ =>
        learn key >>= fun _ => pure (none : Option Report)) solver
      (fun answer rest => answer = none ∧ rest.Certified .idle)
      fun _ rest => ∃ phase, rest.Certified phase := by
  have storing : Runs rules false (storeExplanation conflict final) solver _
    fun _ _ => False := runs_storeExplanation valid violated backjumpable
  refine Ends.bind (Ends.and storing (certified_storeExplanation stored certified
    backjumpable.conflicting.derived resolved)) ?_ fun _ _ broken => broken.2.elim
  rintro key rest ⟨⟨steps, usable, _⟩, phase, certified, returns⟩
  exact certified_return (Steps.valid steps valid) usable certified returns

/-- A conflict is read up to the next round, or up to what refutes the formula. -/
theorem certified_resolveConflict (valid : origin.Valid rules solver)
    (certified : solver.Certified .idle) {conflict : ClauseKey}
    (violated : solver.Violates conflict) (fuel : Nat) :
    Ends (resolveConflict fuel conflict) solver
      (fun answer rest => match answer with
        | none => rest.Certified .idle
        | some report => report = .unsatisfiable ∧ rest.Shown)
      (fun _ rest => ∃ phase, rest.Certified phase) := by
  unfold resolveConflict
  have counting : Runs rules true (count fun counters =>
      { counters with conflicts := counters.conflicts + 1 }) solver
      (fun _ rest => Told solver rest) fun _ _ => True := runs_count _
  refine Ends.bind (Ends.and counting (certified.adding (adding_count _))) ?_
    fun _ _ broken => broken.2
  rintro _ counted ⟨⟨steps, first⟩, certified⟩
  have validCounted := Steps.valid steps valid
  rw [← first.assignment] at violated
  have ⟨clause, stored, falsified⟩ := violated
  have reasoned := validCounted.reasoned
  have coherent := validCounted.coherent.assignment
  have begun : counted.clauses.audits .idle [.analysisBegun conflict] =
      some (.resolving clause 0) := by
    show (counted.clauses.clause? conflict).map _ >>= _ = _
    rw [stored]
    rfl
  have explaining : Runs rules true (explain fuel conflict) counted _ _ :=
    runs_explain validCounted violated fuel
  refine Ends.bind (Ends.and explaining
    (ends_explain coherent reasoned stored falsified fuel)) ?_ ?_
  · rintro explanation explained ⟨⟨later, told, verdict⟩, used, final, tells, resolved, arrives⟩
    have read := ClauseStore.audits_append (resolved.audits 0)
      (show counted.clauses.audits _ [.analysisEnded] = some (.ended final _) from rfl)
    have certified := certified.tells tells (ClauseStore.audits_append begun read)
    have unresolved : final = clause ↔ 0 + used.length = 0 := by
      rw [Nat.zero_add, List.length_eq_zero_iff]
      exact reasoned.resolved_eq_iff coherent.trail resolved
        ⟨Assignment.derives_stored stored, falsified⟩
    rw [← tells.assignment] at verdict stored violated arrives
    by_cases bare : explanation.isEmpty = true
    · rw [if_pos bare]
      refine ⟨rfl, final, _, ⟨certified.audited, certified.founded⟩, ?_⟩
      rcases arrives with rfl | ⟨_, groundless⟩
      · intro literal member
        rw [Clause.isEmpty, List.isEmpty_iff] at bare
        have absurdity : literal ∈ explanation.literals := member
        rw [bare] at absurdity
        cases absurdity
      · exact groundless
    · rw [if_neg bare]
      have backjumpable := verdict.resolve_left fun empty => bare empty.1
      obtain rfl : explanation = final := by
        rcases arrives with same | ⟨rfl, _⟩
        · exact same
        · exact absurd rfl bare
      refine (certified_apply (Steps.valid later validCounted) stored violated certified
        backjumpable unresolved).mono ?_ fun _ _ => id
      rintro answer rest ⟨rfl, certified⟩
      exact certified
  · rintro fault rest ⟨_, used, final, tells, resolved⟩
    exact ⟨_, certified.tells tells (ClauseStore.audits_append begun (resolved.audits 0))⟩

/-! ## The search -/

/-- How the record of a search ends: a refutation with the analysis that shows it, any
other report with no analysis open. -/
def Closes (solver : Solver τ) : Report → Prop
  | .unsatisfiable => solver.Shown
  | _ => solver.Certified .idle

/-- Only a conflict refutes. -/
private theorem ends_extendOrReport :
    Ends extendOrReport solver (fun answer _ => answer ≠ some .unsatisfiable)
      fun _ _ => True := by
  unfold extendOrReport
  refine Ends.bind (adding_makeDecision.ends solver) (fun answer rest _ => ?_)
    fun _ _ _ => trivial
  cases answer with
  | some choice => exact nofun
  | none =>
      refine ends_get_bind.mpr ?_
      split <;> exact nofun

theorem certified_searchRound
    (obeying : ∀ solver : Solver τ, origin.Valid rules solver → solver.Obeys rules)
    (valid : origin.Valid rules solver) (certified : solver.Certified .idle) (fuel time : Nat) :
    Ends (searchRound fuel time) solver
      (fun answer rest => match answer with
        | none => rest.Certified .idle
        | some report => rest.Closes report)
      (fun _ rest => ∃ phase, rest.Certified phase) := by
  unfold searchRound
  have counting : Runs rules true (count fun counters =>
      { counters with iterations := counters.iterations + 1, time }) solver
      (fun _ rest => Told solver rest) fun _ _ => True := runs_count _
  refine Ends.bind (Ends.and counting (certified.adding (adding_count _))) ?_
    fun _ _ broken => broken.2
  rintro _ counted ⟨⟨steps, _⟩, certified⟩
  have validCounted := Steps.valid steps valid
  refine ends_get_bind.mpr ?_
  split
  · exact certified
  · refine Ends.bind (Ends.and (runs_propagate obeying validCounted fuel)
      (certified.adding (adding_propagate fuel))) ?_ fun _ _ broken => broken.2
    rintro answer closed ⟨⟨later, concludes⟩, certified⟩
    cases answer with
    | some conflict =>
        have validClosed := Steps.valid later validCounted
        refine (certified_resolveConflict validClosed certified concludes fuel).mono ?_
          fun _ _ => id
        intro answer rest ends
        cases answer with
        | none => exact ends
        | some report =>
            obtain ⟨rfl, shown⟩ := ends
            exact shown
    | none =>
        refine (Ends.and ends_extendOrReport (certified.adding adding_extendOrReport)).mono ?_
          fun _ _ broken => broken.2
        rintro answer rest ⟨other, certified⟩
        cases answer with
        | none => exact certified
        | some report =>
            cases report with
            | unsatisfiable => exact absurd rfl other
            | _ => exact certified

theorem certified_searchRounds
    (obeying : ∀ solver : Solver τ, origin.Valid rules solver → solver.Obeys rules)
    (valid : origin.Valid rules solver) (certified : solver.Certified .idle)
    (fuel rounds : Nat) :
    Ends (searchRounds fuel rounds) solver (fun report rest => rest.Closes report)
      (fun _ rest => ∃ phase, rest.Certified phase) := by
  induction rounds generalizing solver with
  | zero => exact ⟨_, certified⟩
  | succ rounds induction =>
      unfold searchRounds
      refine ends_get_bind.mpr ?_
      refine Ends.bind (Ends.and (runs_searchRound obeying valid fuel _)
        (certified_searchRound obeying valid certified fuel _)) ?_ fun _ _ broken => broken.2
      rintro answer middle ⟨⟨steps, _⟩, ends⟩
      cases answer with
      | some report => exact ends
      | none => exact induction (Steps.valid steps valid) ends

omit [TheoryAtom τ] in
/-- What is told at the end of a search is passed over. -/
private theorem ends_endSearch_closes {report : Report} (closes : solver.Closes report) :
    Ends (endSearch report) solver (fun _ rest => rest.Closes report) fun _ _ => False := by
  obtain ⟨told, listed⟩ : ∃ told, told = statistics.map (fun kind =>
      Event.statistic kind (solver.counters.get kind)) ++
        [.elapsed solver.counters.time, .reported report, .finished] := ⟨_, rfl⟩
  have tells : Tells solver { solver with events := solver.events ++ told } told :=
    ⟨rfl, Array.toList_appendList⟩
  have closing : ∀ event ∈ told, event.closes = true := by
    intro event inside
    rw [listed, List.mem_append] at inside
    rcases inside with counted | last
    · obtain ⟨kind, _, rfl⟩ := List.mem_map.mp counted
      rfl
    · simp only [List.mem_cons, List.not_mem_nil, or_false] at last
      rcases last with rfl | rfl | rfl <;> rfl
  have aside : ∀ event ∈ told, event.ofAnalysis = false := by
    intro event inside
    have last := closing event inside
    cases event <;> first | rfl | cases last
  have idle : solver.Certified .idle →
      ({ solver with events := solver.events ++ told } : Solver τ).Certified .idle :=
    fun certified => certified.tells tells (ClauseStore.audits_aside aside)
  unfold endSearch
  refine ends_get_bind.mpr ((ends_modify _).mpr ?_)
  rw [← listed]
  cases report with
  | unsatisfiable =>
      obtain ⟨final, count, certified, groundless⟩ := closes
      exact ⟨final, count, certified.tells tells (ClauseStore.audits_closing closing), groundless⟩
  | _ => exact idle closes

/-! ## Stated formulas -/

/-- Nothing was derived while the formula was stated. -/
private theorem certified_stated {configuration : Configuration}
    (stated : Stated configuration solver) : solver.Certified .idle := by
  refine Stated.induct ?_ (fun solver name sort certified => ?_)
    (fun solver atom certified => ?_) (fun solver clause certified => ?_) stated
  · exact ⟨rfl, fun _ _ key stored present => by cases present⟩
  · exact ⟨certified.audited, certified.founded⟩
  · exact ⟨certified.audited, certified.founded⟩
  · have kept : ∀ key stored, solver.clauses.stored? key = some stored →
        (solver.withClause clause).clauses.stored? key = some stored := by
      intro key stored present
      rw [stored?_withClause, if_neg (Nat.ne_of_lt (ClauseStore.stored?_lt present)), present]
    refine ⟨?_, Founded.grow certified.founded kept fun key stored present => ?_⟩
    · show ClauseStore.audits _ _ (solver.events.push (.inputAdded solver.clauses.size)).toList = _
      rw [Array.toList_push]
      refine ClauseStore.audits_append (ClauseStore.audits_mono (fun key clause found => ?_)
        certified.audited) rfl
      obtain ⟨entry, present, same⟩ := ClauseStore.clause?_eq_some.mp found
      exact ClauseStore.clause?_eq_some.mpr ⟨entry, kept key entry present, same⟩
    · rw [stored?_withClause] at present
      split at present
      · rw [← Option.some.inj present]
        exact .inr nofun
      · exact .inl present

/-- However a search of a stated formula ends, its record is accepted, and what was
derived holds wherever the clauses of the formula and of the theory do; and at any time
an analysis tells of exactly the resolutions it makes. -/
theorem solve_certified {configuration : Configuration} (stated : Stated configuration solver)
    (keeps : ∀ reached, Steps rules true solver reached → reached.Obeys rules) (fuel : Nat) :
    Ends (solve fuel) solver (fun report rest => rest.Closes report)
      (fun _ rest => ∃ phase, rest.Certified phase) ∧
    ∀ (reached : Solver τ) (conflict : ClauseKey) (clause : Clause),
      Steps rules true solver reached → reached.clauses.clause? conflict = some clause →
      (∀ literal ∈ clause, reached.Falsifies literal) → ∀ steps,
        Ends (explain steps conflict) reached
          (fun answer rest => ∃ used final,
            Tells reached rest
              (.analysisBegun conflict :: (used.map .resolvedWith ++ [.analysisEnded])) ∧
            reached.Resolved clause used final ∧
              (answer = final ∨ answer = ∅ ∧ reached.Groundless final))
          (fun _ rest => ∃ used final,
            Tells reached rest (.analysisBegun conflict :: used.map .resolvedWith) ∧
              reached.Resolved clause used final) := by
  have ready := stated.ready
  have valid : solver.Valid rules solver := ready.valid
  have obeying : ∀ state, solver.Valid rules state → state.Obeys rules :=
    fun state valid => keeps state valid.reached
  constructor
  · have certified := certified_stated stated
    unfold solve
    refine ends_get_bind.mpr ?_
    rw [ready.unsettled]
    have begun : Step rules true solver { solver with status := .solving } :=
      (told_status solver .solving).step
    refine (ends_known rfl).mpr ?_
    refine Ends.bind (certified_searchRounds obeying (begun.valid valid)
      ⟨certified.audited, certified.founded⟩ fuel fuel) (fun report rest closes => ?_)
      fun _ _ => id
    refine Ends.bind (ends_endSearch_closes closes) (fun _ last closes => ?_)
      fun _ _ absurdity => absurdity.elim
    exact closes
  · intro reached conflict clause steps stored falsified fuel
    have valid := Steps.valid steps valid
    exact ends_explain valid.coherent.assignment valid.reasoned stored falsified fuel

end Solver

namespace Bound

/-- The record of the hasty formula ends with one resolution, after which only the bound
is left that has been evaluated. -/
theorem hastyFormula_certified : ∃ rest,
    Solver.solve 10 hastyFormula = .ok .unsatisfiable rest ∧
      rest.Closes .unsatisfiable ∧ rest.clauses.audits .idle rest.events.toList =
        some (.ended (Clause.ofList [⟨.theory 1, true⟩]) 1) := by
  obtain ⟨rest, answered⟩ := hastyFormula_answer
  have certified := (Solver.solve_certified stated_hastyFormula
    (fun reached _ => obeys_rules reached) 10).1
  have read : (left (Solver.solve 10) hastyFormula).clauses.audits .idle
      (left (Solver.solve 10) hastyFormula).events.toList =
        some (.ended (Clause.ofList [⟨.theory 1, true⟩]) 1) := by
    decide +kernel
  have same : left (Solver.solve 10) hastyFormula = rest := by
    unfold left
    rw [answered]
  exact ⟨rest, answered, certified.of_ok answered, same ▸ read⟩

end Bound

end ModelSearch
