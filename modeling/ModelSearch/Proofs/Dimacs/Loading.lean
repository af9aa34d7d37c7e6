import ModelSearch.Dimacs.Load
import ModelSearch.Proofs.Dimacs.Readings
import ModelSearch.Proofs.Search.BooleanSearch

/-!
# Loading a formula

While a document is loaded, the variables of the solver are those that the heading declares,
and then those of the integers so far, each added where it occurs first.  The clauses are
those that a zero has ended, in their order and over these variables.  So the document
settles both, and a document that was read without a fault is loaded without one.

Together with the reading of layouts this gives back the formula from every text of it.
-/

namespace ModelSearch

/-- Whatever is told but a split, nothing else changes. -/
theorem Solver.Ready.emit {τ : Type} [TheoryAtom τ] {configuration : Configuration}
    {solver : Solver τ} (ready : solver.Ready configuration) (event : Event)
    (plain : Solver.isSplit event = false) :
    ({ solver with events := solver.events.push event } : Solver τ).Ready configuration where
  coherent := ⟨ready.coherent.assignment, ready.coherent.supports, ready.coherent.registered⟩
  sorted := ⟨ready.sorted.typed, ready.sorted.fitting⟩
  untouched := ready.untouched
  input := ready.input
  configured := ready.configured
  named := ready.named
  watched := ready.watched
  unsplit := (Solver.told_emit solver plain).splits.trans ready.unsplit

namespace Dimacs

/-- The literal of an integer, if variables are added in this order. -/
def literalAt (order : List Nat) (number : Int) : Literal :=
  ⟨.var (order.idxOf number.natAbs), decide (0 < number)⟩

variable {τ : Type} [TheoryAtom τ] {configuration : Configuration} {order : List Nat}
  {clauses : List (List Int)} {atoms : Std.TreeMap Nat Atom} {solver : Solver τ}
  {loading : Loading}

/-! ## What the solver holds -/

theorem toList_variableName (number : Nat) :
    (variableName number).toList = 'v' :: 'a' :: 'r' :: Text.padded 0 number := by
  simp [variableName, Text.padded]

theorem variableName_injective {left right : Nat} (same : variableName left = variableName right) :
    left = right := by
  have digits := congrArg String.toList same
  rw [toList_variableName, toList_variableName] at digits
  simp only [List.cons.injEq, true_and] at digits
  have numbers := congrArg Text.digits? digits
  rw [Text.digits?_padded, Text.digits?_padded] at numbers
  exact Option.some.inj numbers

/-- The variables are named after the numbers in this order, each of which has its atom.  The
clauses are over these variables, and they are all there are. -/
structure Holds (order : List Nat) (clauses : List (List Int)) (atoms : Std.TreeMap Nat Atom)
    (solver : Solver τ) : Prop where
  once : order.Nodup
  signature : solver.vars.signature = order.map fun number => (variableName number, .boolean)
  atoms : ∀ number, atoms[number]? =
    if number ∈ order then some (.var (order.idxOf number)) else none
  mentioned : ∀ clause ∈ clauses, ∀ number ∈ clause, number.natAbs ∈ order
  clauses : solver.clauses.clauses.toList =
    clauses.map fun clause => ⟨Clause.ofList (clause.map (literalAt order)), .input, true⟩

theorem literalAt_append {number : Int} (known : number.natAbs ∈ order) (later : List Nat) :
    literalAt (order ++ later) number = literalAt order number := by
  rw [literalAt, List.idxOf_append_of_mem known, literalAt]

omit [TheoryAtom τ] in
theorem Holds.new (configuration : Configuration) :
    Holds [] [] ∅ (Solver.new configuration : Solver τ) where
  once := .nil
  signature := rfl
  atoms number := by simp
  mentioned clause absurdity := by cases absurdity
  clauses := rfl

omit [TheoryAtom τ] in
theorem Holds.size (holds : Holds order clauses atoms solver) :
    solver.vars.size = order.length := by
  rw [← VariableStore.length_signature, holds.signature, List.length_map]

/-- The formula as a search takes it. -/
theorem Holds.poses (holds : Holds order clauses atoms solver)
    (ready : solver.Ready configuration) (atomless : solver.theoryAtoms = #[]) :
    solver.Poses configuration (order.map variableName)
      (clauses.map fun clause => clause.map (literalAt order)) where
  ready := ready
  signature := by
    rw [holds.signature, List.map_map]
    rfl
  atomless := atomless
  clauses clause := by
    have listed : (∃ key, solver.clauses.clause? key = some clause) ↔
        ∃ stored ∈ solver.clauses.clauses.toList, stored.clause = clause := by
      simp only [ClauseStore.clause?_eq_some, Array.mem_toList_iff, Array.mem_iff_getElem?]
      constructor
      · rintro ⟨key, stored, present, same⟩
        exact ⟨stored, ⟨key, present⟩, same⟩
      · rintro ⟨stored, ⟨key, present⟩, same⟩
        exact ⟨key, stored, present, same⟩
    rw [listed, holds.clauses]
    simp

omit [TheoryAtom τ] in
/-- A variable is added under a number that has none. -/
theorem Holds.withVariable (holds : Holds order clauses atoms solver) {number : Nat}
    (fresh : number ∉ order) :
    Holds (order ++ [number]) clauses (atoms.insert number (.var order.length))
      (solver.withVariable (variableName number) .boolean) where
  once := by
    apply List.nodup_append.mpr
    simpa [holds.once] using fun other inside => ne_of_mem_of_not_mem inside fresh
  signature := by
    show (solver.vars.push _ _).signature = _
    rw [VariableStore.signature_push, holds.signature, List.map_append]
    rfl
  atoms other := by
    rw [Std.TreeMap.getElem?_insert, holds.atoms]
    by_cases same : number = other
    · subst same
      simp [fresh, List.idxOf_append_of_notMem]
    · by_cases known : other ∈ order
      · simp [same, known, List.idxOf_append_of_mem]
      · simp [same, known, Ne.symm same]
  mentioned clause member literal inside :=
    List.mem_append_left _ (holds.mentioned clause member literal inside)
  clauses := by
    have same : ∀ clause ∈ clauses,
        clause.map (literalAt (order ++ [number])) = clause.map (literalAt order) :=
      fun clause member => List.map_congr_left fun literal inside =>
        literalAt_append (holds.mentioned clause member literal inside) _
    show solver.clauses.clauses.toList = _
    rw [holds.clauses]
    apply List.map_congr_left
    intro clause member
    rw [same clause member]

omit [TheoryAtom τ] in
theorem Holds.withClause (holds : Holds order clauses atoms solver) {clause : List Int}
    (mentioned : ∀ number ∈ clause, number.natAbs ∈ order) :
    Holds order (clauses ++ [clause]) atoms
      (solver.withClause (Clause.ofList (clause.map (literalAt order)))) where
  once := holds.once
  signature := holds.signature
  atoms := holds.atoms
  mentioned other member := by
    rcases List.mem_append.mp member with former | last
    · exact holds.mentioned other former
    · rw [List.mem_singleton.mp last]
      exact mentioned
  clauses := by
    show (solver.clauses.clauses.push _).toList = _
    rw [Array.toList_push, holds.clauses, List.map_append]
    rfl

omit [TheoryAtom τ] in
theorem Holds.emit (holds : Holds order clauses atoms solver) (event : Event) :
    Holds order clauses atoms { solver with events := solver.events.push event } :=
  ⟨holds.once, holds.signature, holds.atoms, holds.mentioned, holds.clauses⟩

/-! ## Loading step by step -/

/-- What was read so far is in the solver, and what is read of the next clause is pending. -/
structure Progress (configuration : Configuration) (declared : Nat) (numbers : List Int)
    (clauses : List (List Int)) (rest : List Int) (loading : Loading) (solver : Solver τ) :
    Prop where
  ready : solver.Ready configuration
  atomless : solver.theoryAtoms = #[]
  reads : Reads numbers clauses rest
  holds : Holds (variableOrder declared numbers) clauses loading.atoms solver
  pending : loading.pending.reverse = rest.map (literalAt (variableOrder declared numbers))

variable {declared : Nat} {numbers : List Int} {unfinished : List Int}

theorem Reads.known (reads : Reads numbers clauses unfinished) (declared : Nat) :
    ∀ number ∈ unfinished, number.natAbs ∈ variableOrder declared numbers := by
  intro number inside
  apply mem_variableOrder.mpr
  refine .inr ⟨number, ?_, ?_, rfl⟩
  · rw [reads.shape]
    exact List.mem_append_right _ inside
  · rintro rfl
    exact reads.unfinished inside

/-- A name that is not in the order is free. -/
theorem declare_eq (ready : solver.Ready configuration)
    (holds : Holds order clauses atoms solver) (loading : Loading) {number : Nat}
    (fresh : number ∉ order) :
    declare loading number solver =
      .ok (.var order.length, { loading with
          atoms := loading.atoms.insert number (.var order.length) })
        (solver.withVariable (variableName number) .boolean) ∧
    (solver.withVariable (variableName number) .boolean).Ready configuration := by
  have unused : solver.vars.nameError? (variableName number) = none := by
    apply if_neg
    intro taken
    obtain ⟨sort, member⟩ := (ready.named _).mp taken
    rw [holds.signature] at member
    obtain ⟨other, inside, same⟩ := List.mem_map.mp member
    rw [variableName_injective (Prod.mk.inj same).1] at inside
    exact fresh inside
  have added : Solver.addVariable (variableName number) .boolean solver =
      .ok order.length (solver.withVariable (variableName number) .boolean) := by
    rw [Solver.addVariable_eq ready.input, unused, holds.size]
  constructor
  · unfold declare
    rw [bind_eq added]
    rfl
  · exact ready.withVariable unused .boolean

/-- Variables are declared under consecutive numbers. -/
theorem Progress.declareFrom (progress : Progress configuration declared [] [] [] loading solver)
    (count : Nat) :
    Ends (declareFrom loading (declared + 1) count) solver
      (fun later after => Progress configuration (declared + count) [] [] [] later after)
      fun _ _ => False := by
  -- The numbers go up while the count goes down, so the first of them varies.
  induction count generalizing declared loading solver with
  | zero => exact progress
  | succ count induction =>
      have fresh : declared + 1 ∉ variableOrder declared [] := by
        rw [variableOrder_nil, List.mem_range'_1]
        omega
      have grown : variableOrder declared [] ++ [declared + 1] =
          variableOrder (declared + 1) [] := by
        rw [variableOrder_nil, variableOrder_nil, List.range'_concat, Nat.one_mul, Nat.add_comm 1]
      obtain ⟨added, ready⟩ := declare_eq progress.ready progress.holds loading fresh
      have holds := progress.holds.withVariable fresh
      rw [grown] at holds
      have next : Progress configuration (declared + 1) [] [] [] { loading with
          atoms := loading.atoms.insert (declared + 1)
            (.var (variableOrder declared []).length) }
          (solver.withVariable (variableName (declared + 1)) .boolean) :=
        ⟨ready, progress.atomless, progress.reads, holds, progress.pending⟩
      have onward := induction next
      have total : declared + 1 + count = declared + (count + 1) := by omega
      rw [total] at onward
      unfold Dimacs.declareFrom
      rw [ends_known added]
      exact onward

omit [TheoryAtom τ] in
theorem accept_zero (loading : Loading) :
    (accept loading 0 : SolverM τ Loading) =
      Solver.addClause (.ofList loading.pending.reverse) >>= fun _ =>
        pure { loading with pending := [], clauses := loading.clauses + 1 } := rfl

omit [TheoryAtom τ] in
theorem accept_literal (loading : Loading) {number : Int} (nonzero : number ≠ 0) :
    (accept loading number : SolverM τ Loading) =
      (match loading.atoms[number.natAbs]? with
        | some atom => pure (atom, loading)
        | none => declare loading number.natAbs) >>= fun (atom, loading) =>
          pure { loading with pending := ⟨atom, decide (0 < number)⟩ :: loading.pending } := by
  unfold accept
  rw [if_neg nonzero]
  cases loading.atoms[number.natAbs]? <;> rfl

/-- A zero completes the clause that is pending. -/
theorem Progress.completed
    (progress : Progress configuration declared numbers clauses unfinished loading solver) :
    Ends (accept loading 0) solver
      (fun later after =>
        Progress configuration declared (numbers ++ [0]) (clauses ++ [unfinished]) [] later after)
      fun _ _ => False := by
  have mentioned := progress.reads.known declared
  have fitting : Solver.clauseError? solver (Clause.ofList loading.pending.reverse) = none := by
    apply Solver.clauseError?_eq_none.mpr
    intro literal member
    have inside := Clause.mem_ofList.mp member
    rw [progress.pending] at inside
    obtain ⟨number, within, rfl⟩ := List.mem_map.mp inside
    have poses := progress.holds.poses progress.ready progress.atomless
    apply poses.admits
    rw [List.length_map]
    exact List.idxOf_lt_length_of_mem (mentioned number within)
  have added : Solver.addClause (Clause.ofList loading.pending.reverse) solver =
      .ok solver.clauses.size (solver.withClause (Clause.ofList loading.pending.reverse)) := by
    rw [Solver.addClause_eq progress.ready.input, fitting]
  rw [accept_zero, ends_known added, ends_pure]
  refine ⟨progress.ready.withClause fitting, progress.atomless, progress.reads.finish, ?_, rfl⟩
  rw [variableOrder_zero, progress.pending]
  exact progress.holds.withClause mentioned

/-- Any other integer adds a literal, and a variable if its own is not known. -/
theorem Progress.extended
    (progress : Progress configuration declared numbers clauses unfinished loading solver)
    {number : Int} (nonzero : number ≠ 0) :
    Ends (accept loading number) solver
      (fun later after => Progress configuration declared (numbers ++ [number]) clauses
        (unfinished ++ [number]) later after)
      fun _ _ => False := by
  have order := variableOrder_snoc declared numbers nonzero
  have reads := progress.reads.snoc nonzero
  rw [accept_literal loading nonzero, progress.holds.atoms]
  by_cases known : number.natAbs ∈ variableOrder declared numbers
  · rw [if_pos known] at order
    rw [if_pos known]
    refine ⟨progress.ready, progress.atomless, reads, ?_, ?_⟩
    · rw [order]
      exact progress.holds
    · rw [order, List.reverse_cons, progress.pending, List.map_append]
      rfl
  · rw [if_neg known] at order
    rw [if_neg known]
    obtain ⟨added, ready⟩ := declare_eq progress.ready progress.holds loading known
    rw [ends_known added]
    refine ⟨ready, progress.atomless, reads, ?_, ?_⟩
    · rw [order]
      exact progress.holds.withVariable known
    · have former : unfinished.map (literalAt (variableOrder declared numbers ++
          [number.natAbs])) = unfinished.map (literalAt (variableOrder declared numbers)) :=
        List.map_congr_left fun other inside =>
          literalAt_append (progress.reads.known declared other inside) _
      rw [order, List.reverse_cons, progress.pending, List.map_append, former]
      simp [literalAt, List.idxOf_append_of_notMem known]

theorem Progress.accept
    (progress : Progress configuration declared numbers clauses unfinished loading solver)
    (number : Int) :
    Ends (accept loading number) solver
      (fun later after => ∃ clauses unfinished,
        Progress configuration declared (numbers ++ [number]) clauses unfinished later after)
      fun _ _ => False := by
  by_cases zero : number = 0
  · subst zero
    exact progress.completed.mono (fun _ _ onward => ⟨_, _, onward⟩) fun _ _ => id
  · exact (progress.extended zero).mono (fun _ _ onward => ⟨_, _, onward⟩) fun _ _ => id

theorem Progress.acceptAll
    (progress : Progress configuration declared numbers clauses unfinished loading solver)
    (further : List Int) :
    Ends (further.foldlM Dimacs.accept loading) solver
      (fun later after => ∃ clauses unfinished,
        Progress configuration declared (numbers ++ further) clauses unfinished later after)
      fun _ _ => False := by
  induction further generalizing numbers clauses unfinished loading solver with
  | nil =>
      rw [List.append_nil]
      exact ⟨clauses, unfinished, progress⟩
  | cons number further induction =>
      rw [List.foldlM_cons]
      apply Ends.bind (progress.accept number)
      · rintro later after ⟨_, _, onward⟩
        have rest := induction onward
        rwa [List.append_assoc] at rest
      · exact fun _ _ absurdity => absurdity

/-! ## Loading a document -/

theorem Progress.new (configuration : Configuration) :
    Progress configuration 0 [] [] [] {} (Solver.new configuration : Solver τ) where
  ready := .new configuration
  atomless := rfl
  reads := by
    have none : ∀ clause ∈ ([] : List (List Int)), 0 ∉ clause := nofun
    exact reads_numbersOf none
  holds := .new configuration
  pending := rfl

theorem Progress.emit
    (progress : Progress configuration declared numbers clauses unfinished loading solver)
    (event : Event) (plain : Solver.isSplit event = false) :
    Progress configuration declared numbers clauses unfinished loading
      { solver with events := solver.events.push event } where
  ready := progress.ready.emit event plain
  atomless := progress.atomless
  reads := progress.reads
  holds := progress.holds.emit event
  pending := progress.pending

theorem Progress.declareAll (progress : Progress configuration 0 [] [] [] loading solver)
    (header : Header) :
    Ends (Dimacs.declareAll loading header.variableCount) solver
      (fun later after => Progress configuration header.declaredCount [] [] [] later after)
      fun _ _ => False := by
  have ends := progress.declareFrom header.declaredCount
  simp only [Nat.zero_add] at ends
  exact ends

/-- What a document says is in the solver, and the document has no fault. -/
structure Loaded (configuration : Configuration) (document : Document)
    (atoms : Std.TreeMap Nat Atom) (solver : Solver τ) : Prop where
  faultless : document.fault = none
  ready : solver.Ready configuration
  atomless : solver.theoryAtoms = #[]
  formula : ∃ clauses unfinished, Reads document.numbers.toList clauses unfinished ∧
    Holds document.order clauses atoms solver

/-- The document is refused for its fault, after the clauses that are complete in it. -/
def Refused (document : Document) (fault : Fault) (solver : Solver τ) : Prop :=
  ∃ error, document.fault = some error ∧ fault = .error error ∧ ∃ clauses unfinished atoms,
    Reads document.numbers.toList clauses unfinished ∧ Holds document.order clauses atoms solver

/-- After the heading come the integers and then the fault, if there is one. -/
theorem Progress.loadNumbers {document : Document}
    (progress : Progress configuration (document.header.elim 0 Header.declaredCount) [] [] []
      loading solver) :
    Ends (do
        let loading ← document.numbers.toList.foldlM Dimacs.accept loading
        match document.fault with
        | some error => throw (.error error)
        | none =>
            Solver.emit (.sizeRead (← get).vars.size loading.clauses)
            return loading.atoms) solver
      (Loaded configuration document) (Refused document) := by
  apply Ends.bind (progress.acceptAll document.numbers.toList)
  · rintro loading after ⟨clauses, unfinished, progress⟩
    cases faulty : document.fault with
    | some error =>
        exact ⟨error, faulty, rfl, clauses, unfinished, loading.atoms, progress.reads,
          progress.holds⟩
    | none =>
        have told := progress.emit (.sizeRead after.vars.size loading.clauses) rfl
        exact ⟨faulty, told.ready, told.atomless, clauses, unfinished, told.reads, told.holds⟩
  · exact fun _ _ absurdity => absurdity.elim

/-- A document without a fault is loaded, and its clauses and variables are those that it
says.  Any other one is refused for its fault. -/
theorem ends_load (document : Document) (configuration : Configuration) :
    Ends (load document) (Solver.new configuration : Solver τ) (Loaded configuration document)
      (Refused document) := by
  have fresh := Progress.new (τ := τ) configuration
  unfold load
  cases heading : document.header with
  | none =>
      have progress : Progress configuration (document.header.elim 0 Header.declaredCount) [] [] []
          {} (Solver.new configuration : Solver τ) := by
        rw [heading]
        exact fresh
      exact progress.loadNumbers
  | some header =>
      have told := fresh.emit (.expectedSize header.variableCount header.clauseCount) rfl
      apply Ends.bind (told.declareAll header)
      · intro loading after progress
        rw [← Option.elim_some (f := Header.declaredCount), ← heading] at progress
        exact progress.loadNumbers
      · exact fun _ _ absurdity => absurdity.elim

theorem loads_of_faultless {document : Document} (faultless : document.fault = none)
    (configuration : Configuration) : ∃ (atoms : Std.TreeMap Nat Atom) (solver : Solver τ),
      load document (Solver.new configuration) = .ok atoms solver ∧
        Loaded configuration document atoms solver := by
  have ends := ends_load (τ := τ) document configuration
  unfold Ends at ends
  split at ends
  · next atoms solver loads => exact ⟨atoms, solver, loads, ends⟩
  · obtain ⟨error, faulty, -, -⟩ := ends
    cases faultless.symm.trans faulty

theorem refuses_of_fault {document : Document} {error : SolverError}
    (faulty : document.fault = some error) (configuration : Configuration) :
    ∃ solver : Solver τ,
      load document (Solver.new configuration) = .error (.error error) solver := by
  have ends := ends_load (τ := τ) document configuration
  unfold Ends at ends
  split at ends
  · cases ends.faultless.symm.trans faulty
  · next fault solver refuses =>
      obtain ⟨other, again, rfl, -⟩ := ends
      rw [Option.some.inj (faulty.symm.trans again)]
      exact ⟨solver, refuses⟩

/-! ## Loading a layout -/

/-- The literal of an integer under a map of the variables. -/
def literalUnder? (atoms : Std.TreeMap Nat Atom) (number : Int) : Option Literal :=
  atoms[number.natAbs]?.map fun atom => ⟨atom, decide (0 < number)⟩

omit [TheoryAtom τ] in
theorem Holds.literalUnder?_eq (holds : Holds order clauses atoms solver) {number : Int}
    (known : number.natAbs ∈ order) :
    literalUnder? atoms number = some (literalAt order number) := by
  rw [literalUnder?, holds.atoms, if_pos known]
  rfl

/-- Each stored clause is one of the formula, under the map. -/
def Stores (atoms : Std.TreeMap Nat Atom) (clause : List Int) (stored : StoredClause) : Prop :=
  ∃ literals, clause.map (literalUnder? atoms) = literals.map some ∧
    stored = ⟨Clause.ofList literals, .input, true⟩

omit [TheoryAtom τ] in
theorem Holds.stores (holds : Holds order clauses atoms solver) :
    List.Forall₂ (Stores atoms) clauses solver.clauses.clauses.toList := by
  rw [holds.clauses, List.forall₂_map_right_iff, List.forall₂_same]
  intro clause inside
  refine ⟨clause.map (literalAt order), ?_, rfl⟩
  rw [List.map_map]
  apply List.map_congr_left
  intro number within
  exact holds.literalUnder?_eq (holds.mentioned clause inside number within)

omit [TheoryAtom τ] in
theorem Holds.mem_atoms (holds : Holds order clauses atoms solver) {number : Nat} :
    number ∈ atoms ↔ number ∈ order := by
  rw [Std.TreeMap.mem_iff_isSome_getElem?, holds.atoms]
  split <;> simp [*]

omit [TheoryAtom τ] in
theorem Holds.injective (holds : Holds order clauses atoms solver) {left right : Nat}
    (known : left ∈ atoms) (same : atoms[left]? = atoms[right]?) : left = right := by
  have inside := holds.mem_atoms.mp known
  rw [holds.atoms, holds.atoms, if_pos inside] at same
  split at same
  · have positions := Atom.var.inj (Option.some.inj same)
    exact (List.idxOf_inj inside).mp positions
  · cases same

section Layouts

variable {variableCount : Nat} {text : List Char}

/-- The formula of a layout is loaded without a fault. -/
theorem Layout.holds (layout : Layout variableCount clauses text)
    (fewVariables : variableCount < Nat.pow 2 63) (fewClauses : clauses.length < Text.wordCount)
    (fitting : ∀ clause ∈ clauses, ∀ number ∈ clause,
      number ≠ 0 ∧ number.natAbs < Nat.pow 2 63) (configuration : Configuration) :
    ∃ (atoms : Std.TreeMap Nat Atom) (solver : Solver τ),
      load (Document.ofBytes (encode text)) (Solver.new configuration) = .ok atoms solver ∧
        Holds (variableOrder variableCount (numbersOf clauses)) clauses atoms solver := by
  have small : variableCount < Text.wordCount :=
    Nat.lt_trans fewVariables (Nat.pow_lt_pow_right (by decide) (by decide))
  have read := layout.read small fewClauses fitting
  have faultless : (Document.ofBytes (encode text)).fault = none := by rw [read]
  obtain ⟨atoms, solver, loads, loaded⟩ := loads_of_faultless (τ := τ) faultless configuration
  obtain ⟨others, unfinished, reads, holds⟩ := loaded.formula
  have whole : Reads (numbersOf clauses) clauses [] :=
    reads_numbersOf fun clause inside zero => (fitting clause inside 0 zero).1 rfl
  have order : (Document.ofBytes (encode text)).order =
      variableOrder variableCount (numbersOf clauses) := by
    rw [read, Document.order, Option.elim_some, Header.declaredCount, if_pos fewVariables]
  rw [read] at reads
  obtain ⟨rfl, -⟩ := whole.unique reads
  rw [order] at holds
  exact ⟨atoms, solver, loads, holds⟩

/-- Loading undoes every layout of a formula: the clauses are stored in their order, and the
variables follow one another as they are declared and then as they occur.  The two counts are
those that a heading can give. -/
theorem Layout.loads (layout : Layout variableCount clauses text)
    (fewVariables : variableCount < Nat.pow 2 63) (fewClauses : clauses.length < Text.wordCount)
    (fitting : ∀ clause ∈ clauses, ∀ number ∈ clause,
      number ≠ 0 ∧ number.natAbs < Nat.pow 2 63) (configuration : Configuration) :
    ∃ (atoms : Std.TreeMap Nat Atom) (solver : Solver τ),
      load (Document.ofBytes (encode text)) (Solver.new configuration) = .ok atoms solver ∧
      List.Forall₂ (Stores atoms) clauses solver.clauses.clauses.toList ∧
      (∀ number, number ∈ atoms ↔ 1 ≤ number ∧ number ≤ variableCount ∨
        ∃ clause ∈ clauses, ∃ literal ∈ clause, literal.natAbs = number) ∧
      (∀ left right, left ∈ atoms → atoms[left]? = atoms[right]? → left = right) ∧
      (∀ number, number ∈ atoms → atoms[number]? =
        some (.var ((variableOrder variableCount (numbersOf clauses)).idxOf number))) ∧
      (∀ number, 1 ≤ number → number ≤ variableCount → atoms[number]? = some (.var (number - 1))) ∧
      solver.vars.signature = (variableOrder variableCount (numbersOf clauses)).map fun number =>
        (variableName number, .boolean) := by
  obtain ⟨atoms, solver, loads, holds⟩ :=
    layout.holds (τ := τ) fewVariables fewClauses fitting configuration
  refine ⟨atoms, solver, loads, holds.stores, ?domain, fun _ _ => holds.injective, ?keys, ?declared,
    holds.signature⟩
  case domain =>
    intro number
    rw [holds.mem_atoms, mem_variableOrder_numbersOf]
    exact fun clause inside literal within => (fitting clause inside literal within).1
  case keys =>
    intro number known
    rw [holds.atoms, if_pos (holds.mem_atoms.mp known)]
  case declared =>
    intro number positive inside
    rw [holds.atoms, if_pos (mem_variableOrder.mpr (.inl ⟨positive, inside⟩)),
      idxOf_variableOrder _ positive inside]

/-- A clause over two lines, with a comment between them and more text after it. -/
def brokenClause : List Char := "p cnf 2 1\n1\nc both\n -3 0 end".toList

theorem brokenClause_layout : Layout 2 [[1, -3]] brokenClause := by
  have shape : brokenClause = "p cnf 2 1".toList ++ '\n' :: ("1".toList ++ '\n' ::
      ("c both".toList ++ '\n' :: (" -3 0".toList ++ " end".toList))) := by decide +kernel
  have heading : Heading 2 1 "p cnf 2 1".toList :=
    ⟨['2'], ['1'], Text.spaced_iff.mpr (by decide +kernel), .plain 0 2, .plain 0 1⟩
  have first : Row [1] "1".toList :=
    ⟨[['1']], Text.spaced_iff.mpr (by decide +kernel), .cons (.natural (.plain 0 1)) .nil⟩
  have comment : Comment "c both".toList := ⟨[], " both".toList, by decide +kernel, nofun⟩
  have second : Row [-3, 0] " -3 0".toList :=
    ⟨[['-', '3'], ['0']], Text.spaced_iff.mpr (by decide +kernel),
      .cons (.negative 0 3) (.cons (.natural (.plain 0 0)) .nil)⟩
  have apart : Text.Apart " end".toList := by
    have blank : " end".toList.head? = some ' ' := by decide +kernel
    intro character start
    rw [Option.some.inj (start.symm.trans blank)]
    decide
  have body : Body ([1] ++ [-3, 0]) _ := .row (by decide +kernel) first
    (.comment (by decide +kernel) comment (.last (by decide +kernel) second nofun apart))
  rw [shape]
  exact .heading (by decide +kernel) heading body

/-- The third variable is not declared, and comes last. -/
theorem brokenClause_loads : Layout 2 [[1, -3]] brokenClause ∧ 2 < Nat.pow 2 63 ∧
    1 < Text.wordCount ∧
    (∀ clause ∈ [[1, -3]], ∀ number ∈ clause, number ≠ 0 ∧ Int.natAbs number < Nat.pow 2 63) ∧
    ∃ (atoms : Std.TreeMap Nat Atom) (solver : Solver Empty),
      load (Document.ofBytes (encode brokenClause)) (Solver.new {}) = .ok atoms solver ∧
      solver.vars.signature = [("var1", .boolean), ("var2", .boolean), ("var3", .boolean)] := by
  have fitting : ∀ clause ∈ [[1, -3]], ∀ number ∈ clause,
      number ≠ 0 ∧ Int.natAbs number < Nat.pow 2 63 := by decide
  obtain ⟨atoms, solver, loads, _, _, _, _, _, signature⟩ :=
    brokenClause_layout.loads (τ := Empty) (by decide) (by decide) fitting {}
  exact ⟨brokenClause_layout, by decide, by decide, fitting, atoms, solver, loads,
    signature.trans (by decide)⟩

end Layouts

end Dimacs

end ModelSearch
