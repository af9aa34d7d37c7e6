import ModelSearch.Command.Transcript
import ModelSearch.Proofs.Dimacs.Loading

/-!
# Transcripts of runs

A run of the command without a time limit ends with one of three exit codes.  It is refused
if its text cannot be read, and otherwise it says whether the clauses of the text have a
model.  The model that it shows is spelled in the numbers of the text.

Numbers become keys while the text is loaded, and names become numbers again when a model is
shown, so both directions meet here.
-/

namespace ModelSearch.Command

open Dimacs

/-! ## Models in numbers -/

/-- Each clause has a literal that the truth assignment makes true. -/
def Models (truth : Nat → Bool) (formula : List (List Int)) : Prop :=
  ∀ clause ∈ formula, ∃ literal ∈ clause, truth literal.natAbs = decide (0 < literal)

/-- Some truth assignment makes each clause true. -/
def Satisfiable (formula : List (List Int)) : Prop := ∃ truth, Models truth formula

/-- The literal of a number that is true. -/
def trueLiteral (truth : Nat → Bool) (number : Nat) : Int :=
  if truth number then number else -number

theorem natAbs_trueLiteral (truth : Nat → Bool) (number : Nat) :
    (trueLiteral truth number).natAbs = number := by
  unfold trueLiteral
  split <;> simp

theorem trueLiteral_natAbs {truth : Nat → Bool} {literal : Int}
    (holds : truth literal.natAbs = decide (0 < literal)) :
    trueLiteral truth literal.natAbs = literal := by
  unfold trueLiteral
  rw [holds]
  by_cases positive : 0 < literal
  · rw [decide_eq_true positive, if_pos rfl]
    omega
  · rw [decide_eq_false positive, if_neg Bool.false_ne_true]
    omega

variable {order : List Nat} {formula : List (List Int)}
  {atoms : Std.TreeMap Nat Atom} {solver : Solver Empty} {options : Options}

theorem natAbs_trueLiterals (truth : Nat → Bool) (order : List Nat) :
    (order.map (trueLiteral truth)).map Int.natAbs = order := by
  simp [Function.comp_def, natAbs_trueLiteral]

theorem zero_notMem_trueLiterals (truth : Nat → Bool) (positive : ∀ number ∈ order, 1 ≤ number) :
    0 ∉ order.map (trueLiteral truth) := by
  intro zero
  obtain ⟨number, inside, same⟩ := List.mem_map.mp zero
  have above := positive number inside
  rw [← natAbs_trueLiteral truth number, same] at above
  cases above

/-- A model makes a literal of each clause true. -/
theorem Models.chosen {truth : Nat → Bool} (models : Models truth formula)
    (mentioned : ∀ clause ∈ formula, ∀ literal ∈ clause, literal.natAbs ∈ order) :
    ∀ clause ∈ formula, ∃ literal ∈ clause, literal ∈ order.map (trueLiteral truth) := by
  intro clause read
  obtain ⟨literal, within, same⟩ := models clause read
  have chosen := List.mem_map_of_mem (f := trueLiteral truth) (mentioned clause read literal within)
  rw [trueLiteral_natAbs same] at chosen
  exact ⟨literal, within, chosen⟩

/-! ## Models in keys -/

theorem over_of_holds (holds : Holds order formula atoms solver) :
    ∀ literals ∈ formula.map fun clause => clause.map (literalAt order),
      Solver.Over (order.map variableName).length literals := by
  intro literals member literal inside
  obtain ⟨clause, read, rfl⟩ := List.mem_map.mp member
  obtain ⟨number, within, rfl⟩ := List.mem_map.mp inside
  refine ⟨_, ?_, rfl⟩
  rw [List.length_map]
  exact List.idxOf_lt_length_of_mem (holds.mentioned clause read number within)

theorem models_of_satisfies {truth : VariableKey → Bool}
    (satisfies : Solver.Satisfies truth (formula.map fun clause => clause.map (literalAt order))) :
    Models (fun number => truth (order.idxOf number)) formula := by
  intro clause read
  obtain ⟨_, inside, key, same, holds⟩ := satisfies _ (List.mem_map_of_mem read)
  obtain ⟨number, within, rfl⟩ := List.mem_map.mp inside
  cases same
  exact ⟨number, within, holds⟩

theorem satisfies_of_models (holds : Holds order formula atoms solver) {truth : Nat → Bool}
    (models : Models truth formula) :
    Solver.Satisfies (fun key => truth (order.getD key 0))
      (formula.map fun clause => clause.map (literalAt order)) := by
  intro literals member
  obtain ⟨clause, read, rfl⟩ := List.mem_map.mp member
  obtain ⟨number, within, same⟩ := models clause read
  refine ⟨literalAt order number, List.mem_map_of_mem within, _, rfl, ?_⟩
  have known := holds.mentioned clause read number within
  have found : order.getD (order.idxOf number.natAbs) 0 = number.natAbs := by
    rw [List.getD_eq_getElem?_getD, List.getElem?_idxOf known, Option.getD_some]
  show truth (order.getD (order.idxOf number.natAbs) 0) = _
  rw [found]
  exact same

/-! ## What is shown -/

/-- The lines that begin with a letter. -/
def Transcript.marked (transcript : Transcript) (letter : Char) : List String :=
  transcript.lines.filter fun line => line.toList.head? == some letter

/-- The literals of a model in a line ended by zero. -/
def modelLine (literals : List Int) : String :=
  "v " ++ String.intercalate " " (literals.map toString) ++ " 0"

theorem spells_toString (number : Int) : Text.Spells (toString number).toList number := by
  cases number with
  | ofNat number =>
      have shape : (toString (Int.ofNat number)).toList = Text.padded 0 number := by
        simp [Text.padded, toString, Int.repr]
      rw [shape]
      exact .natural (.plain 0 number)
  | negSucc number =>
      have shape : (toString (Int.negSucc number)).toList = '-' :: Text.padded 0 (number + 1) := by
        simp [Text.padded, toString, Int.repr]
      rw [shape]
      exact .negative 0 (number + 1)

/-- Each literal is spelled after a blank. -/
def spelledOut (literals : List Int) : List Char :=
  literals.flatMap fun literal => ' ' :: (toString literal).toList

private theorem apart_spelledOut (literals : List Int) : Text.Apart (spelledOut literals) := by
  intro character first
  cases literals with
  | nil => cases first
  | cons literal literals =>
      cases first
      decide

theorem row_spelledOut (literals : List Int) : Row literals (spelledOut literals) := by
  induction literals with
  | nil => exact ⟨[], .nil nofun, .nil⟩
  | cons literal literals induction =>
      exact induction.cons (spells_toString literal) (apart_spelledOut literals)

private theorem toList_modelLine {literals : List Int} (filled : literals ≠ []) :
    (modelLine literals).toList = 'v' :: spelledOut (literals ++ [0]) := by
  obtain ⟨literal, literals, rfl⟩ := List.exists_cons_of_ne_nil filled
  have zero : (Int.repr 0).toList = ['0'] := by decide
  induction literals generalizing literal with
  | nil => simp [modelLine, spelledOut, zero]
  | cons next literals induction =>
      have rest := induction next (List.cons_ne_nil next literals)
      simp only [modelLine, spelledOut] at rest ⊢
      simpa using rest

/-- The literals of a model can be read back from its line. -/
theorem modelLine_row {literals : List Int} (filled : literals ≠ []) :
    ∃ row, (modelLine literals).toList = 'v' :: row ∧ Row (literals ++ [0]) row :=
  ⟨_, toList_modelLine filled, row_spelledOut _⟩

theorem numberOfName?_variableName {number : Nat} (small : number < Nat.pow 2 63) :
    numberOfName? (variableName number) = some (number : Int) := by
  have spells : Text.Spells (Text.padded 0 number) number := .natural (.plain 0 number)
  unfold numberOfName?
  rw [toList_variableName]
  exact (spells.signedWord? small).1

/-- What is shown of each variable, lines of their own first. -/
private theorem modelLines_shown {valuation : List (String × Option Value)}
    {shown : List (Int ⊕ String)}
    (listed : valuation.map (fun entry => showVariable entry.1 entry.2) = shown) :
    modelLines valuation =
      if (shown.filterMap Sum.getLeft?).isEmpty then shown.filterMap Sum.getRight?
      else shown.filterMap Sum.getRight? ++ [modelLine (shown.filterMap Sum.getLeft?)] := by
  rw [← listed]
  rfl

/-- A model of numbered variables is one line of literals. -/
theorem modelLines_eq (bounded : ∀ number ∈ order, number < Nat.pow 2 63) (filled : order ≠ [])
    (truth : Nat → Bool) :
    modelLines (order.map fun number => (variableName number, some (.boolean (truth number)))) =
      [modelLine (order.map (trueLiteral truth))] := by
  have shown : (order.map fun number =>
        (variableName number, some (Value.boolean (truth number)))).map
      (fun entry => showVariable entry.1 entry.2) =
        (order.map (trueLiteral truth)).map Sum.inl := by
    rw [List.map_map, List.map_map]
    apply List.map_congr_left
    intro number inside
    simp [showVariable, numberOfName?_variableName (bounded number inside), trueLiteral]
  rw [modelLines_shown shown]
  simp [List.filterMap_map, filled, Function.comp_def]

theorem head?_modelLines (valuation : List (String × Option Value)) :
    ∀ line ∈ modelLines valuation, line.toList.head? = some 'v' := by
  have others : ∀ line ∈ (valuation.map fun entry => showVariable entry.1 entry.2).filterMap
      Sum.getRight?, line.toList.head? = some 'v' := by
    intro line member
    obtain ⟨shown, inside, right⟩ := List.mem_filterMap.mp member
    obtain ⟨entry, _, rfl⟩ := List.mem_map.mp inside
    unfold showVariable at right
    split at right <;> cases right <;> simp
  intro line member
  rw [modelLines_shown rfl] at member
  split at member
  · exact others line member
  · rcases List.mem_append.mp member with other | last
    · exact others line other
    · rw [List.mem_singleton.mp last]
      simp [modelLine]

theorem head?_statisticLines (counters : Counters) :
    ∀ line ∈ statisticLines counters, line.toList.head? = some 'c' := by
  simp [statisticLines]

theorem filter_marked {lines : List String} {letter : Char}
    (starts : ∀ line ∈ lines, line.toList.head? = some letter) (other : Char) :
    lines.filter (fun line => line.toList.head? == some other) =
      if letter = other then lines else [] := by
  split
  · next same =>
      apply List.filter_eq_self.mpr
      intro line member
      simp [starts line member, same]
  · next different =>
      apply List.filter_eq_nil_iff.mpr
      intro line member
      simp [starts line member, different]

/-- After a search one line gives the report, and the others that do not count anything show
the model. -/
theorem marked_conclude (options : Options) (report : Report) (rest : Solver Empty) :
    (conclude options report rest).marked 's' = ["s " ++ report.render] ∧
    (conclude options report rest).marked 'v' =
      if options.model && report == .satisfiable then modelLines rest.valuation else [] := by
  have answer : ∀ line ∈ ["s " ++ report.render], line.toList.head? = some 's' := by simp
  have model : ∀ line ∈ (if options.model && report == .satisfiable then modelLines rest.valuation
      else []), line.toList.head? = some 'v' := by
    split
    · exact head?_modelLines rest.valuation
    · nofun
  have stats : ∀ line ∈ (if options.stats then statisticLines rest.counters else []),
      line.toList.head? = some 'c' := by
    split
    · exact head?_statisticLines rest.counters
    · nofun
  unfold Transcript.marked conclude
  dsimp only
  simp only [List.filter_append, filter_marked answer, filter_marked model, filter_marked stats]
  constructor <;> simp

/-! ## What a run settles -/

/-- The transcript answers whether the formula has a model, and shows one if it is asked to:
each variable occurs once, and each clause has one of the literals. -/
structure Settles (options : Options) (formula : List (List Int)) (atoms : Std.TreeMap Nat Atom)
    (transcript : Transcript) : Prop where
  satisfiable : Satisfiable formula →
    transcript.exitCode = 10 ∧ transcript.marked 's' = ["s SATISFIABLE"]
  unsatisfiable : ¬Satisfiable formula →
    transcript.exitCode = 20 ∧ transcript.marked 's' = ["s UNSATISFIABLE"]
  model : options.model = true → Satisfiable formula → (∃ number, number ∈ atoms) →
    ∃ literals, transcript.marked 'v' = [modelLine literals] ∧
      (∃ row, (modelLine literals).toList = 'v' :: row ∧ Row (literals ++ [0]) row) ∧
      (literals.map Int.natAbs).Nodup ∧
      (∀ number, number ∈ literals.map Int.natAbs ↔ number ∈ atoms) ∧
      0 ∉ literals ∧ ∀ clause ∈ formula, ∃ literal ∈ clause, literal ∈ literals

theorem Settles.exitCode {transcript : Transcript}
    (settles : Settles options formula atoms transcript) :
    transcript.exitCode = 10 ∨ transcript.exitCode = 20 := by
  by_cases some : Satisfiable formula
  · exact .inl (settles.satisfiable some).1
  · exact .inr (settles.unsatisfiable some).1

private theorem valuation_numbered (once : order.Nodup) (truth : VariableKey → Bool) :
    (order.map variableName).mapIdx (fun key name => (name, some (Value.boolean (truth key)))) =
      order.map fun number =>
        (variableName number, some (Value.boolean (truth (order.idxOf number)))) := by
  apply List.ext_getElem
  · simp
  · intro key _ _
    simp [once.idxOf_getElem]

theorem settles_conclude (options : Options) (holds : Holds order formula atoms solver)
    (bounded : ∀ number ∈ order, 1 ≤ number ∧ number < Nat.pow 2 63) {report : Report}
    {rest : Solver Empty}
    (answers : (report = .satisfiable ∧
        Solver.Satisfies rest.assignedTruth
          (formula.map fun clause => clause.map (literalAt order)) ∧
        rest.valuation = (order.map variableName).mapIdx fun key name =>
          (name, some (.boolean (rest.assignedTruth key)))) ∨
      report = .unsatisfiable ∧ ¬∃ truth, Solver.Satisfies truth
        (formula.map fun clause => clause.map (literalAt order))) :
    Settles options formula atoms (conclude options report rest) := by
  obtain ⟨answer, model⟩ := marked_conclude options report rest
  rcases answers with ⟨rfl, satisfies, valuation⟩ | ⟨rfl, unsatisfied⟩
  · -- From here on a truth value belongs to a number, not to a key.
    obtain ⟨truth, models, shown⟩ : ∃ truth, Models truth formula ∧ rest.valuation =
        order.map fun number => (variableName number, some (.boolean (truth number))) :=
      ⟨_, models_of_satisfies satisfies, valuation.trans (valuation_numbered holds.once _)⟩
    refine ⟨fun _ => ⟨rfl, answer⟩, fun none => absurd ⟨_, models⟩ none, ?_⟩
    rintro asked - ⟨number, known⟩
    have filled : order ≠ [] := List.ne_nil_of_mem (holds.mem_atoms.mp known)
    have line : (conclude options .satisfiable rest).marked 'v' =
        [modelLine (order.map (trueLiteral truth))] := by
      rw [model, asked, if_pos (by decide), shown,
        modelLines_eq (fun number inside => (bounded number inside).2) filled]
    refine ⟨order.map (trueLiteral truth), line, modelLine_row (by simpa using filled), ?_⟩
    rw [natAbs_trueLiterals]
    exact ⟨holds.once, fun _ => holds.mem_atoms.symm,
      zero_notMem_trueLiterals truth fun number inside => (bounded number inside).1,
      models.chosen holds.mentioned⟩
  · have none : ¬Satisfiable formula := by
      rintro ⟨truth, models⟩
      exact unsatisfied ⟨_, satisfies_of_models holds models⟩
    exact ⟨fun some => absurd some none, fun _ => ⟨rfl, answer⟩,
      fun _ some => absurd some none⟩

variable {arguments : List String}

section Runs

variable (asked : Request.ofArguments arguments = .solve options) (standard : options.file = none)
  {bytes : List UInt8} (file : String → Source) (fuel : Nat)

include asked standard

theorem run_of_loads {atoms : Std.TreeMap Nat Atom} {start : Solver Empty}
    (loads : load (Document.ofBytes bytes) (Solver.new options.configuration) = .ok atoms start) :
    run fuel arguments (.content bytes) file =
      concludeResult options (Solver.solve fuel start) := by
  simp only [run, asked, Request.settle, standard, loadSource, EStateM.run, loads]

theorem run_of_refuses {fault : Fault} {rest : Solver Empty}
    (refuses : load (Document.ofBytes bytes) (Solver.new options.configuration) =
      .error fault rest) :
    run fuel arguments (.content bytes) file = ofFault "c Error loading DIMACS: " fault := by
  simp only [run, asked, Request.settle, standard, loadSource, EStateM.run, refuses]

end Runs

/-- A formula that was loaded is searched with the same outcome, however much fuel there is
beyond some bound. -/
theorem settles_solve {configuration : Configuration} (options : Options)
    (ready : solver.Ready configuration) (atomless : solver.theoryAtoms = #[])
    (limitless : configuration.timeLimit = none) (holds : Holds order formula atoms solver)
    (bounded : ∀ number ∈ order, 1 ≤ number ∧ number < Nat.pow 2 63) :
    ∃ transcript, Settles options formula atoms transcript ∧
      ∀ fuel, (order.length + 1) ^ (order.length + 1) < fuel →
        concludeResult options (Solver.solve fuel solver) = transcript := by
  have poses := holds.poses ready atomless
  have enough := Nat.lt_succ_self
    (((order.map variableName).length + 1) ^ ((order.map variableName).length + 1))
  obtain ⟨report, rest, answered, steps, outcome⟩ := (poses.ends enough).answer
  have answers := poses.answers (over_of_holds holds) limitless steps outcome
  refine ⟨conclude options report rest, settles_conclude options holds bounded answers, ?_⟩
  intro fuel more
  rw [List.length_map] at answered
  have again : Solver.solve fuel solver = .ok report rest := by
    rw [← answered]
    apply Solver.solve_of_le more
    intro other exhausted
    rw [answered] at exhausted
    cases exhausted
  rw [again]
  rfl

/-- A run without a time limit is refused exactly if its text is, and otherwise it settles
whether the clauses of the text have a model. -/
theorem run_settles (asked : Request.ofArguments arguments = .solve options)
    (standard : options.file = none) (limitless : options.configuration.timeLimit = none)
    (bytes : List UInt8) (file : String → Source) :
    ∃ transcript,
      (∀ fuel, ((Document.ofBytes bytes).order.length + 1) ^
          ((Document.ofBytes bytes).order.length + 1) < fuel →
        run fuel arguments (.content bytes) file = transcript) ∧
      (transcript.exitCode = 1 ↔ ∃ fault rest, load (Document.ofBytes bytes)
        (Solver.new options.configuration : Solver Empty) = .error fault rest) ∧
      ∀ atoms start, load (Document.ofBytes bytes)
          (Solver.new options.configuration : Solver Empty) = .ok atoms start →
        ∃ formula unfinished,
          Reads (Document.ofBytes bytes).numbers.toList formula unfinished ∧
          List.Forall₂ (Stores atoms) formula start.clauses.clauses.toList ∧
          Settles options formula atoms transcript := by
  cases fault : (Document.ofBytes bytes).fault with
  | some error =>
      obtain ⟨rest, refuses⟩ := refuses_of_fault (τ := Empty) fault options.configuration
      refine ⟨ofFault "c Error loading DIMACS: " (.error error), ?_, ?_, ?_⟩
      · intro fuel _
        exact run_of_refuses asked standard file fuel refuses
      · exact ⟨fun _ => ⟨_, rest, refuses⟩, fun _ => rfl⟩
      · intro atoms start loads
        cases refuses.symm.trans loads
  | none =>
      obtain ⟨atoms, start, loads, loaded⟩ :=
        loads_of_faultless (τ := Empty) fault options.configuration
      obtain ⟨formula, unfinished, reads, holds⟩ := loaded.formula
      obtain ⟨transcript, settles, ends⟩ := settles_solve options loaded.ready loaded.atomless
        limitless holds (Document.order_bounded bytes)
      refine ⟨transcript, ?_, ?_, ?_⟩
      · intro fuel more
        rw [run_of_loads asked standard file fuel loads]
        exact ends fuel more
      · constructor
        · intro refused
          have codes := settles.exitCode
          omega
        · rintro ⟨fault, rest, refuses⟩
          cases loads.symm.trans refuses
      · intro others again loadsAgain
        cases loads.symm.trans loadsAgain
        exact ⟨formula, unfinished, reads, holds.stores, settles⟩

/-- The formula of a broken clause has a model, and a run shows one of the third variable too. -/
theorem run_brokenClause : Request.ofArguments ["--model"] = .solve { model := true } ∧
    ∃ transcript literals,
      (∀ fuel, 256 < fuel → run fuel ["--model"] (.content (encode brokenClause))
        (fun _ => .unreadable) = transcript) ∧
      transcript.exitCode = 10 ∧ transcript.marked 'v' = [modelLine literals] ∧
      (1 ∈ literals ∨ -3 ∈ literals) := by
  have asked : Request.ofArguments ["--model"] = .solve { model := true } := by decide +kernel
  have read := brokenClause_layout.read (by decide) (by decide) (by decide)
  have order : (Document.ofBytes (encode brokenClause)).order = [1, 2, 3] := by
    rw [read]
    decide
  obtain ⟨transcript, ends, _, settled⟩ :=
    run_settles asked rfl rfl (encode brokenClause) fun _ => .unreadable
  rw [order] at ends
  obtain ⟨atoms, start, loads, holds⟩ :=
    brokenClause_layout.holds (τ := Empty) (by decide) (by decide) (by decide) {}
  obtain ⟨formula, unfinished, reads, _, settles⟩ := settled atoms start loads
  rw [read] at reads
  have whole : Reads (numbersOf [[1, -3]]) [[1, -3]] [] := reads_numbersOf (by decide)
  obtain ⟨rfl, -⟩ := whole.unique reads
  have some : Satisfiable [[1, -3]] := ⟨fun _ => true, by unfold Models; decide⟩
  have known : 1 ∈ atoms := holds.mem_atoms.mpr (by decide)
  obtain ⟨literals, line, _, _, _, _, chosen⟩ := settles.model rfl some ⟨1, known⟩
  refine ⟨asked, transcript, literals, ends, (settles.satisfiable some).1, line, ?_⟩
  simpa using chosen

end ModelSearch.Command
