import Mathlib.Data.List.Forall2
import ModelSearch.Proofs.Dimacs.Texts

/-!
# Layouts of a formula

A formula in clauses can be written in many ways.  Comments and blank lines may precede its
heading, comments may stand between any lines, a clause may be broken over lines, and a
line may hold several clauses.  After the last clause any text may follow.

A layout is a relation between a formula and its texts.  Reading undoes every layout.
-/

namespace ModelSearch.Dimacs

open Text

/-! ## Writing a formula -/

/-- The first character of the line that is not blank is the letter c. -/
def Comment (line : List Char) : Prop :=
  ∃ gap rest, line = gap ++ 'c' :: rest ∧ ∀ character ∈ gap, isBlank character = true

/-- Integers in their order, with blanks around them. -/
def Row (numbers : List Int) (text : List Char) : Prop :=
  ∃ written, Spaced written text ∧ List.Forall₂ Spells written numbers

/-- The letter p, the word "cnf", and the numbers of variables and clauses. -/
def Heading (variableCount clauseCount : Nat) (line : List Char) : Prop :=
  ∃ first second, Spaced ["p".toList, "cnf".toList, first, second] line ∧
    SpellsNatural first variableCount ∧ SpellsNatural second clauseCount

/-- Lines that are comments or rows, until all integers are written.  The last row ends with
the text, or a blank separates it from whatever follows. -/
inductive Body : List Int → List Char → Prop
  | done (rest : List Char) : Body [] rest
  | comment {numbers : List Int} {line rest : List Char} (inside : '\n' ∉ line)
      (comment : Comment line) (body : Body numbers rest) : Body numbers (line ++ '\n' :: rest)
  | row {numbers later : List Int} {line rest : List Char} (inside : '\n' ∉ line)
      (row : Row numbers line) (body : Body later rest) :
      Body (numbers ++ later) (line ++ '\n' :: rest)
  | last {numbers : List Int} {line rest : List Char} (inside : '\n' ∉ line)
      (row : Row numbers line) (some : numbers ≠ []) (apart : Apart rest) :
      Body numbers (line ++ rest)

/-- The integers of clauses in a row, each clause ended by a zero. -/
def numbersOf (clauses : List (List Int)) : List Int := clauses.flatMap (· ++ [0])

/-- The text is a layout of the clauses under a heading that gives their number, and some
number of variables. -/
inductive Layout (variableCount : Nat) (clauses : List (List Int)) : List Char → Prop
  | aside {line rest : List Char} (inside : '\n' ∉ line)
      (aside : (∀ character ∈ line, isBlank character = true) ∨ Comment line)
      (layout : Layout variableCount clauses rest) :
      Layout variableCount clauses (line ++ '\n' :: rest)
  | heading {line rest : List Char} (inside : '\n' ∉ line)
      (heading : Heading variableCount clauses.length line)
      (body : Body (numbersOf clauses) rest) :
      Layout variableCount clauses (line ++ '\n' :: rest)
  | headingOnly {line : List Char} (inside : '\n' ∉ line)
      (heading : Heading variableCount clauses.length line) (none : clauses = []) :
      Layout variableCount clauses line

/-- An integer is put in front of others, after a blank. -/
theorem Row.cons {number : Int} {numbers : List Int} {word text : List Char}
    (row : Row numbers text) (spells : Spells word number) (apart : Apart text) :
    Row (number :: numbers) (' ' :: (word ++ text)) := by
  obtain ⟨written, spaced, spelled⟩ := row
  have numeral := spells.numeral
  have nonempty : word ≠ [] := by
    obtain ⟨head, tail, rfl, _⟩ := numeral.first
    exact List.cons_ne_nil head tail
  have blank : ∀ character ∈ [' '], isBlank character = true := by
    intro character member
    rw [List.mem_singleton.mp member]
    decide
  exact ⟨word :: written, .cons blank nonempty numeral.inked apart spaced, .cons spells spelled⟩

/-! ## Lines and items -/

/-- The lines of a text, numbered from some number on. -/
def numbered (start : Nat) (text : List Char) : List Line :=
  ((textLines text).zipIdx start).map fun (line, before) => ⟨before, some line⟩

theorem linesOf_encode (text : List Char) : linesOf (encode text) = numbered 0 text := by
  unfold linesOf numbered
  rw [splitLines_encode, List.zipIdx_map, List.map_map]
  simp [Function.comp_def, decodeLine_encode]

theorem numbered_append {line rest : List Char} (inside : '\n' ∉ line) (start : Nat) :
    numbered start (line ++ '\n' :: rest) = ⟨start, some line⟩ :: numbered (start + 1) rest := by
  simp [numbered, textLines_append inside]

private theorem apart_of_textLines {rest line : List Char} {lines : List (List Char)}
    (apart : Apart rest) (shape : textLines rest = line :: lines) : Apart line := by
  cases rest with
  | nil => cases shape
  | cons character rest =>
      have blank := apart character rfl
      rw [textLines] at shape
      split at shape
      · cases shape
        exact apart_nil
      · split at shape <;> cases shape
        all_goals
          rintro other ⟨⟩
          exact blank

/-- A text that begins within a line has this line first. -/
theorem textLines_front {front rest : List Char} (inside : '\n' ∉ front) (some : front ≠ [])
    (apart : Apart rest) : ∃ tail lines, textLines (front ++ rest) = (front ++ tail) :: lines ∧
      Apart tail := by
  induction front with
  | nil => exact absurd rfl some
  | cons character front induction =>
      rw [List.mem_cons, not_or] at inside
      rw [List.cons_append, textLines, if_neg (Ne.symm inside.1)]
      cases front with
      | nil =>
          rw [List.nil_append]
          cases shape : textLines rest with
          | nil => exact ⟨[], [], rfl, apart_nil⟩
          | cons line lines => exact ⟨line, lines, rfl, apart_of_textLines apart shape⟩
      | cons next front =>
          obtain ⟨tail, lines, shape, apartTail⟩ :=
            induction inside.2 (List.cons_ne_nil next front)
          rw [shape]
          exact ⟨tail, lines, rfl, apartTail⟩

theorem itemsOf_comment {line : List Char} (comment : Comment line) (before : Nat) :
    itemsOf ⟨before, some line⟩ = [] := by
  obtain ⟨gap, rest, rfl, blank⟩ := comment
  simp [itemsOf, firstInk?_gap blank, firstInk?_cons (show isBlank 'c' = false by decide)]

/-- Where a row begins a line, its words are the first items. -/
theorem itemsOf_row {numbers : List Int} {written : List (List Char)} {line tail : List Char}
    (spaced : Spaced written line) (spells : List.Forall₂ Spells written numbers)
    (apart : Apart tail) (starts : numbers ≠ [] ∨ tail = []) (before : Nat) :
    itemsOf ⟨before, some (line ++ tail)⟩ =
      written.map (.word (before + 1)) ++ (words tail).map (.word (before + 1)) := by
  have listed := spaced.words_append apart
  cases spaced with
  | nil blank =>
      cases spells
      rw [starts.resolve_left (fun some => some rfl), List.append_nil]
      simp [itemsOf, firstInk?_blank blank, Text.Spaced.words_eq (.nil blank)]
  | @cons gap word rest words blank nonempty inked following spaced =>
      obtain ⟨_, _, spelled, _⟩ := List.forall₂_cons_left_iff.mp spells
      obtain ⟨head, more, rfl, kind⟩ := spelled.numeral.first
      have ink := spelled.numeral.inked head List.mem_cons_self
      have first : firstInk? (gap ++ (head :: more) ++ rest ++ tail) = some head := by
        rw [List.append_assoc, List.append_assoc, firstInk?_gap blank]
        exact firstInk?_cons ink
      have percent : head ≠ '%' := by
        rintro rfl
        revert kind
        decide
      have letter : head ≠ 'c' := by
        rintro rfl
        revert kind
        decide
      unfold itemsOf
      simp only [first, listed, List.map_append]
      split
      · next same => exact absurd (Option.some.inj same) percent
      · next same => exact absurd (Option.some.inj same) letter
      · rfl

/-! ## Reading the body -/

theorem literal?_of_spells {text : List Char} {number : Int} (spells : Spells text number)
    (small : number.natAbs < Nat.pow 2 63) : literal? text = some number := by
  obtain ⟨read, different⟩ := spells.signedWord? small
  simp [literal?, read, different]

/-- More zeros are wanted wherever an integer is still to come. -/
def Due (wanted : Nat) (numbers : List Int) : Prop :=
  ∀ front back, numbers = front ++ back → back ≠ [] → front.count 0 < wanted

theorem Due.left {wanted : Nat} {numbers later : List Int} (due : Due wanted (numbers ++ later)) :
    Due wanted numbers := by
  rintro front back rfl some
  exact due front (back ++ later) (List.append_assoc _ _ _) (by simp [some])

theorem Due.right {wanted : Nat} {numbers later : List Int} (due : Due wanted (numbers ++ later)) :
    Due (wanted - numbers.count 0) later := by
  rintro front back rfl some
  have below := due (numbers ++ front) back (List.append_assoc _ _ _).symm some
  rw [List.count_append] at below
  omega

theorem readNumbers_words (header : Option Header) {written : List (List Char)}
    {numbers : List Int} (spells : List.Forall₂ Spells written numbers)
    (small : ∀ number ∈ numbers, number.natAbs < Nat.pow 2 63) {wanted : Nat}
    (due : Due wanted numbers) (before : List Int) (line : Nat) (items : List Item) :
    readNumbers header (some wanted) before.toArray (written.map (.word line) ++ items) =
      readNumbers header (some (wanted - numbers.count 0)) (before ++ numbers).toArray items := by
  induction spells generalizing wanted before with
  | nil => simp
  | @cons text number written numbers spelled _ induction =>
      have read := literal?_of_spells spelled (small number List.mem_cons_self)
      obtain ⟨wanted, rfl⟩ := Nat.exists_eq_succ_of_ne_zero
        (Nat.ne_zero_of_lt (due [] (number :: numbers) rfl (List.cons_ne_nil _ _)))
      have onward : Due (wanted + 1 - [number].count 0) numbers := due.right
      have rest := induction (fun other inside => small other (List.mem_cons_of_mem _ inside))
        onward (before ++ [number])
      rw [Nat.sub_sub, ← List.count_append, List.append_assoc] at rest
      rw [List.map_cons, List.cons_append, readNumbers, read]
      · refine Eq.trans ?_ rest
        by_cases zero : number = 0
        · subst zero
          simp
        · simp [zero]
      · nofun

theorem readNumbers_zero (header : Option Header) (before : Array Int) (items : List Item) :
    readNumbers header (some 0) before items = ⟨header, before, none⟩ := by
  cases items <;> simp [readNumbers]

/-- Reading a body gives its integers, whatever follows them. -/
theorem Body.read {numbers : List Int} {text : List Char} (body : Body numbers text)
    (small : ∀ number ∈ numbers, number.natAbs < Nat.pow 2 63) (header : Option Header)
    (due : Due (numbers.count 0) numbers) (before : List Int) (start : Nat) :
    readNumbers header (some (numbers.count 0)) before.toArray
        ((numbered start text).flatMap itemsOf) =
      ⟨header, (before ++ numbers).toArray, none⟩ := by
  induction body generalizing before start with
  | done rest => simp [readNumbers_zero]
  | comment inside comment _ induction =>
      rw [numbered_append inside, List.flatMap_cons, itemsOf_comment comment]
      exact induction small due before (start + 1)
  | @row numbers later line rest inside row _ induction =>
      obtain ⟨written, spaced, spells⟩ := row
      have items := itemsOf_row spaced spells apart_nil (.inr rfl) start
      have onward := induction (fun number inside => small number (List.mem_append_right _ inside))
        (by simpa using due.right) (before ++ numbers) (start + 1)
      rw [List.append_nil] at items
      rw [numbered_append inside, List.flatMap_cons, items, words_nil, List.map_nil,
        List.append_nil, readNumbers_words header spells
          (fun number inside => small number (List.mem_append_left _ inside)) due.left]
      simpa using onward
  | @last numbers line rest inside row some apart =>
      obtain ⟨written, spaced, spells⟩ := row
      have filled : line ≠ [] := by
        rintro rfl
        obtain rfl : [] = written := spaced.words_eq
        cases spells
        exact some rfl
      obtain ⟨tail, lines, shape, apartTail⟩ := textLines_front inside filled apart
      have items := itemsOf_row spaced spells apartTail (.inl some) start
      rw [numbered, shape, List.zipIdx_cons, List.map_cons, List.flatMap_cons]
      dsimp only
      rw [items, List.append_assoc, readNumbers_words header spells small due, Nat.sub_self,
        readNumbers_zero]

/-! ## Reading the whole -/

theorem count_numbersOf {clauses : List (List Int)} (nonzero : ∀ clause ∈ clauses, 0 ∉ clause) :
    (numbersOf clauses).count 0 = clauses.length := by
  induction clauses with
  | nil => rfl
  | cons clause clauses induction =>
      have rest := induction fun other inside => nonzero other (List.mem_cons_of_mem _ inside)
      have own := List.count_eq_zero_of_not_mem (nonzero clause List.mem_cons_self)
      unfold numbersOf at rest ⊢
      rw [List.flatMap_cons, List.count_append, List.count_append, own, rest]
      simp
      omega

/-- The last integer of a formula is a zero, so one is wanted until the end. -/
theorem due_numbersOf (clauses : List (List Int)) :
    Due ((numbersOf clauses).count 0) (numbersOf clauses) := by
  intro front back shape some
  have zero : (0 : Int) ∈ back := by
    rcases List.eq_nil_or_concat clauses with rfl | ⟨init, last, rfl⟩
    · have bare := List.append_eq_nil_iff.mp shape.symm
      exact absurd bare.2 some
    · have ending : (numbersOf (init ++ [last])).getLast? = .some 0 := by
        simp [numbersOf]
      rw [List.concat_eq_append] at shape
      rw [shape, List.getLast?_append_of_ne_nil _ some] at ending
      exact List.mem_of_getLast? ending
  rw [shape, List.count_append]
  have above := List.count_pos_iff.mpr zero
  omega

theorem Heading.read {variableCount clauseCount : Nat} {line : List Char}
    (heading : Heading variableCount clauseCount line) (fewVariables : variableCount < wordCount)
    (fewClauses : clauseCount < wordCount) :
    firstInk? line = some 'p' ∧ header? line = some ⟨variableCount, clauseCount⟩ := by
  obtain ⟨first, second, spaced, spellsFirst, spellsSecond⟩ := heading
  have listed := spaced.words_eq
  constructor
  · rcases spaced with _ | ⟨blank, _, inked, _, _⟩
    rw [List.append_assoc, firstInk?_gap blank]
    exact firstInk?_cons (inked 'p' (by decide))
  · simp [header?, listed, spellsFirst.word? fewVariables, spellsSecond.word? fewClauses]

/-- Reading undoes every layout: it gives the heading and the integers of the clauses. -/
theorem Layout.read {variableCount : Nat} {clauses : List (List Int)} {text : List Char}
    (layout : Layout variableCount clauses text) (fewVariables : variableCount < wordCount)
    (fewClauses : clauses.length < wordCount)
    (fitting : ∀ clause ∈ clauses, ∀ number ∈ clause,
      number ≠ 0 ∧ number.natAbs < Nat.pow 2 63) :
    Document.ofBytes (encode text) =
      ⟨some ⟨variableCount, clauses.length⟩, (numbersOf clauses).toArray, none⟩ := by
  have nonzero : ∀ clause ∈ clauses, 0 ∉ clause := fun clause inside zero =>
    (fitting clause inside 0 zero).1 rfl
  have small : ∀ number ∈ numbersOf clauses, number.natAbs < Nat.pow 2 63 := by
    intro number member
    obtain ⟨clause, inside, within⟩ := List.mem_flatMap.mp member
    rcases List.mem_append.mp within with literal | zero
    · exact (fitting clause inside number literal).2
    · rw [List.mem_singleton.mp zero]
      decide
  have preamble : ∀ start, ∃ lines, readPreamble (numbered start text) =
      .ok (some ⟨variableCount, clauses.length⟩, lines) ∧
        readNumbers (some ⟨variableCount, clauses.length⟩) (some clauses.length) #[]
          (lines.flatMap itemsOf) =
            ⟨some ⟨variableCount, clauses.length⟩, (numbersOf clauses).toArray, none⟩ := by
    induction layout with
    | aside inside aside _ induction =>
        intro start
        obtain ⟨lines, read, rest⟩ := induction (start + 1)
        refine ⟨lines, ?_, rest⟩
        rw [numbered_append inside]
        rcases aside with blank | ⟨gap, rest, rfl, blank⟩
        · simpa [readPreamble, firstInk?_blank blank] using read
        · simpa [readPreamble, firstInk?_gap blank,
            firstInk?_cons (show isBlank 'c' = false by decide)] using read
    | heading inside heading body =>
        intro start
        obtain ⟨first, read⟩ := heading.read fewVariables fewClauses
        have numbers := body.read small (some ⟨variableCount, clauses.length⟩)
          (due_numbersOf clauses) [] (start + 1)
        rw [count_numbersOf nonzero] at numbers
        refine ⟨_, ?_, numbers⟩
        rw [numbered_append inside]
        simp [readPreamble, first, read]
    | @headingOnly line inside heading none =>
        intro start
        obtain ⟨first, read⟩ := heading.read fewVariables fewClauses
        refine ⟨[], ?_, ?_⟩
        · have filled : line ≠ [] := by
            rintro rfl
            cases first
          simp [numbered, textLines_single inside filled, readPreamble, first, read]
        · subst none
          exact readNumbers_zero _ _ _
  obtain ⟨lines, read, numbers⟩ := preamble 0
  unfold Document.ofBytes
  rw [linesOf_encode, read]
  exact numbers

end ModelSearch.Dimacs
