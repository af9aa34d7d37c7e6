import ModelSearch.Proofs.Dimacs.Loading

/-!
# The line where reading fails

A reader takes in lines until it meets one whose bytes are not UTF-8, or a line of the
formula with a word that is no integer of 63 bits and a sign.  Comments, blank lines and the
heading are lines like others, and the clauses that were complete before are stored.

A word is reported with the number of its line.  Bytes that are not UTF-8 are reported with
the number of lines before theirs.
-/

namespace ModelSearch

namespace Text

variable {text : List Char} {written : List (List Char)}

/-- The first ink of a text is that of its first word. -/
theorem Spaced.firstInk?_eq (spaced : Spaced written text) :
    firstInk? text = written.head?.bind List.head? := by
  cases spaced with
  | nil blank => exact firstInk?_blank blank
  | @cons gap word rest words blank nonempty inked apart spaced =>
      obtain ⟨head, tail, rfl⟩ := List.exists_cons_of_ne_nil nonempty
      rw [List.append_assoc, firstInk?_gap blank]
      exact firstInk?_cons (inked head List.mem_cons_self)

theorem Spaced.nonempty (spaced : Spaced written text) : ∀ word ∈ written, word ≠ [] := by
  induction spaced with
  | nil blank => exact nofun
  | cons blank nonempty inked apart spaced induction =>
      intro word member
      rcases List.mem_cons.mp member with rfl | inside
      · exact nonempty
      · exact induction word inside

theorem spaced_words (text : List Char) : Spaced (words text) text := spaced_iff.mpr rfl

theorem words_eq_nil_iff : words text = [] ↔ firstInk? text = none := by
  have spaced := spaced_words text
  rw [spaced.firstInk?_eq]
  cases shape : words text with
  | nil => simp
  | cons word words =>
      have nonempty := spaced.nonempty word (shape ▸ List.mem_cons_self)
      simp [nonempty]

end Text

namespace Dimacs

open Text

theorem comment_iff {text : List Char} : Comment text ↔ firstInk? text = some 'c' := by
  constructor
  · rintro ⟨gap, rest, rfl, blank⟩
    rw [firstInk?_gap blank]
    exact firstInk?_cons (by decide)
  · intro first
    obtain ⟨rest, shape⟩ := List.head?_eq_some_iff.mp first
    have parts : text.takeWhile isBlank ++ 'c' :: rest = text := by
      rw [← shape, List.takeWhile_append_dropWhile]
    exact ⟨text.takeWhile isBlank, rest, parts.symm,
      fun _ => List.all_eq_true.mp List.all_takeWhile _⟩

/-- The word spells an integer of 63 bits and a sign. -/
def SpellsShort (word : List Char) (number : Int) : Prop :=
  Spells word number ∧ number.natAbs < Nat.pow 2 63

theorem literal?_eq_some {word : List Char} {number : Int} :
    literal? word = some number ↔ SpellsShort word number := by
  constructor
  · intro read
    refine ⟨?_, natAbs_lt_of_literal? read⟩
    obtain ⟨signed, -⟩ := Option.filter_eq_some_iff.mp read
    obtain ⟨whole, -⟩ := Option.filter_eq_some_iff.mp signed
    exact integer?_eq_some.mp whole
  · rintro ⟨spells, small⟩
    exact literal?_of_spells spells small

/-! ## Lines that are taken in -/

/-- The line is a comment, or integers with blanks around them. -/
inductive Taken : List Int → List UInt8 → Prop
  | comment {line : List UInt8} {text : List Char} (decoded : decodeLine line = some text)
      (comment : Comment text) : Taken [] line
  | row {line : List UInt8} {text : List Char} {written : List (List Char)} {numbers : List Int}
      (decoded : decodeLine line = some text) (spaced : Spaced written text)
      (short : List.Forall₂ SpellsShort written numbers) : Taken numbers line

/-- The line gives a heading: a word that begins with p, the word "cnf" and two numbers. -/
def Announces (header : Header) (line : List UInt8) : Prop :=
  ∃ text lead first second further, decodeLine line = some text ∧
    Spaced (('p' :: lead) :: "cnf".toList :: first :: second :: further) text ∧
    SpellsNatural first header.variableCount ∧ header.variableCount < wordCount ∧
    SpellsNatural second header.clauseCount ∧ header.clauseCount < wordCount

/-- Lines without a fault, with the heading among them and the integers they hold. -/
inductive Passed : Option Header → List Int → List (List UInt8) → Prop
  | plain {parts : List (List Int)} {lines : List (List UInt8)}
      (taken : List.Forall₂ Taken parts lines) : Passed none parts.flatten lines
  | headed {header : Header} {asides : List (List UInt8)} {heading : List UInt8}
      {parts : List (List Int)} {lines : List (List UInt8)}
      (bare : ∀ line ∈ asides, Taken [] line) (announces : Announces header heading)
      (taken : List.Forall₂ Taken parts lines) :
      Passed (some header) parts.flatten (asides ++ heading :: lines)

/-- What a line can fail on. -/
inductive Obstacle where
  | bytes
  | word

/-- What is reported if so many lines were read before. -/
def Obstacle.report (before : Nat) : Obstacle → SolverError
  | .bytes => .unreadableLine before
  | .word => .badLiteral (before + 1)

/-- The bytes of the line are not UTF-8, or some integers are followed by a word that spells
none.  A comment has no such word, and neither has a line that starts with a percent sign. -/
inductive Offends : Obstacle → List Int → List UInt8 → Prop
  | bytes {line : List UInt8} (undecoded : decodeLine line = none) : Offends .bytes [] line
  | word {line : List UInt8} {text word : List Char} {written further : List (List Char)}
      {numbers : List Int} (decoded : decodeLine line = some text)
      (spaced : Spaced (written ++ word :: further) text)
      (short : List.Forall₂ SpellsShort written numbers)
      (unspelled : ∀ number, ¬SpellsShort word number) (comment : ¬Comment text)
      (stop : firstInk? text ≠ some '%') : Offends .word numbers line

/-- The first character of the line that is not blank is the letter p. -/
def Titled (line : List UInt8) : Prop :=
  ∃ text, decodeLine line = some text ∧ firstInk? text = some 'p'

/-- Fewer clauses are complete than the heading promises, if it does. -/
def Wanting (wanted : Option Nat) (numbers : List Int) : Prop :=
  ∀ count, wanted = some count → numbers.count 0 < count

/-- A reader fails at a line after so many others, with a heading and integers read.  Where
neither came before, a line that starts with the letter p is not of the formula. -/
inductive Halts (lines : List (List UInt8)) (before : Nat) (header : Option Header)
    (numbers : List Int) (obstacle : Obstacle) : Prop
  | intro {passed rest : List (List UInt8)} {offending : List UInt8} {former own : List Int}
      (shape : lines = passed ++ offending :: rest) (length : passed.length = before)
      (joined : numbers = former ++ own) (passes : Passed header former passed)
      (offends : Offends obstacle own offending)
      (begun : Titled offending → header ≠ none ∨ former ≠ [])
      (wanting : Wanting (header.map Header.clauseCount) numbers)

/-! ## Reading words -/

variable {header : Option Header} {wanted : Option Nat} {numbers later : List Int}
  {written : List (List Char)} {line : List UInt8} {text : List Char}

theorem wanting_append : Wanting wanted (numbers ++ later) ↔
    Wanting (wanted.map (· - numbers.count 0)) later := by
  cases wanted with
  | none => simp [Wanting]
  | some count =>
      simp only [Wanting, Option.some.injEq, Option.map_some, forall_eq', List.count_append]
      omega

theorem Wanting.left (wanting : Wanting wanted (numbers ++ later)) : Wanting wanted numbers := by
  intro count some
  have below := wanting count some
  rw [List.count_append] at below
  exact Nat.lt_of_le_of_lt (Nat.le_add_right _ _) below

theorem SpellsShort.first {word : List Char} {number : Int} (short : SpellsShort word number) :
    ∃ head, word.head? = some head ∧ head ≠ 'c' ∧ head ≠ 'p' ∧ head ≠ '%' := by
  obtain ⟨head, tail, rfl, kind⟩ := short.1.numeral.first
  refine ⟨head, rfl, ?_⟩
  refine ⟨?_, ?_, ?_⟩ <;>
    (rintro rfl; revert kind; decide)

/-- A row of integers starts with one of them, or is blank. -/
theorem firstInk?_row (spaced : Spaced written text)
    (short : List.Forall₂ SpellsShort written numbers) :
    numbers = [] ∧ firstInk? text = none ∨
      numbers ≠ [] ∧ ∃ head, firstInk? text = some head ∧
        head ≠ 'c' ∧ head ≠ 'p' ∧ head ≠ '%' := by
  have first := spaced.firstInk?_eq
  cases short with
  | nil => exact .inl ⟨rfl, first⟩
  | cons spelled short =>
      obtain ⟨head, leading, different⟩ := spelled.first
      refine .inr ⟨List.cons_ne_nil _ _, head, ?_, different⟩
      rw [first]
      exact leading

theorem Wanting.nonzero (wanting : Wanting wanted numbers) : wanted ≠ some 0 := by
  rintro rfl
  exact absurd (wanting 0 rfl) (Nat.not_lt_zero _)

theorem wanting_nil (more : wanted ≠ some 0) : Wanting wanted [] := by
  rintro count rfl
  exact Nat.pos_of_ne_zero fun zero => more (congrArg some zero)

theorem readNumbers_word (header : Option Header) (more : wanted ≠ some 0) (before : List Int)
    (number : Nat) (word : List Char) (items : List Item) :
    readNumbers header wanted before.toArray (.word number word :: items) =
      match literal? word with
      | none => ⟨header, before.toArray, some (.badLiteral number)⟩
      | some integer =>
          readNumbers header (wanted.map (· - [integer].count 0)) (before ++ [integer]).toArray
            items := by
  rw [readNumbers]
  · cases literal? word with
    | none => rfl
    | some integer =>
        by_cases zero : integer = 0
        · simp [zero]
        · cases wanted <;> simp [zero]
  · simpa using more

theorem readNumbers_short (header : Option Header)
    (short : List.Forall₂ SpellsShort written numbers) (wanting : Wanting wanted numbers)
    (before : List Int) (number : Nat) (items : List Item) :
    readNumbers header wanted before.toArray (written.map (.word number) ++ items) =
      readNumbers header (wanted.map (· - numbers.count 0)) (before ++ numbers).toArray items := by
  induction short generalizing wanted before with
  | nil => cases wanted <;> simp
  | @cons word integer written numbers spelled short induction =>
      have onward : Wanting (wanted.map (· - [integer].count 0)) numbers :=
        wanting_append.mp wanting
      have rest := induction onward (before ++ [integer])
      rw [List.map_cons, List.cons_append, readNumbers_word header wanting.nonzero,
        literal?_eq_some.mpr spelled]
      simp only [rest, Option.map_map, List.append_assoc, List.singleton_append]
      congr 2
      funext count
      simp only [Function.comp_apply, ← List.singleton_append (l := numbers), List.count_append]
      omega

theorem readNumbers_unspelled (header : Option Header) {word : List Char}
    (short : List.Forall₂ SpellsShort written numbers)
    (unspelled : ∀ number, ¬SpellsShort word number) (wanting : Wanting wanted numbers)
    (before : List Int) (number : Nat) (items : List Item) :
    readNumbers header wanted before.toArray
        (written.map (.word number) ++ .word number word :: items) =
      ⟨header, (before ++ numbers).toArray, some (.badLiteral number)⟩ := by
  have unread : literal? word = none := by
    cases read : literal? word with
    | none => rfl
    | some integer => exact absurd (literal?_eq_some.mp read) (unspelled integer)
  have onward : Wanting (wanted.map (· - numbers.count 0)) [] :=
    wanting_append.mp ((List.append_nil numbers).symm ▸ wanting)
  rw [readNumbers_short header short wanting, readNumbers_word header onward.nonzero, unread]

/-- The words of a line are all read, or one of them is not, or the last clause is complete
before. -/
theorem words_cases (wanted : Option Nat) (words : List (List Char)) :
    (∃ numbers, List.Forall₂ SpellsShort words numbers ∧ Wanting wanted numbers) ∨
    (∃ written word further numbers, words = written ++ word :: further ∧
      List.Forall₂ SpellsShort written numbers ∧ (∀ number, ¬SpellsShort word number) ∧
      Wanting wanted numbers) ∨
    ∀ (header : Option Header) (before : List Int) (number : Nat) (items : List Item),
      (readNumbers header wanted before.toArray
        (words.map (.word number) ++ items)).fault = none := by
  induction words generalizing wanted with
  | nil =>
      by_cases complete : wanted = some 0
      · exact .inr (.inr fun header before number items => by rw [complete, readNumbers_zero])
      · exact .inl ⟨[], .nil, wanting_nil complete⟩
  | cons word words induction =>
      by_cases complete : wanted = some 0
      · exact .inr (.inr fun header before number items => by rw [complete, readNumbers_zero])
      cases read : literal? word with
      | none =>
          refine .inr (.inl ⟨[], word, words, [], rfl, .nil, fun number spelled => ?_,
            wanting_nil complete⟩)
          rw [literal?_eq_some.mpr spelled] at read
          cases read
      | some integer =>
          have spelled := literal?_eq_some.mp read
          have joined {numbers : List Int}
              (onward : Wanting (wanted.map (· - [integer].count 0)) numbers) :
              Wanting wanted (integer :: numbers) :=
            (wanting_append.mpr onward : Wanting wanted ([integer] ++ numbers))
          rcases induction (wanted.map (· - [integer].count 0)) with
            ⟨numbers, short, wanting⟩ |
            ⟨written, other, further, numbers, shape, short, unspelled, wanting⟩ | stops
          · exact .inl ⟨integer :: numbers, .cons spelled short, joined wanting⟩
          · exact .inr (.inl ⟨word :: written, other, further, integer :: numbers,
              congrArg (word :: ·) shape, .cons spelled short, unspelled, joined wanting⟩)
          · refine .inr (.inr fun header before number items => ?_)
            rw [List.map_cons, List.cons_append, readNumbers_word header complete, read]
            exact stops ..

/-! ## Reading lines -/

/-- The lines with the number of lines before each. -/
def listed (start : Nat) (lines : List (List UInt8)) : List Line :=
  (lines.zipIdx start).map fun (line, before) => ⟨before, decodeLine line⟩

theorem listed_cons (start : Nat) (line : List UInt8) (lines : List (List UInt8)) :
    listed start (line :: lines) = ⟨start, decodeLine line⟩ :: listed (start + 1) lines := by
  simp [listed]

/-- What is read from such lines. -/
def readLines (lines : List Line) : Document :=
  match readPreamble lines with
  | .error error => ⟨none, #[], some error⟩
  | .ok (header, lines) =>
      readNumbers header (header.map Header.clauseCount) #[] (lines.flatMap itemsOf)

theorem ofBytes_eq (bytes : List UInt8) :
    Document.ofBytes bytes = readLines (listed 0 (splitLines bytes)) := rfl

theorem itemsOf_words {start : Nat} (stop : firstInk? text ≠ some '%')
    (comment : firstInk? text ≠ some 'c') :
    itemsOf ⟨start, some text⟩ = (words text).map (.word (start + 1)) := by
  unfold itemsOf
  split
  · next bare => cases bare
  · next same =>
    cases same
    split <;> simp_all

theorem Taken.items (taken : Taken numbers line) (start : Nat) :
    (numbers = [] ∧ itemsOf ⟨start, decodeLine line⟩ = []) ∨
      ∃ written, itemsOf ⟨start, decodeLine line⟩ = written.map (.word (start + 1)) ∧
        List.Forall₂ SpellsShort written numbers := by
  cases taken with
  | comment decoded comment =>
      rw [decoded]
      exact .inl ⟨rfl, itemsOf_comment comment start⟩
  | @row _ text written _ decoded spaced short =>
      have plain : firstInk? text ≠ some '%' ∧ firstInk? text ≠ some 'c' := by
        rcases firstInk?_row spaced short with ⟨-, first⟩ | ⟨-, head, first, letter, -, percent⟩
        · simp [first]
        · simp [first, letter, percent]
      rw [decoded, itemsOf_words plain.1 plain.2, spaced.words_eq]
      exact .inr ⟨written, rfl, short⟩

/-- A line that is taken in adds its integers to those before. -/
theorem Taken.read (taken : Taken numbers line) (header : Option Header)
    (wanting : Wanting wanted numbers) (before : List Int) (start : Nat) (items : List Item) :
    readNumbers header wanted before.toArray (itemsOf ⟨start, decodeLine line⟩ ++ items) =
      readNumbers header (wanted.map (· - numbers.count 0)) (before ++ numbers).toArray items := by
  rcases taken.items start with ⟨rfl, bare⟩ | ⟨written, row, short⟩
  · rw [bare]
    cases wanted <;> simp
  · rw [row, readNumbers_short header short wanting]

theorem Offends.read {obstacle : Obstacle} (offends : Offends obstacle numbers line)
    (header : Option Header) (wanting : Wanting wanted numbers) (before : List Int)
    (start : Nat) (items : List Item) :
    readNumbers header wanted before.toArray (itemsOf ⟨start, decodeLine line⟩ ++ items) =
      ⟨header, (before ++ numbers).toArray, some (obstacle.report start)⟩ := by
  cases offends with
  | bytes undecoded =>
      have more := wanting.nonzero
      rw [undecoded, itemsOf, List.singleton_append, readNumbers]
      · rw [List.append_nil]
        rfl
      · simpa using more
  | word decoded spaced short unspelled comment stop =>
      rw [decoded, itemsOf_words stop (mt comment_iff.mpr comment), spaced.words_eq,
        List.map_append, List.map_cons, List.append_assoc]
      exact readNumbers_unspelled header short unspelled wanting before (start + 1) _

/-- A line of the formula is taken in, or it offends, or reading ends within it. -/
theorem line_cases (wanted : Option Nat) (line : List UInt8) :
    (∃ numbers, Taken numbers line ∧ Wanting wanted numbers) ∨
    (∃ obstacle numbers, Offends obstacle numbers line ∧ Wanting wanted numbers) ∨
    ∀ (header : Option Header) (before : List Int) (start : Nat) (items : List Item),
      (readNumbers header wanted before.toArray
        (itemsOf ⟨start, decodeLine line⟩ ++ items)).fault = none := by
  by_cases complete : wanted = some 0
  · exact .inr (.inr fun header before start items => by rw [complete, readNumbers_zero])
  have wanting := wanting_nil complete
  cases decoded : decodeLine line with
  | none => exact .inr (.inl ⟨.bytes, [], .bytes decoded, wanting⟩)
  | some text =>
      by_cases comment : Comment text
      · exact .inl ⟨[], .comment decoded comment, wanting⟩
      by_cases stop : firstInk? text = some '%'
      · refine .inr (.inr fun header before start items => ?_)
        have only : itemsOf ⟨start, some text⟩ = [.stop] := by simp [itemsOf, stop]
        rw [only, List.singleton_append, readNumbers]
        simpa using complete
      rcases words_cases wanted (words text) with ⟨numbers, short, wanting⟩ |
        ⟨written, word, further, numbers, shape, short, unspelled, wanting⟩ | stops
      · exact .inl ⟨numbers, .row decoded (spaced_words text) short, wanting⟩
      · exact .inr (.inl ⟨.word, numbers, .word decoded (shape ▸ spaced_words text) short unspelled
          comment stop, wanting⟩)
      · refine .inr (.inr fun header before start items => ?_)
        rw [itemsOf_words stop (mt comment_iff.mpr comment)]
        exact stops ..

section Formula

variable {parts : List (List Int)} {passed lines rest : List (List UInt8)}
  {offending : List UInt8} {own : List Int} {obstacle : Obstacle}

/-- The formula is read up to the line that offends. -/
theorem formula_read (taken : List.Forall₂ Taken parts passed)
    (offends : Offends obstacle own offending) (wanting : Wanting wanted (parts.flatten ++ own))
    (header : Option Header) (before : List Int) (start : Nat) (rest : List (List UInt8)) :
    readNumbers header wanted before.toArray
        ((listed start (passed ++ offending :: rest)).flatMap itemsOf) =
      ⟨header, (before ++ (parts.flatten ++ own)).toArray,
        some (obstacle.report (start + passed.length))⟩ := by
  induction taken generalizing wanted before start with
  | nil =>
      rw [List.nil_append, listed_cons, List.flatMap_cons]
      exact offends.read header wanting before start _
  | @cons part line parts passed taken _ induction =>
      rw [List.flatten_cons, List.append_assoc] at wanting ⊢
      rw [List.cons_append, listed_cons, List.flatMap_cons, taken.read header wanting.left,
        induction (wanting_append.mp wanting), List.append_assoc, List.length_cons,
        Nat.add_right_comm, Nat.add_assoc]

/-- Where reading the formula fails, some line offends. -/
theorem formula_fault {before : List Int} {start : Nat} {error : SolverError}
    (faulty : (readNumbers header wanted before.toArray
      ((listed start lines).flatMap itemsOf)).fault = some error) :
    ∃ passed offending rest parts own obstacle, lines = passed ++ offending :: rest ∧
      List.Forall₂ Taken parts passed ∧ Offends obstacle own offending ∧
      Wanting wanted (parts.flatten ++ own) := by
  induction lines generalizing wanted before start with
  | nil => rcases wanted with _ | _ | count <;> cases faulty
  | cons line lines induction =>
      rw [listed_cons, List.flatMap_cons] at faulty
      rcases line_cases wanted line with ⟨part, taken, wanting⟩ |
        ⟨obstacle, own, offends, wanting⟩ | stops
      · rw [taken.read header wanting] at faulty
        obtain ⟨passed, offending, rest, parts, own, obstacle, rfl, others, offends, onward⟩ :=
          induction faulty
        refine ⟨line :: passed, offending, rest, part :: parts, own, obstacle, rfl,
          .cons taken others, offends, ?_⟩
        rw [List.flatten_cons, List.append_assoc]
        exact wanting_append.mpr onward
      · exact ⟨[], line, lines, [], own, obstacle, rfl, .nil, offends, wanting⟩
      · rw [stops] at faulty
        cases faulty

/-! ## Reading from the first line on -/

theorem taken_nil_iff : Taken [] line ↔
    ∃ text, decodeLine line = some text ∧ (firstInk? text = none ∨ firstInk? text = some 'c') := by
  constructor
  · intro taken
    cases taken with
    | comment decoded comment => exact ⟨_, decoded, .inr (comment_iff.mp comment)⟩
    | row decoded spaced short =>
        rcases firstInk?_row spaced short with ⟨-, first⟩ | ⟨absurdity, -⟩
        · exact ⟨_, decoded, .inl first⟩
        · exact absurd rfl absurdity
  · rintro ⟨text, decoded, blank | comment⟩
    · exact .row decoded (spaced_iff.mpr (words_eq_nil_iff.mpr blank)) .nil
    · exact .comment decoded (comment_iff.mpr comment)

theorem word?_eq_some {word : List Char} {number : Nat} :
    word? word = some number ↔ SpellsNatural word number ∧ number < wordCount := by
  unfold word?
  rw [Option.filter_eq_some_iff, natural?_eq_some, decide_eq_true_eq]

theorem Taken.skipped (taken : Taken [] line) (start : Nat) (lines : List (List UInt8)) :
    readLines (listed start (line :: lines)) = readLines (listed (start + 1) lines) := by
  obtain ⟨text, decoded, first⟩ := taken_nil_iff.mp taken
  have passed : readPreamble (listed start (line :: lines)) =
      readPreamble (listed (start + 1) lines) := by
    rw [listed_cons]
    rcases first with first | first <;> simp [readPreamble, decoded, first]
  rw [readLines, passed, readLines]

theorem skipped_all {asides : List (List UInt8)} (bare : ∀ line ∈ asides, Taken [] line)
    (start : Nat) (lines : List (List UInt8)) :
    readLines (listed start (asides ++ lines)) =
      readLines (listed (start + asides.length) lines) := by
  induction asides generalizing start with
  | nil => rfl
  | cons aside asides induction =>
      rw [List.cons_append, (bare aside List.mem_cons_self).skipped,
        induction fun other inside => bare other (List.mem_cons_of_mem _ inside),
        List.length_cons, Nat.add_right_comm, Nat.add_assoc]

theorem Announces.read {header : Header} (announces : Announces header line) (start : Nat)
    (lines : List (List UInt8)) :
    readLines (listed start (line :: lines)) =
      readNumbers (some header) (some header.clauseCount) #[]
        ((listed (start + 1) lines).flatMap itemsOf) := by
  obtain ⟨text, lead, first, second, further, decoded, spaced, spellsFirst, fewVariables,
    spellsSecond, fewClauses⟩ := announces
  have titled : firstInk? text = some 'p' := spaced.firstInk?_eq
  have numbers : header? text = some header := by
    simp [header?, spaced.words_eq, spellsFirst.word? fewVariables, spellsSecond.word? fewClauses]
  rw [readLines, listed_cons]
  simp [readPreamble, decoded, titled, numbers]

/-- A heading that is read was given. -/
theorem announces_of_header? {header : Header} (decoded : decodeLine line = some text)
    (titled : firstInk? text = some 'p') (read : header? text = some header) :
    Announces header line := by
  have spaced := spaced_words text
  unfold header? at read
  split at read
  · next word format first second further shape =>
    split at read
    · next cnf =>
      split at read
      · next variableCount clauseCount readFirst readSecond =>
        cases read
        obtain ⟨spellsFirst, fewVariables⟩ := word?_eq_some.mp readFirst
        obtain ⟨spellsSecond, fewClauses⟩ := word?_eq_some.mp readSecond
        rw [shape, cnf] at spaced
        have leading : word.head? = some 'p' := spaced.firstInk?_eq.symm.trans titled
        obtain ⟨lead, rfl⟩ := List.head?_eq_some_iff.mp leading
        exact ⟨text, lead, first, second, further, decoded, spaced, spellsFirst, fewVariables,
          spellsSecond, fewClauses⟩
      · cases read
    · cases read
  · cases read

/-- The formula begins at the first line with anything but a comment or a heading. -/
theorem readLines_formula {head : Char} (decoded : decodeLine line = some text)
    (first : firstInk? text = some head) (comment : head ≠ 'c') (titled : head ≠ 'p')
    (start : Nat) (lines : List (List UInt8)) :
    readLines (listed start (line :: lines)) =
      readNumbers none none #[] ((listed start (line :: lines)).flatMap itemsOf) := by
  have begins : readPreamble (listed start (line :: lines)) =
      .ok (none, listed start (line :: lines)) := by
    rw [listed_cons]
    simp [readPreamble, decoded, first]
  rw [readLines, begins]
  rfl

theorem plain_read (taken : List.Forall₂ Taken parts passed)
    (offends : Offends obstacle own offending) (begun : Titled offending → parts.flatten ≠ [])
    (start : Nat) (rest : List (List UInt8)) :
    readLines (listed start (passed ++ offending :: rest)) =
      ⟨none, (parts.flatten ++ own).toArray, some (obstacle.report (start + passed.length))⟩ := by
  have boundless : ∀ numbers, Wanting none numbers := nofun
  induction taken generalizing start with
  | nil =>
      cases offends with
      | bytes undecoded =>
          rw [List.nil_append, listed_cons]
          simp [readLines, readPreamble, undecoded, Obstacle.report]
      | @word _ text _ _ _ _ decoded spaced short unspelled comment stop =>
          cases first : firstInk? text with
          | none =>
              have wordless := words_eq_nil_iff.mpr first
              rw [spaced.words_eq] at wordless
              cases (List.append_eq_nil_iff.mp wordless).2
          | some head =>
              rw [List.nil_append, readLines_formula decoded first]
              · exact formula_read .nil (.word decoded spaced short unspelled comment stop)
                  (boundless _) none [] start rest
              · rintro rfl
                exact comment (comment_iff.mpr first)
              · rintro rfl
                exact begun ⟨text, decoded, first⟩ rfl
  | @cons part line parts passed taken others induction =>
      by_cases bare : part = []
      · subst bare
        rw [List.cons_append, taken.skipped, induction begun, List.length_cons,
          Nat.add_right_comm, Nat.add_assoc]
        rfl
      · cases taken with
        | comment => exact absurd rfl bare
        | row decoded spaced short =>
            rcases firstInk?_row spaced short with ⟨absurdity, -⟩ |
              ⟨-, head, first, letter, titled, -⟩
            · exact absurd absurdity bare
            · rw [List.cons_append, readLines_formula decoded first letter titled]
              exact formula_read (.cons (.row decoded spaced short) others) offends (boundless _)
                none [] start rest

/-- Where a reader halts, it reports the obstacle and gives what it read. -/
theorem Halts.read {before : Nat} (halts : Halts lines before header numbers obstacle)
    (start : Nat) : readLines (listed start lines) =
      ⟨header, numbers.toArray, some (obstacle.report (start + before))⟩ := by
  obtain ⟨rfl, rfl, rfl, passes, offends, begun, wanting⟩ := halts
  cases passes with
  | plain taken =>
      exact plain_read taken offends
        (fun titled => (begun titled).resolve_left (absurd rfl)) start _
  | @headed header asides heading parts formula bare announces taken =>
      have total : start + (asides ++ heading :: formula).length =
          start + asides.length + 1 + formula.length := by
        rw [List.length_append, List.length_cons]
        omega
      rw [List.append_assoc, List.cons_append, skipped_all bare, announces.read, total]
      exact formula_read taken offends wanting (some header) [] (start + asides.length + 1) _

theorem Halts.aside {before : Nat} (taken : Taken [] line)
    (halts : Halts lines before header numbers obstacle) :
    Halts (line :: lines) (before + 1) header numbers obstacle := by
  obtain @⟨passed, rest, offending, former, own, rfl, length, joined, passes, offends, begun,
    wanting⟩ := halts
  have whole : line :: (passed ++ offending :: rest) = (line :: passed) ++ offending :: rest := rfl
  refine ⟨whole, congrArg (· + 1) length, joined, ?_, offends, begun, wanting⟩
  cases passes with
  | plain others => exact @Passed.plain ([] :: _) _ (.cons taken others)
  | headed bare announces others =>
      exact .headed (List.forall_mem_cons.mpr ⟨taken, bare⟩) announces others

/-- Where the formula fails that a line begins, the reader halts. -/
theorem halts_of_formula {head : Char} (decoded : decodeLine line = some text)
    (first : firstInk? text = some head) (comment : head ≠ 'c') (titled : head ≠ 'p')
    {start : Nat} {error : SolverError} (faulty : (readNumbers none none #[]
      ((listed start (line :: lines)).flatMap itemsOf)).fault = some error) :
    ∃ before header numbers obstacle, Halts (line :: lines) before header numbers obstacle := by
  obtain ⟨passed, offending, rest, parts, own, obstacle, shape, taken, offends, wanting⟩ :=
    formula_fault faulty
  refine ⟨_, none, _, obstacle, shape, rfl, rfl, .plain taken, offends, fun title => ?_, nofun⟩
  -- The first line has ink, and it is either the one that offends or a row with integers.
  cases taken with
  | nil =>
      obtain ⟨rfl, -⟩ := List.cons.inj shape
      obtain ⟨other, again, starts⟩ := title
      rw [Option.some.inj (decoded.symm.trans again), starts] at first
      exact absurd (Option.some.inj first).symm titled
  | @cons part _ parts passed taken others =>
      obtain ⟨rfl, -⟩ := List.cons.inj shape
      right
      intro bare
      rw [(List.append_eq_nil_iff.mp bare).1] at taken
      obtain ⟨other, again, starts⟩ := taken_nil_iff.mp taken
      rw [Option.some.inj (decoded.symm.trans again)] at first
      rcases starts with starts | starts <;> rw [starts] at first
      · cases first
      · exact absurd (Option.some.inj first).symm comment

/-- A first line whose bytes are not text halts the reader. -/
theorem halts_of_bytes (undecodable : decodeLine line = none) :
    Halts (line :: lines) 0 none [] .bytes := by
  refine ⟨rfl, rfl, rfl, .plain .nil, .bytes undecodable, ?_, nofun⟩
  rintro ⟨text, decoded, -⟩
  cases undecodable.symm.trans decoded

/-- Where the formula fails that a first line announces, the reader halts. -/
theorem Announces.halts {header : Header} (announces : Announces header line) {start : Nat}
    {error : SolverError} (faulty :
      (readLines (listed start (line :: lines))).fault = some error) :
    ∃ before header numbers obstacle, Halts (line :: lines) before header numbers obstacle := by
  rw [announces.read] at faulty
  obtain ⟨passed, offending, rest, parts, own, obstacle, rfl, taken, offends, wanting⟩ :=
    formula_fault faulty
  exact ⟨_, some header, _, obstacle, rfl, rfl, rfl,
    @Passed.headed header [] line parts passed nofun announces taken, offends,
    fun _ => .inl nofun, wanting⟩

/-- Where reading fails but at a heading, the reader halts. -/
theorem readLines_fault {start : Nat} {error : SolverError}
    (faulty : (readLines (listed start lines)).fault = some error) :
    error = .problemSpecification ∨
      ∃ before header numbers obstacle, Halts lines before header numbers obstacle := by
  induction lines generalizing start with
  | nil => cases faulty
  | cons line lines induction =>
      have aside (taken : Taken [] line) : error = .problemSpecification ∨
          ∃ before header numbers obstacle,
            Halts (line :: lines) before header numbers obstacle := by
        rw [taken.skipped] at faulty
        rcases induction faulty with malformed | ⟨_, _, _, _, halts⟩
        · exact .inl malformed
        · exact .inr ⟨_, _, _, _, halts.aside taken⟩
      cases decoded : decodeLine line with
      | none => exact .inr ⟨_, _, _, _, halts_of_bytes decoded⟩
      | some text =>
          cases first : firstInk? text with
          | none => exact aside (taken_nil_iff.mpr ⟨text, decoded, .inl first⟩)
          | some head =>
              by_cases comment : head = 'c'
              · subst comment
                exact aside (taken_nil_iff.mpr ⟨text, decoded, .inr first⟩)
              by_cases titled : head = 'p'
              · subst titled
                cases heading : header? text with
                | none =>
                    left
                    rw [readLines, listed_cons] at faulty
                    simpa [readPreamble, decoded, first, heading] using faulty.symm
                | some header =>
                    exact .inr ((announces_of_header? decoded first heading).halts faulty)
              · rw [readLines_formula decoded first comment titled] at faulty
                exact .inr (halts_of_formula decoded first comment titled faulty)

end Formula

theorem Obstacle.report_inj {before other : Nat} {obstacle met : Obstacle}
    (same : obstacle.report before = met.report other) : before = other ∧ obstacle = met := by
  cases obstacle <;> cases met <;> cases same <;> exact ⟨rfl, rfl⟩

section Documents

variable {bytes : List UInt8} {before : Nat} {obstacle : Obstacle}

/-- A reader halts where the document ends in a fault that is not of a heading. -/
theorem halts_iff : Halts (splitLines bytes) before header numbers obstacle ↔
    Document.ofBytes bytes = ⟨header, numbers.toArray, some (obstacle.report before)⟩ := by
  constructor
  · intro halts
    rw [ofBytes_eq, halts.read, Nat.zero_add]
  · intro document
    have faulty := congrArg Document.fault document
    rw [ofBytes_eq] at faulty
    rcases readLines_fault faulty with malformed | ⟨other, _, _, _, halts⟩
    · cases obstacle <;> cases malformed
    · have read := halts.read 0
      rw [← ofBytes_eq, document, Nat.zero_add] at read
      obtain ⟨rfl, same, reported⟩ := Document.mk.inj read
      obtain ⟨rfl, rfl⟩ := Obstacle.report_inj (Option.some.inj reported)
      rw [List.toArray_inj same]
      exact halts

/-- A reader halts at one line at most. -/
theorem Halts.unique {other : Nat} {another : Option Header} {others : List Int}
    {met : Obstacle} (halts : Halts (splitLines bytes) before header numbers obstacle)
    (again : Halts (splitLines bytes) other another others met) : other = before := by
  have read := (halts_iff.mp again).symm.trans (halts_iff.mp halts)
  exact (Obstacle.report_inj (Option.some.inj (Document.mk.inj read).2.2)).1

/-- What is reported of a line: with a literal the number of the line, and with bytes that are
not text one less.  The clauses stored are those that are complete before. -/
theorem reported_line {τ : Type} [TheoryAtom τ] {configuration : Configuration}
    {error : SolverError} {number : Nat} {solver : Solver τ}
    (refuses : load (Document.ofBytes bytes) (Solver.new configuration) =
      .error (.error error) solver)
    (reported : error = .badLiteral number ∨ error = .unreadableLine number) :
    ∃ before header numbers obstacle,
      Halts (splitLines bytes) before header numbers obstacle ∧
      (∀ other header numbers obstacle,
        Halts (splitLines bytes) other header numbers obstacle → other = before) ∧
      (obstacle = .word ↔ error = .badLiteral number) ∧
      (number = before + 1 ↔ error = .badLiteral number) ∧
      (number = before ↔ error = .unreadableLine number) ∧
      ∃ clauses unfinished atoms, Reads numbers clauses unfinished ∧
        Holds (variableOrder (header.elim 0 Header.declaredCount) numbers) clauses atoms
          solver := by
  obtain ⟨cause, faulty, same, clauses, unfinished, atoms, reads, holds⟩ :=
    (ends_load (Document.ofBytes bytes) configuration).of_error refuses
  obtain rfl := Fault.error.inj same
  rcases readLines_fault (ofBytes_eq bytes ▸ faulty) with rfl | ⟨before, header, numbers,
    obstacle, halts⟩
  · rcases reported with absurdity | absurdity <;> cases absurdity
  · have document := halts_iff.mp halts
    have fault := congrArg Document.fault document
    obtain rfl := Option.some.inj (faulty.symm.trans fault)
    rw [Document.order, document] at holds
    rw [document] at reads
    refine ⟨before, header, numbers, obstacle, halts, fun _ _ _ _ => halts.unique, ?_, ?_, ?_,
      clauses, unfinished, atoms, reads, holds⟩
    all_goals
      rcases reported with reported | reported <;> cases obstacle <;> cases reported <;>
        simp [Obstacle.report]

/-- A clause over two lines that is broken off by a word. -/
def brokenOff : List UInt8 := encode "1 0 2\nz 0".toList

/-- The first clause is stored, and the word is reported with the second line. -/
theorem brokenOff_reported : ∃ solver : Solver Empty,
    load (Document.ofBytes brokenOff) (Solver.new {}) = .error (.error (.badLiteral 2)) solver ∧
      Halts (splitLines brokenOff) 1 none [1, 0, 2] .word ∧
      solver.clauses.clauses.toList = [⟨Clause.ofList [⟨.var 0, true⟩], .input, true⟩] := by
  have document : Document.ofBytes brokenOff = ⟨none, #[1, 0, 2], some (.badLiteral 2)⟩ := by
    decide +kernel
  have halts : Halts (splitLines brokenOff) 1 none [1, 0, 2] .word := halts_iff.mpr document
  obtain ⟨solver, refuses⟩ :=
    refuses_of_fault (τ := Empty) (congrArg Document.fault document) {}
  obtain ⟨before, header, numbers, obstacle, found, -, -, -, -, clauses, unfinished, atoms, reads,
    holds⟩ := reported_line refuses (.inl rfl)
  obtain ⟨rfl, same, -⟩ := Document.mk.inj ((halts_iff.mp found).symm.trans document)
  obtain rfl : numbers = [1, 0, 2] := List.toArray_inj same
  have whole : Reads [1, 0, 2] [[1]] [2] := ⟨rfl, by decide, by decide⟩
  obtain ⟨rfl, -⟩ := whole.unique reads
  exact ⟨solver, refuses, halts, holds.clauses⟩

/-- A comment, and then a line that is not text. -/
def garbled : List UInt8 := [99, 10, 255]

/-- The number reported is that of the comment, but no reader halts there. -/
theorem garbled_misreported : ∃ solver : Solver Empty,
    load (Document.ofBytes garbled) (Solver.new {}) =
        .error (.error (.unreadableLine 1)) solver ∧
      Halts (splitLines garbled) 1 none [] .bytes ∧
      ¬∃ before header numbers obstacle,
        Halts (splitLines garbled) before header numbers obstacle ∧ 1 = before + 1 := by
  have document : Document.ofBytes garbled = ⟨none, #[], some (.unreadableLine 1)⟩ := by
    decide +kernel
  have halts : Halts (splitLines garbled) 1 none [] .bytes := halts_iff.mpr document
  obtain ⟨solver, refuses⟩ :=
    refuses_of_fault (τ := Empty) (congrArg Document.fault document) {}
  refine ⟨solver, refuses, halts, ?_⟩
  rintro ⟨before, _, _, _, again, same⟩
  rw [halts.unique again] at same
  cases same

end Documents

end Dimacs

end ModelSearch
