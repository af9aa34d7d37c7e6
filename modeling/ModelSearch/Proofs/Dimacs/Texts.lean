import ModelSearch.Dimacs.Document

/-!
# Words, numerals and lines

A text is read word by word and line by line.  What may be written for given words and
numbers is said by relations from them to texts: gaps of blanks may be of any length, and
a numeral may have a plus sign and further zeros.  Readers undo all of these.

Lines are found among the bytes of a text, before these are decoded.  This does no harm, as
no byte of another character is a line feed.
-/

namespace ModelSearch

namespace Text

variable {text rest gap word : List Char} {character : Char}

/-! ## Words -/

/-- The text is at its end, or goes on with a blank. -/
def Apart (text : List Char) : Prop := ∀ character, text.head? = some character →
  isBlank character = true

theorem apart_nil : Apart [] := by
  intro character absurdity
  cases absurdity

/-- Words in a text: blanks around them, and at least one between two of them. -/
inductive Spaced : List (List Char) → List Char → Prop
  | nil {gap : List Char} (blank : ∀ character ∈ gap, isBlank character = true) : Spaced [] gap
  | cons {gap word rest : List Char} {words : List (List Char)}
      (blank : ∀ character ∈ gap, isBlank character = true) (nonempty : word ≠ [])
      (inked : ∀ character ∈ word, isBlank character = false) (apart : Apart rest)
      (spaced : Spaced words rest) : Spaced (word :: words) (gap ++ word ++ rest)

@[simp] theorem words_nil : words [] = [] := rfl

theorem words_cons_blank (blank : isBlank character = true) :
    words (character :: text) = words text := by
  simp [words, blank, consWord]

theorem words_gap (blank : ∀ character ∈ gap, isBlank character = true) :
    words (gap ++ text) = words text := by
  induction gap with
  | nil => rfl
  | cons character gap induction =>
      rw [List.cons_append, words_cons_blank (blank character List.mem_cons_self)]
      exact induction fun other inside => blank other (List.mem_cons_of_mem _ inside)

/-- The word at the beginning of a text, and the words after it. -/
private def scan (text : List Char) : List Char × List (List Char) :=
  text.foldr
    (fun character (word, words) =>
      if isBlank character then ([], consWord word words) else (character :: word, words))
    ([], [])

private theorem scan_apart (apart : Apart rest) : scan rest = ([], words rest) := by
  cases rest with
  | nil => rfl
  | cons character rest =>
      have blank := apart character rfl
      rw [words_cons_blank blank]
      show (if isBlank character then _ else _) = _
      rw [if_pos blank]
      rfl

private theorem scan_word (inked : ∀ character ∈ word, isBlank character = false)
    (apart : Apart rest) : scan (word ++ rest) = (word, words rest) := by
  induction word with
  | nil => exact scan_apart apart
  | cons character word induction =>
      have rest := induction fun other inside => inked other (List.mem_cons_of_mem _ inside)
      have ink := inked character List.mem_cons_self
      unfold scan at rest ⊢
      rw [List.cons_append, List.foldr_cons, rest]
      simp [ink]

theorem words_append (nonempty : word ≠ [])
    (inked : ∀ character ∈ word, isBlank character = false) (apart : Apart rest) :
    words (word ++ rest) = word :: words rest := by
  show consWord (scan (word ++ rest)).1 (scan (word ++ rest)).2 = _
  rw [scan_word inked apart]
  simp [consWord, nonempty]

/-- The words of a text are those that were written into it. -/
theorem Spaced.words_append {written : List (List Char)} (spaced : Spaced written text)
    (apart : Apart rest) : words (text ++ rest) = written ++ words rest := by
  induction spaced with
  | nil blank => exact words_gap blank
  | @cons gap word text words blank nonempty inked following _ induction =>
      have onward : Apart (text ++ rest) := by
        intro character first
        cases text with
        | nil => exact apart character first
        | cons head tail => exact following character first
      rw [List.append_assoc, List.append_assoc, words_gap blank,
        Text.words_append nonempty inked onward, induction, List.cons_append]

theorem Spaced.words_eq {written : List (List Char)} (spaced : Spaced written text) :
    words text = written := by
  simpa using spaced.words_append apart_nil

theorem Spaced.indent {written : List (List Char)} (spaced : Spaced written text)
    (blank : ∀ character ∈ gap, isBlank character = true) : Spaced written (gap ++ text) := by
  cases spaced with
  | nil also =>
      apply Spaced.nil
      intro character member
      exact (List.mem_append.mp member).elim (blank character) (also character)
  | @cons former word rest words also nonempty inked apart spaced =>
      rw [← List.append_assoc, ← List.append_assoc]
      refine .cons ?_ nonempty inked apart spaced
      intro character member
      exact (List.mem_append.mp member).elim (blank character) (also character)

private theorem spaced_consWord {written : List (List Char)}
    (blank : ∀ character ∈ gap, isBlank character = true)
    (inked : ∀ character ∈ word, isBlank character = false) (apart : Apart rest)
    (spaced : Spaced written rest) : Spaced (consWord word written) (gap ++ word ++ rest) := by
  cases word with
  | nil =>
      rw [List.append_nil]
      exact spaced.indent blank
  | cons character word => exact .cons blank (List.cons_ne_nil character word) inked apart spaced

private theorem scan_spaced (text : List Char) : ∃ rest, text = (scan text).1 ++ rest ∧
    (∀ character ∈ (scan text).1, isBlank character = false) ∧ Apart rest ∧
      Spaced (scan text).2 rest := by
  induction text with
  | nil => exact ⟨[], rfl, nofun, apart_nil, .nil nofun⟩
  | cons character text induction =>
      obtain ⟨rest, shape, inked, apart, spaced⟩ := induction
      have step : scan (character :: text) =
          if isBlank character = true then ([], consWord (scan text).1 (scan text).2)
          else (character :: (scan text).1, (scan text).2) := rfl
      rw [step]
      split
      · next blank =>
        refine ⟨character :: text, rfl, nofun, ?_, ?_⟩
        · rintro other ⟨⟩
          exact blank
        · have only : ∀ other ∈ [character], isBlank other = true := by simpa using blank
          have whole := spaced_consWord only inked apart spaced
          rw [List.append_assoc, ← shape] at whole
          exact whole
      · next ink =>
        refine ⟨rest, congrArg (character :: ·) shape, ?_, apart, spaced⟩
        intro other member
        rcases List.mem_cons.mp member with rfl | inside
        · simpa using ink
        · exact inked other inside

/-- The words are read from every spacing of them, and from no other text. -/
theorem spaced_iff {written : List (List Char)} : Spaced written text ↔ words text = written := by
  constructor
  · exact Spaced.words_eq
  · rintro rfl
    obtain ⟨rest, shape, inked, apart, spaced⟩ := scan_spaced text
    have empty : ∀ character ∈ [], isBlank character = true := nofun
    have whole := spaced_consWord empty inked apart spaced
    rw [List.nil_append, ← shape] at whole
    exact whole

/-! ## First characters -/

theorem firstInk?_gap (blank : ∀ character ∈ gap, isBlank character = true) :
    firstInk? (gap ++ text) = firstInk? text := by
  unfold firstInk?
  rw [List.dropWhile_append_of_pos blank]

theorem firstInk?_blank (blank : ∀ character ∈ gap, isBlank character = true) :
    firstInk? gap = none := by
  have all : firstInk? (gap ++ []) = firstInk? [] := firstInk?_gap blank
  rwa [List.append_nil] at all

theorem firstInk?_cons (ink : isBlank character = false) :
    firstInk? (character :: text) = some character := by
  simp [firstInk?, ink]

/-! ## Numerals -/

/-- The digits of a number after further zeros. -/
def padded (zeros number : Nat) : List Char :=
  List.replicate zeros '0' ++ Nat.toDigits 10 number

/-- A natural number is written in digits, with or without a plus sign. -/
inductive SpellsNatural : List Char → Nat → Prop
  | plain (zeros number : Nat) : SpellsNatural (padded zeros number) number
  | signed (zeros number : Nat) : SpellsNatural ('+' :: padded zeros number) number

/-- An integer is written as a natural number, or in digits after a minus sign. -/
inductive Spells : List Char → Int → Prop
  | natural {text : List Char} {number : Nat} (spells : SpellsNatural text number) :
      Spells text number
  | negative (zeros number : Nat) : Spells ('-' :: padded zeros number) (-number)

theorem isDigit_of_mem_padded {zeros number : Nat} (member : character ∈ padded zeros number) :
    character.isDigit = true := by
  rcases List.mem_append.mp member with zero | digit
  · rw [List.eq_of_mem_replicate zero]
    decide
  · exact Nat.isDigit_of_mem_toDigits (by decide) (by decide) digit

theorem padded_ne_nil (zeros number : Nat) : padded zeros number ≠ [] := by
  intro bare
  exact Nat.toDigits_ne_nil (List.append_eq_nil_iff.mp bare).2

theorem digits?_padded (zeros number : Nat) : digits? (padded zeros number) = some number := by
  have zero : Nat.ofDigitChars 10 (List.replicate zeros '0') 0 = 0 := by
    induction zeros with
    | zero => rfl
    | succ zeros induction => simpa [List.replicate_succ, Nat.ofDigitChars] using induction
  have value : Nat.ofDigitChars 10 (padded zeros number) 0 = number := by
    rw [padded, Nat.ofDigitChars_append, zero,
      Nat.ofDigitChars_toDigits (by decide) (by decide)]
  have accepted : ¬((padded zeros number).isEmpty || !(padded zeros number).all Char.isDigit) =
      true := by
    simp only [Bool.or_eq_true, List.isEmpty_iff, padded_ne_nil, Bool.not_eq_true', false_or,
      Bool.not_eq_false, List.all_eq_true]
    exact fun _ => isDigit_of_mem_padded
  rw [digits?, if_neg accepted]
  exact congrArg some value

theorem isBlank_of_isDigit (digit : character.isDigit = true) : isBlank character = false := by
  simp only [Char.isDigit, Bool.and_eq_true, decide_eq_true_eq] at digit
  have low : 48 ≤ character.toNat := digit.1
  have high : character.toNat ≤ 57 := digit.2
  simp only [isBlank, blankRanges, List.any_cons, List.any_nil, Bool.or_false]
  simp
  omega

private theorem padded_cons (zeros number : Nat) : ∃ digit rest,
    padded zeros number = digit :: rest ∧ digit.isDigit = true := by
  obtain ⟨digit, rest, shape⟩ := List.exists_cons_of_ne_nil (padded_ne_nil zeros number)
  exact ⟨digit, rest, shape, isDigit_of_mem_padded (shape ▸ List.mem_cons_self)⟩

private theorem natural?_cons {character : Char} {text : List Char}
    (digit : character.isDigit = true) :
    natural? (character :: text) = digits? (character :: text) := by
  unfold natural?
  split
  · next same =>
      rw [(List.cons.inj same).1] at digit
      cases digit
  · rfl

private theorem integer?_cons {character : Char} {text : List Char}
    (digit : character.isDigit = true) :
    integer? (character :: text) = (digits? (character :: text)).map Int.ofNat := by
  unfold integer?
  split
  · next same =>
      rw [(List.cons.inj same).1] at digit
      cases digit
  · next same =>
      rw [(List.cons.inj same).1] at digit
      cases digit
  · rfl

private theorem integer?_minus {text : List Char} :
    integer? ('-' :: text) = (digits? text).map fun number => -(number : Int) := by
  simp [integer?]

theorem SpellsNatural.natural? {number : Nat} (spells : SpellsNatural text number) :
    natural? text = some number := by
  cases spells with
  | signed zeros => exact digits?_padded zeros number
  | plain zeros =>
      have read := digits?_padded zeros number
      obtain ⟨digit, rest, shape, isDigit⟩ := padded_cons zeros number
      rw [shape] at read ⊢
      rw [natural?_cons isDigit, read]

theorem Spells.integer? {number : Int} (spells : Spells text number) :
    integer? text = some number := by
  cases spells with
  | negative zeros magnitude =>
      rw [integer?_minus, digits?_padded]
      rfl
  | @natural _ magnitude spells =>
      have read := digits?_padded
      cases spells with
      | signed zeros => simp [Text.integer?, read zeros magnitude]
      | plain zeros =>
          specialize read zeros magnitude
          obtain ⟨digit, rest, shape, isDigit⟩ := padded_cons zeros magnitude
          rw [shape] at read ⊢
          rw [integer?_cons isDigit, read]
          rfl

private theorem digit_bounds (digit : character.isDigit = true) :
    '0'.toNat ≤ character.toNat ∧ character.toNat - '0'.toNat < 10 := by
  obtain ⟨low, high⟩ := Char.isDigit_iff_toNat.mp digit
  have nine : '9'.toNat = '0'.toNat + 9 := rfl
  exact ⟨low, by omega⟩

private theorem toDigits_digit (digit : character.isDigit = true) :
    Nat.toDigits 10 (character.toNat - '0'.toNat) = [character] := by
  obtain ⟨low, small⟩ := digit_bounds digit
  rw [Nat.toDigits_of_lt_base small]
  congr 1
  apply Char.toNat_inj.mp
  rw [Nat.toNat_digitChar_of_lt_ten small]
  exact Nat.add_sub_cancel' low

/-- Further digits are appended to those of a positive number. -/
private theorem toDigits_ofDigitChars {number : Nat} (positive : 0 < number)
    (digits : ∀ character ∈ text, character.isDigit = true) :
    Nat.toDigits 10 (Nat.ofDigitChars 10 text number) = Nat.toDigits 10 number ++ text := by
  induction text generalizing number with
  | nil => simp [Nat.ofDigitChars]
  | cons character text induction =>
      have digit := digits character List.mem_cons_self
      rw [Nat.ofDigitChars_cons, induction (by omega) fun other inside =>
          digits other (List.mem_cons_of_mem _ inside),
        ← Nat.toDigits_append_toDigits (by decide) positive (digit_bounds digit).2,
        toDigits_digit digit,
        List.append_assoc, List.singleton_append]

/-- Zeros in front of the digits of a number are what a sequence of digits can add to them. -/
private theorem exists_padded (nonempty : text ≠ [])
    (digits : ∀ character ∈ text, character.isDigit = true) :
    ∃ zeros, text = padded zeros (Nat.ofDigitChars 10 text 0) := by
  induction text with
  | nil => exact absurd rfl nonempty
  | cons character text induction =>
      have later : ∀ other ∈ text, other.isDigit = true := fun other inside =>
        digits other (List.mem_cons_of_mem _ inside)
      rw [Nat.ofDigitChars_cons, Nat.mul_zero, Nat.zero_add]
      by_cases zero : character = '0'
      · subst zero
        rw [Nat.sub_self]
        cases text with
        | nil => exact ⟨0, rfl⟩
        | cons next text =>
            obtain ⟨zeros, shape⟩ := induction (List.cons_ne_nil _ _) later
            exact ⟨zeros + 1, congrArg ('0' :: ·) shape⟩
      · have digit := digits character List.mem_cons_self
        have positive : 0 < character.toNat - '0'.toNat := by
          have low := (digit_bounds digit).1
          have different := mt Char.toNat_inj.mp zero
          omega
        refine ⟨0, ?_⟩
        rw [padded, toDigits_ofDigitChars positive later, toDigits_digit digit]
        rfl

theorem digits?_eq_some {number : Nat} :
    digits? text = some number ↔ ∃ zeros, text = padded zeros number := by
  constructor
  · intro read
    unfold digits? at read
    split at read
    · cases read
    · next accepted =>
      simp only [Bool.or_eq_true, List.isEmpty_iff, Bool.not_eq_true', not_or,
        Bool.not_eq_false, List.all_eq_true] at accepted
      obtain ⟨zeros, shape⟩ := exists_padded accepted.1 accepted.2
      have value : Nat.ofDigitChars 10 text 0 = number := Option.some.inj read
      rw [value] at shape
      exact ⟨zeros, shape⟩
  · rintro ⟨zeros, rfl⟩
    exact digits?_padded zeros number

theorem natural?_eq_some {number : Nat} :
    natural? text = some number ↔ SpellsNatural text number := by
  constructor
  · intro read
    unfold natural? at read
    split at read
    · obtain ⟨zeros, rfl⟩ := digits?_eq_some.mp read
      exact .signed zeros number
    · obtain ⟨zeros, rfl⟩ := digits?_eq_some.mp read
      exact .plain zeros number
  · exact SpellsNatural.natural?

theorem integer?_eq_some {number : Int} : integer? text = some number ↔ Spells text number := by
  constructor
  · intro read
    unfold integer? at read
    split at read
    · obtain ⟨magnitude, digits, rfl⟩ := Option.map_eq_some_iff.mp read
      obtain ⟨zeros, rfl⟩ := digits?_eq_some.mp digits
      exact .natural (.signed zeros magnitude)
    · next rest =>
      obtain ⟨value, opposite, rfl⟩ := Option.map_eq_some_iff.mp read
      obtain ⟨magnitude, digits, ⟨⟩⟩ := Option.bind_eq_some_iff.mp opposite
      obtain ⟨zeros, rfl⟩ := digits?_eq_some.mp digits
      exact .negative zeros magnitude
    · obtain ⟨magnitude, digits, rfl⟩ := Option.map_eq_some_iff.mp read
      obtain ⟨zeros, rfl⟩ := digits?_eq_some.mp digits
      exact .natural (.plain zeros magnitude)
  · exact Spells.integer?

/-- A spelling begins with a sign or a digit, and holds no blank. -/
structure Numeral (text : List Char) : Prop where
  first : ∃ head tail, text = head :: tail ∧ (head = '+' ∨ head = '-' ∨ head.isDigit = true)
  inked : ∀ character ∈ text, isBlank character = false

theorem Spells.numeral {number : Int} (spells : Spells text number) : Numeral text := by
  have digits : ∀ zeros number, ∀ character ∈ padded zeros number, isBlank character = false :=
    fun _ _ _ member => isBlank_of_isDigit (isDigit_of_mem_padded member)
  have signed : ∀ sign zeros number, (sign = '+' ∨ sign = '-') →
      Numeral (sign :: padded zeros number) := by
    intro sign zeros number either
    refine ⟨⟨sign, _, rfl, either.imp_right Or.inl⟩, fun character member => ?_⟩
    rcases List.mem_cons.mp member with rfl | inside
    · rcases either with rfl | rfl <;> decide
    · exact digits _ _ character inside
  cases spells with
  | negative zeros magnitude => exact signed '-' zeros magnitude (.inr rfl)
  | @natural _ magnitude spells =>
      cases spells with
      | signed zeros => exact signed '+' zeros magnitude (.inl rfl)
      | plain zeros =>
          obtain ⟨digit, rest, shape, isDigit⟩ := padded_cons zeros magnitude
          exact ⟨⟨digit, rest, shape, .inr (.inr isDigit)⟩, digits zeros magnitude⟩

theorem SpellsNatural.word? {number : Nat} (spells : SpellsNatural text number)
    (small : number < wordCount) : word? text = some number := by
  simp [Text.word?, spells.natural?, small]

/-- An integer whose magnitude has 63 bits is read, and is not the least one. -/
theorem Spells.signedWord? {number : Int} (spells : Spells text number)
    (small : number.natAbs < Nat.pow 2 63) :
    signedWord? text = some number ∧ number ≠ leastSigned := by
  unfold Text.signedWord? leastSigned
  rw [spells.integer?]
  constructor
  · rw [Option.filter_some, if_pos]
    simp only [decide_eq_true_eq]
    omega
  · omega

end Text

/-! ## Lines -/

namespace Dimacs

/-- The bytes of a text. -/
def encode (text : List Char) : List UInt8 := text.flatMap String.utf8EncodeChar

/-- The lines of a text; the last one need not end in a line feed. -/
def textLines : List Char → List (List Char)
  | [] => []
  | character :: text =>
      if character = '\n' then [] :: textLines text
      else
        match textLines text with
        | [] => [[character]]
        | line :: lines => (character :: line) :: lines

theorem textLines_append {line text : List Char} (inside : '\n' ∉ line) :
    textLines (line ++ '\n' :: text) = line :: textLines text := by
  induction line with
  | nil => rfl
  | cons character line induction =>
      rw [List.mem_cons, not_or] at inside
      rw [List.cons_append, textLines, if_neg (Ne.symm inside.1), induction inside.2]

theorem textLines_single {line : List Char} (inside : '\n' ∉ line) (nonempty : line ≠ []) :
    textLines line = [line] := by
  induction line with
  | nil => exact absurd rfl nonempty
  | cons character line induction =>
      rw [List.mem_cons, not_or] at inside
      rw [textLines, if_neg (Ne.symm inside.1)]
      cases line with
      | nil => rfl
      | cons next line => rw [induction inside.2 (List.cons_ne_nil next line)]

private theorem utf8EncodeChar_ne {character : Char} (different : character ≠ '\n') :
    ∀ byte ∈ String.utf8EncodeChar character, byte ≠ 10 := by
  intro byte member
  have numbers : ∀ number : Nat, UInt8.ofNat number = 10 → number % 256 = 10 := by
    intro number same
    exact congrArg UInt8.toNat same
  unfold String.utf8EncodeChar at member
  dsimp only at member
  rintro rfl
  split at member
  · next small =>
      have same := numbers _ (List.mem_singleton.mp member).symm
      refine different (Char.ext (UInt32.toNat_inj.mp ?_))
      show character.val.toNat = 10
      omega
  · split at member
    · simp only [List.mem_cons, List.not_mem_nil, or_false] at member
      rcases member with same | same <;> have := numbers _ same.symm <;> omega
    · split at member
      · simp only [List.mem_cons, List.not_mem_nil, or_false] at member
        rcases member with same | same | same <;> have := numbers _ same.symm <;> omega
      · simp only [List.mem_cons, List.not_mem_nil, or_false] at member
        rcases member with same | same | same | same <;> have := numbers _ same.symm <;> omega

private theorem splitLines_append {bytes rest : List UInt8} (nonempty : bytes ≠ [])
    (different : ∀ byte ∈ bytes, byte ≠ 10) :
    splitLines (bytes ++ rest) =
      match splitLines rest with
      | [] => [bytes]
      | line :: lines => (bytes ++ line) :: lines := by
  induction bytes with
  | nil => exact absurd rfl nonempty
  | cons byte bytes induction =>
      have own := different byte List.mem_cons_self
      have step : splitLines (byte :: (bytes ++ rest)) =
          match splitLines (bytes ++ rest) with
          | [] => [[byte]]
          | line :: lines => (byte :: line) :: lines := if_neg own
      rw [List.cons_append, step]
      cases bytes with
      | nil => rfl
      | cons next bytes =>
          rw [induction (List.cons_ne_nil next bytes) fun other inside =>
            different other (List.mem_cons_of_mem _ inside)]
          cases splitLines rest <;> rfl

theorem splitLines_encode (text : List Char) :
    splitLines (encode text) = (textLines text).map encode := by
  induction text with
  | nil => rfl
  | cons character text induction =>
      have whole : encode (character :: text) = String.utf8EncodeChar character ++ encode text :=
        List.flatMap_cons
      by_cases feed : character = '\n'
      · subst feed
        have first : splitLines (encode ('\n' :: text)) = [] :: splitLines (encode text) := by
          rw [whole]
          rfl
        rw [first, induction]
        rfl
      · rw [whole, splitLines_append (by simp) (utf8EncodeChar_ne feed),
          textLines, if_neg feed, induction]
        cases textLines text with
        | nil => simp [encode]
        | cons line lines => simp [encode]

theorem decodeLine_encode (text : List Char) : decodeLine (encode text) = some text := by
  have bytes : (⟨(encode text).toArray⟩ : ByteArray) = (String.ofList text).toByteArray := by
    rw [String.toByteArray_ofList]
    apply ByteArray.ext
    simp [List.utf8Encode, encode]
  have valid := (String.ofList text).isValidUTF8
  rw [← bytes] at valid
  unfold decodeLine
  rw [String.fromUTF8?, dif_pos valid]
  have same : String.fromUTF8 ⟨(encode text).toArray⟩ valid = String.ofList text :=
    String.toByteArray_inj.mp bytes
  simp [same]

end Dimacs

end ModelSearch
