import ModelSearch.Fault
import ModelSearch.Text.Blank
import ModelSearch.Text.Numeral

/-!
# Formula files

A formula file starts with comments and at most one header, which gives the
numbers of variables and clauses.  Then follow integers, each clause ended by a
zero; clauses may be broken over lines, and comment lines may stand between them.
Reading stops after the promised number of clauses, or at a line that starts with
a percent sign.  A line starts at its first character that is not blank.

Reading gives a document: the header, the integers up to the point where reading
stopped, and why it stopped early, if it did.
-/

namespace ModelSearch.Dimacs

/-- The numbers a header gives. -/
structure Header where
  variableCount : Nat
  clauseCount : Nat
  deriving Repr, DecidableEq

/-- A line, with the number of lines before it; its characters are missing if
its bytes are not UTF-8. -/
structure Line where
  before : Nat
  text : Option (List Char)
  deriving Repr, DecidableEq

/-- What was read. -/
structure Document where
  header : Option Header
  numbers : Array Int
  fault : Option SolverError
  deriving Repr, DecidableEq

/-- Bytes between line feeds; the last line need not end in one. -/
def splitLines (bytes : List UInt8) : List (List UInt8) :=
  bytes.foldr
    (fun byte lines =>
      if byte = 10 then [] :: lines
      else
        match lines with
        | [] => [[byte]]
        | line :: lines => (byte :: line) :: lines)
    []

def decodeLine (bytes : List UInt8) : Option (List Char) :=
  (String.fromUTF8? ⟨bytes.toArray⟩).map String.toList

def linesOf (bytes : List UInt8) : List Line :=
  (splitLines bytes).zipIdx.map fun (bytes, before) => ⟨before, decodeLine bytes⟩

/-- The header in a line: a word, the word "cnf", and two natural numbers. -/
def header? (text : List Char) : Option Header :=
  match Text.words text with
  | _ :: format :: variableCount :: clauseCount :: _ =>
      if format = "cnf".toList then
        match Text.word? variableCount, Text.word? clauseCount with
        | some variableCount, some clauseCount => some ⟨variableCount, clauseCount⟩
        | _, _ => none
      else none
  | _ => none

/-- Skips comments and blank lines, and takes the header if one comes first.  The
lines of the formula are left. -/
def readPreamble : List Line → Except SolverError (Option Header × List Line)
  | [] => .ok (none, [])
  | line :: lines =>
      match line.text with
      | none => .error (.unreadableLine line.before)
      | some text =>
          match Text.firstInk? text with
          | none | some 'c' => readPreamble lines
          | some 'p' =>
              match header? text with
              | some header => .ok (some header, lines)
              | none => .error .problemSpecification
          | some _ => .ok (none, line :: lines)

/-- What a reader of the formula meets: words with the numbers of their lines. -/
inductive Item where
  | word (line : Nat) (text : List Char)
  | unreadable (linesBefore : Nat)
  | stop
  deriving Repr, DecidableEq

/-- The items of a line of the formula. -/
def itemsOf (line : Line) : List Item :=
  match line.text with
  | none => [.unreadable line.before]
  | some text =>
      match Text.firstInk? text with
      | some '%' => [.stop]
      | some 'c' => []
      | _ => (Text.words text).map (.word (line.before + 1))

/-- The integer of a word.  The least integer of 64 bits is refused, as its
magnitude has no such word. -/
def literal? (text : List Char) : Option Int :=
  (Text.signedWord? text).filter (· != Text.leastSigned)

/-- Reads integers until so many clauses are complete, or as many as there are. -/
def readNumbers (header : Option Header) :
    Option Nat → Array Int → List Item → Document
  | some 0, numbers, _ => ⟨header, numbers, none⟩
  | _, numbers, [] => ⟨header, numbers, none⟩
  | _, numbers, .stop :: _ => ⟨header, numbers, none⟩
  | _, numbers, .unreadable linesBefore :: _ =>
      ⟨header, numbers, some (.unreadableLine linesBefore)⟩
  | wanted, numbers, .word line text :: items =>
      match literal? text with
      | none => ⟨header, numbers, some (.badLiteral line)⟩
      | some number =>
          let wanted := if number = 0 then wanted.map (· - 1) else wanted
          readNumbers header wanted (numbers.push number) items

/-- Reads a formula file. -/
def Document.ofBytes (bytes : List UInt8) : Document :=
  match readPreamble (linesOf bytes) with
  | .error error => ⟨none, #[], some error⟩
  | .ok (header, lines) =>
      readNumbers header (header.map Header.clauseCount) #[] (lines.flatMap itemsOf)

/-- What is read from a source that gives no line at all. -/
def Document.unreadable : Document := ⟨none, #[], some (.unreadableLine 0)⟩

end ModelSearch.Dimacs
