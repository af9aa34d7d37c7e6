/-!
# Blanks and words

A blank is a character with the property White_Space.  The words of a text are
its longest parts without blanks.
-/

namespace ModelSearch.Text

/-- The characters with the property White_Space, as ranges of code points. -/
def blankRanges : List (Nat × Nat) :=
  [(0x09, 0x0d), (0x20, 0x20), (0x85, 0x85), (0xa0, 0xa0), (0x1680, 0x1680), (0x2000, 0x200a),
    (0x2028, 0x2029), (0x202f, 0x202f), (0x205f, 0x205f), (0x3000, 0x3000)]

def isBlank (character : Char) : Bool :=
  blankRanges.any fun (first, last) => first ≤ character.toNat && character.toNat ≤ last

/-- The first character that is not blank. -/
def firstInk? (text : List Char) : Option Char := (text.dropWhile isBlank).head?

/-- Puts a word in front of others, unless it is empty. -/
def consWord (word : List Char) (words : List (List Char)) : List (List Char) :=
  if word.isEmpty then words else word :: words

/-- The words of a text, in order. -/
def words (text : List Char) : List (List Char) :=
  let (word, words) := text.foldr
    (fun character (word, words) =>
      if isBlank character then ([], consWord word words) else (character :: word, words))
    ([], [])
  consWord word words

end ModelSearch.Text
