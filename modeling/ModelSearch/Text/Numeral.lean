/-!
# Decimal numerals

A natural number is written with ASCII digits after an optional plus sign, an
integer after an optional sign of either kind.  Numbers are read without bound;
readers of words of fixed width add theirs.
-/

namespace ModelSearch.Text

/-- The number of a non-empty sequence of digits. -/
def digits? (text : List Char) : Option Nat :=
  if text.isEmpty || !text.all Char.isDigit then none
  else some (text.foldl (fun number digit => 10 * number + (digit.toNat - '0'.toNat)) 0)

def natural? : List Char → Option Nat
  | '+' :: text => digits? text
  | text => digits? text

def integer? : List Char → Option Int
  | '+' :: text => (digits? text).map Int.ofNat
  | '-' :: text => (digits? text).map fun number => -(number : Int)
  | text => (digits? text).map Int.ofNat

/-- The number of words of 64 bits. -/
def wordCount : Nat := Nat.pow 2 64

/-- The least integer of 64 bits, sign included. -/
def leastSigned : Int := -(Nat.pow 2 63 : Nat)

/-- A natural number of at most 64 bits. -/
def word? (text : List Char) : Option Nat := (natural? text).filter (· < wordCount)

/-- An integer of at most 64 bits, sign included. -/
def signedWord? (text : List Char) : Option Int :=
  (integer? text).filter fun number => decide (leastSigned ≤ number ∧ number < -leastSigned)

end ModelSearch.Text
