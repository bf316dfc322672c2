import StoredMatrix.Decimal.Shortest

/-!
# Text of a double

Without a precision a finite number is written as its shortest decimal, with one as the decimal
of that many places. A minus stands for the sign bit, also on a zero; a NaN has no sign.
-/

namespace StoredMatrix.Binary64

/-- The decimal under which a finite magnitude is shown. -/
def decimal (precision : Option Nat) (magnitude : Nat) : Decimal :=
  match precision with
  | none => shortestDecimal magnitude
  | some places => fixedDecimal places magnitude

/-- The text of a magnitude that is not a NaN. -/
def magnitudeText (precision : Option Nat) (magnitude : Nat) : List Char :=
  if magnitude = infiniteMagnitude then ['i', 'n', 'f'] else (decimal precision magnitude).text

/-- The text of a number, with the given number of places if there is one. -/
def text (precision : Option Nat) (x : Binary64) : List Char :=
  if x.isNaN then ['N', 'a', 'N']
  else (if x.isNegative then ['-'] else []) ++ magnitudeText precision x.magnitude

end StoredMatrix.Binary64
