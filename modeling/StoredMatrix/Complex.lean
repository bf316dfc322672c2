import StoredMatrix.Binary64.Arithmetic
import StoredMatrix.Binary64.Text

/-!
# Complex numbers

A complex number is a pair of doubles. In a buffer of words its parts stand side by side, the
real part first.
-/

namespace StoredMatrix

/-- A complex number given by its parts. -/
structure Complex where
  re : Binary64
  im : Binary64
deriving DecidableEq, Inhabited

namespace Complex

/-- A real number, with a positive zero as imaginary part. -/
def ofReal (x : Binary64) : Complex := ⟨x, .zero⟩

/-- The number zero. -/
def zero : Complex := ofReal .zero

/-- The number one. -/
def one : Complex := ofReal .one

/-- The imaginary unit. -/
def i : Complex := ⟨.zero, .one⟩

/-- Whether both parts are zero, of either sign. -/
def isZero (z : Complex) : Bool := z.re.isZero && z.im.isZero

/-- Equality of numbers part by part. -/
def numEq (z w : Complex) : Bool := z.re.numEq w.re && z.im.numEq w.im

/-- The distance from zero. -/
def magnitude (z : Complex) : Binary64 := z.re.hypotenuse z.im

/-- The conjugate, which flips the sign bit of the imaginary part. -/
def conj (z : Complex) : Complex := ⟨z.re, z.im.neg⟩

/-- The sum. -/
def add (z w : Complex) : Complex := ⟨z.re.add w.re, z.im.add w.im⟩

/-- The text `re + im i`; the sign between the parts is the sign bit of the imaginary part. -/
def text (precision : Option Nat) (z : Complex) : List Char :=
  z.re.text precision ++ [' ', if z.im.isNegative then '-' else '+', ' '] ++
    z.im.abs.text precision ++ ['i']

/-! ## Parts side by side and apart -/

/-- The numbers with the given real and imaginary parts. -/
def ofParts (re im : List Binary64) : List Complex := List.zipWith Complex.mk re im

/-- The numbers whose parts alternate in a list of words; a last word without partner is dropped. -/
def ofInterleaved : List Binary64 → List Complex
  | re :: im :: rest => ⟨re, im⟩ :: ofInterleaved rest
  | _ => []

/-- Numbers whose parts are laid out in turn are read back from them. -/
theorem ofInterleaved_flatMap (zs : List Complex) :
    ofInterleaved (zs.flatMap fun z => [z.re, z.im]) = zs := by
  induction zs with
  | nil => rfl
  | cons z zs ih => simp only [List.flatMap_cons, List.cons_append, List.nil_append, ofInterleaved, ih]

end Complex

end StoredMatrix
