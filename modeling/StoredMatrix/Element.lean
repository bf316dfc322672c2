import StoredMatrix.Complex
import StoredMatrix.Error

/-!
# Elements

What may stand in a grid has a zero and a test for being zero, and the test may hold of more than
the one zero: a negative zero passes it too. What may stand in a matrix belongs to a domain
as well, can be seen as a complex number, and is stored as a fixed number of words.
-/

namespace StoredMatrix

/-- What may stand in a grid. -/
class Entry (α : Type) where
  /-- The zero that fills empty positions. -/
  zero : α
  /-- Whether an entry counts as zero. -/
  isZero : α → Bool
  isZero_zero : isZero zero = true

/-- Whether an entry is not zero. -/
def Entry.isNonzero {α : Type} [Entry α] (a : α) : Bool := !Entry.isZero a

instance : Entry Int where
  zero := 0
  isZero n := decide (n = 0)
  isZero_zero := rfl

instance : Entry Binary64 where
  zero := .zero
  isZero := Binary64.isZero
  isZero_zero := by decide

instance : Entry Complex where
  zero := .zero
  isZero := Complex.isZero
  isZero_zero := by decide

/-- What may stand in a matrix. -/
class Element (α : Type) extends Entry α where
  /-- The domain that the element belongs to. -/
  domain : Domain
  /-- The number of words that one element takes. -/
  width : Nat
  /-- The element as a complex number. -/
  promote : α → Complex
  /-- The words of one element. -/
  words : α → List Binary64
  /-- The elements of a list of words, whose length is a multiple of the width. -/
  ofWords : List Binary64 → List α
  /-- The text of an element, with the given number of places if there is one. -/
  text : Option Nat → α → List Char
  promote_zero : promote zero = Complex.zero
  isZero_promote (a : α) : (promote a).isZero = isZero a
  length_words (a : α) : (words a).length = width
  ofWords_flatMap_words (xs : List α) : ofWords (xs.flatMap words) = xs

instance : Element Binary64 where
  domain := .real
  width := 1
  promote := .ofReal
  words x := [x]
  ofWords := id
  text := Binary64.text
  promote_zero := rfl
  isZero_promote x := by
    have h : Binary64.zero.isZero = true := by decide
    simp [Complex.isZero, Complex.ofReal, h, Entry.isZero]
  length_words _ := rfl
  ofWords_flatMap_words xs := List.flatMap_singleton' xs

instance : Element Complex where
  domain := .complex
  width := 2
  promote := id
  words z := [z.re, z.im]
  ofWords := Complex.ofInterleaved
  text := Complex.text
  promote_zero := rfl
  isZero_promote _ := rfl
  length_words _ := rfl
  ofWords_flatMap_words := Complex.ofInterleaved_flatMap

variable {α : Type} [Element α]

/-- The words of a list of elements, one element after the other. -/
def rawWords (xs : List α) : List Binary64 := xs.flatMap Element.words

/-- The elements stored in a list of words. -/
def elementsOfWords (arg : String) (words : List Binary64) : Except Error (List α) := do
  ensure (words.length % Element.width α = 0)
    (.invalidArgument arg (.partialElement (Element.domain α) (Element.width α) words.length))
  return Element.ofWords words

/-- A list of elements as complex numbers. -/
def promoteAll (xs : List α) : List Complex := xs.map Element.promote

/-- The first `n` elements, followed by zeros if there are fewer. -/
def fitTo (n : Nat) (xs : List α) : List α := (xs.take n).rightpad n Entry.zero

end StoredMatrix
