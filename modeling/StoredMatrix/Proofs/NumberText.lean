import StoredMatrix.Matrix.Basic
import StoredMatrix.Proofs.ShortestDecimal

/-!
# Text of a number

Without a precision the text of a number can be read back: the point of a decimal tells its places, a
sign stands in front of it, and the shortest decimals of different magnitudes differ. Only the NaNs
share one text. A complex number is cut at its first blank.
-/

namespace StoredMatrix

theorem append_cons_inj {β : Type} {x : β} {a a' b b' : List β} (ha : x ∉ a) (ha' : x ∉ a') :
    a ++ x :: b = a' ++ x :: b' ↔ a = a' ∧ b = b' := by
  induction a generalizing a' with
  | nil =>
      cases a' with
      | nil => simp
      | cons y a' => simp_all
  | cons y a ih =>
      rw [List.mem_cons, not_or] at ha
      cases a' with
      | nil => simp [Ne.symm ha.1]
      | cons y' a' =>
          rw [List.mem_cons, not_or] at ha'
          simp [ih ha.2 ha'.2, and_assoc]

/-! ## Decimals -/

namespace Decimal

variable {d e : Decimal} {c : Char}

theorem ofDigitChars_replicate_zero (n : Nat) : Nat.ofDigitChars 10 (List.replicate n '0') 0 = 0 := by
  induction n with
  | zero => rfl
  | succ n ih => rw [List.replicate_succ, Nat.ofDigitChars_cons]; exact ih

/-- Zeros in front do not change the number. -/
theorem ofDigitChars_paddedDigits (d : Decimal) : Nat.ofDigitChars 10 d.paddedDigits 0 = d.digits := by
  rw [paddedDigits, List.leftpad, Nat.ofDigitChars_append, ofDigitChars_replicate_zero,
    Nat.ofDigitChars_ten_toDigits]

theorem isDigit_of_mem_paddedDigits (h : c ∈ d.paddedDigits) : c.isDigit = true := by
  rw [paddedDigits, List.leftpad, List.mem_append] at h
  rcases h with h | h
  · rw [List.eq_of_mem_replicate h]
    rfl
  · exact Nat.isDigit_of_mem_toDigits (by decide) (by decide) h

theorem point_not_mem_paddedDigits : '.' ∉ d.paddedDigits := fun h => by
  cases isDigit_of_mem_paddedDigits h

theorem places_lt_length_paddedDigits (d : Decimal) : d.places < d.paddedDigits.length := by
  rw [paddedDigits, List.length_leftpad]
  omega

theorem text_of_places_eq_zero (h : d.places = 0) : d.text = d.paddedDigits := if_pos h

theorem text_of_places_ne_zero (h : d.places ≠ 0) :
    d.text = d.paddedDigits.take (d.paddedDigits.length - d.places) ++
      '.' :: d.paddedDigits.drop (d.paddedDigits.length - d.places) := if_neg h

theorem mem_text (h : c ∈ d.text) : c.isDigit = true ∨ c = '.' := by
  by_cases hp : d.places = 0
  · rw [text_of_places_eq_zero hp] at h
    exact .inl (isDigit_of_mem_paddedDigits h)
  · rw [text_of_places_ne_zero hp, List.mem_append, List.mem_cons] at h
    rcases h with h | h | h
    · exact .inl (isDigit_of_mem_paddedDigits (List.mem_of_mem_take h))
    · exact .inr h
    · exact .inl (isDigit_of_mem_paddedDigits (List.mem_of_mem_drop h))

theorem point_mem_text_iff : '.' ∈ d.text ↔ d.places ≠ 0 := by
  by_cases hp : d.places = 0
  · simp [text_of_places_eq_zero hp, hp, point_not_mem_paddedDigits]
  · simp [text_of_places_ne_zero hp, hp]

theorem ext_of_paddedDigits (hp : d.places = e.places) (hd : d.paddedDigits = e.paddedDigits) : d = e := by
  have hdigits := congrArg (Nat.ofDigitChars 10 · 0) hd
  simp only [ofDigitChars_paddedDigits] at hdigits
  cases d
  cases e
  cases hp
  cases hdigits
  rfl

/-- A decimal is read back from its text. -/
theorem text_inj : d.text = e.text ↔ d = e := by
  refine ⟨fun h => ?_, congrArg text⟩
  have hpoint : d.places ≠ 0 ↔ e.places ≠ 0 := by rw [← point_mem_text_iff, h, point_mem_text_iff]
  by_cases hd : d.places = 0
  · have he : e.places = 0 := by omega
    rw [text_of_places_eq_zero hd, text_of_places_eq_zero he] at h
    exact ext_of_paddedDigits (hd.trans he.symm) h
  · rw [text_of_places_ne_zero hd, text_of_places_ne_zero (hpoint.mp hd),
      append_cons_inj (fun h => point_not_mem_paddedDigits (List.mem_of_mem_take h))
        (fun h => point_not_mem_paddedDigits (List.mem_of_mem_take h))] at h
    obtain ⟨hwhole, hpart⟩ := h
    refine ext_of_paddedDigits ?_ ?_
    -- as many digits stand after the point as there are places
    · have hlength := congrArg List.length hpart
      have hlt := d.places_lt_length_paddedDigits
      have hlt' := e.places_lt_length_paddedDigits
      rw [List.length_drop, List.length_drop] at hlength
      omega
    · rw [← List.take_append_drop (d.paddedDigits.length - d.places) d.paddedDigits, hwhole, hpart,
        List.take_append_drop]

end Decimal

/-! ## Real numbers -/

namespace Binary64

variable {x y : Binary64} {c : Char} {precision : Option Nat}

theorem mem_magnitudeText {magnitude : Nat} (h : c ∈ magnitudeText precision magnitude) :
    c.isDigit = true ∨ c ∈ ['.', 'i', 'n', 'f'] := by
  rw [magnitudeText] at h
  split at h
  · exact .inr (List.mem_cons_of_mem _ h)
  · exact (Decimal.mem_text h).imp_right fun hc => by simp [hc]

theorem magnitudeText_inj {a b : Nat} : magnitudeText none a = magnitudeText none b ↔ a = b := by
  refine ⟨fun h => ?_, congrArg _⟩
  have hword : ∀ {m}, m ≠ infiniteMagnitude → (shortestDecimal m).text ≠ ['i', 'n', 'f'] := by
    intro m _ htext
    have hi : 'i' ∈ (shortestDecimal m).text := htext ▸ List.mem_cons_self
    rcases Decimal.mem_text hi with hi | hi <;> cases hi
  simp only [magnitudeText, decimal] at h
  split at h
  · rename_i ha
    split at h
    · rename_i hb
      exact ha.trans hb.symm
    · rename_i hb
      exact absurd h.symm (hword hb)
  · rename_i ha
    split at h
    · exact absurd h (hword ha)
    · exact shortestDecimal_inj.mp (Decimal.text_inj.mp h)

/-- The characters that numbers are written with. -/
theorem mem_text (h : c ∈ x.text precision) :
    c.isDigit = true ∨ c ∈ ['.', 'i', 'n', 'f', '-', 'N', 'a'] := by
  rw [text] at h
  split at h
  · simp at h
    grind
  · rw [List.mem_append] at h
    rcases h with h | h
    · split at h
      · simp at h
        grind
      · cases h
    · exact (mem_magnitudeText h).imp_right (by grind)

/-- A character that no number is written with. -/
def IsSeparator (c : Char) : Prop := c.isDigit = false ∧ c ∉ ['.', 'i', 'n', 'f', '-', 'N', 'a']

theorem isSeparator_blank : IsSeparator ' ' := ⟨rfl, by decide⟩

theorem not_mem_text (h : IsSeparator c) : c ∉ x.text precision := fun hmem => by
  rcases mem_text hmem with hc | hc
  · exact absurd hc (Bool.eq_false_iff.mp h.1)
  · exact h.2 hc

/-- Two numbers are shown alike: they have the same bits, or both are NaN. -/
def ShownAlike (x y : Binary64) : Prop := x = y ∨ (x.isNaN = true ∧ y.isNaN = true)

theorem text_of_isNaN (h : x.isNaN = true) : x.text precision = ['N', 'a', 'N'] := if_pos h

theorem text_of_not_isNaN (h : x.isNaN = false) :
    x.text precision = (if x.isNegative then ['-'] else []) ++ magnitudeText precision x.magnitude :=
  if_neg (Bool.eq_false_iff.mp h)

theorem ShownAlike.text_eq (h : x.ShownAlike y) (precision : Option Nat) :
    x.text precision = y.text precision := by
  rcases h with rfl | ⟨hx, hy⟩
  · rfl
  · rw [text_of_isNaN hx, text_of_isNaN hy]

theorem letter_not_mem_text (h : x.isNaN = false) : 'N' ∉ x.text precision := by
  rw [text_of_not_isNaN h, List.mem_append, not_or]
  refine ⟨?_, fun hmem => ?_⟩
  · split <;> decide
  · rcases mem_magnitudeText hmem with hc | hc <;> revert hc <;> decide

theorem minus_not_mem_magnitudeText {magnitude : Nat} : '-' ∉ magnitudeText precision magnitude := fun hmem => by
  rcases mem_magnitudeText hmem with hc | hc <;> revert hc <;> decide

theorem minus_mem_signedText {negative : Bool} {magnitude : Nat} :
    '-' ∈ (if negative then ['-'] else []) ++ magnitudeText precision magnitude ↔ negative = true := by
  cases negative <;> simp [minus_not_mem_magnitudeText]

theorem signedText_inj {s t : Bool} {a b : Nat} :
    (if s then ['-'] else []) ++ magnitudeText none a = (if t then ['-'] else []) ++ magnitudeText none b ↔
      s = t ∧ a = b := by
  constructor
  · intro h
    have hminus := congrArg ('-' ∈ ·) h
    simp only [minus_mem_signedText] at hminus
    obtain rfl := Bool.eq_iff_iff.mpr (iff_of_eq hminus)
    exact ⟨rfl, magnitudeText_inj.mp (List.append_cancel_left h)⟩
  · rintro ⟨rfl, rfl⟩
    rfl

/-- Only the NaNs share a text. -/
theorem text_eq_iff : x.text none = y.text none ↔ x.ShownAlike y := by
  refine ⟨fun h => ?_, fun h => h.text_eq none⟩
  cases hx : x.isNaN with
  | true =>
      cases hy : y.isNaN with
      | true => exact .inr ⟨hx, hy⟩
      | false =>
          rw [text_of_isNaN hx] at h
          exact absurd (h ▸ List.mem_cons_self) (letter_not_mem_text hy)
  | false =>
      cases hy : y.isNaN with
      | true =>
          rw [text_of_isNaN hy] at h
          exact absurd (h ▸ List.mem_cons_self) (letter_not_mem_text hx)
      | false =>
          rw [text_of_not_isNaN hx, text_of_not_isNaN hy, signedText_inj] at h
          exact .inl (eq_iff_sign_magnitude.mpr h)

theorem abs_shownAlike_abs (hsign : x.isNegative = y.isNegative) : x.abs.ShownAlike y.abs ↔ x.ShownAlike y := by
  have hmagnitude : ∀ z : Binary64, z.abs.magnitude = z.magnitude := fun z =>
    magnitude_ofSignMagnitude false z.magnitude_lt
  have habs : x.abs = y.abs ↔ x = y := by
    rw [eq_iff_sign_magnitude, hmagnitude, hmagnitude, abs, abs, isNegative_ofSignMagnitude _ x.magnitude_lt,
      isNegative_ofSignMagnitude _ y.magnitude_lt, eq_self, true_and, eq_iff_sign_magnitude, hsign, eq_self,
      true_and]
  rw [ShownAlike, ShownAlike, habs, isNaN, isNaN, hmagnitude, hmagnitude, isNaN, isNaN]

end Binary64

/-! ## Complex numbers -/

namespace Complex

variable {z w : Complex} {c : Char} {precision : Option Nat}

/-- Both parts are shown alike, and so is the sign between them. -/
structure ShownAlike (z w : Complex) : Prop where
  re_alike : z.re.ShownAlike w.re
  im_alike : z.im.ShownAlike w.im
  sign_eq : z.im.isNegative = w.im.isNegative

theorem text_eq_append (precision : Option Nat) (z : Complex) :
    z.text precision = z.re.text precision ++
      ' ' :: (if z.im.isNegative then '-' else '+') :: ' ' :: (z.im.abs.text precision ++ ['i']) := by
  simp [text]

theorem ShownAlike.text_eq (h : z.ShownAlike w) (precision : Option Nat) :
    z.text precision = w.text precision := by
  have him := (Binary64.abs_shownAlike_abs h.sign_eq).mpr h.im_alike
  rw [text, text, h.re_alike.text_eq, h.sign_eq, him.text_eq]

/-- The real part ends at the first blank, and the sign stands between the blanks. -/
theorem text_eq_iff : z.text none = w.text none ↔ z.ShownAlike w := by
  refine ⟨fun h => ?_, fun h => h.text_eq none⟩
  rw [text_eq_append, text_eq_append,
    append_cons_inj (Binary64.not_mem_text Binary64.isSeparator_blank) (Binary64.not_mem_text Binary64.isSeparator_blank)] at h
  obtain ⟨hre, hrest⟩ := h
  obtain ⟨hsign, hrest⟩ := List.cons.inj hrest
  have him := List.append_cancel_right (List.cons.inj hrest).2
  have hsign : z.im.isNegative = w.im.isNegative := by
    revert hsign
    cases z.im.isNegative <;> cases w.im.isNegative <;> decide
  exact ⟨Binary64.text_eq_iff.mp hre,
    (Binary64.abs_shownAlike_abs hsign).mp (Binary64.text_eq_iff.mp him), hsign⟩

theorem blank_mem_text (z : Complex) : ' ' ∈ z.text precision := by
  simp [text]

theorem not_mem_text (h : Binary64.IsSeparator c) (hc : c ∉ [' ', '+']) : c ∉ z.text precision := by
  have hletter := h.2
  have hsign : c ≠ if z.im.isNegative then '-' else '+' := by
    split <;> grind
  simp only [text_eq_append, List.mem_append, List.mem_cons, not_or]
  refine ⟨Binary64.not_mem_text h, ?_, hsign, ?_, Binary64.not_mem_text h, ?_, List.not_mem_nil⟩
  · grind
  · grind
  · grind

end Complex

/-! ## Numbers of either domain -/

namespace Scalar

variable {a b : Scalar} {c : Char} {precision : Option Nat}

def text (precision : Option Nat) : Scalar → List Char
  | real x => x.text precision
  | complex z => z.text precision

/-- Two numbers of one domain that are shown alike. -/
def ShownAlike : Scalar → Scalar → Prop
  | real x, real y => x.ShownAlike y
  | complex z, complex w => z.ShownAlike w
  | _, _ => False

theorem ShownAlike.text_eq (h : a.ShownAlike b) (precision : Option Nat) :
    a.text precision = b.text precision := by
  cases a with
  | real x =>
      cases b with
      | real y => exact Binary64.ShownAlike.text_eq h precision
      | complex w => cases h
  | complex z =>
      cases b with
      | real y => cases h
      | complex w => exact Complex.ShownAlike.text_eq h precision

/-- The blanks of a complex number tell its domain. -/
theorem real_text_ne_complex_text (x : Binary64) (z : Complex) : x.text precision ≠ z.text precision := by
  intro h
  have hblank : ' ' ∈ x.text precision := h ▸ z.blank_mem_text
  exact Binary64.not_mem_text Binary64.isSeparator_blank hblank

theorem text_eq_iff : a.text none = b.text none ↔ a.ShownAlike b := by
  cases a with
  | real x =>
      cases b with
      | real y => exact Binary64.text_eq_iff
      | complex w => exact iff_of_false (real_text_ne_complex_text x w) id
  | complex z =>
      cases b with
      | real y => exact iff_of_false (real_text_ne_complex_text y z).symm id
      | complex w => exact Complex.text_eq_iff

theorem not_mem_text (h : Binary64.IsSeparator c) (hc : c ∉ [' ', '+']) : c ∉ a.text precision := by
  cases a with
  | real x => exact Binary64.not_mem_text h
  | complex z => exact Complex.not_mem_text h hc

end Scalar

end StoredMatrix
