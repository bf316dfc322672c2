import StoredMatrix.Proofs.SignedZero

/-!
# Order under rounding

Rounding never reverses an order. Where two counts are rounded at one exponent their significands
keep the order. Where the exponents differ, a carry of the smaller count reaches at most the place
at which the larger exponent starts.
-/

namespace StoredMatrix

/-! ## Nearest quotients -/

theorem mod_le_mod_of_div_eq {a b n : Nat} (h : a ≤ b) (hdiv : a / n = b / n) : a % n ≤ b % n := by
  have ha := Nat.div_add_mod a n
  have hb := Nat.div_add_mod b n
  rw [hdiv] at ha
  omega

theorem div_le_roundDiv (num den : Nat) : num / den ≤ roundDiv num den := by
  simp only [roundDiv]
  split
  · exact Nat.le_refl _
  · split
    · exact Nat.le_succ _
    · exact Nat.le_add_right _ _

theorem roundDiv_le_div_succ (num den : Nat) : roundDiv num den ≤ num / den + 1 := by
  simp only [roundDiv]
  split
  · exact Nat.le_succ _
  · split
    · exact Nat.le_refl _
    · omega

theorem roundDiv_mono {num num' : Nat} (h : num ≤ num') (den : Nat) :
    roundDiv num den ≤ roundDiv num' den := by
  rcases Nat.lt_or_eq_of_le (Nat.div_le_div_right (c := den) h) with hlt | heq
  · calc
      roundDiv num den ≤ num / den + 1 := roundDiv_le_div_succ num den
      _ ≤ num' / den := hlt
      _ ≤ roundDiv num' den := div_le_roundDiv num' den
  · have hmod := mod_le_mod_of_div_eq h heq
    grind [roundDiv]

namespace Binary64

/-! ## Rounded counts of units -/

theorem excessBits_mono {count count' : Nat} (h : count ≤ count') : excessBits count ≤ excessBits count' := by
  refine Nat.sub_le_sub_right ?_ 52
  rcases Nat.eq_zero_or_pos count with rfl | hpos
  · exact Nat.zero_le _
  · rw [Nat.le_log2 (by omega)]
    exact Nat.le_trans (Nat.log2_self_le (by omega)) h

/-- A significand has 53 bits, or one more bit after a carry and then no other. -/
theorem significand_le (num den : Nat) :
    roundDiv num (den <<< excessBits (num / den)) ≤ 2 * exponentWeight := by
  have hbits : (num / den).log2 + 1 ≤ 53 + excessBits (num / den) := by
    unfold excessBits
    omega
  have hlt : num / den < 2 ^ 53 * 2 ^ excessBits (num / den) := by
    rw [← Nat.pow_add]
    exact Nat.lt_of_lt_of_le Nat.lt_log2_self (Nat.pow_le_pow_right (by decide) hbits)
  refine Nat.le_trans (roundDiv_le_div_succ _ _) ?_
  rw [Nat.shiftLeft_eq, ← Nat.div_div_eq_div_mul]
  exact (Nat.div_lt_iff_lt_mul (Nat.two_pow_pos _)).mpr hlt

/-- Where bits are dropped, the leading one stays. -/
theorem le_significand {num den : Nat} (h : 0 < excessBits (num / den)) :
    exponentWeight ≤ roundDiv num (den <<< excessBits (num / den)) := by
  have hbits : (num / den).log2 = 52 + excessBits (num / den) := by
    unfold excessBits at h ⊢
    omega
  have hpos : num / den ≠ 0 := fun hzero => by
    rw [hzero] at h
    exact absurd h (by decide)
  have hle : 2 ^ 52 * 2 ^ excessBits (num / den) ≤ num / den := by
    rw [← Nat.pow_add, ← hbits]
    exact Nat.log2_self_le hpos
  refine Nat.le_trans ?_ (div_le_roundDiv _ _)
  rw [Nat.shiftLeft_eq, ← Nat.div_div_eq_div_mul]
  exact (Nat.le_div_iff_mul_le (Nat.two_pow_pos _)).mpr hle

theorem roundQuotient_mono {num num' : Nat} (h : num ≤ num') (den : Nat) :
    roundQuotient num den ≤ roundQuotient num' den := by
  refine Nat.le_min.mpr ⟨Nat.le_trans (Nat.min_le_left _ _) ?_, Nat.min_le_right _ _⟩
  rcases Nat.lt_or_eq_of_le (excessBits_mono (Nat.div_le_div_right (c := den) h)) with hlt | heq
  · have hupper := significand_le num den
    have hlower := le_significand (Nat.zero_lt_of_lt hlt)
    have hcarry := Nat.mul_le_mul_right exponentWeight hlt
    rw [Nat.succ_mul] at hcarry
    omega
  · rw [heq]
    exact Nat.add_le_add_left (roundDiv_mono h _) _

/-! ## Units of a magnitude -/

theorem unitsOf_lt (magnitude : Nat) :
    unitsOf magnitude < exponentWeight <<< (magnitude / exponentWeight) := by
  have hfraction : magnitude % exponentWeight < exponentWeight := Nat.mod_lt _ (by decide)
  simp only [unitsOf, Nat.shiftLeft_eq]
  split
  · rename_i hexponent
    rw [hexponent]
    omega
  · rename_i hexponent
    obtain ⟨exponent, hsucc⟩ := Nat.exists_eq_succ_of_ne_zero hexponent
    rw [hsucc, Nat.succ_sub_one, Nat.pow_succ, Nat.mul_comm _ 2, ← Nat.mul_assoc]
    exact Nat.mul_lt_mul_of_pos_right (by omega) (Nat.two_pow_pos _)

theorem le_unitsOf {magnitude exponent : Nat} (h : exponent < magnitude / exponentWeight) :
    exponentWeight <<< exponent ≤ unitsOf magnitude := by
  simp only [unitsOf, Nat.shiftLeft_eq]
  rw [if_neg (by omega)]
  exact Nat.mul_le_mul (Nat.le_add_right _ _) (Nat.pow_le_pow_right (by decide) (by omega))

theorem unitsOf_lt_unitsOf {a b : Nat} (h : a < b) : unitsOf a < unitsOf b := by
  rcases Nat.lt_or_eq_of_le (Nat.div_le_div_right (c := exponentWeight) (Nat.le_of_lt h)) with hlt | heq
  · exact Nat.lt_of_lt_of_le (unitsOf_lt a) (le_unitsOf hlt)
  · have hfraction : a % exponentWeight < b % exponentWeight := by
      have ha := Nat.div_add_mod a exponentWeight
      have hb := Nat.div_add_mod b exponentWeight
      rw [heq] at ha
      omega
    simp only [unitsOf, heq, Nat.shiftLeft_eq]
    split
    · exact hfraction
    · exact Nat.mul_lt_mul_of_pos_right (Nat.add_lt_add_left hfraction _) (Nat.two_pow_pos _)

theorem unitsOf_mono {a b : Nat} (h : a ≤ b) : unitsOf a ≤ unitsOf b := by
  rcases Nat.lt_or_eq_of_le h with hlt | rfl
  · exact Nat.le_of_lt (unitsOf_lt_unitsOf hlt)
  · exact Nat.le_refl _

/-- Different magnitudes stand for different numbers. -/
theorem unitsOf_inj {a b : Nat} : unitsOf a = unitsOf b ↔ a = b := by
  refine ⟨fun h => ?_, congrArg unitsOf⟩
  rcases Nat.lt_trichotomy a b with hlt | heq | hgt
  · exact absurd h (Nat.ne_of_lt (unitsOf_lt_unitsOf hlt))
  · exact heq
  · exact absurd h.symm (Nat.ne_of_lt (unitsOf_lt_unitsOf hgt))

theorem unitsOf_eq_zero {magnitude : Nat} : unitsOf magnitude = 0 ↔ magnitude = 0 :=
  unitsOf_inj (b := 0)

/-! ## Signs and places in the order -/

section Signs

variable {x y z : Binary64}

theorem magnitude_lt (x : Binary64) : x.magnitude < signWeight := Nat.mod_lt _ (by decide)

theorem ofSignMagnitude_self (x : Binary64) : ofSignMagnitude x.isNegative x.magnitude = x := by
  have hbits : (if x.isNegative then signWeight else 0) + x.magnitude = x.bits.toNat := by
    have hlt : x.bits.toNat < 2 ^ 64 := x.bits.toNat_lt
    cases hsign : x.isNegative with
    | false =>
        have hsign := of_decide_eq_false hsign
        simp only [magnitude, signWeight, Bool.false_eq_true, if_false] at hsign ⊢
        omega
    | true =>
        have hsign := of_decide_eq_true hsign
        simp only [magnitude, signWeight, if_true] at hsign ⊢
        omega
  rw [ofSignMagnitude, hbits, UInt64.ofNat_toNat]

/-- A number is its sign and its magnitude. -/
theorem eq_iff_sign_magnitude : x = y ↔ x.isNegative = y.isNegative ∧ x.magnitude = y.magnitude := by
  constructor
  · rintro rfl
    exact ⟨rfl, rfl⟩
  · rintro ⟨hsign, hmagnitude⟩
    rw [← ofSignMagnitude_self x, ← ofSignMagnitude_self y, hsign, hmagnitude]

/-- What a sign makes of a magnitude. -/
def signed (negative : Bool) (magnitude : Nat) : Int :=
  if negative then -(magnitude : Int) else magnitude

@[simp] theorem signed_false (magnitude : Nat) : signed false magnitude = magnitude := rfl

@[simp] theorem signed_true (magnitude : Nat) : signed true magnitude = -(magnitude : Int) := rfl

/-- Signs are told apart of every magnitude but zero. -/
theorem signed_eq_signed {s t : Bool} {a b : Nat} :
    signed s a = signed t b ↔ a = b ∧ (s = t ∨ a = 0) := by
  cases s <;> cases t <;> simp only [signed_false, signed_true, true_or, and_true, reduceCtorEq,
    false_or] <;> omega

theorem signed_map_le {f : Nat → Nat} {limit a b : Nat} {s t : Bool}
    (hf : ∀ {a b}, a ≤ b → b ≤ limit → f a ≤ f b) (hzero : f 0 = 0) (ha : a ≤ limit) (hb : b ≤ limit)
    (h : signed s a ≤ signed t b) : signed s (f a) ≤ signed t (f b) := by
  cases s with
  | false =>
      cases t with
      | false => exact Int.ofNat_le.mpr (hf (Int.ofNat_le.mp h) hb)
      | true =>
          -- a magnitude is below the negative of one only where both are zero
          rw [signed_false, signed_true] at h
          obtain rfl : a = 0 := by omega
          obtain rfl : b = 0 := by omega
          rw [hzero]
          decide
  | true =>
      rw [signed_true] at h ⊢
      cases t with
      | false =>
          rw [signed_false]
          omega
      | true =>
          rw [signed_true] at h ⊢
          exact Int.neg_le_neg (Int.ofNat_le.mpr (hf (by omega) ha))

theorem rank_eq_signed (x : Binary64) : x.rank = signed x.isNegative x.magnitude := rfl

theorem rank_ofSignMagnitude (negative : Bool) {magnitude : Nat} (h : magnitude < signWeight) :
    (ofSignMagnitude negative magnitude).rank = signed negative magnitude := by
  rw [rank_eq_signed, isNegative_ofSignMagnitude negative h, magnitude_ofSignMagnitude negative h]

theorem isNaN_eq_false : x.isNaN = false ↔ x.magnitude ≤ infiniteMagnitude := by
  rw [isNaN, decide_eq_false_iff_not, Nat.not_lt]

theorem rank_pos_iff : 0 < x.rank ↔ x.isNegative = false ∧ x.isZero = false := by
  rw [rank_eq_signed, isZero, decide_eq_false_iff_not]
  cases x.isNegative with
  | false =>
      simp only [signed_false, true_and]
      omega
  | true =>
      simp only [signed_true, Bool.true_eq_false, false_and, iff_false]
      omega

theorem numEq_iff : x.numEq y = true ↔ x.isNaN = false ∧ y.isNaN = false ∧ x.rank = y.rank := by
  simp [numEq, and_assoc]

theorem numEq_symm (h : x.numEq y = true) : y.numEq x = true := by
  obtain ⟨hx, hy, hrank⟩ := numEq_iff.mp h
  exact numEq_iff.mpr ⟨hy, hx, hrank.symm⟩

theorem numLe_iff :
    x.numLe y = true ↔ x.isNaN = false ∧ y.isNaN = false ∧ x.rank ≤ y.rank := by
  simp [numLe, and_assoc]

theorem numLe_trans (hxy : x.numLe y = true) (hyz : y.numLe z = true) : x.numLe z = true := by
  obtain ⟨hx, _, hle⟩ := numLe_iff.mp hxy
  obtain ⟨_, hz, hle'⟩ := numLe_iff.mp hyz
  exact numLe_iff.mpr ⟨hx, hz, Int.le_trans hle hle'⟩

end Signs

/-! ## Products -/

/-- The number is neither infinite nor NaN. -/
def IsFinite (x : Binary64) : Prop := x.magnitude < infiniteMagnitude

section Products

variable {x y m : Binary64}

theorem IsFinite.isNaN (h : x.IsFinite) : x.isNaN = false := decide_eq_false (Nat.not_lt_of_lt h)

theorem IsFinite.isInfinite (h : x.IsFinite) : x.isInfinite = false := decide_eq_false (Nat.ne_of_lt h)

theorem isFinite_of_classes (hnan : x.isNaN = false) (hinf : x.isInfinite = false) : x.IsFinite :=
  Nat.lt_of_le_of_ne (isNaN_eq_false.mp hnan) (of_decide_eq_false hinf)

/-- The magnitude of a product whose second factor is neither zero nor infinite. -/
def productMagnitude (a b : Nat) : Nat :=
  if a = infiniteMagnitude then infiniteMagnitude
  else roundQuotient (unitsOf a * unitsOf b) unitsPerOne

theorem productMagnitude_le (a b : Nat) : productMagnitude a b ≤ infiniteMagnitude := by
  unfold productMagnitude
  split
  · exact Nat.le_refl _
  · exact Nat.min_le_right _ _

theorem productMagnitude_zero (b : Nat) : productMagnitude 0 b = 0 := by
  rw [productMagnitude, if_neg (by decide), unitsOf, Nat.zero_div, Nat.zero_mod, if_pos rfl, Nat.zero_mul]
  decide +kernel

theorem productMagnitude_mono {a a' : Nat} (h : a ≤ a') (ha' : a' ≤ infiniteMagnitude) (b : Nat) :
    productMagnitude a b ≤ productMagnitude a' b := by
  by_cases hinf : a' = infiniteMagnitude
  · rw [hinf, productMagnitude.eq_def infiniteMagnitude, if_pos rfl]
    exact productMagnitude_le a b
  · rw [productMagnitude, productMagnitude, if_neg hinf, if_neg (by omega)]
    exact roundQuotient_mono (Nat.mul_le_mul_right _ (unitsOf_mono h)) _

theorem mul_eq_ofSignMagnitude (hx : x.isNaN = false) (hm : m.IsFinite) (hpos : 0 < m.rank) :
    x.mul m = ofSignMagnitude x.isNegative (productMagnitude x.magnitude m.magnitude) := by
  obtain ⟨hsign, hzero⟩ := rank_pos_iff.mp hpos
  simp only [mul, hsign, hzero, hx, hm.isNaN, hm.isInfinite, Bool.bne_false, Bool.or_false,
    Bool.false_eq_true, if_false, productMagnitude]
  cases hinf : x.isInfinite with
  | false =>
      rw [if_neg Bool.false_ne_true, if_neg (of_decide_eq_false hinf)]
  | true =>
      have hmagnitude : x.magnitude = infiniteMagnitude := of_decide_eq_true hinf
      rw [if_pos rfl, if_pos hmagnitude, isZero, hmagnitude]
      rfl

/-- Multiplying by a positive finite number never reverses the order. -/
theorem mul_numLe_mul (h : x.numLe y = true) (hm : m.IsFinite) (hpos : 0 < m.rank) :
    (x.mul m).numLe (y.mul m) = true := by
  obtain ⟨hx, hy, hle⟩ := numLe_iff.mp h
  have hbound : ∀ a, productMagnitude a m.magnitude < signWeight := fun a =>
    Nat.lt_of_le_of_lt (productMagnitude_le a _) (by decide)
  rw [mul_eq_ofSignMagnitude hx hm hpos, mul_eq_ofSignMagnitude hy hm hpos, numLe_iff,
    isNaN_eq_false, isNaN_eq_false, magnitude_ofSignMagnitude _ (hbound _),
    magnitude_ofSignMagnitude _ (hbound _), rank_ofSignMagnitude _ (hbound _),
    rank_ofSignMagnitude _ (hbound _)]
  refine ⟨productMagnitude_le _ _, productMagnitude_le _ _, ?_⟩
  exact signed_map_le (fun hab hb => productMagnitude_mono hab hb _) (productMagnitude_zero _)
    (isNaN_eq_false.mp hx) (isNaN_eq_false.mp hy) hle

end Products

end Binary64

end StoredMatrix
