import Mathlib.Algebra.Ring.Int.Parity
import StoredMatrix.Proofs.GridStructures

/-!
# Bands

A bandwidth is checked against the order of a square grid before any entry is looked at. The wider the
band, the fewer zeros it asks for: the narrowest is the diagonal, and the widest takes in every entry.
-/

namespace StoredMatrix

/-! ## Admissible bandwidths -/

namespace Structure

/-- A bandwidth for grids of an order is odd, positive, and takes in at most every diagonal. -/
structure Admissible (bandwidth : Int) (order : Nat) : Prop where
  odd : Odd bandwidth
  pos : 1 ≤ bandwidth
  le_largest : bandwidth ≤ 2 * order - 1

variable {b : Int} {n : Nat}

theorem not_admissible_iff : ¬Admissible b n ↔ ¬Odd b ∨ b < 1 ∨ b > 2 * n - 1 := by
  have hiff : Admissible b n ↔ Odd b ∧ 1 ≤ b ∧ b ≤ 2 * n - 1 :=
    ⟨fun h => ⟨h.odd, h.pos, h.le_largest⟩, fun ⟨hodd, hpos, hle⟩ => ⟨hodd, hpos, hle⟩⟩
  rw [hiff, not_and_or, not_and_or, Int.not_le, Int.not_le]

theorem admissible_iff (hn : 0 < n) :
    Admissible b n ↔ (decide (1 ≤ b) && decide (b % 2 ≠ 0) && decide (b ≤ largestBandwidth n)) = true := by
  have hlargest : (largestBandwidth n : Int) = 2 * n - 1 := by
    rw [largestBandwidth]
    omega
  simp only [Bool.and_eq_true, decide_eq_true_eq, hlargest]
  constructor
  · intro h
    have hodd := Int.odd_iff.mp h.odd
    exact ⟨⟨h.pos, by omega⟩, h.le_largest⟩
  · rintro ⟨⟨hpos, hodd⟩, hle⟩
    exact ⟨Int.odd_iff.mpr (by omega), hpos, hle⟩

theorem checkOrder_banded (hn : 0 < n) (h : Admissible b n) : (banded b).checkOrder n = .ok () := by
  rw [checkOrder, (admissible_iff hn).mp h]
  rfl

theorem checkOrder_banded_eq_error (hn : 0 < n) (h : ¬Admissible b n) :
    (banded b).checkOrder n = .error (.invalidBandwidth b n (2 * n - 1)) := by
  rw [checkOrder, Bool.eq_false_iff.mpr (mt (admissible_iff hn).mpr h)]
  rfl

theorem Admissible.of_checkOrder (hn : 0 < n) (h : (banded b).checkOrder n = .ok ()) : Admissible b n := by
  rw [admissible_iff hn]
  exact ensure_eq_ok.mp h

theorem excludes_banded_one (row col : Nat) : (banded 1).Excludes row col ↔
    upperTriangular.Excludes row col ∨ lowerTriangular.Excludes row col := by
  simp only [Excludes]
  omega

theorem excludes_banded_three (row col : Nat) :
    (banded 3).Excludes row col ↔ tridiagonal.Excludes row col := by
  simp only [Excludes]
  omega

/-- A wider band excludes fewer positions. -/
theorem excludes_banded_anti {b' : Int} (h : b ≤ b') (row col : Nat) :
    (banded b').Excludes row col → (banded b).Excludes row col := by
  simp only [Excludes]
  omega

end Structure

/-! ## Bands of a grid -/

namespace Grid

open Structure (Admissible)

variable {α : Type} [Entry α] {g : Grid α} {n : Nat} {b : Int}

section Square

variable (hg : g.Fills ⟨n, n⟩)

include hg

omit [Entry α] in
theorem Fills.order_pos : 0 < n := hg.positive.rows_pos

theorem Fills.has_banded_eq_true :
    g.has (.banded b) = .ok true ↔ Admissible b n ∧ g.ZeroWhere (Structure.banded b).Excludes := by
  rw [hg.has_eq_true]
  exact and_congr_left fun _ => ⟨.of_checkOrder hg.order_pos, Structure.checkOrder_banded hg.order_pos⟩

theorem Fills.exists_has_banded (h : Admissible b n) :
    ∃ holds, g.has (.banded b) = .ok holds ∧ (holds = true ↔ g.ZeroWhere (Structure.banded b).Excludes) := by
  have hn := Structure.checkOrder_banded hg.order_pos h
  refine ⟨g.zeroOutside (.banded b), ?_, zeroOutside_iff_zeroWhere hn⟩
  rw [hg.has_eq, hn]
  rfl

theorem Fills.has_banded_eq_error_iff :
    g.has (.banded b) = .error (.invalidBandwidth b n (2 * n - 1)) ↔ ¬Admissible b n := by
  constructor
  · intro he h
    obtain ⟨_, hholds, _⟩ := hg.exists_has_banded h
    cases he.symm.trans hholds
  · intro h
    rw [hg.has_eq, Structure.checkOrder_banded_eq_error hg.order_pos h]
    rfl

theorem Fills.has_banded_mono {b' : Int} (h : g.has (.banded b) = .ok true) (hle : b ≤ b')
    (hodd : Odd b') (hlargest : b' ≤ 2 * n - 1) : g.has (.banded b') = .ok true := by
  obtain ⟨hb, hzero⟩ := hg.has_banded_eq_true.mp h
  exact hg.has_banded_eq_true.mpr
    ⟨⟨hodd, hb.pos.trans hle, hlargest⟩, hzero.mono (Structure.excludes_banded_anti hle)⟩

theorem Fills.has_banded_largest : g.has (.banded (2 * n - 1)) = .ok true := by
  have hn := hg.order_pos
  refine hg.has_banded_eq_true.mpr ⟨⟨⟨n - 1, by omega⟩, by omega, Int.le_refl _⟩, ?_⟩
  -- no two positions of the grid are further apart than its corners
  intro row col a ha hout
  obtain ⟨hr, hc⟩ := hg.lt_of_cell? ha
  simp only [Structure.Excludes] at hout hr hc
  omega

theorem Fills.has_banded_one :
    g.has (.banded 1) = .ok true ↔ g.has .upperTriangular = .ok true ∧ g.has .lowerTriangular = .ok true := by
  have hn := hg.order_pos
  have hadmissible : Admissible 1 n := ⟨odd_one, Int.le_refl 1, by omega⟩
  exact hg.has_and_iff (Structure.checkOrder_banded hn hadmissible) rfl rfl Structure.excludes_banded_one

theorem Fills.has_banded_three (h : 2 ≤ n) : g.has (.banded 3) = g.has .tridiagonal := by
  have hadmissible : Admissible 3 n := ⟨by decide, by decide, by omega⟩
  have hn := Structure.checkOrder_banded hg.order_pos hadmissible
  have hzero : g.zeroOutside (.banded 3) = g.zeroOutside .tridiagonal := by
    rw [Bool.eq_iff_iff, zeroOutside_iff_zeroWhere hn,
      zeroOutside_iff_zeroWhere (Structure.checkOrder_eq_ok (s := .tridiagonal) (fun _ => nofun) n)]
    exact zeroWhere_congr Structure.excludes_banded_three
  rw [hg.has_eq, hg.has_eq, hn, hzero]
  rfl

theorem Fills.has_tridiagonal_one (h : n = 1) : g.has .tridiagonal = .ok true := by
  refine hg.has_eq_true.mpr ⟨rfl, fun row col a ha hout => ?_⟩
  obtain ⟨hr, hc⟩ := hg.lt_of_cell? ha
  simp only [Structure.Excludes] at hout hr hc
  omega

end Square

/-! ## Bandwidths in machine words -/

/--
How many diagonals a bandwidth takes in on each side of the main one, computed in machine words. The
bandwidth is a signed word and the order an unsigned one.
-/
def wordReach (bandwidth : Int64) (order : UInt64) : Except Error UInt64 := do
  let largest := 2 * order - 1
  ensure (!(decide (bandwidth < 1) || decide (bandwidth % 2 = 0) ||
      decide (largest < bandwidth.toUInt64)))
    (.invalidBandwidth bandwidth.toInt order.toNat largest.toNat)
  return ((bandwidth - 1) / 2).toUInt64

/-- Whether a square grid has a band, with the bandwidth checked and halved in machine words. -/
def hasWordBand (bandwidth : Int64) (g : Grid α) : Except Error Bool := do
  let order ← g.squareOrder
  let reach ← wordReach bandwidth (.ofNat order)
  return g.zipIdx.all fun (entries, row) =>
    entries.zipIdx.all fun (a, col) =>
      decide (Structure.diagonalDistance row col ≤ reach.toNat) || Entry.isZero a

section Words

variable {w : Int64} {order : UInt64}

theorem toNat_largest (hn : 0 < order.toNat) (hlt : 2 * order.toNat < wordLimit) :
    (2 * order - 1).toNat = 2 * order.toNat - 1 := by
  have hdouble : (2 * order).toNat = 2 * order.toNat := by
    rw [UInt64.toNat_mul]
    exact Nat.mod_eq_of_lt hlt
  rw [UInt64.toNat_sub_of_le, hdouble]
  · rfl
  · rw [UInt64.le_iff_toNat_le, hdouble]
    change 1 ≤ _
    omega

theorem toNat_toUInt64 (h : 1 ≤ w.toInt) : w.toUInt64.toNat = w.toInt.toNat := by
  have hle : 0 ≤ w := by
    rw [Int64.le_iff_toInt_le]
    change 0 ≤ w.toInt
    omega
  rw [Int64.toNat_toUInt64_of_le hle]
  rfl

theorem toNat_half (h : 1 ≤ w.toInt) : ((w - 1) / 2).toUInt64.toNat = (w.toInt.toNat - 1) / 2 := by
  have hsub : (w - 1).toInt = w.toInt - 1 := by
    refine Int64.toInt_sub_of_le w 1 (by decide) ?_
    rw [Int64.le_iff_toInt_le]
    exact h
  have hhalf : ((w - 1) / 2).toInt = (w.toInt - 1) / 2 := by
    rw [Int64.toInt_div_of_ne_right _ _ (by decide), hsub]
    exact Int.tdiv_eq_ediv_of_nonneg (by omega)
  have hle : 0 ≤ (w - 1) / 2 := by
    rw [Int64.le_iff_toInt_le, hhalf]
    change 0 ≤ (w.toInt - 1) / 2
    omega
  rw [Int64.toNat_toUInt64_of_le hle, Int64.toNatClampNeg, hhalf]
  omega

theorem mod_two_eq_zero_iff : w % 2 = 0 ↔ ¬Odd w.toInt := by
  rw [← Int64.toInt_inj, Int64.toInt_mod, Int.not_odd_iff_even, even_iff_two_dvd]
  exact (Int.dvd_iff_tmod_eq_zero).symm

variable (hn : 0 < order.toNat) (hlt : 2 * order.toNat < wordLimit)

include hn hlt

/-- The unsigned comparison is made only of words that are positive as signed ones. -/
theorem wordCheck_iff :
    (!(decide (w < 1) || decide (w % 2 = 0) || decide (2 * order - 1 < w.toUInt64))) = true ↔
      Admissible w.toInt order.toNat := by
  have hpos : w < 1 ↔ w.toInt < 1 := Int64.lt_iff_toInt_lt
  rw [← not_iff_not, Structure.not_admissible_iff]
  simp only [Bool.not_eq_true', Bool.not_eq_false, Bool.or_eq_true, decide_eq_true_eq, hpos,
    mod_two_eq_zero_iff]
  by_cases h : w.toInt < 1
  · simp only [h, true_or, or_true]
  · have hlargest : 2 * order - 1 < w.toUInt64 ↔ w.toInt > 2 * order.toNat - 1 := by
      rw [UInt64.lt_iff_toNat_lt, toNat_largest hn hlt, toNat_toUInt64 (Int.not_lt.mp h)]
      omega
    simp only [h, false_or, hlargest]

theorem exists_wordReach (h : Admissible w.toInt order.toNat) :
    ∃ reach, wordReach w order = .ok reach ∧ reach.toNat = (w.toInt.toNat - 1) / 2 := by
  refine ⟨((w - 1) / 2).toUInt64, ?_, toNat_half h.pos⟩
  rw [wordReach, (wordCheck_iff hn hlt).mpr h]
  rfl

theorem wordReach_eq_error (h : ¬Admissible w.toInt order.toNat) :
    wordReach w order = .error (.invalidBandwidth w.toInt order.toNat (2 * order.toNat - 1)) := by
  rw [wordReach, Bool.eq_false_iff.mpr (mt (wordCheck_iff hn hlt).mp h), toNat_largest hn hlt]
  rfl

end Words

/-- No bandwidth is taken for another while twice the order is a word. -/
theorem hasWordBand_eq (w : Int64) (hlt : 2 * g.length < wordLimit) :
    g.hasWordBand w = g.has (.banded w.toInt) := by
  cases hsquare : g.squareOrder with
  | error e =>
      rw [hasWordBand, has, hsquare]
      rfl
  | ok n =>
      have hg := squareOrder_eq_ok.mp hsquare
      rw [hg.length_eq] at hlt
      have horder : (UInt64.ofNat n).toNat = n :=
        UInt64.toNat_ofNat_of_lt' (Nat.lt_of_le_of_lt (Nat.le_mul_of_pos_left n Nat.two_pos) hlt)
      have hpos : 0 < (UInt64.ofNat n).toNat := horder.symm ▸ hg.order_pos
      have hdouble : 2 * (UInt64.ofNat n).toNat < wordLimit := horder.symm ▸ hlt
      rw [hasWordBand, hsquare, hg.has_eq]
      change (wordReach w (.ofNat n) >>= _) = _
      by_cases h : Admissible w.toInt n
      · obtain ⟨reach, hword, hreach⟩ := exists_wordReach hpos hdouble (horder.symm ▸ h)
        rw [hword, Structure.checkOrder_banded hg.order_pos h]
        change Except.ok (g.zipIdx.all _) = Except.ok (g.zipIdx.all _)
        rw [hreach]
        rfl
      · rw [wordReach_eq_error hpos hdouble (horder.symm ▸ h), horder,
          Structure.checkOrder_banded_eq_error hg.order_pos h]
        rfl

/--
A bandwidth is refused if it is even, not positive or too large for the order, and only once the grid is
known to be square. Otherwise the band is judged by the zeros outside it. A wider band holds if a
narrower one does, and the widest always does; the narrowest is the diagonal and the next the
tridiagonal structure, which a single entry has although it is too small for the bandwidth.
Transposing a grid keeps its bands.
-/
theorem bands_decided (g : Grid α) :
    (g.isSquare = false → ∃ e, g.RefusedAsNotSquare e ∧ ∀ b : Int, g.has (.banded b) = .error e) ∧
    (∀ w : Int64, 2 * g.length < wordLimit → g.hasWordBand w = g.has (.banded w.toInt)) ∧
    ∀ n, g.Fills ⟨n, n⟩ →
      (∀ b : Int, g.has (.banded b) = .error (.invalidBandwidth b n (2 * n - 1)) ↔
        ¬Odd b ∨ b < 1 ∨ b > 2 * n - 1) ∧
      (∀ b : Int, Odd b → 1 ≤ b → b ≤ 2 * n - 1 →
        ∃ holds, g.has (.banded b) = .ok holds ∧
          (holds = true ↔ g.ZeroWhere fun row col => ((row : Int) - col).natAbs > (b - 1) / 2)) ∧
      (∀ b b' : Int, g.has (.banded b) = .ok true → b ≤ b' → Odd b' → b' ≤ 2 * n - 1 →
        g.has (.banded b') = .ok true) ∧
      g.has (.banded (2 * n - 1)) = .ok true ∧
      (g.has (.banded 1) = .ok true ↔
        g.has .upperTriangular = .ok true ∧ g.has .lowerTriangular = .ok true) ∧
      (2 ≤ n → g.has (.banded 3) = g.has .tridiagonal) ∧
      (n = 1 →
        g.has (.banded 3) = .error (.invalidBandwidth 3 1 1) ∧ g.has .tridiagonal = .ok true) ∧
      (∀ row col, g.transpose.cell? row col = g.cell? col row) ∧
      ∀ b : Int, g.transpose.has (.banded b) = g.has (.banded b) := by
  refine ⟨fun h => ?_, fun w => hasWordBand_eq w, fun n hg => ?_⟩
  · obtain ⟨e, he⟩ := exists_refusedAsNotSquare h
    exact ⟨e, he, fun b => has_eq_error.mpr (.inl he)⟩
  · have hsingle (h : n = 1) : g.has (.banded 3) = .error (.invalidBandwidth 3 1 1) := by
      subst h
      exact hg.has_banded_eq_error_iff.mpr fun h => absurd h.le_largest (by decide)
    exact ⟨fun b => hg.has_banded_eq_error_iff.trans Structure.not_admissible_iff,
      fun b hodd hpos hle => hg.exists_has_banded ⟨hodd, hpos, hle⟩, fun b b' => hg.has_banded_mono,
      hg.has_banded_largest, hg.has_banded_one, hg.has_banded_three,
      fun h => ⟨hsingle h, hg.has_tridiagonal_one h⟩, hg.cell?_transpose,
      fun b => has_transpose (isSquare_iff.mpr ⟨n, hg⟩) (.banded b)⟩

/-- The smallest signed word is even and refused, and a ragged grid is refused before any bandwidth. -/
theorem bands_decided_samples :
    Fills [[(1 : Int), 2, 0], [3, 4, 5], [0, 6, 7]] ⟨3, 3⟩ ∧
    has (.banded 3) [[(1 : Int), 2, 0], [3, 4, 5], [0, 6, 7]] = .ok true ∧
    has (.banded 5) [[(1 : Int), 2, 0], [3, 4, 5], [0, 6, 7]] = .ok true ∧
    has (.banded 7) [[(1 : Int), 2, 0], [3, 4, 5], [0, 6, 7]] = .error (.invalidBandwidth 7 3 5) ∧
    hasWordBand (-9223372036854775808) [[(1 : Int), 2, 0], [3, 4, 5], [0, 6, 7]] =
      .error (.invalidBandwidth (-9223372036854775808) 3 5) ∧
    Fills [[(5 : Int)]] ⟨1, 1⟩ ∧
    has (.banded 3) [[(5 : Int)]] = .error (.invalidBandwidth 3 1 1) ∧
    isSquare [[(1 : Int)], []] = false ∧
    has (.banded 0) [[(1 : Int)], []] = .error (.ragged "matrix" 1 1 0) := by
  have hg : Fills [[(1 : Int), 2, 0], [3, 4, 5], [0, 6, 7]] ⟨3, 3⟩ :=
    squareOrder_eq_ok.mp rfl
  have hsingle : Fills [[(5 : Int)]] ⟨1, 1⟩ := squareOrder_eq_ok.mp rfl
  obtain ⟨_, hwords, hsquare⟩ := bands_decided [[(1 : Int), 2, 0], [3, 4, 5], [0, 6, 7]]
  obtain ⟨hrefused, _, hmono, _, _, hthree, _⟩ := hsquare 3 hg
  obtain ⟨e, hcause, hnone⟩ := (bands_decided [[(1 : Int)], []]).1 rfl
  obtain ⟨_, _, hone⟩ := bands_decided [[(5 : Int)]]
  obtain ⟨_, _, _, _, _, _, hsmall, _⟩ := hone 1 hsingle
  have htridiagonal : has (.banded 3) [[(1 : Int), 2, 0], [3, 4, 5], [0, 6, 7]] = .ok true :=
    (hthree (by decide)).trans (by decide +kernel)
  refine ⟨hg, htridiagonal, hmono 3 5 htridiagonal (by decide) (by decide) (by decide),
    (hrefused 7).mpr (.inr (.inr (by decide))), ?_, hsingle, (hsmall rfl).1, rfl, ?_⟩
  · rw [hwords _ (by decide)]
    exact (hrefused _).mpr (.inl (by decide))
  · cases hcause with
    | sides hdims _ => cases hdims
    | defect hdims =>
        cases hdims
        exact hnone 0

end Grid

end StoredMatrix
