import StoredMatrix.Proofs.Reimport

/-!
# Complex input

Complex entries arrive as numbers, as words that alternate between the two parts, or with the parts
in two lists. Buffers for a sparse matrix are judged alike in all three forms. Of a buffer for a dense
matrix its length alone tells whether the words are real parts only or both parts in turn.
-/

namespace StoredMatrix

/-! ## Refusals -/

theorem exists_eq_error_iff {ε β : Type} {x : Except ε β} : (∃ e, x = .error e) ↔ ∀ b, x ≠ .ok b := by
  cases x with
  | error e => exact iff_of_true ⟨e, rfl⟩ nofun
  | ok b => exact iff_of_false nofun fun h => h b rfl

theorem Dims.exists_checkedCount_eq_error_iff {arg : String} {d : Dims} :
    (∃ e, d.checkedCount arg = .error e) ↔ d.rows = 0 ∨ d.cols = 0 ∨ wordLimit ≤ d.count := by
  simp only [exists_eq_error_iff, ne_eq, checkedCount_eq_ok]
  constructor
  · intro h
    by_contra hne
    exact h d.count ⟨⟨by omega, by omega⟩, by omega, rfl⟩
  · rintro h n ⟨⟨hr, hc⟩, hn, rfl⟩
    omega

/-! ## Buffers for a sparse matrix -/

namespace Sparse

section Buffers

variable {α : Type} [Element α] {colPtrs rowIndices : List Int} {values : List α} {d : Dims}

/-- The dimensions are the first to be checked, and checking them beforehand makes no difference. -/
theorem checkedCount_bind_ofBuffers :
    (d.checkedCount "dims" >>= fun _ => ofBuffers colPtrs rowIndices values d) =
      ofBuffers colPtrs rowIndices values d := by
  cases h : d.checkedCount "dims" with
  | error e =>
      rw [ofBuffers, h]
      rfl
  | ok n => rfl

theorem exists_ofBuffers_eq_error (hl : rowIndices.length ≠ values.length) :
    ∃ e, ofBuffers colPtrs rowIndices values d = .error e := by
  refine exists_eq_error_iff.mpr fun m hm => ?_
  obtain ⟨hwf, _, _, _, hrows, hvalues⟩ := ofBuffers_eq_ok.mp hm
  exact hl (hrows ▸ hvalues ▸ hwf.length_rowIndices)

end Buffers

variable {colPtrs rowIndices : List Int} {d : Dims}

theorem exists_ofInterleaved_eq_error {words : List Binary64} (hl : words.length ≠ 2 * rowIndices.length) :
    ∃ e, ofInterleaved colPtrs rowIndices words d = .error e :=
  exists_eq_error_iff.mpr fun _ hm => hl (ofInterleaved_eq_ok.mp hm).1

theorem exists_ofSplit_eq_error {re im : List Binary64} (hl : im.length ≠ re.length) :
    ∃ e, ofSplit colPtrs rowIndices re im d = .error e :=
  exists_eq_error_iff.mpr fun _ hm => hl (ofSplit_eq_ok.mp hm).1

variable (zs : List Complex)

theorem ofInterleaved_rawWords_eq_ok {m : Sparse Complex} :
    ofInterleaved colPtrs rowIndices (rawWords zs) d = .ok m ↔ ofBuffers colPtrs rowIndices zs d = .ok m := by
  rw [ofInterleaved_eq_ok, ofInterleaved_rawWords, length_rawWords_complex, and_iff_right_iff_imp]
  intro hm
  obtain ⟨hwf, _, _, _, rfl, rfl⟩ := ofBuffers_eq_ok.mp hm
  rw [hwf.length_rowIndices]

theorem ofSplit_map_eq_ok {m : Sparse Complex} :
    ofSplit colPtrs rowIndices (zs.map Complex.re) (zs.map Complex.im) d = .ok m ↔
      ofBuffers colPtrs rowIndices zs d = .ok m := by
  rw [ofSplit_eq_ok, ofParts_map, List.length_map, List.length_map, ← and_assoc, and_iff_right_iff_imp]
  intro hm
  obtain ⟨hwf, _, _, _, rfl, rfl⟩ := ofBuffers_eq_ok.mp hm
  exact ⟨rfl, hwf.length_rowIndices⟩

variable {zs}

/-- With one row for each number nothing is refused that the buffers are not refused for. -/
theorem ofInterleaved_rawWords_eq (hl : rowIndices.length = zs.length) :
    ofInterleaved colPtrs rowIndices (rawWords zs) d = ofBuffers colPtrs rowIndices zs d := by
  have hwords : (rawWords zs).length = 2 * rowIndices.length := by rw [length_rawWords_complex, hl]
  have hpairs : (rawWords zs).length % Element.width Complex = 0 := hwords ▸ Nat.mul_mod_right 2 _
  rw [ofInterleaved, elementsOfWords, decide_eq_true hwords, decide_eq_true hpairs]
  change (d.checkedCount "dims" >>= fun _ =>
    ofBuffers colPtrs rowIndices (Complex.ofInterleaved (rawWords zs)) d) = _
  rw [ofInterleaved_rawWords, checkedCount_bind_ofBuffers]

theorem ofSplit_map_eq (hl : rowIndices.length = zs.length) :
    ofSplit colPtrs rowIndices (zs.map Complex.re) (zs.map Complex.im) d =
      ofBuffers colPtrs rowIndices zs d := by
  rw [ofSplit, ofParts_map, List.length_map, List.length_map, decide_eq_true rfl, decide_eq_true hl]
  exact checkedCount_bind_ofBuffers

/--
Buffers are accepted in one form if they are in another, and make up the same matrix. With as many
rows as numbers they are refused for the same reason, and otherwise in every form.
-/
theorem complex_forms_agree (colPtrs rowIndices : List Int) (zs : List Complex) (d : Dims) :
    (∀ m, ofInterleaved colPtrs rowIndices (rawWords zs) d = .ok m ↔
      ofBuffers colPtrs rowIndices zs d = .ok m) ∧
    (∀ m, ofSplit colPtrs rowIndices (zs.map Complex.re) (zs.map Complex.im) d = .ok m ↔
      ofBuffers colPtrs rowIndices zs d = .ok m) ∧
    (rowIndices.length = zs.length →
      ofInterleaved colPtrs rowIndices (rawWords zs) d = ofBuffers colPtrs rowIndices zs d ∧
      ofSplit colPtrs rowIndices (zs.map Complex.re) (zs.map Complex.im) d =
        ofBuffers colPtrs rowIndices zs d) ∧
    (rowIndices.length ≠ zs.length →
      (∃ e, ofBuffers colPtrs rowIndices zs d = .error e) ∧
      (∃ e, ofInterleaved colPtrs rowIndices (rawWords zs) d = .error e) ∧
      ∃ e, ofSplit colPtrs rowIndices (zs.map Complex.re) (zs.map Complex.im) d = .error e) ∧
    (∀ words, words.length ≠ 2 * rowIndices.length →
      ∃ e, ofInterleaved colPtrs rowIndices words d = .error e) ∧
    ∀ re im, im.length ≠ re.length → ∃ e, ofSplit colPtrs rowIndices re im d = .error e := by
  refine ⟨fun _ => ofInterleaved_rawWords_eq_ok zs, fun _ => ofSplit_map_eq_ok zs,
    fun hl => ⟨ofInterleaved_rawWords_eq hl, ofSplit_map_eq hl⟩, fun hl => ?_,
    fun _ => exists_ofInterleaved_eq_error, fun _ _ => exists_ofSplit_eq_error⟩
  have hbuffers : ∃ e, ofBuffers colPtrs rowIndices zs d = .error e := exists_ofBuffers_eq_error hl
  refine ⟨hbuffers, ?_, ?_⟩
  · simpa only [exists_eq_error_iff, ne_eq, ofInterleaved_rawWords_eq_ok] using hbuffers
  · simpa only [exists_eq_error_iff, ne_eq, ofSplit_map_eq_ok] using hbuffers

/-- A pointer below the one before it is refused alike; a value too many is refused everywhere. -/
theorem complex_forms_agree_samples :
    [(1 : Int), 0].length = [Complex.i, .one].length ∧
    ofBuffers [0, 2, 1] [1, 0] [Complex.i, .one] ⟨2, 2⟩ = .error (.nonAscending "col_ptrs" 2 1) ∧
    ofInterleaved [0, 2, 1] [1, 0] [.zero, .one, .one, .zero] ⟨2, 2⟩ =
      .error (.nonAscending "col_ptrs" 2 1) ∧
    ofSplit [0, 2, 1] [1, 0] [.zero, .one] [.one, .zero] ⟨2, 2⟩ =
      .error (.nonAscending "col_ptrs" 2 1) ∧
    (∃ m, ofBuffers [0, 1, 2] [1, 0] [Complex.i, .one] ⟨2, 2⟩ = .ok m ∧
      ofSplit [0, 1, 2] [1, 0] [.zero, .one] [.one, .zero] ⟨2, 2⟩ = .ok m) ∧
    [(1 : Int)].length ≠ [Complex.i, .one].length ∧
    (∃ e, ofInterleaved [0, 2, 1] [1] [.zero, .one, .one, .zero] ⟨2, 2⟩ = .error e) ∧
    [Binary64.zero, .one, .one].length ≠ 2 * [(1 : Int), 0].length ∧
    ∃ e, ofInterleaved [0, 1, 2] [1, 0] [.zero, .one, .one] ⟨2, 2⟩ = .error e := by
  have hdescent : ofBuffers [0, 2, 1] [1, 0] [Complex.i, .one] ⟨2, 2⟩ =
      .error (.nonAscending "col_ptrs" 2 1) := by decide +kernel
  have hbuild : ofBuffers [0, 1, 2] [1, 0] [Complex.i, .one] ⟨2, 2⟩ =
      .ok ⟨⟨2, 2⟩, [0, 1, 2], [1, 0], [.i, .one], 1⟩ := by decide +kernel
  obtain ⟨_, _, hequal, _⟩ := complex_forms_agree [0, 2, 1] [1, 0] [.i, .one] ⟨2, 2⟩
  obtain ⟨_, hsplit, _, _, hwords, _⟩ := complex_forms_agree [0, 1, 2] [1, 0] [.i, .one] ⟨2, 2⟩
  obtain ⟨_, _, _, hunequal, _⟩ := complex_forms_agree [0, 2, 1] [1] [.i, .one] ⟨2, 2⟩
  refine ⟨rfl, hdescent, (hequal rfl).1.trans hdescent, (hequal rfl).2.trans hdescent,
    ⟨_, hbuild, (hsplit _).mpr hbuild⟩, by decide, (hunequal (by decide)).2.1, by decide, ?_⟩
  exact hwords [.zero, .one, .one] (by decide)

end Sparse

/-! ## Buffers for a dense matrix -/

theorem ofParts_evenWords_oddWords (words : List Binary64) :
    Complex.ofParts (evenWords words) (oddWords words) = Complex.ofInterleaved words := by
  induction words using Complex.ofInterleaved.induct with
  | case1 re im rest ih => exact congrArg (Complex.mk re im :: ·) ih
  | case2 words h =>
      cases words with
      | nil => rfl
      | cons w words =>
          cases words with
          | nil => rfl
          | cons w' words => exact absurd rfl (h w w' words)

theorem length_evenWords_oddWords {β : Type} {xs : List β} {n : Nat} (hl : xs.length = 2 * n) :
    (evenWords xs).length = n ∧ (oddWords xs).length = n := by
  induction n generalizing xs with
  | zero =>
      obtain rfl := List.length_eq_zero_iff.mp hl
      exact ⟨rfl, rfl⟩
  | succ n ih =>
      match xs, hl with
      | x :: y :: xs, hl =>
          have hrest : xs.length = 2 * n := by simpa [Nat.mul_succ] using hl
          obtain ⟨heven, hodd⟩ := ih hrest
          exact ⟨congrArg Nat.succ heven, congrArg Nat.succ hodd⟩

/-- The product of two sizes, unless it is too large for one. -/
def sizeProduct? (a b : Nat) : Option Nat := if a * b < wordLimit then some (a * b) else none

namespace Dense

/--
The complex matrix stored in a buffer of words, all sizes being machine words: twice the number of
positions is compared with the length only where it is a size.
-/
def ofInterleavedSizes (words : List Binary64) (d : Dims) : Except Error (Dense Complex) := do
  let count ← d.checkedCount "data"
  let pairs := sizeProduct? count 2
  if words.length = count then
    return ⟨d, promoteAll words⟩
  else if some words.length = pairs then
    let data ← elementsOfWords "data" words
    return ⟨d, data⟩
  else
    .error (.lengthMismatch "data" (pairs.getD (wordLimit - 1)) words.length)

variable {words : List Binary64} {d : Dims}

theorem ofInterleaved_eq_sizes (hw : words.length < wordLimit) :
    ofInterleaved words d = ofInterleavedSizes words d := by
  rw [ofInterleaved, ofInterleavedSizes]
  refine bind_congr fun count => if_congr Iff.rfl rfl ?_
  by_cases hpairs : count * 2 < wordLimit
  · rw [sizeProduct?, if_pos hpairs]
    by_cases hl : words.length = 2 * count
    · rw [decide_eq_true hl, if_pos (congrArg some (hl.trans (Nat.mul_comm _ _)))]
      rfl
    · rw [decide_eq_false hl, if_neg, Option.getD_some, cappedSize, Nat.min_eq_left (by omega), Nat.mul_comm]
      · rfl
      · intro h
        have := Option.some.inj h
        omega
  · -- the length is a size, so it cannot be twice the number of positions
    rw [sizeProduct?, if_neg hpairs, decide_eq_false (by omega), if_neg (Option.some_ne_none _),
      Option.getD_none, cappedSize, Nat.min_eq_right (by omega)]
    rfl

theorem exists_ofInterleaved_eq_error (h : d.rows = 0 ∨ d.cols = 0 ∨ wordLimit ≤ d.count) :
    ∃ e, d.checkedCount "data" = .error e ∧ ofInterleaved words d = .error e := by
  obtain ⟨e, he⟩ := Dims.exists_checkedCount_eq_error_iff.mpr h
  refine ⟨e, he, ?_⟩
  rw [ofInterleaved, he]
  rfl

variable (hp : d.Positive) (hn : d.count < wordLimit)

include hp hn

theorem exists_ofInterleaved_real (hl : words.length = d.count) :
    ∃ m, ofInterleaved words d = .ok m ∧ ofColumnMajor (words.map Complex.ofReal) d = .ok m := by
  refine ⟨_, ofInterleaved_eq_ok.mpr ⟨hp, hn, .inl ⟨hl, rfl⟩⟩, ?_⟩
  exact ofColumnMajor_eq_ok.mpr ⟨hp, hn, by rw [List.length_map, hl], rfl⟩

theorem exists_ofInterleaved_pairs (hl : words.length = 2 * d.count) :
    ∃ m, ofInterleaved words d = .ok m ∧ ofSplit (evenWords words) (oddWords words) d = .ok m ∧
      ofColumnMajor (Complex.ofParts (evenWords words) (oddWords words)) d = .ok m := by
  obtain ⟨heven, hodd⟩ := length_evenWords_oddWords hl
  refine ⟨_, ofInterleaved_eq_ok.mpr ⟨hp, hn, .inr ⟨hl, rfl⟩⟩, ?_, ?_⟩
  · exact ofSplit_eq_ok.mpr ⟨hp, hn, heven, hodd, by rw [ofParts_evenWords_oddWords]⟩
  · refine ofColumnMajor_eq_ok.mpr ⟨hp, hn, ?_, by rw [ofParts_evenWords_oddWords]⟩
    rw [Complex.ofParts, List.length_zipWith, heven, hodd, Nat.min_self]

theorem ofInterleaved_eq_lengthMismatch (hl : words.length ≠ d.count) (hl' : words.length ≠ 2 * d.count) :
    ofInterleaved words d =
      .error (.lengthMismatch "data" (min (2 * d.count) (wordLimit - 1)) words.length) := by
  rw [ofInterleaved, Dims.checkedCount_eq_ok.mpr ⟨hp, hn, rfl⟩]
  change (if words.length = d.count then _ else _) = _
  rw [if_neg hl, decide_eq_false hl']
  rfl

omit hn in
theorem count_ne_two_mul_count : d.count ≠ 2 * d.count := by
  have hpos : 0 < d.count := Nat.mul_pos hp.rows_pos hp.cols_pos
  omega

omit hp hn

/--
A buffer with one word for each position holds real parts, one with two holds pairs, and no buffer is
both. Every other length is refused, and computing with sizes never takes one length for another.
-/
theorem interleaved_reading_decided (words : List Binary64) (d : Dims) :
    (d.rows = 0 ∨ d.cols = 0 ∨ wordLimit ≤ d.count →
      ∃ e, d.checkedCount "data" = .error e ∧ ofInterleaved words d = .error e) ∧
    (d.Positive → d.count < wordLimit →
      (words.length = d.count →
        ∃ m, ofInterleaved words d = .ok m ∧ ofColumnMajor (words.map Complex.ofReal) d = .ok m) ∧
      (words.length = 2 * d.count →
        ∃ m, ofInterleaved words d = .ok m ∧ ofSplit (evenWords words) (oddWords words) d = .ok m ∧
          ofColumnMajor (Complex.ofParts (evenWords words) (oddWords words)) d = .ok m) ∧
      (words.length ≠ d.count → words.length ≠ 2 * d.count →
        ofInterleaved words d =
          .error (.lengthMismatch "data" (min (2 * d.count) (wordLimit - 1)) words.length)) ∧
      ¬(words.length = d.count ∧ words.length = 2 * d.count)) ∧
    (∀ size, sizeProduct? d.count 2 = some size → size = 2 * d.count) ∧
    (words.length < wordLimit → ofInterleaved words d = ofInterleavedSizes words d) := by
  refine ⟨exists_ofInterleaved_eq_error, fun hp hn => ⟨exists_ofInterleaved_real hp hn,
    exists_ofInterleaved_pairs hp hn, ofInterleaved_eq_lengthMismatch hp hn, ?_⟩, ?_, ofInterleaved_eq_sizes⟩
  · rintro ⟨hl, hl'⟩
    exact count_ne_two_mul_count hp (hl.symm.trans hl')
  · intro size hsize
    rw [sizeProduct?, Option.ite_none_right_eq_some] at hsize
    rw [← Option.some.inj hsize.2, Nat.mul_comm]

/-- For `2 ^ 63` positions the double wraps to zero, which would take an empty buffer for pairs. -/
theorem interleaved_reading_decided_samples :
    ofInterleaved [.one, .nan] ⟨2, 1⟩ = .ok ⟨⟨2, 1⟩, [⟨.one, .zero⟩, ⟨.nan, .zero⟩]⟩ ∧
    ofSplit [.one, .zero] [.nan, .one] ⟨2, 1⟩ = ofInterleaved [.one, .nan, .zero, .one] ⟨2, 1⟩ ∧
    ofInterleaved [.one, .nan, .zero] ⟨2, 1⟩ = .error (.lengthMismatch "data" 4 3) ∧
    Dims.Positive ⟨0x8000000000000000, 1⟩ ∧ Dims.count ⟨0x8000000000000000, 1⟩ < wordLimit ∧
    ofInterleaved [] ⟨0x8000000000000000, 1⟩ = .error (.lengthMismatch "data" 0xffffffffffffffff 0) ∧
    ofInterleavedSizes [] ⟨0x8000000000000000, 1⟩ =
      .error (.lengthMismatch "data" 0xffffffffffffffff 0) ∧
    ∃ e, Dims.checkedCount "data" ⟨2, 0⟩ = .error e ∧ ofInterleaved [.one] ⟨2, 0⟩ = .error e := by
  have hp : Dims.Positive ⟨2, 1⟩ := ⟨by decide, by decide⟩
  have hp' : Dims.Positive ⟨0x8000000000000000, 1⟩ := ⟨by decide, by decide⟩
  have hn' : Dims.count ⟨0x8000000000000000, 1⟩ < wordLimit := by decide
  obtain ⟨_, hreal, _⟩ := interleaved_reading_decided [.one, .nan] ⟨2, 1⟩
  obtain ⟨m, hm, hcolumns⟩ := (hreal hp (by decide)).1 rfl
  obtain ⟨_, hpairs, _⟩ := interleaved_reading_decided [.one, .nan, .zero, .one] ⟨2, 1⟩
  obtain ⟨n, hn, hsplit, _⟩ := (hpairs hp (by decide)).2.1 rfl
  obtain ⟨_, hodd, _⟩ := interleaved_reading_decided [.one, .nan, .zero] ⟨2, 1⟩
  obtain ⟨_, hempty, _, hsizes⟩ := interleaved_reading_decided [] ⟨0x8000000000000000, 1⟩
  obtain ⟨hdims, _⟩ := interleaved_reading_decided [.one] ⟨2, 0⟩
  have hmismatch := (hempty hp' hn').2.2.1 (by decide) (by decide)
  exact ⟨hm.trans (hcolumns.symm.trans (by decide +kernel)), hsplit.trans hn.symm,
    (hodd hp (by decide)).2.2.1 (by decide) (by decide), hp', hn', hmismatch,
    (hsizes (by decide)).symm.trans hmismatch, hdims (.inr (.inl rfl))⟩

end Dense

end StoredMatrix
