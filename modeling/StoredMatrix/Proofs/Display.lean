import StoredMatrix.Proofs.ColumnOrder
import StoredMatrix.Proofs.NumberText

/-!
# Display

The text of a matrix is cut into rows at its line breaks and a row into numbers at its commas, so the
text tells the dimensions and the entries. Shapes are told by nothing in it, and a width that is asked
for is passed on to no number.
-/

namespace StoredMatrix

/-! ## Separated lists -/

section Separators

variable {β : Type} {x : β} {sep : List β} {ls ls' : List (List β)}

theorem mem_intercalate (h : x ∈ sep.intercalate ls) : x ∈ sep ∨ ∃ l ∈ ls, x ∈ l := by
  induction ls with
  | nil => cases h
  | cons l ls ih =>
      cases ls with
      | nil => exact .inr ⟨l, List.mem_cons_self, by simpa using h⟩
      | cons l' ls =>
          rw [List.intercalate_cons_cons, List.mem_append, List.mem_append] at h
          rcases h with (h | h) | h
          · exact .inr ⟨l, List.mem_cons_self, h⟩
          · exact .inl h
          · exact (ih h).imp_right fun ⟨k, hk, hx⟩ => ⟨k, List.mem_cons_of_mem l hk, hx⟩

theorem mem_intercalate_cons_cons {k l : List β} : x ∈ (x :: sep).intercalate (k :: l :: ls) := by
  simp [List.intercalate_cons_cons]

/-- A separated list is read back if the separator starts with what is in no member. -/
theorem intercalate_inj (hne : ls ≠ []) (hne' : ls' ≠ []) (h : ∀ l ∈ ls, x ∉ l) (h' : ∀ l ∈ ls', x ∉ l) :
    (x :: sep).intercalate ls = (x :: sep).intercalate ls' ↔ ls = ls' := by
  refine ⟨fun heq => ?_, congrArg _⟩
  induction ls generalizing ls' with
  | nil => exact absurd rfl hne
  | cons l ls ih =>
      cases ls' with
      | nil => exact absurd rfl hne'
      | cons l' ls' =>
          have hl := h l List.mem_cons_self
          have hl' := h' l' List.mem_cons_self
          cases ls with
          | nil =>
              cases ls' with
              | nil => simpa using heq
              | cons k' ls' =>
                  rw [List.intercalate_singleton] at heq
                  exact absurd (heq ▸ mem_intercalate_cons_cons) hl
          | cons k ls =>
              cases ls' with
              | nil =>
                  rw [List.intercalate_singleton] at heq
                  exact absurd (heq ▸ mem_intercalate_cons_cons) hl'
              | cons k' ls' =>
                  rw [List.intercalate_cons_cons, List.intercalate_cons_cons, List.append_assoc, List.append_assoc,
                    List.cons_append, List.cons_append, append_cons_inj hl hl'] at heq
                  obtain ⟨rfl, hrest⟩ := heq
                  rw [ih (List.cons_ne_nil k ls) (List.cons_ne_nil k' ls')
                    (fun m hm => h m (List.mem_cons_of_mem _ hm)) (fun m hm => h' m (List.mem_cons_of_mem _ hm))
                    (List.append_cancel_left hrest)]

end Separators

/-! ## Tables -/

/-- The rows of what stands at all positions. -/
def table {β : Type} (d : Dims) (f : Nat → Nat → β) : List (List β) :=
  (List.range d.rows).map fun row => (List.range d.cols).map (f row)

theorem table_inj {β : Type} {d e : Dims} {f g : Nat → Nat → β} (hp : d.Positive) :
    table d f = table e g ↔ d = e ∧ ∀ row < d.rows, ∀ col < d.cols, f row col = g row col := by
  constructor
  · intro h
    have hrows := congrArg List.length h
    simp only [table, List.length_map, List.length_range] at hrows
    have hrow : ∀ row < d.rows,
        (List.range d.cols).map (f row) = (List.range e.cols).map (g row) := by
      intro row hr
      have hget := congrArg (·[row]?) h
      simpa [table, hr, hrows ▸ hr] using hget
    have hcols := congrArg List.length (hrow 0 hp.rows_pos)
    simp only [List.length_map, List.length_range] at hcols
    obtain rfl : d = e := by
      cases d
      cases e
      cases hrows
      cases hcols
      rfl
    exact ⟨rfl, fun row hr col hc => List.map_inj_left.mp (hrow row hr) col (List.mem_range.mpr hc)⟩
  · rintro ⟨rfl, h⟩
    exact List.map_congr_left fun row hr => List.map_congr_left fun col hc =>
      h row (List.mem_range.mp hr) col (List.mem_range.mp hc)

theorem table_ne_nil {β : Type} {d : Dims} (hp : d.Positive) (f : Nat → Nat → β) : table d f ≠ [] := by
  simp [table, Nat.ne_of_gt hp.rows_pos]

theorem forall_mem_table {β : Type} {d : Dims} {f : Nat → Nat → β} {P : List β → Prop} :
    (∀ row ∈ table d f, P row) ↔ ∀ row < d.rows, P ((List.range d.cols).map (f row)) := by
  simp [table]

/-! ## Text of a table -/

def rowText (texts : List (List Char)) : List Char := ['['] ++ [',', ' '].intercalate texts ++ [']']

def tableText (texts : List (List (List Char))) : List Char := ['\n'].intercalate (texts.map rowText)

/-- Numbers are written without commas and without line breaks. -/
def Separable (text : List Char) : Prop := ',' ∉ text ∧ '\n' ∉ text

theorem rowText_inj {row row' : List (List Char)} (hne : row ≠ []) (hne' : row' ≠ [])
    (h : ∀ text ∈ row, Separable text) (h' : ∀ text ∈ row', Separable text) :
    rowText row = rowText row' ↔ row = row' := by
  rw [rowText, rowText, List.append_cancel_right_eq, List.append_cancel_left_eq]
  exact intercalate_inj hne hne' (fun text ht => (h text ht).1) (fun text ht => (h' text ht).1)

theorem newline_not_mem_rowText {row : List (List Char)} (h : ∀ text ∈ row, Separable text) :
    '\n' ∉ rowText row := by
  intro hmem
  rw [rowText, List.mem_append, List.mem_append] at hmem
  rcases hmem with (hmem | hmem) | hmem
  · revert hmem
    decide
  · rcases mem_intercalate hmem with hsep | ⟨text, ht, hmem⟩
    · revert hsep
      decide
    · exact (h text ht).2 hmem
  · revert hmem
    decide

theorem eq_of_map_eq_map {β γ : Type} {k : β → γ} {xs ys : List β}
    (hk : ∀ x ∈ xs, ∀ y ∈ ys, k x = k y → x = y) (h : xs.map k = ys.map k) : xs = ys := by
  induction xs generalizing ys with
  | nil => exact (List.map_eq_nil_iff.mp h.symm).symm
  | cons x xs ih =>
      cases ys with
      | nil => cases h
      | cons y ys =>
          obtain ⟨hhead, htail⟩ := List.cons.inj h
          rw [hk x List.mem_cons_self y List.mem_cons_self hhead,
            ih (fun x hx y hy => hk x (List.mem_cons_of_mem _ hx) y (List.mem_cons_of_mem _ hy)) htail]

/-- A table is read back from its text. -/
theorem tableText_table_inj {d e : Dims} (hd : d.Positive) (he : e.Positive)
    {f g : Nat → Nat → List Char} (hf : ∀ row col, Separable (f row col))
    (hg : ∀ row col, Separable (g row col)) :
    tableText (table d f) = tableText (table e g) ↔ table d f = table e g := by
  have hrow : ∀ {d : Dims} {f : Nat → Nat → List Char}, d.Positive → (∀ row col, Separable (f row col)) →
      ∀ row ∈ table d f, row ≠ [] ∧ ∀ text ∈ row, Separable text := by
    intro d f hd hf
    rw [forall_mem_table]
    exact fun row _ => ⟨by simp [Nat.ne_of_gt hd.cols_pos], by simpa using fun col _ => hf row col⟩
  refine ⟨fun h => ?_, congrArg tableText⟩
  rw [tableText, tableText, intercalate_inj] at h
  · refine eq_of_map_eq_map (fun r hr r' hr' heq => ?_) h
    obtain ⟨hne, hsep⟩ := hrow hd hf r hr
    obtain ⟨hne', hsep'⟩ := hrow he hg r' hr'
    exact (rowText_inj hne hne' hsep hsep').mp heq
  · simpa using table_ne_nil hd f
  · simpa using table_ne_nil he g
  · rw [List.forall_mem_map]
    exact fun row hr => newline_not_mem_rowText (hrow hd hf row hr).2
  · rw [List.forall_mem_map]
    exact fun row hr => newline_not_mem_rowText (hrow he hg row hr).2

/-! ## Under a precision and a width -/

/-- What may be asked of a text: a number of places, and a least number of characters. -/
structure TextSpec where
  precision : Option Nat
  width : Option Nat

namespace TextSpec

/-- Blanks in front of a text that is too short. -/
def pad (spec : TextSpec) (text : List Char) : List Char := text.leftpad (spec.width.getD 0) ' '

/-- The places are passed on to the numbers of a composite text, the width is not. -/
def ofParts (spec : TextSpec) : TextSpec := ⟨spec.precision, none⟩

theorem pad_ofParts (spec : TextSpec) (text : List Char) : spec.ofParts.pad text = text := by
  simp [pad, ofParts, List.leftpad]

end TextSpec

def Binary64.textUnder (spec : TextSpec) (x : Binary64) : List Char := spec.pad (x.text spec.precision)

def Complex.textUnder (spec : TextSpec) (z : Complex) : List Char :=
  z.re.textUnder spec.ofParts ++ [' ', if z.im.isNegative then '-' else '+', ' '] ++
    z.im.abs.textUnder spec.ofParts ++ ['i']

def Scalar.textUnder (spec : TextSpec) : Scalar → List Char
  | real x => x.textUnder spec
  | complex z => z.textUnder spec

theorem Binary64.textUnder_ofParts (spec : TextSpec) (x : Binary64) :
    x.textUnder spec.ofParts = x.text spec.precision := spec.pad_ofParts _

theorem Complex.textUnder_eq (spec : TextSpec) (z : Complex) : z.textUnder spec = z.text spec.precision := by
  rw [textUnder, Binary64.textUnder_ofParts, Binary64.textUnder_ofParts, text]

theorem Scalar.textUnder_ofParts (spec : TextSpec) (a : Scalar) :
    a.textUnder spec.ofParts = a.text spec.precision := by
  cases a with
  | real x => exact x.textUnder_ofParts spec
  | complex z => exact z.textUnder_eq spec.ofParts

/-- A number on its own is padded, a complex one is not. -/
example : Binary64.one.textUnder ⟨none, some 3⟩ = [' ', ' ', '1'] ∧
    Complex.one.textUnder ⟨none, some 9⟩ = ['1', ' ', '+', ' ', '0', 'i'] := by
  decide +kernel

/-! ## Matrices -/

theorem Storage.text_eq_tableText {α : Type} [Element α] (s : Storage α) (precision : Option Nat) :
    s.text precision =
      tableText (table s.dims fun row col => Element.text precision ((s.get? row col).getD Entry.zero)) := by
  simp [text, entries, tableText, table, Storage.rowText, StoredMatrix.rowText, Function.comp_def]

namespace Matrix

/-- The number that is shown at a position. -/
def entry : Matrix → (row col : Nat) → Scalar
  | real s, row, col => .real ((s.get? row col).getD Entry.zero)
  | complex s, row, col => .complex ((s.get? row col).getD Entry.zero)

/-- The text of a matrix of which a precision and a width are asked. -/
def displayUnder (spec : TextSpec) (m : Matrix) : String :=
  String.ofList (tableText (table m.dims fun row col => (m.entry row col).textUnder spec.ofParts))

theorem display_eq_tableText (m : Matrix) (precision : Option Nat) :
    m.display precision =
      String.ofList (tableText (table m.dims fun row col => (m.entry row col).text precision)) := by
  cases m with
  | real s => exact congrArg String.ofList (s.text_eq_tableText precision)
  | complex s => exact congrArg String.ofList (s.text_eq_tableText precision)

theorem displayUnder_eq (spec : TextSpec) (m : Matrix) : m.displayUnder spec = m.display spec.precision := by
  simp only [displayUnder, display_eq_tableText, Scalar.textUnder_ofParts]

theorem WellFormed.get?_eq_entry {m : Matrix} (h : m.WellFormed) {row col : Nat} (hr : row < m.dims.rows)
    (hc : col < m.dims.cols) : m.get? row col = some (m.entry row col) := by
  cases m with
  | real s => simp [get?, entry, Storage.WellFormed.get?_eq_some h hr hc]
  | complex s => simp [get?, entry, Storage.WellFormed.get?_eq_some h hr hc]

/-- Two matrices of one domain and one size whose entries are shown alike. -/
structure ShownAlike (a b : Matrix) : Prop where
  domain_eq : a.domain = b.domain
  dims_eq : a.dims = b.dims
  entries_alike : ∀ row < a.dims.rows, ∀ col < a.dims.cols,
    ∃ x y, a.get? row col = some x ∧ b.get? row col = some y ∧ x.ShownAlike y

section Pairs

variable {a b : Matrix} (ha : a.WellFormed) (hb : b.WellFormed)

include ha hb

theorem WellFormed.shownAlike_iff :
    a.ShownAlike b ↔
      a.dims = b.dims ∧ ∀ row < a.dims.rows, ∀ col < a.dims.cols,
        (a.entry row col).ShownAlike (b.entry row col) := by
  constructor
  · rintro ⟨_, hd, halike⟩
    refine ⟨hd, fun row hr col hc => ?_⟩
    obtain ⟨x, y, hx, hy, h⟩ := halike row hr col hc
    rw [ha.get?_eq_entry hr hc, Option.some.injEq] at hx
    rw [hb.get?_eq_entry (hd ▸ hr) (hd ▸ hc), Option.some.injEq] at hy
    rwa [hx, hy]
  · rintro ⟨hd, halike⟩
    refine ⟨?_, hd, fun row hr col hc => ⟨_, _, ha.get?_eq_entry hr hc,
      hb.get?_eq_entry (hd ▸ hr) (hd ▸ hc), halike row hr col hc⟩⟩
    -- there is a first entry, and it tells the domain
    have hfirst := halike 0 ha.positive.rows_pos 0 ha.positive.cols_pos
    cases a with
    | real s =>
        cases b with
        | real t => rfl
        | complex t => cases hfirst
    | complex s =>
        cases b with
        | real t => cases hfirst
        | complex t => rfl

theorem WellFormed.display_eq_of_shownAlike (h : a.ShownAlike b) (precision : Option Nat) :
    a.display precision = b.display precision := by
  obtain ⟨hd, halike⟩ := (ha.shownAlike_iff hb).mp h
  rw [display_eq_tableText, display_eq_tableText, (table_inj ha.positive).mpr
    ⟨hd, fun row hr col hc => (halike row hr col hc).text_eq precision⟩]

/-- Without a precision, the text of a matrix tells all that is shown. -/
theorem WellFormed.display_eq_iff : a.display none = b.display none ↔ a.ShownAlike b := by
  refine ⟨fun h => ?_, fun h => ha.display_eq_of_shownAlike hb h none⟩
  have hsep : ∀ m : Matrix, ∀ row col, Separable ((m.entry row col).text none) := fun m row col =>
    ⟨Scalar.not_mem_text ⟨rfl, by decide⟩ (by decide), Scalar.not_mem_text ⟨rfl, by decide⟩ (by decide)⟩
  rw [display_eq_tableText, display_eq_tableText, String.ofList_inj,
    tableText_table_inj ha.positive hb.positive (hsep a) (hsep b), table_inj ha.positive] at h
  simp only [Scalar.text_eq_iff] at h
  exact (ha.shownAlike_iff hb).mpr h

end Pairs

/-- Matrices are shown alike in domain, size and entries exactly if their texts are equal. -/
theorem display_faithful {a b : Matrix} (ha : a.Reachable) (hb : b.Reachable) :
    (a.display none = b.display none ↔ a.ShownAlike b) ∧
    (a.ShownAlike b → ∀ precision, a.display precision = b.display precision) ∧
    (∀ precision width, a.displayUnder ⟨precision, width⟩ = a.display precision) ∧
    ∀ precision, a.toDense.display precision = a.display precision :=
  ⟨ha.wellFormed.display_eq_iff hb.wellFormed, ha.wellFormed.display_eq_of_shownAlike hb.wellFormed,
    fun precision width => a.displayUnder_eq ⟨precision, width⟩, ha.wellFormed.display_toDense⟩

end Matrix

/-- It differs from the short run in the payload of its NaN. -/
def payloadSample : Diagonal Complex where
  dims := ⟨2, 3⟩
  data := [⟨⟨0x8000000000000000⟩, ⟨0x7ff0000000000001⟩⟩]

theorem reachable_payloadSample : (Matrix.complex (.diagonal payloadSample)).ReachableInMemory :=
  .build (.complex (.diagonalAtOrigin ⟨⟨0x8000000000000000⟩, ⟨0x7ff0000000000001⟩⟩ ⟨2, 3⟩)) (by decide)
    (by decide +kernel)

theorem Matrix.display_faithful_samples :
    (Matrix.complex (.diagonal shortRunSample)).Reachable ∧
    (Matrix.complex (.diagonal payloadSample)).Reachable ∧
    (Matrix.complex (.diagonal shortRunSample)).ShownAlike (.complex (.diagonal payloadSample)) ∧
    (Matrix.complex (.diagonal shortRunSample)).display (some 2) =
      (Matrix.complex (.diagonal payloadSample)).display (some 2) ∧
    (Matrix.real (.sparse descendingSample)).Reachable ∧
    ¬(Matrix.real (.sparse descendingSample)).ShownAlike (.complex (.sparse descendingSample.toComplex)) := by
  have hrun := reachable_shortRunSample.reachable
  have hpayload := reachable_payloadSample.reachable
  have hsparse := reachable_descendingSample.reachable
  obtain ⟨hiff, halike, _⟩ := display_faithful hrun hpayload
  obtain ⟨hiff', _⟩ := display_faithful hsparse (hsparse.convert .toComplex rfl)
  have hshown := hiff.mp (congrArg String.ofList (by decide +kernel))
  refine ⟨hrun, hpayload, hshown, halike hshown (some 2), hsparse, fun h => ?_⟩
  have htext := String.ofList_inj.mp (hiff'.mpr h)
  revert htext
  decide +kernel

end StoredMatrix
