import ArmchairAnalyst.Optimization.ModelLayout

/-!
# The invariant of a model's layout

Rows have one length, columns are a bijection with tokens and every row belongs to one
output token. Inserting a reserve fills one empty cell and moves nothing.
-/

namespace ArmchairAnalyst.Optimization.ModelLayout

open Std (TransOrd LawfulEqOrd)

section

variable {T I : Type} [Ord I] [TransOrd I]

/-! ### Two views -/

/-- The reserve in a cell, none outside the matrix. -/
def cell (layout : ModelLayout T I) (row : RowIndex) (column : ColumnIndex) : Option T :=
  (layout.rows[row]?.bind (fun cells => cells[column]?)).join

def rowsOf (layout : ModelLayout T I) (token : I) : HashSet RowIndex :=
  layout.outputIndexes[token]?.getD ∅

structure WellFormed (layout : ModelLayout T I) : Prop where
  rowLength : ∀ row ∈ layout.rows, row.length = layout.inputIndexes.size
  columnBound : ∀ (token : I) (column : ColumnIndex), layout.inputIndexes[token]? = some column →
    column < layout.inputIndexes.size
  columnInjective : ∀ (token token' : I) (column : ColumnIndex), layout.inputIndexes[token]? = some column →
    layout.inputIndexes[token']? = some column → token = token'
  columnSurjective : ∀ column < layout.inputIndexes.size,
    ∃ token : I, layout.inputIndexes[token]? = some column
  rowBound : ∀ token, ∀ row ∈ layout.rowsOf token, row < layout.rows.length
  rowOwner : ∀ row < layout.rows.length, ∃ token, row ∈ layout.rowsOf token
  rowUnique : ∀ token token' row, row ∈ layout.rowsOf token → row ∈ layout.rowsOf token' →
    token = token'
  outputIndexed : ∀ token ∈ layout.outputIndexes, token ∈ layout.inputIndexes

/-- Where a reserve stands. -/
structure Holds (layout : ModelLayout T I) (inputToken outputToken : I) (reserve : T)
    (row : RowIndex) (column : ColumnIndex) : Prop where
  indexed : layout.inputIndexes[inputToken]? = some column
  owned : row ∈ layout.rowsOf outputToken
  stored : layout.cell row column = some reserve

/-- What growth keeps: columns, rows and occupied cells. -/
structure Grows (layout layout' : ModelLayout T I) : Prop where
  columns : ∀ (token : I) (column : ColumnIndex), layout.inputIndexes[token]? = some column →
    layout'.inputIndexes[token]? = some column
  rows : ∀ token, ∀ row ∈ layout.rowsOf token, row ∈ layout'.rowsOf token
  cells : ∀ row column reserve, layout.cell row column = some reserve →
    layout'.cell row column = some reserve
  width : layout.inputIndexes.size ≤ layout'.inputIndexes.size
  height : layout.rows.length ≤ layout'.rows.length

theorem Grows.refl (layout : ModelLayout T I) : layout.Grows layout :=
  ⟨fun _ _ found => found, fun _ _ owned => owned, fun _ _ _ held => held, le_rfl, le_rfl⟩

theorem Grows.trans {first second third : ModelLayout T I} (grows : first.Grows second)
    (grows' : second.Grows third) : first.Grows third where
  columns := fun token column found => grows'.columns token column (grows.columns token column found)
  rows := fun token row owned => grows'.rows token row (grows.rows token row owned)
  cells := fun row column reserve held =>
    grows'.cells row column reserve (grows.cells row column reserve held)
  width := grows.width.trans grows'.width
  height := grows.height.trans grows'.height

theorem Holds.mono {layout layout' : ModelLayout T I} {inputToken outputToken : I} {reserve : T}
    {row : RowIndex} {column : ColumnIndex} (grows : layout.Grows layout')
    (holds : layout.Holds inputToken outputToken reserve row column) :
    layout'.Holds inputToken outputToken reserve row column :=
  ⟨grows.columns _ _ holds.indexed, grows.rows _ _ holds.owned, grows.cells _ _ _ holds.stored⟩

theorem new_wellFormed : (new : ModelLayout T I).WellFormed where
  rowLength := by simp [new]
  columnBound := by simp [new]
  columnInjective := by simp [new]
  columnSurjective := by simp [new]
  rowBound := by simp [new, rowsOf]
  rowOwner := by simp [new]
  rowUnique := by simp [new, rowsOf]
  outputIndexed := by simp [new]

omit [TransOrd I] in
theorem cell_new (row : RowIndex) (column : ColumnIndex) :
    (new : ModelLayout T I).cell row column = none := by
  simp [new, cell]

/-! ### Access -/

theorem WellFormed.accessReserve {layout : ModelLayout T I} (wellFormed : layout.WellFormed)
    {row : RowIndex} {column : ColumnIndex} (rowBound : row < layout.rows.length)
    (columnBound : column < layout.inputIndexes.size) :
    layout.accessReserve row column = .ok (layout.cell row column) := by
  have found := List.getElem?_eq_getElem rowBound
  have length := wellFormed.rowLength _ (List.getElem_mem rowBound)
  have found' := List.getElem?_eq_getElem (length ▸ columnBound : column < layout.rows[row].length)
  simp [ModelLayout.accessReserve, cell, found, found']

theorem WellFormed.cell_outside {layout : ModelLayout T I} (wellFormed : layout.WellFormed)
    {row : RowIndex} {column : ColumnIndex} (outside : layout.inputIndexes.size ≤ column) :
    layout.cell row column = none := by
  unfold cell
  cases found : layout.rows[row]? with
  | none => rfl
  | some cells =>
    have length := wellFormed.rowLength cells (List.mem_of_getElem? found)
    simp [List.getElem?_eq_none (length ▸ outside : cells.length ≤ column)]

omit [TransOrd I] in
theorem cell_below (layout : ModelLayout T I) {row : RowIndex} (column : ColumnIndex)
    (below : layout.rows.length ≤ row) : layout.cell row column = none := by
  simp [cell, List.getElem?_eq_none below]

theorem WellFormed.findVacant {layout : ModelLayout T I} (wellFormed : layout.WellFormed)
    {column : ColumnIndex} (columnBound : column < layout.inputIndexes.size)
    {rows : List RowIndex} (bounded : ∀ row ∈ rows, row < layout.rows.length) :
    ∃ found, layout.findVacant column rows = .ok found ∧
      ∀ row, found = some row → row ∈ rows ∧ layout.cell row column = none := by
  induction rows with
  | nil => exact ⟨none, rfl, by simp⟩
  | cons row rows inductionHypothesis =>
    have access := wellFormed.accessReserve (bounded row List.mem_cons_self) columnBound
    cases content : layout.cell row column with
    | none =>
      refine ⟨some row, by simp [ModelLayout.findVacant, access, content], ?_⟩
      intro vacant same
      obtain rfl := Option.some.inj same
      exact ⟨List.mem_cons_self, content⟩
    | some reserve =>
      obtain ⟨found, ran, vacant⟩ :=
        inductionHypothesis (fun other membership => bounded other (List.mem_cons_of_mem _ membership))
      refine ⟨found, by simp [ModelLayout.findVacant, access, content, ran], ?_⟩
      intro other same
      exact ⟨List.mem_cons_of_mem _ (vacant other same).1, (vacant other same).2⟩

theorem WellFormed.findHolding [DecidableEq T] {layout : ModelLayout T I}
    (wellFormed : layout.WellFormed) {column : ColumnIndex}
    (columnBound : column < layout.inputIndexes.size) (reserve : T) {rows : List RowIndex}
    (bounded : ∀ row ∈ rows, row < layout.rows.length) :
    ∃ found, layout.findHolding column reserve rows = .ok found ∧
      (∀ row, found = some row → row ∈ rows ∧ layout.cell row column = some reserve) ∧
      (found = none → ∀ row ∈ rows, layout.cell row column ≠ some reserve) := by
  induction rows with
  | nil => exact ⟨none, rfl, by simp, by simp⟩
  | cons row rows inductionHypothesis =>
    have access := wellFormed.accessReserve (bounded row List.mem_cons_self) columnBound
    by_cases content : layout.cell row column = some reserve
    · refine ⟨some row, by simp [ModelLayout.findHolding, access, content], ?_, by simp⟩
      intro holding same
      obtain rfl := Option.some.inj same
      exact ⟨List.mem_cons_self, content⟩
    · obtain ⟨found, ran, holding, missing⟩ :=
        inductionHypothesis (fun other membership => bounded other (List.mem_cons_of_mem _ membership))
      refine ⟨found, by simp [ModelLayout.findHolding, access, content, ran], ?_, ?_⟩
      · intro other same
        exact ⟨List.mem_cons_of_mem _ (holding other same).1, (holding other same).2⟩
      · intro absent other membership
        rcases List.mem_cons.mp membership with rfl | later
        · exact content
        · exact missing absent other later

/-! ### Filling a cell -/

/-- A layout with one more reserve, in a cell that was empty. -/
structure Fills (layout : ModelLayout T I) (row : RowIndex) (column : ColumnIndex) (reserve : T)
    (layout' : ModelLayout T I) : Prop where
  vacant : layout.cell row column = none
  cells : ∀ row' column', layout'.cell row' column' =
    if row' = row ∧ column' = column then some reserve else layout.cell row' column'

omit [TransOrd I] in
theorem Fills.keeps {layout layout' : ModelLayout T I} {row : RowIndex} {column : ColumnIndex}
    {reserve : T} (fills : layout.Fills row column reserve layout') {row' : RowIndex}
    {column' : ColumnIndex} {held : T} (stored : layout.cell row' column' = some held) :
    layout'.cell row' column' = some held := by
  rw [fills.cells, if_neg]
  · exact stored
  · rintro ⟨rfl, rfl⟩
    rw [fills.vacant] at stored
    cases stored

theorem WellFormed.writeReserve {layout : ModelLayout T I} (wellFormed : layout.WellFormed)
    {row : RowIndex} {column : ColumnIndex} (rowBound : row < layout.rows.length)
    (columnBound : column < layout.inputIndexes.size) (vacant : layout.cell row column = none)
    (reserve : T) :
    ∃ layout', layout.writeReserve row column reserve = .ok layout' ∧ layout'.WellFormed ∧
      layout.Fills row column reserve layout' ∧ layout'.rows.length = layout.rows.length ∧
      layout'.inputIndexes = layout.inputIndexes ∧ layout'.outputIndexes = layout.outputIndexes := by
  refine ⟨{ layout with
      rows := layout.rows.modify row (fun cells => cells.set column (some reserve)) },
    by simp [ModelLayout.writeReserve, wellFormed.accessReserve rowBound columnBound], ?_,
    ⟨vacant, ?_⟩, by simp, rfl, rfl⟩
  · refine ⟨?_, wellFormed.columnBound, wellFormed.columnInjective, wellFormed.columnSurjective,
      ?_, ?_, wellFormed.rowUnique, wellFormed.outputIndexed⟩
    · intro cells membership
      obtain ⟨index, found⟩ := List.mem_iff_getElem?.mp membership
      rw [List.getElem?_modify] at found
      obtain ⟨cells', found', rfl⟩ := Option.map_eq_some_iff.mp found
      have length := wellFormed.rowLength cells' (List.mem_of_getElem? found')
      split
      · rw [List.length_set, length]
      · exact length
    · intro token row' owned
      simpa using wellFormed.rowBound token row' owned
    · intro row' bound
      exact wellFormed.rowOwner row' (by simpa using bound)
  · intro row' column'
    unfold cell
    rw [List.getElem?_modify]
    have found := List.getElem?_eq_getElem rowBound
    have length := wellFormed.rowLength _ (List.getElem_mem rowBound)
    by_cases sameRow : row' = row
    · subst sameRow
      by_cases sameColumn : column' = column
      · subst sameColumn
        simp [found, length, columnBound]
      · simp [found, sameColumn, List.getElem?_set_ne (Ne.symm sameColumn)]
    · simp [sameRow, Ne.symm sameRow]

/-! ### What an insertion adds -/

/-- What inserting a reserve does: it fills one cell, in the column of its input token
and a row of its output token, and otherwise the layout at most grows. -/
structure Inserts (layout : ModelLayout T I) (inputToken outputToken : I) (reserve : T)
    (layout' : ModelLayout T I) (row : RowIndex) (column : ColumnIndex) : Prop where
  wellFormed : layout'.WellFormed
  grows : layout.Grows layout'
  fills : layout.Fills row column reserve layout'
  holds : layout'.Holds inputToken outputToken reserve row column

/-- Growth gives no occupied cell another owner. -/
theorem Grows.holds_of_cell {layout layout' : ModelLayout T I} (wellFormed : layout.WellFormed)
    (wellFormed' : layout'.WellFormed) (grows : layout.Grows layout') {inputToken outputToken : I}
    {reserve : T} {row : RowIndex} {column : ColumnIndex}
    (holds : layout'.Holds inputToken outputToken reserve row column)
    (stored : layout.cell row column = some reserve) :
    layout.Holds inputToken outputToken reserve row column := by
  have columnBound : column < layout.inputIndexes.size := by
    by_contra outside
    rw [wellFormed.cell_outside (Nat.le_of_not_lt outside)] at stored
    cases stored
  have rowBound : row < layout.rows.length := by
    by_contra below
    rw [cell_below layout column (Nat.le_of_not_lt below)] at stored
    cases stored
  obtain ⟨token, indexed⟩ := wellFormed.columnSurjective column columnBound
  obtain ⟨owner, owned⟩ := wellFormed.rowOwner row rowBound
  obtain rfl : token = inputToken := wellFormed'.columnInjective token inputToken column
    (grows.columns _ _ indexed) holds.indexed
  obtain rfl : owner = outputToken := wellFormed'.rowUnique owner outputToken row
    (grows.rows _ _ owned) holds.owned
  exact ⟨indexed, owned, stored⟩

theorem Inserts.holds_iff {layout layout' : ModelLayout T I} {inputToken outputToken : I}
    {reserve : T} {row : RowIndex} {column : ColumnIndex} (wellFormed : layout.WellFormed)
    (inserts : layout.Inserts inputToken outputToken reserve layout' row column)
    (inputToken' outputToken' : I) (reserve' : T) (row' : RowIndex) (column' : ColumnIndex) :
    layout'.Holds inputToken' outputToken' reserve' row' column' ↔
      layout.Holds inputToken' outputToken' reserve' row' column' ∨
        ((inputToken', outputToken', reserve') = (inputToken, outputToken, reserve) ∧
          row' = row ∧ column' = column) := by
  constructor
  · intro holds
    by_cases filled : row' = row ∧ column' = column
    · obtain ⟨rfl, rfl⟩ := filled
      have stored := holds.stored
      rw [inserts.fills.cells, if_pos ⟨rfl, rfl⟩, Option.some.injEq] at stored
      have sameInput := inserts.wellFormed.columnInjective _ _ _ holds.indexed inserts.holds.indexed
      have sameOutput := inserts.wellFormed.rowUnique _ _ _ holds.owned inserts.holds.owned
      exact .inr ⟨by rw [sameInput, sameOutput, stored], rfl, rfl⟩
    · have stored := holds.stored
      rw [inserts.fills.cells, if_neg filled] at stored
      exact .inl (inserts.grows.holds_of_cell wellFormed inserts.wellFormed holds stored)
  · rintro (holds | ⟨same, rfl, rfl⟩)
    · exact holds.mono inserts.grows
    · simp only [Prod.mk.injEq] at same
      obtain ⟨rfl, rfl, rfl⟩ := same
      exact inserts.holds

/-- A layout holds the reserves of a list, each of them in one cell, and no others. -/
structure Contains (layout : ModelLayout T I) (keys : List (I × I × T)) : Prop where
  held : ∀ key ∈ keys, ∃ row column, layout.Holds key.1 key.2.1 key.2.2 row column
  listed : ∀ inputToken outputToken reserve row column,
    layout.Holds inputToken outputToken reserve row column →
      (inputToken, outputToken, reserve) ∈ keys
  single : ∀ inputToken outputToken reserve row column row' column',
    layout.Holds inputToken outputToken reserve row column →
      layout.Holds inputToken outputToken reserve row' column' → row = row' ∧ column = column'

theorem new_contains : (new : ModelLayout T I).Contains [] := by
  refine ⟨by simp, ?_, ?_⟩
  · intro inputToken outputToken reserve row column holds
    have stored := holds.stored
    rw [cell_new] at stored
    cases stored
  · intro inputToken outputToken reserve row column row' column' holds _
    have stored := holds.stored
    rw [cell_new] at stored
    cases stored

theorem Contains.inserts {layout layout' : ModelLayout T I} {keys : List (I × I × T)}
    {inputToken outputToken : I} {reserve : T} {row : RowIndex} {column : ColumnIndex}
    (contains : layout.Contains keys) (wellFormed : layout.WellFormed)
    (inserts : layout.Inserts inputToken outputToken reserve layout' row column)
    (fresh : (inputToken, outputToken, reserve) ∉ keys) :
    layout'.Contains (keys ++ [(inputToken, outputToken, reserve)]) := by
  have holds_iff := inserts.holds_iff wellFormed
  refine ⟨?_, ?_, ?_⟩
  · intro key membership
    rcases List.mem_append.mp membership with earlier | new
    · obtain ⟨row', column', holds⟩ := contains.held key earlier
      exact ⟨row', column', holds.mono inserts.grows⟩
    · rw [List.mem_singleton.mp new]
      exact ⟨row, column, inserts.holds⟩
  · intro inputToken' outputToken' reserve' row' column' holds
    rcases (holds_iff _ _ _ _ _).mp holds with earlier | ⟨same, -, -⟩
    · exact List.mem_append_left _ (contains.listed _ _ _ _ _ earlier)
    · exact List.mem_append_right _ (List.mem_singleton.mpr same)
  · intro inputToken' outputToken' reserve' row' column' row'' column'' holds holds'
    rcases (holds_iff _ _ _ _ _).mp holds with earlier | ⟨same, rfl, rfl⟩ <;>
      rcases (holds_iff _ _ _ _ _).mp holds' with earlier' | ⟨same', rfl, rfl⟩
    · exact contains.single _ _ _ _ _ _ _ earlier earlier'
    · exact absurd (same' ▸ contains.listed _ _ _ _ _ earlier) fresh
    · exact absurd (same ▸ contains.listed _ _ _ _ _ earlier') fresh
    · exact ⟨rfl, rfl⟩

/-! ### Finding a reserve -/

theorem WellFormed.findReservePosition [DecidableEq T] {layout : ModelLayout T I}
    (wellFormed : layout.WellFormed) (order : RowOrder) (inputToken outputToken : I)
    (reserve : T) :
    ∃ position, layout.findReservePosition order inputToken outputToken reserve = .ok position ∧
      (∀ row column, position = some (row, column) →
        layout.Holds inputToken outputToken reserve row column) ∧
      (position = none → ∀ row column,
        ¬ layout.Holds inputToken outputToken reserve row column) := by
  unfold ModelLayout.findReservePosition
  cases indexed : layout.inputIndexes[inputToken]? with
  | none =>
    refine ⟨none, rfl, by simp, ?_⟩
    intro _ row column holds
    have known := holds.indexed
    rw [indexed] at known
    cases known
  | some column =>
    cases found : layout.outputIndexes[outputToken]? with
    | none =>
      refine ⟨none, rfl, by simp, ?_⟩
      intro _ row column holds
      have owned := holds.owned
      simp [rowsOf, found] at owned
    | some rowSet =>
      have rows : layout.rowsOf outputToken = rowSet := by
        rw [rowsOf, found, Option.getD_some]
      have listed (row : RowIndex) :
          row ∈ order.arrange rowSet.toList ↔ row ∈ layout.rowsOf outputToken := by
        rw [(order.perm _).mem_iff, Std.ExtTreeSet.mem_toList, rows]
      obtain ⟨holding, ran, some_, none_⟩ := wellFormed.findHolding
        (wellFormed.columnBound _ _ indexed) reserve
        (fun row membership => wellFormed.rowBound outputToken row ((listed row).mp membership))
      refine ⟨holding.map (fun row => (row, column)), by simp only [ran]; rfl, ?_, ?_⟩
      · intro row column' position
        obtain ⟨row', same, pair⟩ := Option.map_eq_some_iff.mp position
        obtain ⟨rfl, rfl⟩ := Prod.mk.inj pair
        exact ⟨indexed, (listed row').mp (some_ row' same).1, (some_ row' same).2⟩
      · intro absent row column' holds
        obtain rfl : column = column' := by simpa [indexed] using holds.indexed
        exact none_ (Option.map_eq_none_iff.mp absent) row ((listed row).mpr holds.owned)
          holds.stored

/-! ### Indexing an input -/

variable [LawfulEqOrd I] [DecidableEq I]

omit [Ord I] [TransOrd I] [LawfulEqOrd I] [DecidableEq I] in
theorem join_concat_none (cells : List (Option T)) (column : ColumnIndex) :
    ((cells ++ [none])[column]?).join = cells[column]?.join := by
  rcases Nat.lt_trichotomy column cells.length with inside | last | outside
  · rw [List.getElem?_append_left inside]
  · simp [last]
  · rw [List.getElem?_eq_none (by simp; omega), List.getElem?_eq_none (Nat.le_of_lt outside)]

/-- What indexing an input token does. -/
structure IndexesInput (layout : ModelLayout T I) (token : I) (layout' : ModelLayout T I)
    (column : ColumnIndex) : Prop where
  wellFormed : layout'.WellFormed
  indexed : layout'.inputIndexes[token]? = some column
  columns : ∀ (other : I) (column' : ColumnIndex), layout.inputIndexes[other]? = some column' →
    layout'.inputIndexes[other]? = some column'
  width : layout.inputIndexes.size ≤ layout'.inputIndexes.size
  height : layout'.rows.length = layout.rows.length
  outputs : layout'.outputIndexes = layout.outputIndexes
  cells : ∀ row column', layout'.cell row column' = layout.cell row column'

theorem WellFormed.withIndexedInput {layout : ModelLayout T I} (wellFormed : layout.WellFormed)
    (token : I) :
    layout.IndexesInput token (layout.withIndexedInput token).1
      (layout.withIndexedInput token).2 := by
  unfold ModelLayout.withIndexedInput
  cases known : layout.inputIndexes[token]? with
  | some column =>
    exact ⟨wellFormed, known, fun _ _ found => found, le_rfl, rfl, rfl, fun _ _ => rfl⟩
  | none =>
    have absent : token ∉ layout.inputIndexes := (HashMap.getElem?_eq_none_iff _ _).mp known
    have size : (layout.inputIndexes.insert token layout.inputIndexes.size).size =
        layout.inputIndexes.size + 1 := by
      rw [Std.ExtTreeMap.size_insert, if_neg (by rwa [Std.ExtTreeMap.contains_iff_mem])]
    have lookup (other : I) :
        (layout.inputIndexes.insert token layout.inputIndexes.size)[other]? =
          if other = token then some layout.inputIndexes.size else layout.inputIndexes[other]? :=
      HashMap.getElem?_insert _ _ _ _
    have other_ (other : I) (column : ColumnIndex)
        (found : layout.inputIndexes[other]? = some column) : other ≠ token := by
      rintro rfl
      rw [known] at found
      cases found
    refine ⟨⟨?_, ?_, ?_, ?_, ?_, ?_, wellFormed.rowUnique, ?_⟩, ?_, ?_, ?_, ?_, rfl, ?_⟩
    · intro row membership
      obtain ⟨cells, listed, rfl⟩ := List.mem_map.mp membership
      have length := wellFormed.rowLength cells listed
      simp only [length, le_refl, if_true, size]
      simp [length]
    · intro other column found
      rw [lookup] at found
      rw [size]
      split at found
      · rw [← Option.some.inj found]
        exact Nat.lt_succ_self _
      · exact (wellFormed.columnBound other column found).trans (Nat.lt_succ_self _)
    · intro other other' column found found'
      rw [lookup] at found found'
      split at found <;> split at found'
      · rename_i same same'
        rw [same, same']
      · have bound := wellFormed.columnBound other' column found'
        obtain rfl := Option.some.inj found
        exact absurd bound (lt_irrefl _)
      · have bound := wellFormed.columnBound other column found
        obtain rfl := Option.some.inj found'
        exact absurd bound (lt_irrefl _)
      · exact wellFormed.columnInjective other other' column found found'
    · intro column bound
      rw [size] at bound
      rcases Nat.lt_succ_iff_lt_or_eq.mp bound with earlier | rfl
      · obtain ⟨other, found⟩ := wellFormed.columnSurjective column earlier
        exact ⟨other, by rw [lookup, if_neg (other_ other column found), found]⟩
      · exact ⟨token, by rw [lookup, if_pos rfl]⟩
    · intro other row owned
      simpa using wellFormed.rowBound other row owned
    · intro row bound
      exact wellFormed.rowOwner row (by simpa using bound)
    · intro other output
      rw [Std.ExtTreeMap.mem_insert]
      exact .inr (wellFormed.outputIndexed other output)
    · rw [lookup, if_pos rfl]
    · intro other column found
      rw [lookup, if_neg (other_ other column found), found]
    · rw [size]
      exact Nat.le_succ _
    · simp
    · intro row column
      unfold cell
      rw [List.getElem?_map]
      cases found : layout.rows[row]? with
      | none => rfl
      | some cells =>
        have length := wellFormed.rowLength cells (List.mem_of_getElem? found)
        have widened : cells ++ List.replicate (layout.inputIndexes.size + 1 - cells.length) none =
            cells ++ [none] := by
          simp [length]
        rw [Option.map_some, Option.bind_some, Option.bind_some, if_pos length.le, widened]
        exact join_concat_none cells column

/-! ### Inserting a reserve -/

theorem rowsOf_of_outputs {layout layout' : ModelLayout T I} {token : I}
    {rowSet : HashSet RowIndex}
    (outputs : layout'.outputIndexes = layout.outputIndexes.insert token rowSet) (other : I) :
    layout'.rowsOf other = if other = token then rowSet else layout.rowsOf other := by
  unfold rowsOf
  rw [outputs, HashMap.getElem?_insert]
  split <;> rfl

/-- Naming a token as an output leaves its rows as they are. -/
theorem rowsOf_of_named {layout layout' : ModelLayout T I} {token : I}
    (outputs : layout'.outputIndexes = layout.outputIndexes.insert token (layout.rowsOf token))
    (other : I) : layout'.rowsOf other = layout.rowsOf other := by
  rw [rowsOf_of_outputs outputs]
  split
  · rename_i equal
    rw [equal]
  · rfl

theorem WellFormed.withOutput {layout : ModelLayout T I} (wellFormed : layout.WellFormed)
    {token : I} (indexed : token ∈ layout.inputIndexes) :
    ({ layout with
        outputIndexes := layout.outputIndexes.insert token (layout.rowsOf token) } :
      ModelLayout T I).WellFormed := by
  have same (other : I) : rowsOf { layout with
      outputIndexes := layout.outputIndexes.insert token (layout.rowsOf token) } other =
      layout.rowsOf other := rowsOf_of_named rfl other
  refine ⟨wellFormed.rowLength, wellFormed.columnBound, wellFormed.columnInjective,
    wellFormed.columnSurjective, ?_, ?_, ?_, ?_⟩
  · intro other row owned
    rw [same] at owned
    exact wellFormed.rowBound other row owned
  · intro row bound
    obtain ⟨owner, owned⟩ := wellFormed.rowOwner row bound
    exact ⟨owner, by rw [same]; exact owned⟩
  · intro first second row owned owned'
    rw [same] at owned owned'
    exact wellFormed.rowUnique first second row owned owned'
  · intro other output
    rcases Std.ExtTreeMap.mem_insert.mp output with equal | output
    · rw [LawfulEqOrd.eq_of_compare equal] at indexed
      exact indexed
    · exact wellFormed.outputIndexed other output

/-- An empty row for an output token. -/
theorem WellFormed.withRow {layout : ModelLayout T I} (wellFormed : layout.WellFormed)
    {token : I} (indexed : token ∈ layout.inputIndexes) :
    ({ layout with
        rows := layout.rows ++ [List.replicate layout.inputIndexes.size none]
        outputIndexes := layout.outputIndexes.insert token
          ((layout.rowsOf token).insert layout.rows.length) } : ModelLayout T I).WellFormed := by
  have member (other : I) (row : RowIndex) :
      row ∈ rowsOf { layout with
        rows := layout.rows ++ [List.replicate layout.inputIndexes.size none]
        outputIndexes := layout.outputIndexes.insert token
          ((layout.rowsOf token).insert layout.rows.length) } other ↔
        (other = token ∧ row = layout.rows.length) ∨ row ∈ layout.rowsOf other := by
    rw [@rowsOf_of_outputs _ _ _ _ _ _ layout _ _ _ rfl]
    split
    · rename_i equal
      rw [Std.ExtTreeSet.mem_insert, LawfulEqOrd.compare_eq_iff_eq, equal]
      simp [eq_comm]
    · rename_i different
      simp [different]
  refine ⟨?_, wellFormed.columnBound, wellFormed.columnInjective, wellFormed.columnSurjective,
    ?_, ?_, ?_, ?_⟩
  · intro row membership
    rcases List.mem_append.mp membership with earlier | new
    · exact wellFormed.rowLength row earlier
    · rw [List.mem_singleton.mp new, List.length_replicate]
  · intro other row owned
    rw [List.length_append, List.length_singleton]
    rcases (member other row).mp owned with ⟨-, rfl⟩ | owned
    · exact Nat.lt_succ_self _
    · exact (wellFormed.rowBound other row owned).trans (Nat.lt_succ_self _)
  · intro row bound
    rw [List.length_append, List.length_singleton] at bound
    rcases Nat.lt_succ_iff_lt_or_eq.mp bound with earlier | last
    · obtain ⟨owner, owned⟩ := wellFormed.rowOwner row earlier
      exact ⟨owner, (member owner row).mpr (.inr owned)⟩
    · exact ⟨token, (member token row).mpr (.inl ⟨rfl, last⟩)⟩
  · intro first second row owned owned'
    rcases (member first row).mp owned with ⟨named, last⟩ | earlier <;>
      rcases (member second row).mp owned' with ⟨named', last'⟩ | earlier'
    · rw [named, named']
    · exact absurd (wellFormed.rowBound second row earlier') (last ▸ lt_irrefl _)
    · exact absurd (wellFormed.rowBound first row earlier) (last' ▸ lt_irrefl _)
    · exact wellFormed.rowUnique first second row earlier earlier'
  · intro other output
    rcases Std.ExtTreeMap.mem_insert.mp output with equal | output
    · rw [LawfulEqOrd.eq_of_compare equal] at indexed
      exact indexed
    · exact wellFormed.outputIndexed other output

omit [TransOrd I] [LawfulEqOrd I] [DecidableEq I] in
theorem cell_withRow (layout : ModelLayout T I) (outputs : HashMap I (HashSet RowIndex))
    (row : RowIndex) (column : ColumnIndex) :
    cell { layout with
      rows := layout.rows ++ [List.replicate layout.inputIndexes.size none]
      outputIndexes := outputs } row column = layout.cell row column := by
  unfold cell
  rcases Nat.lt_trichotomy row layout.rows.length with inside | last | outside
  · rw [List.getElem?_append_left inside]
  · subst last
    rw [List.getElem?_concat_length, List.getElem?_eq_none le_rfl, Option.bind_some,
      List.getElem?_replicate]
    split <;> rfl
  · rw [List.getElem?_eq_none (by simp; omega), List.getElem?_eq_none (Nat.le_of_lt outside)]

/-- What filling a cell of an output token does. -/
structure Outputs (layout : ModelLayout T I) (column : ColumnIndex) (token : I) (reserve : T)
    (layout' : ModelLayout T I) (row : RowIndex) : Prop where
  wellFormed : layout'.WellFormed
  fills : layout.Fills row column reserve layout'
  owned : row ∈ layout'.rowsOf token
  inputs : layout'.inputIndexes = layout.inputIndexes
  outputs : ∀ other, ∀ row' ∈ layout.rowsOf other, row' ∈ layout'.rowsOf other
  height : layout.rows.length ≤ layout'.rows.length

theorem WellFormed.withIndexedOutput {layout : ModelLayout T I} (wellFormed : layout.WellFormed)
    (order : RowOrder) {column : ColumnIndex} (columnBound : column < layout.inputIndexes.size)
    {token : I} (indexed : token ∈ layout.inputIndexes) (reserve : T) :
    ∃ layout' row, layout.withIndexedOutput order column token reserve = .ok layout' ∧
      layout.Outputs column token reserve layout' row := by
  have listed (row : RowIndex) :
      row ∈ order.arrange (layout.rowsOf token).toList ↔ row ∈ layout.rowsOf token := by
    rw [(order.perm _).mem_iff, Std.ExtTreeSet.mem_toList]
  obtain ⟨found, ran, vacant⟩ := wellFormed.findVacant columnBound
    (fun row membership => wellFormed.rowBound token row ((listed row).mp membership))
  cases found with
  | some row =>
    obtain ⟨membership, empty⟩ := vacant row rfl
    have owned := (listed row).mp membership
    obtain ⟨layout', wrote, wellFormed', fills, length, inputs, outputs⟩ :=
      (wellFormed.withOutput indexed).writeReserve (wellFormed.rowBound token row owned)
        columnBound empty reserve
    have rowsOf' := rowsOf_of_named outputs
    refine ⟨layout', row, ?_, wellFormed', ⟨empty, fills.cells⟩, ?_, inputs, ?_, length.ge⟩
    · unfold ModelLayout.withIndexedOutput
      rw [rowsOf] at ran
      simp only [ran]
      exact wrote
    · rw [rowsOf']
      exact owned
    · intro other row' owned'
      rw [rowsOf']
      exact owned'
  | none =>
    have empty := cell_withRow layout (layout.outputIndexes.insert token
      ((layout.rowsOf token).insert layout.rows.length)) layout.rows.length column
    rw [cell_below layout column le_rfl] at empty
    obtain ⟨layout', wrote, wellFormed', fills, length, inputs, outputs⟩ :=
      (wellFormed.withRow indexed).writeReserve (by simp) columnBound empty reserve
    have rowsOf' := rowsOf_of_outputs outputs
    refine ⟨layout', layout.rows.length, ?_, wellFormed', ⟨?_, ?_⟩, ?_, inputs, ?_, ?_⟩
    · unfold ModelLayout.withIndexedOutput
      rw [rowsOf] at ran
      simp only [ran]
      exact wrote
    · exact cell_below layout column le_rfl
    · intro row' column'
      rw [fills.cells, cell_withRow]
    · rw [rowsOf', if_pos rfl]
      exact Std.ExtTreeSet.mem_insert_self
    · intro other row' owned'
      rw [rowsOf']
      split
      · rename_i equal
        rw [Std.ExtTreeSet.mem_insert]
        exact .inr (equal ▸ owned')
      · exact owned'
    · rw [length, List.length_append]
      exact Nat.le_add_right _ _

theorem WellFormed.withReserveValues {layout : ModelLayout T I} (wellFormed : layout.WellFormed)
    (order : RowOrder) (inputToken outputToken : I) (reserve : T) :
    ∃ layout' row column,
      layout.withReserveValues order inputToken outputToken reserve = .ok layout' ∧
        layout.Inserts inputToken outputToken reserve layout' row column := by
  have output := wellFormed.withIndexedInput outputToken
  have input := output.wellFormed.withIndexedInput inputToken
  have indexed : outputToken ∈
      ((layout.withIndexedInput outputToken).1.withIndexedInput inputToken).1.inputIndexes :=
    (HashMap.mem_iff_exists _ _).mpr ⟨_, input.columns _ _ output.indexed⟩
  obtain ⟨layout', row, ran, outputs⟩ := input.wellFormed.withIndexedOutput order
    (input.wellFormed.columnBound _ _ input.indexed) indexed reserve
  have cells (row' column' : Nat) : ((layout.withIndexedInput outputToken).1.withIndexedInput
      inputToken).1.cell row' column' = layout.cell row' column' := by
    rw [input.cells, output.cells]
  have fills : layout.Fills row _ reserve layout' :=
    ⟨by rw [← cells]; exact outputs.fills.vacant,
      fun row' column' => by rw [outputs.fills.cells, cells]⟩
  have found : layout'.inputIndexes[inputToken]? =
      some ((layout.withIndexedInput outputToken).1.withIndexedInput inputToken).2 := by
    rw [outputs.inputs, input.indexed]
  refine ⟨layout', row, _, ran, outputs.wellFormed, ⟨?_, ?_, ?_, ?_, ?_⟩, fills, found,
    outputs.owned, ?_⟩
  · intro token column known
    rw [outputs.inputs]
    exact input.columns _ _ (output.columns _ _ known)
  · intro token row' owned
    apply outputs.outputs
    unfold rowsOf at owned ⊢
    rw [input.outputs, output.outputs]
    exact owned
  · intro row' column' held stored
    exact fills.keeps stored
  · rw [outputs.inputs]
    exact output.width.trans input.width
  · rw [← output.height, ← input.height]
    exact outputs.height
  · rw [fills.cells, if_pos ⟨rfl, rfl⟩]

/-! ### Runs -/

/-- One call of the insertion, with the order in which its row set is visited. -/
structure Insertion (T I : Type) where
  order : RowOrder
  inputToken : I
  outputToken : I
  reserve : T

omit [Ord I] [TransOrd I] [LawfulEqOrd I] [DecidableEq I] in
def Insertion.key (insertion : Insertion T I) : I × I × T :=
  (insertion.inputToken, insertion.outputToken, insertion.reserve)

omit [LawfulEqOrd I] [DecidableEq I] in
def insertAll (layout : ModelLayout T I) (insertions : List (Insertion T I)) :
    Except Fault (ModelLayout T I) :=
  insertions.foldlM (fun layout insertion =>
    layout.withReserveValues insertion.order insertion.inputToken insertion.outputToken
      insertion.reserve) layout

theorem WellFormed.insertAll {layout : ModelLayout T I} (wellFormed : layout.WellFormed)
    {keys : List (I × I × T)} (contains : layout.Contains keys)
    {insertions : List (Insertion T I)} (distinct : (keys ++ insertions.map (·.key)).Nodup) :
    ∃ layout', layout.insertAll insertions = .ok layout' ∧ layout'.WellFormed ∧
      layout'.Contains (keys ++ insertions.map (·.key)) ∧ layout.Grows layout' := by
  induction insertions generalizing layout keys with
  | nil => exact ⟨layout, rfl, wellFormed, by simpa using contains, .refl layout⟩
  | cons insertion insertions inductionHypothesis =>
    obtain ⟨middle, row, column, ran, inserts⟩ := wellFormed.withReserveValues insertion.order
      insertion.inputToken insertion.outputToken insertion.reserve
    have fresh : insertion.key ∉ keys := by
      intro membership
      exact List.disjoint_of_nodup_append distinct membership List.mem_cons_self
    have reordered : keys ++ (insertion :: insertions).map (·.key) =
        (keys ++ [insertion.key]) ++ insertions.map (·.key) := by
      simp
    rw [reordered] at distinct ⊢
    obtain ⟨layout', rest, wellFormed', contains', grows⟩ := inductionHypothesis
      inserts.wellFormed (contains.inserts wellFormed inserts fresh) distinct
    refine ⟨layout', ?_, wellFormed', contains', inserts.grows.trans grows⟩
    unfold ModelLayout.insertAll at rest ⊢
    rw [List.foldlM_cons, ran]
    exact rest

end

end ArmchairAnalyst.Optimization.ModelLayout
