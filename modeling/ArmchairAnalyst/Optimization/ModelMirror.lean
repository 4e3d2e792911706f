import ArmchairAnalyst.Optimization.ModelGrowth

/-!
# What a model shows of its snapshot

Whichever way a model came about, built, refreshed in place or grown, its cells show the
latest snapshot, its masks what is disabled or gone, and its weights what they were.
-/

namespace ArmchairAnalyst.Optimization

open Std (TransOrd LawfulEqOrd)

/-! ### Row-major vectors -/

theorem getElem?_flatMap_of_length {A B : Type} {f : A → List B} {width : Nat} {elements : List A}
    (lengths : ∀ a ∈ elements, (f a).length = width) {i j : Nat} (inside : j < width) :
    (elements.flatMap f)[i * width + j]? = elements[i]?.bind (fun a => (f a)[j]?) := by
  induction elements generalizing i with
  | nil => simp
  | cons first elements inductionHypothesis =>
    have length := lengths first List.mem_cons_self
    have rest := fun a listed => lengths a (List.mem_cons_of_mem _ listed)
    rw [List.flatMap_cons]
    cases i with
    | zero =>
      rw [Nat.zero_mul, Nat.zero_add, List.getElem?_append_left (by omega)]
      rfl
    | succ i =>
      have shift : (i + 1) * width + j - width = i * width + j := by
        rw [Nat.succ_mul]
        omega
      rw [List.getElem?_append_right (by rw [Nat.succ_mul]; omega), length, shift,
        inductionHypothesis rest, List.getElem?_cons_succ]

/-- Distinct cells have distinct places in a row-major vector. -/
theorem rowMajor_injective {width row column row' column' : Nat} (inside : column < width)
    (inside' : column' < width) (same : row * width + column = row' * width + column') :
    row = row' ∧ column = column' := by
  have rows : row = row' := by
    have first := Nat.mul_add_div (Nat.zero_lt_of_lt inside) row column
    have second := Nat.mul_add_div (Nat.zero_lt_of_lt inside) row' column'
    rw [Nat.div_eq_of_lt inside, Nat.add_zero, Nat.mul_comm] at first
    rw [Nat.div_eq_of_lt inside', Nat.add_zero, Nat.mul_comm] at second
    rw [← first, ← second, same]
  subst rows
  exact ⟨rfl, Nat.add_left_cancel same⟩

namespace ModelLayout

variable {T I : Type} [Ord I] [TransOrd I]

theorem WellFormed.getElem?_flatten {layout : ModelLayout T I} (wellFormed : layout.WellFormed)
    {row column : Nat} (rowBound : row < layout.rows.length)
    (columnBound : column < layout.inputIndexes.size) :
    layout.rows.flatten[row * layout.inputIndexes.size + column]? =
      some (layout.cell row column) := by
  have length := wellFormed.rowLength _ (List.getElem_mem rowBound)
  rw [← List.flatMap_id, getElem?_flatMap_of_length (f := id) wellFormed.rowLength columnBound,
    cell, List.getElem?_eq_getElem rowBound]
  simp only [Option.bind_some, id_eq]
  rw [List.getElem?_eq_getElem (length ▸ columnBound)]
  rfl

theorem WellFormed.length_flatten {layout : ModelLayout T I} (wellFormed : layout.WellFormed) :
    layout.rows.flatten.length = layout.rows.length * layout.inputIndexes.size := by
  have lengths : layout.rows.map List.length =
      List.replicate layout.rows.length layout.inputIndexes.size := by
    rw [List.eq_replicate_iff]
    refine ⟨List.length_map _, ?_⟩
    intro length listed
    obtain ⟨row, member, rfl⟩ := List.mem_map.mp listed
    exact wellFormed.rowLength row member
  rw [List.length_flatten, lengths, List.sum_replicate, smul_eq_mul]

theorem WellFormed.getElem?_cells {layout : ModelLayout T I} (wellFormed : layout.WellFormed)
    {row column : Nat} (rowBound : row < layout.rows.length)
    (columnBound : column < layout.inputIndexes.size) :
    layout.cells[row * layout.inputIndexes.size + column]? =
      some ((row, column), layout.cell row column) := by
  have lengths : ∀ cells ∈ layout.rows.zipIdx,
      (cells.1.zipIdx.map (fun value => ((cells.2, value.2), value.1))).length =
        layout.inputIndexes.size := by
    intro cells listed
    rw [List.length_map, List.length_zipIdx]
    exact wellFormed.rowLength cells.1 (List.fst_mem_of_mem_zipIdx listed)
  have length := wellFormed.rowLength _ (List.getElem_mem rowBound)
  rw [cells, getElem?_flatMap_of_length lengths columnBound, List.getElem?_zipIdx, cell,
    List.getElem?_eq_getElem rowBound]
  simp only [Option.map_some, Option.bind_some, List.getElem?_map, List.getElem?_zipIdx]
  rw [List.getElem?_eq_getElem (length ▸ columnBound)]
  simp

/-- What stands in a cell is held there between some two tokens. -/
theorem WellFormed.holds_of_cell {layout : ModelLayout T I} (wellFormed : layout.WellFormed)
    {row : RowIndex} {column : ColumnIndex} {reserve : T}
    (stored : layout.cell row column = some reserve) :
    ∃ inputToken outputToken, layout.Holds inputToken outputToken reserve row column := by
  have columnBound : column < layout.inputIndexes.size := by
    by_contra outside
    rw [wellFormed.cell_outside (Nat.le_of_not_lt outside)] at stored
    cases stored
  have rowBound : row < layout.rows.length := by
    by_contra below
    rw [cell_below layout column (Nat.le_of_not_lt below)] at stored
    cases stored
  obtain ⟨inputToken, indexed⟩ := wellFormed.columnSurjective column columnBound
  obtain ⟨outputToken, owned⟩ := wellFormed.rowOwner row rowBound
  exact ⟨inputToken, outputToken, indexed, owned, stored⟩

/-- A reserve is found where it is held, in whatever order the rows are visited. -/
theorem WellFormed.find_of_holds [LawfulEqOrd I] [DecidableEq T] {layout : ModelLayout T I}
    (wellFormed : layout.WellFormed) {keys : List (I × I × T)} (contains : layout.Contains keys)
    {inputToken outputToken : I} {reserve : T} {row : RowIndex} {column : ColumnIndex}
    (holds : layout.Holds inputToken outputToken reserve row column) (order : RowOrder) :
    layout.findReservePosition order inputToken outputToken reserve = .ok (some (row, column)) := by
  obtain ⟨position, ran, found, missing⟩ :=
    wellFormed.findReservePosition order inputToken outputToken reserve
  cases position with
  | none => exact absurd holds (missing rfl row column)
  | some position =>
    obtain ⟨rfl, rfl⟩ := contains.single _ _ _ _ _ _ _ holds (found position.1 position.2 rfl)
    exact ran

/-- A cell belongs to one directed reserve. -/
theorem WellFormed.holds_unique {layout : ModelLayout T I} (wellFormed : layout.WellFormed)
    {inputToken outputToken inputToken' outputToken' : I} {reserve reserve' : T} {row : RowIndex}
    {column : ColumnIndex} (holds : layout.Holds inputToken outputToken reserve row column)
    (holds' : layout.Holds inputToken' outputToken' reserve' row column) :
    (inputToken, outputToken, reserve) = (inputToken', outputToken', reserve') := by
  have input := wellFormed.columnInjective _ _ _ holds.indexed holds'.indexed
  have output := wellFormed.rowUnique _ _ _ holds.owned holds'.owned
  have stored := Option.some.inj (holds.stored.symm.trans holds'.stored)
  rw [input, output, stored]

end ModelLayout

/-! ### Weights -/

section Weights

variable {F : Type}

theorem Tensor2.get?_inside {tensor : Tensor2 F} {row column : Nat} (rowBound : row < tensor.rows)
    (columnBound : column < tensor.columns) :
    tensor.get? row column = some (tensor.entry ⟨row, rowBound⟩ ⟨column, columnBound⟩) :=
  dif_pos ⟨rowBound, columnBound⟩

variable [Ring F]

/-- Old entries stay where they are and new ones are cold. -/
structure Tensor2.Extends (old new : Tensor2 F) : Prop where
  rows : old.rows ≤ new.rows
  columns : old.columns ≤ new.columns
  entries : ∀ row < new.rows, ∀ column < new.columns,
    new.get? row column = some ((old.get? row column).getD coldWeight)

theorem Tensor2.extends_refl (tensor : Tensor2 F) : tensor.Extends tensor where
  rows := le_rfl
  columns := le_rfl
  entries := by
    intro row rowBound column columnBound
    rw [get?_inside rowBound columnBound, Option.getD_some]

theorem Tensor2.extends_coldGrow2d (old : Tensor2 F) (newRows newColumns : Nat) :
    old.Extends (coldGrow2d old newRows newColumns) where
  rows := le_max_left _ _
  columns := le_max_left _ _
  entries := fun _ rowBound _ columnBound => get?_inside rowBound columnBound

end Weights

/-! ### Reserve data -/

section Data

variable {F : Type}

/-- The values of a reserve that a model keeps. -/
def shown (value : VirtualReserveValues F) : F × F × F × F :=
  (value.token0, value.token1, value.feeMultiplier, value.maxSwap0)

def ReserveData.get? (data : ReserveData F) (index : Nat) : Option (F × F × F × F) :=
  match data.reservesIn[index]?, data.reservesOut[index]?, data.feeMultiplier[index]?,
    data.maxSwap[index]? with
  | some reserveIn, some reserveOut, some fee, some cap => some (reserveIn, reserveOut, fee, cap)
  | _, _, _, _ => none

theorem ReserveData.get?_of (values : List (VirtualReserveValues F)) (index : Nat) :
    (ReserveData.of values).get? index = values[index]?.map shown := by
  unfold ReserveData.get? ReserveData.of
  simp only [List.getElem?_map]
  cases values[index]? <;> rfl

/-- Every vector has one entry for each cell. -/
def ReserveData.Sized (data : ReserveData F) (length : Nat) : Prop :=
  ∀ values ∈ [data.reservesIn, data.reservesOut, data.feeMultiplier, data.maxSwap],
    values.length = length

theorem ReserveData.write_spec {data : ReserveData F} {length index : Nat}
    (sized : data.Sized length) (inside : index < length) (value : VirtualReserveValues F) :
    ∃ data', data.write index value = .ok data' ∧ data'.Sized length ∧
      data'.get? index = some (shown value) ∧
      ∀ other, other ≠ index → data'.get? other = data.get? other := by
  simp only [Sized, List.forall_mem_cons, List.not_mem_nil, false_implies, implies_true,
    and_true] at sized
  obtain ⟨reservesIn, reservesOut, feeMultiplier, maxSwap⟩ := sized
  refine ⟨_, if_pos ⟨reservesIn ▸ inside, reservesOut ▸ inside, feeMultiplier ▸ inside,
    maxSwap ▸ inside⟩, ?_, ?_, ?_⟩
  · simp [Sized, reservesIn, reservesOut, feeMultiplier, maxSwap]
  · simp [get?, reservesIn, reservesOut, feeMultiplier, maxSwap, inside, shown]
  · intro other different
    simp [get?, List.getElem?_set_ne (Ne.symm different)]

end Data

namespace Model

section

variable {U I F : Type} [Ord I] [TransOrd I] [LawfulEqOrd I] [DecidableEq U] [Ord U] [TransOrd U]
  [LawfulEqOrd U] {layerCount : Nat}

/-- A model shows a snapshot. Its cells have the values of the reserves, its masks mark the
pools that are disabled or not in the snapshot and the bypass of the layout, and its sink
rows are those of the output asset. -/
structure Mirrors (bridges : HashSet (I × I)) (snapshot : List (PoolReserves I U F))
    (disabled : HashSet U) (model : Model U I F layerCount) : Prop where
  values : ∀ reserve ∈ snapshot, ∃ row column,
    (∀ order : RowOrder, model.layout.findReservePosition order reserve.token0 reserve.token1
      reserve.poolId = .ok (some (row, column))) ∧
    model.data.get? (row * model.layout.inputIndexes.size + column) = some (shown reserve.value)
  maskSize : model.block.disabledMask.length =
      model.layout.rows.length * model.layout.inputIndexes.size ∧
    model.block.bypassMask.length = model.layout.rows.length * model.layout.inputIndexes.size
  masked : ∀ row < model.layout.rows.length, ∀ column < model.layout.inputIndexes.size,
    ∃ masked, model.block.disabledMask[row * model.layout.inputIndexes.size + column]? =
        some masked ∧
      (masked = true ↔ ∃ pool, model.layout.cell row column = some pool ∧
        (pool ∈ disabled ∨ pool ∉ snapshot.map (·.poolId)))
  bypassed : ∀ row < model.layout.rows.length, ∀ column < model.layout.inputIndexes.size,
    model.block.bypassMask[row * model.layout.inputIndexes.size + column]? =
      some (decide ((row, column) ∈ model.layout.bypassIndexes bridges))
  sinkDistinct : model.block.layerOutPoolIndexes.Nodup
  sinkRows : ∀ row, row ∈ model.block.layerOutPoolIndexes ↔
    row ∈ model.layout.rowsOf model.outputAsset
  sinkMasked : model.block.layerOutDisabledMask =
    selectRows model.layout.inputIndexes.size model.block.disabledMask
      model.block.layerOutPoolIndexes
  sinkBypassed : model.block.layerOutBypassMask =
    selectRows model.layout.inputIndexes.size model.block.bypassMask
      model.block.layerOutPoolIndexes

/-- What a model keeps of the one it is reconciled from: cells, sink rows and weights stay,
and new weights are cold. -/
structure CarriesOver [Ring F] (model model' : Model U I F layerCount) : Prop where
  layout : model.layout.Grows model'.layout
  initAsset : model'.block.initAssetIndex = model.block.initAssetIndex
  outputAsset : model'.outputAsset = model.outputAsset
  sinkRows : model.block.layerOutPoolIndexes <+: model'.block.layerOutPoolIndexes
  layerIn : model.block.layerIn.weights.Extends model'.block.layerIn.weights
  layers : ∀ layer, (model.block.layers layer).weights.Extends (model'.block.layers layer).weights
  layerOut : model.block.layerOut.weights.Extends model'.block.layerOut.weights

omit [Ord I] [TransOrd I] [LawfulEqOrd I] in
theorem isMasked_iff {snapshot : List (PoolReserves I U F)} {disabled : HashSet U}
    {cell : Option U} :
    isMasked (HashSet.collect (snapshot.map (·.poolId))) disabled cell = true ↔
      ∃ pool, cell = some pool ∧ (pool ∈ disabled ∨ pool ∉ snapshot.map (·.poolId)) := by
  cases cell with
  | none => simp [isMasked]
  | some pool => simp [isMasked]

/-! ### Building -/

omit [LawfulEqOrd U] in
theorem initRoute_mirrors [DecidableEq I] [Ring F] {order : LayoutOrder I}
    {weights : Weights F layerCount} {sourceAsset outputAsset : I}
    {poolReserves : List (PoolReserves I U F)} {bridges : HashSet (I × I)} {disabled : HashSet U}
    (distinct : (poolReserves.map reserveKey).Nodup) {model : Model U I F layerCount}
    (built : initRoute order weights sourceAsset outputAsset poolReserves bridges disabled =
      .ok model) :
    model.Mirrors bridges poolReserves disabled ∧
      ∀ key, key ∈ poolReserves.map reserveKey ↔
        ∃ row column, model.layout.Holds key.1 key.2.1 key.2.2 row column := by
  have valid := initRoute_valid distinct built
  let insertions := poolReserves.map (insertionOf order.rows
    (fun reserves => (reserves.poolId, reserves.value)))
  have keys : (insertions.map ModelLayout.Insertion.key).map
      (fun key => (key.1, key.2.1, key.2.2.1)) = poolReserves.map reserveKey := by
    simp only [insertions, List.map_map]
    rfl
  have distinct' : ([] ++ insertions.map ModelLayout.Insertion.key).Nodup := by
    rw [List.nil_append]
    rw [← keys] at distinct
    exact distinct.of_map _
  obtain ⟨layout, ran, wellFormed, contains, -⟩ :=
    ModelLayout.new_wellFormed.insertAll ModelLayout.new_contains distinct'
  rw [List.nil_append] at contains
  rw [insertAll_insertionOf] at ran
  have contains' := contains.mapReserves Prod.fst (keys ▸ distinct)
  rw [keys] at contains'
  unfold initRoute at built
  rw [ran] at built
  simp only [bind, Except.bind] at built
  split at built
  · cases built
  · cases built
  · obtain ⟨assetIndexes, -, built⟩ := Except.bind_eq_ok_iff.mp built
    obtain rfl := Except.ok.inj built
    have rowBounded : ∀ row < (layout.mapReserves Prod.fst).rows.length, row < layout.rows.length :=
      fun row bound => by rwa [ModelLayout.mapReserves, List.length_map] at bound
    refine ⟨?_, ?_⟩
    · refine ⟨?_, ?_, ?_, ?_, valid.sinkDistinct, valid.sinkRows, rfl, rfl⟩
      · intro reserve listed
        have key : (insertionOf order.rows (fun reserves => (reserves.poolId, reserves.value))
            reserve).key ∈ insertions.map ModelLayout.Insertion.key :=
          List.mem_map_of_mem (List.mem_map_of_mem listed)
        obtain ⟨row, column, holds⟩ := contains.held _ key
        have held : (layout.mapReserves Prod.fst).Holds reserve.token0 reserve.token1
            reserve.poolId row column :=
          ⟨holds.indexed, holds.owned, by
            rw [ModelLayout.cell_mapReserves, holds.stored, Option.map_some]
            rfl⟩
        refine ⟨row, column, valid.wellFormed.find_of_holds contains' held, ?_⟩
        have entry := wellFormed.getElem?_cells (wellFormed.rowBound _ _ holds.owned)
          (wellFormed.columnBound _ _ holds.indexed)
        rw [holds.stored] at entry
        change (ReserveData.of _).get? (row * layout.inputIndexes.size + column) = _
        rw [ReserveData.get?_of, List.getElem?_map, entry]
        rfl
      · simp only [List.length_map, wellFormed.length_cells]
        exact ⟨by simp [ModelLayout.mapReserves], by simp [ModelLayout.mapReserves]⟩
      · intro row rowBound column columnBound
        have entry := wellFormed.getElem?_cells (rowBounded row rowBound) columnBound
        have mapped := ModelLayout.cell_mapReserves layout Prod.fst row column
        cases stored : layout.cell row column with
        | none =>
          rw [stored] at entry mapped
          refine ⟨false, ?_, ?_⟩
          · change (List.map _ layout.cells)[row * layout.inputIndexes.size + column]? = _
            rw [List.getElem?_map, entry]
            rfl
          · refine iff_of_false Bool.false_ne_true ?_
            rintro ⟨pool, held, -⟩
            exact Option.some_ne_none pool (held.symm.trans mapped)
        | some reserve =>
          rw [stored] at entry mapped
          -- Every pool of the layout is in the first snapshot.
          obtain ⟨inputToken, outputToken, holds⟩ := wellFormed.holds_of_cell stored
          have listed := contains.listed _ _ _ _ _ holds
          obtain ⟨insertion, inserted, key⟩ := List.mem_map.mp listed
          obtain ⟨pool, member, rfl⟩ := List.mem_map.mp inserted
          have present : reserve.1 ∈ poolReserves.map (·.poolId) := by
            have stored := congrArg (fun key => key.2.2.1) key
            exact List.mem_map.mpr ⟨pool, member, stored⟩
          refine ⟨decide (reserve.1 ∈ disabled), ?_, ?_⟩
          · change (List.map _ layout.cells)[row * layout.inputIndexes.size + column]? = _
            rw [List.getElem?_map, entry]
            rfl
          · rw [decide_eq_true_iff]
            constructor
            · intro off
              exact ⟨reserve.1, mapped, .inl off⟩
            · rintro ⟨other, held, off⟩
              obtain rfl := Option.some.inj (mapped.symm.trans held)
              exact off.resolve_right (not_not_intro present)
      · intro row rowBound column columnBound
        have entry := wellFormed.getElem?_cells (rowBounded row rowBound) columnBound
        change (List.map _ layout.cells)[row * layout.inputIndexes.size + column]? = _
        rw [List.getElem?_map, entry]
        rfl
    · intro key
      constructor
      · exact contains'.held key
      · rintro ⟨row, column, holds⟩
        exact contains'.listed _ _ _ _ _ holds

/-! ### Refreshing -/

omit [LawfulEqOrd I] [DecidableEq U] [Ord U] [TransOrd U] [LawfulEqOrd U] in
/-- The places of distinct reserves are distinct. -/
theorem nodup_places {layout : ModelLayout U I} (wellFormed : layout.WellFormed)
    {reserves : List (PoolReserves I U F)} (distinct : (reserves.map reserveKey).Nodup)
    {place : PoolReserves I U F → RowIndex × ColumnIndex}
    (placed : ∀ reserve ∈ reserves, layout.Holds reserve.token0 reserve.token1 reserve.poolId
      (place reserve).1 (place reserve).2) : (reserves.map place).Nodup := by
  rw [List.Nodup, List.pairwise_map] at distinct ⊢
  refine distinct.imp_of_mem ?_
  intro reserve reserve' listed listed' different same
  have holds' := placed reserve' listed'
  rw [← same] at holds'
  exact different (wellFormed.holds_unique (placed reserve listed) holds')

omit [Ord U] [TransOrd U] [LawfulEqOrd U] in
/-- In place, every reserve of the snapshot is written to its own cell. -/
theorem refreshValues_written {layout : ModelLayout U I} (wellFormed : layout.WellFormed)
    (inhabited : layout.rows ≠ []) {keys : List (I × I × U)} (contains : layout.Contains keys)
    (order : RowOrder) {reserves : List (PoolReserves I U F)}
    (distinct : (reserves.map reserveKey).Nodup)
    (held : ∀ reserve ∈ reserves, ∃ row column,
      layout.Holds reserve.token0 reserve.token1 reserve.poolId row column)
    {data : ReserveData F} (sized : data.Sized (layout.rows.length * layout.inputIndexes.size)) :
    ∃ data', reserves.foldlM (refreshValue order layout) data = .ok data' ∧
      ∀ reserve ∈ reserves, ∃ row column,
        layout.Holds reserve.token0 reserve.token1 reserve.poolId row column ∧
          data'.get? (row * layout.inputIndexes.size + column) = some (shown reserve.value) := by
  choose! row column placed using held
  have bounded : ∀ reserve ∈ reserves, row reserve * layout.inputIndexes.size + column reserve <
      layout.rows.length * layout.inputIndexes.size := by
    intro reserve listed
    have rowBound := wellFormed.rowBound _ _ (placed reserve listed).owned
    have columnBound := wellFormed.columnBound _ _ (placed reserve listed).indexed
    calc row reserve * layout.inputIndexes.size + column reserve
        < row reserve * layout.inputIndexes.size + layout.inputIndexes.size :=
          Nat.add_lt_add_left columnBound _
      _ = (row reserve + 1) * layout.inputIndexes.size := (Nat.succ_mul _ _).symm
      _ ≤ layout.rows.length * layout.inputIndexes.size := Nat.mul_le_mul_right _ rowBound
  let place := fun reserve => row reserve * layout.inputIndexes.size + column reserve
  have places : (reserves.map place).Nodup := by
    have pairs := @nodup_places U I F _ _ layout wellFormed reserves distinct
      (fun reserve => (row reserve, column reserve)) placed
    rw [List.Nodup, List.pairwise_map] at pairs ⊢
    refine pairs.imp_of_mem ?_
    intro reserve reserve' listed listed' different same
    obtain ⟨rows, columns⟩ := rowMajor_injective
      (wellFormed.columnBound _ _ (placed reserve listed).indexed)
      (wellFormed.columnBound _ _ (placed reserve' listed').indexed) same
    exact different (Prod.ext rows columns)
  have each : ∀ reserve ∈ reserves, ∀ data : ReserveData F,
      data.Sized (layout.rows.length * layout.inputIndexes.size) →
      ∃ data', refreshValue order layout data reserve = .ok data' ∧
        data'.Sized (layout.rows.length * layout.inputIndexes.size) ∧
        data'.get? (place reserve) = some (shown reserve.value) ∧
        ∀ index, index ≠ place reserve → data'.get? index = data.get? index := by
    intro reserve listed data sized
    have found := wellFormed.find_of_holds contains (placed reserve listed) order
    have step : refreshValue order layout data reserve =
        data.write (place reserve) reserve.value := by
      simp only [refreshValue, found, wellFormed.shape inhabited]
      rfl
    rw [step]
    exact ReserveData.write_spec sized (bounded reserve listed) reserve.value
  obtain ⟨data', ran, -, written, -⟩ := @Except.foldlM_writes _ _ _ _ _ _ place
    (fun reserve => shown reserve.value) ReserveData.get? _ _ each places data sized
  exact ⟨data', ran, fun reserve listed =>
    ⟨row reserve, column reserve, placed reserve listed, written reserve listed⟩⟩

theorem Valid.refresh_mirrors {model model' : Model U I F layerCount} (valid : model.Valid)
    {bridges : HashSet (I × I)} {snapshot reserves : List (PoolReserves I U F)}
    {before disabled : HashSet U} (mirrors : model.Mirrors bridges snapshot before)
    (distinct : (reserves.map reserveKey).Nodup) (order : LayoutOrder I)
    (held : ∀ reserve ∈ reserves, ∃ row column,
      model.layout.Holds reserve.token0 reserve.token1 reserve.poolId row column)
    (ran : model.refresh order reserves (HashSet.collect (reserves.map (·.poolId))) disabled =
      .ok model') :
    model'.Mirrors bridges reserves disabled ∧ model'.layout = model.layout ∧
      model'.block.layerIn = model.block.layerIn ∧ model'.block.layers = model.block.layers ∧
      model'.block.layerOut = model.block.layerOut := by
  obtain ⟨keys, -, contains⟩ := valid.contains
  obtain ⟨data, wrote, written⟩ := refreshValues_written valid.wellFormed valid.inhabited contains
    order.rows distinct held valid.dataLength
  rw [Model.refresh, wrote] at ran
  obtain rfl := Except.ok.inj ran
  have shape := valid.wellFormed.shape valid.inhabited
  refine ⟨⟨?_, ?_, ?_, mirrors.bypassed, mirrors.sinkDistinct, mirrors.sinkRows, ?_,
    mirrors.sinkBypassed⟩, rfl, rfl, rfl, rfl⟩
  · intro reserve listed
    obtain ⟨row, column, holds, shows⟩ := written reserve listed
    exact ⟨row, column, valid.wellFormed.find_of_holds contains holds, shows⟩
  · refine ⟨?_, mirrors.maskSize.2⟩
    change (List.map _ model.layout.rows.flatten).length = _
    rw [List.length_map, valid.wellFormed.length_flatten]
  · intro row rowBound column columnBound
    refine ⟨_, ?_, isMasked_iff⟩
    change (List.map _ model.layout.rows.flatten)[row * model.layout.inputIndexes.size + column]? = _
    rw [List.getElem?_map, valid.wellFormed.getElem?_flatten rowBound columnBound]
    rfl
  · change selectRows model.layout.shape.2 _ _ = _
    rw [shape]

/-! ### Growing -/

omit [Ord U] [TransOrd U] [LawfulEqOrd U] in
theorem positionValues_written {layout : ModelLayout U I} (wellFormed : layout.WellFormed)
    {keys : List (I × I × U)} (contains : layout.Contains keys) (order : RowOrder)
    {reserves : List (PoolReserves I U F)} (distinct : (reserves.map reserveKey).Nodup)
    (held : ∀ reserve ∈ reserves, ∃ row column,
      layout.Holds reserve.token0 reserve.token1 reserve.poolId row column) :
    ∃ values, positionValues order layout reserves = .ok values ∧
      ∀ reserve ∈ reserves, ∃ row column,
        layout.Holds reserve.token0 reserve.token1 reserve.poolId row column ∧
          values[(row, column)]? = some reserve.value := by
  choose! row column placed using held
  let place := fun reserve => (row reserve, column reserve)
  have places := @nodup_places U I F _ _ layout wellFormed reserves distinct place placed
  have ran : ∃ values, positionValues order layout reserves = .ok values ∧ True ∧
      (∀ reserve ∈ reserves, values[place reserve]? = some reserve.value) ∧
      ∀ position ∉ reserves.map place, values[position]? = none := by
    unfold positionValues
    refine @Except.foldlM_writes Fault (HashMap (RowIndex × ColumnIndex) (VirtualReserveValues F))
      _ _ _ _ place (·.value) (fun values position => values[position]?) (fun _ => True) reserves
      ?_ places ∅ trivial
    intro reserve listed values _
    have found := wellFormed.find_of_holds contains (placed reserve listed) order
    refine ⟨values.insert (place reserve) reserve.value, ?_, trivial, ?_, ?_⟩
    · rw [found]
      rfl
    · rw [HashMap.getElem?_insert, if_pos rfl]
    · intro position different
      rw [HashMap.getElem?_insert, if_neg different]
  obtain ⟨values, ran, -, written, -⟩ := ran
  exact ⟨values, ran, fun reserve listed =>
    ⟨row reserve, column reserve, placed reserve listed, written reserve listed⟩⟩

omit [LawfulEqOrd I] [Ord U] [TransOrd U] [LawfulEqOrd U] in
/-- What is not new has a cell. -/
theorem newReserves_known {layout : ModelLayout U I} (wellFormed : layout.WellFormed)
    (order : RowOrder) {reserves fresh : List (PoolReserves I U F)}
    (selected : newReserves order layout reserves = .ok fresh) :
    ∀ reserve ∈ reserves, reserve ∈ fresh ∨ ∃ row column,
      layout.Holds reserve.token0 reserve.token1 reserve.poolId row column := by
  induction reserves generalizing fresh with
  | nil => simp
  | cons reserve reserves inductionHypothesis =>
    unfold newReserves at selected
    obtain ⟨position, found, selected⟩ := Except.bind_eq_ok_iff.mp selected
    obtain ⟨later, rest, selected⟩ := Except.bind_eq_ok_iff.mp selected
    obtain rfl := Except.pure_eq_ok_iff.mp selected
    obtain ⟨position', found', held, -⟩ := wellFormed.findReservePosition order
      reserve.token0 reserve.token1 reserve.poolId
    obtain rfl := Except.ok.inj (found.symm.trans found')
    refine List.forall_mem_cons.mpr ⟨?_, ?_⟩
    · cases position with
      | none => exact .inl List.mem_cons_self
      | some position => exact .inr ⟨_, _, held position.1 position.2 rfl⟩
    · intro other listed
      refine (inductionHypothesis rest other listed).imp_left ?_
      intro member
      split
      · exact List.mem_cons_of_mem _ member
      · exact member

/-- The layout of a grown model holds the old reserves and the new ones. -/
structure Appended (layout : ModelLayout U I) (fresh : List (PoolReserves I U F))
    (layout' : ModelLayout U I) : Prop where
  wellFormed : layout'.WellFormed
  grows : layout.Grows layout'
  contains : ∃ keys, layout'.Contains keys
  inhabited : layout'.rows ≠ []
  known : ∀ key : I × I × U, (∃ row column, layout'.Holds key.1 key.2.1 key.2.2 row column) ↔
    (∃ row column, layout.Holds key.1 key.2.1 key.2.2 row column) ∨ key ∈ fresh.map reserveKey

omit [DecidableEq U] [Ord U] [TransOrd U] [LawfulEqOrd U] in
theorem Valid.appended [DecidableEq I] {model : Model U I F layerCount} (valid : model.Valid)
    (order : RowOrder) {fresh : List (PoolReserves I U F)}
    (distinct : (fresh.map reserveKey).Nodup)
    (absent : ∀ reserve ∈ fresh, ∀ row column,
      ¬ model.layout.Holds reserve.token0 reserve.token1 reserve.poolId row column)
    {layout : ModelLayout U I}
    (ran : fresh.foldlM (fun (layout : ModelLayout U I) reserve =>
      layout.withReserveValues order reserve.token0 reserve.token1 reserve.poolId) model.layout =
        .ok layout) : Appended model.layout fresh layout := by
  obtain ⟨keys, keysDistinct, contains⟩ := valid.contains
  have insertKeys : (fresh.map (insertionOf order (·.poolId))).map ModelLayout.Insertion.key =
      fresh.map reserveKey := by
    rw [List.map_map]
    rfl
  have distinct' : (keys ++ (fresh.map (insertionOf order (·.poolId))).map
      ModelLayout.Insertion.key).Nodup := by
    rw [insertKeys, List.nodup_append]
    refine ⟨keysDistinct, distinct, ?_⟩
    intro key old key' new same
    obtain ⟨reserve, listed, rfl⟩ := List.mem_map.mp new
    obtain ⟨row, column, holds⟩ := contains.held key old
    rw [same] at holds
    exact absent reserve listed row column holds
  obtain ⟨layout', ran', wellFormed, contains', grows⟩ :=
    valid.wellFormed.insertAll contains distinct'
  rw [insertAll_insertionOf] at ran'
  obtain rfl := Except.ok.inj (ran.symm.trans ran')
  rw [insertKeys] at contains'
  refine ⟨wellFormed, grows, ⟨_, contains'⟩, ?_, ?_⟩
  · intro empty
    have height := grows.height
    rw [empty] at height
    exact valid.inhabited (List.length_eq_zero_iff.mp (Nat.le_zero.mp height))
  · intro key
    constructor
    · rintro ⟨row, column, holds⟩
      refine (List.mem_append.mp (contains'.listed _ _ _ _ _ holds)).imp_left ?_
      exact contains.held key
    · rintro (⟨row, column, holds⟩ | new)
      · exact ⟨row, column, holds.mono grows⟩
      · exact contains'.held key (List.mem_append_right _ new)

theorem Valid.grow_mirrors [DecidableEq I] [Ring F] {model model' : Model U I F layerCount}
    (valid : model.Valid) (order : LayoutOrder I) {reserves fresh : List (PoolReserves I U F)}
    (distinct : (reserves.map reserveKey).Nodup) (sublist : fresh.Sublist reserves)
    (absent : ∀ reserve ∈ fresh, ∀ row column,
      ¬ model.layout.Holds reserve.token0 reserve.token1 reserve.poolId row column)
    (known : ∀ reserve ∈ reserves, reserve ∈ fresh ∨ ∃ row column,
      model.layout.Holds reserve.token0 reserve.token1 reserve.poolId row column)
    (bridges : HashSet (I × I)) (disabled : HashSet U) (valid' : model'.Valid)
    (ran : model.grow order reserves fresh bridges
      (HashSet.collect (reserves.map (·.poolId))) disabled = .ok model') :
    model'.Mirrors bridges reserves disabled ∧ Appended model.layout fresh model'.layout ∧
      model.CarriesOver model' := by
  unfold Model.grow at ran
  obtain ⟨layout, grown, ran⟩ := Except.bind_eq_ok_iff.mp ran
  have appended := valid.appended order.rows (distinct.sublist (sublist.map reserveKey)) absent grown
  have wellFormed := appended.wellFormed
  obtain ⟨keys, contains⟩ := appended.contains
  have held : ∀ reserve ∈ reserves, ∃ row column,
      layout.Holds reserve.token0 reserve.token1 reserve.poolId row column := by
    intro reserve listed
    refine (appended.known (reserveKey reserve)).mpr ?_
    exact (known reserve listed).symm.imp_right (fun new => List.mem_map_of_mem new)
  obtain ⟨values, positioned, written⟩ :=
    positionValues_written wellFormed contains order.rows distinct held
  simp only [wellFormed.shape appended.inhabited, positioned] at ran
  obtain ⟨_, valued, ran⟩ := Except.bind_eq_ok_iff.mp ran
  obtain rfl := Except.ok.inj valued
  obtain ⟨tokens, -, ran⟩ := Except.bind_eq_ok_iff.mp ran
  obtain ⟨assetIndexes, -, ran⟩ := Except.bind_eq_ok_iff.mp ran
  obtain rfl := Except.pure_eq_ok_iff.mp ran
  refine ⟨⟨?_, ⟨?_, ?_⟩, ?_, ?_, valid'.sinkDistinct, valid'.sinkRows, rfl, rfl⟩, appended,
    ⟨appended.grows, rfl, rfl, List.prefix_append _ _, ?_, fun layer => ?_, ?_⟩⟩
  · intro reserve listed
    obtain ⟨row, column, holds, stored⟩ := written reserve listed
    refine ⟨row, column, wellFormed.find_of_holds contains holds, ?_⟩
    have entry := wellFormed.getElem?_cells (wellFormed.rowBound _ _ holds.owned)
      (wellFormed.columnBound _ _ holds.indexed)
    change (ReserveData.of _).get? (row * layout.inputIndexes.size + column) = _
    rw [ReserveData.get?_of, List.getElem?_map, entry, Option.map_some, stored]
    rfl
  · change (List.map _ layout.cells).length = _
    rw [List.length_map, wellFormed.length_cells]
  · change (List.map _ layout.cells).length = _
    rw [List.length_map, wellFormed.length_cells]
  · intro row rowBound column columnBound
    refine ⟨_, ?_, isMasked_iff⟩
    change (List.map _ layout.cells)[row * layout.inputIndexes.size + column]? = _
    rw [List.getElem?_map, wellFormed.getElem?_cells rowBound columnBound]
    rfl
  · intro row rowBound column columnBound
    change (List.map _ layout.cells)[row * layout.inputIndexes.size + column]? = _
    rw [List.getElem?_map, wellFormed.getElem?_cells rowBound columnBound]
    rfl
  · exact Tensor2.extends_coldGrow2d _ _ _
  · exact Tensor2.extends_coldGrow2d _ _ _
  · exact Tensor2.extends_coldGrow2d _ _ _

/-! ### Sessions -/

/-- The models of a session with fixed bridges, with every directed pool seen so far and
the latest snapshot and disabled set. Weights may be trained at any time. -/
inductive Session [DecidableEq I] [Ring F] (bridges : HashSet (I × I)) :
    List (I × I × U) → List (PoolReserves I U F) → HashSet U → Model U I F layerCount → Prop
  | built (order : LayoutOrder I) (weights : Weights F layerCount) (sourceAsset outputAsset : I)
      {snapshot : List (PoolReserves I U F)} {disabled : HashSet U}
      {model : Model U I F layerCount} :
      (snapshot.map reserveKey).Nodup →
      initRoute order weights sourceAsset outputAsset snapshot bridges disabled = .ok model →
      Session bridges (snapshot.map reserveKey) snapshot disabled model
  | trained (weights : Weights F layerCount) {seen : List (I × I × U)}
      {snapshot : List (PoolReserves I U F)} {disabled : HashSet U}
      {model : Model U I F layerCount} :
      Session bridges seen snapshot disabled model →
      Session bridges seen snapshot disabled (model.retrained weights)
  | reconciled (order : LayoutOrder I) {seen : List (I × I × U)}
      {snapshot reserves : List (PoolReserves I U F)} {before disabled : HashSet U}
      {model model' : Model U I F layerCount} {outcome : ReconcileOutcome} :
      Session bridges seen snapshot before model → (reserves.map reserveKey).Nodup →
      model.reconcile order reserves bridges disabled = .ok (model', outcome) →
      Session bridges (seen ++ reserves.map reserveKey) reserves disabled model'

/-- One step of a session. -/
theorem Valid.reconcile_mirrors_of [DecidableEq I] [Ring F] {model : Model U I F layerCount}
    (valid : model.Valid) {bridges : HashSet (I × I)} {snapshot : List (PoolReserves I U F)}
    {before : HashSet U} (mirrors : model.Mirrors bridges snapshot before) {seen : List (I × I × U)}
    (knows : ∀ key, key ∈ seen ↔ ∃ row column, model.layout.Holds key.1 key.2.1 key.2.2 row column)
    (order : LayoutOrder I) {reserves : List (PoolReserves I U F)}
    (distinct : (reserves.map reserveKey).Nodup) (disabled : HashSet U) :
    ∃ model' outcome, model.reconcile order reserves bridges disabled = .ok (model', outcome) ∧
      model'.Valid ∧ model'.Mirrors bridges reserves disabled ∧ model.CarriesOver model' ∧
      (outcome = .grew ↔ ∃ reserve ∈ reserves, reserveKey reserve ∉ seen) ∧
      ∀ key, key ∈ seen ++ reserves.map reserveKey ↔
        ∃ row column, model'.layout.Holds key.1 key.2.1 key.2.2 row column := by
  obtain ⟨fresh, selected, sublist, absent, present⟩ :=
    newReserves_spec valid.wellFormed order.rows reserves
  cases fresh with
  | nil =>
    have held := present rfl
    obtain ⟨model', ran, valid', aligned⟩ := valid.refresh order held
      (HashSet.collect (reserves.map (·.poolId))) disabled
    obtain ⟨mirrors', layout, layerIn, layers, layerOut⟩ :=
      valid.refresh_mirrors mirrors distinct order held ran
    have all : ∀ reserve ∈ reserves, reserveKey reserve ∈ seen := fun reserve listed =>
      (knows (reserveKey reserve)).mpr (held reserve listed)
    refine ⟨model', .refreshed, ?_, valid', mirrors', ⟨aligned.layout, aligned.initAsset,
      aligned.outputAsset, aligned.sinkRows, ?_, fun layer => ?_, ?_⟩, ?_, ?_⟩
    · rw [Model.reconcile, selected]
      simp only [bind, Except.bind, List.isEmpty_nil, if_true, ran]
      rfl
    · rw [layerIn]
      exact Tensor2.extends_refl _
    · rw [layers]
      exact Tensor2.extends_refl _
    · rw [layerOut]
      exact Tensor2.extends_refl _
    · refine iff_of_false (by decide) ?_
      rintro ⟨reserve, listed, unseen⟩
      exact unseen (all reserve listed)
    · intro key
      rw [layout, ← knows, List.mem_append, or_iff_left_of_imp]
      intro listed
      obtain ⟨reserve, member, rfl⟩ := List.mem_map.mp listed
      exact all reserve member
  | cons first fresh =>
    obtain ⟨model', ran, valid', -⟩ := valid.grow order reserves
      (distinct.sublist (sublist.map reserveKey)) absent bridges
      (HashSet.collect (reserves.map (·.poolId))) disabled
    have known := newReserves_known valid.wellFormed order.rows selected
    obtain ⟨mirrors', appended, carries⟩ := valid.grow_mirrors order distinct sublist absent known
      bridges disabled valid' ran
    refine ⟨model', .grew, ?_, valid', mirrors', carries, ?_, ?_⟩
    · rw [Model.reconcile, selected]
      simp only [bind, Except.bind, List.isEmpty_cons, Bool.false_eq_true, if_false, ran]
      rfl
    · refine iff_of_true rfl ⟨first, sublist.subset List.mem_cons_self, ?_⟩
      intro seenBefore
      obtain ⟨row, column, holds⟩ := (knows _).mp seenBefore
      exact absent first List.mem_cons_self row column holds
    · intro key
      rw [appended.known, ← knows, List.mem_append]
      constructor
      · rintro (old | listed)
        · exact .inl old
        · obtain ⟨reserve, member, rfl⟩ := List.mem_map.mp listed
          refine (known reserve member).symm.imp (knows _).mpr ?_
          exact fun new => List.mem_map_of_mem new
      · exact Or.imp_right (fun new => (sublist.map reserveKey).subset new)

omit [LawfulEqOrd I] [LawfulEqOrd U] in
/-- Training changes nothing that a model shows. -/
theorem Mirrors.retrained {model : Model U I F layerCount} {bridges : HashSet (I × I)}
    {snapshot : List (PoolReserves I U F)} {disabled : HashSet U}
    (mirrors : model.Mirrors bridges snapshot disabled) (weights : Weights F layerCount) :
    (model.retrained weights).Mirrors bridges snapshot disabled :=
  ⟨mirrors.values, mirrors.maskSize, mirrors.masked, mirrors.bypassed, mirrors.sinkDistinct,
    mirrors.sinkRows, mirrors.sinkMasked, mirrors.sinkBypassed⟩

theorem Session.invariant [DecidableEq I] [Ring F] {bridges : HashSet (I × I)}
    {seen : List (I × I × U)} {snapshot : List (PoolReserves I U F)} {disabled : HashSet U}
    {model : Model U I F layerCount} (session : Session bridges seen snapshot disabled model) :
    model.Valid ∧ model.Mirrors bridges snapshot disabled ∧
      ∀ key, key ∈ seen ↔ ∃ row column, model.layout.Holds key.1 key.2.1 key.2.2 row column := by
  induction session with
  | built order weights sourceAsset outputAsset distinct built =>
    exact ⟨initRoute_valid distinct built, initRoute_mirrors distinct built⟩
  | trained weights _ inductionHypothesis =>
    obtain ⟨valid, mirrors, knows⟩ := inductionHypothesis
    exact ⟨valid.retrained weights, mirrors.retrained weights, knows⟩
  | reconciled order _ distinct ran inductionHypothesis =>
    obtain ⟨valid, mirrors, knows⟩ := inductionHypothesis
    obtain ⟨model', outcome, ran', valid', mirrors', -, -, knows'⟩ :=
      valid.reconcile_mirrors_of mirrors knows order distinct _
    obtain ⟨rfl, -⟩ := Prod.mk.inj (Except.ok.inj (ran.symm.trans ran'))
    exact ⟨valid', mirrors', knows'⟩

/-- At every point of a session the model shows the latest snapshot, and reconciling it with
a next one succeeds, shows that one, carries the weights over and grows exactly for a
directed pool that was never seen. -/
theorem reconcile_mirrors [DecidableEq I] [Ring F] {bridges : HashSet (I × I)}
    {seen : List (I × I × U)} {snapshot : List (PoolReserves I U F)} {disabled : HashSet U}
    {model : Model U I F layerCount} (session : Session bridges seen snapshot disabled model) :
    model.Mirrors bridges snapshot disabled ∧
      ∀ (order : LayoutOrder I) (reserves : List (PoolReserves I U F)) (disabled' : HashSet U),
        (reserves.map reserveKey).Nodup →
          ∃ model' outcome, model.reconcile order reserves bridges disabled' =
              .ok (model', outcome) ∧
            model'.Mirrors bridges reserves disabled' ∧ model.CarriesOver model' ∧ model'.Valid ∧
            (outcome = .grew ↔ ∃ reserve ∈ reserves, reserveKey reserve ∉ seen) := by
  obtain ⟨valid, mirrors, knows⟩ := session.invariant
  refine ⟨mirrors, fun order reserves disabled' distinct => ?_⟩
  obtain ⟨model', outcome, ran, valid', mirrors', carries, grew, -⟩ :=
    valid.reconcile_mirrors_of mirrors knows order distinct disabled'
  exact ⟨model', outcome, ran, mirrors', carries, valid', grew⟩

end

end Model

/-- A pool that comes next to another one. -/
theorem reconcile_mirrors_joined : ∃ model : Model Nat Nat ℚ 1, firstModel = .ok model ∧
    ∃ model' outcome,
      model.reconcile ascendingLayoutOrder (bothWays 8 0 1) ∅ ∅ = .ok (model', outcome) ∧
        model'.Mirrors ∅ (bothWays 8 0 1) ∅ ∧ model.CarriesOver model' ∧ outcome = .grew := by
  obtain ⟨model, built⟩ := firstModel_ok
  obtain ⟨-, next⟩ := Model.reconcile_mirrors (.built _ _ _ _ (by decide) built)
  obtain ⟨model', outcome, ran, mirrors, carries, -, grew⟩ :=
    next ascendingLayoutOrder (bothWays 8 0 1) ∅ (by decide)
  exact ⟨model, built, model', outcome, ran, mirrors, carries, grew.mpr (by decide)⟩

end ArmchairAnalyst.Optimization
