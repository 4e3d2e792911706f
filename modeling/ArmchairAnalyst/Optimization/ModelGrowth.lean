import ArmchairAnalyst.Optimization.LayoutInvariant
import ArmchairAnalyst.Optimization.Model

/-!
# The growth of a model

Whatever snapshots a model is reconciled with, its layout keeps every pool in its cell,
and the trained weights stay on the pools they were trained for.
-/

namespace ArmchairAnalyst.Optimization

open Std (TransOrd LawfulEqOrd)

/-! ### Writing rows -/

namespace ModelLayout

theorem foldlM_writeRow {A V : Type} (row : A → RowIndex) (value : A → V) {writes : List A}
    {values : List V} (bounded : ∀ write ∈ writes, row write < values.length) :
    ∃ result, writes.foldlM (fun values write => writeRow values (row write) (value write)) values =
        .ok result ∧ result.length = values.length ∧
      ∀ index, (∃ write ∈ writes, row write = index ∧ result[index]? = some (value write)) ∨
        ((∀ write ∈ writes, row write ≠ index) ∧ result[index]? = values[index]?) := by
  induction writes generalizing values with
  | nil => exact ⟨values, rfl, rfl, fun index => .inr ⟨by simp, rfl⟩⟩
  | cons write writes inductionHypothesis =>
    have inside := bounded write List.mem_cons_self
    have step : writeRow values (row write) (value write) =
        .ok (values.set (row write) (value write)) := if_pos inside
    obtain ⟨result, ran, length, lookup⟩ := @inductionHypothesis
      (values.set (row write) (value write)) (fun other membership => by
        rw [List.length_set]
        exact bounded other (List.mem_cons_of_mem _ membership))
    rw [List.length_set] at length
    refine ⟨result, by rw [List.foldlM_cons, step]; exact ran, length, ?_⟩
    intro index
    rcases lookup index with ⟨later, membership, same, found⟩ | ⟨elsewhere, found⟩
    · exact .inl ⟨later, List.mem_cons_of_mem _ membership, same, found⟩
    · by_cases here : row write = index
      · subst here
        exact .inl ⟨write, List.mem_cons_self, rfl, by
          rw [found, List.getElem?_set_self inside]⟩
      · refine .inr ⟨?_, by rw [found, List.getElem?_set_ne here]⟩
        intro other membership
        rcases List.mem_cons.mp membership with rfl | later
        · exact here
        · exact elsewhere other later

theorem mapM_id_of_isSome {A : Type} {tokens : List (Option A)}
    (known : ∀ token ∈ tokens, token.isSome) :
    ∃ values, tokens.mapM id = some values ∧ tokens = values.map some := by
  induction tokens with
  | nil => exact ⟨[], rfl, rfl⟩
  | cons token tokens inductionHypothesis =>
    obtain ⟨value, rfl⟩ := Option.isSome_iff_exists.mp (known token List.mem_cons_self)
    obtain ⟨values, ran, same⟩ :=
      inductionHypothesis (fun other membership => known other (List.mem_cons_of_mem _ membership))
    exact ⟨value :: values, by rw [List.mapM_cons, ran]; rfl, by rw [same]; rfl⟩

section

variable {T I : Type} [Ord I] [TransOrd I] [LawfulEqOrd I]

theorem mem_ownedRows (layout : ModelLayout T I) (token : I) (row : RowIndex) :
    (token, row) ∈ layout.ownedRows ↔ row ∈ layout.rowsOf token := by
  simp only [ownedRows, List.mem_flatMap, List.mem_map, Prod.mk.injEq]
  constructor
  · rintro ⟨entry, listed, row', owned, rfl, rfl⟩
    rw [HashMap.mem_toList_iff] at listed
    rw [rowsOf, listed]
    exact Std.ExtTreeSet.mem_toList.mp owned
  · intro owned
    unfold rowsOf at owned
    cases found : layout.outputIndexes[token]? with
    | none => simp [found] at owned
    | some rowSet =>
      refine ⟨(token, rowSet), (HashMap.mem_toList_iff _ _).mpr found, row, ?_, rfl, rfl⟩
      rw [found] at owned
      exact Std.ExtTreeSet.mem_toList.mpr owned

theorem mem_owned (order : LayoutOrder I) (layout : ModelLayout T I) (entry : I × RowIndex) :
    entry ∈ order.owned layout.ownedRows ↔ entry.2 ∈ layout.rowsOf entry.1 := by
  rw [(order.perm _).mem_iff]
  exact mem_ownedRows layout entry.1 entry.2

theorem WellFormed.outputs {layout : ModelLayout T I} (wellFormed : layout.WellFormed)
    (order : LayoutOrder I) :
    ∃ tokens, layout.outputs order = .ok tokens ∧
      ∀ row token, tokens[row]? = some token ↔ row ∈ layout.rowsOf token := by
  obtain ⟨result, ran, length, lookup⟩ := @foldlM_writeRow (I × RowIndex) (Option I) Prod.snd
    (fun entry => some entry.1) (order.owned layout.ownedRows)
    (List.replicate layout.rows.length none) (fun entry membership => by
      rw [List.length_replicate]
      exact wellFormed.rowBound entry.1 entry.2 ((mem_owned order layout entry).mp membership))
  rw [List.length_replicate] at length
  have owned (row : RowIndex) (token : I) (membership : row ∈ layout.rowsOf token) :
      result[row]? = some (some token) := by
    rcases lookup row with ⟨entry, listed, rfl, found⟩ | ⟨elsewhere, -⟩
    · rw [found, wellFormed.rowUnique entry.1 token entry.2
        ((mem_owned order layout entry).mp listed) membership]
    · exact absurd rfl (elsewhere (token, row) ((mem_owned order layout (token, row)).mpr membership))
  have known : ∀ token ∈ result, token.isSome := by
    intro token membership
    obtain ⟨row, bound, rfl⟩ := List.mem_iff_getElem.mp membership
    obtain ⟨owner, held⟩ := wellFormed.rowOwner row (length ▸ bound)
    have found := owned row owner held
    rw [List.getElem?_eq_getElem bound] at found
    rw [Option.some.inj found]
    rfl
  obtain ⟨tokens, collected, same⟩ := mapM_id_of_isSome known
  refine ⟨tokens, by simp only [ModelLayout.outputs, ran, collected], ?_⟩
  intro row token
  have lookup' : result[row]? = tokens[row]?.map some := by
    rw [same, List.getElem?_map]
  constructor
  · intro found
    rw [found] at lookup'
    have bound : row < layout.rows.length := length ▸ (List.getElem?_eq_some_iff.mp lookup').1
    obtain ⟨owner, held⟩ := wellFormed.rowOwner row bound
    have found' := owned row owner held
    rw [lookup'] at found'
    obtain rfl : token = owner := by simpa using found'
    exact held
  · intro held
    have found := owned row token held
    rw [lookup'] at found
    simpa using found

theorem WellFormed.outputTokenIndexes {layout : ModelLayout T I} (wellFormed : layout.WellFormed)
    (order : LayoutOrder I) : ∃ indexes, layout.outputTokenIndexes order = .ok indexes := by
  have known : ∀ entry ∈ order.owned layout.ownedRows,
      entry.2 ∈ layout.rowsOf entry.1 := fun entry => (mem_owned order layout entry).mp
  have column : ∀ entry ∈ order.owned layout.ownedRows,
      ∃ column : ColumnIndex, layout.inputIndexes[entry.1]? = some column := by
    intro entry membership
    have owned := known entry membership
    rw [← HashMap.mem_iff_exists]
    apply wellFormed.outputIndexed
    rw [HashMap.mem_iff_exists]
    unfold rowsOf at owned
    cases found : layout.outputIndexes[entry.1]? with
    | none => simp [found] at owned
    | some rowSet => exact ⟨rowSet, rfl⟩
  have bounded : ∀ entry ∈ order.owned layout.ownedRows, entry.2 < layout.rows.length :=
    fun entry membership => wellFormed.rowBound entry.1 entry.2 (known entry membership)
  unfold ModelLayout.outputTokenIndexes
  generalize start : List.replicate layout.rows.length 0 = indexes
  have length : indexes.length = layout.rows.length := by rw [← start, List.length_replicate]
  clear start
  generalize order.owned layout.ownedRows = entries at column bounded
  induction entries generalizing indexes with
  | nil => exact ⟨indexes, rfl⟩
  | cons entry entries inductionHypothesis =>
    obtain ⟨value, found⟩ := column entry List.mem_cons_self
    have inside : entry.2 < indexes.length := by
      rw [length]
      exact bounded entry List.mem_cons_self
    obtain ⟨result, ran⟩ := inductionHypothesis (indexes.set entry.2 value)
      (by rw [List.length_set, length])
      (fun other membership => column other (List.mem_cons_of_mem _ membership))
      (fun other membership => bounded other (List.mem_cons_of_mem _ membership))
    refine ⟨result, ?_⟩
    rw [List.foldlM_cons]
    simp only [found, writeRow, if_pos inside]
    exact ran

/-! ### Shape -/

omit [LawfulEqOrd I] in
theorem WellFormed.shape {layout : ModelLayout T I} (wellFormed : layout.WellFormed)
    (inhabited : layout.rows ≠ []) :
    layout.shape = (layout.rows.length, layout.inputIndexes.size) := by
  unfold ModelLayout.shape
  cases rows : layout.rows with
  | nil => exact absurd rows inhabited
  | cons row rows' =>
    have length := wellFormed.rowLength row (rows ▸ List.mem_cons_self)
    simp [length]

omit [LawfulEqOrd I] in
theorem WellFormed.length_cells {layout : ModelLayout T I} (wellFormed : layout.WellFormed) :
    layout.cells.length = layout.rows.length * layout.inputIndexes.size := by
  have lengths : layout.rows.zipIdx.map (fun row =>
      (row.1.zipIdx.map (fun value => ((row.2, value.2), value.1))).length) =
      List.replicate layout.rows.length layout.inputIndexes.size := by
    rw [List.eq_replicate_iff]
    refine ⟨by simp, ?_⟩
    intro length membership
    obtain ⟨row, listed, rfl⟩ := List.mem_map.mp membership
    rw [List.length_map, List.length_zipIdx]
    exact wellFormed.rowLength row.1 (List.fst_mem_of_mem_zipIdx listed)
  rw [cells, List.length_flatMap, lengths, List.sum_replicate, smul_eq_mul]

/-! ### Forgetting the values -/

omit [LawfulEqOrd I] [TransOrd I] in
theorem cell_mapReserves {U : Type} (layout : ModelLayout T I) (f : T → U) (row : RowIndex)
    (column : ColumnIndex) :
    (layout.mapReserves f).cell row column = (layout.cell row column).map f := by
  unfold cell mapReserves
  rw [List.getElem?_map]
  cases layout.rows[row]? with
  | none => rfl
  | some cells =>
    simp only [Option.map_some, Option.bind_some, List.getElem?_map]
    cases cells[column]? with
    | none => rfl
    | some cell => rfl

omit [LawfulEqOrd I] in
theorem WellFormed.mapReserves {U : Type} {layout : ModelLayout T I}
    (wellFormed : layout.WellFormed) (f : T → U) : (layout.mapReserves f).WellFormed where
  rowLength := by
    intro row membership
    obtain ⟨cells, listed, rfl⟩ := List.mem_map.mp membership
    rw [List.length_map]
    exact wellFormed.rowLength cells listed
  columnBound := wellFormed.columnBound
  columnInjective := wellFormed.columnInjective
  columnSurjective := wellFormed.columnSurjective
  rowBound := by
    intro token row owned
    have bound := wellFormed.rowBound token row owned
    simpa [ModelLayout.mapReserves] using bound
  rowOwner := by
    intro row bound
    exact wellFormed.rowOwner row (by simpa [ModelLayout.mapReserves] using bound)
  rowUnique := wellFormed.rowUnique
  outputIndexed := wellFormed.outputIndexed

omit [LawfulEqOrd I] in
theorem holds_mapReserves {U : Type} {layout : ModelLayout T I} {f : T → U}
    {inputToken outputToken : I} {reserve : U} {row : RowIndex} {column : ColumnIndex}
    (holds : (layout.mapReserves f).Holds inputToken outputToken reserve row column) :
    ∃ held, f held = reserve ∧ layout.Holds inputToken outputToken held row column := by
  have stored := holds.stored
  rw [cell_mapReserves] at stored
  obtain ⟨held, found, same⟩ := Option.map_eq_some_iff.mp stored
  exact ⟨held, same, holds.indexed, holds.owned, found⟩

omit [LawfulEqOrd I] in
/-- Keys that stay distinct without the forgotten part keep their cells. -/
theorem Contains.mapReserves {U : Type} {layout : ModelLayout T I} {keys : List (I × I × T)}
    (contains : layout.Contains keys) (f : T → U)
    (distinct : (keys.map (fun key => (key.1, key.2.1, f key.2.2))).Nodup) :
    (layout.mapReserves f).Contains (keys.map (fun key => (key.1, key.2.1, f key.2.2))) where
  held := by
    intro key membership
    obtain ⟨key, listed, rfl⟩ := List.mem_map.mp membership
    obtain ⟨row, column, holds⟩ := contains.held key listed
    exact ⟨row, column, holds.indexed, holds.owned, by
      rw [cell_mapReserves, holds.stored, Option.map_some]⟩
  listed := by
    intro inputToken outputToken reserve row column holds
    obtain ⟨held, rfl, stored⟩ := holds_mapReserves holds
    exact List.mem_map.mpr ⟨_, contains.listed _ _ _ _ _ stored, rfl⟩
  single := by
    intro inputToken outputToken reserve row column row' column' holds holds'
    obtain ⟨held, same, stored⟩ := holds_mapReserves holds
    obtain ⟨held', same', stored'⟩ := holds_mapReserves holds'
    have equal := List.inj_on_of_nodup_map distinct (contains.listed _ _ _ _ _ stored)
      (contains.listed _ _ _ _ _ stored') (by simp only [same, same'])
    obtain rfl : held = held' := by simpa using equal
    exact contains.single _ _ _ _ _ _ _ stored stored'

end

end ModelLayout

/-! ### The weights -/

/-- Growing a tensor keeps its entries. -/
theorem get?_coldGrow2d {F : Type} [Ring F] {old : Tensor2 F} {row column : Nat} {weight : F}
    (found : old.get? row column = some weight) (newRows newColumns : Nat) :
    (coldGrow2d old newRows newColumns).get? row column = some weight := by
  have inside : row < old.rows ∧ column < old.columns := by
    unfold Tensor2.get? at found
    split at found
    · assumption
    · cases found
  have inside' : row < max old.rows newRows ∧ column < max old.columns newColumns :=
    ⟨lt_max_of_lt_left inside.1, lt_max_of_lt_left inside.2⟩
  unfold Tensor2.get?
  rw [dif_pos (by exact inside')]
  simp only [coldGrow2d, found, Option.getD_some]

namespace Model

section

variable {U I F : Type} [Ord I] [TransOrd I] {layerCount : Nat}

/-- What every model that was built and reconciled is like. -/
structure Valid (model : Model U I F layerCount) : Prop where
  wellFormed : model.layout.WellFormed
  contains : ∃ keys, keys.Nodup ∧ model.layout.Contains keys
  inhabited : model.layout.rows ≠ []
  initAsset : model.block.initAssetIndex < model.layout.inputIndexes.size
  sinkDistinct : model.block.layerOutPoolIndexes.Nodup
  sinkRows : ∀ row, row ∈ model.block.layerOutPoolIndexes ↔
    row ∈ model.layout.rowsOf model.outputAsset
  layerIn : model.block.layerIn.weights.rows = model.layout.rows.length ∧
    model.block.layerIn.weights.columns = 1
  layers : ∀ layer, (model.block.layers layer).weights.rows = model.layout.rows.length ∧
    (model.block.layers layer).weights.columns = model.layout.inputIndexes.size
  layerOut : model.block.layerOut.weights.rows = model.block.layerOutPoolIndexes.length ∧
    model.block.layerOut.weights.columns = model.layout.inputIndexes.size
  dataLength : ∀ values ∈ [model.data.reservesIn, model.data.reservesOut,
      model.data.feeMultiplier, model.data.maxSwap],
    values.length = model.layout.rows.length * model.layout.inputIndexes.size

/-- The weights of a model stay with their pools: the layout moves nothing, the sink
rows stay in front and every old weight keeps its row and column. -/
structure Aligned (model model' : Model U I F layerCount) : Prop where
  layout : model.layout.Grows model'.layout
  initAsset : model'.block.initAssetIndex = model.block.initAssetIndex
  outputAsset : model'.outputAsset = model.outputAsset
  sinkRows : model.block.layerOutPoolIndexes <+: model'.block.layerOutPoolIndexes
  layerIn : ∀ row column weight, model.block.layerIn.weights.get? row column = some weight →
    model'.block.layerIn.weights.get? row column = some weight
  layers : ∀ layer row column weight,
    (model.block.layers layer).weights.get? row column = some weight →
      (model'.block.layers layer).weights.get? row column = some weight
  layerOut : ∀ row column weight, model.block.layerOut.weights.get? row column = some weight →
    model'.block.layerOut.weights.get? row column = some weight

/-- The token pair and the pool of a reserve. -/
def reserveKey (reserve : PoolReserves I U F) : I × I × U :=
  (reserve.token0, reserve.token1, reserve.poolId)

theorem Valid.retrained {model : Model U I F layerCount} (valid : model.Valid)
    (weights : Weights F layerCount) : (model.retrained weights).Valid :=
  ⟨valid.wellFormed, valid.contains, valid.inhabited, valid.initAsset, valid.sinkDistinct,
    valid.sinkRows, valid.layerIn, valid.layers, valid.layerOut, valid.dataLength⟩

omit [Ord I] [TransOrd I] in
theorem length_of_reserveData {values : List (VirtualReserveValues F)} {length : Nat}
    (measured : values.length = length) :
    ∀ vector ∈ [(ReserveData.of values).reservesIn, (ReserveData.of values).reservesOut,
      (ReserveData.of values).feeMultiplier, (ReserveData.of values).maxSwap],
      vector.length = length := by
  simp [ReserveData.of, measured]

/-- The insertion of a reserve, with what the layout stores of it. -/
def insertionOf {T : Type} (order : RowOrder) (stored : PoolReserves I U F → T)
    (reserve : PoolReserves I U F) : ModelLayout.Insertion T I where
  order
  inputToken := reserve.token0
  outputToken := reserve.token1
  reserve := stored reserve

theorem insertAll_insertionOf {T : Type} (order : RowOrder) (stored : PoolReserves I U F → T)
    (layout : ModelLayout T I) (reserves : List (PoolReserves I U F)) :
    layout.insertAll (reserves.map (insertionOf order stored)) =
      reserves.foldlM (fun (layout : ModelLayout T I) reserve =>
        layout.withReserveValues order reserve.token0 reserve.token1 (stored reserve)) layout := by
  rw [ModelLayout.insertAll, List.foldlM_map]
  rfl

/-! ### Building -/

variable [LawfulEqOrd I] [Ring F]

theorem initRoute_valid [DecidableEq I] [Ord U] [TransOrd U] {order : LayoutOrder I}
    {weights : Weights F layerCount} {sourceAsset outputAsset : I}
    {poolReserves : List (PoolReserves I U F)} {bridges : HashSet (I × I)} {disabled : HashSet U}
    (distinct : (poolReserves.map reserveKey).Nodup) {model : Model U I F layerCount}
    (built : initRoute order weights sourceAsset outputAsset poolReserves bridges disabled =
      .ok model) : model.Valid := by
  let insertions := poolReserves.map (insertionOf order.rows
    (fun reserves => (reserves.poolId, reserves.value)))
  have keys : (insertions.map ModelLayout.Insertion.key).map
      (fun key => (key.1, key.2.1, key.2.2.1)) = poolReserves.map reserveKey := by
    simp only [insertions, List.map_map]
    rfl
  have distinct' : ([] ++ insertions.map ModelLayout.Insertion.key).Nodup := by
    rw [List.nil_append]
    rw [← keys] at distinct
    exact distinct.of_map _
  obtain ⟨layout, ran, wellFormed, contains, -⟩ :=
    ModelLayout.new_wellFormed.insertAll ModelLayout.new_contains distinct'
  rw [List.nil_append] at contains
  rw [insertAll_insertionOf] at ran
  have contains' := contains.mapReserves Prod.fst (keys ▸ distinct)
  obtain ⟨assetIndexes, indexed⟩ := wellFormed.outputTokenIndexes order
  unfold initRoute at built
  rw [ran] at built
  simp only [bind, Except.bind] at built
  split at built
  · cases built
  · cases built
  · rename_i outputRows initAssetIndex output input
    rw [indexed] at built
    obtain rfl := Except.ok.inj built
    have rows : layout.rowsOf outputAsset = outputRows := by
      rw [ModelLayout.rowsOf, output, Option.getD_some]
    have height : (layout.mapReserves Prod.fst).rows.length = layout.rows.length :=
      List.length_map _
    refine ⟨wellFormed.mapReserves Prod.fst, ⟨_, keys ▸ distinct, contains'⟩, ?_,
      wellFormed.columnBound _ _ input, ?_, ?_, ⟨height.symm, rfl⟩, fun layer => ⟨height.symm, rfl⟩,
      ⟨rfl, rfl⟩, ?_⟩
    · cases poolReserves with
      | nil =>
        obtain rfl := Except.ok.inj ran
        simp [ModelLayout.new] at output
      | cons reserves later =>
        obtain ⟨row, column, holds⟩ := contains.held _ List.mem_cons_self
        have bound := wellFormed.rowBound _ _ holds.owned
        intro empty
        rw [← height, empty] at bound
        exact absurd bound (Nat.not_lt_zero _)
    · exact (order.rows.perm _).nodup_iff.mpr (HashSet.nodup_toList outputRows)
    · intro row
      have same : row ∈ order.rows.arrange outputRows.toList ↔ row ∈ layout.rowsOf outputAsset := by
        rw [(order.rows.perm _).mem_iff, Std.ExtTreeSet.mem_toList, rows]
      exact same
    · refine length_of_reserveData ?_
      rw [List.length_map, wellFormed.length_cells, height]
      rfl

/-! ### Reconciling -/

variable [DecidableEq U]

omit [LawfulEqOrd I] [Ring F] in
theorem newReserves_spec {layout : ModelLayout U I} (wellFormed : layout.WellFormed)
    (order : RowOrder) (reserves : List (PoolReserves I U F)) :
    ∃ fresh, newReserves order layout reserves = .ok fresh ∧ fresh.Sublist reserves ∧
      (∀ reserve ∈ fresh, ∀ row column,
        ¬ layout.Holds reserve.token0 reserve.token1 reserve.poolId row column) ∧
      (fresh = [] → ∀ reserve ∈ reserves, ∃ row column,
        layout.Holds reserve.token0 reserve.token1 reserve.poolId row column) := by
  induction reserves with
  | nil => exact ⟨[], rfl, .refl _, by simp, by simp⟩
  | cons reserve reserves inductionHypothesis =>
    obtain ⟨fresh, ran, sublist, absent, present⟩ := inductionHypothesis
    obtain ⟨position, found, held, missing⟩ := wellFormed.findReservePosition order
      reserve.token0 reserve.token1 reserve.poolId
    cases position with
    | none =>
      refine ⟨reserve :: fresh, by simp [newReserves, found, ran, bind, Except.bind, pure,
        Except.pure], sublist.cons_cons reserve, ?_, by simp⟩
      intro other membership
      rcases List.mem_cons.mp membership with rfl | later
      · exact missing rfl
      · exact absent other later
    | some position =>
      refine ⟨fresh, by simp [newReserves, found, ran, bind, Except.bind, pure, Except.pure],
        sublist.cons reserve, absent, ?_⟩
      intro empty other membership
      rcases List.mem_cons.mp membership with rfl | later
      · exact ⟨_, _, held position.1 position.2 rfl⟩
      · exact present empty other later

omit [LawfulEqOrd I] [Ring F] in
theorem refreshValues {layout : ModelLayout U I} (wellFormed : layout.WellFormed)
    (inhabited : layout.rows ≠ []) (order : RowOrder) {reserves : List (PoolReserves I U F)}
    (held : ∀ reserve ∈ reserves, ∃ row column,
      layout.Holds reserve.token0 reserve.token1 reserve.poolId row column)
    {data : ReserveData F} (measured : ∀ values ∈ [data.reservesIn, data.reservesOut,
      data.feeMultiplier, data.maxSwap],
      values.length = layout.rows.length * layout.inputIndexes.size) :
    ∃ data', reserves.foldlM (refreshValue order layout) data = .ok data' ∧
      ∀ values ∈ [data'.reservesIn, data'.reservesOut, data'.feeMultiplier, data'.maxSwap],
        values.length = layout.rows.length * layout.inputIndexes.size := by
  induction reserves generalizing data with
  | nil => exact ⟨data, rfl, measured⟩
  | cons reserve reserves inductionHypothesis =>
    obtain ⟨position, found, positioned, missing⟩ := wellFormed.findReservePosition order
      reserve.token0 reserve.token1 reserve.poolId
    cases position with
    | none =>
      obtain ⟨row, column, holds⟩ := held reserve List.mem_cons_self
      exact absurd holds (missing rfl row column)
    | some position =>
      obtain ⟨row, column⟩ := position
      have holds := positioned row column rfl
      have rowBound := wellFormed.rowBound _ _ holds.owned
      have columnBound := wellFormed.columnBound _ _ holds.indexed
      have inside : row * layout.inputIndexes.size + column <
          layout.rows.length * layout.inputIndexes.size := by
        calc row * layout.inputIndexes.size + column
            < row * layout.inputIndexes.size + layout.inputIndexes.size :=
              Nat.add_lt_add_left columnBound _
          _ = (row + 1) * layout.inputIndexes.size := (Nat.succ_mul _ _).symm
          _ ≤ layout.rows.length * layout.inputIndexes.size :=
            Nat.mul_le_mul_right _ rowBound
      simp only [List.forall_mem_cons, List.not_mem_nil, false_implies, implies_true,
        and_true] at measured
      obtain ⟨reservesIn, reservesOut, feeMultiplier, maxSwap⟩ := measured
      have step : refreshValue order layout data reserve = .ok
          { reservesIn := data.reservesIn.set (row * layout.inputIndexes.size + column)
              reserve.value.token0
            reservesOut := data.reservesOut.set (row * layout.inputIndexes.size + column)
              reserve.value.token1
            feeMultiplier := data.feeMultiplier.set (row * layout.inputIndexes.size + column)
              reserve.value.feeMultiplier
            maxSwap := data.maxSwap.set (row * layout.inputIndexes.size + column)
              reserve.value.maxSwap0 } := by
        simp only [refreshValue, found, wellFormed.shape inhabited, ReserveData.write]
        rw [if_pos ⟨reservesIn ▸ inside, reservesOut ▸ inside, feeMultiplier ▸ inside,
          maxSwap ▸ inside⟩]
      rw [List.foldlM_cons, step]
      refine inductionHypothesis
        (fun other membership => held other (List.mem_cons_of_mem _ membership)) ?_
      simp [reservesIn, reservesOut, feeMultiplier, maxSwap]

omit [LawfulEqOrd I] [Ring F] in
theorem positionValues_ok {layout : ModelLayout U I} (wellFormed : layout.WellFormed)
    (order : RowOrder) (reserves : List (PoolReserves I U F)) :
    ∃ values, positionValues order layout reserves = .ok values := by
  unfold positionValues
  generalize (∅ : HashMap (RowIndex × ColumnIndex) (VirtualReserveValues F)) = values
  induction reserves generalizing values with
  | nil => exact ⟨values, rfl⟩
  | cons reserve reserves inductionHypothesis =>
    obtain ⟨position, found, -⟩ := wellFormed.findReservePosition order
      reserve.token0 reserve.token1 reserve.poolId
    simp only [List.foldlM_cons, found]
    cases position with
    | none => exact inductionHypothesis values
    | some position => exact inductionHypothesis (values.insert position reserve.value)

variable [Ord U] [TransOrd U]

omit [LawfulEqOrd I] [Ring F] in
theorem Valid.refresh {model : Model U I F layerCount} (valid : model.Valid)
    (order : LayoutOrder I) {reserves : List (PoolReserves I U F)}
    (held : ∀ reserve ∈ reserves, ∃ row column,
      model.layout.Holds reserve.token0 reserve.token1 reserve.poolId row column)
    (present disabled : HashSet U) :
    ∃ model', model.refresh order reserves present disabled = .ok model' ∧ model'.Valid ∧
      model.Aligned model' := by
  obtain ⟨data, ran, measured⟩ :=
    refreshValues valid.wellFormed valid.inhabited order.rows held valid.dataLength
  refine ⟨_, by rw [Model.refresh, ran]; rfl, ?_, ?_⟩
  · exact ⟨valid.wellFormed, valid.contains, valid.inhabited, valid.initAsset, valid.sinkDistinct,
      valid.sinkRows, valid.layerIn, valid.layers, valid.layerOut, measured⟩
  · exact ⟨.refl _, rfl, rfl, List.prefix_rfl, fun _ _ _ found => found,
      fun _ _ _ _ found => found, fun _ _ _ found => found⟩

omit [LawfulEqOrd I] [Ring F] [DecidableEq U] [Ord U] [TransOrd U] in
/-- The rows of the output asset, the old ones in front. -/
theorem sinkRows_grown [DecidableEq I] {layout : ModelLayout U I} {outputAsset : I}
    {oldRows : List RowIndex} {tokens : List I} (distinct : oldRows.Nodup)
    (kept : ∀ row ∈ oldRows, row ∈ layout.rowsOf outputAsset)
    (owners : ∀ row token, tokens[row]? = some token ↔ row ∈ layout.rowsOf token) :
    (oldRows ++ (tokens.zipIdx.filter (fun entry =>
        entry.1 = outputAsset ∧ entry.2 ∉ oldRows)).map Prod.snd).Nodup ∧
      ∀ row, row ∈ oldRows ++ (tokens.zipIdx.filter (fun entry =>
        entry.1 = outputAsset ∧ entry.2 ∉ oldRows)).map Prod.snd ↔
          row ∈ layout.rowsOf outputAsset := by
  have appended (row : RowIndex) : row ∈ (tokens.zipIdx.filter (fun entry =>
      entry.1 = outputAsset ∧ entry.2 ∉ oldRows)).map Prod.snd ↔
        row ∈ layout.rowsOf outputAsset ∧ row ∉ oldRows := by
    rw [← owners, List.mem_map]
    constructor
    · rintro ⟨entry, membership, rfl⟩
      rw [List.mem_filter, List.mem_zipIdx_iff_getElem?] at membership
      obtain ⟨found, selected⟩ := membership
      obtain ⟨rfl, fresh⟩ := of_decide_eq_true selected
      exact ⟨found, fresh⟩
    · rintro ⟨found, fresh⟩
      refine ⟨(outputAsset, row), ?_, rfl⟩
      rw [List.mem_filter, List.mem_zipIdx_iff_getElem?]
      exact ⟨found, decide_eq_true ⟨rfl, fresh⟩⟩
  constructor
  · refine List.nodup_append.mpr ⟨distinct, ?_, ?_⟩
    · have indexes : (tokens.zipIdx.map Prod.snd).Nodup := by
        rw [List.zipIdx_map_snd]
        exact List.nodup_range'
      exact indexes.sublist (List.filter_sublist.map Prod.snd)
    · intro row old row' new same
      subst same
      exact ((appended row).mp new).2 old
  · intro row
    rw [List.mem_append, appended]
    constructor
    · rintro (old | ⟨owned, -⟩)
      · exact kept row old
      · exact owned
    · intro owned
      by_cases old : row ∈ oldRows
      · exact .inl old
      · exact .inr ⟨owned, old⟩

theorem Valid.grow [DecidableEq I] {model : Model U I F layerCount} (valid : model.Valid)
    (order : LayoutOrder I) (allReserves : List (PoolReserves I U F))
    {newReserves : List (PoolReserves I U F)} (distinct : (newReserves.map reserveKey).Nodup)
    (fresh : ∀ reserve ∈ newReserves, ∀ row column,
      ¬ model.layout.Holds reserve.token0 reserve.token1 reserve.poolId row column)
    (bridges : HashSet (I × I)) (present disabled : HashSet U) :
    ∃ model', model.grow order allReserves newReserves bridges present disabled = .ok model' ∧
      model'.Valid ∧ model.Aligned model' := by
  obtain ⟨keys, keysDistinct, contains⟩ := valid.contains
  have insertKeys : (newReserves.map (insertionOf order.rows (·.poolId))).map
      ModelLayout.Insertion.key = newReserves.map reserveKey := by
    rw [List.map_map]
    rfl
  have distinct' : (keys ++ (newReserves.map (insertionOf order.rows (·.poolId))).map
      ModelLayout.Insertion.key).Nodup := by
    rw [insertKeys, List.nodup_append]
    refine ⟨keysDistinct, distinct, ?_⟩
    intro key old key' new same
    obtain ⟨reserve, listed, rfl⟩ := List.mem_map.mp new
    obtain ⟨row, column, holds⟩ := contains.held key old
    rw [same] at holds
    exact fresh reserve listed row column holds
  obtain ⟨layout, ran, wellFormed, contains', grows⟩ := valid.wellFormed.insertAll contains distinct'
  rw [insertAll_insertionOf] at ran
  have inhabited : layout.rows ≠ [] := by
    intro empty
    have height := grows.height
    rw [empty] at height
    exact valid.inhabited (List.length_eq_zero_iff.mp (Nat.le_zero.mp height))
  obtain ⟨values, positioned⟩ := positionValues_ok wellFormed order.rows allReserves
  obtain ⟨tokens, outputs, owners⟩ := wellFormed.outputs order
  obtain ⟨assetIndexes, indexed⟩ := wellFormed.outputTokenIndexes order
  obtain ⟨sinkDistinct, sinkRows⟩ := @sinkRows_grown _ _ _ _ _ layout model.outputAsset
    model.block.layerOutPoolIndexes tokens valid.sinkDistinct
    (fun row membership => grows.rows _ row ((valid.sinkRows row).mp membership)) owners
  refine ⟨_, by
    rw [Model.grow, ran]
    simp only [bind, Except.bind, wellFormed.shape inhabited, positioned, outputs, indexed]
    rfl, ?_, ?_⟩
  · refine ⟨wellFormed, ⟨_, distinct', contains'⟩, inhabited, valid.initAsset.trans_le grows.width,
      sinkDistinct, sinkRows, ⟨?_, ?_⟩, fun layer => ⟨?_, ?_⟩, ⟨?_, ?_⟩, ?_⟩
    · exact max_eq_right (valid.layerIn.1 ▸ grows.height)
    · exact max_eq_right valid.layerIn.2.le
    · exact max_eq_right ((valid.layers layer).1 ▸ grows.height)
    · exact max_eq_right ((valid.layers layer).2 ▸ grows.width)
    · refine max_eq_right ?_
      rw [valid.layerOut.1, List.length_append]
      exact Nat.le_add_right _ _
    · exact max_eq_right (valid.layerOut.2 ▸ grows.width)
    · refine length_of_reserveData ?_
      rw [List.length_map, wellFormed.length_cells]
  · refine ⟨grows, rfl, rfl, List.prefix_append _ _, ?_, ?_, ?_⟩
    · exact fun row column weight found => get?_coldGrow2d found _ _
    · exact fun layer row column weight found => get?_coldGrow2d found _ _
    · exact fun row column weight found => get?_coldGrow2d found _ _

theorem Valid.reconcile [DecidableEq I] {model : Model U I F layerCount} (valid : model.Valid)
    (order : LayoutOrder I) {reserves : List (PoolReserves I U F)}
    (distinct : (reserves.map reserveKey).Nodup) (bridges : HashSet (I × I))
    (disabled : HashSet U) :
    ∃ model' outcome, model.reconcile order reserves bridges disabled = .ok (model', outcome) ∧
      model'.Valid ∧ model.Aligned model' := by
  obtain ⟨fresh, selected, sublist, absent, present⟩ :=
    newReserves_spec valid.wellFormed order.rows reserves
  cases fresh with
  | nil =>
    obtain ⟨model', ran, valid', aligned⟩ := valid.refresh order (present rfl)
      (HashSet.collect (reserves.map (·.poolId))) disabled
    refine ⟨model', .refreshed, ?_, valid', aligned⟩
    rw [Model.reconcile, selected]
    simp only [bind, Except.bind, List.isEmpty_nil, if_true, ran]
    rfl
  | cons reserve fresh =>
    obtain ⟨model', ran, valid', aligned⟩ := valid.grow order reserves
      (distinct.sublist (sublist.map reserveKey)) absent bridges
      (HashSet.collect (reserves.map (·.poolId))) disabled
    refine ⟨model', .grew, ?_, valid', aligned⟩
    rw [Model.reconcile, selected]
    simp only [bind, Except.bind, List.isEmpty_cons, Bool.false_eq_true, if_false, ran]
    rfl

/-- The models of a session: one is built, trained at any time, and reconciled with
snapshots that repeat no pool in one direction. -/
inductive Reached [DecidableEq I] : Model U I F layerCount → Prop
  | built (order : LayoutOrder I) (weights : Weights F layerCount) (sourceAsset outputAsset : I)
      (poolReserves : List (PoolReserves I U F)) (bridges : HashSet (I × I))
      (disabled : HashSet U) {model : Model U I F layerCount} :
      (poolReserves.map reserveKey).Nodup →
      initRoute order weights sourceAsset outputAsset poolReserves bridges disabled = .ok model →
      Reached model
  | trained (weights : Weights F layerCount) {model : Model U I F layerCount} :
      Reached model → Reached (model.retrained weights)
  | reconciled (order : LayoutOrder I) (reserves : List (PoolReserves I U F))
      (bridges : HashSet (I × I)) (disabled : HashSet U) {model model' : Model U I F layerCount}
      {outcome : ReconcileOutcome} :
      Reached model → (reserves.map reserveKey).Nodup →
      model.reconcile order reserves bridges disabled = .ok (model', outcome) → Reached model'

theorem Reached.valid [DecidableEq I] {model : Model U I F layerCount} (reached : Reached model) :
    model.Valid := by
  induction reached with
  | built order weights sourceAsset outputAsset poolReserves bridges disabled distinct built =>
    exact initRoute_valid distinct built
  | trained weights _ valid => exact valid.retrained weights
  | reconciled order reserves bridges disabled _ distinct ran valid =>
    obtain ⟨model', outcome, ran', valid', -⟩ := valid.reconcile order distinct bridges disabled
    obtain ⟨rfl, -⟩ := Prod.mk.inj (Except.ok.inj (ran.symm.trans ran'))
    exact valid'

end

end Model

/-! ### Append-only layouts -/

section

variable {U I F : Type} [Ord I] [TransOrd I] [DecidableEq U]

/-- A layout without a loss: its matrix is rectangular, columns are a bijection with
tokens, every row has one output token, and exactly the reserves of a list are found,
in cells of their own, whatever order the row sets are visited in. -/
structure ModelLayout.Lossless (layout : ModelLayout U I) (keys : List (I × I × U)) : Prop where
  rowLength : ∀ row ∈ layout.rows, row.length = layout.inputIndexes.size
  columnBound : ∀ (token : I) (column : ColumnIndex), layout.inputIndexes[token]? = some column →
    column < layout.inputIndexes.size
  columns : ∀ column < layout.inputIndexes.size,
    ∃! token : I, layout.inputIndexes[token]? = some column
  rowBound : ∀ token, ∀ row ∈ layout.rowsOf token, row < layout.rows.length
  rows : ∀ row < layout.rows.length, ∃! token, row ∈ layout.rowsOf token
  outputs : ∀ token ∈ layout.outputIndexes, token ∈ layout.inputIndexes
  positions : ∀ inputToken outputToken reserve, ∃ position,
    (∀ order : RowOrder,
        layout.findReservePosition order inputToken outputToken reserve = .ok position) ∧
      (position.isSome ↔ (inputToken, outputToken, reserve) ∈ keys)
  cells : ∀ (order : RowOrder) (key key' : I × I × U) (position : RowIndex × ColumnIndex),
    layout.findReservePosition order key.1 key.2.1 key.2.2 = .ok (some position) →
      layout.findReservePosition order key'.1 key'.2.1 key'.2.2 = .ok (some position) → key = key'

theorem ModelLayout.WellFormed.lossless {layout : ModelLayout U I}
    (wellFormed : layout.WellFormed) {keys : List (I × I × U)} (contains : layout.Contains keys) :
    layout.Lossless keys where
  rowLength := wellFormed.rowLength
  columnBound := wellFormed.columnBound
  columns := by
    intro column bound
    obtain ⟨token, indexed⟩ := wellFormed.columnSurjective column bound
    exact ⟨token, indexed, fun other indexed' =>
      wellFormed.columnInjective other token column indexed' indexed⟩
  rowBound := wellFormed.rowBound
  rows := by
    intro row bound
    obtain ⟨token, owned⟩ := wellFormed.rowOwner row bound
    exact ⟨token, owned, fun other owned' => wellFormed.rowUnique other token row owned' owned⟩
  outputs := wellFormed.outputIndexed
  positions := by
    intro inputToken outputToken reserve
    by_cases listed : (inputToken, outputToken, reserve) ∈ keys
    · obtain ⟨row, column, holds⟩ := contains.held _ listed
      refine ⟨some (row, column), ?_, by simpa using listed⟩
      intro order
      obtain ⟨position, ran, some_, none_⟩ :=
        wellFormed.findReservePosition order inputToken outputToken reserve
      cases position with
      | none => exact absurd holds (none_ rfl row column)
      | some position =>
        obtain ⟨row', column'⟩ := position
        obtain ⟨rfl, rfl⟩ := contains.single _ _ _ _ _ _ _ holds (some_ row' column' rfl)
        exact ran
    · refine ⟨none, ?_, by simpa using listed⟩
      intro order
      obtain ⟨position, ran, some_, -⟩ :=
        wellFormed.findReservePosition order inputToken outputToken reserve
      cases position with
      | none => exact ran
      | some position =>
        exact absurd (contains.listed _ _ _ _ _ (some_ position.1 position.2 rfl)) listed
  cells := by
    intro order key key' position found found'
    obtain ⟨_, ran, some_, -⟩ := wellFormed.findReservePosition order key.1 key.2.1 key.2.2
    obtain rfl := Except.ok.inj (ran.symm.trans found)
    obtain ⟨_, ran', some', -⟩ := wellFormed.findReservePosition order key'.1 key'.2.1 key'.2.2
    obtain rfl := Except.ok.inj (ran'.symm.trans found')
    have holds := some_ position.1 position.2 rfl
    have holds' := some' position.1 position.2 rfl
    have sameInput := wellFormed.columnInjective _ _ _ holds.indexed holds'.indexed
    have sameOutput := wellFormed.rowUnique _ _ _ holds.owned holds'.owned
    have sameReserve := Option.some.inj (holds.stored.symm.trans holds'.stored)
    exact Prod.ext sameInput (Prod.ext sameOutput sameReserve)

/-- Layouts are append-only, and reconciling keeps every weight with its pool. -/
theorem layout_appendOnly [LawfulEqOrd I] [DecidableEq I] [Ring F] [Ord U] [TransOrd U]
    (layerCount : Nat) :
    (∀ insertions : List (ModelLayout.Insertion U I),
      (insertions.map ModelLayout.Insertion.key).Nodup →
        ∃ layout, ModelLayout.new.insertAll insertions = .ok layout ∧
          layout.Lossless (insertions.map ModelLayout.Insertion.key) ∧
          ∀ more : List (ModelLayout.Insertion U I),
            ((insertions ++ more).map ModelLayout.Insertion.key).Nodup →
              ∃ layout', layout.insertAll more = .ok layout' ∧ layout.Grows layout') ∧
      ∀ model : Model U I F layerCount, Model.Reached model →
        ∀ (order : LayoutOrder I) (reserves : List (PoolReserves I U F)) (bridges : HashSet (I × I))
          (disabled : HashSet U), (reserves.map Model.reserveKey).Nodup →
            ∃ model' outcome,
              model.reconcile order reserves bridges disabled = .ok (model', outcome) ∧
                model'.Valid ∧ model.Aligned model' := by
  constructor
  · intro insertions distinct
    obtain ⟨layout, ran, wellFormed, contains, -⟩ :=
      ModelLayout.new_wellFormed.insertAll ModelLayout.new_contains
        (distinct : ([] ++ insertions.map ModelLayout.Insertion.key).Nodup)
    refine ⟨layout, ran, wellFormed.lossless contains, ?_⟩
    intro more distinct'
    rw [List.map_append] at distinct'
    obtain ⟨layout', ran', -, -, grows⟩ := wellFormed.insertAll contains distinct'
    exact ⟨layout', ran', grows⟩
  · intro model reached order reserves bridges disabled distinct
    exact reached.valid.reconcile order distinct bridges disabled

end

/-! ### A session of two snapshots -/

def ascendingLayoutOrder : LayoutOrder Nat := ⟨.ascending, id, fun _ => .refl _⟩

/-- Both directions of a pool between two tokens. -/
def bothWays (pool first second : Nat) : List (PoolReserves Nat Nat ℚ) :=
  [{ token0 := first, token1 := second, poolId := pool, value := emptyCell },
    { token0 := second, token1 := first, poolId := pool, value := emptyCell }]

def firstModel : Except Fault (Model Nat Nat ℚ 1) :=
  Model.initRoute ascendingLayoutOrder ⟨fun _ _ => 0, fun _ _ _ => 0, fun _ _ => 0⟩ 0 0
    (bothWays 7 0 1) ∅ ∅

theorem firstModel_ok : ∃ model, firstModel = .ok model := by
  have succeeds : firstModel.isOk = true := by decide +kernel
  cases outcome : firstModel with
  | error fault =>
    rw [outcome] at succeeds
    cases succeeds
  | ok model => exact ⟨model, rfl⟩

theorem layout_appendOnly_parallel :
    (∃ layout, ModelLayout.new.insertAll
        [⟨.ascending, 0, 1, 7⟩, (⟨.ascending, 0, 1, 8⟩ : ModelLayout.Insertion Nat Nat)] =
          .ok layout ∧ layout.Lossless [(0, 1, 7), (0, 1, 8)]) ∧
      ∃ model model' : Model Nat Nat ℚ 1, ∃ outcome,
        model.reconcile ascendingLayoutOrder (bothWays 7 0 1 ++ bothWays 8 0 1) ∅ ∅ =
          .ok (model', outcome) ∧ model'.Valid ∧ model.Aligned model' := by
  have theorem_ := @layout_appendOnly Nat Nat ℚ _ _ _ _ _ _ _ _ 1
  constructor
  · obtain ⟨layout, ran, lossless, -⟩ := theorem_.1
      [⟨.ascending, 0, 1, 7⟩, ⟨.ascending, 0, 1, 8⟩] (by decide)
    exact ⟨layout, ran, lossless⟩
  · obtain ⟨model, built⟩ := firstModel_ok
    obtain ⟨model', outcome, ran, valid, aligned⟩ := theorem_.2 model
      (.built _ _ _ _ (bothWays 7 0 1) _ _ (by decide) built) ascendingLayoutOrder
      (bothWays 7 0 1 ++ bothWays 8 0 1) ∅ ∅ (by decide)
    exact ⟨model, model', outcome, ran, valid, aligned⟩

end ArmchairAnalyst.Optimization
