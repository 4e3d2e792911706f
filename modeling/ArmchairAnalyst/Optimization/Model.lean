import ArmchairAnalyst.Optimization.ModelLayout

/-!
# The model of a route

A layout, the reserves of its cells, the masks over them and the weights of a block of
layers. A model is built once and then reconciled with every later snapshot: known pools
are refreshed in place, new ones are appended, and pools that are gone or disabled are
masked. Data and masks are row-major vectors over the layout, as tensors hold them.
Weights are exact here, and drawing and training them is left to the caller.
-/

namespace ArmchairAnalyst.Optimization

open Std (TransOrd LawfulEqOrd)

/-- An order in which the nested hash sets of a layout yield output tokens and rows. -/
structure LayoutOrder (I : Type) where
  rows : RowOrder
  owned : List (I × RowIndex) → List (I × RowIndex)
  perm : ∀ entries, (owned entries).Perm entries

namespace ModelLayout

section

variable {T I : Type} [Ord I] [TransOrd I]

def getIndexes (layout : ModelLayout T I) (inputToken outputToken : I) :
    List (RowIndex × ColumnIndex) :=
  match layout.inputIndexes[inputToken]?, layout.outputIndexes[outputToken]? with
  | some columnIndex, some rowSet => rowSet.toList.map (fun rowIndex => (rowIndex, columnIndex))
  | _, _ => []

/-- The cells that carry a token through, and those that a bridge carries across. -/
def bypassIndexes (layout : ModelLayout T I) (bridges : HashSet (I × I)) :
    HashSet (RowIndex × ColumnIndex) :=
  HashSet.collect
    (layout.inputIndexes.keys.flatMap (fun token => layout.getIndexes token token) ++
      bridges.toList.flatMap (fun bridge => layout.getIndexes bridge.1 bridge.2))

/-- Every row with the token it belongs to. -/
def ownedRows (layout : ModelLayout T I) : List (I × RowIndex) :=
  layout.outputIndexes.toList.flatMap (fun entry => entry.2.toList.map (fun row => (entry.1, row)))

/-- Writes one value for each row; a row out of range panics. -/
def writeRow {V : Type} (values : List V) (row : RowIndex) (value : V) : Except Fault (List V) :=
  if row < values.length then .ok (values.set row value) else .error .panic

/-- The column of the token of each row. -/
def outputTokenIndexes (order : LayoutOrder I) (layout : ModelLayout T I) :
    Except Fault (List ColumnIndex) :=
  (order.owned layout.ownedRows).foldlM (fun indexes entry =>
    match layout.inputIndexes[entry.1]? with
    | none => .error (.error .invalidLayoutIndex)
    | some column => writeRow indexes entry.2 column) (List.replicate layout.rows.length 0)

/-- The token of each row. -/
def outputs (order : LayoutOrder I) (layout : ModelLayout T I) : Except Fault (List I) :=
  match (order.owned layout.ownedRows).foldlM (fun tokens entry =>
      writeRow tokens entry.2 (some entry.1)) (List.replicate layout.rows.length none) with
  | .error fault => .error fault
  | .ok tokens =>
    match tokens.mapM id with
    | none => .error (.error .invalidLayoutIndex)
    | some tokens => .ok tokens

omit [TransOrd I] in
def shape (layout : ModelLayout T I) : Nat × Nat :=
  match layout.rows with
  | [] => (0, 0)
  | row :: rows => (rows.length + 1, row.length)

omit [TransOrd I] in
/-- The cells in row-major order with their indexes. -/
def cells (layout : ModelLayout T I) : List ((RowIndex × ColumnIndex) × Option T) :=
  layout.rows.zipIdx.flatMap (fun row =>
    row.1.zipIdx.map (fun value => ((row.2, value.2), value.1)))

omit [TransOrd I] in
def mapReserves {U : Type} (layout : ModelLayout T I) (f : T → U) : ModelLayout U I where
  rows := layout.rows.map (fun row => row.map (Option.map f))
  inputIndexes := layout.inputIndexes
  outputIndexes := layout.outputIndexes

end

end ModelLayout

/-! ### The block -/

structure Tensor2 (F : Type) where
  rows : Nat
  columns : Nat
  entry : Fin rows → Fin columns → F

def Tensor2.get? {F : Type} (tensor : Tensor2 F) (row column : Nat) : Option F :=
  if inside : row < tensor.rows ∧ column < tensor.columns then
    some (tensor.entry ⟨row, inside.1⟩ ⟨column, inside.2⟩)
  else none

structure Layer (F : Type) where
  weights : Tensor2 F
  outputSize : Nat

structure LayerBlock (F : Type) (layerCount : Nat) where
  bypassMask : List Bool
  disabledMask : List Bool
  initAssetIndex : ColumnIndex
  outputAssetIndexes : List ColumnIndex
  layerOutOutputAssetIndexes : List ColumnIndex
  layerOutBypassMask : List Bool
  layerOutDisabledMask : List Bool
  layerOutPoolIndexes : List RowIndex
  layerIn : Layer F
  layers : Fin layerCount → Layer F
  layerOut : Layer F

structure ReserveData (F : Type) where
  reservesIn : List F
  reservesOut : List F
  feeMultiplier : List F
  maxSwap : List F

/-- The reserve tensors of the block are the reserve data in the shape of the layout. -/
structure Model (U I F : Type) [Ord I] (layerCount : Nat) where
  layout : ModelLayout U I
  data : ReserveData F
  block : LayerBlock F layerCount
  outputAsset : I

inductive ReconcileOutcome
  | grew
  | refreshed
  deriving DecidableEq

/-- Weights by layer, row and column, as they are drawn or as training leaves them. -/
structure Weights (F : Type) (layerCount : Nat) where
  layerIn : Nat → Nat → F
  layers : Fin layerCount → Nat → Nat → F
  layerOut : Nat → Nat → F

def Layer.of {F : Type} (rows columns outputSize : Nat) (weight : Nat → Nat → F) : Layer F where
  weights := { rows, columns, entry := fun row column => weight row column }
  outputSize

/-- Training replaces weights and nothing else. -/
def Layer.retrained {F : Type} (layer : Layer F) (weight : Nat → Nat → F) : Layer F :=
  .of layer.weights.rows layer.weights.columns layer.outputSize weight

section

variable {U I F : Type} [Ord I] [TransOrd I] [Ring F] {layerCount : Nat}

def coldWeight : F := -8

/-- Keeps the old weights at the top left and fills what is appended with the cold weight. -/
def coldGrow2d (old : Tensor2 F) (newRows newColumns : Nat) : Tensor2 F where
  rows := max old.rows newRows
  columns := max old.columns newColumns
  entry := fun row column => (old.get? row column).getD coldWeight

omit [Ring F] in
/-- The rows of a row-major vector at some indexes. -/
def selectRows {V : Type} (columns : Nat) (values : List V) (indexes : List RowIndex) : List V :=
  indexes.flatMap (fun row => (values.drop (row * columns)).take columns)

/-- The values of a cell without a reserve. -/
def emptyCell : VirtualReserveValues F where
  token0 := 0
  token1 := 0
  feeMultiplier := 0
  maxSwap0 := 0
  maxSwap1 := 0

omit [Ring F] in
def ReserveData.of (values : List (VirtualReserveValues F)) : ReserveData F where
  reservesIn := values.map (·.token0)
  reservesOut := values.map (·.token1)
  feeMultiplier := values.map (·.feeMultiplier)
  maxSwap := values.map (·.maxSwap0)

omit [Ring F] in
/-- Overwrites the values of one cell; an index out of range panics. -/
def ReserveData.write (data : ReserveData F) (index : Nat) (value : VirtualReserveValues F) :
    Except Fault (ReserveData F) :=
  if index < data.reservesIn.length ∧ index < data.reservesOut.length ∧
      index < data.feeMultiplier.length ∧ index < data.maxSwap.length then
    .ok
      { reservesIn := data.reservesIn.set index value.token0
        reservesOut := data.reservesOut.set index value.token1
        feeMultiplier := data.feeMultiplier.set index value.feeMultiplier
        maxSwap := data.maxSwap.set index value.maxSwap0 }
  else .error .panic

namespace Model

/-- Builds the model of a route from a first snapshot. -/
def initRoute [Ord U] [TransOrd U] (order : LayoutOrder I) (weights : Weights F layerCount)
    (sourceAsset outputAsset : I) (poolReserves : List (PoolReserves I U F))
    (bridges : HashSet (I × I)) (disabled : HashSet U) :
    Except Fault (Model U I F layerCount) := do
  let modelLayout ← poolReserves.foldlM (fun (layout : ModelLayout _ I) reserves =>
    layout.withReserveValues order.rows reserves.token0 reserves.token1
      (reserves.poolId, reserves.value)) ModelLayout.new
  match modelLayout.outputIndexes[outputAsset]?, modelLayout.inputIndexes[sourceAsset]? with
  | none, _ => .error (.error .outputAssetNotFound)
  | some _, none => .error (.error .initAssetNotFound)
  | some outputRows, some initAssetIndex =>
    let outputAssetPoolIndexes := order.rows.arrange outputRows.toList
    let bypassIndexes := modelLayout.bypassIndexes bridges
    let sizeTokens := modelLayout.inputIndexes.size
    let sizePools := modelLayout.rows.length
    let assetIndexes ← modelLayout.outputTokenIndexes order
    let cells := modelLayout.cells
    let bypassMask := cells.map (fun cell => decide (cell.1 ∈ bypassIndexes))
    let disabledMask := cells.map (fun cell =>
      match cell.2 with
      | some (poolId, _) => decide (poolId ∈ disabled)
      | none => false)
    return {
      layout := modelLayout.mapReserves Prod.fst
      data := ReserveData.of (cells.map (fun cell =>
        (cell.2.map Prod.snd).getD emptyCell))
      block := {
        bypassMask
        disabledMask
        initAssetIndex
        outputAssetIndexes := assetIndexes
        layerOutOutputAssetIndexes := List.replicate outputAssetPoolIndexes.length 0
        layerOutBypassMask := selectRows sizeTokens bypassMask outputAssetPoolIndexes
        layerOutDisabledMask := selectRows sizeTokens disabledMask outputAssetPoolIndexes
        layerOutPoolIndexes := outputAssetPoolIndexes
        layerIn := .of sizePools 1 sizeTokens weights.layerIn
        layers := fun layer => .of sizePools sizeTokens sizeTokens (weights.layers layer)
        layerOut := .of outputAssetPoolIndexes.length sizeTokens 1 weights.layerOut }
      outputAsset }

omit [TransOrd I] [Ring F] in
def retrained (model : Model U I F layerCount) (weights : Weights F layerCount) :
    Model U I F layerCount :=
  { model with
    block := { model.block with
      layerIn := model.block.layerIn.retrained weights.layerIn
      layers := fun layer => (model.block.layers layer).retrained (weights.layers layer)
      layerOut := model.block.layerOut.retrained weights.layerOut } }

variable [Ord U] [TransOrd U] [DecidableEq U]

omit [Ord I] [TransOrd I] [Ring F] [DecidableEq U] in
/-- A pool that is disabled or absent from the snapshot is masked. Empty cells never are. -/
def isMasked (present disabled : HashSet U) : Option U → Bool
  | some poolId => decide (poolId ∈ disabled) || !decide (poolId ∈ present)
  | none => false

omit [Ring F] [Ord U] [TransOrd U] in
/-- The reserves of a snapshot that the layout has no cell for. -/
def newReserves (order : RowOrder) (layout : ModelLayout U I) :
    List (PoolReserves I U F) → Except Fault (List (PoolReserves I U F))
  | [] => .ok []
  | reserve :: reserves => do
    let position ← layout.findReservePosition order reserve.token0 reserve.token1 reserve.poolId
    let later ← newReserves order layout reserves
    return if position.isNone then reserve :: later else later

omit [Ring F] [Ord U] [TransOrd U] in
def refreshValue (order : RowOrder) (layout : ModelLayout U I) (data : ReserveData F)
    (reserve : PoolReserves I U F) : Except Fault (ReserveData F) :=
  match layout.findReservePosition order reserve.token0 reserve.token1 reserve.poolId with
  | .error fault => .error fault
  | .ok none => .error (.error .invalidLayoutIndex)
  | .ok (some (row, column)) => data.write (row * layout.shape.2 + column) reserve.value

omit [Ring F] in
/-- No new pools: values and masks change in place. -/
def refresh (order : LayoutOrder I) (model : Model U I F layerCount)
    (reserves : List (PoolReserves I U F)) (present disabled : HashSet U) :
    Except Fault (Model U I F layerCount) := do
  let data ← reserves.foldlM (refreshValue order.rows model.layout) model.data
  let disabledMask := model.layout.rows.flatten.map (isMasked present disabled)
  return { model with
    data
    block := { model.block with
      layerOutDisabledMask :=
        selectRows model.layout.shape.2 disabledMask model.block.layerOutPoolIndexes
      disabledMask } }

omit [Ring F] [Ord U] [TransOrd U] in
/-- The values of a snapshot by cell. -/
def positionValues (order : RowOrder) (layout : ModelLayout U I)
    (reserves : List (PoolReserves I U F)) :
    Except Fault (HashMap (RowIndex × ColumnIndex) (VirtualReserveValues F)) :=
  reserves.foldlM (fun values reserve => do
    match ← layout.findReservePosition order reserve.token0 reserve.token1 reserve.poolId with
    | some position => return values.insert position reserve.value
    | none => return values) ∅

/-- New pools are appended to the layout, and the block is rebuilt around the old weights. -/
def grow [DecidableEq I] (order : LayoutOrder I) (model : Model U I F layerCount)
    (allReserves newReserves : List (PoolReserves I U F)) (bridges : HashSet (I × I))
    (present disabled : HashSet U) : Except Fault (Model U I F layerCount) := do
  let oldLayerOutPoolIndexes := model.block.layerOutPoolIndexes
  let layout ← newReserves.foldlM (fun (layout : ModelLayout U I) reserve =>
    layout.withReserveValues order.rows reserve.token0 reserve.token1 reserve.poolId) model.layout
  let (rows, columns) := layout.shape
  let positionValue ← positionValues order.rows layout allReserves
  let bypassIndexes := layout.bypassIndexes bridges
  let outputs ← layout.outputs order
  let cells := layout.cells
  let disabledMask := cells.map (fun cell => isMasked present disabled cell.2)
  let bypassMask := cells.map (fun cell => decide (cell.1 ∈ bypassIndexes))
  -- The old sink rows stay in front, in the order of the old weight rows.
  let layerOutPoolIndexes := oldLayerOutPoolIndexes ++
    (outputs.zipIdx.filter (fun entry =>
      entry.1 = model.outputAsset ∧ entry.2 ∉ oldLayerOutPoolIndexes)).map Prod.snd
  let assetIndexes ← layout.outputTokenIndexes order
  return {
    layout
    data := ReserveData.of (cells.map (fun cell =>
      (positionValue[cell.1]?).getD emptyCell))
    block := {
      bypassMask
      disabledMask
      initAssetIndex := model.block.initAssetIndex
      outputAssetIndexes := assetIndexes
      layerOutOutputAssetIndexes := List.replicate layerOutPoolIndexes.length 0
      layerOutBypassMask := selectRows columns bypassMask layerOutPoolIndexes
      layerOutDisabledMask := selectRows columns disabledMask layerOutPoolIndexes
      layerOutPoolIndexes
      layerIn :=
        { weights := coldGrow2d model.block.layerIn.weights rows 1, outputSize := columns }
      layers := fun layer =>
        { weights := coldGrow2d (model.block.layers layer).weights rows columns
          outputSize := columns }
      layerOut :=
        { weights := coldGrow2d model.block.layerOut.weights layerOutPoolIndexes.length columns
          outputSize := 1 } }
    outputAsset := model.outputAsset }

/-- Takes a model to the next snapshot without building it anew. -/
def reconcile [DecidableEq I] (order : LayoutOrder I) (model : Model U I F layerCount)
    (reserves : List (PoolReserves I U F)) (bridges : HashSet (I × I)) (disabled : HashSet U) :
    Except Fault (Model U I F layerCount × ReconcileOutcome) := do
  let present := HashSet.collect (reserves.map (·.poolId))
  let newReserves ← newReserves order.rows model.layout reserves
  if newReserves.isEmpty then
    let model ← model.refresh order reserves present disabled
    return (model, .refreshed)
  else
    let model ← model.grow order reserves newReserves bridges present disabled
    return (model, .grew)

end Model

end

end ArmchairAnalyst.Optimization
