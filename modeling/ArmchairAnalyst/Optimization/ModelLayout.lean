import ArmchairAnalyst.Library.Fallible
import ArmchairAnalyst.Optimization.RoutingFilter

/-!
# The layout of a model

Reserves are packed into a matrix: a column for each token that goes in, and rows for
the tokens that come out, several for one token where its pools share a column. The
layout only ever grows. Indexing out of range panics.
-/

namespace ArmchairAnalyst.Optimization

open Std (TransOrd LawfulEqOrd)

inductive OptimizationError
  | initAssetNotFound
  | outputAssetNotFound
  | invalidInitAssetIndex
  | invalidLayoutIndex
  | invalidOutputIndex
  deriving DecidableEq

/-- What ends an operation early. -/
inductive Fault
  | panic
  | error (error : OptimizationError)
  deriving DecidableEq

abbrev RowIndex := Nat

abbrev ColumnIndex := Nat

/-- An order in which a hash set yields its rows. -/
structure RowOrder where
  arrange : List RowIndex → List RowIndex
  perm : ∀ rows, (arrange rows).Perm rows

def RowOrder.ascending : RowOrder := ⟨id, fun _ => .refl _⟩

/-- Rows are outputs and columns are inputs. -/
structure ModelLayout (T I : Type) [Ord I] where
  rows : List (List (Option T))
  inputIndexes : HashMap I ColumnIndex
  outputIndexes : HashMap I (HashSet RowIndex)

namespace ModelLayout

section

variable {T I : Type} [Ord I] [TransOrd I]

omit [TransOrd I] in
def new : ModelLayout T I where
  rows := []
  inputIndexes := ∅
  outputIndexes := ∅

def accessReserve (layout : ModelLayout T I) (row : RowIndex) (column : ColumnIndex) :
    Except Fault (Option T) :=
  match layout.rows[row]? with
  | none => .error .panic
  | some cells =>
    match cells[column]? with
    | none => .error .panic
    | some cell => .ok cell

def writeReserve (layout : ModelLayout T I) (row : RowIndex) (column : ColumnIndex)
    (reserve : T) : Except Fault (ModelLayout T I) :=
  match layout.accessReserve row column with
  | .error fault => .error fault
  | .ok _ => .ok
      { layout with rows := layout.rows.modify row (fun cells => cells.set column (some reserve)) }

def withIndexedInput (layout : ModelLayout T I) (inputToken : I) :
    ModelLayout T I × ColumnIndex :=
  match layout.inputIndexes[inputToken]? with
  | some index => (layout, index)
  | none =>
    let newIndex := layout.inputIndexes.size
    ({ layout with
        inputIndexes := layout.inputIndexes.insert inputToken newIndex
        rows := layout.rows.map (fun row =>
          if row.length ≤ newIndex then row ++ List.replicate (newIndex + 1 - row.length) none
          else row) }, newIndex)

/-- The first of the rows whose cell in a column is empty. -/
def findVacant (layout : ModelLayout T I) (column : ColumnIndex) :
    List RowIndex → Except Fault (Option RowIndex)
  | [] => .ok none
  | row :: rows =>
    match layout.accessReserve row column with
    | .error fault => .error fault
    | .ok none => .ok (some row)
    | .ok (some _) => layout.findVacant column rows

/-- A pool goes into a row of its output token that has room, or into a new one. -/
def withIndexedOutput (order : RowOrder) (layout : ModelLayout T I) (columnIndex : ColumnIndex)
    (outputToken : I) (reserve : T) : Except Fault (ModelLayout T I) :=
  let rowIndexes := layout.outputIndexes[outputToken]?.getD ∅
  match layout.findVacant columnIndex (order.arrange rowIndexes.toList) with
  | .error fault => .error fault
  | .ok (some rowIndex) =>
    writeReserve { layout with outputIndexes := layout.outputIndexes.insert outputToken rowIndexes }
      rowIndex columnIndex reserve
  | .ok none =>
    let newRowIndex := layout.rows.length
    writeReserve
      { layout with
        rows := layout.rows ++ [List.replicate layout.inputIndexes.size none]
        outputIndexes := layout.outputIndexes.insert outputToken (rowIndexes.insert newRowIndex) }
      newRowIndex columnIndex reserve

/-- An output token is indexed as an input first. -/
def withReserveValues (order : RowOrder) (layout : ModelLayout T I) (inputToken outputToken : I)
    (reserve : T) : Except Fault (ModelLayout T I) :=
  let (layout, _) := layout.withIndexedInput outputToken
  let (layout, columnIndex) := layout.withIndexedInput inputToken
  layout.withIndexedOutput order columnIndex outputToken reserve

section

variable [DecidableEq T]

/-- The first of the rows that holds a reserve in a column. -/
def findHolding (layout : ModelLayout T I) (column : ColumnIndex) (reserve : T) :
    List RowIndex → Except Fault (Option RowIndex)
  | [] => .ok none
  | row :: rows =>
    match layout.accessReserve row column with
    | .error fault => .error fault
    | .ok cell => if cell = some reserve then .ok (some row)
      else layout.findHolding column reserve rows

def findReservePosition (order : RowOrder) (layout : ModelLayout T I) (inputToken outputToken : I)
    (reserve : T) : Except Fault (Option (RowIndex × ColumnIndex)) :=
  match layout.inputIndexes[inputToken]?, layout.outputIndexes[outputToken]? with
  | some column, some rowSet =>
    (layout.findHolding column reserve (order.arrange rowSet.toList)).map
      (Option.map (fun row => (row, column)))
  | _, _ => .ok none

end

end

end ModelLayout

end ArmchairAnalyst.Optimization
