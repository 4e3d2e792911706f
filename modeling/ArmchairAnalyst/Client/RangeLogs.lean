import ArmchairAnalyst.Bootstrap.Exchanges
import ArmchairAnalyst.Client.Endpoints
import ArmchairAnalyst.Library.Batches
import ArmchairAnalyst.Library.GroupedFold
import ArmchairAnalyst.Library.SortedContents

/-!
# Ranged log reads

A range of blocks is read window by window, each one query, and the logs of every answer
are grouped by block. Queries, their decoding and failover are outside this file: a read
of a window is given as a function of it.
-/

namespace ArmchairAnalyst

/-- The number of blocks that one query for logs spans at most. -/
def poolCandidateBlockRangeChunk : ChainKey → UInt64
  | .base => 100
  | .optimism => 250
  | .ethereum | .arbitrum | .polygon | .bnb | .avalanche => 5000

theorem poolCandidateBlockRangeChunk_pos (chain : ChainKey) :
    0 < poolCandidateBlockRangeChunk chain := by
  cases chain <;> decide

def saturatingAdd64 (a b : UInt64) : UInt64 :=
  if a.toNat + b.toNat < 2 ^ 64 then a + b else UInt64.ofNat (2 ^ 64 - 1)

theorem saturatingAdd64_toNat (a b : UInt64) :
    (saturatingAdd64 a b).toNat = min (a.toNat + b.toNat) (2 ^ 64 - 1) := by
  unfold saturatingAdd64
  split
  · rw [UInt64.toNat_add]
    omega
  · rw [UInt64.toNat_ofNat']
    omega

namespace Client

open Bootstrap (RangeLogBlock Window)

/-! ### Grouping -/

/-- A log as a node returns it. The content is what the decoder of pool logs reads. -/
structure RpcLog (Content : Type) where
  blockNumber : Option UInt64
  blockHash : Option BlockHash
  content : Content

/-- The decoder of pool logs, `none` for logs that are no pool events. -/
class PoolLogDecoder (Content : Type) where
  decodePoolLog : Content → Option PoolLog

/-- An order in which the groups of a hash map are drained. -/
structure GroupOrder where
  arrange : List ((UInt64 × BlockHash) × List PoolLog) → List ((UInt64 × BlockHash) × List PoolLog)
  perm : ∀ groups, (arrange groups).Perm groups

section Grouping

variable {Content : Type} [PoolLogDecoder Content]

/-- A log that can be attributed to a block and decoded, under the block's key. -/
def attributed (log : RpcLog Content) : Option ((UInt64 × BlockHash) × PoolLog) := do
  let number ← log.blockNumber
  let hash ← log.blockHash
  let poolLog ← PoolLogDecoder.decodePoolLog log.content
  return ((number, hash), poolLog)

/-- By number and then by hash. -/
def compareBlocks (left right : RangeLogBlock) : Ordering :=
  (compare left.number right.number).then (compare left.hash right.hash)

def groupRangeLogsByBlock (order : GroupOrder) (logs : List (RpcLog Content)) :
    List RangeLogBlock :=
  let logsByBlock := groupedFold [] (fun collected poolLog => collected ++ [poolLog])
    (logs.filterMap attributed)
  let blocks := (order.arrange logsByBlock).map (fun group =>
    { number := group.1.1, hash := group.1.2, logs := group.2 : RangeLogBlock })
  blocks.mergeSort (fun left right => (compareBlocks left right).isLE)

end Grouping

/-! ### Windows -/

/-- The last block of a window that starts here. -/
def windowEnd (chain : ChainKey) (fromBlock toBlock : UInt64) : UInt64 :=
  let reach := saturatingAdd64 fromBlock (poolCandidateBlockRangeChunk chain - 1)
  if reach ≤ toBlock then reach else toBlock

/-- The logs of the blocks of an inclusive range, by one query to a pool of endpoints. -/
abbrev ReadRange := EndpointPool → UInt64 → UInt64 → Except ClientEvmError (List RangeLogBlock)

abbrev ReadBlockNumber := EndpointPool → Except ClientEvmError UInt64

def fetchBlockNumber (endpoints : ChainEndpoints) (readBlockNumber : ReadBlockNumber)
    (chain : ChainKey) : Except ClientEvmError UInt64 := do
  let endpointPool ← endpoints.pool chain
  readBlockNumber endpointPool

/-- The tip of a scan, which its first window resolves and the later ones are given. -/
def resolveScanTip (endpoints : ChainEndpoints) (readBlockNumber : ReadBlockNumber)
    (chain : ChainKey) : Option UInt64 → Except ClientEvmError UInt64
  | some tip => .ok tip
  | none => fetchBlockNumber endpoints readBlockNumber chain

/-- One window of the scan up to the tip. -/
def fetchPoolCandidatesWindow (endpoints : ChainEndpoints) (readBlockNumber : ReadBlockNumber)
    (readRange : ReadRange) (chain : ChainKey) (fromBlock : UInt64) (scanTip : Option UInt64) :
    Except ClientEvmError Window := do
  let endpointPool ← endpoints.pool chain
  let tip ← resolveScanTip endpoints readBlockNumber chain scanTip
  if tip < fromBlock then return { blocks := [], scanTip := tip, nextFrom := none }
  let stop := windowEnd chain fromBlock tip
  let blocks ← readRange endpointPool fromBlock stop
  return { blocks, scanTip := tip, nextFrom := if stop < tip then some (stop + 1) else none }

theorem windowEnd_toNat (chain : ChainKey) (fromBlock toBlock : UInt64) :
    (windowEnd chain fromBlock toBlock).toNat =
      min (fromBlock.toNat + ((poolCandidateBlockRangeChunk chain).toNat - 1)) toBlock.toNat := by
  have positive := poolCandidateBlockRangeChunk_pos chain
  have one : (1 : UInt64) ≤ poolCandidateBlockRangeChunk chain := by
    rw [UInt64.le_iff_toNat_le]
    rw [UInt64.lt_iff_toNat_lt] at positive
    exact positive
  have bound := toBlock.toNat_lt
  have reach := saturatingAdd64_toNat fromBlock (poolCandidateBlockRangeChunk chain - 1)
  rw [UInt64.toNat_sub_of_le _ _ one, UInt64.toNat_one] at reach
  unfold windowEnd
  simp only
  split
  · rename_i within
    rw [UInt64.le_iff_toNat_le] at within
    omega
  · rename_i beyond
    rw [UInt64.le_iff_toNat_le] at beyond
    omega

/-- A window that stops before the end of the range makes progress. -/
theorem windowEnd_progress {chain : ChainKey} {cursor toBlock : UInt64}
    (before : ¬ toBlock ≤ windowEnd chain cursor toBlock) :
    (windowEnd chain cursor toBlock + 1).toNat = (windowEnd chain cursor toBlock).toNat + 1 ∧
      cursor.toNat ≤ (windowEnd chain cursor toBlock).toNat ∧
      (windowEnd chain cursor toBlock).toNat < toBlock.toNat := by
  have bound := toBlock.toNat_lt
  rw [UInt64.le_iff_toNat_le] at before
  have stop := windowEnd_toNat chain cursor toBlock
  refine ⟨?_, by omega, by omega⟩
  rw [UInt64.toNat_add, UInt64.toNat_one]
  omega

/-- The loop over the windows of a range. -/
def readWindows (readWindow : UInt64 → UInt64 → Except ClientEvmError (List RangeLogBlock))
    (chain : ChainKey) (toBlock : UInt64) (cursor : UInt64) (blocks : List RangeLogBlock) :
    Except ClientEvmError (List RangeLogBlock) :=
  match readWindow cursor (windowEnd chain cursor toBlock) with
  | .error error => .error error
  | .ok window =>
    if toBlock ≤ windowEnd chain cursor toBlock then .ok (blocks ++ window)
    else
      readWindows readWindow chain toBlock (windowEnd chain cursor toBlock + 1) (blocks ++ window)
termination_by toBlock.toNat - cursor.toNat
decreasing_by
  rename_i before
  have progress := windowEnd_progress before
  omega

def fetchPoolLogsInRange (endpoints : ChainEndpoints) (readRange : ReadRange) (chain : ChainKey)
    (fromBlock toBlock : UInt64) : Except ClientEvmError (List RangeLogBlock) := do
  let endpointPool ← endpoints.pool chain
  if toBlock < fromBlock then return []
  readWindows (readRange endpointPool) chain toBlock fromBlock []

/-! ### The windows of a range -/

/-- The windows that the loop reads. -/
def logWindows (chain : ChainKey) (toBlock cursor : UInt64) : List (UInt64 × UInt64) :=
  (cursor, windowEnd chain cursor toBlock) ::
    if toBlock ≤ windowEnd chain cursor toBlock then []
    else logWindows chain toBlock (windowEnd chain cursor toBlock + 1)
termination_by toBlock.toNat - cursor.toNat
decreasing_by
  rename_i before
  have progress := windowEnd_progress before
  omega

/-- The loop reads the windows in turn, up to the first one that fails. -/
theorem readWindows_eq
    (readWindow : UInt64 → UInt64 → Except ClientEvmError (List RangeLogBlock))
    (chain : ChainKey) (toBlock cursor : UInt64) (blocks : List RangeLogBlock) :
    readWindows readWindow chain toBlock cursor blocks =
      ((logWindows chain toBlock cursor).mapM (fun window => readWindow window.1 window.2)).map
        (fun windows => blocks ++ windows.flatten) := by
  fun_induction readWindows readWindow chain toBlock cursor blocks with
  | case1 cursor blocks error failed =>
    unfold logWindows
    simp [failed, Except.map, Bind.bind, Except.bind]
  | case2 cursor blocks window read done =>
    unfold logWindows
    simp [read, done, Except.map, Bind.bind, Except.bind, pure, Except.pure]
  | case3 cursor blocks window read more inductionHypothesis =>
    rw [inductionHypothesis]
    conv_rhs => unfold logWindows
    simp only [if_neg more, List.mapM_cons, read]
    cases (logWindows chain toBlock (windowEnd chain cursor toBlock + 1)).mapM
      (fun window => readWindow window.1 window.2) with
    | error error => rfl
    | ok windows => simp [Except.map, Bind.bind, Except.bind, pure, Except.pure]

end Client

end ArmchairAnalyst
