import ArmchairAnalyst.Bootstrap.Paging
import ArmchairAnalyst.Client.RangeLogs

/-!
# Reads of one view of the chain

The logs of an answer are grouped by block, in an order that does not depend on the hash
map. While the answers are taken from one view of the chain, reading a range window by
window gives what one query over the whole range would give, for the ranged reads of the
kernel as for the scan of a bootstrap.
-/

namespace ArmchairAnalyst.Client

open Bootstrap (RangeLogBlock Window Scan Exchange scannedBlocks)

variable {Content : Type} [PoolLogDecoder Content]

/-! ### Groups in block order -/

def BlockBefore (left right : RangeLogBlock) : Prop := compareBlocks left right = .lt

/-- The pool logs of a block, in the order of a list of logs. -/
def logsAt (view : List (RpcLog Content)) (number : UInt64) (hash : BlockHash) : List PoolLog :=
  itemsOf (view.filterMap attributed) (number, hash)

/-- A block of a view between two heights, with its logs, of which there are some. -/
def Shows (view : List (RpcLog Content)) (low high : Nat) (block : RangeLogBlock) : Prop :=
  (low ≤ block.number.toNat ∧ block.number.toNat < high) ∧
    block.logs = logsAt view block.number block.hash ∧ block.logs ≠ []

instance : Std.TransCmp compareBlocks :=
  inferInstanceAs (Std.TransCmp (compareLex
    (compareOn RangeLogBlock.number) (compareOn RangeLogBlock.hash)))

theorem compareBlocks_swap (left right : RangeLogBlock) :
    compareBlocks left right = (compareBlocks right left).swap :=
  Std.OrientedCmp.eq_swap

instance : Std.Asymm BlockBefore where
  asymm left right before after := by
    unfold BlockBefore at before after
    rw [compareBlocks_swap, before] at after
    cases after

theorem compareBlocks_eq {left right : RangeLogBlock} (equal : compareBlocks left right = .eq) :
    left.number = right.number ∧ left.hash = right.hash := by
  obtain ⟨numbers, hashes⟩ := Ordering.then_eq_eq.mp equal
  exact ⟨Std.LawfulEqOrd.eq_of_compare numbers, Std.LawfulEqOrd.eq_of_compare hashes⟩

theorem blockBefore_of_number {left right : RangeLogBlock}
    (below : left.number.toNat < right.number.toNat) : BlockBefore left right := by
  have less : compare left.number right.number = .lt :=
    Std.compare_eq_lt.mpr (UInt64.lt_iff_toNat_lt.mpr below)
  simp [BlockBefore, compareBlocks, less]

omit [PoolLogDecoder Content] in
theorem foldl_collect {X : Type} (collected items : List X) :
    items.foldl (fun collected item => collected ++ [item]) collected = collected ++ items := by
  induction items generalizing collected with
  | nil => simp
  | cons item items inductionHypothesis => simp [inductionHypothesis]

/-- Whatever the order of the hash map, the groups are the blocks with logs, in block order. -/
theorem groupRangeLogsByBlock_lists (order : GroupOrder) (logs : List (RpcLog Content)) :
    Lists BlockBefore
      (fun block => block.logs = logsAt logs block.number block.hash ∧ block.logs ≠ [])
      (groupRangeLogsByBlock order logs) := by
  unfold groupRangeLogsByBlock
  simp only
  generalize gathered : groupedFold [] (fun collected poolLog => collected ++ [poolLog])
    (logs.filterMap attributed) = groups
  have perm := order.perm groups
  have keys : ((order.arrange groups).map Prod.fst).Nodup := by
    rw [(perm.map Prod.fst).nodup_iff, ← gathered]
    exact groupedFold_nodup _ _ _
  have strict : ((order.arrange groups).map (fun group =>
      { number := group.1.1, hash := group.1.2, logs := group.2 : RangeLogBlock })).Pairwise
        (fun left right => ((compareBlocks left right).isLE → BlockBefore left right) ∧
          ((compareBlocks right left).isLE → BlockBefore right left)) := by
    rw [List.pairwise_map]
    apply (List.pairwise_map.mp keys).imp
    intro left right apart
    have different : ∀ ordering, ordering.isLE → ordering ≠ Ordering.eq → ordering = .lt := by
      decide
    refine ⟨fun before => different _ before fun equal => ?_,
      fun before => different _ before fun equal => ?_⟩
    · obtain ⟨numbers, hashes⟩ := compareBlocks_eq equal
      exact apart (Prod.ext numbers hashes)
    · obtain ⟨numbers, hashes⟩ := compareBlocks_eq equal
      exact apart (Prod.ext numbers.symm hashes.symm)
  refine (Lists.mergeSort ?_ ?_ _ strict).congr ?_
  · exact fun a b c before after => Std.TransCmp.isLE_trans before after
  · intro a b
    rw [compareBlocks_swap b a]
    cases compareBlocks a b <;> rfl
  · rintro ⟨number, hash, poolLogs⟩
    rw [List.mem_map]
    constructor
    · rintro ⟨⟨⟨number', hash'⟩, poolLogs'⟩, listed, same⟩
      obtain ⟨rfl, rfl, rfl⟩ := RangeLogBlock.mk.inj same
      rw [perm.mem_iff, ← gathered, mem_groupedFold, foldl_collect, List.nil_append] at listed
      obtain ⟨some, rfl⟩ := listed
      exact ⟨rfl, some⟩
    · rintro ⟨same, some⟩
      refine ⟨((number, hash), poolLogs), ?_, rfl⟩
      rw [perm.mem_iff, ← gathered, mem_groupedFold, foldl_collect, List.nil_append]
      simp only at same some
      rw [same] at some
      exact ⟨some, same⟩

/-! ### Reads of one view -/

/-- Every answer has the logs that a view has for the blocks of its range, those of one
block in their order. -/
def Serves (view : List (RpcLog Content))
    (read : UInt64 → UInt64 → Except ClientEvmError (List RangeLogBlock)) : Prop :=
  ∀ fromBlock toBlock blocks, read fromBlock toBlock = .ok blocks →
    ∃ (order : GroupOrder) (response : List (RpcLog Content)),
      blocks = groupRangeLogsByBlock order response ∧
      ∀ number hash, logsAt response number hash =
        if fromBlock ≤ number ∧ number ≤ toBlock then logsAt view number hash else []

def inRange (fromBlock toBlock : UInt64) (log : RpcLog Content) : Bool :=
  log.blockNumber.any (fun number => decide (fromBlock ≤ number ∧ number ≤ toBlock))

theorem blockNumber_of_attributed {log : RpcLog Content} {item : (UInt64 × BlockHash) × PoolLog}
    (named : attributed log = some item) : log.blockNumber = some item.1.1 := by
  obtain ⟨number, numbered, named⟩ := Option.bind_eq_some_iff.mp named
  obtain ⟨hash, -, named⟩ := Option.bind_eq_some_iff.mp named
  obtain ⟨poolLog, -, named⟩ := Option.bind_eq_some_iff.mp named
  obtain rfl := Option.some.inj named
  exact numbered

theorem logsAt_cons_of_none {log : RpcLog Content} (unnamed : attributed log = none)
    (view : List (RpcLog Content)) (number : UInt64) (hash : BlockHash) :
    logsAt (log :: view) number hash = logsAt view number hash := by
  simp [logsAt, unnamed]

theorem logsAt_cons_of_some {log : RpcLog Content} {item : (UInt64 × BlockHash) × PoolLog}
    (named : attributed log = some item) (view : List (RpcLog Content)) (number : UInt64)
    (hash : BlockHash) :
    logsAt (log :: view) number hash =
      (if item.1 = (number, hash) then [item.2] else []) ++ logsAt view number hash := by
  by_cases own : item.1 = (number, hash) <;> simp [logsAt, itemsOf, named, own]

theorem logsAt_filter_inRange (view : List (RpcLog Content)) (fromBlock toBlock number : UInt64)
    (hash : BlockHash) :
    logsAt (view.filter (inRange fromBlock toBlock)) number hash =
      if fromBlock ≤ number ∧ number ≤ toBlock then logsAt view number hash else [] := by
  induction view with
  | nil => simp [logsAt, itemsOf]
  | cons log view inductionHypothesis =>
    rw [List.filter_cons]
    cases named : attributed log with
    | none =>
      rw [logsAt_cons_of_none named, ← inductionHypothesis]
      split
      · exact logsAt_cons_of_none named _ _ _
      · rfl
    | some item =>
      have numbered := blockNumber_of_attributed named
      rw [logsAt_cons_of_some named]
      by_cases within : fromBlock ≤ item.1.1 ∧ item.1.1 ≤ toBlock
      · rw [if_pos (by simpa [inRange, numbered] using within), logsAt_cons_of_some named,
          inductionHypothesis]
        by_cases own : item.1 = (number, hash)
        · rw [own] at within
          rw [if_pos within, if_pos within]
        · rw [if_neg own, List.nil_append, List.nil_append]
      · rw [if_neg (by simpa [inRange, numbered] using within), inductionHypothesis]
        by_cases own : item.1 = (number, hash)
        · rw [own] at within
          rw [if_neg within, if_neg within]
        · rw [if_neg own, List.nil_append]

/-- The listing of a range does not depend on how the logs of its blocks were gathered. -/
theorem lists_of_logsAt {view response : List (RpcLog Content)} {fromBlock toBlock : UInt64}
    (order : GroupOrder)
    (same : ∀ number hash, logsAt response number hash =
      if fromBlock ≤ number ∧ number ≤ toBlock then logsAt view number hash else []) :
    Lists BlockBefore (Shows view fromBlock.toNat (toBlock.toNat + 1))
      (groupRangeLogsByBlock order response) := by
  apply (groupRangeLogsByBlock_lists order response).congr
  intro block
  have inside : (fromBlock ≤ block.number ∧ block.number ≤ toBlock) ↔
      fromBlock.toNat ≤ block.number.toNat ∧ block.number.toNat < toBlock.toNat + 1 := by
    rw [UInt64.le_iff_toNat_le, UInt64.le_iff_toNat_le]
    omega
  rw [same, Shows, ← inside]
  by_cases within : fromBlock ≤ block.number ∧ block.number ≤ toBlock
  · rw [if_pos within]
    exact (and_iff_right within).symm
  · rw [if_neg within]
    exact iff_of_false (fun empty => empty.2 empty.1) (fun shown => within shown.1)

theorem Serves.lists {view : List (RpcLog Content)}
    {read : UInt64 → UInt64 → Except ClientEvmError (List RangeLogBlock)} (serves : Serves view read)
    {fromBlock toBlock : UInt64} {blocks : List RangeLogBlock}
    (answer : read fromBlock toBlock = .ok blocks) :
    Lists BlockBefore (Shows view fromBlock.toNat (toBlock.toNat + 1)) blocks := by
  obtain ⟨order, response, rfl, same⟩ := serves fromBlock toBlock blocks answer
  exact lists_of_logsAt order same

/-- Two neighbouring ranges are listed one after the other. -/
theorem lists_append {view : List (RpcLog Content)} {low middle high : Nat}
    {blocks blocks' : List RangeLogBlock} (lists : Lists BlockBefore (Shows view low middle) blocks)
    (lists' : Lists BlockBefore (Shows view middle high) blocks') (rising : low ≤ middle)
    (rising' : middle ≤ high) :
    Lists BlockBefore (Shows view low high) (blocks ++ blocks') := by
  have joined := lists.append lists'
    (fun left right shown shown' => blockBefore_of_number (by
      have below := shown.1.2
      have above := shown'.1.1
      omega))
  apply joined.congr
  intro block
  unfold Shows
  constructor
  · rintro (⟨⟨above, below⟩, shown⟩ | ⟨⟨above, below⟩, shown⟩)
    · exact ⟨⟨above, by omega⟩, shown⟩
    · exact ⟨⟨by omega, below⟩, shown⟩
  · rintro ⟨⟨above, below⟩, shown⟩
    by_cases lower : block.number.toNat < middle
    · exact .inl ⟨⟨above, lower⟩, shown⟩
    · exact .inr ⟨⟨by omega, below⟩, shown⟩

theorem lists_nil {view : List (RpcLog Content)} {low high : Nat} (empty : high ≤ low) :
    Lists BlockBefore (Shows view low high) [] := by
  apply Lists.nil
  intro block shown
  have above := shown.1.1
  have below := shown.1.2
  omega

/-- The windows that are read so far are listed, and in the end the whole range is. -/
theorem readWindows_lists {view : List (RpcLog Content)} {chain : ChainKey}
    {read : UInt64 → UInt64 → Except ClientEvmError (List RangeLogBlock)} (serves : Serves view read)
    {low : Nat} {toBlock cursor : UInt64} {blocks result : List RangeLogBlock}
    (rising : low ≤ cursor.toNat) (within : cursor.toNat ≤ toBlock.toNat)
    (soFar : Lists BlockBefore (Shows view low cursor.toNat) blocks)
    (ran : readWindows read chain toBlock cursor blocks = .ok result) :
    Lists BlockBefore (Shows view low (toBlock.toNat + 1)) result := by
  fun_induction readWindows read chain toBlock cursor blocks with
  | case1 cursor blocks error failed => cases ran
  | case2 cursor blocks window answer done =>
    obtain rfl := Except.ok.inj ran
    rw [UInt64.le_iff_toNat_le] at done
    have stop := windowEnd_toNat chain cursor toBlock
    have whole : (windowEnd chain cursor toBlock).toNat = toBlock.toNat := by omega
    have listed := serves.lists answer
    rw [whole] at listed
    exact lists_append soFar listed rising (by omega)
  | case3 cursor blocks window answer more inductionHypothesis =>
    obtain ⟨after, forward, before⟩ := windowEnd_progress more
    have listed := serves.lists answer
    rw [← after] at listed
    exact inductionHypothesis (by omega) (by omega)
      (lists_append soFar listed rising (by omega)) ran

/-- While the answers are taken from one view, a ranged read is one query over the range. -/
theorem fetchPoolLogsInRange_exact {endpoints : ChainEndpoints} {readRange : ReadRange}
    {chain : ChainKey} {view : List (RpcLog Content)}
    (serves : ∀ endpointPool, endpoints.pool chain = .ok endpointPool →
      Serves view (readRange endpointPool))
    {fromBlock toBlock : UInt64} {blocks : List RangeLogBlock}
    (fetched : fetchPoolLogsInRange endpoints readRange chain fromBlock toBlock = .ok blocks)
    (order : GroupOrder) :
    blocks = groupRangeLogsByBlock order (view.filter (inRange fromBlock toBlock)) := by
  obtain ⟨endpointPool, configured, ran⟩ := Except.bind_eq_ok_iff.mp fetched
  have whole : Lists BlockBefore (Shows view fromBlock.toNat (toBlock.toNat + 1)) blocks := by
    split at ran
    · rename_i empty
      obtain rfl := Except.ok.inj ran
      rw [UInt64.lt_iff_toNat_lt] at empty
      exact lists_nil empty
    · rename_i some
      rw [UInt64.lt_iff_toNat_lt] at some
      exact readWindows_lists (serves endpointPool configured) le_rfl (by omega)
        (lists_nil le_rfl) ran
  exact whole.unique (lists_of_logsAt order
    (fun number hash => logsAt_filter_inRange view fromBlock toBlock number hash))

/-- A node with some logs. -/
def readOf (order : GroupOrder) (view : List (RpcLog Content)) : ReadRange :=
  fun _ fromBlock toBlock =>
    .ok (groupRangeLogsByBlock order (view.filter (inRange fromBlock toBlock)))

theorem serves_readOf (order : GroupOrder) (view : List (RpcLog Content))
    (endpointPool : EndpointPool) : Serves view (readOf order view endpointPool) := by
  intro fromBlock toBlock blocks answer
  obtain rfl := Except.ok.inj answer
  exact ⟨order, _, rfl, logsAt_filter_inRange view fromBlock toBlock⟩

def drainOrder : GroupOrder := ⟨id, fun _ => List.Perm.refl _⟩

def baseEndpoints : ChainEndpoints where
  pools := (∅ : HashMap ChainKey EndpointPool).insert .base [⟨"https://rpc.example", "rpc"⟩]

theorem baseEndpoints_pool :
    baseEndpoints.pool .base = .ok [⟨"https://rpc.example", "rpc"⟩] := by
  simp [ChainEndpoints.pool, baseEndpoints]

/-- The logs of a swap in each of three blocks, newest first, and a pending one. The content
is the price. -/
def someLogs : List (RpcLog U160) :=
  [⟨some 400, some 0x32, 9⟩, ⟨none, none, 8⟩, ⟨some 250, some 0x31, 7⟩, ⟨some 101, some 0x30, 6⟩]

def decodeSwap (price : U160) : Option PoolLog :=
  (I24.tryFrom 0).map (fun tick => ⟨.uniswapV3 0xA0, 7, .swap price tick 5⟩)

omit [PoolLogDecoder Content] in
theorem fetchPoolLogsInRange_exact_twoWindows :
    letI : PoolLogDecoder U160 := ⟨decodeSwap⟩
    ∃ blocks, fetchPoolLogsInRange baseEndpoints (readOf drainOrder someLogs) .base 100 250 =
        .ok blocks ∧
      blocks = groupRangeLogsByBlock drainOrder (someLogs.filter (inRange 100 250)) := by
  let _ : PoolLogDecoder U160 := ⟨decodeSwap⟩
  have configured := baseEndpoints_pool
  have fetched : ∃ blocks, fetchPoolLogsInRange baseEndpoints (readOf drainOrder someLogs) .base
      100 250 = .ok blocks := by
    refine ⟨((logWindows .base 250 100).map (fun window => groupRangeLogsByBlock drainOrder
      (someLogs.filter (inRange window.1 window.2)))).flatten, ?_⟩
    rw [fetchPoolLogsInRange, configured]
    simp only [bind, Except.bind]
    rw [if_neg (by decide), readWindows_eq]
    simp only [readOf]
    rw [mapM_ok (fun window _ => rfl)]
    rfl
  obtain ⟨blocks, fetched⟩ := fetched
  exact ⟨blocks, fetched, fetchPoolLogsInRange_exact
    (fun endpointPool _ => serves_readOf drainOrder someLogs endpointPool) fetched drainOrder⟩

/-! ### The scan of a bootstrap -/

/-- A window is the answer of the endpoints to its request, taken from a view of the chain. -/
def Executed (endpoints : ChainEndpoints) (chain : ChainKey) (view : List (RpcLog Content))
    (request : Bootstrap.GetPoolCandidatesInRange) (answer : Window) : Prop :=
  ∃ (readBlockNumber : ReadBlockNumber) (readRange : ReadRange),
    (∀ endpointPool, endpoints.pool chain = .ok endpointPool →
      Serves view (readRange endpointPool)) ∧
    fetchPoolCandidatesWindow endpoints readBlockNumber readRange chain request.fromBlock
      request.scanTip = .ok answer

/-- A window lists the blocks up to the next one, or up to the tip. -/
theorem Executed.lists {endpoints : ChainEndpoints} {chain : ChainKey}
    {view : List (RpcLog Content)} {request : Bootstrap.GetPoolCandidatesInRange} {answer : Window}
    (executed : Executed endpoints chain view request answer) :
    (∀ tip, request.scanTip = some tip → answer.scanTip = tip) ∧
      (∀ next, answer.nextFrom = some next →
        request.fromBlock.toNat < next.toNat ∧ next.toNat ≤ answer.scanTip.toNat ∧
          Lists BlockBefore (Shows view request.fromBlock.toNat next.toNat) answer.blocks) ∧
      (answer.nextFrom = none →
        Lists BlockBefore (Shows view request.fromBlock.toNat (answer.scanTip.toNat + 1))
          answer.blocks) := by
  obtain ⟨readBlockNumber, readRange, serves, fetched⟩ := executed
  obtain ⟨endpointPool, configured, ran⟩ := Except.bind_eq_ok_iff.mp fetched
  obtain ⟨tip, resolved, ran⟩ := Except.bind_eq_ok_iff.mp ran
  have frozen : ∀ given, request.scanTip = some given → tip = given := by
    intro given same
    rw [same] at resolved
    exact (Except.ok.inj resolved).symm
  split at ran
  · rename_i beyond
    obtain rfl := Except.ok.inj ran
    rw [UInt64.lt_iff_toNat_lt] at beyond
    refine ⟨frozen, fun next impossible => ?_, fun _ => lists_nil beyond⟩
    cases impossible
  · rename_i within
    obtain ⟨blocks, read, ran⟩ := Except.bind_eq_ok_iff.mp ran
    obtain rfl := Except.ok.inj ran
    rw [UInt64.lt_iff_toNat_lt] at within
    have listed := (serves endpointPool configured).lists read
    have stop := windowEnd_toNat chain request.fromBlock tip
    refine ⟨frozen, fun next more => ?_, fun last => ?_⟩
    · simp only at more
      split at more
      · rename_i before
        obtain rfl := Option.some.inj more
        have unfinished : ¬ tip ≤ windowEnd chain request.fromBlock tip := by
          rw [UInt64.le_iff_toNat_le]
          rw [UInt64.lt_iff_toNat_lt] at before
          omega
        obtain ⟨after, forward, below⟩ := windowEnd_progress unfinished
        rw [after]
        exact ⟨by omega, by simp only; omega, listed⟩
      · cases more
    · simp only at last
      split at last
      · cases last
      · rename_i done
        rw [UInt64.lt_iff_toNat_lt] at done
        have whole : (windowEnd chain request.fromBlock tip).toNat = tip.toNat := by omega
        rwa [whole] at listed

/-- A scan whose windows are executed lists the blocks between the anchor and where it is,
and in the end those up to the tip that its first window has found. -/
theorem scan_lists {endpoints : ChainEndpoints} {chain : ChainKey} {view : List (RpcLog Content)}
    {anchor : Bootstrap.FinalizedAnchor} {windows : List Exchange}
    {next : Option Bootstrap.GetPoolCandidatesInRange} (scan : Scan anchor windows next)
    (executed : ∀ id request answer, (⟨.poolCandidates, id, request, answer⟩ : Exchange) ∈ windows →
      Executed endpoints chain view request answer) :
    (windows = [] ∧ next = some { fromBlock := anchor.number, scanTip := none }) ∨
      ∃ tip, Bootstrap.frozenTip windows = some tip ∧ (∀ request, next = some request →
        request.scanTip = some tip ∧ anchor.number.toNat ≤ request.fromBlock.toNat ∧
          request.fromBlock.toNat ≤ tip.toNat ∧
          Lists BlockBefore (Shows view anchor.number.toNat request.fromBlock.toNat)
            (scannedBlocks windows)) ∧
        (next = none →
          Lists BlockBefore (Shows view anchor.number.toNat (tip.toNat + 1))
            (scannedBlocks windows)) := by
  induction scan with
  | start => exact .inl ⟨rfl, rfl⟩
  | @window windows request id answer scan inductionHypothesis =>
    right
    have earlier := inductionHypothesis fun id request answer membership =>
      executed id request answer (List.mem_append_left _ membership)
    obtain ⟨frozen, more, last⟩ := (executed id request answer (by simp)).lists
    rw [Bootstrap.scannedBlocks_concat]
    -- what the windows before this one list, and up to where
    have soFar : Lists BlockBefore (Shows view anchor.number.toNat request.fromBlock.toNat)
        (scannedBlocks windows) ∧ anchor.number.toNat ≤ request.fromBlock.toNat ∧
          request.fromBlock.toNat ≤ answer.scanTip.toNat + 1 ∨ windows = [] ∧
            request.fromBlock = anchor.number := by
      rcases earlier with ⟨rfl, first⟩ | ⟨tip, -, continued, -⟩
      · obtain rfl := Option.some.inj first
        exact .inr ⟨rfl, rfl⟩
      · obtain ⟨given, rising, below, lists⟩ := continued request rfl
        rw [← frozen tip given] at below
        exact .inl ⟨lists, rising, by omega⟩
    have kept : Bootstrap.frozenTip (windows ++ [⟨.poolCandidates, id, request, answer⟩]) =
        some answer.scanTip := by
      rw [Bootstrap.frozenTip, List.findSome?_append]
      rcases earlier with ⟨rfl, -⟩ | ⟨tip, first, continued, -⟩
      · rfl
      · rw [Bootstrap.frozenTip] at first
        rw [first, frozen tip (continued request rfl).1]
        rfl
    refine ⟨answer.scanTip, kept, fun next continues => ?_, fun complete => ?_⟩
    · obtain ⟨fromBlock, nextFrom, rfl⟩ := Option.map_eq_some_iff.mp continues
      obtain ⟨above, below, lists⟩ := more fromBlock nextFrom
      rcases soFar with ⟨before, rising, -⟩ | ⟨rfl, same⟩
      · exact ⟨rfl, rising.trans above.le, below, lists_append before lists rising above.le⟩
      · rw [same] at lists above
        exact ⟨rfl, above.le, below, lists⟩
    · have lists := last (Option.map_eq_none_iff.mp complete)
      rcases soFar with ⟨before, rising, below⟩ | ⟨rfl, same⟩
      · exact lists_append before lists rising below
      · rw [same] at lists
        exact lists

/-- Every answer with a window is the answer of the endpoints to the requests of the run that
it names. -/
def AnswersExecuted [Bootstrap.FillerHash] (endpoints : ChainEndpoints) (chain : ChainKey)
    (view : List (RpcLog Content)) (policy : Bootstrap.BootstrapPolicy)
    (events : List Bootstrap.Event) : Prop :=
  ∀ id blocks scanTip nextFrom,
    .poolCandidatesReceived id blocks scanTip nextFrom ∈ events →
    ∀ request, ⟨.poolCandidates, id, request⟩ ∈ Bootstrap.issued chain policy events →
      Executed endpoints chain view request ⟨blocks, scanTip, nextFrom⟩

/-- A bootstrap that is finished before its deadline seeds the graph with the blocks from its
anchor up to the tip of its first window, as one query over the whole range would return
them. -/
theorem bootstrap_seeds_the_range [Bootstrap.FillerHash] {endpoints : ChainEndpoints}
    {chain : ChainKey} {view : List (RpcLog Content)} {policy : Bootstrap.BootstrapPolicy}
    {events : List Bootstrap.Event}
    (before : AllowedAlong (Bootstrap.transition chain) Bootstrap.BeforeDeadline
      (Bootstrap.init policy).1 events)
    (executed : AnswersExecuted endpoints chain view policy events)
    {result : Bootstrap.Completion}
    (finished : Bootstrap.completion
      (run (Bootstrap.transition chain) (Bootstrap.init policy).1 events).1 = some result)
    (order : GroupOrder) :
    ∃ outcome tip, result = .ready outcome ∧
      Bootstrap.frozenTip (Bootstrap.exchanges chain policy events) = some tip ∧
      outcome.seedBlocks = (Bootstrap.GraphSeed.fromWindow
        (groupRangeLogsByBlock order (view.filter (inRange outcome.anchor.number tip)))
        outcome.anchor policy.tipTrim).blocks := by
  obtain ⟨headerId, anchor, windows, poolsId, pools, tokensId, tokens, scan, accepted, rfl⟩ :=
    Bootstrap.exchanges_of_finished before finished
  have executedWindows : ∀ id request answer,
      (⟨.poolCandidates, id, request, answer⟩ : Exchange) ∈ windows →
        Executed endpoints chain view request answer := by
    intro id request answer membership
    have listed : (⟨.poolCandidates, id, request, answer⟩ : Exchange) ∈
        Bootstrap.exchanges chain policy events := by
      rw [accepted]
      simp [membership]
    obtain ⟨requested, event, received, answers⟩ := Bootstrap.exchange_of_run listed
    cases event with
    | poolCandidatesReceived id' blocks scanTip nextFrom =>
      obtain ⟨rfl, same⟩ := Prod.mk.inj (Option.some.inj answers)
      obtain ⟨-, same⟩ := Sigma.mk.inj same
      obtain rfl := eq_of_heq same
      exact executed _ blocks scanTip nextFrom received request requested
    | _ => simp [Bootstrap.Event.answer?] at answers
  rcases scan_lists scan executedWindows with ⟨rfl, impossible⟩ | ⟨tip, first, -, complete⟩
  · cases impossible
  · have whole := (complete rfl).unique (lists_of_logsAt order (fun number hash =>
      logsAt_filter_inRange view anchor.number tip number hash))
    refine ⟨_, tip, rfl, ?_, by rw [whole]⟩
    rw [accepted, Bootstrap.frozenTip, List.cons_append, List.findSome?_cons_of_isNone rfl,
      List.findSome?_append, ← Bootstrap.frozenTip, first]
    rfl

/-- A scan in two windows. -/
def twoWindows [PoolLogDecoder U160] : List Bootstrap.Event :=
  [.finalizedHeaderReceived 1 ⟨0x10, 100⟩,
    .poolCandidatesReceived 2
      (groupRangeLogsByBlock drainOrder (someLogs.filter (inRange 100 199))) 250 (some 200),
    .poolCandidatesReceived 3
      (groupRangeLogsByBlock drainOrder (someLogs.filter (inRange 200 250))) 250 none,
    .poolMetadataReceived 4 ∅, .tokenMetadataReceived 5 ∅]

omit [PoolLogDecoder Content] in
theorem bootstrap_seeds_the_range_twoWindows :
    letI : PoolLogDecoder U160 := ⟨decodeSwap⟩
    letI : Bootstrap.FillerHash := ⟨fun _ _ => 0⟩
    ∃ outcome, Bootstrap.completion (run (Bootstrap.transition .base)
        (Bootstrap.init ⟨0, 60⟩).1 twoWindows).1 = some (.ready outcome) ∧
      outcome.seedBlocks = (Bootstrap.GraphSeed.fromWindow (groupRangeLogsByBlock drainOrder
        (someLogs.filter (inRange outcome.anchor.number 250))) outcome.anchor 0).blocks := by
  let _ : PoolLogDecoder U160 := ⟨decodeSwap⟩
  let _ : Bootstrap.FillerHash := ⟨fun _ _ => 0⟩
  have finished : (Bootstrap.completion (run (Bootstrap.transition .base)
      (Bootstrap.init ⟨0, 60⟩).1 twoWindows).1).isSome := by
    simp [twoWindows, run, Bootstrap.transition, Bootstrap.init, Bootstrap.State.advance,
      Bootstrap.State.take, Bootstrap.finalizedHeaderReceived, Bootstrap.poolCandidatesReceived,
      Bootstrap.poolMetadataReceived, Bootstrap.tokenMetadataReceived,
      RequestStore.issueRequest, RequestStore.takeRequest,
      RequestStore.withCollection, RequestStore.new, Bootstrap.completion]
  have executed : AnswersExecuted baseEndpoints .base someLogs ⟨0, 60⟩ twoWindows := by
    have configured := baseEndpoints_pool
    intro id blocks scanTip nextFrom received request requested
    simp [twoWindows, Bootstrap.issued, run, Bootstrap.transition, Bootstrap.init,
      Bootstrap.State.advance, Bootstrap.State.take, Bootstrap.finalizedHeaderReceived,
      Bootstrap.poolCandidatesReceived, Bootstrap.poolMetadataReceived,
      Bootstrap.tokenMetadataReceived, RequestStore.issueRequest, RequestStore.takeRequest,
      RequestStore.withCollection, RequestStore.new] at received requested
    refine ⟨fun _ => .ok 250, readOf drainOrder someLogs,
      fun endpointPool _ => serves_readOf drainOrder someLogs endpointPool, ?_⟩
    rcases received with ⟨rfl, rfl, rfl, rfl⟩ | ⟨rfl, rfl, rfl, rfl⟩
    · obtain rfl : request = ⟨100, none⟩ := by simpa using requested
      simp only [fetchPoolCandidatesWindow, resolveScanTip, fetchBlockNumber, configured]
      rfl
    · obtain rfl : request = ⟨200, some 250⟩ := by simpa using requested
      simp only [fetchPoolCandidatesWindow, resolveScanTip, configured]
      rfl
  obtain ⟨result, completed⟩ := Option.isSome_iff_exists.mp finished
  obtain ⟨outcome, tip, rfl, first, seeds⟩ := bootstrap_seeds_the_range
    (by simp [twoWindows, AllowedAlong, Bootstrap.BeforeDeadline]) executed completed drainOrder
  obtain rfl : 250 = tip := Option.some.inj first
  exact ⟨outcome, completed, seeds⟩

end ArmchairAnalyst.Client
