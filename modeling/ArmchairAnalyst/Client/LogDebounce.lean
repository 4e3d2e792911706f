import ArmchairAnalyst.PoolLog
import ArmchairAnalyst.TickMath
import ArmchairAnalyst.Library.GroupedFold
import ArmchairAnalyst.Library.KeyedMerge
import ArmchairAnalyst.Library.TransitionSystem

/-!
# The debounce of streamed pool logs

Raw logs from every provider are buffered and emitted as one batch per block. The loop
only flushes when its receive times out, and a receive with no time left still returns
a queued message.
-/

namespace ArmchairAnalyst.Client

open Std (TransOrd LawfulEqOrd)

abbrev Batch := BlockHash × List PoolLog

/-- The logs of each block by their index in it. -/
structure LogBatchBuffer where
  blocks : HashMap BlockHash (BTreeMap UInt64 PoolLog)

/-- An order in which the buffered blocks are drained. -/
structure DrainOrder where
  arrange : List (BlockHash × BTreeMap UInt64 PoolLog) → List (BlockHash × BTreeMap UInt64 PoolLog)
  perm : ∀ blocks, (arrange blocks).Perm blocks

def DrainOrder.ascending : DrainOrder := ⟨id, fun _ => .refl _⟩

namespace LogBatchBuffer

def new : LogBatchBuffer := ⟨∅⟩

def observe (buffer : LogBatchBuffer) (blockHash : BlockHash) (log : PoolLog) : LogBatchBuffer :=
  ⟨buffer.blocks.insert blockHash
    ((buffer.blocks[blockHash]?.getD ∅).insert log.logIndex log)⟩

def isEmpty (buffer : LogBatchBuffer) : Bool := buffer.blocks.isEmpty

def flush (order : DrainOrder) (buffer : LogBatchBuffer) : LogBatchBuffer × List Batch :=
  (new, (order.arrange buffer.blocks.toList).map (fun block => (block.1, HashMap.values block.2)))

end LogBatchBuffer

def flushBatches (order : DrainOrder) (buffer : LogBatchBuffer) : LogBatchBuffer × List Batch :=
  if buffer.isEmpty then (buffer, []) else buffer.flush order

/-! ### The loop -/

/-- What a receive gives back. -/
inductive Received
  | message (blockHash : BlockHash) (log : PoolLog)
  | timeout
  | disconnected
  deriving DecidableEq

/-- One round of the loop with its clock readings: the time its wait is computed from, the
time its receive last looks at the channel, and the time the round is over, which for a
time-out is when the next deadline is set. -/
structure Iteration where
  now : Nat
  looked : Nat
  received : Received
  after : Nat
  order : DrainOrder

def Iteration.message? (iteration : Iteration) : Option (BlockHash × PoolLog) :=
  match iteration.received with
  | .message blockHash log => some (blockHash, log)
  | .timeout => none
  | .disconnected => none

structure Debounce where
  buffer : LogBatchBuffer
  deadline : Nat

namespace Debounce

/-- The loop as it is entered. -/
def start (window now : Nat) : Debounce := ⟨.new, now + window⟩

/-- The wait of a receive, none when the deadline has passed. -/
def remaining (loop : Debounce) (now : Nat) : Nat := loop.deadline - now

def iterate (window : Nat) (loop : Debounce) (iteration : Iteration) : Debounce × List Batch :=
  match iteration.received with
  | .message blockHash log => ({ loop with buffer := loop.buffer.observe blockHash log }, [])
  | .timeout =>
    let (buffer, batches) := flushBatches iteration.order loop.buffer
    ({ buffer, deadline := iteration.after + window }, batches)
  | .disconnected =>
    let (buffer, batches) := flushBatches iteration.order loop.buffer
    ({ loop with buffer }, batches)

end Debounce

/-! ### The channel -/

structure Arrival where
  time : Nat
  blockHash : BlockHash
  log : PoolLog

/-- What the providers send, in the order of the channel, and when the last of them is
gone. The sequence may be without end. -/
structure Feed where
  arrivals : Nat → Option Arrival
  closedAt : Option Nat
  packed : ∀ i, arrivals i = none → arrivals (i + 1) = none
  ordered : ∀ i earlier later, arrivals i = some earlier → arrivals (i + 1) = some later →
    earlier.time ≤ later.time
  sentBefore : ∀ i arrival, arrivals i = some arrival → ∀ closed ∈ closedAt, arrival.time ≤ closed

namespace Feed

/-- A message is queued once the first so many are taken. -/
def Queued (feed : Feed) (taken time : Nat) : Prop :=
  ∃ arrival, feed.arrivals taken = some arrival ∧ arrival.time ≤ time

/-- Nothing is queued any more and every sender is gone. -/
def Disconnected (feed : Feed) (taken time : Nat) : Prop :=
  feed.arrivals taken = none ∧ ∃ closed, feed.closedAt = some closed ∧ closed ≤ time

end Feed

/-- The loop in its surroundings: the messages taken from the channel so far, the time up
to which it has run, and whether it has returned. -/
structure Running where
  debounce : Debounce
  taken : Nat
  clock : Nat
  returned : Bool

namespace Running

def start (window now : Nat) : Running := ⟨.start window now, 0, now, false⟩

def iterate (window : Nat) (loop : Running) (iteration : Iteration) : Running × List Batch :=
  let (debounce, batches) := loop.debounce.iterate window iteration
  ({ debounce
     taken := match iteration.received with
       | .message _ _ => loop.taken + 1
       | .timeout => loop.taken
       | .disconnected => loop.taken
     clock := iteration.after
     returned := decide (iteration.received = .disconnected) }, batches)

/-- A receive may give back what the channel holds when it looks. It gives up only when
nothing is queued then, and not before its wait is over. -/
def Receives (feed : Feed) (loop : Running) (iteration : Iteration) : Prop :=
  match iteration.received with
  | .message blockHash log => ∃ arrival, feed.arrivals loop.taken = some arrival ∧
      arrival.time ≤ iteration.looked ∧ arrival.blockHash = blockHash ∧ arrival.log = log
  | .timeout => ¬ feed.Queued loop.taken iteration.looked ∧
      ¬ feed.Disconnected loop.taken iteration.looked ∧
      iteration.now + loop.debounce.remaining iteration.now ≤ iteration.after
  | .disconnected => feed.Disconnected loop.taken iteration.looked

/-- The rounds follow each other in time until the loop returns. -/
structure Admits (feed : Feed) (loop : Running) (iteration : Iteration) : Prop where
  entered : loop.returned = false
  begins : loop.clock ≤ iteration.now
  looks : iteration.now ≤ iteration.looked
  ends : iteration.looked ≤ iteration.after
  receives : loop.Receives feed iteration

end Running

/-- A run of the loop on a feed. -/
def Timely (feed : Feed) (window start : Nat) (iterations : List Iteration) : Prop :=
  AllowedAlong (Running.iterate window) (Running.Admits feed) (.start window start) iterations

/-- The loop after some of its rounds. -/
def loopAfter (window start : Nat) (iterations : List Iteration) : Running :=
  (run (Running.iterate window) (.start window start) iterations).1

/-- What a round emits after others. -/
def emitted (window start : Nat) (before : List Iteration) (iteration : Iteration) : List Batch :=
  ((loopAfter window start before).iterate window iteration).2

/-! ### What the debounce is for -/

/-- The messages received since the last flush, in order. -/
def sinceFlush (iterations : List Iteration) : List (BlockHash × PoolLog) :=
  iterations.foldl (fun received iteration =>
    match iteration.message? with
    | some message => received ++ [message]
    | none => []) []

/-- The last delivery of a block under an index of a log. -/
def LastDelivery (received : List (BlockHash × PoolLog)) (blockHash : BlockHash)
    (log : PoolLog) : Prop :=
  ∃ earlier later, received = earlier ++ (blockHash, log) :: later ∧
    ∀ other ∈ later, other.1 = blockHash → other.2.logIndex ≠ log.logIndex

/-- One batch for each block received, with the last deliveries of the block in increasing
index. -/
structure Consolidates (received : List (BlockHash × PoolLog)) (batches : List Batch) : Prop where
  distinct : (batches.map Prod.fst).Nodup
  blocks : ∀ blockHash, blockHash ∈ batches.map Prod.fst ↔ blockHash ∈ received.map Prod.fst
  ascending : ∀ batch ∈ batches,
    batch.2.Pairwise (fun earlier later => earlier.logIndex < later.logIndex)
  deliveries : ∀ batch ∈ batches, ∀ log, log ∈ batch.2 ↔ LastDelivery received batch.1 log

/-- Batches are emitted when the loop flushes, and hold what was received since. -/
structure LosesNothing (window start : Nat) (iterations : List Iteration) : Prop where
  quiet : ∀ before iteration later, iterations = before ++ iteration :: later →
    iteration.message?.isSome → emitted window start before iteration = []
  consolidated : ∀ before iteration later, iterations = before ++ iteration :: later →
    iteration.message? = none →
      Consolidates (sinceFlush before) (emitted window start before iteration)

/-- A round that starts at or after the deadline flushes. -/
def FlushesOnTime (window start : Nat) (iterations : List Iteration) : Prop :=
  ∀ before iteration later, iterations = before ++ iteration :: later →
    (loopAfter window start before).debounce.deadline ≤ iteration.now →
      Consolidates (sinceFlush before) (emitted window start before iteration) ∧
      (loopAfter window start (before ++ [iteration])).debounce.buffer.isEmpty

/-- While a log is buffered no receive waits for longer than the window from its delivery,
and at most one message is received once the window has passed. -/
structure HoldsBriefly (window start : Nat) (iterations : List Iteration) : Prop where
  waits : ∀ before first stretch iteration later,
    iterations = before ++ first :: stretch ++ iteration :: later →
    (∀ held ∈ first :: stretch, held.message?.isSome) →
      (loopAfter window start (before ++ first :: stretch)).debounce.remaining iteration.now ≤
        first.looked + window - iteration.now
  messages : ∀ before first stretch later, iterations = before ++ first :: stretch ++ later →
    (∀ held ∈ first :: stretch, held.message?.isSome) →
      stretch.countP (fun held => first.looked + window ≤ held.looked) ≤ 1

/-- Every round that starts at or after the deadline finds nothing queued. -/
def FindsNothingLate (feed : Feed) (window start : Nat) (iterations : List Iteration) : Prop :=
  ∀ before iteration later, iterations = before ++ iteration :: later →
    (loopAfter window start before).debounce.deadline ≤ iteration.now →
      ¬ feed.Queued (loopAfter window start before).taken iteration.looked

/-! ### Buffering and flushing -/

/-- The buffer files the deliveries of each block under their indexes. -/
def LogBatchBuffer.Files (buffer : LogBatchBuffer) (received : List (BlockHash × PoolLog)) : Prop :=
  ∀ blockHash : BlockHash, buffer.blocks[blockHash]? =
    if itemsOf received blockHash = [] then none
    else some (keyedBy PoolLog.logIndex (itemsOf received blockHash))

theorem LogBatchBuffer.files_new : LogBatchBuffer.new.Files [] := by
  intro blockHash
  simp [new, itemsOf]

theorem LogBatchBuffer.Files.observe {buffer : LogBatchBuffer}
    {received : List (BlockHash × PoolLog)} (files : buffer.Files received) (blockHash : BlockHash)
    (log : PoolLog) : (buffer.observe blockHash log).Files (received ++ [(blockHash, log)]) := by
  intro other
  have held : buffer.blocks[blockHash]?.getD ∅ =
      keyedBy PoolLog.logIndex (itemsOf received blockHash) := by
    rw [files blockHash]
    split
    case isTrue none => simp [none]
    case isFalse some => rfl
  rw [LogBatchBuffer.observe, HashMap.getElem?_insert, itemsOf_concat, held]
  by_cases same : other = blockHash
  · simp [same, keyedBy_concat]
  · simp [same, Ne.symm same, files other]

theorem LogBatchBuffer.Files.mem_blocks {buffer : LogBatchBuffer}
    {received : List (BlockHash × PoolLog)} (files : buffer.Files received)
    {block : BlockHash × BTreeMap UInt64 PoolLog} :
    block ∈ buffer.blocks.toList ↔ itemsOf received block.1 ≠ [] ∧
      keyedBy PoolLog.logIndex (itemsOf received block.1) = block.2 := by
  rw [HashMap.mem_toList_iff, files block.1]
  split
  case isTrue none => simp [none]
  case isFalse some => simp [some]

/-- What is filed under an index of a block is the last delivery under it. -/
theorem getElem?_itemsOf (received : List (BlockHash × PoolLog)) (blockHash : BlockHash)
    (index : UInt64) :
    (keyedBy PoolLog.logIndex (itemsOf received blockHash))[index]? =
      (received.reverse.find? (fun message =>
        decide (message.1 = blockHash ∧ message.2.logIndex = index))).map Prod.snd := by
  induction received using List.reverseRecOn with
  | nil => simp [itemsOf]
  | append_singleton received message inductionHypothesis =>
    rw [itemsOf_concat, List.reverse_concat, List.find?_cons]
    by_cases same : message.1 = blockHash
    · rw [if_pos same, getElem?_keyedBy_concat, inductionHypothesis]
      by_cases last : message.2.logIndex = index
      · simp [same, last]
      · simp [last, Ne.symm last]
    · rw [if_neg same, List.append_nil, inductionHypothesis]
      simp [same]

theorem lastDelivery_iff {received : List (BlockHash × PoolLog)} {blockHash : BlockHash}
    {log : PoolLog} :
    LastDelivery received blockHash log ↔
      (keyedBy PoolLog.logIndex (itemsOf received blockHash))[log.logIndex]? = some log := by
  rw [getElem?_itemsOf, Option.map_eq_some_iff]
  constructor
  · rintro ⟨earlier, later, rfl, different⟩
    refine ⟨(blockHash, log), List.find?_eq_some_iff_append.mpr ⟨by simp, later.reverse,
      earlier.reverse, by simp, ?_⟩, rfl⟩
    intro other listed
    have distinct := different other (List.mem_reverse.mp listed)
    simpa [not_and_or, imp_iff_not_or] using distinct
  · rintro ⟨⟨block, last⟩, found, rfl⟩
    obtain ⟨matching, later, earlier, split, different⟩ := List.find?_eq_some_iff_append.mp found
    obtain ⟨rfl, -⟩ := of_decide_eq_true matching
    refine ⟨earlier.reverse, later.reverse, ?_, ?_⟩
    · rw [← List.reverse_reverse received, split]
      simp
    · intro other listed
      have distinct := different other (List.mem_reverse.mp listed)
      simpa [not_and_or, imp_iff_not_or] using distinct

theorem mem_values_iff {received : List (BlockHash × PoolLog)} {blockHash : BlockHash}
    {log : PoolLog} :
    log ∈ HashMap.values (keyedBy PoolLog.logIndex (itemsOf received blockHash)) ↔
      LastDelivery received blockHash log := by
  rw [lastDelivery_iff, HashMap.mem_values]
  constructor
  · rintro ⟨index, found⟩
    rwa [keyed_keyedBy _ _ _ _ found]
  · intro found
    exact ⟨_, found⟩

theorem LogBatchBuffer.Files.flush {buffer : LogBatchBuffer}
    {received : List (BlockHash × PoolLog)} (files : buffer.Files received) (order : DrainOrder) :
    Consolidates received (buffer.flush order).2 where
  distinct := by
    have perm := (order.perm buffer.blocks.toList).map Prod.fst
    rw [LogBatchBuffer.flush, List.map_map]
    refine perm.nodup_iff.mpr ?_
    rw [Std.ExtTreeMap.map_fst_toList_eq_keys]
    exact HashMap.keys_nodup _
  blocks := by
    intro blockHash
    simp only [LogBatchBuffer.flush, List.map_map, List.mem_map, (order.perm _).mem_iff,
      files.mem_blocks, Function.comp_apply]
    constructor
    · rintro ⟨block, ⟨received, -⟩, rfl⟩
      obtain ⟨log, listed⟩ := List.exists_mem_of_ne_nil _ received
      exact ⟨_, mem_itemsOf.mp listed, rfl⟩
    · rintro ⟨⟨blockHash, log⟩, listed, rfl⟩
      exact ⟨(blockHash, keyedBy PoolLog.logIndex (itemsOf received blockHash)),
        ⟨List.ne_nil_of_mem (mem_itemsOf.mpr listed), rfl⟩, rfl⟩
  ascending := by
    intro batch listed
    obtain ⟨block, drained, rfl⟩ := List.mem_map.mp listed
    obtain ⟨-, filed⟩ := files.mem_blocks.mp ((order.perm _).mem_iff.mp drained)
    have ordered := (keyed_keyedBy PoolLog.logIndex (itemsOf received block.1)).pairwise_values
    rw [filed] at ordered
    exact ordered.imp (fun before => Std.compare_eq_lt.mp before)
  deliveries := by
    intro batch listed log
    obtain ⟨block, drained, rfl⟩ := List.mem_map.mp listed
    obtain ⟨-, filed⟩ := files.mem_blocks.mp ((order.perm _).mem_iff.mp drained)
    rw [← filed]
    exact mem_values_iff

theorem LogBatchBuffer.Files.isEmpty_iff {buffer : LogBatchBuffer}
    {received : List (BlockHash × PoolLog)} (files : buffer.Files received) :
    buffer.isEmpty ↔ received = [] := by
  constructor
  · intro empty
    rw [List.eq_nil_iff_forall_not_mem]
    rintro ⟨blockHash, log⟩ listed
    have found := files blockHash
    rw [if_neg (List.ne_nil_of_mem (mem_itemsOf.mpr listed))] at found
    rw [Std.ExtTreeMap.isEmpty_iff.mp empty] at found
    simp at found
  · rintro rfl
    rw [LogBatchBuffer.isEmpty, Std.ExtTreeMap.isEmpty_iff]
    exact HashMap.ext_getElem? (fun blockHash => by simp [files blockHash, itemsOf])

/-- A flush consolidates what the buffer files, and empties it. -/
theorem flushBatches_spec {buffer : LogBatchBuffer} {received : List (BlockHash × PoolLog)}
    (files : buffer.Files received) (order : DrainOrder) :
    Consolidates received (flushBatches order buffer).2 ∧ (flushBatches order buffer).1 = .new := by
  unfold flushBatches
  split
  case isTrue empty =>
    obtain rfl := files.isEmpty_iff.mp empty
    refine ⟨⟨.nil, by simp, by simp, by simp⟩, ?_⟩
    rw [LogBatchBuffer.isEmpty, Std.ExtTreeMap.isEmpty_iff] at empty
    exact congrArg LogBatchBuffer.mk empty
  case isFalse filled => exact ⟨files.flush order, rfl⟩

/-! ### Runs -/

section Runs

variable {feed : Feed} {window start : Nat}

theorem loopAfter_concat (before : List Iteration) (iteration : Iteration) :
    loopAfter window start (before ++ [iteration]) =
      ((loopAfter window start before).iterate window iteration).1 := by
  rw [loopAfter, run_append]
  rfl

theorem sinceFlush_concat (before : List Iteration) (iteration : Iteration) :
    sinceFlush (before ++ [iteration]) =
      match iteration.message? with
      | some message => sinceFlush before ++ [message]
      | none => [] := by
  rw [sinceFlush, List.foldl_append]
  rfl

theorem Timely.admits {before later : List Iteration} {iteration : Iteration}
    (timely : Timely feed window start (before ++ iteration :: later)) :
    (loopAfter window start before).Admits feed iteration :=
  AllowedAlong.of_prefix timely ⟨later, by simp⟩

theorem Timely.before {before later : List Iteration}
    (timely : Timely feed window start (before ++ later)) : Timely feed window start before :=
  AllowedAlong.of_append timely

/-- A message is received exactly when one is queued. -/
theorem Running.Admits.queued_iff {loop : Running} {iteration : Iteration}
    (admits : loop.Admits feed iteration) :
    feed.Queued loop.taken iteration.looked ↔ iteration.message?.isSome := by
  have receives := admits.receives
  unfold Running.Receives at receives
  unfold Iteration.message?
  cases received : iteration.received with
  | message blockHash log =>
    simp only [received] at receives
    obtain ⟨arrival, sent, arrived, -⟩ := receives
    exact ⟨fun _ => rfl, fun _ => ⟨arrival, sent, arrived⟩⟩
  | timeout =>
    simp only [received] at receives
    exact ⟨fun queued => absurd queued receives.1, fun message => by cases message⟩
  | disconnected =>
    simp only [received] at receives
    constructor
    · rintro ⟨arrival, sent, -⟩
      rw [receives.1] at sent
      cases sent
    · intro message
      cases message

/-- A message is taken in without output or a change of the deadline. -/
theorem Running.iterate_message {loop : Running} {iteration : Iteration}
    (message : iteration.message?.isSome) :
    (loop.iterate window iteration).2 = [] ∧
      (loop.iterate window iteration).1.debounce.deadline = loop.debounce.deadline := by
  unfold Iteration.message? at message
  unfold Running.iterate Debounce.iterate
  cases received : iteration.received <;> simp_all

/-- Any other round flushes. -/
theorem Running.iterate_flush {loop : Running} {iteration : Iteration}
    (message : iteration.message? = none) :
    (loop.iterate window iteration).2 =
        (flushBatches iteration.order loop.debounce.buffer).2 ∧
      (loop.iterate window iteration).1.debounce.buffer =
        (flushBatches iteration.order loop.debounce.buffer).1 := by
  unfold Iteration.message? at message
  unfold Running.iterate Debounce.iterate
  cases received : iteration.received <;> simp_all

/-- The buffer files what was received since the last flush. -/
theorem files_sinceFlush (iterations : List Iteration) :
    (loopAfter window start iterations).debounce.buffer.Files (sinceFlush iterations) := by
  induction iterations using List.reverseRecOn with
  | nil => exact LogBatchBuffer.files_new
  | append_singleton before iteration files =>
    rw [loopAfter_concat, sinceFlush_concat]
    cases message : iteration.message? with
    | none =>
      rw [(Running.iterate_flush message).2, (flushBatches_spec files iteration.order).2]
      exact LogBatchBuffer.files_new
    | some delivery =>
      unfold Iteration.message? at message
      unfold Running.iterate Debounce.iterate
      cases received : iteration.received with
      | timeout => simp [received] at message
      | disconnected => simp [received] at message
      | message blockHash log =>
        simp only [received, Option.some.injEq] at message
        subst message
        exact files.observe blockHash log

theorem losesNothing (iterations : List Iteration) : LosesNothing window start iterations where
  quiet := fun _ _ _ _ message => (Running.iterate_message message).1
  consolidated := by
    intro before iteration later _ message
    rw [emitted, (Running.iterate_flush message).1]
    exact (flushBatches_spec (files_sinceFlush before) iteration.order).1

/-- A deadline is set no further ahead than the window. -/
theorem Timely.deadline_le {iterations : List Iteration}
    (timely : Timely feed window start iterations) :
    (loopAfter window start iterations).debounce.deadline ≤
      (loopAfter window start iterations).clock + window := by
  induction iterations using List.reverseRecOn with
  | nil => exact Nat.le_refl _
  | append_singleton before iteration inductionHypothesis =>
    have admits := timely.admits
    have bound := inductionHypothesis timely.before
    have begins := admits.begins
    have looks := admits.looks
    have ends := admits.ends
    rw [loopAfter_concat]
    unfold Running.iterate Debounce.iterate
    cases iteration.received with
    | message blockHash log =>
      change (loopAfter window start before).debounce.deadline ≤ iteration.after + window
      omega
    | timeout => exact Nat.le_refl _
    | disconnected =>
      change (loopAfter window start before).debounce.deadline ≤ iteration.after + window
      omega

/-- Every look at the channel is over when the clock is read again. -/
theorem Timely.looked_le {iterations : List Iteration}
    (timely : Timely feed window start iterations) {iteration : Iteration}
    (listed : iteration ∈ iterations) :
    iteration.looked ≤ (loopAfter window start iterations).clock := by
  induction iterations using List.reverseRecOn with
  | nil => cases listed
  | append_singleton before last inductionHypothesis =>
    have admits := timely.admits
    have begins := admits.begins
    have looks := admits.looks
    have ends := admits.ends
    have clock : (loopAfter window start (before ++ [last])).clock = last.after := by
      rw [loopAfter_concat]
      rfl
    rw [clock]
    rcases List.mem_append.mp listed with earlier | final
    · have bound := inductionHypothesis timely.before earlier
      omega
    · obtain rfl := List.mem_singleton.mp final
      exact ends

/-- The deadline stands while messages are received. -/
theorem deadline_append (before : List Iteration) {stretch : List Iteration}
    (messages : ∀ held ∈ stretch, held.message?.isSome) :
    (loopAfter window start (before ++ stretch)).debounce.deadline =
      (loopAfter window start before).debounce.deadline := by
  induction stretch using List.reverseRecOn with
  | nil => rw [List.append_nil]
  | append_singleton stretch last inductionHypothesis =>
    rw [← List.append_assoc, loopAfter_concat,
      (Running.iterate_message (messages last (by simp))).2]
    exact inductionHypothesis (fun held listed => messages held (by simp [listed]))

/-- While a log is buffered the deadline lies within the window from its delivery. -/
theorem Timely.deadline_held {before stretch later : List Iteration} {first : Iteration}
    (timely : Timely feed window start (before ++ first :: stretch ++ later))
    (messages : ∀ held ∈ first :: stretch, held.message?.isSome) :
    (loopAfter window start (before ++ first :: stretch)).debounce.deadline ≤
      first.looked + window := by
  rw [deadline_append before messages]
  rw [List.append_assoc] at timely
  have bound := timely.before.deadline_le
  have admits := Timely.admits timely
  have begins := admits.begins
  have looks := admits.looks
  omega

theorem Timely.holdsBriefly {iterations : List Iteration}
    (timely : Timely feed window start iterations)
    (nothingLate : FindsNothingLate feed window start iterations) :
    HoldsBriefly window start iterations where
  waits := by
    rintro before first stretch iteration later rfl messages
    have bound := timely.deadline_held messages
    exact Nat.sub_le_sub_right bound iteration.now
  messages := by
    rintro before first stretch later rfl messages
    rcases List.eq_nil_or_concat' stretch with rfl | ⟨earlier, last, rfl⟩
    · simp
    -- All but the last of the messages are over when the last round starts, before the deadline.
    · have split : before ++ first :: (earlier ++ [last]) ++ later =
          (before ++ first :: earlier) ++ last :: later := by simp
      rw [split] at timely nothingLate
      have admits := timely.admits
      have queued := admits.queued_iff.mpr (messages last (by simp))
      have early := mt (nothingLate _ _ _ rfl) (not_not_intro queued)
      have held : ∀ held ∈ first :: earlier, held.message?.isSome := by
        intro held listed
        refine messages held ?_
        rw [← List.cons_append]
        exact List.mem_append_left _ listed
      have bound := timely.deadline_held held
      have begins := admits.begins
      have none : earlier.countP (fun held => decide (first.looked + window ≤ held.looked)) = 0 := by
        rw [List.countP_eq_zero]
        intro held listed late
        have member : held ∈ before ++ first :: earlier := by simp [listed]
        have looked := timely.before.looked_le member
        have late := of_decide_eq_true late
        omega
      rw [List.countP_append, none, Nat.zero_add]
      exact List.countP_le_length

/-- A round flushes at or after the deadline when nothing is queued. -/
theorem Timely.flushesOnTime_iff {iterations : List Iteration}
    (timely : Timely feed window start iterations) :
    FlushesOnTime window start iterations ↔ FindsNothingLate feed window start iterations := by
  constructor
  · rintro onTime before iteration later rfl late queued
    obtain ⟨-, empty⟩ := onTime _ _ _ rfl late
    obtain ⟨message, received⟩ := Option.isSome_iff_exists.mp (timely.admits.queued_iff.mp queued)
    have cleared := (files_sinceFlush (before ++ [iteration])).isEmpty_iff.mp empty
    rw [sinceFlush_concat, received] at cleared
    exact List.append_ne_nil_of_right_ne_nil _ (List.cons_ne_nil _ _) cleared
  · rintro nothingLate before iteration later rfl late
    have received : iteration.message? = none := by
      have unqueued := mt timely.admits.queued_iff.mpr (nothingLate _ _ _ rfl late)
      simpa using unqueued
    refine ⟨(losesNothing _).consolidated _ _ later rfl received, ?_⟩
    rw [loopAfter_concat, (Running.iterate_flush received).2,
      (flushBatches_spec (files_sinceFlush before) iteration.order).2]
    rfl

/-- The debounce keeps its promise exactly on the runs in which every round that starts at or
after the deadline finds nothing queued. -/
theorem consolidatePoolLogs_iff {iterations : List Iteration}
    (timely : Timely feed window start iterations) :
    LosesNothing window start iterations ∧ FlushesOnTime window start iterations ∧
        HoldsBriefly window start iterations ↔
      FindsNothingLate feed window start iterations := by
  constructor
  · rintro ⟨-, onTime, -⟩
    exact timely.flushesOnTime_iff.mp onTime
  · intro nothingLate
    exact ⟨losesNothing iterations, timely.flushesOnTime_iff.mpr nothingLate,
      timely.holdsBriefly nothingLate⟩

end Runs

/-! ### A backlog -/

def sampleLog (logIndex : UInt64) : PoolLog := ⟨.uniswapV3 0, logIndex, .initializePool 0 minTick⟩

/-- A message every period, so many of them. -/
def steadyFeed (period count : Nat) : Feed where
  arrivals i := if i < count then some ⟨period * i, 0, sampleLog i.toUInt64⟩ else none
  closedAt := none
  packed i absent := by
    have past : ¬ i < count := fun sent => by simp [sent] at absent
    rw [if_neg (fun sent => past (Nat.lt_of_succ_lt sent))]
  ordered i earlier later sent sent' := by
    rw [Option.ite_none_right_eq_some, Option.some.injEq] at sent sent'
    rw [← sent.2, ← sent'.2]
    exact Nat.mul_le_mul_left period (Nat.le_succ i)
  sentBefore _ _ _ _ gone := by cases gone

/-- A round that receives the message of an index. -/
def messageRound (index now looked after : Nat) : Iteration :=
  ⟨now, looked, .message 0 (sampleLog index.toUInt64), after, .ascending⟩

/-- A round whose receive gives up at once. -/
def timeoutRound (now : Nat) : Iteration := ⟨now, now, .timeout, now, .ascending⟩

theorem consolidatePoolLogs_iff_paused :
    LosesNothing 100000 0
        [messageRound 0 0 0 10, messageRound 1 10 99990 100000, timeoutRound 100000] ∧
      FlushesOnTime 100000 0
        [messageRound 0 0 0 10, messageRound 1 10 99990 100000, timeoutRound 100000] ∧
      HoldsBriefly 100000 0
        [messageRound 0 0 0 10, messageRound 1 10 99990 100000, timeoutRound 100000] := by
  have timely : Timely (steadyFeed 99990 3) 100000 0
      [messageRound 0 0 0 10, messageRound 1 10 99990 100000, timeoutRound 100000] := by
    refine ⟨?_, ?_, ?_, trivial⟩
    · exact ⟨rfl, by decide, by decide, by decide, _, rfl, by decide, rfl, rfl⟩
    · exact ⟨rfl, by decide, by decide, by decide, _, rfl, by decide, rfl, rfl⟩
    · refine ⟨rfl, by decide, by decide, by decide, ?_, ?_, by decide⟩
      · rintro ⟨arrival, sent, arrived⟩
        rw [← Option.some.inj sent] at arrived
        exact absurd arrived (by decide)
      · rintro ⟨absent, -⟩
        cases absent
  refine (consolidatePoolLogs_iff timely).mpr ?_
  intro before iteration later split late
  rcases before with _ | ⟨first, _ | ⟨second, _ | ⟨third, before⟩⟩⟩ <;>
    simp only [List.nil_append, List.cons_append, List.cons.injEq] at split
  · obtain ⟨rfl, -⟩ := split
    exact absurd late (by decide)
  · obtain ⟨rfl, rfl, -⟩ := split
    exact absurd late (by decide)
  -- The round that starts at the deadline looks before the third message arrives.
  · obtain ⟨rfl, rfl, rfl, -⟩ := split
    rintro ⟨arrival, sent, arrived⟩
    rw [← Option.some.inj sent] at arrived
    exact absurd arrived (by decide)
  · simp at split

/-- Rounds that take queued messages without a pause, each as long as it takes to file one. -/
def backlogRounds (cost count : Nat) : List Iteration :=
  (List.range count).map (fun i => messageRound i (cost * i) (cost * i) (cost * i + cost))

theorem backlogRounds_succ (cost count : Nat) :
    backlogRounds cost (count + 1) = backlogRounds cost count ++
      [messageRound count (cost * count) (cost * count) (cost * count + cost)] := by
  simp [backlogRounds, List.range_succ]

theorem backlogRounds_cons (cost count : Nat) :
    backlogRounds cost (count + 1) = messageRound 0 0 0 cost ::
      (List.range count).map (fun i => messageRound (i + 1) (cost * (i + 1)) (cost * (i + 1))
        (cost * (i + 1) + cost)) := by
  simp [backlogRounds, List.range_succ_eq_map]

theorem backlogRounds_messages (cost count : Nat) :
    ∀ held ∈ backlogRounds cost count, held.message?.isSome := by
  intro held listed
  obtain ⟨i, -, rfl⟩ := List.mem_map.mp listed
  rfl

theorem loopAfter_backlogRounds (window cost count : Nat) :
    (loopAfter window 0 (backlogRounds cost count)).taken = count ∧
      (loopAfter window 0 (backlogRounds cost count)).clock = cost * count ∧
      (loopAfter window 0 (backlogRounds cost count)).returned = false := by
  induction count with
  | zero => exact ⟨rfl, rfl, rfl⟩
  | succ count inductionHypothesis =>
    rw [backlogRounds_succ, loopAfter_concat]
    exact ⟨congrArg (· + 1) inductionHypothesis.1, rfl, rfl⟩

theorem deadline_backlogRounds (window cost count : Nat) :
    (loopAfter window 0 (backlogRounds cost count)).debounce.deadline = window := by
  have stands := @deadline_append window 0 [] _ (backlogRounds_messages cost count)
  rw [List.nil_append] at stands
  rw [stands]
  exact Nat.zero_add window

/-- The loop may take messages that are all queued at the start in such rounds. -/
theorem timely_backlogRounds (window cost : Nat) {count total : Nat} (queued : count ≤ total) :
    Timely (steadyFeed 0 total) window 0 (backlogRounds cost count) := by
  induction count with
  | zero => trivial
  | succ count inductionHypothesis =>
    obtain ⟨taken, clock, returned⟩ := loopAfter_backlogRounds window cost count
    rw [backlogRounds_succ]
    refine AllowedAlong.append (inductionHypothesis (Nat.le_of_succ_le queued)) ⟨?_, trivial⟩
    change Running.Admits _ (loopAfter window 0 (backlogRounds cost count)) _
    refine ⟨returned, Nat.le_of_eq clock, Nat.le_refl _, Nat.le_add_right _ _, ?_⟩
    refine ⟨⟨0 * count, 0, sampleLog count.toUInt64⟩, ?_, ?_, rfl, rfl⟩
    · rw [taken]
      exact if_pos queued
    · exact Nat.le_trans (Nat.le_of_eq (Nat.zero_mul count)) (Nat.zero_le _)

/-- A backlog that takes longer than the window is not flushed while it lasts. -/
theorem backlog_unflushed {window cost count : Nat} (late : window ≤ cost * (count + 1)) :
    Timely (steadyFeed 0 (count + 3)) window 0 (backlogRounds cost (count + 3)) ∧
      ¬ FlushesOnTime window 0 (backlogRounds cost (count + 3)) ∧
      ¬ HoldsBriefly window 0 (backlogRounds cost (count + 3)) := by
  have timely := timely_backlogRounds window cost (Nat.le_refl (count + 3))
  refine ⟨timely, ?_, ?_⟩
  · rw [timely.flushesOnTime_iff]
    intro nothingLate
    have taken := (loopAfter_backlogRounds window cost (count + 2)).1
    refine nothingLate _ _ [] (backlogRounds_succ cost (count + 2)) ?_ ?_
    · rw [deadline_backlogRounds]
      exact Nat.le_trans late (Nat.mul_le_mul_left cost (Nat.le_succ _))
    · rw [taken]
      exact ⟨⟨0 * (count + 2), 0, sampleLog _⟩, if_pos (Nat.lt_succ_self _), by simp⟩
  -- The last two messages are received once the window has passed.
  · rintro ⟨-, messages⟩
    have rounds := backlogRounds_cons cost (count + 2)
    have few := messages [] _ _ [] (rounds.trans (List.append_nil _).symm)
      (rounds ▸ backlogRounds_messages cost (count + 3))
    have later : window ≤ cost * (count + 2) :=
      Nat.le_trans late (Nat.mul_le_mul_left cost (Nat.le_succ _))
    simp [messageRound, List.range_succ, late, later] at few

/-- Five thousand logs that are queued when the loop is entered, with a window of a tenth of a
second and twenty microseconds to file each: the log received first is still buffered, and
messages are still received, when the deadline has passed. -/
theorem debounce_starved :
    Timely (steadyFeed 0 5003) 100000 0 (backlogRounds 20 5003) ∧
      ¬ FlushesOnTime 100000 0 (backlogRounds 20 5003) ∧
      ¬ HoldsBriefly 100000 0 (backlogRounds 20 5003) := by
  have late : 100000 ≤ 20 * (5000 + 1) := by norm_num
  exact backlog_unflushed late

end ArmchairAnalyst.Client
