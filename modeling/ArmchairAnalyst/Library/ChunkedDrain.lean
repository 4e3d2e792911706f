import Mathlib

/-!
# Draining a list in chunks

Items are settled in batches. The answer to a batch settles its items but for the failing
ones, and the first items that are neither settled nor held by a batch make up the next
batch. A round answers every batch held at its start, in any order.
-/

namespace ArmchairAnalyst

variable {Item : Type} [DecidableEq Item]

/-! ### Prefixes of a filtered list -/

/-- An item is among the first that pass a test when few enough of them precede it. -/
theorem mem_take_filter {items : List Item} {item : Item} {passes : Item → Bool}
    (listed : item ∈ items) (passed : passes item = true) (count : Nat) :
    item ∈ (items.filter passes).take count ↔
      ((items.takeWhile (fun other => other ≠ item)).filter passes).length < count := by
  induction items generalizing count with
  | nil => simp at listed
  | cons first items inductionHypothesis =>
    by_cases same : first = item
    · subst same
      cases count <;> simp [passed]
    · have further : item ∈ items := (List.mem_cons.mp listed).resolve_left (Ne.symm same)
      by_cases firstPasses : passes first = true
      · cases count with
        | zero => simp
        | succ count => simp [same, firstPasses, Ne.symm same, inductionHypothesis further count]
      · simp [same, firstPasses, inductionHypothesis further count]

/-- The first that pass a test precede every later one. -/
theorem take_filter_of_le {items : List Item} {item : Item} {passes : Item → Bool} {count : Nat}
    (full : count ≤ ((items.takeWhile (fun other => other ≠ item)).filter passes).length) :
    (items.filter passes).take count =
      ((items.takeWhile (fun other => other ≠ item)).filter passes).take count := by
  conv_lhs => rw [← List.takeWhile_append_dropWhile (p := fun other => other ≠ item) (l := items)]
  rw [List.filter_append, List.take_append_of_le_length full]

/-! ### The drain -/

/-- The settled items, the batches still to be answered in the present round and the
batches formed in it. -/
structure Drain (Item : Type) where
  settled : Finset Item
  waiting : List (Finset Item)
  fresh : List (Finset Item)

namespace Drain

/-- The items some batch holds. -/
def held (drain : Drain Item) : Finset Item :=
  (drain.waiting ++ drain.fresh).toFinset.biUnion id

theorem mem_held (drain : Drain Item) (item : Item) :
    item ∈ drain.held ↔ ∃ batch ∈ drain.waiting ++ drain.fresh, item ∈ batch := by
  simp only [held, Finset.mem_biUnion, List.mem_toFinset, id_eq]

/-- Batches of at most `size` items hold at most that many items each. -/
theorem card_held_le (drain : Drain Item) {size : Nat}
    (small : ∀ batch ∈ drain.waiting ++ drain.fresh, batch.card ≤ size) :
    drain.held.card ≤ size * (drain.waiting.length + drain.fresh.length) := by
  have bounded := Finset.card_biUnion_le_card_mul (drain.waiting ++ drain.fresh).toFinset id size
    (fun batch membership => small batch (List.mem_toFinset.mp membership))
  have batches := List.toFinset_card_le (drain.waiting ++ drain.fresh)
  rw [List.length_append] at batches
  calc drain.held.card ≤ (drain.waiting ++ drain.fresh).toFinset.card * size := bounded
    _ ≤ (drain.waiting.length + drain.fresh.length) * size := Nat.mul_le_mul_right size batches
    _ = size * (drain.waiting.length + drain.fresh.length) := Nat.mul_comm _ _

section

variable (items : List Item) (fails : Item → Prop) [DecidablePred fails] (chunk : Nat)

/-- The items that are neither settled nor held, in order. -/
def free (drain : Drain Item) : List Item :=
  items.filter (fun item => item ∉ drain.settled ∧ item ∉ drain.held)

/-- The first free items. -/
def next (drain : Drain Item) : List Item := (drain.free items).take chunk

/-- The answer to a batch, before the next batch is formed. -/
def settle (drain : Drain Item) (batch : Finset Item) (waiting : List (Finset Item)) :
    Drain Item where
  settled := drain.settled ∪ batch.filter (fun item => ¬ fails item)
  waiting := waiting
  fresh := drain.fresh

/-- The next batch is formed from the first free items, if there are any. -/
def refill (drain : Drain Item) : Drain Item :=
  if drain.next items chunk = [] then drain
  else { drain with fresh := (drain.next items chunk).toFinset :: drain.fresh }

/-- The first waiting batch is answered and the next batch is formed. -/
def answer (drain : Drain Item) : Drain Item :=
  match drain.waiting with
  | [] => drain
  | batch :: waiting => (drain.settle fails batch waiting).refill items chunk

/-- Every waiting batch is answered in turn. -/
def finish (drain : Drain Item) : Drain Item :=
  (answer items fails chunk)^[drain.waiting.length] drain

/-- The batches held wait in the given order. -/
def await (drain : Drain Item) (order : List (Finset Item)) : Drain Item where
  settled := drain.settled
  waiting := order
  fresh := []

/-- A number of rounds, each of which answers the batches held at its start in some order. -/
inductive Rounds : Nat → Drain Item → Drain Item → Prop
  | done (drain : Drain Item) : Rounds 0 drain drain
  | round {count : Nat} {drain last : Drain Item} {order : List (Finset Item)} :
    order.Perm (drain.waiting ++ drain.fresh) →
    Rounds count ((drain.await order).finish items fails chunk) last →
    Rounds (count + 1) drain last

/-- The failing items before an item that are not settled. -/
def failingAhead (settled : Finset Item) (item : Item) : List Item :=
  (items.takeWhile (fun other => other ≠ item)).filter (fun other =>
    fails other ∧ other ∉ settled)

/-- The items that can be settled and are not. -/
def unsettled (settled : Finset Item) : Finset Item :=
  items.toFinset.filter (fun item => ¬ fails item ∧ item ∉ settled)

end

variable {items : List Item} {fails : Item → Prop} [DecidablePred fails] {chunk : Nat}

omit [DecidablePred fails] in
theorem mem_free (drain : Drain Item) (item : Item) :
    item ∈ drain.free items ↔ item ∈ items ∧ item ∉ drain.settled ∧ item ∉ drain.held := by
  simp [free, List.mem_filter]

theorem mem_failingAhead (settled : Finset Item) (item other : Item) :
    other ∈ failingAhead items fails settled item ↔
      other ∈ items.takeWhile (fun first => first ≠ item) ∧ fails other ∧ other ∉ settled := by
  simp only [failingAhead, List.mem_filter, decide_eq_true_eq]

/-! ### One answer -/

@[simp] theorem refill_settled (drain : Drain Item) :
    (drain.refill items chunk).settled = drain.settled := by
  unfold refill
  split <;> rfl

@[simp] theorem refill_waiting (drain : Drain Item) :
    (drain.refill items chunk).waiting = drain.waiting := by
  unfold refill
  split <;> rfl

theorem held_refill (drain : Drain Item) (item : Item) :
    item ∈ (drain.refill items chunk).held ↔
      item ∈ drain.held ∨ item ∈ drain.next items chunk := by
  unfold refill
  split
  · rename_i nothing
    simp [nothing]
  · simp only [mem_held, List.mem_append, List.mem_cons]
    constructor
    · rintro ⟨batch, waits | rfl | formed, membership⟩
      · exact .inl ⟨batch, .inl waits, membership⟩
      · exact .inr (List.mem_toFinset.mp membership)
      · exact .inl ⟨batch, .inr formed, membership⟩
    · rintro (⟨batch, waits | formed, membership⟩ | next)
      · exact ⟨batch, .inl waits, membership⟩
      · exact ⟨batch, .inr (.inr formed), membership⟩
      · exact ⟨_, .inr (.inl rfl), List.mem_toFinset.mpr next⟩

theorem mem_settle (drain : Drain Item) (batch : Finset Item) (waiting : List (Finset Item))
    (item : Item) :
    item ∈ (drain.settle fails batch waiting).settled ↔
      item ∈ drain.settled ∨ item ∈ batch ∧ ¬ fails item := by
  simp [settle]

variable (fails) in
/-- What the first waiting batch holds is settled or fails, and the rest stays held. -/
theorem held_settle {drain : Drain Item} {batch : Finset Item} {waiting : List (Finset Item)}
    (waits : drain.waiting = batch :: waiting) (item : Item) :
    item ∈ drain.held ↔ item ∈ batch ∨ item ∈ (drain.settle fails batch waiting).held := by
  simp only [mem_held, waits, settle, List.cons_append, List.mem_cons]
  constructor
  · rintro ⟨other, rfl | later, membership⟩
    · exact .inl membership
    · exact .inr ⟨other, later, membership⟩
  · rintro (first | ⟨other, later, membership⟩)
    · exact ⟨batch, .inl rfl, first⟩
    · exact ⟨other, .inr later, membership⟩

theorem answer_cons {drain : Drain Item} {batch : Finset Item} {waiting : List (Finset Item)}
    (waits : drain.waiting = batch :: waiting) :
    drain.answer items fails chunk = (drain.settle fails batch waiting).refill items chunk := by
  simp only [answer, waits]

theorem settled_answer_mono (drain : Drain Item) :
    drain.settled ⊆ (drain.answer items fails chunk).settled := by
  unfold answer
  split
  · exact Finset.Subset.refl _
  · rw [refill_settled]
    exact Finset.subset_union_left

theorem failing_settled_answer (drain : Drain Item) {item : Item} (failing : fails item) :
    item ∈ (drain.answer items fails chunk).settled ↔ item ∈ drain.settled := by
  unfold answer
  split
  · exact Iff.rfl
  · rw [refill_settled, mem_settle]
    exact ⟨fun either => either.resolve_right (fun answered => answered.2 failing), .inl⟩

/-! ### A round -/

theorem finish_nil {drain : Drain Item} (idle : drain.waiting = []) :
    drain.finish items fails chunk = drain := by
  simp [finish, idle]

theorem finish_cons {drain : Drain Item} {batch : Finset Item} {waiting : List (Finset Item)}
    (waits : drain.waiting = batch :: waiting) :
    drain.finish items fails chunk =
      ((drain.settle fails batch waiting).refill items chunk).finish items fails chunk := by
  have rest : ((drain.settle fails batch waiting).refill items chunk).waiting.length =
      waiting.length := by rw [refill_waiting]; rfl
  rw [finish, waits, List.length_cons, Function.iterate_succ_apply, answer_cons waits, finish, rest]

/-- What holds at the start of a round and is kept by each answer holds at its end. -/
theorem finish_induction (holds : Drain Item → Prop) {drain : Drain Item} (start : holds drain)
    (each : ∀ drain batch waiting, drain.waiting = batch :: waiting → holds drain →
      holds ((drain.settle fails batch waiting).refill items chunk)) :
    holds (drain.finish items fails chunk) := by
  generalize waits : drain.waiting = waiting
  induction waiting generalizing drain with
  | nil =>
    rw [finish_nil waits]
    exact start
  | cons batch waiting inductionHypothesis =>
    rw [finish_cons waits]
    apply inductionHypothesis
    · exact each drain batch waiting waits start
    · rw [refill_waiting]
      rfl

theorem finish_waiting (drain : Drain Item) : (drain.finish items fails chunk).waiting = [] := by
  generalize waits : drain.waiting = waiting
  induction waiting generalizing drain with
  | nil => rw [finish_nil waits, waits]
  | cons batch waiting inductionHypothesis =>
    rw [finish_cons waits]
    apply inductionHypothesis
    rw [refill_waiting]
    rfl

theorem settled_finish_mono (drain : Drain Item) :
    drain.settled ⊆ (drain.finish items fails chunk).settled := by
  apply finish_induction (fun later => drain.settled ⊆ later.settled)
  · exact Finset.Subset.refl _
  · intro later batch waiting waits earlier
    rw [← answer_cons waits]
    exact earlier.trans (settled_answer_mono later)

theorem failing_settled_finish (drain : Drain Item) {item : Item} (failing : fails item) :
    item ∈ (drain.finish items fails chunk).settled ↔ item ∈ drain.settled := by
  apply finish_induction (fun later => item ∈ later.settled ↔ item ∈ drain.settled)
  · exact Iff.rfl
  · intro later batch waiting waits earlier
    rw [← answer_cons waits, failing_settled_answer later failing]
    exact earlier

variable (items fails chunk) in
theorem failingAhead_finish (drain : Drain Item) (item : Item) :
    failingAhead items fails (drain.finish items fails chunk).settled item =
      failingAhead items fails drain.settled item := by
  apply List.filter_congr
  intro other _
  by_cases failing : fails other
  · simp [failing, failing_settled_finish drain failing]
  · simp [failing]

/-- What waits at the start of a round and does not fail is settled at its end. -/
theorem finish_settles {drain : Drain Item} {batch : Finset Item} (waits : batch ∈ drain.waiting)
    {item : Item} (member : item ∈ batch) (works : ¬ fails item) :
    item ∈ (drain.finish items fails chunk).settled := by
  generalize queue : drain.waiting = waiting at waits
  induction waiting generalizing drain with
  | nil => exact absurd waits List.not_mem_nil
  | cons first waiting inductionHypothesis =>
    rw [finish_cons queue]
    rcases List.mem_cons.mp waits with rfl | later
    · apply settled_finish_mono
      rw [refill_settled, mem_settle]
      exact .inr ⟨member, works⟩
    · refine inductionHypothesis ?_ later
      rw [refill_waiting]
      rfl

/-- What is held at some point of a round is settled or held at its end. -/
theorem held_finish {drain : Drain Item} {item : Item} (works : ¬ fails item)
    (reached : item ∈ drain.settled ∨ item ∈ drain.held) :
    item ∈ (drain.finish items fails chunk).settled ∨
      item ∈ (drain.finish items fails chunk).held := by
  apply finish_induction (fun later => item ∈ later.settled ∨ item ∈ later.held) reached
  rintro later batch waiting waits (settled | held)
  · left
    rw [refill_settled, mem_settle]
    exact .inl settled
  · rcases (held_settle fails waits item).mp held with answered | still
    · left
      rw [refill_settled, mem_settle]
      exact .inr ⟨answered, works⟩
    · right
      rw [held_refill]
      exact .inl still

section Target

variable {target : Item}

theorem next_ne_nil {drain : Drain Item} (free : target ∈ drain.free items)
    (positive : 0 < chunk) : drain.next items chunk ≠ [] := by
  rw [next, Ne, List.take_eq_nil_iff, not_or]
  exact ⟨Nat.pos_iff_ne_zero.mp positive, List.ne_nil_of_mem free⟩

theorem mem_next_iff {drain : Drain Item} (free : target ∈ drain.free items) :
    target ∈ drain.next items chunk ↔
      ((items.takeWhile (fun other => other ≠ target)).filter (fun item =>
        item ∉ drain.settled ∧ item ∉ drain.held)).length < chunk := by
  obtain ⟨listed, passes⟩ := List.mem_filter.mp free
  exact mem_take_filter listed passes chunk

/-- A batch that leaves a free item out is full and made up of items before it. -/
theorem next_left_out {drain : Drain Item} (free : target ∈ drain.free items)
    (out : target ∉ drain.next items chunk) :
    (drain.next items chunk).length = chunk ∧
      ∀ item ∈ drain.next items chunk, item ∈ items.takeWhile (fun other => other ≠ target) := by
  rw [mem_next_iff free, Nat.not_lt] at out
  rw [next, Drain.free, take_filter_of_le out, List.length_take, Nat.min_eq_left out]
  exact ⟨rfl, fun item membership => (List.mem_filter.mp (List.mem_of_mem_take membership)).1⟩

/-- Until an item is settled or held, every answer forms a new batch. -/
theorem finish_fresh_length {drain : Drain Item} (listed : target ∈ items)
    (works : ¬ fails target) (positive : 0 < chunk)
    (unreached : target ∉ (drain.finish items fails chunk).settled ∧
      target ∉ (drain.finish items fails chunk).held) :
    (drain.finish items fails chunk).fresh.length = drain.waiting.length + drain.fresh.length := by
  generalize waits : drain.waiting = waiting at *
  induction waiting generalizing drain with
  | nil =>
    rw [finish_nil waits]
    exact (Nat.zero_add _).symm
  | cons batch waiting inductionHypothesis =>
    rw [finish_cons waits] at unreached ⊢
    have missed : ¬ (target ∈ ((drain.settle fails batch waiting).refill items chunk).settled ∨
        target ∈ ((drain.settle fails batch waiting).refill items chunk).held) := by
      intro reached
      exact not_or.mpr unreached (held_finish works reached)
    rw [refill_settled, held_refill, not_or, not_or] at missed
    obtain ⟨unsettled, unheld, out⟩ := missed
    have free : target ∈ (drain.settle fails batch waiting).free items :=
      (mem_free _ _).mpr ⟨listed, unsettled, unheld⟩
    rw [inductionHypothesis unreached (by rw [refill_waiting]; rfl), refill,
      if_neg (next_ne_nil free positive)]
    simp only [settle, List.length_cons]
    omega

/-- The items of full batches, all of them failing and ahead of the target. -/
def Blocked (items : List Item) (fails : Item → Prop) [DecidablePred fails] (chunk : Nat)
    (target : Item) (drain : Drain Item) : Prop :=
  ∃ blocking : Finset Item, blocking.card = chunk * drain.fresh.length ∧
    blocking ⊆ (failingAhead items fails drain.settled target).toFinset ∧
    ∀ item ∈ blocking, ∃ batch ∈ drain.fresh, item ∈ batch

theorem Blocked.length_le {drain : Drain Item} (blocked : Blocked items fails chunk target drain) :
    chunk * drain.fresh.length ≤ (failingAhead items fails drain.settled target).length := by
  obtain ⟨blocking, count, ahead, -⟩ := blocked
  calc chunk * drain.fresh.length = blocking.card := count.symm
    _ ≤ (failingAhead items fails drain.settled target).toFinset.card := Finset.card_le_card ahead
    _ ≤ (failingAhead items fails drain.settled target).length := List.toFinset_card_le _

/-- An answer after which the target stays free adds a full batch of failing items, unless
the new batch holds an item that does not fail. -/
theorem Blocked.answered {drain : Drain Item} {batch : Finset Item} {waiting : List (Finset Item)}
    (distinct : items.Nodup) (listed : target ∈ items) (positive : 0 < chunk)
    (blocked : Blocked items fails chunk target drain)
    (missed : target ∉ ((drain.settle fails batch waiting).refill items chunk).settled ∧
      target ∉ ((drain.settle fails batch waiting).refill items chunk).held)
    (failing : ∀ batch' ∈ ((drain.settle fails batch waiting).refill items chunk).fresh,
      ∀ item ∈ batch', fails item) :
    Blocked items fails chunk target ((drain.settle fails batch waiting).refill items chunk) := by
  obtain ⟨blocking, count, ahead, formed⟩ := blocked
  rw [refill_settled, held_refill, not_or] at missed
  obtain ⟨unsettled, unheld, out⟩ := missed
  have free : target ∈ (drain.settle fails batch waiting).free items :=
    (mem_free _ _).mpr ⟨listed, unsettled, unheld⟩
  obtain ⟨size, before⟩ := next_left_out free out
  have refilled : (drain.settle fails batch waiting).refill items chunk =
      { drain.settle fails batch waiting with
        fresh := ((drain.settle fails batch waiting).next items chunk).toFinset ::
          drain.fresh } := if_neg (next_ne_nil free positive)
  rw [refilled] at failing ⊢
  generalize listing : (drain.settle fails batch waiting).next items chunk = next at *
  have nextFree : ∀ item ∈ next, item ∉ (drain.settle fails batch waiting).settled ∧
      item ∉ (drain.settle fails batch waiting).held := by
    intro item membership
    rw [← listing] at membership
    exact ((mem_free _ _).mp (List.mem_of_mem_take membership)).2
  refine ⟨blocking ∪ next.toFinset, ?_, ?_, ?_⟩
  · have apart : Disjoint blocking next.toFinset := by
      rw [Finset.disjoint_left]
      intro item blocks again
      obtain ⟨other, membership, member⟩ := formed item blocks
      apply (nextFree item (List.mem_toFinset.mp again)).2
      exact (mem_held _ _).mpr ⟨other, List.mem_append_right _ membership, member⟩
    have single : next.Nodup := by
      rw [← listing]
      exact (distinct.filter _).sublist (List.take_sublist _ _)
    rw [Finset.card_union_of_disjoint apart, count, List.toFinset_card_of_nodup single, size,
      List.length_cons, Nat.mul_succ]
  · apply Finset.union_subset
    · intro item blocks
      have earlier := ahead blocks
      rw [List.mem_toFinset, mem_failingAhead] at earlier ⊢
      obtain ⟨precedes, itemFails, unsettled'⟩ := earlier
      refine ⟨precedes, itemFails, ?_⟩
      rw [mem_settle]
      exact fun either => either.elim unsettled' (fun answered => answered.2 itemFails)
    · intro item membership
      rw [List.mem_toFinset] at membership ⊢
      rw [mem_failingAhead]
      exact ⟨before item membership,
        failing _ List.mem_cons_self item (List.mem_toFinset.mpr membership),
        (nextFree item membership).1⟩
  · intro item membership
    rcases Finset.mem_union.mp membership with blocks | formedNow
    · obtain ⟨other, earlier, member⟩ := formed item blocks
      exact ⟨other, List.mem_cons_of_mem _ earlier, member⟩
    · exact ⟨_, List.mem_cons_self, formedNow⟩

theorem fresh_finish {drain : Drain Item} {batch : Finset Item} (formed : batch ∈ drain.fresh) :
    batch ∈ (drain.finish items fails chunk).fresh := by
  apply finish_induction (fun later => batch ∈ later.fresh) formed
  intro later first waiting _ earlier
  unfold refill
  split
  · exact earlier
  · exact List.mem_cons_of_mem _ earlier

/-- A round that leaves the target free and forms failing batches only is blocked. -/
theorem Blocked.finish {drain : Drain Item} (distinct : items.Nodup) (listed : target ∈ items)
    (works : ¬ fails target) (positive : 0 < chunk)
    (blocked : Blocked items fails chunk target drain)
    (unreached : target ∉ (drain.finish items fails chunk).settled ∧
      target ∉ (drain.finish items fails chunk).held)
    (failing : ∀ batch ∈ (drain.finish items fails chunk).fresh, ∀ item ∈ batch, fails item) :
    Blocked items fails chunk target (drain.finish items fails chunk) := by
  generalize waits : drain.waiting = waiting
  induction waiting generalizing drain with
  | nil =>
    rw [finish_nil waits]
    exact blocked
  | cons batch waiting inductionHypothesis =>
    rw [finish_cons waits] at unreached failing ⊢
    have missed : ¬ (target ∈ ((drain.settle fails batch waiting).refill items chunk).settled ∨
        target ∈ ((drain.settle fails batch waiting).refill items chunk).held) := by
      intro reached
      exact not_or.mpr unreached (held_finish works reached)
    apply inductionHypothesis
    · exact blocked.answered distinct listed positive (not_or.mp missed)
        (fun batch' formed => failing batch' (fresh_finish formed))
    · exact unreached
    · exact failing
    · rw [refill_waiting]
      rfl

/-- What a round puts into its batches was open at the start of the round. -/
theorem open_of_formed {drain : Drain Item} (start : drain.fresh = []) {batch : Finset Item}
    (formed : batch ∈ (drain.finish items fails chunk).fresh) {item : Item}
    (member : item ∈ batch) : item ∈ items ∧ item ∉ drain.settled := by
  have all : drain.settled ⊆ (drain.finish items fails chunk).settled ∧
      ∀ batch ∈ (drain.finish items fails chunk).fresh, ∀ item ∈ batch,
        item ∈ items ∧ item ∉ drain.settled := by
    apply finish_induction (fun later => drain.settled ⊆ later.settled ∧
      ∀ batch ∈ later.fresh, ∀ item ∈ batch, item ∈ items ∧ item ∉ drain.settled)
    · rw [start]
      exact ⟨Finset.Subset.refl _, by simp⟩
    · rintro later first waiting waits ⟨grows, earlier⟩
      have grown : drain.settled ⊆ (later.settle fails first waiting).settled :=
        grows.trans Finset.subset_union_left
      refine ⟨by rw [refill_settled]; exact grown, ?_⟩
      unfold refill
      split
      · exact earlier
      · intro other membership item member
        rcases List.mem_cons.mp membership with rfl | before
        · have isFree := (mem_free _ _).mp (List.mem_of_mem_take (List.mem_toFinset.mp member))
          exact ⟨isFree.1, fun settled => isFree.2.1 (grown settled)⟩
        · exact earlier other before item member
  exact all.2 batch formed item member

end Target

/-! ### Rounds -/

section Rounds

variable {target : Item} {count : Nat} {drain last : Drain Item}

theorem Rounds.settled_mono (rounds : Rounds items fails chunk count drain last) :
    drain.settled ⊆ last.settled := by
  induction rounds with
  | done => exact Finset.Subset.refl _
  | @round _ drain _ order _ _ inductionHypothesis =>
    exact (settled_finish_mono (drain.await order)).trans inductionHypothesis

theorem held_await {order : List (Finset Item)} (same : order.Perm (drain.waiting ++ drain.fresh))
    (item : Item) : item ∈ (drain.await order).held ↔ item ∈ drain.held := by
  simp only [mem_held, await, List.append_nil, same.mem_iff]

theorem settled_of_held {order : List (Finset Item)}
    (same : order.Perm (drain.waiting ++ drain.fresh)) (held : target ∈ drain.held)
    (works : ¬ fails target) :
    target ∈ ((drain.await order).finish items fails chunk).settled := by
  obtain ⟨batch, membership, member⟩ := (mem_held _ _).mp held
  have waits : batch ∈ (drain.await order).waiting := same.mem_iff.mpr membership
  exact finish_settles waits member works

/-- A round forms as many batches as it answers while the target stays free. -/
theorem batches_of_round {order : List (Finset Item)}
    (same : order.Perm (drain.waiting ++ drain.fresh)) (listed : target ∈ items)
    (works : ¬ fails target) (positive : 0 < chunk)
    (unsettled : target ∉ ((drain.await order).finish items fails chunk).settled)
    (unheld : target ∉ ((drain.await order).finish items fails chunk).held) :
    ((drain.await order).finish items fails chunk).fresh.length =
      (drain.waiting ++ drain.fresh).length := by
  rw [finish_fresh_length listed works positive ⟨unsettled, unheld⟩]
  simpa [await] using same.length_eq

/-- Two rounds settle something that can be settled, unless every batch held is full of
failing items ahead of the target. -/
theorem unsettled_decreases {order order' : List (Finset Item)} (distinct : items.Nodup)
    (listed : target ∈ items) (works : ¬ fails target)
    (few : (failingAhead items fails drain.settled target).length <
      chunk * (drain.waiting ++ drain.fresh).length)
    (same : order.Perm (drain.waiting ++ drain.fresh))
    (same' : order'.Perm (((drain.await order).finish items fails chunk).waiting ++
      ((drain.await order).finish items fails chunk).fresh))
    (missed : target ∉ ((drain.await order).finish items fails chunk).settled ∧
      target ∉ ((drain.await order).finish items fails chunk).held) :
    (unsettled items fails ((((drain.await order).finish items fails chunk).await order').finish
        items fails chunk).settled).card <
      (unsettled items fails drain.settled).card := by
  have positive : 0 < chunk := Nat.pos_of_mul_pos_right (Nat.zero_lt_of_lt few)
  have batches := batches_of_round same listed works positive missed.1 missed.2
  have ahead := failingAhead_finish items fails chunk (drain.await order) target
  have productive : ∃ batch ∈ ((drain.await order).finish items fails chunk).fresh,
      ∃ item ∈ batch, ¬ fails item := by
    by_contra unproductive
    push Not at unproductive
    have start : Blocked items fails chunk target (drain.await order) :=
      ⟨∅, by simp [await], Finset.empty_subset _, by simp⟩
    have blocked := (start.finish distinct listed works positive missed unproductive).length_le
    rw [batches, ahead] at blocked
    exact Nat.not_lt.mpr blocked few
  obtain ⟨batch, formed, item, member, itemWorks⟩ := productive
  have empty : (drain.await order).fresh = [] := rfl
  obtain ⟨itemListed, opened⟩ := open_of_formed empty formed member
  have settled : item ∈ ((((drain.await order).finish items fails chunk).await order').finish
      items fails chunk).settled :=
    settled_of_held same' ((mem_held _ _).mpr ⟨batch, List.mem_append_right _ formed, member⟩)
      itemWorks
  apply Finset.card_lt_card
  rw [Finset.ssubset_iff_of_subset]
  · refine ⟨item, ?_, ?_⟩
    · simp only [unsettled, Finset.mem_filter, List.mem_toFinset]
      exact ⟨itemListed, itemWorks, opened⟩
    · simp only [unsettled, Finset.mem_filter, not_and, not_not]
      exact fun _ _ => settled
  · intro other still
    simp only [unsettled, Finset.mem_filter, List.mem_toFinset] at still ⊢
    refine ⟨still.1, still.2.1, fun earlier => still.2.2 ?_⟩
    apply settled_finish_mono
    apply settled_finish_mono (drain.await order)
    exact earlier

/-- An item that does not fail is settled after enough rounds when it is held or the
batches held are too few for the failing items before it to fill them. -/
theorem Rounds.settles (rounds : Rounds items fails chunk count drain last)
    (distinct : items.Nodup) (listed : target ∈ items) (works : ¬ fails target)
    (enough : 2 * (unsettled items fails drain.settled).card ≤ count)
    (reach : target ∈ drain.settled ∨ target ∈ drain.held ∨
      (failingAhead items fails drain.settled target).length <
        chunk * (drain.waiting ++ drain.fresh).length) : target ∈ last.settled := by
  induction count using Nat.strong_induction_on generalizing drain with
  | _ count inductionHypothesis =>
    by_cases settled : target ∈ drain.settled
    · exact rounds.settled_mono settled
    have pending : 0 < (unsettled items fails drain.settled).card := by
      apply Finset.card_pos.mpr
      refine ⟨target, ?_⟩
      simp only [unsettled, Finset.mem_filter, List.mem_toFinset]
      exact ⟨listed, works, settled⟩
    cases rounds with
    | done => omega
    | @round count _ _ order same rest =>
    by_cases held : target ∈ drain.held
    · exact rest.settled_mono (settled_of_held same held works)
    have few := (reach.resolve_left settled).resolve_left held
    cases rest with
    | done => omega
    | @round count _ _ order' same' rest =>
    by_cases settled' : target ∈ ((drain.await order).finish items fails chunk).settled
    · apply rest.settled_mono
      apply settled_finish_mono
      exact settled'
    by_cases held' : target ∈ ((drain.await order).finish items fails chunk).held
    · exact rest.settled_mono (settled_of_held same' held' works)
    have fewer := unsettled_decreases distinct listed works few same same' ⟨settled', held'⟩
    refine inductionHypothesis count (by omega) rest (by omega) ?_
    by_cases reached : target ∈ ((((drain.await order).finish items fails chunk).await
        order').finish items fails chunk).settled ∨ target ∈ ((((drain.await order).finish items
          fails chunk).await order').finish items fails chunk).held
    · exact reached.imp_right .inl
    · right
      right
      rw [not_or] at reached
      have positive : 0 < chunk := Nat.pos_of_mul_pos_right (Nat.zero_lt_of_lt few)
      rw [finish_waiting, List.nil_append, batches_of_round same' listed works positive reached.1
        reached.2, finish_waiting, List.nil_append, batches_of_round same listed works positive
        settled' held', failingAhead_finish, await, failingAhead_finish, await]
      exact few

/-! ### Starvation -/

/-- The target is neither settled nor held, and the failing items before it fill every
batch that is held. -/
structure Starved (items : List Item) (fails : Item → Prop) [DecidablePred fails] (chunk : Nat)
    (target : Item) (drain : Drain Item) : Prop where
  unsettled : target ∉ drain.settled
  unheld : target ∉ drain.held
  small : chunk = 0 ∨ ∀ batch ∈ drain.waiting ++ drain.fresh, batch.card ≤ chunk
  full : chunk * (drain.waiting ++ drain.fresh).length ≤
    (failingAhead items fails drain.settled target).length

/-- The failing items before the target that no other batch holds fill the next batch. -/
theorem Starved.answered {batch : Finset Item} {waiting : List (Finset Item)}
    (distinct : items.Nodup) (waits : drain.waiting = batch :: waiting)
    (starved : Starved items fails chunk target drain) :
    Starved items fails chunk target ((drain.settle fails batch waiting).refill items chunk) := by
  have missed : target ∉ batch ∧ target ∉ (drain.settle fails batch waiting).held := by
    rw [← not_or, ← held_settle fails waits]
    exact starved.unheld
  have unsettled : target ∉ (drain.settle fails batch waiting).settled := by
    rw [mem_settle, not_or]
    exact ⟨starved.unsettled, fun answered => missed.1 answered.1⟩
  have ahead : failingAhead items fails (drain.settle fails batch waiting).settled target =
      failingAhead items fails drain.settled target := by
    apply List.filter_congr
    intro other _
    by_cases failing : fails other <;> simp [failing, mem_settle]
  have full := starved.full
  rw [waits, List.cons_append, List.length_cons, Nat.mul_succ] at full
  have small : chunk = 0 ∨ ∀ other ∈ waiting ++ drain.fresh, other.card ≤ chunk := by
    apply starved.small.imp_right
    intro each other membership
    exact each other (by rw [waits]; exact List.mem_cons_of_mem _ membership)
  have out : target ∉ (drain.settle fails batch waiting).next items chunk := by
    intro chosen
    have isFree := List.mem_of_mem_take chosen
    rw [mem_next_iff isFree] at chosen
    rcases small with zero | small
    · omega
    have holding := card_held_le (drain.settle fails batch waiting) small
    have open_ : ((failingAhead items fails drain.settled target).toFinset \
        (drain.settle fails batch waiting).held) ⊆
        ((items.takeWhile (fun other => other ≠ target)).filter (fun item =>
          item ∉ (drain.settle fails batch waiting).settled ∧
            item ∉ (drain.settle fails batch waiting).held)).toFinset := by
      intro other
      rw [Finset.mem_sdiff, List.mem_toFinset, ← ahead, mem_failingAhead, List.mem_toFinset,
        List.mem_filter, decide_eq_true_eq]
      exact fun before => ⟨before.1.1, before.1.2.2, before.2⟩
    have some_ := (Finset.card_le_card open_).trans (List.toFinset_card_le _)
    have difference := Finset.le_card_sdiff (drain.settle fails batch waiting).held
      (failingAhead items fails drain.settled target).toFinset
    have single : (failingAhead items fails drain.settled target).Nodup :=
      (distinct.sublist (List.takeWhile_sublist _)).filter _
    rw [List.toFinset_card_of_nodup single] at difference
    simp only [settle, List.length_append] at holding full some_ difference chosen
    omega
  refine ⟨?_, ?_, ?_, ?_⟩
  · rw [refill_settled]
    exact unsettled
  · rw [held_refill]
    exact not_or.mpr ⟨missed.2, out⟩
  · apply small.imp_right
    intro each
    unfold refill
    split
    · exact each
    · intro other membership
      rcases List.mem_append.mp membership with waits | formed
      · exact each other (List.mem_append_left _ waits)
      · rcases List.mem_cons.mp formed with rfl | earlier
        · exact (List.toFinset_card_le _).trans (List.length_take_le _ _)
        · exact each other (List.mem_append_right _ earlier)
  · rw [refill_settled, ahead]
    unfold refill
    split
    · exact (Nat.le_add_right _ _).trans full
    · simp only [settle, List.length_append, List.length_cons] at full ⊢
      rw [← Nat.add_assoc, Nat.mul_succ]
      exact full

theorem Rounds.starves (rounds : Rounds items fails chunk count drain last)
    (distinct : items.Nodup) (starved : Starved items fails chunk target drain) :
    target ∉ last.settled := by
  induction rounds with
  | done => exact starved.unsettled
  | @round _ drain _ order same _ inductionHypothesis =>
    apply inductionHypothesis
    apply finish_induction (Starved items fails chunk target)
    · refine ⟨starved.unsettled, ?_, ?_, ?_⟩
      · rw [held_await same]
        exact starved.unheld
      · apply starved.small.imp_right
        intro each batch membership
        exact each batch (same.mem_iff.mp (by simpa [await] using membership))
      · have size : (drain.await order).waiting ++ (drain.await order).fresh = order := by
          simp [await]
        rw [size, same.length_eq]
        exact starved.full
    · exact fun later batch waiting waits earlier => earlier.answered distinct waits

end Rounds

end Drain

end ArmchairAnalyst
