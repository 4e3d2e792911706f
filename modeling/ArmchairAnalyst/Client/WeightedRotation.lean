import ArmchairAnalyst.Client.Endpoints

/-!
# Smooth weighted rotation

The order in which a pool walks its endpoints. Every round credits each endpoint with
its weight and charges the pick the total, so the credits always cancel out and what
an endpoint has been picked too often shows as a debt below the total.
-/

namespace ArmchairAnalyst.Client

section MaxByKey

variable {α : Type}

/-- The last of the elements with the largest key. -/
def maxByKey (key : α → Int) : List α → Option α
  | [] => none
  | first :: rest =>
    some (rest.foldl (fun best next => if key best ≤ key next then next else best) first)

theorem maxByKey_eq_none {key : α → Int} {elements : List α} :
    maxByKey key elements = none ↔ elements = [] := by
  cases elements <;> simp [maxByKey]

theorem foldl_max_spec (key : α → Int) (elements : List α) (first : α) :
    (elements.foldl (fun best next => if key best ≤ key next then next else best) first) ∈
        first :: elements ∧
      ∀ element ∈ first :: elements, key element ≤
        key (elements.foldl (fun best next => if key best ≤ key next then next else best) first) := by
  induction elements generalizing first with
  | nil => simp
  | cons next rest inductionHypothesis =>
    simp only [List.foldl_cons]
    split
    case isTrue larger =>
      obtain ⟨member, greatest⟩ := inductionHypothesis next
      refine ⟨List.mem_cons_of_mem _ member, ?_⟩
      intro element membership
      rcases List.mem_cons.mp membership with same | later
      · exact same ▸ Int.le_trans larger (greatest next List.mem_cons_self)
      · exact greatest element later
    case isFalse smaller =>
      obtain ⟨member, greatest⟩ := inductionHypothesis first
      refine ⟨?_, ?_⟩
      · rcases List.mem_cons.mp member with same | later
        · exact List.mem_cons.mpr (.inl same)
        · exact List.mem_cons_of_mem _ (List.mem_cons_of_mem _ later)
      · intro element membership
        have first_le := greatest first List.mem_cons_self
        rcases List.mem_cons.mp membership with rfl | later
        · exact first_le
        rcases List.mem_cons.mp later with rfl | later
        · omega
        · exact greatest element (List.mem_cons_of_mem _ later)

theorem maxByKey_spec {key : α → Int} {elements : List α} {best : α}
    (selected : maxByKey key elements = some best) :
    best ∈ elements ∧ ∀ element ∈ elements, key element ≤ key best := by
  cases elements with
  | nil => cases selected
  | cons first rest =>
    cases selected
    exact foldl_max_spec key rest first

end MaxByKey

/-- The sum of the weights. Credits are `i64` in the code and integers here, which
`smoothWeightedOrder_credits` bounds. -/
def totalWeight (weights : List UInt32) : Int :=
  (weights.map (fun weight => (weight.toNat : Int))).sum

structure Rotation where
  current : List Int
  order : List Nat
  deriving DecidableEq, Repr

namespace Rotation

def start (weights : List UInt32) : Rotation :=
  { current := List.replicate weights.length 0, order := [] }

def raised (weights : List UInt32) (rotation : Rotation) : List Int :=
  rotation.current.zipWith (fun value weight => value + weight.toNat) weights

/-- One round, or `none` where the loop breaks because there is nothing to select. -/
def round (total : Int) (weights : List UInt32) (rotation : Rotation) : Option Rotation :=
  match maxByKey Prod.fst (rotation.raised weights).zipIdx with
  | none => none
  | some (_, selected) =>
    some
      { current := (rotation.raised weights).modify selected (· - total)
        order := rotation.order ++ [selected] }

def rounds (total : Int) (weights : List UInt32) : Nat → Rotation → Rotation
  | 0, rotation => rotation
  | n + 1, rotation =>
    match rotation.round total weights with
    | none => rotation
    | some next => rounds total weights n next

end Rotation

def smoothWeightedOrder (weights : List UInt32) : List Nat :=
  ((Rotation.start weights).rounds (totalWeight weights) weights
    (totalWeight weights).toNat).order

/-! ## The running credits -/

theorem totalWeight_nonneg (weights : List UInt32) : 0 ≤ totalWeight weights := by
  refine List.sum_nonneg ?_
  intro value membership
  obtain ⟨weight, -, rfl⟩ := List.mem_map.mp membership
  omega

theorem sum_modify_sub {values : List Int} {index : Nat} (within : index < values.length)
    (amount : Int) : (values.modify index (· - amount)).sum = values.sum - amount := by
  induction values generalizing index with
  | nil => cases within
  | cons value values inductionHypothesis =>
    cases index with
    | zero => simp; omega
    | succ index =>
      have tail := inductionHypothesis (Nat.lt_of_succ_lt_succ within)
      simp [tail]
      omega

theorem sum_zipWith_raise {values : List Int} {weights : List UInt32}
    (width : values.length = weights.length) :
    (values.zipWith (fun value weight => value + (weight.toNat : Int)) weights).sum =
      values.sum + totalWeight weights := by
  induction values generalizing weights with
  | nil =>
    cases weights with
    | nil => rfl
    | cons weight weights => cases width
  | cons value values inductionHypothesis =>
    cases weights with
    | nil => cases width
    | cons weight weights =>
      have tail := inductionHypothesis (Nat.succ.inj width)
      rw [List.zipWith_cons_cons, List.sum_cons, List.sum_cons, tail]
      simp only [totalWeight, List.map_cons, List.sum_cons]
      ring

/-- Values above a bound leave only so much of their sum to each of them. -/
theorem le_of_bounded_below {values : List Int} {bound : Int}
    (bounded : ∀ value ∈ values, -bound ≤ value) {value : Int} (listed : value ∈ values) :
    value ≤ values.sum + (values.length - 1) * bound := by
  have nonneg : ∀ shifted ∈ values.map (· + bound), 0 ≤ shifted := by
    intro shifted membership
    obtain ⟨value, original, rfl⟩ := List.mem_map.mp membership
    have above := bounded value original
    omega
  have share := List.single_le_sum nonneg (value + bound) (List.mem_map_of_mem listed)
  rw [List.sum_map_add, List.map_id', List.map_const', List.sum_replicate, nsmul_eq_mul] at share
  linarith

theorem exists_pos_of_sum_pos {values : List Int} (positive : 0 < values.sum) :
    ∃ value ∈ values, 0 < value :=
  List.exists_lt_of_sum_lt (fun _ => 0) id (by simpa using positive)

namespace Rotation

variable {weights : List UInt32} {rotation : Rotation}

/-- The state between rounds: each credit is what an endpoint has earned less what its
picks have cost, the credits cancel out, and no prefix of the order has overdrawn. -/
structure Balanced (weights : List UInt32) (rotation : Rotation) : Prop where
  width : rotation.current.length = weights.length
  cancels : rotation.current.sum = 0
  credit : ∀ index (within : index < weights.length),
    rotation.current[index]? = some
      (rotation.order.length * (weights[index].toNat : Int) -
        totalWeight weights * rotation.order.count index)
  overdraft : ∀ k ≤ rotation.order.length, ∀ index (within : index < weights.length),
    totalWeight weights * ((rotation.order.take k).count index : Int) <
      k * weights[index].toNat + totalWeight weights

theorem start_balanced (positive : 0 < totalWeight weights) :
    (start weights).Balanced weights where
  width := by simp [start]
  cancels := by simp [start]
  credit := by
    intro index within
    simp [start, within]
  overdraft := by
    intro k _ index within
    have earned : 0 ≤ (k : Int) * (weights[index].toNat : Int) :=
      mul_nonneg (Int.natCast_nonneg k) (Int.natCast_nonneg _)
    simp [start]
    omega

namespace Balanced

theorem raised_length (balanced : rotation.Balanced weights) :
    (rotation.raised weights).length = weights.length := by
  simp [raised, balanced.width]

theorem raised_sum (balanced : rotation.Balanced weights) :
    (rotation.raised weights).sum = totalWeight weights := by
  rw [raised, sum_zipWith_raise balanced.width, balanced.cancels, zero_add]

theorem raised_getElem? (balanced : rotation.Balanced weights) {index : Nat}
    (within : index < weights.length) :
    (rotation.raised weights)[index]? = some
      ((rotation.order.length + 1) * (weights[index].toNat : Int) -
        totalWeight weights * rotation.order.count index) := by
  rw [raised, List.getElem?_zipWith, balanced.credit index within,
    List.getElem?_eq_getElem within]
  simp only [Option.some.injEq]
  ring

/-- A round picks an endpoint whose credit is positive. -/
theorem round_spec (balanced : rotation.Balanced weights) (positive : 0 < totalWeight weights) :
    ∃ (value : Int) (selected : Nat),
      rotation.round (totalWeight weights) weights = some
        { current := (rotation.raised weights).modify selected (· - totalWeight weights)
          order := rotation.order ++ [selected] } ∧
      (rotation.raised weights)[selected]? = some value ∧ 0 < value := by
  obtain ⟨richest, listed, rich⟩ :=
    exists_pos_of_sum_pos (balanced.raised_sum.symm ▸ positive)
  obtain ⟨place, found⟩ := List.getElem?_of_mem listed
  have entry : (richest, place) ∈ (rotation.raised weights).zipIdx :=
    List.mk_mem_zipIdx_iff_getElem?.mpr found
  cases picked : maxByKey Prod.fst (rotation.raised weights).zipIdx with
  | none =>
    rw [maxByKey_eq_none.mp picked] at entry
    cases entry
  | some pick =>
    obtain ⟨value, selected⟩ := pick
    obtain ⟨member, greatest⟩ := maxByKey_spec picked
    refine ⟨value, selected, ?_, List.mk_mem_zipIdx_iff_getElem?.mp member, ?_⟩
    · simp [round, picked]
    · exact lt_of_lt_of_le rich (greatest _ entry)

theorem round_balanced (balanced : rotation.Balanced weights)
    (positive : 0 < totalWeight weights) :
    ∃ next, rotation.round (totalWeight weights) weights = some next ∧
      next.Balanced weights ∧ next.order.length = rotation.order.length + 1 := by
  obtain ⟨value, selected, moved, credited, rich⟩ := balanced.round_spec positive
  refine ⟨_, moved, ?_, by simp⟩
  have present : selected < weights.length := by
    obtain ⟨within, -⟩ := List.getElem?_eq_some_iff.mp credited
    exact balanced.raised_length ▸ within
  constructor
  case width => simp [balanced.raised_length]
  case cancels =>
    rw [sum_modify_sub (balanced.raised_length.symm ▸ present), balanced.raised_sum, sub_self]
  case credit =>
    intro index within
    rw [List.getElem?_modify, balanced.raised_getElem? within]
    by_cases same : selected = index
    · subst same
      simp
      ring
    · simp [same]
  case overdraft =>
    intro k bounded index within
    rcases Nat.lt_or_ge rotation.order.length k with last | earlier
    · have whole : k = rotation.order.length + 1 := by
        simp at bounded
        omega
      have before := balanced.overdraft rotation.order.length le_rfl index within
      rw [List.take_length] at before
      subst whole
      rw [List.take_of_length_le (by simp), List.count_append]
      by_cases same : selected = index
      · subst same
        have earned := (balanced.raised_getElem? within).symm.trans credited
        simp only [Option.some.injEq] at earned
        simp
        linarith
      · have extra : 0 ≤ (weights[index].toNat : Int) := Int.natCast_nonneg _
        simp [same]
        linarith
    · rw [List.take_append_of_le_length earlier]
      exact balanced.overdraft k earlier index within

theorem rounds_balanced (balanced : rotation.Balanced weights)
    (positive : 0 < totalWeight weights) (n : Nat) :
    (rotation.rounds (totalWeight weights) weights n).Balanced weights ∧
      (rotation.rounds (totalWeight weights) weights n).order.length =
        rotation.order.length + n := by
  induction n generalizing rotation with
  | zero => exact ⟨balanced, rfl⟩
  | succ n inductionHypothesis =>
    obtain ⟨next, moved, nextBalanced, longer⟩ := balanced.round_balanced positive
    obtain ⟨kept, length⟩ := inductionHypothesis nextBalanced
    simp only [rounds, moved]
    exact ⟨kept, by omega⟩

/-- Credits earned in at least as many rounds as there are picks. -/
theorem credits_bounded (balanced : rotation.Balanced weights) {credits : List Int} {rounds : Nat}
    (enough : rotation.order.length ≤ rounds) (width : credits.length = weights.length)
    (sum : credits.sum ≤ totalWeight weights)
    (earned : ∀ index (within : index < weights.length), credits[index]? = some
      (rounds * (weights[index].toNat : Int) - totalWeight weights * rotation.order.count index))
    {value : Int} (listed : value ∈ credits) :
    -totalWeight weights < value ∧ value ≤ weights.length * totalWeight weights := by
  have above : ∀ value ∈ credits, -totalWeight weights < value := by
    intro value membership
    obtain ⟨place, found⟩ := List.getElem?_of_mem membership
    have placed : place < weights.length := by
      obtain ⟨inside, -⟩ := List.getElem?_eq_some_iff.mp found
      exact width ▸ inside
    have credit := (earned place placed).symm.trans found
    have bound := balanced.overdraft _ le_rfl place placed
    rw [List.take_length] at bound
    simp only [Option.some.injEq] at credit
    have more : (rotation.order.length : Int) * weights[place].toNat ≤
        rounds * weights[place].toNat := by
      exact_mod_cast Nat.mul_le_mul_right _ enough
    linarith
  have below := le_of_bounded_below (fun value membership => (above value membership).le) listed
  rw [width] at below
  exact ⟨above value listed, by linarith⟩

/-- After as many rounds as the total weight every credit is back at zero. -/
theorem count_eq (balanced : rotation.Balanced weights)
    (positive : 0 < totalWeight weights)
    (cycle : (rotation.order.length : Int) = totalWeight weights) {index : Nat}
    (within : index < weights.length) :
    rotation.order.count index = weights[index].toNat := by
  have credits : ∀ value ∈ rotation.current, 0 ≤ value := by
    intro value membership
    obtain ⟨place, found⟩ := List.getElem?_of_mem membership
    have placed : place < weights.length := by
      obtain ⟨inside, -⟩ := List.getElem?_eq_some_iff.mp found
      exact balanced.width ▸ inside
    have credit := (balanced.credit place placed).symm.trans found
    have bound := balanced.overdraft _ le_rfl place placed
    rw [List.take_length, cycle] at bound
    simp only [cycle, Option.some.injEq] at credit
    have share : (rotation.order.count place : Int) < weights[place].toNat + 1 := by
      by_contra exceeded
      have product := Int.mul_le_mul_of_nonneg_left (Int.not_lt.mp exceeded) positive.le
      linarith
    have product := Int.mul_le_mul_of_nonneg_left (Int.lt_add_one_iff.mp share) positive.le
    linarith
  have settled : rotation.current[index]? = some 0 := by
    obtain ⟨value, found⟩ : ∃ value, rotation.current[index]? = some value :=
      ⟨_, balanced.credit index within⟩
    have member := List.mem_of_getElem? found
    have zero := List.all_zero_of_le_zero_le_of_sum_eq_zero credits balanced.cancels member
    exact zero ▸ found
  have credit := (balanced.credit index within).symm.trans settled
  simp only [cycle, Option.some.injEq] at credit
  have same := mul_left_cancel₀ positive.ne' (sub_eq_zero.mp credit)
  omega

end Balanced

end Rotation

/-- In every round the credits, also while they are raised, are held by an `i64` that holds
the total weight once for each endpoint. -/
theorem smoothWeightedOrder_credits {weights : List UInt32} (positive : 0 < totalWeight weights)
    (n : Nat) {value : Int} :
    let rotation := (Rotation.start weights).rounds (totalWeight weights) weights n
    value ∈ rotation.current ∨ value ∈ rotation.raised weights →
      -totalWeight weights < value ∧ value ≤ weights.length * totalWeight weights := by
  intro rotation listed
  have balanced := ((Rotation.start_balanced positive).rounds_balanced positive n).1
  rcases listed with charged | raised
  · exact balanced.credits_bounded le_rfl balanced.width
      (balanced.cancels.trans_le positive.le) balanced.credit charged
  · exact balanced.credits_bounded (Nat.le_succ _) balanced.raised_length balanced.raised_sum.le
      (fun index within => by simpa using balanced.raised_getElem? within) raised

theorem smoothWeightedOrder_balanced {weights : List UInt32}
    (positive : 0 < totalWeight weights) :
    ∃ rotation : Rotation, rotation.order = smoothWeightedOrder weights ∧
      rotation.Balanced weights ∧ (rotation.order.length : Int) = totalWeight weights := by
  obtain ⟨balanced, length⟩ :=
    (Rotation.start_balanced positive).rounds_balanced positive (totalWeight weights).toNat
  refine ⟨_, rfl, balanced, ?_⟩
  have empty : (Rotation.start weights).order.length = 0 := rfl
  omega

/-- One cycle picks every endpoint exactly as often as its weight says, and no prefix of
the cycle picks an endpoint more often than its share of the prefix, rounded up. -/
theorem smoothWeightedOrder_fair (weights : List UInt32) :
    ((smoothWeightedOrder weights).length : Int) = totalWeight weights ∧
      (∀ index (within : index < weights.length),
        (smoothWeightedOrder weights).count index = weights[index].toNat) ∧
      ∀ k ≤ (smoothWeightedOrder weights).length, ∀ index (within : index < weights.length),
        ((smoothWeightedOrder weights).take k).count index ≤
          (k * weights[index].toNat) ⌈/⌉ (totalWeight weights).toNat := by
  rcases (totalWeight_nonneg weights).eq_or_lt with weightless | positive
  · have empty : smoothWeightedOrder weights = [] := by
      simp [smoothWeightedOrder, ← weightless, Rotation.rounds, Rotation.start]
    refine ⟨by simp [empty, weightless], ?_, by simp [empty]⟩
    intro index within
    have listed : (weights[index].toNat : Int) ∈
        weights.map (fun weight => (weight.toNat : Int)) :=
      List.mem_map.mpr ⟨weights[index], List.getElem_mem within, rfl⟩
    have zero := List.all_zero_of_le_zero_le_of_sum_eq_zero
      (fun value membership => by
        obtain ⟨weight, -, rfl⟩ := List.mem_map.mp membership
        omega) weightless.symm listed
    simp only [empty, List.count_nil]
    omega
  · obtain ⟨rotation, ordered, balanced, cycle⟩ := smoothWeightedOrder_balanced positive
    rw [← ordered]
    refine ⟨cycle, fun index within => balanced.count_eq positive cycle within, ?_⟩
    intro k bounded index within
    have total : 0 < (totalWeight weights).toNat := by omega
    have bound := balanced.overdraft k bounded index within
    rw [Nat.ceilDiv_eq_add_pred_div, Nat.le_div_iff_mul_le total]
    generalize hcount : (rotation.order.take k).count index = count at bound ⊢
    have scaled : (totalWeight weights).toNat * count <
        k * weights[index].toNat + (totalWeight weights).toNat := by
      zify
      rw [Int.toNat_of_nonneg positive.le]
      exact bound
    rw [Nat.mul_comm]
    omega

example : smoothWeightedOrder [3, 1, 1] = [0, 2, 0, 1, 0] := by decide

end ArmchairAnalyst.Client
