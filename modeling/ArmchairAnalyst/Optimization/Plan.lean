import ArmchairAnalyst.Library.GroupedFold
import ArmchairAnalyst.Optimization.RoutingFilter

/-!
# Executable plans

The flows of a trained model, cell by cell, become the steps of a plan. Cells that carry
no action and tiny flows are dropped, and what survives of the balance of a token in a
stage is spread over its steps. Weights and amounts are in single precision in the source;
what a plan strands is judged on exact ones.
-/

namespace ArmchairAnalyst.Optimization

open Std (TransOrd LawfulEqOrd)

/-- One cell of a stage, as the model extracts it. -/
structure FlowRecord (U I W : Type) where
  stage : Nat
  tokenIn : I
  tokenOut : I
  poolId : Option U
  amountIn : W
  amountOut : W
  weight : W

inductive StepKind (U : Type)
  | swap (pool : U)
  | carry
  | bridge
  deriving DecidableEq

structure ExecutableStep (U I W : Type) where
  stage : Nat
  tokenIn : I
  tokenOut : I
  kind : StepKind U
  weight : W
  amountIn : W
  amountOut : W

structure ExecutionPlan (U I W : Type) where
  sourceAsset : I
  outputAsset : I
  entryAmount : W
  steps : List (ExecutableStep U I W)

/-- What makes two executable cells one step. -/
structure CellKey (U I : Type) where
  stage : Nat
  tokenIn : I
  tokenOut : I
  kind : StepKind U
  deriving DecidableEq

structure Accum (W : Type) where
  weight : W
  amountIn : W
  amountOut : W

/-- Steps that route less than this are dust: the single precision number closest to 0.01. -/
def planMinWeight : ℚ := 10737418 / 2 ^ 30

section

variable {U I : Type} [DecidableEq U] [DecidableEq I] [Ord I] [TransOrd I]

section

variable {W : Type} [Zero W] [Add W] [Div W] [LT W] [DecidableLT W]

def Accum.none : Accum W := { weight := 0, amountIn := 0, amountOut := 0 }

def Accum.add (accum : Accum W) (flow : FlowRecord U I W) : Accum W where
  weight := accum.weight + flow.weight
  amountIn := accum.amountIn + flow.amountIn
  amountOut := accum.amountOut + flow.amountOut

/-- A configured bridge comes before the pool that its cell may overlap. A cell without
a pool between two tokens is padding. -/
def stepKind (bridges : HashSet (I × I)) (flow : FlowRecord U I W) : Option (StepKind U) :=
  if flow.tokenIn ≠ flow.tokenOut ∧ (flow.tokenIn, flow.tokenOut) ∈ bridges then some .bridge
  else
    match flow.poolId with
    | some pool => some (.swap pool)
    | none => if flow.tokenIn = flow.tokenOut then some .carry else none

def cellKey (bridges : HashSet (I × I)) (flow : FlowRecord U I W) : Option (CellKey U I) :=
  (stepKind bridges flow).map (fun kind =>
    { stage := flow.stage, tokenIn := flow.tokenIn, tokenOut := flow.tokenOut, kind })

def mergeFlow (minWeight : W) (bridges : HashSet (I × I)) (merged : List (CellKey U I × Accum W))
    (flow : FlowRecord U I W) : List (CellKey U I × Accum W) :=
  match cellKey bridges flow with
  | none => merged
  | some key =>
    if flow.weight < minWeight then merged else upsert Accum.none (·.add flow) key merged

/-- The surviving weight of every token in every stage. -/
def groupTotals (merged : List (CellKey U I × Accum W)) : List ((Nat × I) × W) :=
  groupedFold 0 (· + ·) (merged.map (fun entry => ((entry.1.stage, entry.1.tokenIn), entry.2.weight)))

def planStep (totals : List ((Nat × I) × W)) (entry : CellKey U I × Accum W) :
    ExecutableStep U I W :=
  let total := (totals.lookup (entry.1.stage, entry.1.tokenIn)).getD 0
  { stage := entry.1.stage
    tokenIn := entry.1.tokenIn
    tokenOut := entry.1.tokenOut
    kind := entry.1.kind
    weight := if 0 < total then entry.2.weight / total else 0
    amountIn := entry.2.amountIn
    amountOut := entry.2.amountOut }

/-- The entries of the hash map of merged cells come in the order of `iterate`. -/
def buildPlan (iterate : List (CellKey U I × Accum W) → List (CellKey U I × Accum W))
    (flows : List (FlowRecord U I W)) (sourceAsset outputAsset : I) (entryAmount minWeight : W)
    (bridges : HashSet (I × I)) : ExecutionPlan U I W :=
  let merged := iterate (flows.foldl (mergeFlow minWeight bridges) [])
  { sourceAsset
    outputAsset
    entryAmount
    steps := (merged.map (planStep (groupTotals merged))).insertionSort
      (fun step step' => step.stage ≤ step'.stage) }

def ExecutableStep.key (step : ExecutableStep U I W) : CellKey U I where
  stage := step.stage
  tokenIn := step.tokenIn
  tokenOut := step.tokenOut
  kind := step.kind

/-- The steps that share the balance of a token in a stage. -/
def ExecutionPlan.group (plan : ExecutionPlan U I W) (stage : Nat) (tokenIn : I) :
    List (ExecutableStep U I W) :=
  plan.steps.filter (fun step => step.stage = stage ∧ step.tokenIn = tokenIn)

theorem steps_perm {iterate : List (CellKey U I × Accum W) → List (CellKey U I × Accum W)}
    (iterated : ∀ merged, (iterate merged).Perm merged) {flows : List (FlowRecord U I W)}
    {sourceAsset outputAsset : I} {entryAmount minWeight : W} {bridges : HashSet (I × I)} :
    (buildPlan iterate flows sourceAsset outputAsset entryAmount minWeight bridges).steps.Perm
      ((flows.foldl (mergeFlow minWeight bridges) []).map
        (planStep (groupTotals (iterate (flows.foldl (mergeFlow minWeight bridges) []))))) :=
  (List.perm_insertionSort _ _).trans ((iterated _).map _)

end

/-! ### What a plan is for -/

/-- The weight of the flows of one cell that are not pruned. -/
def survivingWeight (flows : List (FlowRecord U I ℚ)) (minWeight : ℚ) (bridges : HashSet (I × I))
    (key : CellKey U I) : ℚ :=
  ((flows.filter (fun flow => cellKey bridges flow = some key ∧ minWeight ≤ flow.weight)).map
    FlowRecord.weight).sum

/-- Every balance that has an action of positive weight is spread over steps, in the ratios
of their surviving weights. The steps are distinct executable cells in order of stages. -/
structure StrandsNothing (flows : List (FlowRecord U I ℚ)) (minWeight : ℚ)
    (bridges : HashSet (I × I)) (plan : ExecutionPlan U I ℚ) : Prop where
  routed : ∀ flow ∈ flows, 0 < flow.weight → (cellKey bridges flow).isSome →
    plan.group flow.stage flow.tokenIn ≠ [] ∧
      ((plan.group flow.stage flow.tokenIn).map ExecutableStep.weight).sum = 1 ∧
      ∀ step ∈ plan.group flow.stage flow.tokenIn, ∀ step' ∈ plan.group flow.stage flow.tokenIn,
        step.weight * survivingWeight flows minWeight bridges step'.key =
          step'.weight * survivingWeight flows minWeight bridges step.key
  distinct : (plan.steps.map ExecutableStep.key).Nodup
  executable : ∀ step ∈ plan.steps, ∃ flow ∈ flows, cellKey bridges flow = some step.key
  ordered : plan.steps.Pairwise (fun step step' => step.stage ≤ step'.stage)

/-! ### The merged cells -/

variable {flows : List (FlowRecord U I ℚ)} {minWeight : ℚ} {bridges : HashSet (I × I)}

/-- An executable flow that is not pruned, under the key of its cell. -/
def survivor (minWeight : ℚ) (bridges : HashSet (I × I)) (flow : FlowRecord U I ℚ) :
    Option (CellKey U I × FlowRecord U I ℚ) :=
  match cellKey bridges flow with
  | none => none
  | some key => if flow.weight < minWeight then none else some (key, flow)

omit [DecidableEq U] in
theorem survivor_eq_some {flow flow' : FlowRecord U I ℚ} {key : CellKey U I} :
    survivor minWeight bridges flow = some (key, flow') ↔
      cellKey bridges flow = some key ∧ minWeight ≤ flow.weight ∧ flow' = flow := by
  unfold survivor
  cases cellKey bridges flow with
  | none => simp
  | some key' =>
    by_cases pruned : flow.weight < minWeight
    · simp [pruned]
    · simp only [pruned, if_false, Option.some.injEq, Prod.mk.injEq]
      constructor
      · rintro ⟨rfl, rfl⟩
        exact ⟨rfl, not_lt.mp pruned, rfl⟩
      · rintro ⟨rfl, -, rfl⟩
        exact ⟨rfl, rfl⟩

theorem foldl_mergeFlow (flows : List (FlowRecord U I ℚ)) :
    flows.foldl (mergeFlow minWeight bridges) [] =
      groupedFold Accum.none Accum.add (flows.filterMap (survivor minWeight bridges)) := by
  rw [groupedFold, List.foldl_filterMap]
  congr 1
  funext merged flow
  unfold mergeFlow survivor
  cases cellKey bridges flow with
  | none => rfl
  | some key => by_cases pruned : flow.weight < minWeight <;> simp [pruned]

omit [DecidableEq U] [DecidableEq I] [Ord I] [TransOrd I] in
theorem foldl_add_weight (flows : List (FlowRecord U I ℚ)) (accum : Accum ℚ) :
    (flows.foldl Accum.add accum).weight =
      accum.weight + (flows.map FlowRecord.weight).sum := by
  induction flows generalizing accum with
  | nil => simp
  | cons flow flows inductionHypothesis =>
    rw [List.foldl_cons, inductionHypothesis]
    simp only [Accum.add, List.map_cons, List.sum_cons, add_assoc]

theorem itemsOf_survivors (flows : List (FlowRecord U I ℚ)) (key : CellKey U I) :
    itemsOf (flows.filterMap (survivor minWeight bridges)) key =
      flows.filter (fun flow => cellKey bridges flow = some key ∧ minWeight ≤ flow.weight) := by
  induction flows with
  | nil => rfl
  | cons flow flows inductionHypothesis =>
    cases kept : survivor minWeight bridges flow with
    | none =>
      have dropped : ¬ (cellKey bridges flow = some key ∧ minWeight ≤ flow.weight) := by
        rintro ⟨cell, heavy⟩
        rw [survivor_eq_some.mpr ⟨cell, heavy, rfl⟩] at kept
        cases kept
      simp [kept, dropped, inductionHypothesis]
    | some item =>
      obtain ⟨key', flow'⟩ := item
      obtain ⟨cell, heavy, rfl⟩ := survivor_eq_some.mp kept
      rw [List.filterMap_cons_some kept]
      by_cases same : key' = key
      · subst same
        simp only [itemsOf] at inductionHypothesis ⊢
        simp [cell, heavy, inductionHypothesis]
      · simp only [itemsOf] at inductionHypothesis ⊢
        simp [cell, same, inductionHypothesis]

/-- Every merged cell has a surviving flow, and their weights add up in it. -/
theorem mem_merged {key : CellKey U I} {accum : Accum ℚ}
    (merged : (key, accum) ∈ flows.foldl (mergeFlow minWeight bridges) []) :
    (∃ flow ∈ flows, cellKey bridges flow = some key ∧ minWeight ≤ flow.weight) ∧
      accum.weight = survivingWeight flows minWeight bridges key := by
  rw [foldl_mergeFlow] at merged
  obtain ⟨nonempty, rfl⟩ := mem_groupedFold.mp merged
  rw [itemsOf_survivors] at nonempty
  constructor
  · obtain ⟨flow, listed⟩ := List.exists_mem_of_ne_nil _ nonempty
    obtain ⟨member, survives⟩ := List.mem_filter.mp listed
    exact ⟨flow, member, of_decide_eq_true survives⟩
  · rw [foldl_add_weight, itemsOf_survivors]
    simp [Accum.none, survivingWeight]

theorem merged_eq_nil (dust : ∀ flow ∈ flows, flow.weight < minWeight) :
    flows.foldl (mergeFlow minWeight bridges) [] = [] := by
  rw [List.eq_nil_iff_forall_not_mem]
  rintro ⟨key, accum⟩ merged
  obtain ⟨⟨flow, member, -, heavy⟩, -⟩ := mem_merged merged
  exact absurd heavy (not_le.mpr (dust flow member))

theorem merged_of_survivor {flow : FlowRecord U I ℚ} {key : CellKey U I} (member : flow ∈ flows)
    (cell : cellKey bridges flow = some key) (heavy : minWeight ≤ flow.weight) :
    ∃ accum, (key, accum) ∈ flows.foldl (mergeFlow minWeight bridges) [] := by
  rw [foldl_mergeFlow]
  refine ⟨_, mem_groupedFold.mpr ⟨?_, rfl⟩⟩
  rw [itemsOf_survivors]
  apply List.ne_nil_of_mem
  exact List.mem_filter.mpr ⟨member, by simp [cell, heavy]⟩

theorem merged_nodup (flows : List (FlowRecord U I ℚ)) :
    ((flows.foldl (mergeFlow minWeight bridges) []).map Prod.fst).Nodup := by
  rw [foldl_mergeFlow]
  exact groupedFold_nodup _ _ _

/-! ### The steps -/

omit [DecidableEq U] [Ord I] [TransOrd I] in
@[simp] theorem key_planStep (totals : List ((Nat × I) × ℚ)) (entry : CellKey U I × Accum ℚ) :
    (planStep totals entry).key = entry.1 := rfl

/-- The weight that the merged cells have for a token in a stage. -/
def groupWeight (merged : List (CellKey U I × Accum ℚ)) (stage : Nat) (tokenIn : I) : ℚ :=
  ((merged.filter (fun entry => entry.1.stage = stage ∧ entry.1.tokenIn = tokenIn)).map
    (fun entry => entry.2.weight)).sum

omit [DecidableEq U] [Ord I] [TransOrd I] in
theorem lookup_groupTotals (merged : List (CellKey U I × Accum ℚ)) (stage : Nat) (tokenIn : I) :
    ((groupTotals merged).lookup (stage, tokenIn)).getD 0 =
      groupWeight merged stage tokenIn := by
  rw [groupTotals, lookup_groupedFold, ← List.sum_eq_foldl]
  simp [itemsOf, groupWeight, List.filter_map, Function.comp_def, Prod.ext_iff]

omit [DecidableEq U] [Ord I] [TransOrd I] in
theorem planStep_weight (merged : List (CellKey U I × Accum ℚ)) (entry : CellKey U I × Accum ℚ) :
    (planStep (groupTotals merged) entry).weight =
      if 0 < groupWeight merged entry.1.stage entry.1.tokenIn then
        entry.2.weight / groupWeight merged entry.1.stage entry.1.tokenIn
      else 0 := by
  simp only [planStep, lookup_groupTotals]

omit [DecidableEq U] [Ord I] [TransOrd I] in
/-- Whatever the order in which the merged cells come, each group sums up the same. -/
theorem groupWeight_perm {merged merged' : List (CellKey U I × Accum ℚ)}
    (permuted : merged.Perm merged') (stage : Nat) (tokenIn : I) :
    groupWeight merged stage tokenIn = groupWeight merged' stage tokenIn :=
  ((permuted.filter _).map _).sum_eq

variable {iterate : List (CellKey U I × Accum ℚ) → List (CellKey U I × Accum ℚ)}
  {sourceAsset outputAsset : I} {entryAmount : ℚ}

theorem group_perm (iterated : ∀ merged, (iterate merged).Perm merged) (stage : Nat)
    (tokenIn : I) :
    ((buildPlan iterate flows sourceAsset outputAsset entryAmount minWeight bridges).group
      stage tokenIn).Perm
      (((flows.foldl (mergeFlow minWeight bridges) []).filter
          (fun entry => entry.1.stage = stage ∧ entry.1.tokenIn = tokenIn)).map
        (planStep (groupTotals (iterate (flows.foldl (mergeFlow minWeight bridges) []))))) := by
  refine ((steps_perm iterated).filter _).trans ?_
  rw [List.filter_map]
  exact List.Perm.refl _

/-- Every step of a group has its surviving weight over that of the whole group. -/
theorem step_weight (iterated : ∀ merged, (iterate merged).Perm merged)
    {step : ExecutableStep U I ℚ}
    (listed : step ∈
      (buildPlan iterate flows sourceAsset outputAsset entryAmount minWeight bridges).steps) :
    (∃ flow ∈ flows, cellKey bridges flow = some step.key ∧ minWeight ≤ flow.weight) ∧
      step.weight =
        if 0 < groupWeight (flows.foldl (mergeFlow minWeight bridges) []) step.stage step.tokenIn
        then survivingWeight flows minWeight bridges step.key /
          groupWeight (flows.foldl (mergeFlow minWeight bridges) []) step.stage step.tokenIn
        else 0 := by
  obtain ⟨entry, merged, rfl⟩ := List.mem_map.mp ((steps_perm iterated).mem_iff.mp listed)
  obtain ⟨survived, weight⟩ := mem_merged merged
  refine ⟨survived, ?_⟩
  rw [planStep_weight, weight, groupWeight_perm (iterated _)]
  rfl

theorem group_weight_sum (iterated : ∀ merged, (iterate merged).Perm merged) {stage : Nat}
    {tokenIn : I}
    (positive : 0 < groupWeight (flows.foldl (mergeFlow minWeight bridges) []) stage tokenIn) :
    (((buildPlan iterate flows sourceAsset outputAsset entryAmount minWeight bridges).group
      stage tokenIn).map ExecutableStep.weight).sum = 1 := by
  rw [((group_perm iterated stage tokenIn).map _).sum_eq, List.map_map]
  have shares : ∀ entry ∈ (flows.foldl (mergeFlow minWeight bridges) []).filter
        (fun entry => entry.1.stage = stage ∧ entry.1.tokenIn = tokenIn),
      (ExecutableStep.weight ∘ planStep (groupTotals
        (iterate (flows.foldl (mergeFlow minWeight bridges) [])))) entry =
        entry.2.weight * (groupWeight (flows.foldl (mergeFlow minWeight bridges) []) stage
          tokenIn)⁻¹ := by
    intro entry listed
    obtain ⟨rfl, rfl⟩ := of_decide_eq_true (List.mem_filter.mp listed).2
    rw [Function.comp_apply, planStep_weight, groupWeight_perm (iterated _), if_pos positive,
      div_eq_mul_inv]
  rw [List.map_congr_left shares, List.sum_map_mul_right]
  exact mul_inv_cancel₀ positive.ne'

/-! ### When nothing is stranded -/

theorem groupWeight_pos (nonneg : ∀ flow ∈ flows, 0 ≤ flow.weight) {flow : FlowRecord U I ℚ}
    {key : CellKey U I} (member : flow ∈ flows) (cell : cellKey bridges flow = some key)
    (heavy : minWeight ≤ flow.weight) (positive : 0 < flow.weight) :
    0 < groupWeight (flows.foldl (mergeFlow minWeight bridges) []) key.stage key.tokenIn := by
  obtain ⟨accum, merged⟩ := merged_of_survivor member cell heavy
  have counted : ∀ (key' : CellKey U I),
      ∀ weight ∈ (flows.filter (fun flow => cellKey bridges flow = some key' ∧
        minWeight ≤ flow.weight)).map FlowRecord.weight, 0 ≤ weight := by
    intro key' weight listed
    obtain ⟨other, survives, rfl⟩ := List.mem_map.mp listed
    exact nonneg other (List.mem_filter.mp survives).1
  have own : flow.weight ≤ accum.weight := by
    rw [(mem_merged merged).2]
    apply List.single_le_sum (counted key)
    exact List.mem_map.mpr ⟨flow, List.mem_filter.mpr ⟨member, by simp [cell, heavy]⟩, rfl⟩
  refine (positive.trans_le own).trans_le (List.single_le_sum ?_ _ ?_)
  · intro weight listed
    obtain ⟨entry, grouped, rfl⟩ := List.mem_map.mp listed
    rw [(mem_merged (List.mem_filter.mp grouped).1).2]
    exact List.sum_nonneg (counted entry.1)
  · exact List.mem_map.mpr ⟨(key, accum), List.mem_filter.mpr ⟨merged, by simp⟩, rfl⟩

omit [DecidableEq U] in
theorem cellKey_eq_some {flow : FlowRecord U I ℚ} {key : CellKey U I}
    (cell : cellKey bridges flow = some key) :
    key.stage = flow.stage ∧ key.tokenIn = flow.tokenIn := by
  unfold cellKey at cell
  obtain ⟨kind, -, rfl⟩ := Option.map_eq_some_iff.mp cell
  exact ⟨rfl, rfl⟩

/-- Some action for the balance of this flow is not pruned. -/
def KeepsAction (flows : List (FlowRecord U I ℚ)) (minWeight : ℚ) (bridges : HashSet (I × I))
    (flow : FlowRecord U I ℚ) : Prop :=
  ∃ flow' ∈ flows, (cellKey bridges flow').isSome ∧ minWeight ≤ flow'.weight ∧
    flow'.stage = flow.stage ∧ flow'.tokenIn = flow.tokenIn

/-- A plan strands nothing exactly when every balance with an action of positive weight
keeps one that is not pruned. -/
theorem buildPlan_strandsNothing_iff (nonneg : ∀ flow ∈ flows, 0 ≤ flow.weight)
    (iterated : ∀ merged, (iterate merged).Perm merged) :
    StrandsNothing flows minWeight bridges
        (buildPlan iterate flows sourceAsset outputAsset entryAmount minWeight bridges) ↔
      ∀ flow ∈ flows, 0 < flow.weight → (cellKey bridges flow).isSome →
        KeepsAction flows minWeight bridges flow := by
  constructor
  · intro strands flow member positive executable
    obtain ⟨nonempty, -, -⟩ := strands.routed flow member positive executable
    obtain ⟨step, grouped⟩ := List.exists_mem_of_ne_nil _ nonempty
    obtain ⟨listed, here⟩ := List.mem_filter.mp grouped
    obtain ⟨sameStage, sameToken⟩ := of_decide_eq_true here
    obtain ⟨⟨flow', member', cell, heavy⟩, -⟩ := step_weight iterated listed
    obtain ⟨stage, token⟩ := cellKey_eq_some cell
    exact ⟨flow', member', by simp [cell], heavy, stage.symm.trans sameStage,
      token.symm.trans sameToken⟩
  · intro kept
    constructor
    case routed =>
      intro flow member positive executable
      obtain ⟨flow', member', executable', heavy, sameStage, sameToken⟩ :=
        kept flow member positive executable
      -- A threshold of zero or less prunes nothing, and above it survivors are positive.
      obtain ⟨survivor, listed, survives, heavyEnough, positive', stage, token⟩ :
          ∃ survivor ∈ flows, (cellKey bridges survivor).isSome ∧ minWeight ≤ survivor.weight ∧
            0 < survivor.weight ∧ survivor.stage = flow.stage ∧
              survivor.tokenIn = flow.tokenIn := by
        rcases le_or_gt minWeight 0 with lenient | strict
        · exact ⟨flow, member, executable, lenient.trans positive.le, positive, rfl, rfl⟩
        · exact ⟨flow', member', executable', heavy, strict.trans_le heavy, sameStage, sameToken⟩
      obtain ⟨key, cell⟩ := Option.isSome_iff_exists.mp survives
      obtain ⟨keyStage, keyToken⟩ := cellKey_eq_some cell
      have total := groupWeight_pos nonneg listed cell heavyEnough positive'
      rw [keyStage, keyToken, stage, token] at total
      have whole := @group_weight_sum _ _ _ _ _ _ flows minWeight bridges iterate sourceAsset
        outputAsset entryAmount iterated _ _ total
      refine ⟨?_, whole, ?_⟩
      · intro empty
        rw [empty] at whole
        simp at whole
      · intro step grouped step' grouped'
        obtain ⟨listed, here⟩ := List.mem_filter.mp grouped
        obtain ⟨listed', here'⟩ := List.mem_filter.mp grouped'
        obtain ⟨hereStage, hereToken⟩ := of_decide_eq_true here
        obtain ⟨hereStage', hereToken'⟩ := of_decide_eq_true here'
        rw [(step_weight iterated listed).2, (step_weight iterated listed').2, hereStage, hereToken,
          hereStage', hereToken', if_pos total, if_pos total]
        ring
    case distinct =>
      rw [((steps_perm iterated).map _).nodup_iff, List.map_map]
      exact merged_nodup flows
    case executable =>
      intro step listed
      obtain ⟨⟨flow, member, cell, -⟩, -⟩ := step_weight iterated listed
      exact ⟨flow, member, cell⟩
    case ordered => exact List.pairwise_insertionSort _ _

end

def toPool (pool : Nat) (weight : ℚ) : FlowRecord Nat Nat ℚ where
  stage := 0
  tokenIn := 0
  tokenOut := 1
  poolId := some pool
  amountIn := 0
  amountOut := 0
  weight

/-- Two dominant pools and one dust flow. -/
def dominantFlows : List (FlowRecord Nat Nat ℚ) :=
  [toPool 1 (3 / 5), toPool 2 (39 / 100), toPool 3 (1 / 100)]

theorem buildPlan_strandsNothing_iff_dominant :
    StrandsNothing dominantFlows (1 / 20) ∅
      (buildPlan id dominantFlows 0 0 1000 (1 / 20) ∅) := by
  have nonneg : ∀ flow ∈ dominantFlows, 0 ≤ flow.weight := by
    norm_num [dominantFlows, toPool]
  refine (buildPlan_strandsNothing_iff nonneg (fun _ => List.Perm.refl _)).mpr ?_
  intro flow member _ _
  refine ⟨toPool 1 (3 / 5), List.mem_cons_self, by decide, by norm_num [toPool], ?_⟩
  simp only [dominantFlows, List.mem_cons, List.not_mem_nil, or_false] at member
  rcases member with rfl | rfl | rfl <;> exact ⟨rfl, rfl⟩

/-! ### A balance that many small flows share -/

/-- One token split evenly over the pools of a stage. -/
def evenFlows (pools : Nat) : List (FlowRecord Nat Nat ℚ) :=
  (List.range pools).map (fun pool => toPool pool (1 / pools))

/-- An even split over 128 pools is all dust, and the plan has no step for its balance. -/
theorem evenFlows_stranded :
    (∀ flow ∈ evenFlows 128, 0 ≤ flow.weight) ∧
    ((evenFlows 128).map FlowRecord.weight).sum = 1 ∧
    (buildPlan id (evenFlows 128) 0 0 1000 planMinWeight ∅).steps = [] ∧
    ¬ StrandsNothing (evenFlows 128) planMinWeight ∅
        (buildPlan id (evenFlows 128) 0 0 1000 planMinWeight ∅) := by
  have weights : ∀ flow ∈ evenFlows 128, flow.weight = 1 / 128 := by
    intro flow member
    obtain ⟨pool, -, rfl⟩ := List.mem_map.mp member
    rfl
  have empty : (buildPlan id (evenFlows 128) 0 0 1000 planMinWeight ∅).steps = [] := by
    have merged : (evenFlows 128).foldl (mergeFlow planMinWeight ∅) [] = [] := by
      apply merged_eq_nil
      intro flow member
      rw [weights flow member]
      norm_num [planMinWeight]
    simp [buildPlan, merged]
  refine ⟨?_, ?_, empty, ?_⟩
  · intro flow member
    rw [weights flow member]
    norm_num
  · rw [List.map_congr_left weights]
    norm_num [evenFlows, Function.comp_def]
  · intro strands
    have member : toPool 0 (1 / (128 : Nat)) ∈ evenFlows 128 :=
      List.mem_map.mpr ⟨0, by simp, rfl⟩
    obtain ⟨nonempty, -, -⟩ := strands.routed _ member (by norm_num [toPool]) (by decide)
    exact nonempty (by simp [ExecutionPlan.group, empty])

end ArmchairAnalyst.Optimization
