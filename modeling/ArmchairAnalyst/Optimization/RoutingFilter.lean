import ArmchairAnalyst.PoolReserves

/-!
# The routing filter

Reserves enter the optimizer through the session's whitelist and a topological filter.
The filter keeps the tokens that are on a cycle with the source asset, where a demand
edge closes an open route. Pools and bridges are the edges of a multigraph.
-/

namespace ArmchairAnalyst.Optimization

open Std (TransOrd LawfulEqOrd TransCmp)

section Pairs

variable {A B : Type} [Ord A] [Ord B]

instance pairOrd : Ord (A × B) := lexOrd

instance pairTransOrd [TransOrd A] [TransOrd B] : TransOrd (A × B) := Std.instTransOrdProd

instance pairLawfulEqOrd [LawfulEqOrd A] [LawfulEqOrd B] : LawfulEqOrd (A × B) where
  eq_of_compare := by
    intro first second equal
    have both := compareLex_eq_eq.mp (equal : compareLex (compareOn Prod.fst) (compareOn Prod.snd)
      first second = .eq)
    exact Prod.ext (LawfulEqOrd.eq_of_compare both.1) (LawfulEqOrd.eq_of_compare both.2)

end Pairs

structure OptimizationSessionConfig (T : Type) [Ord T] where
  sourceAsset : T
  outputAsset : T
  bridges : HashSet (T × T)
  whitelist : Option (HashSet T)

section

variable {T I F : Type} [Ord T] [TransOrd T] [DecidableEq T]

instance [LawfulEqOrd T] : DecidableEq (OptimizationSessionConfig T) := fun config config' =>
  decidable_of_iff
    (config.sourceAsset = config'.sourceAsset ∧ config.outputAsset = config'.outputAsset ∧
      config.bridges = config'.bridges ∧ config.whitelist = config'.whitelist)
    (by cases config; cases config'; simp)

/-! ### The graph of tokens -/

/-- The neighbours of every token, one entry for every edge. -/
abbrev Adjacency (T : Type) [Ord T] := HashMap T (List T)

def Adjacency.neighbors (adjacency : Adjacency T) (token : T) : List T :=
  adjacency[token]?.getD []

def Adjacency.push (adjacency : Adjacency T) (token neighbor : T) : Adjacency T :=
  adjacency.insert token (adjacency.neighbors token ++ [neighbor])

def Adjacency.addEdge (adjacency : Adjacency T) (edge : T × T) : Adjacency T :=
  (adjacency.push edge.1 edge.2).push edge.2 edge.1

variable [Ord I] [TransOrd I]

/-- One edge for each pool, whichever of its directions comes first. -/
def poolEdges : HashSet I → List (PoolReserves T I F) → List (T × T)
  | _, [] => []
  | seen, reserve :: reserves =>
    if reserve.token0 = reserve.token1 then poolEdges seen reserves
    else if reserve.poolId ∈ seen then poolEdges seen reserves
    else (reserve.token0, reserve.token1) :: poolEdges (seen.insert reserve.poolId) reserves

/-- One edge for each bridge, whichever of its directions comes first. -/
def bridgeEdges : HashSet (T × T) → List (T × T) → List (T × T)
  | _, [] => []
  | seen, (a, b) :: bridges =>
    if a = b ∨ (b, a) ∈ seen ∨ (a, b) ∈ seen then bridgeEdges seen bridges
    else (a, b) :: bridgeEdges (seen.insert (a, b)) bridges

def demandEdges (sourceAsset outputAsset : T) : List (T × T) :=
  if sourceAsset = outputAsset then [] else [(sourceAsset, outputAsset)]

/-! ### Stripping -/

/-- The tokens whose degree fell below two are on the stack. -/
structure Stripping (T : Type) [Ord T] where
  degree : HashMap T Nat
  removed : HashSet T
  stack : List T

/-- A neighbour of a removed token loses one edge. -/
def Stripping.lower (stripping : Stripping T) (neighbor : T) : Stripping T :=
  if neighbor ∈ stripping.removed then stripping
  else
    match stripping.degree[neighbor]? with
    | none => stripping
    | some degree =>
      { stripping with
        degree := stripping.degree.insert neighbor (degree - 1)
        stack := if degree - 1 < 2 then neighbor :: stripping.stack else stripping.stack }

def Stripping.strip (adjacency : Adjacency T) (stripping : Stripping T) (token : T) :
    Stripping T :=
  if token ∈ stripping.removed ∨ 2 ≤ stripping.degree[token]?.getD 0 then stripping
  else (adjacency.neighbors token).foldl Stripping.lower
    { stripping with removed := stripping.removed.insert token }

/-- Pops the stack until it is empty. -/
def stripLoop (adjacency : Adjacency T) : Nat → Stripping T → Stripping T
  | 0, stripping => stripping
  | fuel + 1, stripping =>
    match stripping.stack with
    | [] => stripping
    | token :: stack => stripLoop adjacency fuel ({ stripping with stack }.strip adjacency token)

/-- Every removed token puts each of its neighbours on the stack at most once. -/
def stripFuel (adjacency : Adjacency T) : Nat :=
  adjacency.size + (adjacency.toList.map (fun entry => entry.2.length)).sum

/-- The tokens that are stripped when the first ones are taken in this order. -/
def strippedTokensFrom (adjacency : Adjacency T) (stack : List T) : HashSet T :=
  (stripLoop adjacency (stripFuel adjacency)
    { degree := adjacency.map (fun _ neighbors => neighbors.length), removed := ∅, stack }).removed

/-! ### The component of the source asset -/

structure Growing (T : Type) [Ord T] where
  keep : HashSet T
  frontier : List T

def Growing.visit (removed : HashSet T) (growing : Growing T) (neighbor : T) : Growing T :=
  if neighbor ∈ removed ∨ neighbor ∈ growing.keep then growing
  else
    { keep := growing.keep.insert neighbor
      frontier := neighbor :: growing.frontier }

/-- Pops the frontier until it is empty. -/
def growLoop (adjacency : Adjacency T) (removed : HashSet T) : Nat → Growing T → Growing T
  | 0, growing => growing
  | fuel + 1, growing =>
    match growing.frontier with
    | [] => growing
    | token :: frontier =>
      growLoop adjacency removed fuel
        ((adjacency.neighbors token).foldl (Growing.visit removed) { growing with frontier })

/-! ### Draining orders -/

/-- An order in which the hash maps of the filter are drained. -/
structure RouteOrder (T : Type) [Ord T] [TransOrd T] where
  bridges : HashSet (T × T) → List (T × T)
  bridges_perm : ∀ pairs, (bridges pairs).Perm pairs.toList
  degrees : HashMap T Nat → List (T × Nat)
  degrees_perm : ∀ degree, (degrees degree).Perm degree.toList

namespace RouteOrder

def byKey : RouteOrder T where
  bridges pairs := pairs.toList
  bridges_perm _ := List.Perm.refl _
  degrees degree := degree.toList
  degrees_perm _ := List.Perm.refl _

variable (order : RouteOrder T)

def routeGraph (reserves : List (PoolReserves T I F)) (sourceAsset outputAsset : T)
    (bridges : HashSet (T × T)) : Adjacency T :=
  (poolEdges ∅ reserves ++ bridgeEdges ∅ (order.bridges bridges) ++
    demandEdges sourceAsset outputAsset).foldl Adjacency.addEdge ∅

/-- The tokens outside the 2-core. -/
def strippedTokens (adjacency : Adjacency T) : HashSet T :=
  let degree := adjacency.map (fun _ neighbors => neighbors.length)
  strippedTokensFrom adjacency
    (((order.degrees degree).filter (fun entry => entry.2 < 2)).map Prod.fst)

def routableTokens (reserves : List (PoolReserves T I F)) (sourceAsset outputAsset : T)
    (bridges : HashSet (T × T)) : HashSet T :=
  let adjacency := order.routeGraph reserves sourceAsset outputAsset bridges
  let removed := order.strippedTokens adjacency
  if sourceAsset ∈ removed ∨ sourceAsset ∉ adjacency then ∅
  else
    (growLoop adjacency removed (adjacency.size + 1)
      { keep := (∅ : HashSet T).insert sourceAsset, frontier := [sourceAsset] }).keep

/-- Without a route through the source asset the reserves are left as they are. -/
def routableReserves (reserves : List (PoolReserves T I F)) (sourceAsset outputAsset : T)
    (bridges : HashSet (T × T)) : List (PoolReserves T I F) :=
  let keep := order.routableTokens reserves sourceAsset outputAsset bridges
  if sourceAsset ∉ keep then reserves
  else
    let pruned := reserves.filter (fun reserve => reserve.token0 ∈ keep ∧ reserve.token1 ∈ keep)
    if pruned.isEmpty then reserves else pruned

end RouteOrder

/-! ### Admission -/

def whitelistedReserves (reserves : List (PoolReserves T I F)) :
    Option (HashSet T) → List (PoolReserves T I F)
  | none => reserves
  | some allowed =>
    reserves.filter (fun reserve => reserve.token0 ∈ allowed ∧ reserve.token1 ∈ allowed)

/-- The maps are drained by key, which on the reserves of a snapshot makes no difference. -/
def admissibleReserves (reserves : List (PoolReserves T I F))
    (config : OptimizationSessionConfig T) : List (PoolReserves T I F) :=
  RouteOrder.byKey.routableReserves (whitelistedReserves reserves config.whitelist) config.sourceAsset
    config.outputAsset config.bridges

def reservesReachRoute (reserves : List (PoolReserves T I F))
    (config : OptimizationSessionConfig T) : Bool :=
  let admissible := admissibleReserves reserves config
  admissible.any (fun reserve => reserve.token1 = config.outputAsset) &&
    admissible.any (fun reserve =>
      reserve.token0 = config.sourceAsset ∨ reserve.token1 = config.sourceAsset)

omit [DecidableEq T] [Ord I] [TransOrd I] in
theorem whitelistedReserves_sublist (reserves : List (PoolReserves T I F))
    (whitelist : Option (HashSet T)) :
    (whitelistedReserves reserves whitelist).Sublist reserves := by
  cases whitelist with
  | none => exact .refl _
  | some allowed => exact List.filter_sublist

theorem RouteOrder.routableReserves_sublist (order : RouteOrder T)
    (reserves : List (PoolReserves T I F)) (sourceAsset outputAsset : T)
    (bridges : HashSet (T × T)) :
    (order.routableReserves reserves sourceAsset outputAsset bridges).Sublist reserves := by
  unfold routableReserves
  dsimp only
  split
  · exact .refl _
  · split
    · exact .refl _
    · exact List.filter_sublist

/-- Admission only drops reserves. -/
theorem admissibleReserves_sublist (reserves : List (PoolReserves T I F))
    (config : OptimizationSessionConfig T) :
    (admissibleReserves reserves config).Sublist reserves :=
  (RouteOrder.byKey.routableReserves_sublist _ _ _ _).trans (whitelistedReserves_sublist _ _)

/-- Some reserve of the snapshot yields the output asset, and some reserve trades the
source asset. -/
theorem reservesReachRoute_covers {reserves : List (PoolReserves T I F)}
    {config : OptimizationSessionConfig T} (reaches : reservesReachRoute reserves config = true) :
    (∃ reserve ∈ reserves, reserve.token1 = config.outputAsset) ∧
      ∃ reserve ∈ reserves,
        reserve.token0 = config.sourceAsset ∨ reserve.token1 = config.sourceAsset := by
  have kept := (admissibleReserves_sublist reserves config).subset
  simp only [reservesReachRoute, Bool.and_eq_true, List.any_eq_true, decide_eq_true_eq] at reaches
  obtain ⟨⟨yields, listed, output⟩, ⟨trades, listed', source⟩⟩ := reaches
  exact ⟨⟨yields, kept listed, output⟩, ⟨trades, kept listed', source⟩⟩

end

end ArmchairAnalyst.Optimization
