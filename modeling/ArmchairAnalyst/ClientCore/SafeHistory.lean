import ArmchairAnalyst.ClientCore.FetchHistory

/-!
# Safety of every history

Whatever events the engine is fed, its fetches are recorded and spaced, slices are
applied in the order of their requests, and only reserves that serve the route in
force reach the optimizer.
-/

namespace ArmchairAnalyst.ClientCore

open Wire Optimization RequestStore

/-- The route carries the chain of the session. -/
def SessionConfig.Stamped (config : SessionConfig) : Prop :=
  config.optimization.sourceAsset.chain = config.chain ∧
    config.optimization.outputAsset.chain = config.chain

variable [ReserveProjection]

/-- The provenance of the reserves that drive the optimizer. -/
def Session.provenance : Session → Option SliceProvenance
  | .ready _ (.optimizing latest _ _) => some latest
  | _ => none

def AppState.provenance (state : AppState) : Option SliceProvenance := state.session.provenance

variable [HexText]

/-- A slice that answers the recorded request drives the optimizer. -/
def Applies (state : AppState) (event : Event) (id : FetchId) : Prop :=
  ∃ slice, event = .sliceFetched id slice ∧ state.pending.holds .slice id = true ∧
    ∃ reserves session, Effect.pushReserves reserves session ∈ (transition state event).2

/-- What holds of every history that starts in a state. -/
structure Safe (start : AppState) : Prop where
  distinct : ∀ events, (issuedAlong start events).length < 2 ^ 64 →
    ((issuedAlong start events).map Prod.snd).Nodup
  recorded : ∀ events event kind id,
    (kind, id) ∈ issued (transition (after start events) event).2 →
    (transition (after start events) event).1.pending.holds kind id = true
  spaced : ∀ before first middle second kind id id',
    (kind, id) ∈ issued (transition (after start before) first).2 →
    (kind, id') ∈ issued (transition (after start (before ++ first :: middle)) second).2 →
    (∃ taken answer rest, middle = taken ++ answer :: rest ∧
      Accepts (after start (before ++ first :: taken)) answer kind id) ∨
    fetchTtlTicks.toNat ≤ ticks (middle ++ [second])
  asked : ∀ events event id request,
    Effect.fetchSlice id request ∈ (transition (after start events) event).2 →
    ∃ catalog, (transition (after start events) event).1.catalog = some catalog ∧
      request = catalog.sliceRequest ∧ catalog.RequestsItsPools ∧ catalog.RequestResolves
  pushed : ∀ events event reserves session,
    Effect.pushReserves reserves session ∈ (transition (after start events) event).2 →
    session = (after start events).config.optimization ∧
      session = (transition (after start events) event).1.config.optimization ∧
      reservesReachRoute reserves session = true ∧
      (∃ reserve ∈ reserves, reserve.token1 = session.outputAsset) ∧
      ∃ reserve ∈ reserves,
        reserve.token0 = session.sourceAsset ∨ reserve.token1 = session.sourceAsset
  applied : ∀ events event,
    (transition (after start events) event).1.provenance = (after start events).provenance ∨
    (transition (after start events) event).1.provenance = none ∨
    ∃ id slice provenance, event = .sliceFetched id slice ∧
      Applies (after start events) event id ∧ parseProvenance slice = .ok provenance ∧
      (transition (after start events) event).1.provenance = some provenance
  inOrder : ∀ before first middle second id id',
    Applies (after start before) first id →
    Applies (after start (before ++ first :: middle)) second id' →
    ∃ earlier between later, issuedAlong start (before ++ first :: middle) =
      earlier ++ (.slice, id) :: between ++ (.slice, id') :: later
  rejected : ∀ events event kind id, event.answer = some (kind, id) →
    (after start events).pending.holds kind id ≠ true →
    transition (after start events) event = (after start events, [])
  sameRoute : ∀ events route, (after start events).config.routes route →
    transition (after start events) (.setRoute route) = (after start events, [])
  stamped : ∀ events, (after start events).config.chain = start.config.chain ∧
    (after start events).config.Stamped

/-! ### What a step does -/

namespace Session

omit [HexText]

theorem provenance_withCatalog (session : Session) (catalog : Catalog) :
    (session.withCatalog catalog).provenance = session.provenance := by
  cases session with
  | noCatalog => rfl
  | ready held work => cases work <;> rfl

theorem provenance_stepped (session : Session) (result : OptimizationStepResult)
    (plan : Option ExecutionPlan) :
    (session.stepped result plan).provenance = session.provenance := by
  cases session with
  | noCatalog => rfl
  | ready held work => cases work <;> rfl

theorem provenance_bootstrapping (session : Session) :
    session.bootstrapping.provenance = none := by
  cases session <;> rfl

end Session

omit [HexText] in
theorem ensureFetch_state (state : AppState) (kind : FetchKind) (effect : FetchId → Effect) :
    (ensureFetch state kind effect).1 = { state with pending := (state.pending.ensure kind).2 } := by
  unfold ensureFetch
  split <;> simp_all

omit [HexText] in
theorem mem_ensureFetch {state : AppState} {kind : FetchKind} {effect : FetchId → Effect}
    {emitted : Effect} (listed : emitted ∈ (ensureFetch state kind effect).2) :
    ∃ id, emitted = effect id := by
  unfold ensureFetch at listed
  split at listed
  · exact ⟨_, List.mem_singleton.mp listed⟩
  · cases listed

omit [HexText] in
/-- A tick only moves the ledger. -/
theorem onTick_state (state : AppState) :
    ∃ pending, (onTick state).1 = { state with pending } := by
  unfold onTick
  dsimp only
  split <;> exact ⟨_, by rw [ensureFetch_state, ensureFetch_state]⟩

omit [HexText] in
theorem mem_onTick {state : AppState} {emitted : Effect} (listed : emitted ∈ (onTick state).2) :
    (∃ id, emitted = .fetchHealth id) ∨ (∃ id, emitted = .fetchMeta id) ∨
      ∃ id catalog, state.catalog = some catalog ∧
        emitted = .fetchSlice id catalog.sliceRequest := by
  unfold onTick at listed
  dsimp only at listed
  split at listed
  · rcases List.mem_append.mp listed with polled | fetched
    · exact .inl (mem_ensureFetch polled)
    · exact .inr (.inl (mem_ensureFetch fetched))
  · rename_i catalog found
    rw [ensureFetch_state] at found
    rcases List.mem_append.mp listed with polled | fetched
    · exact .inl (mem_ensureFetch polled)
    · obtain ⟨id, rfl⟩ := mem_ensureFetch fetched
      exact .inr (.inr ⟨id, catalog, found, rfl⟩)

theorem onMeta_state (state : AppState) (response : PoolsMetaResponse) :
    ∃ pending, (onMeta state response).1 =
      { state with
        pending
        session := state.session.withCatalog (.parse response state.config.chain) } :=
  ⟨_, ensureFetch_state _ _ _⟩

/-- A slice drives the optimizer, or leaves everything but the wait reason and the last
error as it was. -/
theorem onSlice_cases (state : AppState) (slice : SliceResponse) :
    (∃ catalog work reserves provenance, state.session = .ready catalog work ∧
      catalog.project slice = .ok reserves ∧ parseProvenance slice = .ok provenance ∧
      isProductive reserves state.config = true ∧
      onSlice state slice =
        ({ state with
            session := .ready catalog (work.refreshed provenance)
            lastError := none },
          [.pushReserves reserves state.config.optimization])) ∨
    ((onSlice state slice).2 = [] ∧ (onSlice state slice).1.config = state.config ∧
      (onSlice state slice).1.catalog = state.catalog ∧
      (onSlice state slice).1.provenance = state.provenance) := by
  unfold onSlice
  cases ready : state.session with
  | noCatalog => exact .inr ⟨rfl, rfl, rfl, rfl⟩
  | ready catalog work =>
    dsimp only
    cases projected : catalog.project slice with
    | error error =>
      exact .inr ⟨rfl, rfl, by simp [AppState.catalog, ready], by simp [AppState.provenance, ready]⟩
    | ok reserves =>
      dsimp only
      cases parsed : parseProvenance slice with
      | error error =>
        exact .inr ⟨rfl, rfl, by simp [AppState.catalog, ready], by simp [AppState.provenance, ready]⟩
      | ok provenance =>
        dsimp only
        by_cases productive : isProductive reserves state.config = true
        · rw [if_pos productive]
          exact .inl ⟨catalog, work, reserves, provenance, rfl, projected, rfl, productive, rfl⟩
        · rw [if_neg productive]
          refine .inr ⟨rfl, rfl, by simp [AppState.catalog, ready], ?_⟩
          cases work <;> simp [AppState.provenance, Session.provenance, Work.unproductive, ready]

/-- An answer that is not the recorded one is dropped. -/
theorem transition_rejected {state : AppState} {event : Event} {kind : FetchKind} {id : FetchId}
    (answers : event.answer = some (kind, id)) (unheld : state.pending.holds kind id ≠ true) :
    transition state event = (state, []) := by
  cases event with
  | metaFetched _ _ | sliceFetched _ _ | healthFetched _ _ | fetchFailed _ _ _ =>
    cases answers
    simp only [transition, PendingFetches.accept, if_neg unheld]
  | optimizerStepped _ _ | effectFailed _ | tick | setRoute _ => cases answers

/-- The pushes of a step come from a productive slice that answers the recorded request. -/
theorem pushed_of_transition {state : AppState} {event : Event} {reserves : List Reserves}
    {session : OptimizationSessionConfig TokenAddress}
    (emitted : Effect.pushReserves reserves session ∈ (transition state event).2) :
    ∃ id slice catalog work provenance, event = .sliceFetched id slice ∧
      state.pending.holds .slice id = true ∧ state.session = .ready catalog work ∧
      catalog.project slice = .ok reserves ∧ parseProvenance slice = .ok provenance ∧
      isProductive reserves state.config = true ∧ session = state.config.optimization ∧
      (transition state event).1 =
        { state with
          pending := state.pending.setSlot .slice none
          session := .ready catalog (work.refreshed provenance)
          lastError := none } := by
  cases event with
  | tick =>
    rcases mem_onTick emitted with ⟨_, other⟩ | ⟨_, other⟩ | ⟨_, _, _, other⟩ <;> cases other
  | metaFetched id response =>
    simp only [transition, PendingFetches.accept] at emitted
    split at emitted
    · obtain ⟨_, other⟩ := mem_ensureFetch emitted
      cases other
    · cases emitted
  | sliceFetched id slice =>
    by_cases held : state.pending.holds .slice id = true
    · have folded : transition state (.sliceFetched id slice) =
          onSlice { state with pending := state.pending.setSlot .slice none } slice := by
        simp only [transition, PendingFetches.accept, if_pos held]
      rw [folded] at emitted ⊢
      rcases onSlice_cases { state with pending := state.pending.setSlot .slice none } slice with
        ⟨catalog, work, reserves', provenance, ready, projected, parsed, productive, result⟩ |
          ⟨silent, -⟩
      · rw [result] at emitted ⊢
        cases List.mem_singleton.mp emitted
        exact ⟨id, slice, catalog, work, provenance, rfl, held, ready, projected, parsed,
          productive, rfl, rfl⟩
      · rw [silent] at emitted
        cases emitted
    · rw [transition_rejected rfl held] at emitted
      cases emitted
  | healthFetched id response =>
    simp only [transition, PendingFetches.accept] at emitted
    split at emitted <;> cases emitted
  | fetchFailed id kind message =>
    simp only [transition, PendingFetches.accept] at emitted
    split at emitted <;> cases emitted
  | optimizerStepped result plan => cases emitted
  | effectFailed error => cases emitted
  | setRoute route => cases emitted

/-- What a step does to the route, the catalog and the provenance. -/
inductive Stepped (state : AppState) (event : Event) (next : AppState) : Prop
  | quiet : next.config = state.config → next.catalog = state.catalog →
      next.provenance = state.provenance → Stepped state event next
  | catalogued (response : PoolsMetaResponse) : next.config = state.config →
      next.catalog = some (.parse response state.config.chain) →
      next.provenance = state.provenance → Stepped state event next
  | applied (id : FetchId) (slice : SliceResponse) (provenance : SliceProvenance) :
      event = .sliceFetched id slice → Applies state event id →
      parseProvenance slice = .ok provenance → next.config = state.config →
      next.catalog = state.catalog → next.provenance = some provenance → Stepped state event next
  | retargeted (route : Route) : next.config = state.config.retarget route →
      next.catalog = state.catalog → next.provenance = none → Stepped state event next

theorem transition_stepped (state : AppState) (event : Event) :
    Stepped state event (transition state event).1 := by
  cases event with
  | tick =>
    obtain ⟨pending, result⟩ := onTick_state state
    have folded : (transition state .tick).1 = { state with pending } := result
    rw [folded]
    exact .quiet rfl rfl rfl
  | metaFetched id response =>
    by_cases held : state.pending.holds .poolsMeta id = true
    · obtain ⟨pending, result⟩ :=
        onMeta_state { state with pending := state.pending.setSlot .poolsMeta none } response
      simp only [transition, PendingFetches.accept, if_pos held, result]
      apply Stepped.catalogued response
      · rfl
      · cases ready : state.session <;> simp [AppState.catalog, Session.withCatalog]
      · exact Session.provenance_withCatalog _ _
    · rw [transition_rejected rfl held]
      exact .quiet rfl rfl rfl
  | sliceFetched id slice =>
    by_cases held : state.pending.holds .slice id = true
    · have folded : transition state (.sliceFetched id slice) =
          onSlice { state with pending := state.pending.setSlot .slice none } slice := by
        simp only [transition, PendingFetches.accept, if_pos held]
      rcases onSlice_cases { state with pending := state.pending.setSlot .slice none } slice with
        ⟨catalog, work, reserves, provenance, ready, -, parsed, -, result⟩ |
          ⟨-, config, catalog, provenance⟩
      · have applies : Applies state (.sliceFetched id slice) id :=
          ⟨slice, rfl, held, reserves, state.config.optimization, by rw [folded, result]; simp⟩
        rw [folded, result]
        refine .applied id slice provenance rfl applies parsed rfl ?_ ?_
        · have before : state.session = .ready catalog work := ready
          simp [AppState.catalog, before]
        · cases work <;> rfl
      · rw [folded]
        exact .quiet config catalog provenance
    · rw [transition_rejected rfl held]
      exact .quiet rfl rfl rfl
  | healthFetched id response =>
    simp only [transition, PendingFetches.accept]
    split <;> exact .quiet rfl rfl rfl
  | fetchFailed id kind message =>
    simp only [transition, PendingFetches.accept]
    split <;> exact .quiet rfl rfl rfl
  | optimizerStepped result plan =>
    apply Stepped.quiet
    · rfl
    · cases ready : state.session <;>
        simp [transition, onStep, AppState.catalog, Session.stepped, ready]
    · exact Session.provenance_stepped _ _ _
  | effectFailed error => exact .quiet rfl rfl rfl
  | setRoute route =>
    simp only [transition, onSetRoute]
    split
    · exact .quiet rfl rfl rfl
    · apply Stepped.retargeted route
      · rfl
      · cases ready : state.session <;> simp [AppState.catalog, Session.bootstrapping, ready]
      · exact Session.provenance_bootstrapping _

/-- A slice is asked for with the request of the catalog that is held afterwards. -/
theorem asked_of_transition {state : AppState} {event : Event} {id : FetchId}
    {request : SliceRequest}
    (emitted : Effect.fetchSlice id request ∈ (transition state event).2) :
    ∃ catalog, (transition state event).1.catalog = some catalog ∧
      request = catalog.sliceRequest := by
  cases event with
  | tick =>
    rcases mem_onTick emitted with ⟨_, other⟩ | ⟨_, other⟩ | ⟨id', catalog, held, same⟩
    · cases other
    · cases other
    · cases same
      obtain ⟨pending, result⟩ := onTick_state state
      have folded : (transition state .tick).1 = { state with pending } := result
      rw [folded]
      exact ⟨catalog, held, rfl⟩
  | metaFetched id' response =>
    by_cases held : state.pending.holds .poolsMeta id' = true
    · obtain ⟨pending, result⟩ :=
        onMeta_state { state with pending := state.pending.setSlot .poolsMeta none } response
      simp only [transition, PendingFetches.accept, if_pos held, result] at emitted ⊢
      obtain ⟨_, same⟩ := mem_ensureFetch emitted
      cases same
      refine ⟨_, ?_, rfl⟩
      cases state.session <;> rfl
    · rw [transition_rejected rfl held] at emitted
      cases emitted
  | sliceFetched id' slice =>
    by_cases held : state.pending.holds .slice id' = true
    · simp only [transition, PendingFetches.accept, if_pos held] at emitted
      rcases onSlice_cases { state with pending := state.pending.setSlot .slice none } slice with
        ⟨_, _, _, _, -, -, -, -, result⟩ | ⟨silent, -⟩
      · rw [result] at emitted
        cases List.mem_singleton.mp emitted
      · rw [silent] at emitted
        cases emitted
    · rw [transition_rejected rfl held] at emitted
      cases emitted
  | healthFetched _ _ | fetchFailed _ _ _ =>
    simp only [transition, PendingFetches.accept] at emitted
    split at emitted <;> cases emitted
  | optimizerStepped _ _ | effectFailed _ | setRoute _ => cases emitted

/-! ### What a history keeps -/

/-- The held catalog asks for exactly its pools. -/
def CatalogSound (state : AppState) : Prop :=
  ∀ catalog, state.catalog = some catalog → catalog.RequestsItsPools ∧ catalog.RequestResolves

theorem transition_catalogSound {state : AppState} (sound : CatalogSound state) (event : Event) :
    CatalogSound (transition state event).1 := by
  intro catalog held
  cases transition_stepped state event with
  | quiet _ keeps _ => exact sound catalog (keeps ▸ held)
  | catalogued response _ replaced _ =>
    rw [replaced] at held
    cases held
    exact Catalog.parse_requests response state.config.chain
  | applied _ _ _ _ _ _ _ keeps _ => exact sound catalog (keeps ▸ held)
  | retargeted _ _ keeps _ => exact sound catalog (keeps ▸ held)

theorem transition_stamped {state : AppState} (stamped : state.config.Stamped) (event : Event) :
    (transition state event).1.config.chain = state.config.chain ∧
      (transition state event).1.config.Stamped := by
  cases transition_stepped state event with
  | quiet keeps _ _ => exact ⟨congrArg _ keeps, keeps ▸ stamped⟩
  | catalogued _ keeps _ _ => exact ⟨congrArg _ keeps, keeps ▸ stamped⟩
  | applied _ _ _ _ _ _ keeps _ _ => exact ⟨congrArg _ keeps, keeps ▸ stamped⟩
  | retargeted route replaced _ _ =>
    rw [replaced]
    exact ⟨rfl, rfl, rfl⟩

/-- What holds at the start and is kept by every step holds after every history. -/
theorem after_invariant (holds : AppState → Prop) {start : AppState} (base : holds start)
    (keep : ∀ state event, holds state → holds (transition state event).1) (events : List Event) :
    holds (after start events) := by
  induction events generalizing start with
  | nil => exact base
  | cons event events inductionHypothesis => exact inductionHypothesis (keep start event base)

/-- The engine is safe in every history. -/
theorem engine_safe {config : SessionConfig} (stamped : config.Stamped) :
    Safe (.started config) where
  distinct := by
    intro events bounded
    have ids := (issuedAlong_ids (.started config) events).2
    have values : (((issuedAlong (.started config) events).map Prod.snd).map
        FetchId.value).Nodup := by
      rw [List.map_map]
      exact ids ▸ idsAfter_nodup _ bounded
    exact values.of_map _
  recorded := by
    intro events event kind id emitted
    simp [PendingFetches.holds, holds_of_issued emitted]
  spaced := by
    intro before first middle second kind id id' emitted emitted'
    rw [after_append] at emitted'
    have recorded := holds_of_issued emitted
    have clock : (transition (after (.started config) before) first).1.pending.now =
        (transition (after (.started config) before) first).1.pending.now + UInt64.ofNat 0 := by
      simp
    rcases issued_again recorded clock emitted' with
      ⟨taken, answer, rest, split, accepted⟩ | expired
    · refine .inl ⟨taken, answer, rest, split, ?_⟩
      rw [after_append]
      exact accepted
    · right
      simpa using expired
  asked := by
    intro events event id request emitted
    obtain ⟨catalog, held, asks⟩ := asked_of_transition emitted
    have base : CatalogSound (.started config) := by rintro _ ⟨⟩
    have sound := after_invariant CatalogSound base
      (fun state event sound => transition_catalogSound sound event) events
    exact ⟨catalog, held, asks, transition_catalogSound sound event catalog held⟩
  pushed := by
    intro events event reserves session emitted
    obtain ⟨_, _, _, _, _, -, -, -, -, -, productive, rfl, result⟩ := pushed_of_transition emitted
    have reaches := (Bool.and_eq_true_iff.mp productive).2
    obtain ⟨yields, trades⟩ := reservesReachRoute_covers reaches
    exact ⟨rfl, by rw [result], reaches, yields, trades⟩
  applied := by
    intro events event
    cases transition_stepped (after (.started config) events) event with
    | quiet _ _ keeps => exact .inl keeps
    | catalogued _ _ _ keeps => exact .inl keeps
    | applied id slice provenance answers applies parsed _ _ result =>
      exact .inr (.inr ⟨id, slice, provenance, answers, applies, parsed, result⟩)
    | retargeted _ _ _ cleared => exact .inr (.inl cleared)
  inOrder := by
    intro before first middle second id id' applies applies'
    obtain ⟨slice, rfl, held, -⟩ := applies
    obtain ⟨slice', rfl, held', -⟩ := applies'
    have unsent : ∀ kind, (AppState.started config).pending.slot kind = none := by
      intro kind
      cases kind <;> rfl
    have accepts : Accepts (after (.started config) before) (.sliceFetched id slice) .slice id :=
      ⟨rfl, held⟩
    have accepts' : Accepts (after (.started config) (before ++ .sliceFetched id slice :: middle))
        (.sliceFetched id' slice') .slice id' := ⟨rfl, held'⟩
    exact accepted_in_order unsent accepts accepts'
  rejected := fun events event kind id => transition_rejected
  sameRoute := by
    intro events route current
    simp only [transition, onSetRoute, if_pos current]
  stamped := by
    intro events
    apply after_invariant (fun state => state.config.chain = config.chain ∧ state.config.Stamped)
    · exact ⟨rfl, stamped⟩
    · intro state event held
      have next := transition_stamped held.2 event
      exact ⟨next.1.trans held.1, next.2⟩

omit [ReserveProjection] [HexText] in
/-- The client's own configuration of every route is stamped. -/
theorem sessionConfigFor_stamped (route : Route) : (sessionConfigFor route).Stamped := ⟨rfl, rfl⟩

omit [ReserveProjection] [HexText] in
theorem engine_safe_defaultRoute :
    letI : ReserveProjection := .convertible
    letI : HexText := .decoded
    Safe (.started (sessionConfigFor defaultRoute)) := by
  let _ : ReserveProjection := .convertible
  let _ : HexText := .decoded
  exact engine_safe (sessionConfigFor_stamped defaultRoute)

end ArmchairAnalyst.ClientCore
