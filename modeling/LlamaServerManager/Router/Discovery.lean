import LlamaServerManager.Router.Resolution

/-!
When discovery and routing agree (`discovery_agrees_iff`): every advertised name
has a target, and every target that answers for a public name is advertised
under it. The second part always holds. The first fails for an instance without
a route whose public name is an alias of stopped targets, or that strict routing
passes over because there are routes (`unrouted_unanswered`).
-/

namespace LlamaServerManager.Router

open Lib

/-! ### Public names -/

theorem blank_iff {s : String} : blank s = true ↔ Text.trim s = "" := by
  unfold blank
  rw [String.isEmpty_iff]

theorem not_blank_iff {s : String} : (!blank s) = true ↔ Text.trim s ≠ "" := by
  rw [Bool.not_eq_true', ← Bool.not_eq_true, blank_iff]

/-- Names are trimmed and not empty. -/
def Trimmed (s : String) : Prop := Text.trim s = s ∧ s ≠ ""

theorem modelFileStem_trimmed {value stem : String} (h : modelFileStem value = some stem) :
    Trimmed stem := by
  unfold modelFileStem at h
  obtain ⟨component, -, rest⟩ := Option.bind_eq_some_iff.mp h
  obtain ⟨nonempty, eq⟩ := Option.ite_none_left_eq_some.mp rest
  rw [← Option.some.inj eq]
  refine ⟨?_, fun empty => nonempty ?_⟩
  · rw [Text.trim_eq, String.toList_ofList, Text.trimChars_trimChars]
  · have none_ := congrArg String.toList empty
    rw [String.toList_ofList] at none_
    rw [none_]
    rfl

theorem publicModelId_trimmed (config : InstanceConfig) : Trimmed (publicModelId config) := by
  unfold publicModelId
  split
  · next named => exact ⟨Text.trim_trim _, not_blank_iff.mp named⟩
  · dsimp only
    have model : Trimmed "model" := ⟨by decide +kernel, by decide⟩
    have path : Trimmed ((modelFileStem config.modelPath).getD "model") := by
      cases stem : modelFileStem config.modelPath with
      | none => exact model
      | some stem => exact modelFileStem_trimmed ‹_›
    split
    · exact path
    · next named =>
        split
        · exact ⟨Text.trim_trim _, fun empty => named (blank_iff.mpr empty)⟩
        · cases stem : modelFileStem (Text.trim config.name) with
          | none => exact path
          | some stem => exact modelFileStem_trimmed ‹_›

/-! ### Lists -/

theorem mem_dedup {x : String} (xs : List String) : x ∈ dedup xs ↔ x ∈ xs := by
  fun_induction dedup xs with
  | case1 => rfl
  | case2 => rfl
  | case3 y rest ih =>
    rw [ih]
    exact ⟨List.mem_cons_of_mem _, fun h => (List.mem_cons.mp h).elim
      (fun same => same ▸ List.mem_cons_self) id⟩
  | case4 y z rest ne ih => rw [List.mem_cons, List.mem_cons, ih]

theorem mem_sortedKeys {β : Type} {m : Dict String β} {id : String} :
    id ∈ sortedKeys m ↔ (m.lookup id).isSome := by
  unfold sortedKeys
  rw [List.mem_mergeSort, AList.lookup_isSome]
  rfl

section

variable {readToString : String → Option String} {config : ProxyConfig}
  {instances : Dict String InstanceConfig} {running : Dict String RunningInstance}

/-! ### What a name is answered by -/

/-- The instance is configured and runs. -/
def Live (instances : Dict String InstanceConfig) (running : Dict String RunningInstance)
    (id : String) : Prop :=
  (instances.lookup id).isSome ∧ (running.lookup id).isSome

/-- The public name of a live instance. -/
def Goes (instances : Dict String InstanceConfig) (running : Dict String RunningInstance)
    (id model : String) : Prop :=
  ∃ stored, instances.lookup id = some stored ∧ (running.lookup id).isSome ∧
    publicModelId (launched stored (running.lookup id)) = model

/-- The name is the alias of a route. -/
def Named (config : ProxyConfig) (model : String) : Prop :=
  ∃ route ∈ config.routes, routeIsConfigured route = true ∧ Text.trim route.modelAlias = model

/-- A route with the alias has a live target. -/
def Served (config : ProxyConfig) (instances : Dict String InstanceConfig)
    (running : Dict String RunningInstance) (model : String) : Prop :=
  ∃ route ∈ config.routes, routeIsConfigured route = true ∧ Text.trim route.modelAlias = model ∧
    Live instances running (Text.trim route.targetInstanceId)

/-- Strict routing considers nothing but the routes. -/
def RoutesOnly (config : ProxyConfig) : Prop :=
  config.strictModelRouting = true ∧ ∃ route ∈ config.routes, routeIsConfigured route = true

/-- An instance without a route goes by the name. -/
def UnroutedMatch (config : ProxyConfig) (instances : Dict String InstanceConfig)
    (running : Dict String RunningInstance) (model : String) : Prop :=
  ∃ id stored, instances.lookup id = some stored ∧ (running.lookup id).isSome ∧
    id ∉ routedIds config ∧
    (publicModelId (launched stored (running.lookup id)) = model ∨
      config.strictModelRouting = false ∧
        (Text.trim (launched stored (running.lookup id)).name = model ∨ id = model))

/-- The default instance of a configuration that is not strict. -/
def DefaultMatch (config : ProxyConfig) (instances : Dict String InstanceConfig)
    (running : Dict String RunningInstance) : Prop :=
  config.strictModelRouting = false ∧ Text.trim config.defaultInstanceId ≠ "" ∧
    Live instances running (Text.trim config.defaultInstanceId)

variable {target : ResolvedProxyTarget}

theorem resolvedTargetForId_spec {id : String} {priority : Int} {weight bound : Nat}
    (h : resolvedTargetForId readToString instances running id none
      priority weight bound = some target) :
    target.«public».instanceId = id ∧ Goes instances running id target.«public».«alias» := by
  unfold resolvedTargetForId at h
  obtain ⟨stored, configured, rest⟩ := Option.bind_eq_some_iff.mp h
  obtain ⟨runningInfo, runs, rest⟩ := Option.bind_eq_some_iff.mp rest
  obtain ⟨-, eq⟩ := Option.ite_none_right_eq_some.mp rest
  cases eq
  exact ⟨rfl, stored, configured, by rw [runs]; rfl, by rw [runs]⟩

theorem resolvedTargetForId_isSome {id : String} {priority : Int} {weight bound : Nat} :
    (resolvedTargetForId readToString instances running id none priority weight bound).isSome ↔
      Live instances running id := by
  unfold resolvedTargetForId Live
  cases instances.lookup id with
  | none => simp
  | some stored =>
    cases running.lookup id with
    | none => simp
    | some runningInfo => simp [storedTargetMatchesEndpoint, vectorEndpointMatchesTarget]

variable (readToString) in
theorem resolvedTargetForId_of_live {id : String} (live : Live instances running id)
    (priority : Int) (weight bound : Nat) :
    ∃ target, resolvedTargetForId readToString instances running id none priority weight bound =
      some target :=
  Option.isSome_iff_exists.mp (resolvedTargetForId_isSome.mpr live)

/-! ### Resolution -/

variable {model : String}

theorem mem_matching {route : ProxyRoute} :
    (∃ index, (route, index) ∈ config.routes.zipIdx.filter fun (route, _) =>
      routeIsConfigured route && Text.trim route.modelAlias == model) ↔
      route ∈ config.routes ∧ routeIsConfigured route = true ∧
        Text.trim route.modelAlias = model := by
  simp only [List.mem_filter, Bool.and_eq_true, beq_iff_eq]
  constructor
  · rintro ⟨index, listed, is⟩
    exact ⟨List.fst_mem_of_mem_zipIdx listed, is⟩
  · rintro ⟨there, is⟩
    obtain ⟨index, inRange, at_⟩ := List.mem_iff_getElem.mp there
    exact ⟨index, List.mk_mem_zipIdx_iff_getElem?.mpr (at_ ▸ List.getElem?_eq_getElem inRange), is⟩

variable (config) in
theorem matching_ne_nil (model : String) :
    (config.routes.zipIdx.filter fun (route, _) =>
      routeIsConfigured route && Text.trim route.modelAlias == model) ≠ [] ↔
      Named config model := by
  constructor
  · intro ne
    obtain ⟨⟨route, index⟩, listed⟩ := List.exists_mem_of_ne_nil _ ne
    exact ⟨route, mem_matching.mp ⟨index, listed⟩⟩
  · rintro ⟨route, is⟩
    obtain ⟨index, listed⟩ := mem_matching.mpr is
    exact List.ne_nil_of_mem listed

theorem mem_routeCandidates {matching : List (ProxyRoute × Nat)} :
    target ∈ routeCandidates readToString instances running none matching ↔
      ∃ route index, (route, index) ∈ matching ∧
        resolvedTargetForId readToString instances running (Text.trim route.targetInstanceId) none
          route.priority route.weight route.maxConcurrentRequests = some target := by
  unfold routeCandidates
  simp only [List.mem_map, List.mem_mergeSort, List.mem_filterMap, Option.map_eq_some_iff]
  constructor
  · rintro ⟨_, ⟨⟨route, index⟩, there, _, resolved, rfl⟩, rfl⟩
    exact ⟨route, index, there, resolved⟩
  · rintro ⟨route, index, there, resolved⟩
    exact ⟨_, ⟨(route, index), there, target, resolved, rfl⟩, rfl⟩

theorem mem_unroutedCandidates {endpoint : Option ModelWorkload} :
    target ∈ unroutedCandidates readToString config instances running endpoint model ↔
      ∃ id stored, instances.lookup id = some stored ∧ id ∉ routedIds config ∧
        (publicModelId (launched stored (running.lookup id)) = model ∨
          config.strictModelRouting = false ∧
            (Text.trim (launched stored (running.lookup id)).name = model ∨ id = model)) ∧
        resolvedTargetForId readToString instances running id endpoint 0 1 0 = some target := by
  unfold unroutedCandidates
  rw [List.mem_filterMap]
  refine exists_congr fun id => ?_
  rw [mem_sortedKeys]
  constructor
  · rintro ⟨-, resolved⟩
    obtain ⟨stored, configured, resolved⟩ := Option.bind_eq_some_iff.mp resolved
    obtain ⟨is, resolved⟩ := Option.ite_none_right_eq_some.mp resolved
    simp only [Bool.and_eq_true, Bool.or_eq_true, beq_iff_eq, Bool.not_eq_true',
      List.contains_eq_mem, decide_eq_false_iff_not] at is
    exact ⟨stored, configured, is.2, is.1, resolved⟩
  · rintro ⟨stored, configured, unrouted, is, resolved⟩
    refine ⟨by rw [configured]; rfl, Option.bind_eq_some_iff.mpr ⟨stored, configured, ?_⟩⟩
    refine Option.ite_none_right_eq_some.mpr ⟨?_, resolved⟩
    simp only [Bool.and_eq_true, Bool.or_eq_true, beq_iff_eq, Bool.not_eq_true',
      List.contains_eq_mem, decide_eq_false_iff_not]
    exact ⟨is, unrouted⟩

variable (readToString) in
theorem unroutedCandidates_ne_nil :
    unroutedCandidates readToString config instances running none model ≠ [] ↔
      UnroutedMatch config instances running model := by
  constructor
  · intro ne
    obtain ⟨target, there⟩ := List.exists_mem_of_ne_nil _ ne
    obtain ⟨id, stored, configured, unrouted, is, resolved⟩ := mem_unroutedCandidates.mp there
    have live := resolvedTargetForId_isSome.mp (Option.isSome_of_eq_some resolved)
    exact ⟨id, stored, configured, live.2, unrouted, is⟩
  · rintro ⟨id, stored, configured, runs, unrouted, is⟩ nil
    obtain ⟨target, resolved⟩ := resolvedTargetForId_of_live readToString
      ⟨by rw [configured]; rfl, runs⟩ 0 1 0
    have there := mem_unroutedCandidates.mpr ⟨id, stored, configured, unrouted, is, resolved⟩
    rw [nil] at there
    cases there

/-- A name that is the alias of a route is answered by the routes only, and under strict
routing no other name is answered where there are routes. -/
def Answered (config : ProxyConfig) (instances : Dict String InstanceConfig)
    (running : Dict String RunningInstance) (model : String) : Prop :=
  Served config instances running model ∨
    ¬ Named config model ∧ ¬ RoutesOnly config ∧
      (UnroutedMatch config instances running model ∨ DefaultMatch config instances running)

theorem requested (h : Text.trim model ≠ "") :
    ((some model).map Text.trim).filter (fun model => !model.isEmpty) =
      some (Text.trim model) := by
  have : (Text.trim model).isEmpty = false := by
    rw [← Bool.not_eq_true, String.isEmpty_iff]
    exact h
  simp [Option.filter, this]

variable (readToString) in
theorem defaultCandidate_isSome (lax : config.strictModelRouting = false) :
    (defaultCandidate readToString config instances running none).isSome ↔
      DefaultMatch config instances running := by
  unfold defaultCandidate DefaultMatch
  split
  · next empty => simp [blank_iff.mp empty]
  · next named =>
      rw [resolvedTargetForId_isSome]
      have nonempty : Text.trim config.defaultInstanceId ≠ "" := fun h => named (blank_iff.mpr h)
      simp [lax, nonempty]

theorem RoutesOnly.iff :
    (config.strictModelRouting && config.routes.any routeIsConfigured) = true ↔
      RoutesOnly config := by
  rw [Bool.and_eq_true, List.any_eq_true]
  rfl

theorem answered_iff (is : Trimmed model) :
    resolveProxyCandidatesFrom readToString config instances running (some model) none ≠ [] ↔
      Answered config instances running model := by
  have nonempty : Text.trim model ≠ "" := by rw [is.1]; exact is.2
  have routes := matching_ne_nil config model
  unfold resolveProxyCandidatesFrom resolveProxyCandidatesUnbounded
  rw [requested nonempty, is.1, Ne, List.map_eq_nil_iff]
  dsimp only
  by_cases named : Named config model
  · rw [if_pos (by rw [Bool.not_eq_true', List.isEmpty_eq_false_iff]; exact routes.mpr named)]
    constructor
    · intro ne
      obtain ⟨target, there⟩ := List.exists_mem_of_ne_nil _ ne
      obtain ⟨route, index, listed, resolved⟩ := mem_routeCandidates.mp there
      obtain ⟨there, configured, is⟩ := mem_matching.mp ⟨index, listed⟩
      exact .inl ⟨route, there, configured, is,
        resolvedTargetForId_isSome.mp (Option.isSome_of_eq_some resolved)⟩
    · rintro (⟨route, there, configured, is, live⟩ | ⟨unnamed, -⟩)
      · obtain ⟨index, listed⟩ := mem_matching.mpr ⟨there, configured, is⟩
        obtain ⟨target, resolved⟩ := resolvedTargetForId_of_live readToString
          live route.priority route.weight route.maxConcurrentRequests
        exact List.ne_nil_of_mem (mem_routeCandidates.mpr ⟨route, index, listed, resolved⟩)
      · exact absurd named unnamed
  · have notServed : ¬ Served config instances running model :=
      fun ⟨route, there, configured, is, _⟩ => named ⟨route, there, configured, is⟩
    rw [if_neg (by rw [Bool.not_eq_true', List.isEmpty_eq_false_iff]; exact mt routes.mp named)]
    by_cases only : RoutesOnly config
    · rw [if_pos (RoutesOnly.iff.mpr only)]
      exact ⟨fun ne => absurd rfl ne, fun h => h.elim (fun served => absurd served notServed)
        fun h => absurd only h.2.1⟩
    · rw [if_neg (mt RoutesOnly.iff.mp only)]
      have answered : Answered config instances running model ↔
          UnroutedMatch config instances running model ∨
            DefaultMatch config instances running :=
        ⟨fun h => (h.resolve_left notServed).2.2, fun h => .inr ⟨named, only, h⟩⟩
      rw [answered, ← unroutedCandidates_ne_nil readToString]
      split
      · next none_ =>
          rw [Bool.and_eq_true, List.isEmpty_iff, Bool.not_eq_true'] at none_
          rw [none_.1, ← defaultCandidate_isSome readToString none_.2]
          cases defaultCandidate readToString config instances running none with
          | none => simp
          | some target => simp
      · next some_ =>
          refine ⟨Or.inl, fun h => h.elim id fun default => ?_⟩
          intro nil
          apply some_
          rw [nil, default.1]
          rfl

/-- What a request is routed to runs. -/
theorem resolved_goes
    (h : target ∈ resolveProxyCandidatesFrom readToString config instances running (some model)
      none) :
    Goes instances running target.«public».instanceId target.«public».«alias» := by
  unfold resolveProxyCandidatesFrom at h
  obtain ⟨target, there, rfl⟩ := List.mem_map.mp h
  have goes : ∀ {id : String} {priority : Int} {weight bound : Nat},
      resolvedTargetForId readToString instances running id none priority weight bound =
        some target → Goes instances running target.«public».instanceId target.«public».«alias» := by
    intro id priority weight bound resolved
    obtain ⟨same, goes⟩ := resolvedTargetForId_spec resolved
    rw [same]
    exact goes
  have default : target ∈ (defaultCandidate readToString config instances running none).toList →
      Goes instances running target.«public».instanceId target.«public».«alias» := by
    intro there
    unfold defaultCandidate at there
    split at there
    · cases there
    · exact goes (Option.mem_toList.mp there)
  show Goes instances running target.«public».instanceId target.«public».«alias»
  unfold resolveProxyCandidatesUnbounded at there
  split at there
  · dsimp only at there
    split at there
    · obtain ⟨route, index, -, resolved⟩ := mem_routeCandidates.mp there
      exact goes resolved
    · split at there
      · cases there
      · split at there
        · exact default there
        · obtain ⟨id, stored, -, -, -, resolved⟩ := mem_unroutedCandidates.mp there
          exact goes resolved
  · split at there
    · next found =>
        refine default ?_
        rw [found]
        exact there
    · dsimp only at there
      split at there
      · cases there
      · obtain ⟨id, -, resolved⟩ := List.mem_filterMap.mp there
        exact goes resolved

/-! ### Discovery -/

theorem proxyTarget_alias (id : String) (instance_ : InstanceConfig) (runs : Bool) :
    (proxyTargetFromInstance id instance_ runs).«alias» = publicModelId instance_ := by
  dsimp only [proxyTargetFromInstance]

theorem mem_listProxyTargetsFrom {target : ProxyTarget} :
    target ∈ listProxyTargetsFrom instances running ↔
      ∃ id stored, instances.lookup id = some stored ∧
        proxyTargetFromInstance id (launched stored (running.lookup id))
          (running.lookup id).isSome = target := by
  unfold listProxyTargetsFrom
  rw [List.mem_map]
  constructor
  · rintro ⟨⟨id, stored⟩, there, eq⟩
    exact ⟨id, stored, AList.mem_lookup_iff.mpr there, eq⟩
  · rintro ⟨id, stored, there, eq⟩
    exact ⟨⟨id, stored⟩, AList.mem_lookup_iff.mp there, eq⟩

/-- The public name of a live instance without a route is advertised. -/
def UnroutedName (config : ProxyConfig) (instances : Dict String InstanceConfig)
    (running : Dict String RunningInstance) (model : String) : Prop :=
  ∃ id, Goes instances running id model ∧ id ∉ routedIds config

theorem mem_listed : model ∈ listedProxyModelIds config (listProxyTargetsFrom instances running) ↔
      (∃ route ∈ config.routes, route.enabled = true ∧ blank route.modelAlias = false ∧
        Live instances running (Text.trim route.targetInstanceId) ∧
        Text.trim route.modelAlias = model) ∨
      UnroutedName config instances running model := by
  have live : ∀ id, id ∈ ((listProxyTargetsFrom instances running).filter ProxyTarget.running).map
      ProxyTarget.instanceId ↔ Live instances running id := by
    intro id
    rw [List.mem_map]
    constructor
    · rintro ⟨target, there, rfl⟩
      obtain ⟨there, runs⟩ := List.mem_filter.mp there
      obtain ⟨id, stored, configured, rfl⟩ := mem_listProxyTargetsFrom.mp there
      exact ⟨Option.isSome_of_eq_some configured, runs⟩
    · rintro ⟨configured, runs⟩
      obtain ⟨stored, configured⟩ := Option.isSome_iff_exists.mp configured
      exact ⟨_, List.mem_filter.mpr ⟨mem_listProxyTargetsFrom.mpr ⟨id, stored, configured, rfl⟩,
        runs⟩, rfl⟩
  unfold listedProxyModelIds
  dsimp only
  rw [mem_dedup, List.mem_mergeSort, List.mem_append]
  refine or_congr ?_ ?_
  · simp only [List.mem_map, List.mem_filter, Bool.and_eq_true, List.contains_eq_mem,
      decide_eq_true_eq, Bool.not_eq_true', live, and_assoc]
  · rw [List.mem_map]
    constructor
    · rintro ⟨target, there, rfl⟩
      obtain ⟨there, is⟩ := List.mem_filter.mp there
      obtain ⟨id, stored, configured, rfl⟩ := mem_listProxyTargetsFrom.mp there
      simp only [Bool.and_eq_true, Bool.not_eq_true', List.contains_eq_mem,
        decide_eq_false_iff_not] at is
      have named := publicModelId_trimmed (launched stored (running.lookup id))
      refine ⟨id, ⟨stored, configured, is.1.1, ?_⟩, is.2⟩
      rw [proxyTarget_alias, named.1]
    · rintro ⟨id, ⟨stored, configured, runs, rfl⟩, unrouted⟩
      have named := publicModelId_trimmed (launched stored (running.lookup id))
      refine ⟨proxyTargetFromInstance id (launched stored (running.lookup id))
        (running.lookup id).isSome, List.mem_filter.mpr
          ⟨mem_listProxyTargetsFrom.mpr ⟨id, stored, configured, rfl⟩, ?_⟩, ?_⟩
      swap
      · rw [proxyTarget_alias, named.1]
      simp only [Bool.and_eq_true, List.contains_eq_mem, Bool.not_eq_true',
        decide_eq_false_iff_not]
      refine ⟨⟨runs, ?_⟩, unrouted⟩
      rw [← Bool.not_eq_true, blank_iff, proxyTarget_alias, named.1]
      exact named.2

/-! ### Agreement -/

/-- Every advertised name has a target; every target that a route, or without one its
public name, makes reachable is advertised under that name. -/
structure Agrees (readToString : String → Option String) (config : ProxyConfig)
    (instances : Dict String InstanceConfig) (running : Dict String RunningInstance) : Prop where
  advertised : ∀ model ∈ listedProxyModelIds config (listProxyTargetsFrom instances running),
    resolveProxyCandidatesFrom readToString config instances running (some model) none ≠ []
  routed : ∀ route ∈ config.routes, routeIsConfigured route = true →
    ∀ target ∈ resolveProxyCandidatesFrom readToString config instances running
      (some route.modelAlias) none,
      target.«public».instanceId = Text.trim route.targetInstanceId →
      Text.trim route.modelAlias ∈
        listedProxyModelIds config (listProxyTargetsFrom instances running)
  unrouted : ∀ id stored, instances.lookup id = some stored → id ∉ routedIds config →
    ∀ target ∈ resolveProxyCandidatesFrom readToString config instances running
      (some (publicModelId (launched stored (running.lookup id)))) none,
      target.«public».instanceId = id →
      publicModelId (launched stored (running.lookup id)) ∈
        listedProxyModelIds config (listProxyTargetsFrom instances running)

/-- No live instance without a route goes by the alias of stopped targets only, and
under strict routing with routes each goes by an alias; the same for a route whose
target is blank, if there is an instance with a blank id. -/
structure Distinct (config : ProxyConfig) (instances : Dict String InstanceConfig)
    (running : Dict String RunningInstance) : Prop where
  served : ∀ model, UnroutedName config instances running model → Named config model →
    Served config instances running model
  considered : RoutesOnly config → ∀ model, UnroutedName config instances running model →
    Named config model
  blankTarget : Live instances running "" → ∀ route ∈ config.routes, route.enabled = true →
    blank route.modelAlias = false → blank route.targetInstanceId = true →
    Answered config instances running (Text.trim route.modelAlias)

theorem trimmed_alias {route : ProxyRoute} (h : blank route.modelAlias = false) :
    Trimmed (Text.trim route.modelAlias) :=
  ⟨Text.trim_trim _, fun empty => by rw [blank_iff.mpr empty] at h; cases h⟩

theorem UnroutedName.trimmed (h : UnroutedName config instances running model) : Trimmed model := by
  obtain ⟨id, ⟨stored, -, -, rfl⟩, -⟩ := h
  exact publicModelId_trimmed _

theorem UnroutedName.match_ (h : UnroutedName config instances running model) :
    UnroutedMatch config instances running model := by
  obtain ⟨id, ⟨stored, configured, runs, is⟩, unrouted⟩ := h
  exact ⟨id, stored, configured, runs, unrouted, .inl is⟩

/-- A name without a route is answered unless only routes are considered. -/
theorem UnroutedName.answered_iff (h : UnroutedName config instances running model) :
    Answered config instances running model ↔
      (Named config model → Served config instances running model) ∧
        (RoutesOnly config → Named config model) := by
  constructor
  · rintro (served | ⟨unnamed, lax, -⟩)
    · have named : Named config model := by
        obtain ⟨route, there, configured, is, -⟩ := served
        exact ⟨route, there, configured, is⟩
      exact ⟨fun _ => served, fun _ => named⟩
    · exact ⟨fun named => absurd named unnamed, fun only => absurd only lax⟩
  · rintro ⟨served, considered⟩
    by_cases named : Named config model
    · exact .inl (served named)
    · exact .inr ⟨named, mt considered named, .inl h.match_⟩

/-- **Discovery and routing agree exactly when the public names of instances without a
route keep apart from aliases of stopped targets and from strict routing.** What is
listed then has a target, and what a client can reach is listed, whatever the
configuration, the instances and those that run. -/
theorem discovery_agrees_iff (readToString : String → Option String) (config : ProxyConfig)
    (instances : Dict String InstanceConfig) (running : Dict String RunningInstance) :
    Agrees readToString config instances running ↔ Distinct config instances running := by
  constructor
  · intro agrees
    have answered : ∀ model, Trimmed model →
        model ∈ listedProxyModelIds config (listProxyTargetsFrom instances running) →
        Answered config instances running model :=
      fun model is listed => (answered_iff is).mp (agrees.advertised model listed)
    have unrouted : ∀ model, (h : UnroutedName config instances running model) →
        (Named config model → Served config instances running model) ∧
          (RoutesOnly config → Named config model) :=
      fun model h => h.answered_iff.mp (answered model h.trimmed (mem_listed.mpr (.inr h)))
    refine ⟨fun model h => (unrouted model h).1, fun only model h => (unrouted model h).2 only, ?_⟩
    intro live route there enabled named empty
    rw [← blank_iff.mp empty] at live
    exact answered _ (trimmed_alias named)
      (mem_listed.mpr (.inl ⟨route, there, enabled, named, live, rfl⟩))
  · intro distinct
    refine ⟨?_, ?_, ?_⟩
    · intro model listed
      rcases mem_listed.mp listed with ⟨route, there, enabled, named, live, rfl⟩ | unrouted
      · refine (answered_iff (trimmed_alias named)).mpr ?_
        by_cases empty : blank route.targetInstanceId = true
        · have live : Live instances running "" := blank_iff.mp empty ▸ live
          exact distinct.blankTarget live route there enabled named empty
        · refine .inl ⟨route, there, ?_, rfl, live⟩
          unfold routeIsConfigured
          rw [enabled, named, (Bool.not_eq_true _).mp empty]
          rfl
      · exact (answered_iff unrouted.trimmed).mpr (unrouted.answered_iff.mpr
          ⟨distinct.served model unrouted, fun only => distinct.considered only model unrouted⟩)
    · intro route there configured target resolved same
      obtain ⟨stored, isConfigured, runs, -⟩ := resolved_goes resolved
      rw [same] at isConfigured runs
      unfold routeIsConfigured at configured
      simp only [Bool.and_eq_true, Bool.not_eq_true'] at configured
      exact mem_listed.mpr (.inl ⟨route, there, configured.1.1, configured.1.2,
        ⟨Option.isSome_of_eq_some isConfigured, runs⟩, rfl⟩)
    · intro id stored isConfigured unrouted target resolved same
      obtain ⟨-, -, runs, -⟩ := resolved_goes resolved
      rw [same] at runs
      exact mem_listed.mpr (.inr ⟨id, ⟨stored, isConfigured, runs, rfl⟩, unrouted⟩)

end

/-- A strict configuration with one route; the other instance has none. -/
def sampleConfig : ProxyConfig :=
  { routes := [{ modelAlias := "chat", targetInstanceId := "a" }] }

def sampleInstances : Dict String InstanceConfig :=
  ((∅ : Dict String InstanceConfig).insert "a" { name := "A", «alias» := "upstream" }).insert "b"
    { name := "B", «alias» := "code" }

def sampleRunning : Dict String RunningInstance :=
  ((∅ : Dict String RunningInstance).insert "a" {}).insert "b" {}

/-- The name of the second instance is advertised and has no target. -/
theorem unrouted_unanswered :
    ¬ Agrees (fun _ => none) sampleConfig sampleInstances sampleRunning := by
  intro agrees
  have listed : "code" ∈ listedProxyModelIds sampleConfig
      (listProxyTargetsFrom sampleInstances sampleRunning) :=
    mem_listed.mpr (.inr ⟨"b", ⟨_, rfl, rfl, by decide +kernel⟩, by decide +kernel⟩)
  exact agrees.advertised "code" listed (by decide +kernel)

end LlamaServerManager.Router
