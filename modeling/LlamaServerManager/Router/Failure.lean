import LlamaServerManager.Router.Discovery

/-!
Why a model name has no target (`proxy_errors.rs`). The classifier inspects the
routes and the configured instances on its own; that a name it calls unknown
stays unresolved whatever is started (`unresolvedModelFailure_permanent`) relates
it to the resolver.
-/

namespace LlamaServerManager.Router

open Lib

inductive RoutingFailure where
  | modelRequired
  | modelNotFound
  | endpointMismatch
  | unavailable
  | capacity
deriving DecidableEq, Repr

section

-- `fs::read_to_string`.
variable (readToString : String → Option String)

/-- Only public selectors count, or else legacy ones where they are enabled: under strict
routing the answer does not tell internal ids apart. -/
def knownSelector (config : ProxyConfig) (instances : Dict String InstanceConfig)
    (running : Dict String RunningInstance) (routes : List ProxyRoute) (model : String) : Bool :=
  instances.entries.any fun ⟨id, stored⟩ =>
    let instance_ := launched stored (running.lookup id)
    !(routes.any fun route => Text.trim route.targetInstanceId == id) &&
      (publicModelId instance_ == model ||
        (!config.strictModelRouting && (id == model || Text.trim instance_.name == model)))

def unresolvedModelFailure (config : ProxyConfig) (instances : Dict String InstanceConfig)
    (running : Dict String RunningInstance) (requestedModel : Option String)
    (workload : Option ModelWorkload) : RoutingFailure :=
  if workload.isSome &&
      !(resolveProxyCandidatesFrom readToString config instances running requestedModel
        none).isEmpty then
    .endpointMismatch
  else
    match (requestedModel.map Text.trim).filter fun model => !model.isEmpty with
    | none => if blank config.defaultInstanceId then .modelRequired else .unavailable
    | some model =>
      let routes := config.routes.filter routeIsConfigured
      if routes.any fun route => Text.trim route.modelAlias == model then .unavailable
      else if config.strictModelRouting && !routes.isEmpty then .modelNotFound
      else if knownSelector config instances running routes model ||
          (!config.strictModelRouting && !blank config.defaultInstanceId) then
        .unavailable
      else .modelNotFound

end

/-- Further instances run, each with its stored configuration. -/
structure Started (instances : Dict String InstanceConfig)
    (running after : Dict String RunningInstance) : Prop where
  kept : ∀ {id info}, running.lookup id = some info → after.lookup id = some info
  stored : ∀ {id info}, running.lookup id = none → after.lookup id = some info →
    ∃ stored, instances.lookup id = some stored ∧ launched stored (some info) = stored

section

variable {readToString : String → Option String} {config : ProxyConfig}
  {instances : Dict String InstanceConfig} {running after : Dict String RunningInstance}
  {requestedModel : Option String} {model : String} {endpoint : Option ModelWorkload}

/-- Starting a stopped instance does not change the configuration it goes by. -/
theorem Started.launched_eq (started : Started instances running after) {id : String}
    {stored : InstanceConfig} (configured : instances.lookup id = some stored) :
    launched stored (after.lookup id) = launched stored (running.lookup id) := by
  cases before : running.lookup id with
  | some info => rw [started.kept before]
  | none =>
    cases now : after.lookup id with
    | none => rfl
    | some info =>
      obtain ⟨same, listed, goes⟩ := started.stored before now
      obtain rfl : stored = same := Option.some.inj (configured.symm.trans listed)
      exact goes

/-- The classifier knows an instance without a route that goes by the name. -/
theorem knownSelector_iff :
    knownSelector config instances running (config.routes.filter routeIsConfigured) model = true ↔
      ∃ id stored, instances.lookup id = some stored ∧ id ∉ routedIds config ∧
        (publicModelId (launched stored (running.lookup id)) = model ∨
          config.strictModelRouting = false ∧
            (Text.trim (launched stored (running.lookup id)).name = model ∨ id = model)) := by
  have routed : ∀ id, ((config.routes.filter routeIsConfigured).any fun route =>
      Text.trim route.targetInstanceId == id) = true ↔ id ∈ routedIds config := by
    intro id
    simp [routedIds, and_assoc]
  unfold knownSelector
  rw [List.any_eq_true]
  constructor
  · rintro ⟨⟨id, stored⟩, listed, is⟩
    rw [Bool.and_eq_true, Bool.not_eq_true', ← Bool.not_eq_true, routed] at is
    refine ⟨id, stored, AList.mem_lookup_iff.mpr listed, is.1, ?_⟩
    simpa [or_comm] using is.2
  · rintro ⟨id, stored, configured, unrouted, is⟩
    refine ⟨⟨id, stored⟩, AList.mem_lookup_iff.mp configured, ?_⟩
    rw [Bool.and_eq_true, Bool.not_eq_true', ← Bool.not_eq_true, routed]
    exact ⟨unrouted, by simpa [or_comm] using is⟩

/-- What the classifier found out about a name that it does not know. -/
theorem modelNotFound_spec {workload : Option ModelWorkload}
    (unknown : unresolvedModelFailure readToString config instances running requestedModel
      workload = .modelNotFound) :
    ∃ model, ((requestedModel.map Text.trim).filter fun model => !model.isEmpty) = some model ∧
      ¬ Named config model ∧
      (RoutesOnly config ∨
        knownSelector config instances running (config.routes.filter routeIsConfigured) model =
          false ∧ (config.strictModelRouting = true ∨ blank config.defaultInstanceId = true)) := by
  unfold unresolvedModelFailure at unknown
  split at unknown
  · cases unknown
  · split at unknown
    · split at unknown <;> cases unknown
    · rename_i model selected
      refine ⟨model, selected, ?_⟩
      dsimp only at unknown
      split at unknown
      · cases unknown
      · rename_i unnamed
        refine ⟨?_, ?_⟩
        · rintro ⟨route, listed, configured, is⟩
          refine unnamed (List.any_eq_true.mpr ⟨route, ?_, beq_iff_eq.mpr is⟩)
          exact List.mem_filter.mpr ⟨listed, configured⟩
        · split at unknown
          · rename_i only
            left
            rw [Bool.and_eq_true, Bool.not_eq_true', List.isEmpty_eq_false_iff] at only
            obtain ⟨route, listed⟩ := List.exists_mem_of_ne_nil _ only.2
            obtain ⟨listed, configured⟩ := List.mem_filter.mp listed
            exact ⟨only.1, route, listed, configured⟩
          · split at unknown
            · cases unknown
            · rename_i neither
              right
              rw [Bool.or_eq_true, not_or, Bool.not_eq_true] at neither
              refine ⟨neither.1, ?_⟩
              simpa [Classical.or_iff_not_imp_left] using neither.2

/-- A name that is no alias of a route, under routes that exclude all others or without an
instance or a default that answers to it, resolves to nothing. -/
theorem resolve_eq_nil
    (selected : ((requestedModel.map Text.trim).filter fun model => !model.isEmpty) = some model)
    (unnamed : ¬ Named config model)
    (closed : RoutesOnly config ∨
      knownSelector config instances running (config.routes.filter routeIsConfigured) model =
        false ∧ (config.strictModelRouting = true ∨ blank config.defaultInstanceId = true)) :
    resolveProxyCandidatesFrom readToString config instances running requestedModel endpoint =
      [] := by
  unfold resolveProxyCandidatesFrom resolveProxyCandidatesUnbounded
  rw [selected, List.map_eq_nil_iff]
  dsimp only
  rw [if_neg (by rw [Bool.not_eq_true', List.isEmpty_eq_false_iff]
                 exact mt (matching_ne_nil config model).mp unnamed)]
  by_cases only : RoutesOnly config
  · rw [if_pos (RoutesOnly.iff.mpr only)]
  · rw [if_neg (mt RoutesOnly.iff.mp only)]
    obtain ⟨unknown, noDefault⟩ := closed.resolve_left only
    have none_ : unroutedCandidates readToString config instances running endpoint model = [] := by
      rw [List.eq_nil_iff_forall_not_mem]
      intro target there
      obtain ⟨id, stored, configured, unrouted, is, -⟩ := mem_unroutedCandidates.mp there
      rw [knownSelector_iff.mpr ⟨id, stored, configured, unrouted, is⟩] at unknown
      cases unknown
    rw [none_]
    rcases noDefault with strict | empty
    · simp [strict]
    · simp [defaultCandidate, empty]

/-- What the classifier found out stays true. -/
theorem Started.knownSelector_eq (started : Started instances running after)
    (routes : List ProxyRoute) (model : String) :
    knownSelector config instances after routes model =
      knownSelector config instances running routes model := by
  unfold knownSelector
  rw [Bool.eq_iff_iff, List.any_eq_true, List.any_eq_true]
  refine exists_congr fun ⟨id, stored⟩ => and_congr_right fun listed => ?_
  dsimp only
  rw [started.launched_eq (AList.mem_lookup_iff.mpr listed)]

/-- **A model that is not found is not found whatever is started, and the endpoint does
not fit exactly when the name resolves without it.** So the first failure tells a client
that waiting for a start is of no use, and the second that another endpoint would have
answered. -/
theorem unresolvedModelFailure_permanent (readToString : String → Option String)
    (config : ProxyConfig) (instances : Dict String InstanceConfig)
    (running : Dict String RunningInstance) (requestedModel : Option String)
    (workload : Option ModelWorkload)
    (unresolved : resolveProxyCandidatesFrom readToString config instances running requestedModel
      workload = []) :
    (unresolvedModelFailure readToString config instances running requestedModel workload =
        .modelNotFound →
      ∀ after, Started instances running after → ∀ endpoint,
        resolveProxyCandidatesFrom readToString config instances after requestedModel endpoint =
          []) ∧
    (unresolvedModelFailure readToString config instances running requestedModel workload =
        .endpointMismatch ↔
      resolveProxyCandidatesFrom readToString config instances running requestedModel none ≠
        []) := by
  constructor
  · intro unknown after started endpoint
    obtain ⟨model, selected, unnamed, closed⟩ := modelNotFound_spec unknown
    rw [← started.knownSelector_eq] at closed
    exact resolve_eq_nil selected unnamed closed
  · constructor
    · intro mismatch
      unfold unresolvedModelFailure at mismatch
      split at mismatch
      · rename_i resolves
        rw [Bool.and_eq_true, Bool.not_eq_true', List.isEmpty_eq_false_iff] at resolves
        exact resolves.2
      · dsimp only at mismatch
        split at mismatch <;> split_ifs at mismatch
    · intro resolves
      have filtered : workload.isSome = true := by
        cases workload with
        | none => exact absurd unresolved resolves
        | some workload => rfl
      have nonempty : (!(resolveProxyCandidatesFrom readToString config instances running
          requestedModel none).isEmpty) = true := by
        rw [Bool.not_eq_true', List.isEmpty_eq_false_iff]
        exact resolves
      unfold unresolvedModelFailure
      rw [if_pos (by rw [filtered, nonempty]; rfl)]

end

/-- A stopped instance with a route. -/
def oneRoute : ProxyConfig where
  routes := [{ modelAlias := "chat", targetInstanceId := "a" }]

def oneStopped : Dict String InstanceConfig := (∅ : Dict String InstanceConfig).insert "a" {}

/-- The instance after its start. -/
def oneStarted : Dict String RunningInstance :=
  (∅ : Dict String RunningInstance).insert "a" { launchConfig := some {} }

theorem started_oneStarted : Started oneStopped ∅ oneStarted where
  kept before := by simp at before
  stored {id info} _ now := by
    unfold oneStarted at now
    by_cases is : id = "a"
    · subst is
      rw [AList.lookup_insert] at now
      obtain rfl := Option.some.inj now
      exact ⟨{}, AList.lookup_insert _, rfl⟩
    · rw [AList.lookup_insert_ne is] at now
      cases now

theorem unresolvedModelFailure_permanent_oneRoute :
    resolveProxyCandidatesFrom (fun _ => none) oneRoute oneStopped oneStarted (some "other")
      (some .embedding) = [] := by
  have permanent := unresolvedModelFailure_permanent (fun _ => none) oneRoute oneStopped ∅
    (some "other") (some .embedding) (by decide)
  exact permanent.1 (by decide) oneStarted started_oneStarted _

end LlamaServerManager.Router
