import LlamaServerManager.ModelScan.Tree
import LlamaServerManager.Gguf.Metadata

/-!
Models and their shards (`mark_sharded_models` of `commands/scanner.rs`).

The first shard of a set that is complete takes from the others what its own file does not tell. The
sets are in a `HashMap`; each has its own models and changes only its own first shard, so that they
are marked one by one here.

* `Details` — what a model tells, and when one tells no less (`Sub`).
* `markModel` — one model among those that were found.
* `details_markModel` — models that tell more than their files, but no more than their sets lend,
  are marked as their files would be.
-/

namespace LlamaServerManager.ModelScan

open References

universe u

/-! ### Models -/

/-- The fields of a model that its file tells. `capabilities` go with `has_mtp_head`, and are there
where they are complete (`metadata_complete`); the others are the default ones. -/
structure Details where
  architecture : Option Str
  contextLength : Option Nat
  quantType : Option Str
  capabilities : Option Gguf.ModelCapabilities
deriving DecidableEq

/-- `ModelInfo`; its name is that of the file. -/
structure ModelInfo where
  path : FilePath
  size : Nat
  details : Details
  isShard : Bool
deriving DecidableEq

namespace Details

def unknown : Details := ⟨none, none, none, none⟩

/-- What is not there is taken from elsewhere. -/
def or (details other : Details) : Details where
  architecture := details.architecture.or other.architecture
  contextLength := details.contextLength.or other.contextLength
  quantType := details.quantType.or other.quantType
  capabilities := details.capabilities.or other.capabilities

/-- All of it is there too. -/
def Sub (details other : Details) : Prop := details.or other = other

/-- The fields. -/
inductive Field : {α : Type} → (Details → Option α) → Prop where
  | architecture : Field Details.architecture
  | contextLength : Field Details.contextLength
  | quantType : Field Details.quantType
  | capabilities : Field Details.capabilities

variable {α : Type} {field : Details → Option α} {details other : Details}

theorem Field.or (is : Field field) :
    field (details.or other) = (field details).or (field other) := by
  cases is <;> rfl

theorem ext_fields (same : ∀ {α : Type} {field : Details → Option α}, Field field →
    field details = field other) : details = other := by
  obtain ⟨_, _, _, _⟩ := details
  obtain ⟨_, _, _, _⟩ := other
  rw [mk.injEq]
  exact ⟨same .architecture, same .contextLength, same .quantType, same .capabilities⟩

theorem Sub.refl (details : Details) : details.Sub details :=
  ext_fields fun is => by rw [is.or, Option.or_self]

theorem sub_or (details other : Details) : details.Sub (details.or other) :=
  ext_fields fun {α field} is => by
    rw [is.or, is.or]
    cases field details <;> rfl

theorem Sub.some (sub : details.Sub other) (is : Field field) {value : α}
    (has : field details = some value) : field other = some value := by
  rw [← sub, is.or, has]
  rfl

theorem Sub.none (sub : details.Sub other) (is : Field field) (without : field other = none) :
    field details = none := by
  cases has : field details with
  | none => rfl
  | some value =>
    rw [sub.some is has] at without
    cases without

theorem Sub.antisymm (sub : details.Sub other) (sub' : other.Sub details) : details = other := by
  apply ext_fields
  intro α field is
  cases has : field details with
  | none => exact (sub'.none is has).symm
  | some value => exact (sub.some is has).symm

end Details

/-! ### Shard sets -/

structure ShardGroupEntry where
  index : Nat
  total : Nat
  model : ModelInfo

/-- What the name of a file says, if that is of a set. -/
def groupPlace (dir : Dir) (base : Str) (path : FilePath) : Option ModelShardDescriptor :=
  (parseModelShardName path.name).filter fun descriptor =>
    path.dir = dir && descriptor.base = base

def shardGroup (models : List ModelInfo) (dir : Dir) (base : Str) : List ShardGroupEntry :=
  models.filterMap fun model =>
    (groupPlace dir base model.path).map fun descriptor =>
      ⟨descriptor.index, descriptor.total, model⟩

/-- Each shard is there once; what is expected is what the first entry says. -/
def isComplete (entries : List ShardGroupEntry) : Bool :=
  match entries with
  | [] => false
  | first :: _ =>
    entries.length = first.total && entries.all (·.total = first.total) &&
      decide (entries.map (·.index)).Nodup && entries.all (·.index ≤ first.total) &&
      (List.range' 1 first.total).all (· ∈ entries.map (·.index))

/-- The first that has it, for each field. -/
def lentBy (entries : List ShardGroupEntry) : Details where
  architecture := entries.findSome? (·.model.details.architecture)
  contextLength := entries.findSome? (·.model.details.contextLength)
  quantType := entries.findSome? (·.model.details.quantType)
  capabilities := entries.findSome? (·.model.details.capabilities)

/-- `mark_sharded_models`, at one of the models of a scan. -/
def markModel (models : List ModelInfo) (model : ModelInfo) : ModelInfo :=
  match parseModelShardName model.path.name with
  | none => { model with isShard := false }
  | some descriptor =>
    let entries := shardGroup models model.path.dir descriptor.base
    { model with
      isShard := descriptor.index ≠ 1
      details :=
        if descriptor.index = 1 && isComplete entries then model.details.or (lentBy entries)
        else model.details }

/-- Only the first shard of a set is lent anything. -/
def isLead (path : FilePath) : Bool :=
  (parseModelShardName path.name).any fun descriptor => descriptor.index = 1

def isShardName (path : FilePath) : Bool :=
  (parseModelShardName path.name).any fun descriptor => descriptor.index ≠ 1

/-- What its set lends to a model. -/
def lentTo (models : List ModelInfo) (path : FilePath) : Details :=
  match parseModelShardName path.name with
  | none => .unknown
  | some descriptor =>
    let entries := shardGroup models path.dir descriptor.base
    if descriptor.index = 1 && isComplete entries then lentBy entries else .unknown

section Marks

variable {models models' : List ModelInfo} {model : ModelInfo} {dir : Dir} {base : Str}
  {path : FilePath} {α : Type} {field : Details → Option α}

@[simp] theorem Details.or_unknown (details : Details) : details.or .unknown = details :=
  Details.ext_fields fun {α field} is => by
    rw [is.or]
    cases is <;> exact Option.or_none

theorem markModel_eq (models : List ModelInfo) (model : ModelInfo) :
    markModel models model =
      ⟨model.path, model.size, model.details.or (lentTo models model.path),
        isShardName model.path⟩ := by
  unfold markModel lentTo isShardName
  cases named : parseModelShardName model.path.name with
  | none => simp
  | some descriptor =>
    simp only [Option.any_some]
    split
    · rfl
    · rw [Details.or_unknown]

theorem isLead_iff : isLead path = true ↔
    ∃ descriptor, parseModelShardName path.name = some descriptor ∧ descriptor.index = 1 := by
  unfold isLead
  cases parseModelShardName path.name <;> simp

theorem lentTo_of_not_lead (not_lead : isLead path = false) : lentTo models path = .unknown := by
  unfold isLead at not_lead
  unfold lentTo
  cases named : parseModelShardName path.name with
  | none => rfl
  | some descriptor =>
    rw [named, Option.any_some] at not_lead
    simp [not_lead]

/-! ### Sets by their paths -/

theorem findSome?_shardGroup (get : ModelInfo → Option α) :
    (shardGroup models dir base).findSome? (fun entry => get entry.model) =
      models.findSome? fun model => (groupPlace dir base model.path).bind fun _ => get model := by
  unfold shardGroup
  induction models with
  | nil => rfl
  | cons model models ih =>
    rw [List.filterMap_cons, List.findSome?_cons]
    cases groupPlace dir base model.path with
    | none => exact ih
    | some descriptor =>
      simp only [Option.map_some, Option.bind_some, List.findSome?_cons]
      cases get model with
      | none => exact ih
      | some value => rfl

theorem field_lentBy (is : Details.Field field) :
    field (lentBy (shardGroup models dir base)) =
      models.findSome? fun model =>
        (groupPlace dir base model.path).bind fun _ => field model.details := by
  rw [← findSome?_shardGroup fun model => field model.details]
  cases is <;> rfl

/-- The shards that the names of a set say. -/
def places (entries : List ShardGroupEntry) : List (Nat × Nat) :=
  entries.map fun entry => (entry.index, entry.total)

theorem places_shardGroup :
    places (shardGroup models dir base) =
      (models.map (·.path)).filterMap fun path =>
        (groupPlace dir base path).map fun descriptor => (descriptor.index, descriptor.total) := by
  unfold places shardGroup
  rw [List.map_filterMap, List.filterMap_map]
  congr 1
  funext model
  simp only [Function.comp_apply, Option.map_map]
  rfl

theorem isComplete_iff {entries : List ShardGroupEntry} :
    isComplete entries = true ↔ 0 < (places entries).length ∧
      (∀ place ∈ places entries, place.2 = (places entries).length) ∧
      ((places entries).map (·.1)).Nodup ∧
      (∀ place ∈ places entries, place.1 ≤ (places entries).length) ∧
      ∀ index ∈ List.range' 1 (places entries).length, index ∈ (places entries).map (·.1) := by
  cases entries with
  | nil => simp [isComplete, places]
  | cons first entries =>
    have indices : (places (first :: entries)).map (·.1) = (first :: entries).map (·.index) := by
      simp [places]
    have length : (places (first :: entries)).length = (first :: entries).length := by
      simp [places]
    rw [indices, length]
    simp only [isComplete, Bool.and_eq_true, decide_eq_true_eq, List.all_eq_true]
    constructor
    · rintro ⟨⟨⟨⟨expected, totals⟩, nodup⟩, indices⟩, all⟩
      rw [← expected] at totals indices all
      refine ⟨Nat.succ_pos _, ?_, nodup, ?_, all⟩
      · intro place mem
        obtain ⟨entry, found, rfl⟩ := List.mem_map.mp mem
        exact totals entry found
      · intro place mem
        obtain ⟨entry, found, rfl⟩ := List.mem_map.mp mem
        exact indices entry found
    · rintro ⟨-, totals, nodup, indices, all⟩
      have expected : first.total = (first :: entries).length :=
        totals (first.index, first.total) List.mem_cons_self
      rw [expected]
      refine ⟨⟨⟨⟨rfl, ?_⟩, nodup⟩, ?_⟩, all⟩
      · intro entry mem
        exact totals (entry.index, entry.total) (List.mem_map_of_mem mem)
      · intro entry mem
        exact indices (entry.index, entry.total) (List.mem_map_of_mem mem)

/-- Whether a set is complete does not depend on the order in which its files were found. -/
theorem isComplete_shardGroup_perm (perm : (models.map (·.path)).Perm (models'.map (·.path))) :
    isComplete (shardGroup models dir base) = isComplete (shardGroup models' dir base) := by
  have same : (places (shardGroup models dir base)).Perm
      (places (shardGroup models' dir base)) := by
    rw [places_shardGroup, places_shardGroup]
    exact perm.filterMap _
  rw [Bool.eq_iff_iff, isComplete_iff, isComplete_iff, same.length_eq,
    (same.map (·.1)).nodup_iff]
  simp only [same.mem_iff, (same.map (·.1)).mem_iff]

theorem groupPlace_eq_some {descriptor : ModelShardDescriptor} :
    groupPlace dir base path = some descriptor ↔
      parseModelShardName path.name = some descriptor ∧ path.dir = dir ∧
        descriptor.base = base := by
  simp [groupPlace, Option.filter_eq_some_iff]

/-- A set is in one directory. -/
theorem shardGroup_filter :
    shardGroup (models.filter fun model => model.path.dir = dir) dir base =
      shardGroup models dir base := by
  unfold shardGroup
  rw [List.filterMap_filter]
  congr 1
  funext model
  split
  · rfl
  · rename_i other
    cases place : groupPlace dir base model.path with
    | none => rfl
    | some descriptor => exact absurd (groupPlace_eq_some.mp place).2.1 (by simpa using other)

theorem lentTo_filter :
    lentTo (models.filter fun model => model.path.dir = path.dir) path = lentTo models path := by
  unfold lentTo
  simp only [shardGroup_filter]

end Marks

/-! ### What is cached of a set -/

section Cached

variable {cached fresh : List ModelInfo} {model model' : ModelInfo} {α : Type}

/-- The models of a directory as they come from an inventory, next to what their files say. -/
structure Refines (cached fresh : List ModelInfo) : Prop where
  paths : (cached.map (·.path)).Perm (fresh.map (·.path))
  nodup : (fresh.map (·.path)).Nodup
  /-- They tell no less than their files. -/
  least : ∀ model ∈ cached, ∀ model' ∈ fresh, model.path = model'.path →
    model'.details.Sub model.details
  /-- They tell no more than their files and what their sets lend. -/
  most : ∀ model ∈ cached, ∀ model' ∈ fresh, model.path = model'.path →
    model.details.Sub (model'.details.or (lentTo fresh model'.path))
  /-- They are in order, or they have all of it. -/
  ordered : cached.map (·.path) = fresh.map (·.path) ∨
    ∀ model ∈ cached, ∀ model' ∈ fresh, model.path = model'.path →
      model.details = model'.details.or (lentTo fresh model'.path)

theorem findSome?_congr {get : ModelInfo → Option α}
    (paths : cached.map (·.path) = fresh.map (·.path))
    (same : ∀ model ∈ cached, ∀ model' ∈ fresh, model.path = model'.path →
      get model = get model') : cached.findSome? get = fresh.findSome? get := by
  induction cached generalizing fresh with
  | nil =>
    rw [List.map_eq_nil_iff.mp paths.symm]
  | cons model cached ih =>
    cases fresh with
    | nil => cases paths
    | cons model' fresh =>
      obtain ⟨path, paths⟩ := List.cons.inj paths
      rw [List.findSome?_cons, List.findSome?_cons,
        same model List.mem_cons_self model' List.mem_cons_self path,
        ih paths fun a mem b mem' =>
          same a (List.mem_cons_of_mem _ mem) b (List.mem_cons_of_mem _ mem')]

variable (refines : Refines cached fresh)

include refines in
theorem Refines.details_of_not_lead (mem : model ∈ cached) (mem' : model' ∈ fresh)
    (path : model.path = model'.path) (not_lead : isLead model'.path = false) :
    model.details = model'.details := by
  have most := refines.most model mem model' mem' path
  rw [lentTo_of_not_lead not_lead, Details.or_unknown] at most
  exact most.antisymm (refines.least model mem model' mem' path)

/-- A set has one first shard. -/
theorem eq_of_lead {dir : Dir} {base : Str} {descriptor descriptor' : ModelShardDescriptor}
    (complete : isComplete (shardGroup cached dir base) = true)
    (mem : model ∈ cached) (place : groupPlace dir base model.path = some descriptor)
    (mem' : model' ∈ cached) (place' : groupPlace dir base model'.path = some descriptor')
    (index : descriptor.index = descriptor'.index) : model = model' := by
  have nodup := (isComplete_iff.mp complete).2.2.1
  have entry : ∀ {model descriptor}, model ∈ cached →
      groupPlace dir base model.path = some descriptor →
        ⟨descriptor.index, descriptor.total, model⟩ ∈ shardGroup cached dir base := by
    intro model descriptor mem place
    exact List.mem_filterMap.mpr ⟨model, mem, by rw [place]; rfl⟩
  rw [places, List.map_map] at nodup
  have same := List.inj_on_of_nodup_map nodup (entry mem place) (entry mem' place') index
  exact congrArg ShardGroupEntry.model same

include refines in
/-- What a complete set lends, where neither the first file nor its row has the field. -/
theorem Refines.field_lentBy {field : Details → Option α} (is : Details.Field field)
    {descriptor : ModelShardDescriptor} (mem : model ∈ cached) (mem' : model' ∈ fresh)
    (path : model.path = model'.path)
    (named : parseModelShardName model'.path.name = some descriptor)
    (lead : descriptor.index = 1)
    (complete : isComplete (shardGroup cached model'.path.dir descriptor.base) = true)
    (lent : lentTo fresh model'.path =
      lentBy (shardGroup fresh model'.path.dir descriptor.base))
    (without : field model.details = none) :
    field (lentBy (shardGroup cached model'.path.dir descriptor.base)) =
      field (lentBy (shardGroup fresh model'.path.dir descriptor.base)) := by
  have place : groupPlace model'.path.dir descriptor.base model'.path = some descriptor :=
    groupPlace_eq_some.mpr ⟨named, rfl, rfl⟩
  have without' : field model'.details = none :=
    (refines.least model mem model' mem' path).none is without
  rw [ModelScan.field_lentBy is, ModelScan.field_lentBy is]
  -- A shard but the first is as its file; the first has nothing to lend itself.
  have same : ∀ other ∈ cached, ∀ other' ∈ fresh, other.path = other'.path →
      ((groupPlace model'.path.dir descriptor.base other.path).bind fun _ => field other.details) =
        (groupPlace model'.path.dir descriptor.base other'.path).bind
          fun _ => field other'.details := by
    intro other otherMem other' otherMem' otherPath
    rw [otherPath]
    cases otherPlace : groupPlace model'.path.dir descriptor.base other'.path with
    | none => rfl
    | some descriptor' =>
      simp only [Option.bind_some]
      by_cases first : descriptor'.index = 1
      · have eq : other = model := eq_of_lead complete otherMem (otherPath ▸ otherPlace) mem
          (path ▸ place) (first.trans lead.symm)
        have eq' : other' = model' := List.inj_on_of_nodup_map refines.nodup otherMem' mem'
          (otherPath.symm.trans (eq ▸ path))
        rw [eq, eq', without, without']
      · have not_lead : isLead other'.path = false := by
          unfold isLead
          rw [(groupPlace_eq_some.mp otherPlace).1, Option.any_some]
          exact decide_eq_false first
        rw [refines.details_of_not_lead otherMem otherMem' otherPath not_lead]
  obtain paths | settled := refines.ordered
  · exact findSome?_congr paths same
  · -- All that the set lends is there, and the field is not.
    have nothing : field (lentBy (shardGroup fresh model'.path.dir descriptor.base)) = none := by
      have all := settled model mem model' mem' path
      rw [lent] at all
      rw [all, is.or, without', Option.none_or] at without
      exact without
    rw [ModelScan.field_lentBy is] at nothing
    rw [nothing, List.findSome?_eq_none_iff]
    intro other otherMem
    obtain ⟨other', otherMem', otherPath⟩ := List.mem_map.mp
      (refines.paths.mem_iff.mp (List.mem_map_of_mem otherMem))
    rw [same other otherMem other' otherMem' otherPath.symm]
    exact List.findSome?_eq_none_iff.mp nothing other' otherMem'

include refines in
/-- **Models from an inventory get from their sets what their files would get.** -/
theorem Refines.details_or_lentTo (mem : model ∈ cached) (mem' : model' ∈ fresh)
    (path : model.path = model'.path) :
    model.details.or (lentTo cached model.path) =
      model'.details.or (lentTo fresh model'.path) := by
  have least := refines.least model mem model' mem' path
  have most := refines.most model mem model' mem' path
  have unlent : lentTo fresh model'.path = .unknown → lentTo cached model.path = .unknown →
      model.details.or (lentTo cached model.path) =
        model'.details.or (lentTo fresh model'.path) := by
    intro none_ none_'
    rw [none_, Details.or_unknown] at most
    rw [none_, none_', Details.or_unknown, Details.or_unknown]
    exact most.antisymm least
  rw [path]
  rw [path] at unlent
  cases lead : isLead model'.path with
  | false => exact unlent (lentTo_of_not_lead lead) (lentTo_of_not_lead lead)
  | true =>
    obtain ⟨descriptor, named, first⟩ := isLead_iff.mp lead
    have sameComplete : isComplete (shardGroup cached model'.path.dir descriptor.base) =
        isComplete (shardGroup fresh model'.path.dir descriptor.base) :=
      isComplete_shardGroup_perm refines.paths
    have lentEq : ∀ models, lentTo models model'.path =
        if isComplete (shardGroup models model'.path.dir descriptor.base) = true then
          lentBy (shardGroup models model'.path.dir descriptor.base)
        else .unknown := by
      intro models
      simp only [lentTo, named, first, decide_true, Bool.true_and]
    cases complete : isComplete (shardGroup cached model'.path.dir descriptor.base) with
    | false =>
      rw [complete] at sameComplete
      exact unlent (by simp [lentEq, ← sameComplete]) (by simp [lentEq, complete])
    | true =>
      have lent : lentTo fresh model'.path =
          lentBy (shardGroup fresh model'.path.dir descriptor.base) := by
        rw [lentEq, ← sameComplete, complete, if_pos rfl]
      have lent' : lentTo cached model'.path =
          lentBy (shardGroup cached model'.path.dir descriptor.base) := by
        rw [lentEq, complete, if_pos rfl]
      apply Details.ext_fields
      intro α field is
      rw [is.or]
      cases has : field model.details with
      | some value => exact (most.some is has).symm
      | none =>
        rw [is.or, least.none is has, Option.none_or, Option.none_or, lent, lent',
          refines.field_lentBy is mem mem' path named first complete lent has]

end Cached

end LlamaServerManager.ModelScan
