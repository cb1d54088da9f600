import LlamaServerManager.Quota.Invariant
import LlamaServerManager.Usage.Observation

/-!
Every request is recorded once and every attached permit settled once.

A permit is attached by one call and settled by a later one. `Traced` follows
both along the calls: what has been attached is either settled or the one permit
the observation holds, and that permit knows whether the request was forwarded
since. A settlement in doubt keeps the whole reservation in the ledger
(`settle_keeps_hold`).
-/

namespace LlamaServerManager

open Lib Lib.Json

/-! ### The two ways to settle a permit -/

namespace Quota.QuotaPermit

open Usage

variable {permit : QuotaPermit}

theorem drop_eq (open_ : permit.finished = false) :
    permit.drop =
      [⟨permit.id, if !permit.forwarded then some 0 else none, !permit.forwarded⟩] := by
  rw [drop, open_]
  rfl

theorem finish_eq (permit : QuotaPermit) (record : UsageRecord) :
    ∃ actual complete, permit.finish record = [⟨permit.id, actual, complete⟩] ∧
      (permit.forwarded = true → complete = true →
        record.outcome = some .success ∧ record.quality = .complete ∧
          ∀ input output, record.tokens.input = some input → record.tokens.output = some output →
            actual = some (saturatingAdd input output)) := by
  refine ⟨_, _, rfl, ?_⟩
  intro forwarded complete
  rw [forwarded, Bool.not_true, Bool.false_or, Bool.and_eq_true, beq_iff_eq, beq_iff_eq] at complete
  refine ⟨complete.1, complete.2, ?_⟩
  intro input output hi ho
  rw [forwarded, if_pos rfl, hi, ho]
  rfl

end Quota.QuotaPermit

/-! ### A settlement in doubt -/

namespace Quota

/-- A pending reservation is part of what its period holds. -/
theorem reserved_le_reservedFor {l : Ledger} (sound : l.Sound) {id : String} {r : Request}
    (found : l.requests.lookup id = some r) (pending : r.state = .pending) {p : PeriodId}
    (charged : r.charges p = true) : r.reserved ≤ l.reservedFor p := by
  have rest := (sound.settle none true 0 found pending).reservedFor_nonneg p
  have sum : (l.settle id r none true 0).reservedFor p = l.reservedFor p - r.share p r.reserved :=
    Ledger.sum_share_settle found none true 0 p Request.reserved
  rw [Request.share, if_pos ⟨pending, charged⟩] at sum
  omega

/-- An incomplete settlement charges nothing and keeps at least the reservation
held, in both periods of the request; one that fails changes nothing. -/
theorem settle_keeps_hold {l : Ledger} (sound : l.Sound) (faults : Faults) {id : String}
    {r : Request} (actual : Option Nat) (clock : Int) (found : l.requests.lookup id = some r)
    (pending : r.state = .pending) (kind : Kind) :
    ∃ before after, l.periods.lookup (r.period kind) = some before ∧
      (settle faults l id actual false clock).1.periods.lookup (r.period kind) = some after ∧
      after.settled = before.settled ∧ before.held ≤ after.held ∧ r.reserved ≤ after.held := by
  have own := Request.charges_period r kind
  obtain ⟨before, hb⟩ := sound.covered id r found pending _ own
  have holds := sound.held_ge _ before hb
  have part := reserved_le_reservedFor sound found pending own
  have uncertain := sound.uncertain_nonneg _ before hb
  have range : 0 ≤ before.settled ∧ before.settled ≤ maxTokens ∧ before.held ≤ maxTokens :=
    ⟨sound.settled_nonneg _ before hb, sound.settled_le _ before hb, sound.held_le _ before hb⟩
  rcases settle_cases faults l id actual false clock with same | ⟨q, hq, -, eq⟩
  · rw [same]
    exact ⟨before, before, hb, hb, rfl, Int.le_refl _, by omega⟩
  · cases found.symm.trans hq
    refine ⟨before, before.settle (asU64 r.reserved) actual false, hb, ?_, ?_⟩
    · rw [eq, Ledger.settle_lookup own, hb]
      rfl
    · have reserved := sound.asU64_reserved found
      have bound := sound.reserved_le id r found
      have small : asU64 r.reserved ≤ maxTokens := by omega
      have kept := Ledger.le_retained actual small
      unfold Period.settle charged
      dsimp only
      simp only [Bool.false_eq_true, if_false]
      omega

end Quota

namespace Usage

open Quota

/-! ### One call -/

theorem saturatingAdd_of_lt {a b : Nat} (h : a + b < 2 ^ 63) : saturatingAdd a b = a + b :=
  Nat.min_eq_left (by omega)

/-- The outcome of the request is success, its usage is complete, and `s` charges
what was reported last. -/
def Measured (p : UsageProtocol) (h : Handles) (s : Settlement) : Prop :=
  ∃ record input output, h.records = [record] ∧ record.outcome = some .success ∧
    record.quality = .complete ∧ inputReported p h.reports = some input ∧
    outputReported p h.reports = some output ∧ s.actual = some (input + output)

namespace Observation

variable {clock : Clock} {o : Observation}

theorem finalize_of_recorded (serde : Serde) (clock : Clock) (recorded : o.recorded = true) :
    o.finalize serde clock = (o, {}) := by
  rw [finalize, if_pos recorded]

theorem finalize_of_open (serde : Serde) (clock : Clock) (open_ : o.recorded = false) :
    ∃ o', o' = { o with recorded := true, parser := (o.parser.flushEvent serde).1 } ∧
      o.finalize serde clock =
        ({ o' with record := o'.report clock, quota := none },
          ⟨[o'.report clock], (o.quota.map (·.finish (o'.report clock))).getD []⟩) := by
  refine ⟨_, rfl, ?_⟩
  rw [finalize, if_neg (by rw [open_]; exact Bool.false_ne_true)]

/-- A complete record is that of a complete response. -/
theorem report_complete (h : (o.report clock).quality = .complete) :
    o.parser.quality o.record.forwarded = .complete := by
  dsimp only [report, Observation.quality] at h
  split_ifs at h
  exact h

end Observation

/-- `s` settles `permit` in the state `h` without a refund in doubt. -/
def Settles (p : UsageProtocol) (h : Handles) (permit : QuotaPermit) (s : Settlement) : Prop :=
  s.id = permit.id ∧ (permit.forwarded = false ∨ Measured p h s ∨ s.complete = false)

/-- The ids a permit slot holds. -/
def held (quota : Option QuotaPermit) : List String := (quota.map (·.id)).toList

/-- What dropping a permit slot settles. -/
def dropped (quota : Option QuotaPermit) : List Settlement := (quota.map (·.drop)).getD []

theorem dropped_ids {quota : Option QuotaPermit}
    (open_ : ∀ permit ∈ quota, permit.finished = false) :
    (dropped quota).map (·.id) = held quota := by
  cases quota with
  | none => rfl
  | some permit =>
    have eq : dropped (some permit) = permit.drop := rfl
    rw [eq, QuotaPermit.drop_eq (open_ permit rfl)]
    rfl

theorem dropped_settles {p : UsageProtocol} {h : Handles} {quota : Option QuotaPermit}
    (open_ : ∀ permit ∈ quota, permit.finished = false) {s : Settlement} (hs : s ∈ dropped quota) :
    ∃ permit ∈ quota, Settles p h permit s := by
  cases quota with
  | none => cases hs
  | some permit =>
    have eq : dropped (some permit) = permit.drop := rfl
    rw [eq, QuotaPermit.drop_eq (open_ permit rfl), List.mem_singleton] at hs
    refine ⟨permit, rfl, ?_⟩
    rw [hs]
    refine ⟨rfl, ?_⟩
    cases permit.forwarded with
    | false => exact .inl rfl
    | true => exact .inr (.inr rfl)

/-- What finishing a permit slot settles. -/
def settled (quota : Option QuotaPermit) (record : UsageRecord) : List Settlement :=
  (quota.map (·.finish record)).getD []

theorem settled_ids (quota : Option QuotaPermit) (record : UsageRecord) :
    (settled quota record).map (·.id) = held quota := by
  cases quota with
  | none => rfl
  | some permit =>
    obtain ⟨actual, complete, eq, -⟩ := permit.finish_eq record
    have eq : settled (some permit) record = _ := eq
    rw [eq]
    rfl

namespace Observation

variable {p : UsageProtocol} {serde : Serde} {clock : Clock} {o : Observation} {h : Handles}

/-- The reports after the last one are those of the flushed parser. -/
theorem reports_finalize (serde : Serde) (clock : Clock) (reports : o.parser.Reports p h.reports) :
    (o.finalize serde clock).1.parser.Reports p
      ((Handles.lastUsage serde o).toList ++ h.reports) := by
  unfold Handles.lastUsage
  cases recorded : o.recorded with
  | true =>
    rw [finalize_of_recorded serde clock recorded]
    exact reports
  | false =>
    obtain ⟨o', ho', eq⟩ := finalize_of_open serde clock recorded
    have parser : o'.parser = (o.parser.flushEvent serde).1 := by rw [ho']
    rw [eq, if_neg Bool.false_ne_true]
    change o'.parser.Reports p _
    rw [parser]
    exact reports.flushEvent serde

theorem drop_of_recorded (serde : Serde) (clock : Clock) (recorded : o.recorded = true) :
    o.drop serde clock = ({ o with quota := none }, ⟨[], dropped o.quota⟩) := by
  rw [drop, finalize_of_recorded serde clock recorded]
  rfl

/-- `finalize` leaves no permit behind. -/
theorem drop_of_open (serde : Serde) (clock : Clock) (open_ : o.recorded = false) :
    o.drop serde clock = o.finalize serde clock := by
  obtain ⟨o', -, eq⟩ := finalize_of_open serde clock open_
  rw [drop, eq]
  exact Prod.ext rfl (congrArg (Output.mk _) (List.append_nil _))

/-- What `finalize` settles is measured, in doubt, or was never forwarded. -/
theorem finalize_settles (reports : o.parser.Reports p h.reports)
    (records : h.records.length = if o.recorded then 1 else 0) {s : Settlement}
    (hs : s ∈ (o.finalize serde clock).2.settlements) :
    ∃ permit ∈ o.quota, Settles p
      (h.after (o.finalize serde clock).1 (o.finalize serde clock).2 (Handles.lastUsage serde o))
      permit s := by
  have flushed := reports_finalize serde clock reports
  cases recorded : o.recorded with
  | true =>
    rw [finalize_of_recorded serde clock recorded] at hs
    cases hs
  | false =>
    obtain ⟨o', -, eq⟩ := finalize_of_open serde clock recorded
    rw [eq] at hs flushed ⊢
    rw [recorded] at records
    have none : h.records = [] := List.eq_nil_of_length_eq_zero records
    cases quota : o.quota with
    | none =>
      rw [quota] at hs
      cases hs
    | some permit =>
      obtain ⟨actual, complete, single, measured⟩ := permit.finish_eq (o'.report clock)
      rw [quota] at hs
      have hs : s ∈ permit.finish (o'.report clock) := hs
      rw [single, List.mem_singleton] at hs
      refine ⟨permit, rfl, by rw [hs], ?_⟩
      cases forwarded : permit.forwarded with
      | false => exact .inl rfl
      | true =>
        cases complete with
        | false => exact .inr (.inr (by rw [hs]))
        | true =>
          obtain ⟨success, full, charge⟩ := measured forwarded rfl
          obtain ⟨input, output, hi, ho, ri, ro⟩ :=
            flushed.of_complete (report_complete (o := o') full)
          refine .inr (.inl ⟨_, input, output, ?_, success, full, ri, ro, ?_⟩)
          · rw [Handles.after, none]
            rfl
          · rw [hs]
            dsimp only
            rw [charge input output hi ho, saturatingAdd_of_lt (reported_add_lt ri ro)]

end Observation

/-! ### All calls -/

/-- The ids of the permits attached, in order. -/
def attachments (calls : List Call) : List String :=
  calls.filterMap fun
    | .quota id => some id
    | _ => none

theorem attachments_concat (calls : List Call) (c : Call) :
    attachments (calls ++ [c]) = attachments calls ++ attachments [c] :=
  List.filterMap_append

/-- The call neither attaches a permit nor marks it forwarded. -/
def Call.neutral : Call → Bool
  | .quota _ | .forwarded => false
  | _ => true

theorem attachments_neutral {c : Call} (neutral : c.neutral = true) : attachments [c] = [] := by
  cases c with
  | quota | forwarded => cases neutral
  | _ => rfl

/-- The permit was attached by the last `quota` call, and knows whether the
request was forwarded since. -/
def Attached (calls : List Call) (permit : QuotaPermit) : Prop :=
  permit.finished = false ∧
    ∃ before since, calls = before ++ .quota permit.id :: since ∧
      (∀ id, .quota id ∉ since) ∧ (permit.forwarded = true ↔ .forwarded ∈ since)

namespace Attached

variable {calls : List Call} {permit : QuotaPermit}

theorem fresh (calls : List Call) (id : String) : Attached (calls ++ [.quota id]) { id } :=
  ⟨rfl, calls, [], rfl, fun _ => List.not_mem_nil, by simp⟩

theorem forward (attached : Attached calls permit) :
    Attached (calls ++ [.forwarded]) { permit with forwarded := true } := by
  obtain ⟨open_, before, since, rfl, last, -⟩ := attached
  refine ⟨open_, before, since ++ [.forwarded], by simp, ?_, by simp⟩
  intro id mem
  rcases List.mem_append.mp mem with old | new
  · exact last id old
  · cases List.mem_singleton.mp new

theorem keep (attached : Attached calls permit) {c : Call} (neutral : c.neutral = true) :
    Attached (calls ++ [c]) permit := by
  obtain ⟨open_, before, since, rfl, last, forwarded⟩ := attached
  refine ⟨open_, before, since ++ [c], by simp, ?_, ?_⟩
  · intro id mem
    rcases List.mem_append.mp mem with old | new
    · exact last id old
    · cases List.mem_singleton.mp new
      cases neutral
  · rw [forwarded, List.mem_append, List.mem_singleton]
    constructor
    · exact .inl
    · rintro (old | rfl)
      · exact old
      · cases neutral

end Attached

/-- The calls so far, seen in the state. -/
structure Traced (p : UsageProtocol) (calls : List Call) (h : Handles) : Prop where
  balance : (h.settlements.map (·.id) ++ held h.observation.quota).Perm (attachments calls)
  recorded : h.records.length = if h.observation.recorded then 1 else 0
  released : h.handles = 0 → h.observation.recorded = true ∧ h.observation.quota = none
  attached : ∀ permit ∈ h.observation.quota, Attached calls permit
  reports : h.observation.parser.Reports p h.reports

namespace Traced

variable {p : UsageProtocol} {calls : List Call} {h : Handles}

theorem init (p : UsageProtocol) (serde : Serde) : Traced p [] (request serde p).init where
  balance := .refl _
  recorded := rfl
  released := fun none => absurd none Nat.one_ne_zero
  attached := fun _ none => by cases none
  reports := .empty p

/-- A call that attaches `c`'s permit and settles what leaves the slot. -/
theorem after (traced : Traced p calls h) (live : h.handles ≠ 0) {c : Call} {o : Observation}
    {output : Output} {usage : Option Value}
    (balance : (output.settlements.map (·.id) ++ held o.quota).Perm
      (held h.observation.quota ++ attachments [c]))
    (recorded : output.records.length + (if h.observation.recorded then 1 else 0) =
      if o.recorded then 1 else 0)
    (attached : ∀ permit ∈ o.quota, Attached (calls ++ [c]) permit)
    (reports : o.parser.Reports p (usage.toList ++ h.reports)) :
    Traced p (calls ++ [c]) (h.after o output usage) where
  balance := by
    rw [attachments_concat]
    unfold Handles.after
    dsimp only
    rw [List.map_append, List.append_assoc]
    apply (balance.append_left _).trans
    rw [← List.append_assoc]
    exact traced.balance.append_right _
  recorded := by
    unfold Handles.after
    dsimp only
    rw [List.length_append, traced.recorded]
    omega
  released := fun none => absurd none live
  attached := attached
  reports := reports

/-- A neutral call that leaves the permit slot and the record alone. -/
theorem keep (traced : Traced p calls h) (live : h.handles ≠ 0) {c : Call}
    (neutral : c.neutral = true) {o : Observation} {usage : Option Value}
    (quota : o.quota = h.observation.quota) (recorded : o.recorded = h.observation.recorded)
    (reports : o.parser.Reports p (usage.toList ++ h.reports)) :
    Traced p (calls ++ [c]) (h.after o {} usage) := by
  refine traced.after live ?_ ?_ ?_ reports
  · rw [attachments_neutral neutral, quota, List.append_nil]
    exact .refl _
  · rw [recorded]
    exact Nat.zero_add _
  · rw [quota]
    exact fun permit hp => (traced.attached permit hp).keep neutral

/-- A neutral call that ends in `finalize`. -/
theorem finalize (traced : Traced p calls h) (live : h.handles ≠ 0) {c : Call}
    (neutral : c.neutral = true) (serde : Serde) (clock : Clock) {o : Observation}
    (quota : o.quota = h.observation.quota) (recorded : o.recorded = h.observation.recorded)
    (reports : o.parser.Reports p h.reports) :
    Traced p (calls ++ [c])
      (h.after (o.finalize serde clock).1 (o.finalize serde clock).2
        (Handles.lastUsage serde o)) := by
  have flushed := o.reports_finalize serde clock reports
  cases done : o.recorded with
  | true =>
    rw [Observation.finalize_of_recorded serde clock done] at flushed ⊢
    exact traced.keep live neutral quota recorded flushed
  | false =>
    obtain ⟨o', ho', eq⟩ := Observation.finalize_of_open serde clock done
    have ids := settled_ids o.quota (o'.report clock)
    rw [eq] at flushed ⊢
    refine traced.after live ?_ ?_ (fun _ hp => by cases hp) flushed
    · rw [attachments_neutral neutral, ← quota, ← ids]
      exact .refl _
    · rw [← recorded, done, ho']
      rfl

/-- Dropping the last handle finalizes the observation and empties the slot. -/
theorem drop (traced : Traced p calls h) (live : h.handles ≠ 0) (serde : Serde) (clock : Clock) :
    Traced p (calls ++ [.drop clock])
      { h.after (h.observation.drop serde clock).1 (h.observation.drop serde clock).2
          (Handles.lastUsage serde h.observation) with handles := 0 } := by
  cases done : h.observation.recorded with
  | true =>
    rw [Observation.drop_of_recorded serde clock done]
    have ids := dropped_ids fun permit hp => (traced.attached permit hp).1
    have last : Traced p (calls ++ [.drop clock])
        (h.after { h.observation with quota := none } ⟨[], dropped h.observation.quota⟩
          (Handles.lastUsage serde h.observation)) := by
      refine traced.after live ?_ (Nat.zero_add _) (fun _ hp => by cases hp) ?_
      · rw [ids]
        exact .refl _
      · have flushed := h.observation.reports_finalize serde clock traced.reports
        rw [Observation.finalize_of_recorded serde clock done] at flushed
        exact flushed
    exact ⟨last.balance, last.recorded, fun _ => ⟨done, rfl⟩, last.attached, last.reports⟩
  | false =>
    rw [Observation.drop_of_open serde clock done]
    have last : Traced p (calls ++ [.drop clock]) _ :=
      traced.finalize live rfl serde clock rfl rfl traced.reports
    obtain ⟨o', ho', eq⟩ := Observation.finalize_of_open serde clock done
    rw [eq] at last ⊢
    refine ⟨last.balance, last.recorded, fun _ => ⟨?_, rfl⟩, last.attached, last.reports⟩
    rw [ho']
    rfl

/-- A neutral call that only counts handles. -/
theorem handles (traced : Traced p calls h) {c : Call} (neutral : c.neutral = true) {n : Nat}
    (live : n ≠ 0) : Traced p (calls ++ [c]) { h with handles := n } where
  balance := by
    rw [attachments_concat, attachments_neutral neutral, List.append_nil]
    exact traced.balance
  recorded := traced.recorded
  released := fun none => absurd none live
  attached := fun permit hp => (traced.attached permit hp).keep neutral
  reports := traced.reports

theorem call (traced : Traced p calls h) (live : h.handles ≠ 0) (serde : Serde) (c : Call) :
    Traced p (calls ++ [c]) (h.call serde c) := by
  cases c with
  | forwarded =>
    refine traced.after live ?_ (Nat.zero_add _) ?_ traced.reports
    · cases h.observation.quota <;> exact .refl _
    · intro permit hp
      obtain ⟨before, hb, rfl⟩ := Option.map_eq_some_iff.mp hp
      exact (traced.attached before hb).forward
  | quota id =>
    refine traced.after live ?_ (Nat.zero_add _) ?_ traced.reports
    · have ids := dropped_ids fun permit hp => (traced.attached permit hp).1
      exact ids ▸ .refl _
    · rintro permit ⟨⟩
      exact .fresh calls id
  | failure stage code => exact traced.keep live rfl rfl rfl traced.reports
  | startStream => exact traced.keep live rfl rfl rfl traced.reports
  | json body =>
    obtain rfl := traced.reports.protocol
    unfold Handles.call
    dsimp only
    cases serde.fromSlice body with
    | none => exact traced.keep live rfl rfl rfl (traced.reports.congr rfl rfl rfl rfl rfl)
    | some value => exact traced.keep live rfl rfl rfl (traced.reports.observeJson value)
  | sse line elapsed => exact traced.keep live rfl rfl rfl (traced.reports.sseLine serde line)
  | finish status success clock =>
    exact traced.finalize live rfl serde clock rfl rfl (traced.reports.congr rfl rfl rfl rfl rfl)
  | wrap status failure => exact traced.keep live rfl rfl rfl traced.reports
  | clone => exact traced.handles rfl (Nat.succ_ne_zero _)
  | drop clock =>
    unfold Handles.call
    dsimp only
    split_ifs with last
    · exact traced.drop live serde clock
    · exact traced.handles rfl (by omega)

end Traced

theorem traced_of_run {serde : Serde} {p : UsageProtocol} {calls : List Call} {h : Handles}
    (hr : (request serde p).run (request serde p).init calls = some h) : Traced p calls h := by
  refine Machine.run_invariant (P := Traced p) (.init p serde) ?_ hr
  intro calls h c t traced hn
  change (if h.handles = 0 then none else some (h.call serde c)) = some t at hn
  split_ifs at hn with live
  cases hn
  exact traced.call live serde c

/-- What a call settles is the permit it found in the slot. -/
theorem Traced.call_settles {p : UsageProtocol} {calls : List Call} {h : Handles}
    (traced : Traced p calls h) (serde : Serde) (c : Call) :
    ∃ new, (h.call serde c).settlements = h.settlements ++ new ∧
      ∀ s ∈ new, ∃ permit ∈ h.observation.quota, Settles p (h.call serde c) permit s := by
  have silent : ∀ h' : Handles, h'.settlements = h.settlements →
      ∃ new, h'.settlements = h.settlements ++ new ∧
        ∀ s ∈ new, ∃ permit ∈ h.observation.quota, Settles p h' permit s := by
    intro h' same
    exact ⟨[], by rw [same, List.append_nil], fun s hs => by cases hs⟩
  have open_ := fun permit hp => (traced.attached permit hp).1
  cases c with
  | quota id => exact ⟨_, rfl, fun s hs => dropped_settles open_ hs⟩
  | finish status success clock =>
    let o := h.observation.finishing status success
    refine ⟨(o.finalize serde clock).2.settlements, rfl, fun s hs => ?_⟩
    exact Observation.finalize_settles (o := o) (traced.reports.congr rfl rfl rfl rfl rfl)
      traced.recorded hs
  | drop clock =>
    unfold Handles.call
    dsimp only
    split_ifs with last
    · cases done : h.observation.recorded with
      | true =>
        rw [Observation.drop_of_recorded serde clock done]
        exact ⟨_, rfl, fun s hs => dropped_settles open_ hs⟩
      | false =>
        rw [Observation.drop_of_open serde clock done]
        refine ⟨_, rfl, fun s hs => ?_⟩
        exact Observation.finalize_settles traced.reports traced.recorded hs
    · exact silent _ rfl
  | json body =>
    unfold Handles.call
    dsimp only
    cases serde.fromSlice body with
    | none | some => exact silent _ (List.append_nil _)
  | forwarded | failure | startStream | sse | wrap => exact silent _ (List.append_nil _)
  | clone => exact silent _ rfl

/-! ### All requests -/

/-- **Settled once, never refunded on doubt.** Whatever is called on the handles of
a request: once they are all dropped, one record was written and every permit
that was attached was settled once. A call settles the permit attached last, and
unless the request was not forwarded since, or succeeded with complete usage and
is charged what was reported last, the ledger keeps the reservation held and
charges nothing. -/
theorem settled_once_never_on_doubt (serde : Serde) (p : UsageProtocol) {calls : List Call}
    {h : Handles} (hr : (request serde p).run (request serde p).init calls = some h) :
    h.records.length ≤ 1 ∧
    (h.handles = 0 →
      h.records.length = 1 ∧ (h.settlements.map (·.id)).Perm (attachments calls)) ∧
    ∀ c h', (request serde p).next h c = some h' →
      ∃ new, h'.settlements = h.settlements ++ new ∧ ∀ s ∈ new,
        ∃ before since, calls = before ++ .quota s.id :: since ∧ (∀ id, .quota id ∉ since) ∧
          (.forwarded ∉ since ∨ Measured p h' s ∨
            s.complete = false ∧
              ∀ l r, books.Reachable l → l.requests.lookup s.id = some r → r.state = .pending →
                ∀ faults clock kind, ∃ row row',
                  l.periods.lookup (r.period kind) = some row ∧
                  (settle faults l s.id s.actual s.complete clock).1.periods.lookup
                    (r.period kind) = some row' ∧
                  row'.settled = row.settled ∧ row.held ≤ row'.held ∧ r.reserved ≤ row'.held) := by
  have traced := traced_of_run hr
  refine ⟨?_, ?_, ?_⟩
  · rw [traced.recorded]
    split <;> decide
  · intro dropped
    obtain ⟨recorded, empty⟩ := traced.released dropped
    have balance := traced.balance
    rw [empty] at balance
    exact ⟨by rw [traced.recorded, if_pos recorded], by simpa [held] using balance⟩
  · intro c h' hn
    change (if h.handles = 0 then none else some (h.call serde c)) = some h' at hn
    split_ifs at hn
    cases hn
    obtain ⟨new, eq, settles⟩ := traced.call_settles serde c
    refine ⟨new, eq, fun s hs => ?_⟩
    obtain ⟨permit, hp, same, why⟩ := settles s hs
    obtain ⟨-, before, since, split, last, forwarded⟩ := traced.attached permit hp
    refine ⟨before, since, same ▸ split, last, ?_⟩
    rcases why with fresh | measured | doubt
    · left
      intro mem
      rw [forwarded.mpr mem] at fresh
      cases fresh
    · exact .inr (.inl measured)
    · refine .inr (.inr ⟨doubt, ?_⟩)
      intro l r reachable found pending faults clock kind
      rw [doubt]
      exact settle_keeps_hold (sound_of_reachable reachable) faults s.actual clock found pending
        kind

/-- A body of the upstream: 5 prompt tokens and 2 completion tokens. -/
def measuredBody : List UInt8 :=
  [123, 34, 117, 115, 97, 103, 101, 34, 58, 123, 34, 112, 114, 111, 109, 112, 116, 95, 116,
    111, 107, 101, 110, 115, 34, 58, 53, 44, 34, 99, 111, 109, 112, 108, 101, 116, 105, 111,
    110, 95, 116, 111, 107, 101, 110, 115, 34, 58, 50, 125, 125]

/-- What `serde_json` makes of that body. -/
def oneBody : Serde where
  fromStr _ := none
  fromSlice body :=
    if body = measuredBody then
      some (.object [("usage", .object [("prompt_tokens", .number (.posInt 5)),
        ("completion_tokens", .number (.posInt 2))])])
    else none

/-- A request that is forwarded, answered and measured. -/
def answered : List Call :=
  [.quota "a", .clone, .forwarded, .json measuredBody, .finish 200 true {}, .drop {}, .drop {}]

theorem settled_once_never_on_doubt_answered :
    ∃ h, (request oneBody .chat).run (request oneBody .chat).init answered = some h ∧
      h.records.length = 1 ∧ (h.settlements.map (·.id)).Perm ["a"] ∧
      h.settlements = [⟨"a", some 7, true⟩] := by
  have hr : (request oneBody .chat).run (request oneBody .chat).init answered =
      some (((request oneBody .chat).run (request oneBody .chat).init answered).getD
        { observation := { parser := { protocol := .chat } } }) := rfl
  obtain ⟨-, once, -⟩ := settled_once_never_on_doubt oneBody .chat hr
  obtain ⟨record, settled⟩ := once rfl
  exact ⟨_, hr, record, settled, rfl⟩

/-- The permit of a request that is forwarded before the permit is attached does
not know of it: a failure refunds the whole reservation. -/
theorem refund_of_early_forward :
    ¬ ∀ calls h, (request oneBody .chat).run (request oneBody .chat).init calls = some h →
      ∀ s ∈ h.settlements, charged 100 s.actual s.complete < 100 →
        retained 100 s.actual s.complete < 100 →
        .forwarded ∉ calls ∨
          ∃ record ∈ h.records, record.outcome = some .success ∧ record.quality = .complete := by
  intro claim
  rcases claim [.forwarded, .quota "a", .finish 500 false {}] _ rfl ⟨"a", some 0, true⟩
    List.mem_cons_self (by decide) (by decide) with never | ⟨record, mem, success, -⟩
  · exact never List.mem_cons_self
  · cases List.mem_singleton.mp mem
    cases success

end Usage

end LlamaServerManager
