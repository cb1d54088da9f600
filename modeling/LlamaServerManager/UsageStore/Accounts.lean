import LlamaServerManager.Lib.Tally
import LlamaServerManager.UsageStore.Store
import Mathlib.Data.List.Dedup

/-!
What the tables of the accounting database add up to (`usage_counted_once`).
The records that count at the end of a run are told from the run alone
(`Counted`): those a committed batch delivered when no clear barred them and
that nothing removed since. `Keeps` carries the tables through each operation;
the detail rows, which keep a record from being counted twice, may be pruned
earlier than the summaries, so a record must not be delivered again after that.
-/

namespace LlamaServerManager.UsageStore

open Lib Usage
open Quota (saturatingAdd)

/-! ### Sums -/

abbrev addSummary (r : UsageRecord) (s : UsageSummary) : UsageSummary := s.add (.record r)

abbrev addAggregate (r : UsageRecord) (a : Aggregate) : Aggregate := a.merge (.record r)

theorem saturatingAdd_right_comm (a b c : Nat) :
    saturatingAdd (saturatingAdd a b) c = saturatingAdd (saturatingAdd a c) b := by
  unfold saturatingAdd
  omega

theorem addSummary_commutes (C : UsageRecord → Prop) : Commutes addSummary C := by
  intro r r' _ _ s
  unfold addSummary UsageSummary.add
  simp only [UsageSummary.mk.injEq]
  refine ⟨?_, ?_, ?_, ?_, ?_, ?_, ?_, ?_, ?_, ?_, ?_, ?_, ?_, ?_, ?_, ?_, ?_, ?_, ?_, ?_, ?_, ?_,
    ?_, max_right_comm ..⟩ <;> exact saturatingAdd_right_comm ..

theorem Histogram.merge_right_comm (h a b : Histogram) :
    (h.merge a).merge b = (h.merge b).merge a := by
  unfold Histogram.merge
  simp only [Histogram.mk.injEq]
  exact ⟨funext fun _ => saturatingAdd_right_comm .., saturatingAdd_right_comm ..,
    max_right_comm ..⟩

/-- The earlier of two times, where zero is no time. -/
theorem first_right_comm {a x y : Int} (hx : 0 ≤ x) (hy : 0 ≤ y) :
    let first (a b : Int) : Int := if a = 0 ∨ (0 < b ∧ b < a) then b else a
    first (first a y) x = first (first a x) y := by
  intro first
  have cases_ : ∀ a b, (a = 0 ∨ (0 < b ∧ b < a)) ∧ first a b = b ∨
      ¬ (a = 0 ∨ (0 < b ∧ b < a)) ∧ first a b = a := by
    intro a b
    by_cases h : a = 0 ∨ (0 < b ∧ b < a)
    · exact .inl ⟨h, if_pos h⟩
    · exact .inr ⟨h, if_neg h⟩
  have h₁ := cases_ a y
  have h₂ := cases_ (first a y) x
  have h₃ := cases_ a x
  have h₄ := cases_ (first a x) y
  omega

theorem addAggregate_commutes {C : UsageRecord → Prop} (clock : ∀ r, C r → 0 ≤ r.completedAt) :
    Commutes addAggregate C := by
  intro r r' is is' a
  unfold addAggregate Aggregate.merge
  simp only [Aggregate.mk.injEq]
  exact ⟨saturatingAdd_right_comm .., saturatingAdd_right_comm ..,
    first_right_comm (clock r is) (clock r' is'), max_right_comm ..,
    Histogram.merge_right_comm .., Histogram.merge_right_comm .., Histogram.merge_right_comm ..⟩

/-! ### What counts -/

def day (r : UsageRecord) : Int := bucket dayMs r.completedAt

/-- The first day a prune keeps: of the details, and of the summaries. -/
def detailBound (now : Int) : Int := bucket dayMs now - detailDays * dayMs

def summaryBound (now : Int) : Int := bucket dayMs now - summaryDays * dayMs

/-- The operation delivers the record. -/
def Op.Delivers (r : UsageRecord) : Op → Prop
  | .write records committed => committed = true ∧ r ∈ records
  | .prune _ => False
  | .clear _ _ _ => False

/-- The operation removes the summaries of the day. -/
def Op.Removes (r : UsageRecord) : Op → Prop
  | .write _ _ => False
  | .prune now => day r < summaryBound now
  | .clear fromDay toDay _ => Store.validRange fromDay toDay = true ∧ fromDay ≤ day r ∧ day r < toDay

/-- The operation keeps the record out from then on: a clear at or after its completion. -/
def Op.Bars (r : UsageRecord) : Op → Prop
  | .write _ _ => False
  | .prune _ => False
  | .clear fromDay toDay clearedAt =>
    Store.validRange fromDay toDay = true ∧ Deletion.covers ⟨fromDay, toDay, clearedAt⟩ r = true

def Delivered (ops : List Op) (r : UsageRecord) : Prop := ∃ op ∈ ops, op.Delivers r

/-- Covered by a clear at or after its completion. -/
def Covered (ops : List Op) (r : UsageRecord) : Prop := ∃ op ∈ ops, op.Bars r

/-- Delivered when nothing kept it out, and not removed since. -/
def Counted (ops : List Op) (r : UsageRecord) : Prop :=
  ∃ pre op post, ops = pre ++ op :: post ∧ op.Delivers r ∧ ¬ Covered pre r ∧
    ∀ o ∈ post, ¬ o.Removes r

/-- A prune removed the record's day while it counted. -/
def Pruned (bound : Int → Int) (ops : List Op) (r : UsageRecord) : Prop :=
  ∃ pre now post, ops = pre ++ .prune now :: post ∧ Counted pre r ∧ day r < bound now

/-- A request id is one request's, the clock is not negative (`now_ms`), and nothing is
delivered again after its detail row was pruned. -/
structure Admissible (ops : List Op) : Prop where
  unique : ∀ r r', Delivered ops r → Delivered ops r' → r.requestId = r'.requestId → r = r'
  clock : ∀ r, Delivered ops r → 0 ≤ r.completedAt
  retained : ∀ pre op post r, ops = pre ++ op :: post → Pruned detailBound pre r →
    ¬ op.Delivers r

/-! ### One more operation -/

section

variable {ops : List Op} {op : Op} {r : UsageRecord}

/-- Where an operation of a longer run stands. -/
theorem concat_eq_split {pre post : List Op} {o : Op} (eq : ops ++ [op] = pre ++ o :: post) :
    (post = [] ∧ ops = pre ∧ op = o) ∨
      ∃ rest, post = rest ++ [op] ∧ ops = pre ++ o :: rest := by
  induction post using List.reverseRecOn with
  | nil =>
    obtain ⟨same, last⟩ := List.append_inj' eq rfl
    cases last
    exact .inl ⟨rfl, same, rfl⟩
  | append_singleton rest last _ =>
    rw [← List.cons_append, ← List.append_assoc] at eq
    obtain ⟨same, eq⟩ := List.append_inj' eq rfl
    cases eq
    exact .inr ⟨rest, rfl, same⟩

theorem delivered_concat : Delivered (ops ++ [op]) r ↔ Delivered ops r ∨ op.Delivers r := by
  unfold Delivered
  simp only [List.mem_append, List.mem_singleton, or_and_right, exists_or, exists_eq_left]

theorem covered_concat : Covered (ops ++ [op]) r ↔ Covered ops r ∨ op.Bars r := by
  unfold Covered
  simp only [List.mem_append, List.mem_singleton, or_and_right, exists_or, exists_eq_left]

theorem counted_concat :
    Counted (ops ++ [op]) r ↔
      (Counted ops r ∧ ¬ op.Removes r) ∨ (op.Delivers r ∧ ¬ Covered ops r) := by
  constructor
  · rintro ⟨pre, o, post, eq, delivers, free, stays⟩
    rcases concat_eq_split eq with ⟨rfl, rfl, rfl⟩ | ⟨post, rfl, rfl⟩
    · exact .inr ⟨delivers, free⟩
    · refine .inl ⟨⟨pre, o, post, rfl, delivers, free, fun o there => ?_⟩, ?_⟩
      · exact stays o (List.mem_append_left _ there)
      · exact stays op (List.mem_append_right _ (List.mem_singleton_self op))
  · rintro (⟨⟨pre, o, post, rfl, delivers, free, stays⟩, kept⟩ | ⟨delivers, free⟩)
    · refine ⟨pre, o, post ++ [op], by simp, delivers, free, fun o there => ?_⟩
      rcases List.mem_append.mp there with there | there
      · exact stays o there
      · exact List.mem_singleton.mp there ▸ kept
    · exact ⟨ops, op, [], rfl, delivers, free, fun o there => (nomatch there)⟩

theorem pruned_concat {bound : Int → Int} :
    Pruned bound (ops ++ [op]) r ↔
      Pruned bound ops r ∨ ∃ now, op = .prune now ∧ Counted ops r ∧ day r < bound now := by
  constructor
  · rintro ⟨pre, now, post, eq, counted, before⟩
    rcases concat_eq_split eq with ⟨rfl, rfl, rfl⟩ | ⟨post, rfl, rfl⟩
    · exact .inr ⟨now, rfl, counted, before⟩
    · exact .inl ⟨pre, now, post, rfl, counted, before⟩
  · rintro (⟨pre, now, post, rfl, counted, before⟩ | ⟨now, rfl, counted, before⟩)
    · exact ⟨pre, now, post ++ [op], by simp, counted, before⟩
    · exact ⟨ops, now, [], rfl, counted, before⟩

theorem Counted.delivered (h : Counted ops r) : Delivered ops r := by
  obtain ⟨pre, o, post, rfl, delivers, -⟩ := h
  exact ⟨o, List.mem_append_right _ List.mem_cons_self, delivers⟩

theorem Admissible.init (h : Admissible (ops ++ [op])) : Admissible ops where
  unique r r' hr hr' := h.unique r r' (delivered_concat.mpr (.inl hr))
    (delivered_concat.mpr (.inl hr'))
  clock r hr := h.clock r (delivered_concat.mpr (.inl hr))
  retained pre o post r eq := h.retained pre o (post ++ [op]) r (by rw [eq]; simp)

end

/-! ### The tables -/

def summaries (s : Store) (g : Group) : Option UsageSummary := (s.daily.lookup g).map Row.summary

def aggregates (s : Store) (g : Group) : Option Aggregate :=
  (s.performanceDaily.lookup g).map Row.summary

/-- The tables for a set of records that count, of which those in `P` have lost their
detail row, and a set of records that are kept out. -/
structure Keeps (s : Store) (C P B : UsageRecord → Prop) : Prop where
  detail : ∀ id r, s.events.lookup id = some r → r.requestId = id ∧ C r
  kept : ∀ r, C r → ¬ P r → s.events.lookup r.requestId = some r
  daily : Tallies {} addSummary (UsageRecord.group dayMs) (summaries s) C
  performance : Tallies {} addAggregate (UsageRecord.group dayMs) (aggregates s)
    fun r => C r ∧ r.kind ≠ "count"
  barred : ∀ r, (s.deletions.any fun d => d.covers r) = true ↔ B r

theorem lookup_upsert {α : Type} {empty : α} {lastAt : α → Int} (add : α → α) {g g' : Group}
    {r : UsageRecord} {table : Dict Group (Row α)} :
    ((upsert empty lastAt add g r table).lookup g').map Row.summary =
      if g' = g then some (add (((table.lookup g').map Row.summary).getD empty))
      else (table.lookup g').map Row.summary := by
  unfold upsert
  split
  · next same =>
      subst same
      rw [AList.lookup_insert]
      rfl
  · next other => rw [AList.lookup_insert_ne other]

section

variable {s : Store} {C P B : UsageRecord → Prop} {r : UsageRecord}

theorem Keeps.congr {C' P' B' : UsageRecord → Prop} (h : Keeps s C P B)
    (sameC : ∀ r, C' r ↔ C r) (sameP : ∀ r, P' r ↔ P r) (sameB : ∀ r, B' r ↔ B r) :
    Keeps s C' P' B' where
  detail id r there := ⟨(h.detail id r there).1, (sameC r).mpr (h.detail id r there).2⟩
  kept r is not := h.kept r ((sameC r).mp is) (mt (sameP r).mpr not)
  daily := h.daily.congr sameC
  performance := h.performance.congr fun r => by rw [sameC]
  barred r := (h.barred r).trans (sameB r).symm

/-- Delivered, a record counts unless it is kept out; it counts once. -/
theorem Keeps.insert (h : Keeps s C P B) (unique : ∀ r', C r' → r'.requestId = r.requestId → r' = r)
    (retained : ¬ P r) (clock : ∀ x, C x ∨ x = r → 0 ≤ x.completedAt) :
    Keeps (s.insert r) (fun x => C x ∨ x = r ∧ ¬ B x) P B := by
  unfold Store.insert
  split
  · next bars =>
      refine h.congr (fun x => ⟨fun is => is.elim id fun new => ?_, .inl⟩) (fun _ => .rfl)
        fun _ => .rfl
      exact absurd ((h.barred r).mp bars) (new.1 ▸ new.2)
  · next free =>
      have free : ¬ B r := mt (h.barred r).mpr free
      have known : ∀ x, (C x ∨ x = r ∧ ¬ B x) ↔ C x ∨ x = r := by
        intro x
        constructor
        · rintro (is | ⟨same, -⟩)
          · exact .inl is
          · exact .inr same
        · rintro (is | rfl)
          · exact .inl is
          · exact .inr ⟨rfl, free⟩
      split
      · next there =>
          obtain ⟨r', there⟩ := Option.isSome_iff_exists.mp there
          obtain ⟨same, is⟩ := h.detail _ _ there
          have already : C r := unique r' is same ▸ is
          refine h.congr (fun x => ?_) (fun _ => .rfl) fun _ => .rfl
          rw [known]
          exact ⟨fun is => is.elim id fun same => same ▸ already, .inl⟩
      · next absent =>
          have new : ¬ C r := fun is => absent (by rw [h.kept r is retained]; rfl)
          refine Keeps.congr (C := fun x => C x ∨ x = r) ?_ known (fun _ => .rfl) fun _ => .rfl
          refine ⟨?_, ?_, ?_, ?_, h.barred⟩
          · intro id x there
            by_cases same : id = r.requestId
            · subst same
              rw [AList.lookup_insert] at there
              cases there
              exact ⟨rfl, .inr rfl⟩
            · rw [AList.lookup_insert_ne same] at there
              exact ⟨(h.detail id x there).1, .inl (h.detail id x there).2⟩
          · rintro x (is | rfl) not
            · have other : x.requestId ≠ r.requestId := fun same => new (unique x is same ▸ is)
              show AList.lookup x.requestId (AList.insert r.requestId r s.events) = some x
              rw [AList.lookup_insert_ne other]
              exact h.kept x is not
            · exact AList.lookup_insert _
          · exact h.daily.insert new (addSummary_commutes _) fun g => lookup_upsert (addSummary r)
          · by_cases count : r.kind = "count"
            · have unchanged : recordPerformance dayMs r s.performanceDaily = s.performanceDaily :=
                if_pos count
              refine Tallies.congr (C := fun x => C x ∧ x.kind ≠ "count") ?_ fun x => ?_
              · unfold aggregates
                dsimp only
                rw [unchanged]
                exact h.performance
              · constructor
                · rintro ⟨is | rfl, kind⟩
                  · exact ⟨is, kind⟩
                  · exact absurd count kind
                · rintro ⟨is, kind⟩
                  exact ⟨.inl is, kind⟩
            · have updated : recordPerformance dayMs r s.performanceDaily =
                  upsert {} Aggregate.lastRecordAt (addAggregate r) (r.group dayMs) r
                    s.performanceDaily := if_neg count
              refine Tallies.congr (C := fun x => (C x ∧ x.kind ≠ "count") ∨ x = r) ?_ fun x => ?_
              · refine h.performance.insert (fun is => new is.1) (addAggregate_commutes ?_) ?_
                · rintro x (is | same)
                  · exact clock x (.inl is.1)
                  · exact clock x (.inr same)
                · intro g
                  unfold aggregates
                  dsimp only
                  rw [updated]
                  exact lookup_upsert (addAggregate r)
              · constructor
                · rintro ⟨is | same, kind⟩
                  · exact .inl ⟨is, kind⟩
                  · exact .inr same
                · rintro (⟨is, kind⟩ | rfl)
                  · exact ⟨.inl is, kind⟩
                  · exact ⟨.inr rfl, count⟩

/-- Along the records of a batch. -/
theorem Keeps.batch (records : List UsageRecord) {s : Store} {C : UsageRecord → Prop}
    (h : Keeps s C P B)
    (unique : ∀ r r', (C r ∨ r ∈ records) → (C r' ∨ r' ∈ records) →
      r.requestId = r'.requestId → r = r')
    (retained : ∀ r ∈ records, ¬ P r) (clock : ∀ r, C r ∨ r ∈ records → 0 ≤ r.completedAt) :
    Keeps (records.foldl Store.insert s) (fun x => C x ∨ x ∈ records ∧ ¬ B x) P B := by
  induction records generalizing s C with
  | nil => exact h.congr (fun x => by simp) (fun _ => .rfl) fun _ => .rfl
  | cons r records ih =>
    have among : ∀ {x}, (C x ∨ x = r ∧ ¬ B x) ∨ x ∈ records → C x ∨ x ∈ r :: records := by
      rintro x ((is | ⟨rfl, -⟩) | there)
      · exact .inl is
      · exact .inr List.mem_cons_self
      · exact .inr (List.mem_cons_of_mem _ there)
    have first : Keeps (s.insert r) (fun x => C x ∨ x = r ∧ ¬ B x) P B := by
      refine h.insert (fun r' is same => ?_) (retained r List.mem_cons_self) fun x is => ?_
      · exact unique r' r (.inl is) (.inr List.mem_cons_self) same
      · rcases is with is | rfl
        · exact clock x (.inl is)
        · exact clock x (.inr List.mem_cons_self)
    refine (ih first (fun r r' is is' => unique r r' (among is) (among is'))
      (fun r there => retained r (List.mem_cons_of_mem _ there))
      fun r is => clock r (among is)).congr (fun x => ?_) (fun _ => .rfl) fun _ => .rfl
    rw [List.mem_cons]
    constructor
    · rintro (is | ⟨same | there, free⟩)
      · exact .inl (.inl is)
      · exact .inl (.inr ⟨same, free⟩)
      · exact .inr ⟨there, free⟩
    · rintro ((is | ⟨same, free⟩) | ⟨there, free⟩)
      · exact .inl is
      · exact .inr ⟨.inl same, free⟩
      · exact .inr ⟨.inr there, free⟩

theorem lookup_filter_groups {α : Type} {table : Dict Group (Row α)} {keep : Group → Bool}
    {g : Group} :
    ((table.filter fun g _ => keep g).lookup g).map Row.summary =
      if keep g then (table.lookup g).map Row.summary else none := by
  split
  · next kept => rw [Dict.lookup_filter_of_keep fun _ => kept]
  · next dropped =>
      rw [Dict.lookup_filter_of_drop fun _ => (Bool.not_eq_true _).mp dropped]
      rfl

/-- What a prune or a clear does to the tables. -/
theorem Keeps.filter {s' : Store} {C' P' B' : UsageRecord → Prop} (h : Keeps s C P B)
    (keep : Int → Bool) (keepDetail : Int → Bool)
    (finer : ∀ d, keepDetail d = true → keep d = true)
    (events : s'.events = s.events.filter fun _ r => keepDetail (day r))
    (daily : s'.daily = s.daily.filter fun g _ => keep g.bucket)
    (performance : s'.performanceDaily = s.performanceDaily.filter fun g _ => keep g.bucket)
    (sameC : ∀ r, C' r ↔ C r ∧ keep (day r) = true)
    (lost : ∀ r, P r ∨ C r ∧ keepDetail (day r) = false ∧ keep (day r) = true → P' r)
    (barred : ∀ r, (s'.deletions.any fun d => d.covers r) = true ↔ B' r) :
    Keeps s' C' P' B' := by
  have lookup : ∀ id, s'.events.lookup id =
      (s.events.lookup id).filter fun r => keepDetail (day r) := by
    intro id
    rw [events, Dict.lookup_filter]
  refine ⟨?_, ?_, ?_, ?_, barred⟩
  · intro id r there
    rw [lookup, Option.filter_eq_some_iff] at there
    obtain ⟨same, is⟩ := h.detail id r there.1
    exact ⟨same, (sameC r).mpr ⟨is, finer _ there.2⟩⟩
  · intro r is not
    obtain ⟨is, kept⟩ := (sameC r).mp is
    rw [lookup, Option.filter_eq_some_iff]
    refine ⟨h.kept r is fun pruned => not (lost r (.inl pruned)), ?_⟩
    cases detail : keepDetail (day r) with
    | true => rfl
    | false => exact absurd (lost r (.inr ⟨is, detail, kept⟩)) not
  · refine (h.daily.filter (fun g => keep g.bucket) fun g => ?_).congr sameC
    unfold summaries
    rw [daily]
    exact lookup_filter_groups
  · refine (h.performance.filter (fun g => keep g.bucket) fun g => ?_).congr fun r => ?_
    · unfold aggregates
      rw [performance]
      exact lookup_filter_groups
    · rw [sameC]
      exact and_right_comm

end

/-! ### Runs -/

theorem summaryBound_le_detailBound (now : Int) : summaryBound now ≤ detailBound now := by
  unfold summaryBound detailBound summaryDays detailDays dayMs
  omega

theorem run_concat (ops : List Op) (op : Op) : run (ops ++ [op]) = step (run ops) op := by
  unfold run
  rw [List.foldl_append]
  rfl

/-- The tables of a run are those of the records that count. A record that lost its detail
row to a prune may still count. -/
theorem run_keeps (ops : List Op) (admissible : Admissible ops) :
    Keeps (run ops) (Counted ops) (fun r => Pruned detailBound ops r) (Covered ops) := by
  induction ops using List.reverseRecOn with
  | nil =>
    have none_ : ∀ {α : Type} {x : α} {xs ys : List α}, [] ≠ xs ++ x :: ys := by
      intro α x xs ys eq
      cases xs <;> cases eq
    refine ⟨fun _ _ there => (nomatch there), ?_, ?_, ?_, ?_⟩
    · rintro r ⟨pre, op, post, eq, -⟩
      exact absurd eq none_
    · refine Tallies.nothing.congr fun r => ⟨?_, False.elim⟩
      rintro ⟨pre, op, post, eq, -⟩
      exact absurd eq none_
    · refine Tallies.nothing.congr fun r => ⟨?_, False.elim⟩
      rintro ⟨⟨pre, op, post, eq, -⟩, -⟩
      exact absurd eq none_
    · intro r
      constructor
      · intro any
        cases any
      · rintro ⟨op, there, -⟩
        cases there
  | append_singleton ops op ih =>
    have h := ih admissible.init
    have retained : ∀ r, op.Delivers r → ¬ Pruned detailBound ops r :=
      fun r delivers pruned => admissible.retained ops op [] r rfl pruned delivers
    rw [run_concat]
    cases op with
    | write records committed =>
      have samePruned : ∀ r, Pruned detailBound (ops ++ [.write records committed]) r ↔
          Pruned detailBound ops r := by
        intro r
        rw [pruned_concat]
        simp
      have sameCovered : ∀ r, Covered (ops ++ [.write records committed]) r ↔
          Covered ops r := fun r => covered_concat.trans (or_iff_left not_false)
      show Keeps (if committed = true then records.foldl Store.insert (run ops) else run ops) _ _ _
      split
      · next is =>
          have delivered : ∀ r, Counted ops r ∨ r ∈ records →
              Delivered (ops ++ [.write records committed]) r := by
            rintro r (counted | there)
            · exact delivered_concat.mpr (.inl counted.delivered)
            · exact delivered_concat.mpr (.inr ⟨is, there⟩)
          refine (h.batch records (fun r r' hr hr' => admissible.unique r r' (delivered r hr)
            (delivered r' hr')) (fun r there => retained r ⟨is, there⟩)
            fun r hr => admissible.clock r (delivered r hr)).congr (fun r => ?_) samePruned
            sameCovered
          rw [counted_concat]
          simp only [Op.Removes, not_false_eq_true, and_true, Op.Delivers, is, true_and]
      · next not =>
          refine h.congr (fun r => ?_) samePruned sameCovered
          rw [counted_concat]
          constructor
          · rintro (⟨counted, -⟩ | ⟨delivers, -⟩)
            · exact counted
            · exact absurd delivers.1 not
          · exact fun counted => .inl ⟨counted, not_false⟩
    | prune now =>
      refine h.filter (fun d => decide (summaryBound now ≤ d))
        (fun d => decide (detailBound now ≤ d)) ?_ rfl rfl rfl ?_ ?_ ?_
      · intro d
        have := summaryBound_le_detailBound now
        simp only [decide_eq_true_eq]
        omega
      · intro r
        rw [counted_concat]
        simp only [Op.Removes, Op.Delivers, false_and, or_false, decide_eq_true_eq, not_lt]
      · rintro r (pruned | ⟨counted, detail, -⟩)
        · exact pruned_concat.mpr (.inl pruned)
        · rw [decide_eq_false_iff_not, not_le] at detail
          exact pruned_concat.mpr (.inr ⟨now, rfl, counted, detail⟩)
      · intro r
        rw [covered_concat]
        exact (h.barred r).trans (or_iff_left (b := Op.Bars r (.prune now)) not_false).symm
    | clear fromDay toDay clearedAt =>
      have samePruned : ∀ r, Pruned detailBound ops r →
          Pruned detailBound (ops ++ [.clear fromDay toDay clearedAt]) r :=
        fun r pruned => pruned_concat.mpr (.inl pruned)
      by_cases valid : Store.validRange fromDay toDay = true
      · have cleared : (run ops).clear fromDay toDay clearedAt = _ :=
          if_neg (by rw [valid]; exact Bool.false_ne_true)
        show Keeps ((run ops).clear fromDay toDay clearedAt) _ _ _
        rw [cleared]
        refine h.filter (fun d => !(decide (fromDay ≤ d) && decide (d < toDay)))
          (fun d => !(decide (fromDay ≤ d) && decide (d < toDay))) (fun _ => id) rfl rfl rfl
          ?_ ?_ ?_
        · intro r
          rw [counted_concat]
          simp only [Op.Removes, Op.Delivers, false_and, or_false, valid, true_and,
            Bool.not_eq_true', Bool.and_eq_false_imp, decide_eq_true_eq,
            decide_eq_false_iff_not, not_and]
        · rintro r (pruned | ⟨-, gone, kept⟩)
          · exact samePruned r pruned
          · rw [gone] at kept
            cases kept
        · intro r
          rw [covered_concat, List.any_append, Bool.or_eq_true, h.barred]
          refine or_congr .rfl ?_
          simp only [List.any_cons, List.any_nil, Bool.or_false, Op.Bars, valid, true_and]
      · have refused : (run ops).clear fromDay toDay clearedAt = run ops :=
          if_pos (by rw [(Bool.not_eq_true _).mp valid]; rfl)
        show Keeps ((run ops).clear fromDay toDay clearedAt) _ _ _
        rw [refused]
        refine h.congr (fun r => ?_) (fun r => ?_) fun r => ?_
        · rw [counted_concat]
          simp only [Op.Removes, Op.Delivers, false_and, or_false, valid, Bool.false_eq_true,
            not_false_eq_true, and_true]
        · rw [pruned_concat]
          simp
        · rw [covered_concat]
          simp only [Op.Bars, valid, Bool.false_eq_true, false_and, or_false]

/-! ### What the tables hold -/

/-- The records that a write commits. -/
def Op.delivered : Op → List UsageRecord
  | .write records true => records
  | _ => []

theorem exists_enumerates (ops : List Op) (g : Group) :
    ∃ rs, Enumerates (Counted ops) (UsageRecord.group dayMs) g rs := by
  classical
  have listed : ∃ rs : List UsageRecord, ∀ r, r ∈ rs ↔ Delivered ops r := by
    refine ⟨ops.flatMap Op.delivered, fun r => ?_⟩
    rw [List.mem_flatMap]
    refine exists_congr fun op => and_congr_right fun _ => ?_
    cases op with
    | write records committed => cases committed <;> simp [Op.Delivers, Op.delivered]
    | prune now => simp [Op.Delivers, Op.delivered]
    | clear fromDay toDay clearedAt => simp [Op.Delivers, Op.delivered]
  obtain ⟨rs, listed⟩ := listed
  refine ⟨(rs.dedup.filter fun r => Counted ops r ∧ r.group dayMs = g),
    (List.nodup_dedup rs).filter _, fun r => ?_⟩
  rw [List.mem_filter, List.mem_dedup, listed, decide_eq_true_eq]
  exact ⟨fun h => h.2, fun h => ⟨h.1.delivered, h⟩⟩

theorem foldl_lastUsed (rs : List UsageRecord) (s : UsageSummary) :
    let total := rs.foldl (fun total r => addSummary r total) s
    s.lastUsed ≤ total.lastUsed ∧ (∀ r ∈ rs, r.completedAt ≤ total.lastUsed) ∧
      (total.lastUsed = s.lastUsed ∨ ∃ r ∈ rs, r.completedAt = total.lastUsed) := by
  induction rs generalizing s with
  | nil => exact ⟨le_refl _, fun r there => (nomatch there), .inl rfl⟩
  | cons r rs ih =>
    obtain ⟨start, all, attained⟩ := ih (addSummary r s)
    have first : (addSummary r s).lastUsed = max s.lastUsed r.completedAt := rfl
    rw [first] at start attained
    have left := le_max_left s.lastUsed r.completedAt
    have right := le_max_right s.lastUsed r.completedAt
    refine ⟨left.trans start, ?_, ?_⟩
    · intro x there
      rcases List.mem_cons.mp there with rfl | there
      · exact right.trans start
      · exact all x there
    · rcases attained with same | ⟨x, there, same⟩
      · rcases max_choice s.lastUsed r.completedAt with is | is
        · exact .inl (same.trans is)
        · exact .inr ⟨r, List.mem_cons_self, (same.trans is).symm⟩
      · exact .inr ⟨x, List.mem_cons_of_mem _ there, same⟩

theorem foldl_requests (rs : List UsageRecord) (s : UsageSummary) (a : Aggregate)
    (same : a.requests = s.requests) :
    (rs.foldl (fun total r => addAggregate r total) a).requests =
      (rs.foldl (fun total r => addSummary r total) s).requests := by
  induction rs generalizing s a with
  | nil => exact same
  | cons r rs ih =>
    refine ih (addSummary r s) (addAggregate r a) ?_
    show saturatingAdd a.requests 1 = saturatingAdd s.requests 1
    rw [same]

theorem tally_requests (rs : List UsageRecord) :
    (tally {} addAggregate rs).map Aggregate.requests =
      (tally {} addSummary rs).map UsageSummary.requests := by
  cases rs with
  | nil => rfl
  | cons r rs => exact congrArg some (foldl_requests (r :: rs) {} {} rfl)

/-- What the daily tables hold when the records of `C` count: each once, in whatever order. -/
structure Accounts (s : Store) (C : UsageRecord → Prop) : Prop where
  summary : ∀ g rs, Enumerates C (UsageRecord.group dayMs) g rs →
    summaries s g = tally {} addSummary rs
  lastUsed : ∀ g rs total, Enumerates C (UsageRecord.group dayMs) g rs →
    summaries s g = some total →
    (∃ r ∈ rs, r.completedAt = total.lastUsed) ∧ ∀ r ∈ rs, r.completedAt ≤ total.lastUsed
  performance : ∀ g, (aggregates s g).map Aggregate.requests =
    if g.kind = "count" then none else (summaries s g).map UsageSummary.requests

section

variable {ops : List Op}

theorem enumerates_uncounted {C : UsageRecord → Prop} {g : Group} (count : g.kind = "count") :
    Enumerates (fun r => C r ∧ r.kind ≠ "count") (UsageRecord.group dayMs) g [] where
  nodup := List.nodup_nil
  mem r := by
    refine ⟨fun there => (nomatch there), ?_⟩
    rintro ⟨⟨-, kind⟩, rfl⟩
    exact absurd count kind

theorem enumerates_inference {C : UsageRecord → Prop} {g : Group} {rs : List UsageRecord}
    (h : Enumerates C (UsageRecord.group dayMs) g rs) (count : g.kind ≠ "count") :
    Enumerates (fun r => C r ∧ r.kind ≠ "count") (UsageRecord.group dayMs) g rs where
  nodup := h.nodup
  mem r := by
    rw [h.mem]
    constructor
    · rintro ⟨is, rfl⟩
      exact ⟨⟨is, count⟩, rfl⟩
    · rintro ⟨⟨is, -⟩, same⟩
      exact ⟨is, same⟩

theorem run_accounts (admissible : Admissible ops) : Accounts (run ops) (Counted ops) := by
  have keeps := run_keeps ops admissible
  refine ⟨keeps.daily, ?_, fun g => ?_⟩
  · intro g rs total enumerates stored
    rw [keeps.daily g rs enumerates] at stored
    cases rs with
    | nil => cases stored
    | cons r rs =>
      cases stored
      obtain ⟨start, all, attained⟩ := foldl_lastUsed (r :: rs) {}
      refine ⟨?_, all⟩
      rcases attained with zero | found
      · -- the fold starts at zero, which no clock is below
        have listed := (enumerates.mem r).mp List.mem_cons_self
        have late := all r List.mem_cons_self
        rw [zero] at late
        refine ⟨r, List.mem_cons_self, ?_⟩
        rw [zero]
        exact le_antisymm late (admissible.clock r listed.1.delivered)
      · exact found
  · obtain ⟨rs, enumerates⟩ := exists_enumerates ops g
    split
    · next count =>
        rw [keeps.performance g [] (enumerates_uncounted count)]
        rfl
    · next count =>
        rw [keeps.performance g rs (enumerates_inference enumerates count), keeps.daily g rs enumerates,
          tally_requests]

/-! ### Order -/

/-- The tables depend on nothing but the records that count. -/
theorem tables_determined {ops' : List Op} (admissible : Admissible ops)
    (admissible' : Admissible ops') (same : ∀ r, Counted ops' r ↔ Counted ops r) (g : Group) :
    summaries (run ops') g = summaries (run ops) g ∧
      aggregates (run ops') g = aggregates (run ops) g := by
  obtain ⟨rs, enumerates⟩ := exists_enumerates ops g
  have enumerates' : Enumerates (Counted ops') (UsageRecord.group dayMs) g rs :=
    ⟨enumerates.nodup, fun r => by rw [enumerates.mem, same]⟩
  have keeps := run_keeps ops admissible
  have keeps' := run_keeps ops' admissible'
  refine ⟨by rw [keeps'.daily g rs enumerates', keeps.daily g rs enumerates], ?_⟩
  by_cases count : g.kind = "count"
  · rw [keeps'.performance g [] (enumerates_uncounted count),
      keeps.performance g [] (enumerates_uncounted count)]
  · rw [keeps'.performance g rs (enumerates_inference enumerates' count),
      keeps.performance g rs (enumerates_inference enumerates count)]

/-- The operation is a batch. -/
def Op.IsWrite : Op → Prop
  | .write _ _ => True
  | .prune _ => False
  | .clear _ _ _ => False

theorem counted_writes {pre writes : List Op} (are : ∀ op ∈ writes, op.IsWrite)
    (r : UsageRecord) :
    (Counted (pre ++ writes) r ↔ Counted pre r ∨ (Delivered writes r ∧ ¬ Covered pre r)) ∧
      (Covered (pre ++ writes) r ↔ Covered pre r) := by
  induction writes using List.reverseRecOn with
  | nil =>
    rw [List.append_nil]
    refine ⟨⟨.inl, fun h => h.elim id fun delivered => ?_⟩, .rfl⟩
    obtain ⟨op, there, -⟩ := delivered.1
    cases there
  | append_singleton writes op ih =>
    obtain ⟨counted, covered⟩ := ih fun op there => are op (List.mem_append_left _ there)
    have isWrite := are op (List.mem_append_right _ (List.mem_singleton_self op))
    have stays : ¬ op.Removes r ∧ ¬ op.Bars r := by
      cases op with
      | write records committed => exact ⟨not_false, not_false⟩
      | prune now => exact isWrite.elim
      | clear fromDay toDay clearedAt => exact isWrite.elim
    rw [← List.append_assoc, counted_concat, covered_concat, delivered_concat, counted, covered]
    have := stays.1
    grind

theorem counted_append {ops' post : List Op} (counted : ∀ r, Counted ops' r ↔ Counted ops r)
    (covered : ∀ r, Covered ops' r ↔ Covered ops r) (r : UsageRecord) :
    Counted (ops' ++ post) r ↔ Counted (ops ++ post) r := by
  have both : (Counted (ops' ++ post) r ↔ Counted (ops ++ post) r) ∧
      (Covered (ops' ++ post) r ↔ Covered (ops ++ post) r) := by
    induction post using List.reverseRecOn with
    | nil =>
      rw [List.append_nil, List.append_nil]
      exact ⟨counted r, covered r⟩
    | append_singleton post op ih =>
      rw [← List.append_assoc, ← List.append_assoc, counted_concat, counted_concat,
        covered_concat, covered_concat, ih.1, ih.2]
      exact ⟨.rfl, .rfl⟩
  exact both.1

/-- Batches may be cut, ordered, repeated and retried in any way that delivers the same. -/
theorem counted_rebatched {pre writes writes' post : List Op}
    (are : ∀ op ∈ writes, op.IsWrite) (are' : ∀ op ∈ writes', op.IsWrite)
    (same : ∀ r, Delivered writes' r ↔ Delivered writes r) (r : UsageRecord) :
    Counted (pre ++ writes' ++ post) r ↔ Counted (pre ++ writes ++ post) r := by
  refine counted_append (fun r => ?_) (fun r => ?_) r
  · rw [(counted_writes are r).1, (counted_writes are' r).1, same]
  · rw [(counted_writes are r).2, (counted_writes are' r).2]

/-! ### Clears -/

/-- No clear is dated before the completion of a record it removes. -/
def Timely (ops : List Op) : Prop :=
  ∀ pre fromDay toDay clearedAt post r, ops = pre ++ .clear fromDay toDay clearedAt :: post →
    Delivered pre r → (Op.clear fromDay toDay clearedAt).Removes r → r.completedAt ≤ clearedAt

theorem Timely.init {op : Op} (h : Timely (ops ++ [op])) : Timely ops :=
  fun pre fromDay toDay clearedAt post r eq =>
    h pre fromDay toDay clearedAt (post ++ [op]) r (by rw [eq]; simp)

/-- What counts, by what was delivered, cleared and pruned. -/
theorem counted_iff (admissible : Admissible ops) (timely : Timely ops) (r : UsageRecord) :
    Counted ops r ↔ Delivered ops r ∧ ¬ Covered ops r ∧ ¬ Pruned summaryBound ops r := by
  induction ops using List.reverseRecOn with
  | nil =>
    constructor
    · rintro ⟨pre, op, post, eq, -⟩
      cases pre <;> cases eq
    · rintro ⟨⟨op, there, -⟩, -⟩
      cases there
  | append_singleton ops op ih =>
    have ih := ih admissible.init timely.init
    rw [counted_concat, delivered_concat, covered_concat, pruned_concat]
    cases op with
    | write records committed =>
      -- what was pruned is not delivered again
      have fresh : (Op.write records committed).Delivers r → ¬ Pruned summaryBound ops r := by
        rintro delivers ⟨pre, now, post, eq, counted, before⟩
        have earlier := before.trans_le (summaryBound_le_detailBound now)
        exact admissible.retained ops _ [] r rfl ⟨pre, now, post, eq, counted, earlier⟩ delivers
      simp only [Op.Removes, Op.Bars, reduceCtorEq, false_and, exists_false, or_false,
        not_false_eq_true, and_true]
      grind
    | prune now =>
      simp only [Op.Removes, Op.Delivers, Op.Bars, Op.prune.injEq, exists_eq_left', or_false,
        false_and]
      grind
    | clear fromDay toDay clearedAt =>
      have bars : Delivered ops r → ((Op.clear fromDay toDay clearedAt).Bars r ↔
          (Op.clear fromDay toDay clearedAt).Removes r) := by
        intro delivered
        constructor
        · rintro ⟨valid, covers⟩
          unfold Deletion.covers at covers
          simp only [Bool.and_eq_true, decide_eq_true_eq] at covers
          exact ⟨valid, covers.1⟩
        · intro removes
          have late := timely ops fromDay toDay clearedAt [] r rfl delivered removes
          refine ⟨removes.1, ?_⟩
          unfold Deletion.covers
          simp only [Bool.and_eq_true, decide_eq_true_eq]
          exact ⟨removes.2, late⟩
      simp only [Op.Delivers, reduceCtorEq, false_and, exists_false, or_false]
      grind

end

/-- **Each request counts once.** In a run the daily summaries are the sums over the
records that count, `last_used` is the latest completion among them, and the daily
performance aggregates count the same requests but for token counting. If no clear is
dated before the completion of a record it removes, what counts is what was delivered
and neither covered by a clear at or after its completion nor pruned. Neither the order
nor the batching of the deliveries between two other operations matters. -/
theorem usage_counted_once (ops : List Op) (admissible : Admissible ops) :
    Accounts (run ops) (Counted ops) ∧
    (Timely ops → ∀ r,
      Counted ops r ↔ Delivered ops r ∧ ¬ Covered ops r ∧ ¬ Pruned summaryBound ops r) ∧
    (∀ ops', Admissible ops' → (∀ r, Counted ops' r ↔ Counted ops r) → ∀ g,
      summaries (run ops') g = summaries (run ops) g ∧
        aggregates (run ops') g = aggregates (run ops) g) ∧
    ∀ pre writes writes' post, ops = pre ++ writes ++ post → Admissible (pre ++ writes' ++ post) →
      (∀ op ∈ writes, op.IsWrite) → (∀ op ∈ writes', op.IsWrite) →
      (∀ r, Delivered writes' r ↔ Delivered writes r) → ∀ g,
      summaries (run (pre ++ writes' ++ post)) g = summaries (run ops) g ∧
        aggregates (run (pre ++ writes' ++ post)) g = aggregates (run ops) g := by
  refine ⟨run_accounts admissible, counted_iff admissible,
    fun ops' admissible' same g => tables_determined admissible admissible' same g, ?_⟩
  rintro pre writes writes' post rfl admissible' are are' same g
  exact tables_determined admissible admissible' (counted_rebatched are are' same) g

/-! ### Two runs -/

def sampleRecord : UsageRecord :=
  { completedAt := dayMs + 100, requestId := "once", keyId := "key", kind := "generation" }

theorem sample_unique {ops : List Op} (all : ∀ r, Delivered ops r → r = sampleRecord)
    (retained : ∀ pre op post r, ops = pre ++ op :: post → Pruned detailBound pre r →
      ¬ op.Delivers r) : Admissible ops where
  unique r r' h h' _ := (all r h).trans (all r' h').symm
  clock r h := by rw [all r h]; decide
  retained := retained

/-- Delivered twice, in a batch that fails and in one that is repeated. -/
def sampleOps : List Op :=
  [.write [sampleRecord] false, .write [sampleRecord, sampleRecord] true]

theorem usage_counted_once_sample :
    (summaries (run sampleOps) (sampleRecord.group dayMs)).map UsageSummary.requests = some 1 := by
  have once := usage_counted_once sampleOps (sample_unique ?_ ?_)
  · have counted : Enumerates (Counted sampleOps) (UsageRecord.group dayMs)
        (sampleRecord.group dayMs) [sampleRecord] := by
      refine ⟨List.nodup_singleton _, fun r => ?_⟩
      rw [List.mem_singleton]
      constructor
      · rintro rfl
        exact ⟨⟨[.write [sampleRecord] false], _, [], rfl, ⟨rfl, List.mem_cons_self⟩,
          fun ⟨op, there, bars⟩ => by rw [List.mem_singleton.mp there] at bars; exact bars,
          fun o there => (nomatch there)⟩, rfl⟩
      · rintro ⟨counted, -⟩
        obtain ⟨op, there, delivers⟩ := counted.delivered
        simp only [sampleOps, List.mem_cons, List.not_mem_nil, or_false] at there
        rcases there with rfl | rfl
        · exact absurd delivers.1 Bool.false_ne_true
        · simpa using delivers.2
    rw [once.1.summary _ _ counted]
    rfl
  · rintro r ⟨op, there, delivers⟩
    simp only [sampleOps, List.mem_cons, List.not_mem_nil, or_false] at there
    rcases there with rfl | rfl
    · exact absurd delivers.1 Bool.false_ne_true
    · simpa using delivers.2
  · rintro pre op post r eq ⟨pre', now, post', rfl, -⟩ -
    have there : Op.prune now ∈ sampleOps := by
      rw [eq]
      simp
    simp [sampleOps] at there

/-- A clear dated before the completion of a record that is stored already. -/
def earlyClear : List Op :=
  [.write [sampleRecord] true, .clear dayMs (2 * dayMs) (dayMs + 50)]

/-- It removes the record, which no clear at or after its completion covers. -/
theorem early_clear_removes :
    ¬ ∀ ops, Admissible ops → ∀ g rs,
      Enumerates (fun r => Delivered ops r ∧ ¬ Covered ops r ∧ ¬ Pruned summaryBound ops r)
        (UsageRecord.group dayMs) g rs →
      summaries (run ops) g = tally {} addSummary rs := by
  intro claim
  have only : ∀ r, Delivered earlyClear r → r = sampleRecord := by
    rintro r ⟨op, there, delivers⟩
    simp only [earlyClear, List.mem_cons, List.not_mem_nil, or_false] at there
    rcases there with rfl | rfl
    · simpa using delivers.2
    · exact delivers.elim
  have unpruned : ∀ {bound pre op post r}, earlyClear = pre ++ op :: post →
      ¬ Pruned bound pre r ∧ ¬ Pruned bound earlyClear r := by
    have none_ : ∀ now, Op.prune now ∉ earlyClear := by simp [earlyClear]
    intro bound pre op post r eq
    constructor
    · rintro ⟨pre', now, post', rfl, -⟩
      exact none_ now (by rw [eq]; simp)
    · rintro ⟨pre', now, post', eq, -⟩
      exact none_ now (by rw [eq]; simp)
  have admissible : Admissible earlyClear :=
    sample_unique only fun pre op post r eq pruned => absurd pruned (unpruned eq).1
  have counted : Enumerates
      (fun r => Delivered earlyClear r ∧ ¬ Covered earlyClear r ∧
        ¬ Pruned summaryBound earlyClear r)
      (UsageRecord.group dayMs) (sampleRecord.group dayMs) [sampleRecord] := by
    refine ⟨List.nodup_singleton _, fun r => ?_⟩
    rw [List.mem_singleton]
    constructor
    · rintro rfl
      refine ⟨⟨⟨_, List.mem_cons_self, rfl, List.mem_singleton_self _⟩, ?_, ?_⟩, rfl⟩
      · rintro ⟨op, there, bars⟩
        simp only [earlyClear, List.mem_cons, List.not_mem_nil, or_false] at there
        rcases there with rfl | rfl
        · exact bars
        · exact absurd bars.2 (by decide)
      · have whole : earlyClear = [] ++ _ :: _ := rfl
        exact (unpruned whole).2
    · exact fun h => only r h.1.1
  have stored := claim earlyClear admissible _ _ counted
  have gone : (summaries (run earlyClear) (sampleRecord.group dayMs)).isNone = true := by
    decide +kernel
  rw [stored] at gone
  cases gone

end LlamaServerManager.UsageStore
