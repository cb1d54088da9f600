import LlamaServerManager.Lib.Machine
import Mathlib.Data.List.Basic
import Mathlib.Data.List.Induction
import Mathlib.Data.Nat.Basic
import Mathlib.Order.Basic
import Mathlib.Tactic.WLOG

/-!
A file that follows a source which others change. A copier takes the source and the next stamp at
once and writes the copy when it comes to that; a copy whose stamp is not newer than the one of the
last write is dropped. An edit changes the file in place: it takes its stamp with the lock on the
file, so no copy is written before it ends. One copy at a time waits for a writer, a newer one takes
its place.

* `Settled` — `P` holds of the file, of the source, and of all that can still be written.
* `settled_iff` — that is when `P` holds of the file whatever comes next.
* `Fenced` — an edit is under way that will make it so.
-/

namespace LlamaServerManager.Lib.Snapshots

open Machine

universe u v

/-- A copy of the source, with the stamp it got when it was made. -/
structure Snapshot (β : Type u) where
  generation : Nat
  content : β
deriving DecidableEq, Repr

/-- The source, the file, and the names of what is done to them. -/
structure Setup (α β γ δ : Type u) where
  change : γ → α → α
  capture : α → β
  edit : δ → β → β

/-- What is in memory, what is in the file, the last stamp that was given, the stamp of
what the file holds, and the copies under way. -/
structure State (α β : Type u) where
  source : α
  file : β
  generation : Nat
  persisted : Nat
  pending : Option (Snapshot β)
  /-- The copies that somebody is about to write or to hand over. -/
  held : List (Snapshot β)
  /-- The stamp of the edit that has the lock. -/
  locked : Option Nat
deriving DecidableEq, Repr

/-- What comes of a write; one that is `late` reports a failure after its effect. -/
inductive Outcome where
  | done
  | failed
  | late
deriving DecidableEq, Repr

/-- The steps of all threads: changes of the source, copies of it and their way to the
file, and edits of the file, which hold a lock from `lock` to `edit` or `abandon`. -/
inductive Step (γ δ : Type u) where
  | change (change : γ)
  | capture
  | schedule (index : Nat)
  | take
  | persist (index : Nat) (outcome : Outcome)
  | lock
  | edit (edit : δ) (outcome : Outcome)
  /-- An edit ends that could not read the file. -/
  | abandon
deriving DecidableEq, Repr

variable {α β γ δ : Type u}

def State.write (s : State α β) (snapshot : Snapshot β) : Outcome → State α β
  | .done => { s with file := snapshot.content, persisted := snapshot.generation }
  | .failed => s
  | .late => { s with file := snapshot.content }

/-- A new copy is held. -/
def State.copied (s : State α β) (content : β) : State α β :=
  { s with
    generation := s.generation + 1
    held := s.held ++ [⟨s.generation + 1, content⟩] }

def next (setup : Setup α β γ δ) (s : State α β) : Step γ δ → Option (State α β)
  | .change change => some { s with source := setup.change change s.source }
  | .capture => some (s.copied (setup.capture s.source))
  | .schedule index =>
    s.held[index]?.map fun snapshot =>
      { s with held := s.held.eraseIdx index, pending := some snapshot }
  | .take =>
    s.pending.map fun snapshot => { s with pending := none, held := s.held ++ [snapshot] }
  | .persist index outcome =>
    if s.locked.isSome then none
    else
      s.held[index]?.map fun snapshot =>
        let rest := { s with held := s.held.eraseIdx index }
        if snapshot.generation ≤ s.persisted then rest else rest.write snapshot outcome
  | .lock =>
    if s.locked.isSome then none
    else some { s with generation := s.generation + 1, locked := some (s.generation + 1) }
  | .edit edit outcome =>
    s.locked.map fun generation =>
      { s with locked := none }.write ⟨generation, setup.edit edit s.file⟩ outcome
  | .abandon => s.locked.map fun _ => { s with locked := none }

def machine (setup : Setup α β γ δ) (init : State α β) : Machine (State α β) (Step γ δ) where
  init := init
  next := next setup

/-- The copies that have not been written. -/
def State.outstanding (s : State α β) : List (Snapshot β) := s.held ++ s.pending.toList

section Write

variable {s : State α β} {snapshot : Snapshot β} {outcome : Outcome}

@[simp] theorem write_source : (s.write snapshot outcome).source = s.source := by
  cases outcome <;> rfl

@[simp] theorem write_generation : (s.write snapshot outcome).generation = s.generation := by
  cases outcome <;> rfl

@[simp] theorem write_outstanding : (s.write snapshot outcome).outstanding = s.outstanding := by
  cases outcome <;> rfl

@[simp] theorem write_locked : (s.write snapshot outcome).locked = s.locked := by
  cases outcome <;> rfl

theorem write_file {P : β → Prop} (file : P s.file) (content : P snapshot.content) :
    P (s.write snapshot outcome).file := by
  cases outcome
  · exact content
  · exact file
  · exact content

theorem le_write_persisted (newer : s.persisted ≤ snapshot.generation) :
    s.persisted ≤ (s.write snapshot outcome).persisted := by
  cases outcome
  · exact newer
  · exact le_rfl
  · exact le_rfl

theorem write_persisted_le {n : Nat} (old : s.persisted ≤ n) (new : snapshot.generation ≤ n) :
    (s.write snapshot outcome).persisted ≤ n := by
  cases outcome
  · exact new
  · exact old
  · exact old

end Write

/-! ### What a step does -/

/-- What comes to the file: nothing, a held copy that is newer, or an edit. -/
inductive Writes (setup : Setup α β γ δ) (s : State α β) (step : Step γ δ) (t : State α β) : Prop
  | nothing (file : t.file = s.file) (persisted : t.persisted = s.persisted)
  | copy (snapshot : Snapshot β) (outcome : Outcome) (held : snapshot ∈ s.outstanding)
      (newer : s.persisted < snapshot.generation) (unlocked : t.locked = none)
      (file : t.file = (s.write snapshot outcome).file)
      (persisted : t.persisted = (s.write snapshot outcome).persisted)
  | edit (edit : δ) (outcome : Outcome) (generation : Nat) (edits : step = .edit edit outcome)
      (locked : s.locked = some generation) (unlocked : t.locked = none)
      (file : t.file = (s.write ⟨generation, setup.edit edit s.file⟩ outcome).file)
      (persisted : t.persisted = (s.write ⟨generation, setup.edit edit s.file⟩ outcome).persisted)

/-- What a step does to the source, to the copies and to the stamps. What it does to the
file is `Writes`. -/
structure Effect (setup : Setup α β γ δ) (s : State α β) (step : Step γ δ) (t : State α β) :
    Prop where
  source : t.source = s.source ∨
    ∃ change, step = .change change ∧ t.source = setup.change change s.source
  outstanding : ∀ snapshot ∈ t.outstanding, snapshot ∈ s.outstanding ∨
    step = .capture ∧ t.generation = s.generation + 1 ∧
      snapshot = ⟨s.generation + 1, setup.capture s.source⟩
  generation : s.generation ≤ t.generation
  locked : t.locked = none ∨ t.locked = s.locked ∨
    t.locked = some t.generation ∧ t.generation = s.generation + 1
  writes : Writes setup s step t

section Steps

variable {setup : Setup α β γ δ} {s t : State α β} {step : Step γ δ}

theorem effect (hn : next setup s step = some t) : Effect setup s step t := by
  cases step with
  | change change =>
    cases hn
    exact ⟨.inr ⟨change, rfl, rfl⟩, fun _ => .inl, le_rfl, .inr (.inl rfl), .nothing rfl rfl⟩
  | capture =>
    cases hn
    refine ⟨.inl rfl, fun snapshot mem => ?_, Nat.le_succ _, .inr (.inl rfl), .nothing rfl rfl⟩
    simp only [State.outstanding, State.copied, List.mem_append, List.mem_singleton] at mem ⊢
    rcases mem with (held | new) | pending
    · exact .inl (.inl held)
    · exact .inr ⟨trivial, trivial, new⟩
    · exact .inl (.inr pending)
  | schedule index =>
    obtain ⟨scheduled, found, rfl⟩ := Option.map_eq_some_iff.mp hn
    refine ⟨.inl rfl, fun snapshot mem => ?_, le_rfl, .inr (.inl rfl), .nothing rfl rfl⟩
    simp only [State.outstanding, List.mem_append, Option.toList_some, List.mem_singleton] at mem ⊢
    rcases mem with held | rfl
    · exact .inl (.inl (List.mem_of_mem_eraseIdx held))
    · exact .inl (.inl (List.mem_of_getElem? found))
  | take =>
    obtain ⟨taken, found, rfl⟩ := Option.map_eq_some_iff.mp hn
    refine ⟨.inl rfl, fun snapshot mem => .inl ?_, le_rfl, .inr (.inl rfl), .nothing rfl rfl⟩
    simp only [State.outstanding, found, Option.toList_none, List.append_nil] at mem ⊢
    exact mem
  | persist index outcome =>
    simp only [next] at hn
    split at hn
    · cases hn
    · rename_i free
      have unlocked : s.locked = none := by simpa using free
      obtain ⟨snapshot, found, rfl⟩ := Option.map_eq_some_iff.mp hn
      have held : snapshot ∈ s.outstanding :=
        List.mem_append_left _ (List.mem_of_getElem? found)
      have rest : ∀ other ∈ s.held.eraseIdx index ++ s.pending.toList, other ∈ s.outstanding :=
        fun other mem => List.mem_append.mpr
          ((List.mem_append.mp mem).imp_left List.mem_of_mem_eraseIdx)
      split
      · exact ⟨.inl rfl, fun other mem => .inl (rest other mem), le_rfl, .inr (.inl rfl),
          .nothing rfl rfl⟩
      · rename_i newer
        cases outcome with
        | done =>
          exact ⟨.inl rfl, fun other mem => .inl (rest other mem), le_rfl, .inr (.inl rfl),
            .copy snapshot .done held (Nat.lt_of_not_le newer) unlocked rfl rfl⟩
        | failed =>
          exact ⟨.inl rfl, fun other mem => .inl (rest other mem), le_rfl, .inr (.inl rfl),
            .nothing rfl rfl⟩
        | late =>
          exact ⟨.inl rfl, fun other mem => .inl (rest other mem), le_rfl, .inr (.inl rfl),
            .copy snapshot .late held (Nat.lt_of_not_le newer) unlocked rfl rfl⟩
  | lock =>
    simp only [next] at hn
    split at hn
    · cases hn
    · cases hn
      exact ⟨.inl rfl, fun _ => .inl, Nat.le_succ _, .inr (.inr ⟨rfl, rfl⟩), .nothing rfl rfl⟩
  | edit edit outcome =>
    obtain ⟨generation, locked, rfl⟩ := Option.map_eq_some_iff.mp hn
    refine ⟨.inl write_source, fun _ mem => .inl ?_, ?_, .inl write_locked,
      .edit edit outcome generation rfl locked write_locked ?_ ?_⟩
    · rwa [write_outstanding] at mem
    · rw [write_generation]
    · cases outcome <;> rfl
    · cases outcome <;> rfl
  | abandon =>
    obtain ⟨_, -, rfl⟩ := Option.map_eq_some_iff.mp hn
    exact ⟨.inl rfl, fun _ => .inl, le_rfl, .inl rfl, .nothing rfl rfl⟩

end Steps

/-! ### Stamps -/

/-- Stamps are handed out in order, and an edit has a newer one than the last write. -/
structure Stamped (s : State α β) : Prop where
  outstanding : ∀ snapshot ∈ s.outstanding, snapshot.generation ≤ s.generation
  persisted : s.persisted ≤ s.generation
  locked : ∀ generation ∈ s.locked, s.persisted < generation ∧ generation ≤ s.generation

section Stamped

variable {setup : Setup α β γ δ} {s t : State α β} {step : Step γ δ}

/-- The file is never written with an older stamp. -/
theorem Stamped.le_persisted (h : Stamped s) (hn : Snapshots.next setup s step = some t) :
    s.persisted ≤ t.persisted := by
  cases (effect hn).writes with
  | nothing file persisted => exact persisted.ge
  | copy snapshot outcome held newer unlocked file persisted =>
    exact persisted ▸ le_write_persisted newer.le
  | edit edit outcome generation edits locked unlocked file persisted =>
    exact persisted ▸ le_write_persisted (h.locked generation locked).1.le

theorem Stamped.next (h : Stamped s) (hn : Snapshots.next setup s step = some t) : Stamped t := by
  have eff := effect hn
  have known : t.persisted ≤ s.generation := by
    cases eff.writes with
    | nothing file persisted => exact persisted ▸ h.persisted
    | copy snapshot outcome held newer unlocked file persisted =>
      exact persisted ▸ write_persisted_le h.persisted (h.outstanding snapshot held)
    | edit edit outcome generation edits locked unlocked file persisted =>
      exact persisted ▸ write_persisted_le h.persisted (h.locked generation locked).2
  refine ⟨fun snapshot mem => ?_, known.trans eff.generation, fun generation held => ?_⟩
  · obtain before | ⟨-, counted, rfl⟩ := eff.outstanding snapshot mem
    · exact (h.outstanding snapshot before).trans eff.generation
    · exact counted.ge
  · obtain free | same | ⟨new, counted⟩ := eff.locked
    · cases free.symm.trans held
    · have before := h.locked generation (same ▸ held)
      refine ⟨?_, before.2.trans eff.generation⟩
      cases eff.writes with
      | nothing file persisted => exact persisted ▸ before.1
      | copy snapshot outcome _ _ unlocked => cases unlocked.symm.trans held
      | edit edit outcome generation edits locked unlocked => cases unlocked.symm.trans held
    · obtain rfl := Option.some.inj (new.symm.trans held)
      exact ⟨counted ▸ Nat.lt_succ_of_le known, le_rfl⟩

theorem Stamped.run {init : State α β} {steps : List (Step γ δ)} (h : Stamped s)
    (hr : (machine setup init).run s steps = some t) : Stamped t :=
  Machine.run_preserves (fun _ _ _ hn hs => hs.next hn) hr h

end Stamped

/-! ### What stays true of the file -/

section Settled

variable (setup : Setup α β γ δ) (P : β → Prop)

/-- The step does not make `P` false of what it changes. -/
def Keeps (s : State α β) : Step γ δ → Prop
  | .change change =>
    P (setup.capture s.source) → P (setup.capture (setup.change change s.source))
  | .edit edit _ => P s.file → P (setup.edit edit s.file)
  | _ => True

/-- `P` holds of the file, of the source, and of all that can still be written. -/
structure Settled (s : State α β) : Prop where
  file : P s.file
  source : P (setup.capture s.source)
  newer : ∀ snapshot ∈ s.outstanding, s.persisted < snapshot.generation → P snapshot.content

/-- `P` holds of the source, and of all that can still be written when the edit is done. -/
structure Fenced (s : State α β) : Prop where
  source : P (setup.capture s.source)
  newer : ∀ generation ∈ s.locked, ∀ snapshot ∈ s.outstanding,
    generation < snapshot.generation → P snapshot.content

variable {setup P} {s t : State α β} {step : Step γ δ}

theorem source_next (hn : next setup s step = some t) (keeps : Keeps setup P s step)
    (source : P (setup.capture s.source)) : P (setup.capture t.source) := by
  obtain same | ⟨change, rfl, changed⟩ := (effect hn).source
  · rwa [same]
  · rw [changed]
    exact keeps source

theorem Settled.next (h : Settled setup P s) (stamped : Stamped s)
    (hn : Snapshots.next setup s step = some t) (keeps : Keeps setup P s step) :
    Settled setup P t := by
  have eff := effect hn
  refine ⟨?_, source_next hn keeps h.source, fun snapshot mem newer => ?_⟩
  · cases eff.writes with
    | nothing file => exact file ▸ h.file
    | copy snapshot outcome held newer unlocked file =>
      exact file ▸ write_file h.file (h.newer snapshot held newer)
    | edit edit outcome generation edits locked unlocked file =>
      subst edits
      exact file ▸ write_file h.file (keeps h.file)
  · obtain before | ⟨-, -, rfl⟩ := eff.outstanding snapshot mem
    · exact h.newer snapshot before ((stamped.le_persisted hn).trans_lt newer)
    · exact h.source

/-- No edit is under way. -/
theorem Fenced.of_unlocked (free : s.locked = none) (source : P (setup.capture s.source)) :
    Fenced setup P s :=
  ⟨source, fun _ locked => absurd (free.symm.trans locked) nofun⟩

/-- What an edit does to the file is of no account here. -/
theorem Fenced.next (h : Fenced setup P s) (stamped : Stamped s)
    (hn : Snapshots.next setup s step = some t)
    (keeps : ∀ change, step = .change change → Keeps setup P s step) : Fenced setup P t := by
  have eff := effect hn
  refine ⟨?_, fun generation held snapshot mem newer => ?_⟩
  · obtain same | ⟨change, rfl, changed⟩ := eff.source
    · exact same ▸ h.source
    · exact changed ▸ keeps change rfl h.source
  · obtain before | ⟨-, -, rfl⟩ := eff.outstanding snapshot mem
    · obtain free | same | ⟨new, counted⟩ := eff.locked
      · cases free.symm.trans held
      · exact h.newer generation (same ▸ held) snapshot before newer
      · obtain rfl := Option.some.inj (new.symm.trans held)
        have := stamped.outstanding snapshot before
        omega
    · exact h.source

/-- The edit makes `P` true. -/
theorem Fenced.edit {edit : δ} (h : Fenced setup P s)
    (hn : Snapshots.next setup s (.edit edit .done) = some t) (made : P (setup.edit edit s.file)) :
    Settled setup P t := by
  obtain ⟨generation, locked, rfl⟩ := Option.map_eq_some_iff.mp hn
  exact ⟨made, h.source, h.newer generation locked⟩

variable {init : State α β} {steps : List (Step γ δ)}

theorem Settled.run (h : Settled setup P s) (stamped : Stamped s)
    (hr : (machine setup init).run s steps = some t)
    (keeps : (machine setup init).Along (fun s step _ => Keeps setup P s step) s steps) :
    Settled setup P t := by
  have both : Stamped t ∧ Settled setup P t :=
    Machine.run_preserves_along (P := fun s => Stamped s ∧ Settled setup P s)
      (fun _ _ _ hn keep h => ⟨h.1.next hn, h.2.next h.1 hn keep⟩) keeps hr ⟨stamped, h⟩
  exact both.2

theorem Fenced.run (h : Fenced setup P s) (stamped : Stamped s)
    (hr : (machine setup init).run s steps = some t) (keeps : (machine setup init).Along
      (fun s step _ => ∀ change, step = .change change → Keeps setup P s step) s steps) :
    Fenced setup P t := by
  have both : Stamped t ∧ Fenced setup P t :=
    Machine.run_preserves_along (P := fun s => Stamped s ∧ Fenced setup P s)
      (fun _ _ _ hn keep h => ⟨h.1.next hn, h.2.next h.1 hn keep⟩) keeps hr ⟨stamped, h⟩
  exact both.2

section Schedules

variable (setup P) (init : State α β)

/-- A free file is written. -/
theorem persist_done {index : Nat} {snapshot : Snapshot β} (free : s.locked = none)
    (found : s.held[index]? = some snapshot) (newer : s.persisted < snapshot.generation) :
    ∃ t, (machine setup init).run s [.persist index .done] = some t ∧
      t.file = snapshot.content := by
  refine ⟨{ s with
    held := s.held.eraseIdx index
    file := snapshot.content
    persisted := snapshot.generation }, ?_, rfl⟩
  refine (machine setup init).run_cons_eq_some.mpr ⟨_, ?_, rfl⟩
  simp [machine, next, free, found, Nat.not_le_of_lt newer, State.write]

/-- A copy that is newer than the file can be written next. -/
theorem written_of_outstanding {snapshot : Snapshot β} (mem : snapshot ∈ s.outstanding)
    (newer : s.persisted < snapshot.generation) :
    ∃ steps t, (machine setup init).run s steps = some t ∧
      (machine setup init).Along (fun s step _ => Keeps setup P s step) s steps ∧
      t.file = snapshot.content := by
  wlog free : s.locked = none generalizing s
  · obtain ⟨generation, locked⟩ := Option.ne_none_iff_exists'.mp free
    have first : (machine setup init).next s .abandon = some { s with locked := none } := by
      simp [machine, next, locked]
    obtain ⟨steps, t, hr, keeps, file⟩ := this (s := { s with locked := none }) mem newer rfl
    exact ⟨.abandon :: steps, t, (machine setup init).run_cons_eq_some.mpr ⟨_, first, hr⟩,
      (Machine.along_cons first).mpr ⟨trivial, keeps⟩, file⟩
  rcases List.mem_append.mp mem with held | pending
  · obtain ⟨index, found⟩ := List.mem_iff_getElem?.mp held
    obtain ⟨t, hr, file⟩ := persist_done setup init free found newer
    exact ⟨_, t, hr, fun _ _ => ⟨trivial, trivial⟩, file⟩
  · have waiting : s.pending = some snapshot := by simpa using pending
    have taken : (machine setup init).next s .take =
        some { s with pending := none, held := s.held ++ [snapshot] } := by
      simp [machine, next, waiting]
    have found : (s.held ++ [snapshot])[s.held.length]? = some snapshot := by simp
    obtain ⟨t, hr, file⟩ := persist_done (s := { s with pending := none, held := _ }) setup init
      free found newer
    exact ⟨[.take, .persist s.held.length .done], t,
      (machine setup init).run_cons_eq_some.mpr ⟨_, taken, hr⟩,
      (Machine.along_cons taken).mpr ⟨trivial, fun _ _ => ⟨trivial, trivial⟩⟩, file⟩

end Schedules

/-- **What stays true of the file** is what holds of the file, of the source and of every copy that
is still to be written. -/
theorem settled_iff (stamped : Stamped s) : (∀ steps t, (machine setup init).run s steps = some t →
      (machine setup init).Along (fun s step _ => Keeps setup P s step) s steps → P t.file) ↔
    Settled setup P s := by
  constructor
  · intro always
    refine ⟨always [] s rfl trivial, ?_, fun snapshot mem newer => ?_⟩
    · have captured : (machine setup init).next s .capture =
          some (s.copied (setup.capture s.source)) := rfl
      have held : ⟨s.generation + 1, setup.capture s.source⟩ ∈
          (s.copied (setup.capture s.source)).outstanding := by
        simp [State.outstanding, State.copied]
      obtain ⟨steps, t, hr, keeps, file⟩ := written_of_outstanding setup P init held
        (Nat.lt_succ_of_le stamped.persisted)
      have now : P t.file := always (.capture :: steps) t
        ((machine setup init).run_cons_eq_some.mpr ⟨_, captured, hr⟩)
        ((Machine.along_cons captured).mpr ⟨trivial, keeps⟩)
      rwa [file] at now
    · obtain ⟨steps, t, hr, keeps, file⟩ := written_of_outstanding setup P init mem newer
      exact file ▸ always steps t hr keeps
  · exact fun h steps t hr keeps => (h.run stamped hr keeps).file

/-! ### While nobody copies -/

/-- No copy has a stamp after `n`. -/
structure Quiet (n : Nat) (s : State α β) : Prop where
  outstanding : ∀ snapshot ∈ s.outstanding, snapshot.generation ≤ n
  locked : ∀ generation ∈ s.locked, n < generation
  generation : n ≤ s.generation

/-- `P` holds of the file, and no copy is newer than that. -/
structure Resting (P : β → Prop) (s : State α β) : Prop where
  file : P s.file
  older : ∀ snapshot ∈ s.outstanding, snapshot.generation ≤ s.persisted

theorem Quiet.of_unlocked (stamped : Stamped s) (free : s.locked = none) :
    Quiet s.generation s :=
  ⟨stamped.outstanding, fun _ locked => absurd (free.symm.trans locked) nofun, le_rfl⟩

theorem Quiet.next {n : Nat} (h : Quiet n s) (hn : Snapshots.next setup s step = some t)
    (quiet : step ≠ .capture) : Quiet n t := by
  have eff := effect hn
  refine ⟨fun snapshot mem => ?_, fun generation held => ?_, h.generation.trans eff.generation⟩
  · obtain before | ⟨captures, -⟩ := eff.outstanding snapshot mem
    · exact h.outstanding snapshot before
    · exact absurd captures quiet
  · obtain free | same | ⟨new, counted⟩ := eff.locked
    · cases free.symm.trans held
    · exact h.locked generation (same ▸ held)
    · obtain rfl := Option.some.inj (new.symm.trans held)
      exact counted ▸ Nat.lt_succ_of_le h.generation

theorem Quiet.run {n : Nat} (h : Quiet n s) (hr : (machine setup init).run s steps = some t)
    (quiet : .capture ∉ steps) : Quiet n t :=
  Machine.run_preserves_along (G := fun _ step _ => step ≠ .capture)
    (fun _ _ _ hn other h => h.next hn other)
    (Machine.along_of_forall_mem fun _ mem => ne_of_mem_of_not_mem mem quiet) hr h

theorem Quiet.edit {n : Nat} {edit : δ} (h : Quiet n s)
    (hn : Snapshots.next setup s (.edit edit .done) = some t) (made : P (setup.edit edit s.file)) :
    Resting P t := by
  obtain ⟨generation, locked, rfl⟩ := Option.map_eq_some_iff.mp hn
  exact ⟨made, fun snapshot mem =>
    (h.outstanding snapshot mem).trans (h.locked generation locked).le⟩

theorem Resting.next (h : Resting P s) (stamped : Stamped s)
    (hn : Snapshots.next setup s step = some t) (quiet : step ≠ .capture)
    (keeps : Keeps setup P s step) : Resting P t := by
  have eff := effect hn
  refine ⟨?_, fun snapshot mem => ?_⟩
  · cases eff.writes with
    | nothing file => exact file ▸ h.file
    | copy snapshot outcome held newer =>
      exact absurd (h.older snapshot held) (Nat.not_le_of_lt newer)
    | edit edit outcome generation edits locked unlocked file =>
      subst edits
      exact file ▸ write_file h.file (keeps h.file)
  · obtain before | ⟨captures, -⟩ := eff.outstanding snapshot mem
    · exact (h.older snapshot before).trans (stamped.le_persisted hn)
    · exact absurd captures quiet

theorem Resting.run (h : Resting P s) (stamped : Stamped s)
    (hr : (machine setup init).run s steps = some t) (quiet : .capture ∉ steps)
    (keeps : (machine setup init).Along (fun s step _ => Keeps setup P s step) s steps) :
    Resting P t := by
  have others : (machine setup init).Along (fun _ step _ => step ≠ .capture) s steps :=
    Machine.along_of_forall_mem fun _ mem => ne_of_mem_of_not_mem mem quiet
  have both : Stamped t ∧ Resting P t :=
    Machine.run_preserves_along (P := fun s => Stamped s ∧ Resting P s)
      (fun _ _ _ hn both h => ⟨h.1.next hn, h.2.next h.1 hn both.1 both.2⟩)
      (others.and keeps) hr ⟨stamped, h⟩
  exact both.2

theorem Resting.change {change : γ} (h : Resting P s)
    (hn : Snapshots.next setup s (.change change) = some t)
    (made : P (setup.capture (setup.change change s.source))) : Settled setup P t := by
  cases hn
  exact ⟨h.file, made, fun snapshot mem newer =>
    absurd (h.older snapshot mem) (Nat.not_le_of_lt newer)⟩

end Settled

end LlamaServerManager.Lib.Snapshots
