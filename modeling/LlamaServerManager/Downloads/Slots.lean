import LlamaServerManager.Lib.Machine
import Mathlib.Data.List.Basic
import Mathlib.Data.Nat.Basic
import Mathlib.Order.Basic

/-!
The slots of the downloads (`acquire_global_download_slot` and `GlobalDownloadSlot` of
`commands/download.rs`): a counter that is taken by compare-and-swap up to a limit that the settings
change, and waiters that are told of a slot or a setting that was changed. A step is one access to
what is shared, so a download reads, others go on, and then it acts on what it has read; the limit
itself is two reads.

* `slots_bounded` — the counter is the number of the holders, which stays within the settings;
* `slots_woken` — a download never sleeps with nobody left to wake it, nor, unless a reload raised
  a setting, beside a free slot.
-/

namespace LlamaServerManager.Downloads.Slots

open Lib

/-- Where a download is. From `enabled` on a notification is kept for it. -/
inductive Waiter where
  /-- At the head of the loop. -/
  | reads
  | readConfigured (configured : Nat)
  | readLimit (limit : Nat)
  | tries (limit active : Nat)
  | enabled (notified : Bool)
  | reloaded (notified : Bool) (active : Nat)
  | reloadedConfigured (notified : Bool) (active configured : Nat)
  | sleeps (notified : Bool)
  | holds
  /-- It has given the slot back and not told. -/
  | released
  | left
deriving DecidableEq, Repr

/-- The settings, the count of slots and the downloads that want one. An access of an
atomic is a step, so that everything else can come between two of them. -/
structure State where
  /-- `download_max_concurrent` -/
  configured : Nat
  /-- `download_low_priority_throttle` -/
  lowPriority : Bool
  /-- `download_active_file_slots` -/
  active : Nat
  downloads : List Waiter
  /-- The changes of settings that have not told. -/
  setters : Nat
  /-- History: the highest concurrency that was set. -/
  peak : Nat
  /-- History: `load_config`, which tells nobody, has raised a setting since somebody told. -/
  untold : Bool
deriving DecidableEq, Repr

def applyDownloadPriorityConcurrency (configured : Nat) (lowPriority : Bool) : Nat :=
  if lowPriority then 1 else max configured 1

/-- `effective_download_concurrency`, read at once. -/
def State.effective (s : State) : Nat :=
  applyDownloadPriorityConcurrency (max s.configured 1) s.lowPriority

/-- `notify_waiters` reaches who is enabled, asleep or not. -/
def Waiter.told : Waiter → Waiter
  | .enabled _ => .enabled true
  | .reloaded _ active => .reloaded true active
  | .reloadedConfigured _ active configured => .reloadedConfigured true active configured
  | .sleeps _ => .sleeps true
  | other => other

def State.move (s : State) (index : Nat) (into : Waiter) : State :=
  { s with downloads := s.downloads.set index into }

def State.notifyWaiters (s : State) : State :=
  { s with downloads := s.downloads.map Waiter.told, untold := false }

/-- The mutexes of the two settings are set one by one. -/
inductive Setting where
  | concurrency (configured : Nat)
  | lowPriority (enabled : Bool)
deriving DecidableEq, Repr

def State.apply (s : State) : Setting → State
  | .concurrency configured => { s with configured, peak := max s.peak configured }
  | .lowPriority enabled => { s with lowPriority := enabled }

def Setting.raises (s : State) : Setting → Bool
  | .concurrency configured => s.configured < configured
  | .lowPriority enabled => s.lowPriority && !enabled

/-- What `load_config` makes of a setting. -/
def Setting.loaded : Setting → Setting
  | .concurrency configured => .concurrency (max configured 1)
  | .lowPriority enabled => .lowPriority enabled

/-- What `set_download_concurrency` lets pass. -/
def Setting.valid : Setting → Bool
  | .concurrency configured => 1 ≤ configured && configured ≤ 8
  | .lowPriority _ => true

inductive Step where
  | arrive
  /-- The next access of a download; a weak compare-and-swap may fail for no reason. -/
  | go (index : Nat) (spurious : Bool)
  | set (setting : Setting)
  | tell
  /-- One store of `load_config`. -/
  | load (setting : Setting)
deriving DecidableEq, Repr

def next (s : State) : Step → Option State
  | .arrive => some { s with downloads := s.downloads ++ [.reads] }
  | .go index spurious =>
    match s.downloads[index]? with
    | some .reads => some (s.move index (.readConfigured (max s.configured 1)))
    | some (.readConfigured configured) =>
      some (s.move index
        (.readLimit (applyDownloadPriorityConcurrency configured s.lowPriority)))
    | some (.readLimit limit) => some (s.move index (.tries limit s.active))
    | some (.tries limit active) =>
      if active < limit then
        if s.active = active ∧ spurious = false then
          some { s.move index .holds with active := s.active + 1 }
        else some (s.move index (.tries limit s.active))
      else some (s.move index (.enabled false))
    | some (.enabled notified) => some (s.move index (.reloaded notified s.active))
    | some (.reloaded notified active) =>
      some (s.move index (.reloadedConfigured notified active (max s.configured 1)))
    | some (.reloadedConfigured notified active configured) =>
      if applyDownloadPriorityConcurrency configured s.lowPriority ≤ active then
        some (s.move index (.sleeps notified))
      else some (s.move index .reads)
    | some (.sleeps notified) => if notified then some (s.move index .reads) else none
    | some .holds => some { s.move index .released with active := s.active - 1 }
    | some .released => some (s.move index .left).notifyWaiters
    | _ => none
  | .set setting =>
    if setting.valid then some { s.apply setting with setters := s.setters + 1 } else none
  | .tell =>
    if s.setters = 0 then none else some { s with setters := s.setters - 1 }.notifyWaiters
  | .load setting =>
    some { s.apply setting.loaded with untold := s.untold || setting.loaded.raises s }

/-- `main` makes the configured concurrency at least one. -/
def start (configured : Nat) (lowPriority : Bool) : State :=
  ⟨max configured 1, lowPriority, 0, [], 0, max configured 1, false⟩

def machine (configured : Nat) (lowPriority : Bool) : Machine State Step where
  init := start configured lowPriority
  next := next

/-! ### Counting -/

def isHolder (waiter : Waiter) : Bool := waiter = .holds

def isReleased (waiter : Waiter) : Bool := waiter = .released

/-- Who is about to tell. -/
def State.tellers (s : State) : Nat := s.setters + s.downloads.countP isReleased

theorem countP_set (p : Waiter → Bool) (into : Waiter) {downloads : List Waiter} {index : Nat}
    {from_ : Waiter} (found : downloads[index]? = some from_) :
    (downloads.set index into).countP p + (if p from_ then 1 else 0) =
      downloads.countP p + (if p into then 1 else 0) := by
  obtain ⟨bound, rfl⟩ := List.getElem?_eq_some_iff.mp found
  have known := List.boole_getElem_le_countP (p := p) bound
  rw [List.countP_set bound]
  omega

theorem countP_told {p : Waiter → Bool} (same : ∀ waiter, p waiter.told = p waiter)
    (downloads : List Waiter) : (downloads.map Waiter.told).countP p = downloads.countP p := by
  rw [List.countP_map]
  exact List.countP_congr fun waiter _ => by rw [Function.comp_apply, same]

theorem isHolder_told (waiter : Waiter) : isHolder waiter.told = isHolder waiter := by
  cases waiter <;> rfl

/-! ### The limit -/

theorem limit_pos (configured : Nat) (lowPriority : Bool) :
    0 < applyDownloadPriorityConcurrency configured lowPriority := by
  unfold applyDownloadPriorityConcurrency
  split <;> omega

theorem limit_le {configured bound : Nat} (lowPriority : Bool) (pos : 0 < bound)
    (le : configured ≤ bound) :
    applyDownloadPriorityConcurrency configured lowPriority ≤ bound := by
  unfold applyDownloadPriorityConcurrency
  split <;> omega

theorem limit_mono {configured bound : Nat} (lowPriority : Bool) (le : configured ≤ bound) :
    applyDownloadPriorityConcurrency configured lowPriority ≤
      applyDownloadPriorityConcurrency bound lowPriority := by
  unfold applyDownloadPriorityConcurrency
  split <;> omega

/-! ### The invariant -/

/-- What a download knows that was not told. -/
def Waiter.Knows (s : State) : Waiter → Prop
  | .readConfigured configured => configured ≤ s.peak
  | .readLimit limit => limit ≤ s.peak
  | .tries limit _ => limit ≤ s.peak
  | .reloaded false active => active ≤ s.active ∨ 0 < s.tellers
  | .reloadedConfigured false active configured =>
    (active ≤ s.active ∨ 0 < s.tellers) ∧
      (max s.configured 1 ≤ configured ∨ 0 < s.tellers ∨ s.untold = true)
  | .sleeps false =>
    (0 < s.active ∨ 0 < s.tellers) ∧
      (s.effective ≤ s.active ∨ 0 < s.tellers ∨ s.untold = true)
  | _ => True

structure Safe (s : State) : Prop where
  counted : s.active = s.downloads.countP isHolder
  bounded : s.active ≤ s.peak
  limited : max s.configured 1 ≤ s.peak
  known : ∀ waiter ∈ s.downloads, waiter.Knows s

/-- A step after which those who were not told know what they knew. -/
structure Keeps (s t : State) : Prop where
  peak : s.peak ≤ t.peak
  telling : 0 < s.tellers → 0 < t.tellers
  active : s.active ≤ t.active ∨ 0 < t.tellers
  settings : (max t.configured 1 ≤ max s.configured 1 ∧ t.effective ≤ s.effective) ∨
    0 < t.tellers ∨ t.untold = true
  untold : s.untold = true → t.untold = true

section Steps

variable {s t : State} {index : Nat} {from_ into waiter : Waiter} {setting : Setting}

theorem Waiter.Knows.keep (h : waiter.Knows s) (keeps : Keeps s t) : waiter.Knows t := by
  have := keeps.telling
  have := keeps.active
  have := keeps.untold
  cases waiter with
  | readConfigured configured => exact Nat.le_trans h keeps.peak
  | readLimit limit => exact Nat.le_trans h keeps.peak
  | tries limit active => exact Nat.le_trans h keeps.peak
  | reloaded notified active =>
    cases notified <;> simp only [Waiter.Knows] at h ⊢
    omega
  | reloadedConfigured notified active configured =>
    cases notified <;> simp only [Waiter.Knows] at h ⊢
    refine ⟨by omega, ?_⟩
    rcases h.2 with low | tells | raised
    · rcases keeps.settings with ⟨lower, -⟩ | other
      · exact Or.inl (Nat.le_trans lower low)
      · exact Or.inr other
    · exact Or.inr (Or.inl (keeps.telling tells))
    · exact Or.inr (Or.inr (keeps.untold raised))
  | sleeps notified =>
    cases notified <;> simp only [Waiter.Knows] at h ⊢
    refine ⟨by omega, ?_⟩
    rcases h.2 with full | tells | raised
    · rcases keeps.settings with ⟨-, lower⟩ | other
      · rcases keeps.active with more | tells
        · exact Or.inl (Nat.le_trans lower (Nat.le_trans full more))
        · exact Or.inr (Or.inl tells)
      · exact Or.inr other
    · exact Or.inr (Or.inl (keeps.telling tells))
    · exact Or.inr (Or.inr (keeps.untold raised))
  | _ => trivial

/-- After a notification nobody waits who was not told. -/
theorem Waiter.Knows.told (h : waiter.Knows s) (peak : s.peak ≤ t.peak) :
    waiter.told.Knows t := by
  cases waiter with
  | readConfigured configured => exact Nat.le_trans h peak
  | readLimit limit => exact Nat.le_trans h peak
  | tries limit active => exact Nat.le_trans h peak
  | _ => trivial

/-- The one that tells may leave and the one that set a setting is done. -/
theorem Safe.notifyWaiters (h : Safe s) (counted : s.active = t.downloads.countP isHolder)
    (same : t.active = s.active ∧ t.peak = s.peak ∧ t.configured = s.configured)
    (downloads : ∀ waiter ∈ t.downloads, waiter ∈ s.downloads ∨ waiter = .left) :
    Safe t.notifyWaiters := by
  obtain ⟨active, peak, configured⟩ := same
  refine ⟨?_, ?_, ?_, fun waiter mem => ?_⟩
  · calc t.active = t.downloads.countP isHolder := active.trans counted
      _ = (t.downloads.map Waiter.told).countP isHolder := (countP_told isHolder_told _).symm
  · show t.active ≤ t.peak
    rw [active, peak]
    exact h.bounded
  · show max t.configured 1 ≤ t.peak
    rw [configured, peak]
    exact h.limited
  · obtain ⟨before, known, rfl⟩ := List.mem_map.mp mem
    rcases downloads before known with old | rfl
    · exact (h.known before old).told (Nat.le_of_eq peak.symm)
    · trivial

/-- A change that leaves the downloads as they are. -/
theorem Safe.keep (h : Safe s) (keeps : Keeps s t) (downloads : t.downloads = s.downloads)
    (active : t.active = s.active) (limited : max t.configured 1 ≤ t.peak) : Safe t := by
  refine ⟨?_, ?_, limited, fun waiter mem => ?_⟩
  · rw [active, downloads]
    exact h.counted
  · rw [active]
    exact Nat.le_trans h.bounded keeps.peak
  · rw [downloads] at mem
    exact (h.known waiter mem).keep keeps

/-- One download goes on, and the counter follows it. -/
theorem Safe.step (h : Safe s) (keeps : Keeps s t) (found : s.downloads[index]? = some from_)
    (downloads : t.downloads = s.downloads.set index into)
    (counted : t.active + (if isHolder from_ then 1 else 0) =
      s.active + (if isHolder into then 1 else 0))
    (bounded : t.active ≤ t.peak) (limited : max t.configured 1 ≤ t.peak)
    (knows : into.Knows t) : Safe t := by
  have count := countP_set isHolder into found
  have before := h.counted
  refine ⟨?_, bounded, limited, fun waiter mem => ?_⟩
  · rw [downloads]
    omega
  · rw [downloads] at mem
    rcases List.mem_or_eq_of_mem_set mem with old | rfl
    · exact (h.known waiter old).keep keeps
    · exact knows

theorem keeps_move (into : Waiter) (found : s.downloads[index]? = some from_)
    (kept : isReleased from_ = false) : Keeps s (s.move index into) := by
  have count := countP_set isReleased into found
  rw [kept] at count
  refine ⟨le_rfl, fun tells => ?_, Or.inl le_rfl, Or.inl ⟨le_rfl, le_rfl⟩, id⟩
  unfold State.tellers State.move
  simp only [Bool.false_eq_true, if_false, State.tellers] at count tells ⊢
  omega

/-- A download goes on that neither takes a slot nor gives one back. -/
theorem Safe.move (h : Safe s) (found : s.downloads[index]? = some from_)
    (holder : isHolder into = isHolder from_) (kept : isReleased from_ = false)
    (knows : into.Knows (s.move index into)) : Safe (s.move index into) :=
  h.step (keeps_move into found kept) found rfl (by rw [holder]; rfl) h.bounded h.limited knows

theorem Safe.go {spurious : Bool} (h : Safe s)
    (hn : Slots.next s (.go index spurious) = some t) : Safe t := by
  simp only [Slots.next] at hn
  cases found : s.downloads[index]? with
  | none => simp [found] at hn
  | some waiter =>
    have knows := h.known waiter (List.mem_of_getElem? found)
    rw [found] at hn
    cases waiter with
    | reads =>
      cases hn
      exact h.move found rfl rfl h.limited
    | readConfigured configured =>
      cases hn
      have pos : 0 < s.peak := Nat.lt_of_lt_of_le (Nat.lt_of_lt_of_le Nat.one_pos
        (Nat.le_max_right _ _)) h.limited
      exact h.move found rfl rfl (limit_le s.lowPriority pos knows)
    | readLimit limit =>
      cases hn
      exact h.move found rfl rfl knows
    | tries limit active =>
      simp only at hn
      split at hn
      · next less =>
        split at hn
        · next swapped =>
          cases hn
          obtain ⟨rfl, -⟩ := swapped
          have keeps := keeps_move .holds found rfl
          exact h.step ⟨keeps.peak, keeps.telling, Or.inl (Nat.le_succ _), keeps.settings,
            keeps.untold⟩ found rfl rfl (Nat.le_trans less knows) h.limited trivial
        · cases hn
          exact h.move found rfl rfl knows
      · cases hn
        exact h.move found rfl rfl trivial
    | enabled notified =>
      cases hn
      refine h.move found rfl rfl ?_
      cases notified with
      | false => exact Or.inl le_rfl
      | true => trivial
    | reloaded notified active =>
      cases hn
      have keeps := keeps_move (.reloadedConfigured notified active (max s.configured 1))
        found rfl
      refine h.move found rfl rfl ?_
      cases notified with
      | false => exact ⟨Or.imp_right keeps.telling knows, Or.inl le_rfl⟩
      | true => trivial
    | reloadedConfigured notified active configured =>
      simp only at hn
      split at hn
      · next full =>
        cases hn
        have keeps := keeps_move (.sleeps notified) found rfl
        refine h.move found rfl rfl ?_
        cases notified with
        | false =>
          have some_ := Nat.lt_of_lt_of_le (limit_pos configured s.lowPriority) full
          obtain ⟨active_, configured_⟩ := knows
          refine ⟨active_.imp (Nat.lt_of_lt_of_le some_) keeps.telling, ?_⟩
          rcases active_ with active_ | tells
          · exact configured_.imp
              (fun le => Nat.le_trans (limit_mono s.lowPriority le) (Nat.le_trans full active_))
              (Or.imp_left keeps.telling)
          · exact Or.inr (Or.inl (keeps.telling tells))
        | true => trivial
      · cases hn
        exact h.move found rfl rfl trivial
    | sleeps notified =>
      cases notified with
      | false => cases hn
      | true =>
        cases hn
        exact h.move found rfl rfl trivial
    | holds =>
      cases hn
      have keeps := keeps_move .released found rfl
      have releases : (s.downloads.set index .released).countP isReleased + 0 = _ + 1 :=
        countP_set isReleased .released found
      have holders : (s.downloads.set index .released).countP isHolder + 1 = _ + 0 :=
        countP_set isHolder .released found
      have counted := h.counted
      have tells : 0 < (s.move index .released).tellers := by
        show 0 < s.setters + (s.downloads.set index .released).countP isReleased
        omega
      refine h.step ⟨keeps.peak, fun _ => tells, Or.inr tells, keeps.settings, keeps.untold⟩ found
        rfl ?_ (Nat.le_trans (Nat.sub_le _ _) h.bounded) h.limited trivial
      show s.active - 1 + 1 = s.active + 0
      omega
    | released =>
      cases hn
      have count := countP_set isHolder .left found
      refine h.notifyWaiters (h.counted.trans count.symm) ⟨rfl, rfl, rfl⟩ fun waiter mem => ?_
      exact List.mem_or_eq_of_mem_set mem
    | left => cases hn

@[simp] theorem apply_downloads : (s.apply setting).downloads = s.downloads := by
  cases setting <;> rfl

@[simp] theorem apply_active : (s.apply setting).active = s.active := by
  cases setting <;> rfl

@[simp] theorem apply_setters : (s.apply setting).setters = s.setters := by
  cases setting <;> rfl

@[simp] theorem apply_untold : (s.apply setting).untold = s.untold := by
  cases setting <;> rfl

theorem keeps_apply (lower : setting.raises s = true → 0 < t.tellers ∨ t.untold = true)
    (telling : 0 < s.tellers → 0 < t.tellers) (untold : s.untold = true → t.untold = true)
    (same : t.active = s.active ∧ t.peak = (s.apply setting).peak ∧
      t.configured = (s.apply setting).configured ∧ t.lowPriority = (s.apply setting).lowPriority) :
    Keeps s t := by
  obtain ⟨active, peak, configured, lowPriority⟩ := same
  refine ⟨?_, telling, Or.inl (Nat.le_of_eq active.symm), ?_, untold⟩
  · rw [peak]
    cases setting with
    | concurrency n => exact Nat.le_max_left _ _
    | lowPriority enabled => exact le_rfl
  · cases raises : setting.raises s with
    | true => exact Or.inr (lower raises)
    | false =>
      refine Or.inl ?_
      unfold State.effective
      rw [configured, lowPriority]
      cases setting with
      | concurrency n =>
        simp only [Setting.raises, decide_eq_false_iff_not, Nat.not_lt] at raises
        have le : max n 1 ≤ max s.configured 1 := by omega
        exact ⟨le, limit_mono s.lowPriority le⟩
      | lowPriority enabled =>
        refine ⟨le_rfl, ?_⟩
        simp only [State.apply]
        cases enabled with
        | true => exact limit_pos _ _
        | false =>
          simp only [Setting.raises, Bool.not_false, Bool.and_true] at raises
          rw [raises]

theorem limited_apply (h : Safe s) (positive : setting.loaded = setting) :
    max (s.apply setting).configured 1 ≤ (s.apply setting).peak := by
  have limited := h.limited
  cases setting with
  | concurrency n =>
    simp only [Setting.loaded, Setting.concurrency.injEq] at positive
    simp only [State.apply]
    omega
  | lowPriority enabled => exact limited

theorem Setting.loaded_of_valid (valid : setting.valid = true) : setting.loaded = setting := by
  cases setting with
  | concurrency n =>
    simp only [Setting.valid, Bool.and_eq_true, decide_eq_true_eq] at valid
    rw [Setting.loaded, Nat.max_eq_left valid.1]
  | lowPriority enabled => rfl

theorem Setting.loaded_loaded : setting.loaded.loaded = setting.loaded := by
  cases setting with
  | concurrency n => rw [Setting.loaded, Setting.loaded, Nat.max_assoc, Nat.max_self]
  | lowPriority enabled => rfl

theorem Safe.next {step : Step} (h : Safe s) (hn : Slots.next s step = some t) : Safe t := by
  cases step with
  | go index spurious => exact h.go hn
  | arrive =>
    cases hn
    have telling :
        s.tellers = State.tellers { s with downloads := s.downloads ++ [Waiter.reads] } := by
      unfold State.tellers
      rw [List.countP_append]
      rfl
    refine ⟨?_, h.bounded, h.limited, fun waiter mem => ?_⟩
    · show s.active = (s.downloads ++ [Waiter.reads]).countP isHolder
      rw [List.countP_append]
      exact h.counted
    · rcases List.mem_append.mp mem with old | new
      · exact (h.known waiter old).keep ⟨le_rfl, fun tells => telling ▸ tells, Or.inl le_rfl,
          Or.inl ⟨le_rfl, le_rfl⟩, id⟩
      · rw [List.mem_singleton.mp new]
        trivial
  | set setting =>
    simp only [Slots.next, Option.ite_none_right_eq_some, Option.some.injEq] at hn
    obtain ⟨valid, rfl⟩ := hn
    have tells : 0 < State.tellers { s.apply setting with setters := s.setters + 1 } :=
      Nat.lt_of_lt_of_le (Nat.succ_pos s.setters) (Nat.le_add_right _ _)
    exact h.keep (keeps_apply (fun _ => Or.inl tells) (fun _ => tells) (apply_untold ▸ id)
      ⟨apply_active, rfl, rfl, rfl⟩) apply_downloads apply_active
      (limited_apply h (Setting.loaded_of_valid valid))
  | tell =>
    simp only [Slots.next, Option.ite_none_left_eq_some, Option.some.injEq] at hn
    obtain ⟨-, rfl⟩ := hn
    exact h.notifyWaiters h.counted ⟨rfl, rfl, rfl⟩ fun waiter mem => Or.inl mem
  | load setting =>
    cases hn
    have telling : s.tellers = (s.apply setting.loaded).tellers := by
      unfold State.tellers
      rw [apply_setters, apply_downloads]
    exact h.keep (keeps_apply (fun raises => Or.inr (Bool.or_eq_true_iff.mpr (Or.inr raises)))
      (fun tells => telling ▸ tells) (fun untold => Bool.or_eq_true_iff.mpr (Or.inl untold))
      ⟨apply_active, rfl, rfl, rfl⟩) apply_downloads apply_active
      (limited_apply h Setting.loaded_loaded)

end Steps

/-! ### Runs -/

section Runs

variable {configured : Nat} {lowPriority : Bool} {s : State}

theorem safe_start : Safe (start configured lowPriority) :=
  ⟨rfl, Nat.zero_le _, Nat.max_le.mpr ⟨le_rfl, Nat.le_max_right _ _⟩, nofun⟩

theorem safe (reached : (machine configured lowPriority).Reachable s) : Safe s :=
  reached.invariant safe_start fun _ _ _ hn h => h.next hn

/-- **The counter is the number of the downloads that hold a slot, and there are never
more of these than the highest concurrency that was set so far.** The concurrency may be
lowered while downloads run: those that hold a slot go on, and no other starts until
there is room again. -/
theorem slots_bounded (s : State) (reached : (machine configured lowPriority).Reachable s) :
    s.active = s.downloads.countP isHolder ∧ s.downloads.countP isHolder ≤ s.peak := by
  have h := safe reached
  exact ⟨h.counted, h.counted ▸ h.bounded⟩

/-- The second download, which has read a free slot, loses it to the first and falls asleep. -/
def contended : List Step :=
  [.arrive, .arrive] ++ List.replicate 3 (.go 1 false) ++ List.replicate 4 (.go 0 false) ++
    List.replicate 5 (.go 1 false)

theorem contended_bounded :
    ∃ s, (machine 1 false).run (start 1 false) contended = some s ∧
      s.downloads = [.holds, .sleeps false] ∧ s.active = s.downloads.countP isHolder ∧
      s.downloads.countP isHolder ≤ s.peak :=
  ⟨_, rfl, rfl, @slots_bounded 1 false _ ⟨contended, rfl⟩⟩

theorem exists_of_countP {p : Waiter → Bool} {downloads : List Waiter}
    (some_ : 0 < downloads.countP p) :
    ∃ (index : Nat) (waiter : Waiter), downloads[index]? = some waiter ∧ p waiter = true := by
  obtain ⟨waiter, mem, held⟩ := List.countP_pos_iff.mp some_
  obtain ⟨index, found⟩ := List.mem_iff_getElem?.mp mem
  exact ⟨index, waiter, found, held⟩

theorem exists_teller (tells : 0 < s.tellers) :
    0 < s.setters ∨ ∃ other : Nat, s.downloads[other]? = some Waiter.released := by
  rcases Nat.eq_zero_or_pos s.setters with none | some_
  · have released : 0 < s.downloads.countP isReleased := by
      unfold State.tellers at tells
      omega
    obtain ⟨other, waiter, found, given⟩ := exists_of_countP released
    rw [of_decide_eq_true given] at found
    exact Or.inr ⟨other, found⟩
  · exact Or.inl some_

/-- **A download that sleeps and was not told is never left alone: a slot is held, or somebody is
about to tell; and beside a slot that is free for it somebody is about to tell, or a reload of the
configuration has raised a setting.** -/
theorem slots_woken (s : State) (reached : (machine configured lowPriority).Reachable s)
    (asleep : Waiter.sleeps false ∈ s.downloads) :
    ((∃ other : Nat, s.downloads[other]? = some Waiter.holds ∨
        s.downloads[other]? = some Waiter.released) ∨ 0 < s.setters) ∧
      (s.active < s.effective → 0 < s.setters ∨
        (∃ other : Nat, s.downloads[other]? = some Waiter.released) ∨ s.untold = true) := by
  have h := safe reached
  obtain ⟨someone, full⟩ := h.known _ asleep
  constructor
  · rcases someone with active | tells
    · rw [h.counted] at active
      obtain ⟨other, waiter, found, holder⟩ := exists_of_countP active
      rw [of_decide_eq_true holder] at found
      exact Or.inl ⟨other, Or.inl found⟩
    · rcases exists_teller tells with tells | ⟨other, found⟩
      · exact Or.inr tells
      · exact Or.inl ⟨other, Or.inr found⟩
  · intro free
    rcases full with full | tells | raised
    · exact absurd full (Nat.not_le.mpr free)
    · exact (exists_teller tells).imp_right Or.inl
    · exact Or.inr (Or.inr raised)

/-- The configuration is loaded with a higher concurrency: nobody tells the one that sleeps. -/
theorem contended_reload :
    ∃ s, (machine 1 false).run (start 1 false) (contended ++ [.load (.concurrency 2)]) = some s ∧
      s.active < s.effective ∧ s.setters = 0 ∧ s.untold = true := by
  refine ⟨_, rfl, ?_⟩
  have woken := (@slots_woken 1 false _
    ⟨contended ++ [.load (.concurrency 2)], rfl⟩ (by decide)).2 (by decide)
  refine ⟨by decide, rfl, ?_⟩
  rcases woken with setters | ⟨other, released⟩ | untold
  · cases setters
  · exact absurd (List.mem_of_getElem? released) (by decide)
  · exact untold

end Runs

end LlamaServerManager.Downloads.Slots
