import LlamaServerManager.Downloads.Agreement

/-!
What survives of the ownership of downloads when the process dies at any step
and other programs change files between the operations.

Two things can go wrong. `claim` and `open_partial` create a file before the
ledger names it, so a crash in between leaves a file the task does not own and
cannot replace. `replace` records the identity of its source without asking who
created it, so a file another program has put there becomes the task's.
`Step.Accountable` leaves out exactly these steps. In every run without them the
ledger and the directory agree (`Accounted`), and from that agreement follow the
three properties of `ownership_recovers`.
-/

namespace LlamaServerManager.Downloads

open Lib
open Lib.Prog (view effect lift require raise attempt crashAt)

variable {d e : Disk} {task : Task} {path : Entry} {references : References}
  {crash : Option Nat}

/-- What `claim` leaves when it does not die between a creation and what accounts
for it. -/
inductive Claimed (d : Disk) (task : Task) (temp metadata : Entry) : Disk → Prop where
  | unchanged : Claimed d task temp metadata d
  | temp : d.dir temp = none → Claimed d task temp metadata (d.adopt task temp)
  | metadata : d.dir metadata = none → Claimed d task temp metadata (d.adopt task metadata)
  | both : d.dir temp = none → (d.adopt task temp).dir metadata = none →
      Claimed d task temp metadata ((d.adopt task temp).adopt task metadata)
  | isolated : Claimed d task temp metadata
      (d.create (some task) (.scratch d.nextScratch) []).drawScratch
  | undone : Claimed d task temp metadata
      ((d.create (some task) (.scratch d.nextScratch) []).drawScratch.unlink
        (.scratch d.nextScratch))

/-- One of the task's files is there and the ledger has not heard of it. -/
def Disk.Orphans (d : Disk) (paths : List Entry) (e : Disk) : Prop :=
  e.ledger = d.ledger ∧
    ∃ path ∈ paths, ∃ file, e.dir path = some file ∧ file.identity = d.nextIdentity

theorem orphans_create (task : Option Task) {paths : List Entry} (mem : path ∈ paths) :
    d.Orphans paths (d.create task path []) :=
  ⟨rfl, path, mem, ⟨d.nextIdentity, []⟩, (Disk.create_dir ..).trans (if_pos rfl), rfl⟩

section

variable {finalPath temp metadata : Entry}

theorem claimCreates_owned (admits : d.Admits references task finalPath)
    (temp_ : d.owns task temp) :
    d.claimCreates references task finalPath temp metadata =
      if (d.dir metadata).isSome then 0 else 1 := by
  obtain ⟨_, file, _, found, _⟩ := owns_iff.mp temp_
  unfold Disk.claimCreates
  rw [if_neg, if_pos]
  · rw [found]
    rfl
  · rintro (unchecked | occupied | occupied)
    · exact unchecked admits.1
    · exact occupied admits.2
    · exact occupied fun _ => temp_

theorem claimCreates_absent (admits : d.Admits references task finalPath)
    (absent : d.dir temp = none) :
    d.claimCreates references task finalPath temp metadata =
      if ((d.create (some task) temp []).dir metadata).isSome then 1 else 2 := by
  unfold Disk.claimCreates
  rw [if_neg, if_neg, Disk.create_dir]
  · by_cases same : metadata = temp
    · simp [same]
    · simp [same]
  · rw [absent]
    exact Bool.false_ne_true
  · rintro (unchecked | occupied | occupied)
    · exact unchecked admits.1
    · exact occupied admits.2
    · refine occupied fun present => ?_
      rw [absent] at present
      cases present

theorem claimCreates_refused
    (refused : ¬ d.Admits references task finalPath ∨ ¬ d.Free task temp) :
    d.claimCreates references task finalPath temp metadata = 0 := by
  unfold Disk.claimCreates
  rw [if_pos]
  obtain refused | occupied := refused
  · rw [Disk.Admits, not_and_or] at refused
    exact refused.imp_right .inl
  · exact .inr (.inr occupied)

/-- The process does not die after the first of `n` creations and before what
accounts for the last. -/
def InTime (crash : Option Nat) (n : Nat) : Prop := ∀ k, crash = some k → 0 < k → n < k

theorem inTime_zero : InTime crash 0 := fun _ _ pos => pos

theorem inTime_of_unstarted {n : Nat} (unstarted : crash = some 0) : InTime crash n := by
  intro k died pos
  cases unstarted.symm.trans died
  exact absurd pos (Nat.lt_irrefl 0)

theorem not_inTime {n k : Nat} (died : crash = some k) (pos : 0 < k) (within : k ≤ n) :
    ¬ InTime crash n :=
  fun inTime => absurd (inTime k died pos) (Nat.not_lt_of_le within)

/-- `claim` has stopped in time, or with an orphan. -/
def Stopped (references : References) (task : Task) (finalPath temp metadata : Entry)
    (crash : Option Nat) (d e : Disk) : Prop :=
  let creates := d.claimCreates references task finalPath temp metadata
  InTime crash creates ∧ Claimed d task temp metadata e ∨
    ¬ InTime crash creates ∧ d.Orphans [temp, metadata] e

theorem claim_stopped_absent (admits : d.Admits references task finalPath)
    (absent : d.dir temp = none) :
    Stopped references task finalPath temp metadata crash d
      ((claim references task finalPath temp metadata).final (crashAt crash) d) := by
  unfold Stopped
  rw [claimCreates_absent admits absent]
  by_cases there : ((d.create (some task) temp []).dir metadata).isSome
  · rw [if_pos there]
    by_cases owned : (d.create (some task) temp []).owns task metadata
    · have run := claim_absent_owned crash admits absent owned
      by_cases zero : crash = some 0
      · rw [if_pos zero] at run
        rw [final_eq run]
        exact .inl ⟨inTime_of_unstarted zero, .unchanged⟩
      rw [if_neg zero] at run
      by_cases one : crash = some 1
      · rw [if_pos one] at run
        rw [final_eq run]
        exact .inr ⟨not_inTime one Nat.one_pos (Nat.le_refl 1),
          orphans_create (some task) List.mem_cons_self⟩
      · rw [if_neg one] at run
        rw [final_eq run]
        refine .inl ⟨?_, .temp absent⟩
        intro k died pos
        have apart : k ≠ 1 := fun same => one (same ▸ died)
        omega
    · have foreign : ¬ (d.create (some task) temp []).Free task metadata :=
        fun free => owned (free there)
      obtain ⟨error, run⟩ := claim_absent_foreign crash admits absent foreign
      by_cases zero : crash = some 0
      · rw [if_pos zero] at run
        rw [final_eq run]
        exact .inl ⟨inTime_of_unstarted zero, .unchanged⟩
      rw [if_neg zero] at run
      by_cases one : crash = some 1
      · rw [if_pos one] at run
        rw [final_eq run]
        exact .inr ⟨not_inTime one Nat.one_pos (Nat.le_refl 1),
          orphans_create (some task) List.mem_cons_self⟩
      rw [if_neg one, isolate_create absent] at run
      have inTime : InTime crash 1 := by
        intro k died pos
        have apart : k ≠ 1 := fun same => one (same ▸ died)
        omega
      by_cases two : crash = some 2
      · rw [if_pos two] at run
        rw [final_eq run]
        exact .inl ⟨inTime, .isolated⟩
      · rw [if_neg two] at run
        rw [final_eq run]
        exact .inl ⟨inTime, .undone⟩
  · have absent_ := Option.not_isSome_iff_eq_none.mp there
    rw [if_neg there]
    have run := claim_absent_absent crash admits absent absent_
    dsimp only at run
    by_cases zero : crash = some 0
    · rw [if_pos zero] at run
      rw [final_eq run]
      exact .inl ⟨inTime_of_unstarted zero, .unchanged⟩
    rw [if_neg zero] at run
    by_cases one : crash = some 1
    · rw [if_pos one] at run
      rw [final_eq run]
      exact .inr ⟨not_inTime one Nat.one_pos (Nat.le_succ 1),
        orphans_create (some task) List.mem_cons_self⟩
    rw [if_neg one] at run
    by_cases two : crash = some 2
    · rw [if_pos two] at run
      rw [final_eq run]
      refine .inr ⟨not_inTime two Nat.two_pos (Nat.le_refl 2), rfl, temp, List.mem_cons_self,
        ⟨d.nextIdentity, []⟩, ?_, rfl⟩
      rw [Disk.create_dir, if_neg, Disk.create_dir, if_pos rfl]
      rintro rfl
      rw [Disk.create_dir, if_pos rfl] at absent_
      cases absent_
    · rw [if_neg two] at run
      rw [final_eq run]
      refine .inl ⟨?_, .both absent absent_⟩
      intro k died pos
      have first : k ≠ 1 := fun same => one (same ▸ died)
      have second : k ≠ 2 := fun same => two (same ▸ died)
      omega

theorem claim_stopped_present (admits : d.Admits references task finalPath)
    (absent : ¬ d.dir temp = none) :
    Stopped references task finalPath temp metadata crash d
      ((claim references task finalPath temp metadata).final (crashAt crash) d) := by
  unfold Stopped
  have present : (d.dir temp).isSome := Option.ne_none_iff_isSome.mp absent
  by_cases owned : d.owns task temp
  swap
  · have occupied : ¬ d.Free task temp := fun free => owned (free present)
    obtain ⟨error, run⟩ := claim_foreign_temp metadata crash admits occupied
    rw [final_eq run, claimCreates_refused (.inr occupied)]
    exact .inl ⟨inTime_zero, .unchanged⟩
  rw [claimCreates_owned admits owned]
  by_cases there : (d.dir metadata).isSome
  · rw [if_pos there]
    by_cases owned_ : d.owns task metadata
    · have run := claim_owned_owned crash admits owned owned_
      have same : (claim references task finalPath temp metadata).final (crashAt crash) d = d := by
        unfold Prog.final
        rw [run]
        split_ifs <;> rfl
      rw [same]
      exact .inl ⟨inTime_zero, .unchanged⟩
    · obtain ⟨error, run⟩ := claim_owned_foreign crash admits owned
        fun free => owned_ (free there)
      rw [final_eq run]
      exact .inl ⟨inTime_zero, .unchanged⟩
  · have absent_ := Option.not_isSome_iff_eq_none.mp there
    rw [if_neg there]
    have run := claim_owned_absent crash admits owned absent_
    by_cases zero : crash = some 0
    · rw [if_pos zero] at run
      rw [final_eq run]
      exact .inl ⟨inTime_of_unstarted zero, .unchanged⟩
    rw [if_neg zero] at run
    by_cases one : crash = some 1
    · rw [if_pos one] at run
      rw [final_eq run]
      exact .inr ⟨not_inTime one Nat.one_pos (Nat.le_refl 1),
        orphans_create (some task) (List.mem_cons_of_mem _ (List.mem_singleton_self _))⟩
    · rw [if_neg one] at run
      rw [final_eq run]
      refine .inl ⟨?_, .metadata absent_⟩
      intro k died pos
      have apart : k ≠ 1 := fun same => one (same ▸ died)
      omega

/-- **`claim` stopped anywhere**: in time, or with an orphan. -/
theorem claim_stopped (references : References) (task : Task) (finalPath temp metadata : Entry)
    (crash : Option Nat) :
    Stopped references task finalPath temp metadata crash d
      ((claim references task finalPath temp metadata).final (crashAt crash) d) := by
  by_cases admits : d.Admits references task finalPath
  swap
  · obtain ⟨error, run⟩ := claim_refuses temp metadata crash admits
    unfold Stopped
    rw [final_eq run, claimCreates_refused (.inl admits)]
    exact .inl ⟨inTime_zero, .unchanged⟩
  by_cases absent : d.dir temp = none
  · exact claim_stopped_absent admits absent
  · exact claim_stopped_present admits absent

/-! ### Claiming again -/

/-- `claim` succeeds when nothing stops it. -/
def Disk.Grants (d : Disk) (references : References) (task : Task)
    (finalPath temp metadata : Entry) : Prop :=
  (claim references task finalPath temp metadata).ended (crashAt none) d = .returned ()

theorem ended_eq {α : Type} {x : Own α} {fates : Nat → Fate} {ended : Ended String α} {n : Nat}
    (run : x fates 0 d = (ended, n, e)) : x.ended fates d = ended := by
  unfold Prog.ended
  rw [run]

theorem not_grants {n : Nat} {error : String}
    (run : (claim references task finalPath temp metadata) (crashAt none) 0 d =
      (.raised error, n, e)) : ¬ d.Grants references task finalPath temp metadata := by
  unfold Disk.Grants
  rw [ended_eq run]
  rintro ⟨⟩

theorem grants {n : Nat} (run : (claim references task finalPath temp metadata) (crashAt none) 0 d =
      (.returned (), n, e)) : d.Grants references task finalPath temp metadata :=
  ended_eq run

theorem not_grants_of_occupied_target (occupied : ¬ d.Free task finalPath) :
    ¬ d.Grants references task finalPath temp metadata := by
  obtain ⟨error, run⟩ := claim_refuses temp metadata none fun admits => occupied admits.2
  exact not_grants run

theorem not_grants_of_occupied_temp (occupied : ¬ d.Free task temp) :
    ¬ d.Grants references task finalPath temp metadata := by
  by_cases admits : d.Admits references task finalPath
  · obtain ⟨error, run⟩ := claim_foreign_temp metadata none admits occupied
    exact not_grants run
  · obtain ⟨error, run⟩ := claim_refuses temp metadata none admits
    exact not_grants run

theorem owns_create_of_ne (d : Disk) (task : Task) (apart : metadata ≠ temp) :
    (d.create (some task) temp []).dir metadata = d.dir metadata ∧
      (d.create (some task) temp []).owns task metadata = d.owns task metadata := by
  have dir : (d.create (some task) temp []).dir metadata = d.dir metadata := by
    rw [Disk.create_dir, if_neg apart]
  exact ⟨dir, owns_of_eq dir rfl⟩

theorem not_grants_of_occupied_metadata (occupied : ¬ d.Free task metadata) :
    ¬ d.Grants references task finalPath temp metadata := by
  by_cases admits : d.Admits references task finalPath
  swap
  · obtain ⟨error, run⟩ := claim_refuses temp metadata none admits
    exact not_grants run
  by_cases absent : d.dir temp = none
  · have apart : metadata ≠ temp := by
      rintro rfl
      refine occupied fun present => ?_
      rw [absent] at present
      cases present
    have occupied_ : ¬ (d.create (some task) temp []).Free task metadata := by
      unfold Disk.Free
      rw [(owns_create_of_ne d task apart).1, (owns_create_of_ne d task apart).2]
      exact occupied
    obtain ⟨error, run⟩ := claim_absent_foreign none admits absent occupied_
    exact not_grants run
  · by_cases owned : d.owns task temp
    · obtain ⟨error, run⟩ := claim_owned_foreign none admits owned occupied
      exact not_grants run
    · exact not_grants_of_occupied_temp fun free =>
        owned (free (Option.ne_none_iff_isSome.mp absent))

/-- When a claim succeeds. -/
theorem Accounted.grants_iff (h : Accounted d) :
    d.Grants references task finalPath temp metadata ↔
      d.Admits references task finalPath ∧ d.Free task temp ∧ d.Free task metadata ∧
        (d.dir temp = none → metadata ≠ temp) := by
  constructor
  · intro granted
    refine ⟨?_, ?_, ?_, ?_⟩
    · by_contra refused
      obtain ⟨error, run⟩ := claim_refuses temp metadata none refused
      exact not_grants run granted
    · by_contra occupied
      exact not_grants_of_occupied_temp occupied granted
    · by_contra occupied
      exact not_grants_of_occupied_metadata occupied granted
    · rintro absent rfl
      by_cases admits : d.Admits references task finalPath
      · have found : (d.create (some task) metadata []).dir metadata = some ⟨d.nextIdentity, []⟩ :=
          (Disk.create_dir ..).trans (if_pos rfl)
        have unowned : ¬ (d.create (some task) metadata []).owns task metadata :=
          h.not_owns rfl found rfl
        obtain ⟨error, run⟩ := claim_absent_foreign none admits absent fun free =>
          unowned (free (by rw [found]; rfl))
        exact not_grants run granted
      · obtain ⟨error, run⟩ := claim_refuses metadata metadata none admits
        exact not_grants run granted
  · rintro ⟨admits, free, free_, apart⟩
    by_cases absent : d.dir temp = none
    · obtain ⟨dir, owns⟩ := owns_create_of_ne d task (apart absent)
      by_cases absent_ : d.dir metadata = none
      · exact grants (claim_absent_absent none admits absent (dir.trans absent_))
      · have owned_ := free_ (Option.ne_none_iff_isSome.mp absent_)
        exact grants (claim_absent_owned none admits absent (owns.trans owned_))
    · have owned := free (Option.ne_none_iff_isSome.mp absent)
      by_cases absent_ : d.dir metadata = none
      · exact grants (claim_owned_absent none admits owned absent_)
      · have owned_ := free_ (Option.ne_none_iff_isSome.mp absent_)
        exact grants (claim_owned_owned none admits owned owned_)

end

/-- What the task may write at, it may still write at after creating a file of its own. -/
theorem free_adopt {p : Entry} (free : d.Free task p) : (d.adopt task path).Free task p := by
  have dir : (d.adopt task path).dir p =
      if p = path then some ⟨d.nextIdentity, []⟩ else d.dir p := Disk.create_dir (some task) []
  by_cases same : p = path
  · subst same
    intro _
    exact owns_iff.mpr ⟨[d.nextIdentity], _, insert_self .., dir.trans (if_pos rfl),
      List.mem_singleton_self _⟩
  · rw [if_neg same] at dir
    have owns : (d.adopt task path).owns task p = d.owns task p :=
      owns_of_eq dir (insert_of_ne _ _ (.inr same))
    unfold Disk.Free
    rw [dir, owns]
    exact free

section

variable {finalPath temp metadata : String}

/-- Creating a file of its own takes nothing from what a task can claim. -/
theorem Accounted.grants_adopt (h : Accounted d) (adopted : Accounted (d.adopt task path))
    (granted : d.Grants references task (.leaf finalPath) (.leaf temp) (.leaf metadata)) :
    (d.adopt task path).Grants references task (.leaf finalPath) (.leaf temp) (.leaf metadata) := by
  obtain ⟨⟨checked, target⟩, free, free_, apart⟩ := h.grants_iff.mp granted
  refine adopted.grants_iff.mpr
    ⟨⟨checked, free_adopt target⟩, free_adopt free, free_adopt free_, fun absent => apart ?_⟩
  have dir : (d.adopt task path).dir (.leaf temp) =
      if .leaf temp = path then some ⟨d.nextIdentity, []⟩ else d.dir (.leaf temp) :=
    Disk.create_dir (some task) []
  rw [absent] at dir
  split_ifs at dir
  exact dir.symm

/-- Nor does anything that leaves the given names and the ledger alone, up to the
content of files. -/
theorem Accounted.grants_of_same (h : Accounted d) (after : Accounted e)
    (dir : ∀ name, (e.dir (.leaf name)).map File.identity = (d.dir (.leaf name)).map File.identity)
    (ledger : e.ledger = d.ledger)
    (granted : d.Grants references task (.leaf finalPath) (.leaf temp) (.leaf metadata)) :
    e.Grants references task (.leaf finalPath) (.leaf temp) (.leaf metadata) := by
  have free : ∀ {name}, d.Free task (.leaf name) → e.Free task (.leaf name) := by
    intro name free present
    have same := dir name
    obtain ⟨file, found⟩ := Option.isSome_iff_exists.mp present
    rw [found, Option.map_some] at same
    obtain ⟨file', found', identity⟩ := Option.map_eq_some_iff.mp same.symm
    obtain ⟨expected, file'', recorded, again, named⟩ := owns_iff.mp (free (by rw [found']; rfl))
    cases found'.symm.trans again
    refine owns_iff.mpr ⟨expected, file, ?_, found, identity ▸ named⟩
    rw [ledger]
    exact recorded
  obtain ⟨⟨checked, target⟩, free_, free__, apart⟩ := h.grants_iff.mp granted
  refine after.grants_iff.mpr ⟨⟨checked, free target⟩, free free_, free free__, ?_⟩
  intro absent
  have same := dir temp
  rw [absent] at same
  exact apart (Option.map_eq_none_iff.mp same.symm)

theorem create_scratch_leaf (name : String) :
    (d.create (some task) (.scratch d.nextScratch) []).drawScratch.dir (.leaf name) =
      d.dir (.leaf name) := by
  have dir : (d.create (some task) (.scratch d.nextScratch) []).dir (.leaf name) = _ :=
    Disk.create_dir (some task) []
  rw [if_neg (by rintro ⟨⟩)] at dir
  exact dir

/-- A claim stopped in time: the ledger still agrees, other files are spared and
the paths can be claimed again. -/
theorem Accounted.claimed (h : Accounted d) (references : References) (finalPath : String)
    (stopped : Claimed d task (.leaf temp) (.leaf metadata) e) :
    Accounted e ∧ d.Spares task e ∧
      (d.Grants references task (.leaf finalPath) (.leaf temp) (.leaf metadata) →
        e.Grants references task (.leaf finalPath) (.leaf temp) (.leaf metadata)) := by
  have absent := h.unnamed _ (Nat.le_refl _)
  have named : ∀ {name n}, Entry.leaf name ≠ .scratch n := by rintro name n ⟨⟩
  cases stopped with
  | unchanged => exact ⟨h, .refl d task, id⟩
  | temp free =>
    have adopted : Accounted (d.adopt task (.leaf temp)) := h.adopt task fun _ => named
    exact ⟨adopted, spares_adopt free, h.grants_adopt adopted⟩
  | metadata free =>
    have adopted : Accounted (d.adopt task (.leaf metadata)) := h.adopt task fun _ => named
    exact ⟨adopted, spares_adopt free, h.grants_adopt adopted⟩
  | both free free_ =>
    have first : Accounted (d.adopt task (.leaf temp)) := h.adopt task fun _ => named
    have second : Accounted ((d.adopt task (.leaf temp)).adopt task (.leaf metadata)) :=
      first.adopt task fun _ => named
    refine ⟨second, ?_, fun granted => first.grants_adopt second (h.grants_adopt first granted)⟩
    intro p file found foreign
    refine spares_adopt free_ p file (spares_adopt free p file found foreign) ?_
    have older := Nat.ne_of_lt (h.present p file found)
    have creator : (d.create (some task) (.leaf temp) []).creator file.identity =
        d.creator file.identity := by rw [Disk.create_creator, if_neg older]
    exact creator ▸ foreign
  | isolated =>
    have after := h.scratch (some task) []
    refine ⟨after, spares_create (some task) [] absent, h.grants_of_same after ?_ rfl⟩
    intro name
    rw [create_scratch_leaf]
  | undone =>
    have after := (h.scratch (some task) []).unlink (.scratch d.nextScratch)
    refine ⟨after, h.spares_unlink_scratch (spares_create (some task) [] absent),
      h.grants_of_same after ?_ rfl⟩
    intro name
    rw [Disk.unlink_dir, if_neg named, create_scratch_leaf]

/-- An orphan stands in the way of the next claim. -/
theorem Accounted.not_grants_of_orphan (h : Accounted d) {paths : List Entry}
    (orphan : d.Orphans paths e)
    (among : ∀ p ∈ paths, p ∈ [Entry.leaf finalPath, .leaf temp, .leaf metadata]) :
    ¬ e.Grants references task (.leaf finalPath) (.leaf temp) (.leaf metadata) := by
  obtain ⟨ledger, path, mem, file, found, new⟩ := orphan
  have occupied : ¬ e.Free task path := by
    intro free
    exact h.not_owns ledger found new (free (by rw [found]; rfl))
  have named := among path mem
  simp only [List.mem_cons, List.not_mem_nil, or_false] at named
  obtain rfl | rfl | rfl := named
  · exact not_grants_of_occupied_target occupied
  · exact not_grants_of_occupied_temp occupied
  · exact not_grants_of_occupied_metadata occupied

theorem Accounted.reclaims_after_claim (h : Accounted d)
    (granted : d.Grants references task (.leaf finalPath) (.leaf temp) (.leaf metadata)) :
    ((claim references task (.leaf finalPath) (.leaf temp) (.leaf metadata)).final (crashAt crash)
        d).Grants references task (.leaf finalPath) (.leaf temp) (.leaf metadata) ↔
      InTime crash
        (d.claimCreates references task (.leaf finalPath) (.leaf temp) (.leaf metadata)) := by
  obtain ⟨inTime, claimed⟩ | ⟨late, orphans⟩ := claim_stopped (d := d) references task
    (.leaf finalPath) (.leaf temp) (.leaf metadata) crash
  · exact iff_of_true ((h.claimed references finalPath claimed).2.2 granted) inTime
  · refine iff_of_false (h.not_grants_of_orphan orphans ?_) late
    intro p mem
    exact List.mem_cons_of_mem _ mem

theorem Accounted.reclaims_after_openPartial (h : Accounted d) {name : String} {append : Bool}
    (among : name ∈ [finalPath, temp, metadata])
    (granted : d.Grants references task (.leaf finalPath) (.leaf temp) (.leaf metadata)) :
    ((openPartial task (.leaf name) append).final (crashAt crash) d).Grants references task
        (.leaf finalPath) (.leaf temp) (.leaf metadata) ↔
      (crash = some 1 → (d.dir (.leaf name)).isSome) := by
  by_cases present : (d.dir (.leaf name)).isSome
  · refine iff_of_true ?_ fun _ => present
    obtain same | ⟨_, ended⟩ := openPartial_present task append crash present
    · rw [same]
      exact granted
    · rw [ended]
      refine h.grants_of_same (h.setContent _ _) ?_ rfl granted
      intro other
      rw [Disk.setContent_dir]
      split_ifs with same
      · rw [same, Option.map_map]
        rfl
      · rfl
  · have absent : d.dir (.leaf name) = none := Option.not_isSome_iff_eq_none.mp present
    rw [openPartial_absent absent]
    split_ifs with zero one
    · exact iff_of_true granted fun died => by rw [zero] at died; cases died
    · refine iff_of_false ?_ fun ready => present (ready one)
      refine h.not_grants_of_orphan (orphans_create (some task) (List.mem_singleton_self _)) ?_
      intro p mem
      rw [List.mem_singleton.mp mem]
      simpa using among
    · have adopted : Accounted (d.adopt task (.leaf name)) := h.adopt task (by rintro n ⟨⟩)
      exact iff_of_true (h.grants_adopt adopted granted) fun died => absurd died one

end

/-! ### Runs -/

theorem Accounted.perform (h : Accounted d) {act : Act}
    (accountable : Step.Accountable d (.own task act crash)) :
    Accounted (act.perform task crash d) ∧ d.Spares task (act.perform task crash d) := by
  cases act with
  | claim references finalPath temp metadata =>
    obtain ⟨_, claimed⟩ | ⟨late, _⟩ := claim_stopped (d := d) references task
      (.leaf finalPath) (.leaf temp) (.leaf metadata) crash
    · have kept := h.claimed references finalPath claimed
      exact ⟨kept.1, kept.2.1⟩
    · exact absurd accountable late
  | openPartial path append => exact h.after_openPartial crash accountable
  | stageWrite content => exact h.after_stageWrite content crash
  | replace references source destination => exact h.after_replace crash accountable
  | remove references path => exact h.after_remove crash
  | record paths => exact h.after_record crash accountable

theorem Accounted.next (h : Accounted d) {step : Step} (accountable : step.Accountable d)
    (hn : d.next step = some e) : Accounted e := by
  cases step with
  | own task act crash =>
    cases hn
    exact (h.perform accountable).1
  | write path content =>
    unfold Disk.next at hn
    obtain ⟨named, hn⟩ := Option.ite_none_right_eq_some.mp hn
    cases hn
    refine h.create path content (.inl rfl) ?_
    rintro n later rfl
    exact absurd later (Nat.not_le_of_lt (of_decide_eq_true named))
  | delete path =>
    unfold Disk.next at hn
    obtain ⟨_, hn⟩ := Option.ite_none_right_eq_some.mp hn
    cases hn
    exact h.unlink path

theorem accounted_start (start : Start) : Accounted start.disk where
  present
    | .leaf name, file, found => start.fresh name file found
  unborn _ _ := rfl
  honest _ _ _ recorded := nomatch recorded
  known _ _ _ _ creator := nomatch creator
  unnamed _ _ := rfl

theorem accounted_of_run {start : Start} {steps : List Step}
    (accountable : (machine start).Along (fun d step _ => step.Accountable d) start.disk steps)
    (run : (machine start).run start.disk steps = some d) : Accounted d :=
  Machine.run_preserves_along (fun _ _ _ hn accountable h => h.next accountable hn) accountable run
    (accounted_start start)

/-- **Download ownership survives crashes.** In every run whose steps keep the
ledger in agreement with the directory: an operation of a task, stopped anywhere,
leaves every file the task has not created where and as it was; after `replace`
the file at the destination is recognized if it is the task's; and paths that
could be claimed can be claimed again after a stopped `claim` or `open_partial`
exactly when it was stopped in time. -/
theorem ownership_recovers (start : Start) (steps : List Step) (d : Disk)
    (run : (machine start).run start.disk steps = some d)
    (accountable : (machine start).Along (fun d step _ => step.Accountable d) start.disk steps) :
    (∀ task act crash, Step.Accountable d (.own task act crash) →
      d.Spares task (act.perform task crash d)) ∧
    (∀ task references source destination crash,
      let after := Act.perform task crash d (.replace references source destination)
      Step.Accountable d (.own task (.replace references source destination) crash) →
      ∀ file, after.dir (.leaf destination) = some file →
        after.creator file.identity = some task → after.owns task (.leaf destination)) ∧
    ∀ references task finalPath temp metadata,
      d.Grants references task (.leaf finalPath) (.leaf temp) (.leaf metadata) → ∀ crash,
        ((Act.perform task crash d (.claim references finalPath temp metadata)).Grants references
            task (.leaf finalPath) (.leaf temp) (.leaf metadata) ↔
          Step.Accountable d (.own task (.claim references finalPath temp metadata) crash)) ∧
        ∀ path ∈ [finalPath, temp, metadata], ∀ append,
          ((Act.perform task crash d (.openPartial path append)).Grants references task
              (.leaf finalPath) (.leaf temp) (.leaf metadata) ↔
            Step.Accountable d (.own task (.openPartial path append) crash)) := by
  have h := accounted_of_run accountable run
  refine ⟨?_, ?_, ?_⟩
  · intro task act crash step
    exact (h.perform step).2
  · intro task references source destination crash after step file found creator
    exact (h.perform step).1.known task destination file found creator
  · intro references task finalPath temp metadata granted crash
    refine ⟨h.reclaims_after_claim granted, ?_⟩
    intro path among append
    exact h.reclaims_after_openPartial among granted

def empty : Start := ⟨fun _ => none, 0, fun _ _ found => nomatch found⟩

def unreferenced : References := fun _ => .ok []

/-- A claimed and opened download is claimed again after a claim that dies at its
first step. -/
theorem ownership_recovers_sample :
    ∃ d, (machine empty).run empty.disk
        [.own "task" (.claim unreferenced "model.gguf" "model.part" "model.part.json") none,
          .own "task" (.openPartial "model.part" true) none] = some d ∧
      d.Spares "task" (Act.perform "task" (some 1) d (.remove unreferenced "model.part")) ∧
      (Act.perform "task" (some 0) d
        (.claim unreferenced "model.gguf" "model.part" "model.part.json")).Grants unreferenced
          "task" (.leaf "model.gguf") (.leaf "model.part") (.leaf "model.part.json") := by
  refine ⟨_, rfl, ?_⟩
  have recovers := ownership_recovers empty
    [.own "task" (.claim unreferenced "model.gguf" "model.part" "model.part.json") none,
      .own "task" (.openPartial "model.part" true) none] _ rfl
    (fun _ _ => ⟨fun _ died => (nomatch died), fun _ _ => ⟨fun died => (nomatch died), trivial⟩⟩)
  refine ⟨recovers.1 "task" _ (some 1) trivial, ?_⟩
  refine ((recovers.2.2 unreferenced "task" "model.gguf" "model.part" "model.part.json" rfl
    (some 0)).1).mpr ?_
  intro k died pos
  cases died
  cases pos

/-! ### What the other steps do -/

/-- The process dies when `claim` has made its temporary file: the next claim is
refused. A file another program has put at the temporary name is published, and
then deleted with the download. -/
theorem claim_orphans_and_replace_adopts :
    (∃ d, (machine empty).run empty.disk
        [.own "task" (.claim unreferenced "model.gguf" "model.part" "model.part.json") (some 1)] =
          some d ∧
      empty.disk.Grants unreferenced "task" (.leaf "model.gguf") (.leaf "model.part")
        (.leaf "model.part.json") ∧
      ¬ d.Grants unreferenced "task" (.leaf "model.gguf") (.leaf "model.part")
        (.leaf "model.part.json")) ∧
    ∃ d, (machine empty).run empty.disk
        [.own "task" (.claim unreferenced "model.gguf" "model.part" "model.part.json") none,
          .write (.leaf "model.part") [1],
          .own "task" (.replace unreferenced (.leaf "model.part") "model.gguf") none] = some d ∧
      ¬ d.Spares "task" (Act.perform "task" none d (.remove unreferenced "model.gguf")) := by
  refine ⟨⟨_, rfl, rfl, ?_⟩, _, rfl, ?_⟩
  · exact not_grants_of_occupied_temp fun free => Bool.false_ne_true (free rfl)
  · intro spares
    have gone := spares (.leaf "model.gguf") ⟨2, [1]⟩ rfl (by decide)
    cases gone

end LlamaServerManager.Downloads
