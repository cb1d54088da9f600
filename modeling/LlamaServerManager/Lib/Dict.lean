import Mathlib.Algebra.BigOperators.Group.List.Basic
import Mathlib.Algebra.Order.BigOperators.Group.List
import Mathlib.Algebra.Ring.Int.Defs
import Mathlib.Data.List.AList

/-!
Finite maps with one value type, over Mathlib's `AList`, with the number of the
entries a predicate accepts and sums over the entries. These are what a
denormalised counter or balance is compared with: the lemmas say how they move
under `insert`, `erase`, `modify` and `filter`.
-/

namespace LlamaServerManager.Lib

universe u v

/-- A finite map from `α` to `β`: a list of entries in which no key is twice. -/
abbrev Dict (α : Type u) (β : Type v) := AList fun _ : α => β

namespace Dict

variable {α : Type u} {β : Type v}

/-- Equality that evaluates: of the lists of entries. -/
instance [DecidableEq α] [DecidableEq β] : DecidableEq (Dict α β) := fun m m' =>
  decidable_of_iff (m.entries = m'.entries) AList.ext_iff.symm

/-- The number of entries. -/
def size (m : Dict α β) : Nat := m.entries.length

/-- The number of entries whose value satisfies `p`. -/
def count (p : β → Bool) (m : Dict α β) : Nat := m.entries.countP fun e => p e.2

@[simp] theorem size_empty : (∅ : Dict α β).size = 0 := rfl

@[simp] theorem count_empty (p : β → Bool) : (∅ : Dict α β).count p = 0 := rfl

theorem size_eq_keys_length (m : Dict α β) : m.size = m.keys.length := by
  simp [size, AList.keys, List.keys]

variable {m : Dict α β}

theorem eq_empty_of_keys (h : m.keys = []) : m = ∅ := by
  apply AList.ext
  have : m.entries.map Sigma.fst = [] := h
  simpa using this

variable [DecidableEq α]

variable {a : α} {b : β}

/-- The entries are those of `m` without the key, plus the one found there. -/
theorem entries_perm_erase (h : m.lookup a = some b) :
    m.entries.Perm (⟨a, b⟩ :: (m.erase a).entries) := by
  have mem : a ∈ m.entries.keys := AList.lookup_isSome.mp (by rw [h]; rfl)
  obtain ⟨b', l₁, l₂, notMem, eq, erased⟩ := List.exists_of_kerase mem
  have found : m.entries.dlookup a = some b' := by
    apply List.mem_dlookup m.nodupKeys
    rw [eq]
    exact List.mem_append_right _ List.mem_cons_self
  have same : b' = b := by
    have : m.entries.dlookup a = some b := h
    rw [found] at this
    exact Option.some.inj this
  subst same
  have : (m.erase a).entries = l₁ ++ l₂ := erased
  rw [eq, this]
  exact List.perm_middle

theorem size_insert_of_notMem (h : a ∉ m) : size (m.insert a b) = m.size + 1 := by
  rw [size, AList.entries_insert_of_notMem h]
  rfl

theorem size_erase (h : m.lookup a = some b) : m.size = size (m.erase a) + 1 :=
  (entries_perm_erase h).length_eq

theorem count_insert_of_notMem (p : β → Bool) (h : a ∉ m) :
    count p (m.insert a b) = m.count p + if p b then 1 else 0 := by
  rw [count, AList.entries_insert_of_notMem h, List.countP_cons]
  rfl

theorem count_erase (p : β → Bool) (h : m.lookup a = some b) :
    m.count p = count p (m.erase a) + if p b then 1 else 0 := by
  unfold count
  rw [(entries_perm_erase h).countP_eq, List.countP_cons]

theorem erase_insert : ((m.insert a b).erase a).entries = (m.erase a).entries := by
  change (m.insert a b).entries.kerase a = m.entries.kerase a
  rw [AList.entries_insert]
  exact List.kerase_cons_eq rfl

/-- Overwriting a value moves the count by the difference of the two values. -/
theorem count_insert_of_lookup (p : β → Bool) (b' : β) (h : m.lookup a = some b) :
    count p (m.insert a b') + (if p b then 1 else 0) = m.count p + if p b' then 1 else 0 := by
  have new := count_erase p (AList.lookup_insert m : (m.insert a b').lookup a = some b')
  have old := count_erase p h
  have same : count p ((m.insert a b').erase a) = count p (m.erase a) := by
    unfold count; rw [erase_insert]
  omega

theorem size_insert_of_lookup {b b' : β} (h : m.lookup a = some b) :
    size (m.insert a b') = m.size := by
  have new := size_erase (AList.lookup_insert m : (m.insert a b').lookup a = some b')
  have old := size_erase h
  have same : size ((m.insert a b').erase a) = size (m.erase a) := by
    unfold size; rw [erase_insert]
  omega

/-- A key whose value satisfies `p` makes the count positive. -/
theorem count_pos {p : β → Bool} (h : m.lookup a = some b) (hp : p b = true) : 0 < m.count p := by
  rw [count_erase p h, if_pos hp]
  omega

/-! ### Updates and deletions -/

/-- Rewrite the value of a key, if it has one. -/
def modify (a : α) (f : β → β) (m : Dict α β) : Dict α β :=
  match m.lookup a with
  | none => m
  | some b => m.insert a (f b)

@[simp] theorem lookup_modify (a : α) (f : β → β) (m : Dict α β) :
    (modify a f m).lookup a = (m.lookup a).map f := by
  unfold modify
  split
  · rename_i absent
    rw [absent]
    rfl
  · rename_i b found
    rw [AList.lookup_insert, found]
    rfl

theorem lookup_modify_ne {a c : α} (ne : c ≠ a) (f : β → β) (m : Dict α β) :
    (modify a f m).lookup c = m.lookup c := by
  unfold modify
  split
  · rfl
  · exact AList.lookup_insert_ne ne

/-- Keep the entries that satisfy `p`. -/
def filter (p : α → β → Bool) (m : Dict α β) : Dict α β :=
  ⟨m.entries.filter fun e => p e.1 e.2,
    m.nodupKeys.sublist List.filter_sublist⟩

theorem lookup_filter (p : α → β → Bool) (m : Dict α β) (a : α) :
    (filter p m).lookup a = (m.lookup a).filter (p a) := by
  apply Option.ext
  intro b
  have kept : b ∈ (filter p m).lookup a ↔ (⟨a, b⟩ : (_ : α) × β) ∈ m.entries ∧ p a b = true :=
    AList.mem_lookup_iff.trans List.mem_filter
  have before : b ∈ m.lookup a ↔ (⟨a, b⟩ : (_ : α) × β) ∈ m.entries := AList.mem_lookup_iff
  rw [Option.filter_eq_some_iff, ← Option.mem_def, ← Option.mem_def, kept, before]

theorem lookup_filter_of_keep {p : α → β → Bool} (keep : ∀ b, p a b = true) :
    (filter p m).lookup a = m.lookup a := by
  rw [lookup_filter]
  cases m.lookup a with
  | none => rfl
  | some b => exact Option.filter_some_pos (keep b)

theorem lookup_filter_of_drop {p : α → β → Bool} (drop : ∀ b, p a b = false) :
    (filter p m).lookup a = none := by
  rw [lookup_filter, Option.filter_eq_none_iff]
  intro b _
  simp [drop b]

/-! ### Sums -/

/-- The sum of `f` over the values. -/
def sum (f : β → Int) (m : Dict α β) : Int := (m.entries.map fun e => f e.2).sum

omit [DecidableEq α] in
@[simp] theorem sum_empty (f : β → Int) : sum f (∅ : Dict α β) = 0 := rfl

theorem sum_insert_of_notMem (f : β → Int) (h : a ∉ m) : sum f (m.insert a b) = sum f m + f b := by
  rw [sum, AList.entries_insert_of_notMem h, List.map_cons, List.sum_cons, Int.add_comm]
  rfl

theorem sum_erase (f : β → Int) (h : m.lookup a = some b) : sum f m = sum f (m.erase a) + f b := by
  unfold sum
  rw [((entries_perm_erase h).map _).sum_eq, List.map_cons, List.sum_cons, Int.add_comm]

theorem sum_insert_of_lookup (f : β → Int) (b' : β) (h : m.lookup a = some b) :
    sum f (m.insert a b') = sum f m - f b + f b' := by
  have new := sum_erase f (AList.lookup_insert m : (m.insert a b').lookup a = some b')
  have old := sum_erase f h
  have same : sum f ((m.insert a b').erase a) = sum f (m.erase a) := by
    unfold sum; rw [erase_insert]
  omega

/-- Dropping entries that count for nothing keeps the sum. -/
theorem sum_filter {p : α → β → Bool} {f : β → Int}
    (h : ∀ a b, m.lookup a = some b → p a b = false → f b = 0) :
    sum f (filter p m) = sum f m := by
  have entries : ∀ e ∈ m.entries, p e.1 e.2 = false → f e.2 = 0 :=
    fun e he => h e.1 e.2 (AList.mem_lookup_iff.mpr he)
  unfold sum filter
  dsimp only
  generalize m.entries = es at entries
  induction es with
  | nil => rfl
  | cons e es ih =>
    have rest := ih fun e' he' => entries e' (List.mem_cons_of_mem _ he')
    cases keep : p e.1 e.2 with
    | true =>
      rw [List.filter_cons_of_pos (by exact keep), List.map_cons, List.map_cons,
        List.sum_cons, List.sum_cons, rest]
    | false =>
      rw [List.filter_cons_of_neg (by simp [keep]), List.map_cons, List.sum_cons, rest,
        entries e List.mem_cons_self keep, Int.zero_add]

omit [DecidableEq α] in
theorem sum_nonneg {f : β → Int} (h : ∀ b, 0 ≤ f b) : 0 ≤ sum f m := by
  apply List.sum_nonneg
  intro x hx
  obtain ⟨e, -, rfl⟩ := List.mem_map.mp hx
  exact h e.2

theorem sum_le_sum {f g : β → Int} (h : ∀ a b, m.lookup a = some b → f b ≤ g b) :
    sum f m ≤ sum g m := by
  apply List.sum_le_sum
  intro e he
  exact h e.1 e.2 (AList.mem_lookup_iff.mpr he)

theorem sum_eq_zero {f : β → Int} (h : ∀ a b, m.lookup a = some b → f b = 0) : sum f m = 0 := by
  apply List.sum_eq_zero
  intro x hx
  obtain ⟨e, he, rfl⟩ := List.mem_map.mp hx
  exact h e.1 e.2 (AList.mem_lookup_iff.mpr he)

end Dict

end LlamaServerManager.Lib
