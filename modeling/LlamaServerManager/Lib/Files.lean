import Mathlib.Data.List.Dedup
import Mathlib.Data.List.Infix
import Mathlib.Logic.Function.Basic

/-!
A file tree. A path is the list of the names that lead to it; `other` is what is
neither a regular file nor a directory. The order in which a directory lists its
entries is an argument (`Listing`).
-/

namespace LlamaServerManager.Lib

/-- What is at a path: a file with its bytes, a directory, or an entry of another kind,
such as a link. -/
inductive Node where
  | file (bytes : List UInt8)
  | dir
  | other
deriving DecidableEq, Repr

abbrev Path := List String

abbrev Files := Path → Option Node

/-- Names of the entries of every directory, in the order they are listed; it may
name entries that are not there. -/
abbrev Listing := Path → List String

namespace Files

/-- Every entry is in a directory, and so is that one, up to the root. -/
def Tree (fs : Files) : Prop := ∀ p name, fs (p ++ [name]) ≠ none → fs p = some .dir

/-- Every entry below `root` is in a directory. -/
def TreeBelow (root : Path) (fs : Files) : Prop :=
  ∀ p name, root <+: p → fs (p ++ [name]) ≠ none → fs p = some .dir

/-- The tree of a list of entries. -/
def ofEntries (entries : List (Path × Node)) : Files := fun p => entries.lookup p

/-- The names of a list of entries. -/
def listingOf (entries : List (Path × Node)) : Listing := fun p =>
  (entries.filterMap fun e => if e.1.dropLast = p then e.1.getLast? else none).dedup

def readDir (listing : Listing) (fs : Files) (p : Path) : List String :=
  (listing p).filter fun name => (fs (p ++ [name])).isSome

/-- The directory is there or can be made in its parent. -/
def makeDir (p : Path) (fs : Files) : Option Files :=
  match fs p with
  | some .dir => some fs
  | some _ => none
  | none => some (Function.update fs p (some .dir))

/-- Put a file in place of whatever is there, unless it is a directory. -/
def replaceFile (p : Path) (bytes : List UInt8) (fs : Files) : Option Files :=
  if fs p = some .dir ∨ fs p.dropLast ≠ some .dir then none
  else some (Function.update fs p (some (.file bytes)))

/-- Everything under `src` moves to `dst`. -/
def move (src dst : Path) (fs : Files) : Files := fun q =>
  if dst <+: q then fs (src ++ q.drop dst.length)
  else if src <+: q then none
  else fs q

/-- `rename`: a directory moves to a free name, anything else replaces what is no
directory. -/
def rename (src dst : Path) (fs : Files) : Option Files :=
  if fs dst.dropLast ≠ some .dir then none
  else
    match fs src with
    | none => none
    | some .dir => if fs dst = none ∧ ¬ src <+: dst then some (fs.move src dst) else none
    | some _ => if fs dst = some .dir then none else some (fs.move src dst)

/-- Remove what is under `p`, except what `kept` says is left. -/
def removeExcept (p : Path) (kept : Path → Bool) (fs : Files) : Files := fun q =>
  if p <+: q ∧ kept q = false then none else fs q

variable {fs t : Files} {p q src dst : Path}

/-! ### What an operation leaves alone -/

theorem Tree.below (tree : fs.Tree) (root : Path) : fs.TreeBelow root :=
  fun p name _ => tree p name

theorem TreeBelow.none {root : Path} (tree : fs.TreeBelow root) (inside : root <+: p)
    (free : fs p = none) (below : p <+: q) : fs q = none := by
  obtain ⟨rest, rfl⟩ := below
  induction rest using List.reverseRecOn with
  | nil => rwa [List.append_nil]
  | append_singleton rest name ih =>
    by_contra present
    rw [← List.append_assoc] at present
    rw [tree _ name (inside.trans (List.prefix_append ..)) present] at ih
    cases ih

theorem none_below (tree : fs.Tree) (free : fs p = none) (below : p <+: q) : fs q = none :=
  (tree.below p).none List.prefix_rfl free below

theorem mem_of_ofEntries {entries : List (Path × Node)} {node : Node}
    (found : ofEntries entries p = some node) : (p, node) ∈ entries := by
  obtain ⟨front, back, eq, -⟩ := List.lookup_eq_some_iff.mp found
  rw [eq]
  exact List.mem_append_right _ List.mem_cons_self

/-- Listed parents make a tree. -/
theorem tree_ofEntries {entries : List (Path × Node)}
    (parents : ∀ e ∈ entries, e.1 = [] ∨ entries.lookup e.1.dropLast = some .dir) :
    (ofEntries entries).Tree := by
  intro p name present
  obtain ⟨node, found⟩ := Option.ne_none_iff_exists'.mp present
  have mem := mem_of_ofEntries found
  rcases parents _ mem with empty | parent
  · exact absurd empty (List.append_ne_nil_of_right_ne_nil p (List.cons_ne_nil name []))
  · rwa [List.dropLast_concat] at parent

/-- Every entry is listed, once. -/
theorem mem_listingOf {entries : List (Path × Node)} {name : String}
    (present : ofEntries entries (p ++ [name]) ≠ none) : name ∈ listingOf entries p := by
  obtain ⟨node, found⟩ := Option.ne_none_iff_exists'.mp present
  refine List.mem_dedup.mpr (List.mem_filterMap.mpr ⟨_, mem_of_ofEntries found, ?_⟩)
  simp

theorem listingOf_nodup (entries : List (Path × Node)) (p : Path) : (listingOf entries p).Nodup :=
  List.nodup_dedup _

theorem makeDir_eq (h : fs.makeDir p = some t) :
    (t = fs ∧ fs p = some .dir) ∨ (fs p = none ∧ t = Function.update fs p (some .dir)) := by
  unfold makeDir at h
  split at h
  · next dir => exact .inl ⟨(Option.some.inj h).symm, dir⟩
  · cases h
  · next free => exact .inr ⟨free, (Option.some.inj h).symm⟩

theorem makeDir_self (h : fs.makeDir p = some t) : t p = some .dir := by
  rcases makeDir_eq h with ⟨rfl, dir⟩ | ⟨-, rfl⟩
  · exact dir
  · exact Function.update_self ..

theorem makeDir_other (h : fs.makeDir p = some t) (ne : q ≠ p) : t q = fs q := by
  rcases makeDir_eq h with ⟨rfl, -⟩ | ⟨-, rfl⟩
  · rfl
  · exact Function.update_of_ne ne ..

theorem replaceFile_eq {bytes : List UInt8} (h : fs.replaceFile p bytes = some t) :
    t = Function.update fs p (some (.file bytes)) := by
  unfold replaceFile at h
  split at h
  · cases h
  · exact (Option.some.inj h).symm

theorem rename_eq (h : fs.rename src dst = some t) :
    t = fs.move src dst ∧ fs src ≠ none ∧
      (fs src = some .dir → fs dst = none ∧ ¬ src <+: dst) := by
  unfold rename at h
  split at h
  · cases h
  · split at h
    · cases h
    · next dir =>
        split at h
        · next free =>
            rw [dir]
            exact ⟨(Option.some.inj h).symm, by simp, fun _ => free⟩
        · cases h
    · next node notDir found =>
        split at h
        · cases h
        · rw [found]
          refine ⟨(Option.some.inj h).symm, by simp, fun same => ?_⟩
          cases same
          exact absurd rfl notDir

theorem move_append (src dst rest : Path) (fs : Files) :
    fs.move src dst (dst ++ rest) = fs (src ++ rest) := by
  unfold move
  rw [if_pos (List.prefix_append dst rest), List.drop_left]

theorem move_other (notDst : ¬ dst <+: q) (notSrc : ¬ src <+: q) : fs.move src dst q = fs q := by
  unfold move
  rw [if_neg notDst, if_neg notSrc]

theorem removeExcept_other {kept : Path → Bool} (notBelow : ¬ p <+: q) :
    fs.removeExcept p kept q = fs q :=
  if_neg fun both => notBelow both.1

theorem makeDir_of_dir (dir : fs p = some .dir) : fs.makeDir p = some fs := by
  rw [makeDir, dir]

/-- No directory is unmade by making another. -/
theorem makeDir_keeps (h : fs.makeDir p = some t) (dir : fs q = some .dir) : t q = some .dir := by
  by_cases eq : q = p
  · exact eq ▸ makeDir_self h
  · exact (makeDir_other h eq).trans dir

/-! ### Frames -/

/-- From `before` to `fs`, some of `dirs` were made, and nothing else changed outside
of `trees`. -/
structure Frame (dirs trees : List Path) (before fs : Files) : Prop where
  made : ∀ q ∈ dirs, fs q = before q ∨ before q = none ∧ fs q = some .dir
  same : ∀ q ∉ dirs, (∀ r ∈ trees, ¬ r <+: q) → fs q = before q

namespace Frame

variable {dirs trees wider : List Path} {before : Files}

theorem refl (dirs trees : List Path) (fs : Files) : Frame dirs trees fs fs :=
  ⟨fun _ _ => .inl rfl, fun _ _ _ => rfl⟩

theorem widen (frame : Frame dirs trees before fs) (sub : trees ⊆ wider) :
    Frame dirs wider before fs :=
  ⟨frame.made, fun q old outside => frame.same q old fun r mem => outside r (sub mem)⟩

theorem makeDir (frame : Frame dirs trees before fs) (mem : p ∈ dirs)
    (h : fs.makeDir p = some t) : Frame dirs trees before t := by
  rcases makeDir_eq h with ⟨rfl, -⟩ | ⟨free, rfl⟩
  · exact frame
  · constructor
    · intro q hq
      by_cases eq : q = p
      · subst eq
        have absent : before q = none := by
          rcases frame.made q hq with same | ⟨-, made⟩
          · exact same.symm.trans free
          · rw [made] at free
            cases free
        exact .inr ⟨absent, Function.update_self ..⟩
      · rw [Function.update_of_ne eq]
        exact frame.made q hq
    · intro q old outside
      have ne : q ≠ p := fun eq => old (eq ▸ mem)
      rw [Function.update_of_ne ne]
      exact frame.same q old outside

/-- A change inside of `trees`, none of which holds one of `dirs`. -/
theorem write (frame : Frame dirs trees before fs)
    (apart : ∀ d ∈ dirs, ∀ r ∈ trees, ¬ r <+: d)
    (inside : ∀ q, (∀ r ∈ trees, ¬ r <+: q) → t q = fs q) : Frame dirs trees before t := by
  constructor
  · intro q hq
    rw [inside q (apart q hq)]
    exact frame.made q hq
  · intro q old outside
    exact (inside q outside).trans (frame.same q old outside)

end Frame

end Files

end LlamaServerManager.Lib
