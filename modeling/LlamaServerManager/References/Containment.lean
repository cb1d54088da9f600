import LlamaServerManager.References.PathIdentity

/-!
Which path lies within which (`path_is_within_text` of `path_utils.rs`), away from Windows:
containment of normal forms is containment of components.

* `lexicalResolution` — the components that `.` and `..` leave, never above the root.
* `pathIsWithin_iff` — containment of absolute paths.
* `pathIsWithin_plain` — the same of paths without `.`, `..` and empty components.
-/

namespace LlamaServerManager.References

open Lib Lib.Text

/-- The components of a path from its root: `.` stays, `..` goes up as far as the root. -/
def lexicalResolution (components : List Str) : List Str :=
  components.foldl (fun path component =>
    if component = [] ∨ component = ['.'] then path
    else if component = dotDot then path.dropLast
    else path ++ [component]) []

/-- The components of an absolute path. -/
def components (path : Str) : List Str := lexicalResolution (path.tail.splitOn '/')

/-! ### Resolution -/

theorem lexicalResolution_eq (body : Str) :
    lexicalResolution (body.splitOn '/') = (keptSegments ['/'] body).reverse := by
  have run : ∀ (pieces segments : List Str), Folded true segments →
      (∀ piece ∈ pieces, '/' ∉ piece) →
      pieces.foldl (fun path component =>
        if component = [] ∨ component = ['.'] then path
        else if component = dotDot then path.dropLast
        else path ++ [component]) segments.reverse =
      (pieces.foldl (normalizeSegment true 0) segments).reverse := by
    intro pieces
    induction pieces with
    | nil => exact fun _ _ _ => rfl
    | cons piece pieces ih =>
      intro segments folded free
      obtain ⟨first, free⟩ := List.forall_mem_cons.mp free
      rw [List.foldl_cons, List.foldl_cons,
        ← ih _ (folded_normalizeSegment (by simp) first folded) free]
      congr 1
      unfold normalizeSegment
      split
      · rfl
      · split
        · rename_i up
          rw [if_pos (show piece = ['.', '.'] from up)]
          cases segments with
          | nil => simp
          | cons last rest =>
            have name : last ≠ ['.', '.'] := (folded_true folded last List.mem_cons_self).up
            simp [name]
        · rename_i other
          rw [if_neg (show ¬piece = ['.', '.'] from other), List.reverse_cons]
  have resolved := run (body.splitOn '/') [] trivial fun _ mem =>
    Segments.not_mem_of_mem_splitOn mem
  simpa [lexicalResolution, keptSegments] using resolved

/-- Names are resolved already. -/
theorem lexicalResolution_of_proper {names : List Str} (proper : ∀ name ∈ names, Proper name) :
    lexicalResolution ((['/'].intercalate names).splitOn '/') = names := by
  have folded : Folded (decide (['/'] ≠ [])) names.reverse :=
    folded_of_proper fun name mem => proper name (List.mem_reverse.mp mem)
  have kept := keptSegments_intercalate folded
  rw [List.reverse_reverse] at kept
  rw [lexicalResolution_eq, kept, List.reverse_reverse]

/-! ### Containment -/

section Containment

variable {host : Host}

/-- Where nothing is left of the root, the text is the root. -/
theorem normalizePathText_absolute (posix : host.windows = false) {raw body : Str}
    (absolute : trimChars raw = '/' :: body) :
    normalizePathText host raw = '/' :: ['/'].intercalate (components (trimChars raw)) := by
  have value : pathValue host raw = ['/'] ++ body := by
    rw [pathValue, if_neg (by simp [posix]), absolute]
    rfl
  have rooted : Rooted host.windows ['/'] body := .posix fun on => by simp [posix] at on
  have resolved : components (trimChars raw) = (keptSegments ['/'] body).reverse := by
    rw [components, absolute, List.tail_cons, lexicalResolution_eq]
  rw [normalizePathText_eq value rooted, resolved, lowered, if_neg (by simp [posix]), named,
    if_neg (by simp [rootedText])]
  rfl

theorem getLast_slash_intercalate {names : List Str} (proper : ∀ name ∈ names, Proper name) :
    ('/' :: ['/'].intercalate names).getLast? = some '/' ↔ names = [] := by
  constructor
  · intro slash
    rcases List.eq_nil_or_concat names with none | ⟨before, last, rfl⟩
    · exact none
    · have name := proper last (by simp)
      obtain ⟨start, c, rfl⟩ : ∃ start c, last = start ++ [c] := by
        rcases List.eq_nil_or_concat last with none | ⟨start, c, eq⟩
        · exact absurd none name.nonempty
        · exact ⟨start, c, by simpa using eq⟩
      have ends : ∃ text, '/' :: ['/'].intercalate (before ++ [start ++ [c]]) = text ++ [c] := by
        by_cases first : before = []
        · subst first
          exact ⟨'/' :: start, by simp⟩
        · rw [Segments.intercalate_append '/' first (by simp)]
          exact ⟨'/' :: ['/'].intercalate before ++ '/' :: start, by simp⟩
      obtain ⟨text, whole⟩ := ends
      rw [List.concat_eq_append, whole, List.getLast?_concat] at slash
      obtain rfl := Option.some.inj slash
      exact absurd (by simp) name.free
  · rintro rfl
    rfl

theorem proper_components (path : Str) : ∀ name ∈ components path, Proper name := by
  unfold components
  rw [lexicalResolution_eq]
  intro name mem
  exact folded_true (folded_keptSegments ['/'] path.tail) name (List.mem_reverse.mp mem)

/-- The normal forms say what the components say. -/
theorem within_iff {candidate root : List Str} (properCandidate : ∀ name ∈ candidate, Proper name)
    (properRoot : ∀ name ∈ root, Proper name) :
    (if '/' :: ['/'].intercalate candidate = '/' :: ['/'].intercalate root then true
      else if ('/' :: ['/'].intercalate root).getLast? = some '/' then
        ('/' :: ['/'].intercalate root).isPrefixOf ('/' :: ['/'].intercalate candidate)
      else ('/' :: ['/'].intercalate root ++ ['/']).isPrefixOf
        ('/' :: ['/'].intercalate candidate)) = true ↔ root <+: candidate := by
  by_cases top : root = []
  · subst top
    simp
  · rw [if_neg (mt (getLast_slash_intercalate properRoot).mp top)]
    by_cases bare : candidate = []
    · subst bare
      have some_ : ['/'].intercalate root ≠ [] := fun none =>
        top ((Segments.intercalate_eq_nil fun s mem => (properRoot s mem).nonempty).mp none)
      simp [some_.symm, top]
    · rw [Segments.prefix_iff (fun s mem => (properRoot s mem).free)
        (fun s mem => (properCandidate s mem).free) top bare]
      by_cases same : ['/'].intercalate candidate = ['/'].intercalate root
      · simp [same]
      · simp [same, List.isPrefixOf_iff_prefix]

/-- **Containment is of components.** -/
theorem pathIsWithin_iff (posix : host.windows = false) {candidate root : Str}
    (absoluteCandidate : (trimChars candidate).head? = some '/')
    (absoluteRoot : (trimChars root).head? = some '/') :
    pathIsWithin host candidate root = true ↔
      components (trimChars root) <+: components (trimChars candidate) := by
  obtain ⟨body, candidateText⟩ := List.head?_eq_some_iff.mp absoluteCandidate
  obtain ⟨body', rootText⟩ := List.head?_eq_some_iff.mp absoluteRoot
  have some_ : ∀ text : Str, '/' :: text ≠ [] := fun text => List.cons_ne_nil _ _
  have dot : ∀ text : Str, '/' :: text ≠ ['.'] := fun text eq => by simp at eq
  unfold pathIsWithin
  simp only [normalizePathText_absolute posix candidateText,
    normalizePathText_absolute posix rootText]
  rw [if_neg (some_ _), if_neg (dot _)]
  exact within_iff (proper_components _) (proper_components _)

/-- Of paths that are their names, containment is of the names. -/
theorem pathIsWithin_plain (posix : host.windows = false) {candidate root : List Str}
    (properCandidate : ∀ name ∈ candidate, Proper name) (properRoot : ∀ name ∈ root, Proper name)
    (trimmedCandidate : trimChars ('/' :: ['/'].intercalate candidate) =
      '/' :: ['/'].intercalate candidate)
    (trimmedRoot : trimChars ('/' :: ['/'].intercalate root) = '/' :: ['/'].intercalate root) :
    pathIsWithin host ('/' :: ['/'].intercalate candidate) ('/' :: ['/'].intercalate root) = true ↔
      root <+: candidate := by
  have own : ∀ names : List Str, (∀ name ∈ names, Proper name) →
      components ('/' :: ['/'].intercalate names) = names := fun names proper =>
    lexicalResolution_of_proper proper
  rw [pathIsWithin_iff posix (by rw [trimmedCandidate]; rfl) (by rw [trimmedRoot]; rfl),
    trimmedCandidate, trimmedRoot, own candidate properCandidate, own root properRoot]

end Containment

end LlamaServerManager.References
