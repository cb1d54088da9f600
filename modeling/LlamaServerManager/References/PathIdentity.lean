import LlamaServerManager.Lib.Segments
import LlamaServerManager.References.Paths

/-!
What `normalize_path_text` says of two paths (`path_utils.rs`): which texts name one path, and
which path lies within which.

* `Rooted` — the root of a text and what follows it.
* `normalizePathText_eq` — the normal form is the root and the segments that stay.
* `normalizePathText_normalizePathText` — when a normal form is its own.
* `pathIsWithin_iff` — containment is of components.
-/

namespace LlamaServerManager.References

open Lib Lib.Text

def dotDot : Str := ['.', '.']

/-! ### Roots -/

/-- The root of a text, and its body. -/
inductive Rooted (windows : Bool) : Str → Str → Prop where
  | unc (body) : windows = true → Rooted windows ['/', '/'] body
  | drive {c : Char} (body) : windows = true → c.toNat < 128 → Rooted windows [c, ':', '/'] body
  | posix {body : Str} : (windows = true → body.head? ≠ some '/' ∧ ¬[':', '/'] <+: body) →
      Rooted windows ['/'] body
  | relative {body : Str} : body.head? ≠ some '/' →
      (windows = true → isDriveRooted body = false) → Rooted windows [] body

theorem isDriveRooted_eq {value : Str} (drive : isDriveRooted value = true) :
    ∃ c body, value = c :: ':' :: '/' :: body ∧ c.toNat < 128 := by
  unfold isDriveRooted at drive
  split at drive
  · rename_i c body
    exact ⟨c, body, rfl, of_decide_eq_true drive⟩
  · cases drive

/-- Every text has a root. -/
theorem exists_rooted (windows : Bool) (value : Str) :
    ∃ root body, value = root ++ body ∧ Rooted windows root body := by
  by_cases unc : windows = true ∧ ['/', '/'] <+: value
  · obtain ⟨on, body, rfl⟩ := unc
    exact ⟨_, body, rfl, .unc body on⟩
  · by_cases drive : windows = true ∧ isDriveRooted value = true
    · obtain ⟨c, body, rfl, ascii⟩ := isDriveRooted_eq drive.2
      exact ⟨[c, ':', '/'], body, rfl, .drive body drive.1 ascii⟩
    · by_cases posix : value.head? = some '/'
      · obtain ⟨body, rfl⟩ := List.head?_eq_some_iff.mp posix
        refine ⟨['/'], body, rfl, .posix fun on => ⟨fun slash => ?_, ?_⟩⟩
        · obtain ⟨rest, rfl⟩ := List.head?_eq_some_iff.mp slash
          exact unc ⟨on, rest, rfl⟩
        · rintro ⟨rest, rfl⟩
          exact drive ⟨on, rfl⟩
      · refine ⟨[], value, rfl, .relative posix fun on => ?_⟩
        cases rooted : isDriveRooted value with
        | false => rfl
        | true => exact absurd ⟨on, rooted⟩ drive

/-- The root is empty or ends with a separator. -/
theorem Rooted.root_getLast {windows : Bool} {root body : Str} (rooted : Rooted windows root body) :
    root = [] ∨ root.getLast? = some '/' := by
  cases rooted with
  | unc => exact .inr rfl
  | drive => exact .inr rfl
  | posix => exact .inr rfl
  | relative => exact .inl rfl

/-! ### Segments -/

/-- The segments of a body that stay, the last one first. -/
def keptSegments (root body : Str) : List Str :=
  (body.splitOn '/').foldl
    (normalizeSegment (root ≠ []) (if root = ['/', '/'] then 2 else 0)) []

/-- The text that `normalize_path_text` makes of a value, before its letters. -/
def rootedText (root : Str) (segments : List Str) : Str :=
  root ++ ['/'].intercalate segments.reverse

/-- A text that names the current directory without a word for it gets the word. -/
def named (raw text : Str) : Str := if text = [] ∧ trimChars raw ≠ [] then ['.'] else text

section Host

variable {host : Host} {raw root body : Str}

/-- The text that is taken apart. -/
def pathValue (host : Host) (raw : Str) : Str :=
  if host.windows then windowsText raw else trimChars raw

def lowered (host : Host) (text : Str) : Str := if host.windows then host.toLowercase text else text

/-- How many characters of a text are its root. -/
def rootLength (windows : Bool) (value : Str) : Nat :=
  let isUnc := windows && ['/', '/'].isPrefixOf value
  let isDriveRooted := windows && isDriveRooted value
  let isPosixRooted := !isUnc && !isDriveRooted && ['/'].isPrefixOf value
  if isUnc then 2 else if isDriveRooted then 3 else if isPosixRooted then 1 else 0

theorem isPrefixOf_slash {rest text : Str} (other : text.head? ≠ some '/') :
    ('/' :: rest).isPrefixOf text = false := by
  cases text with
  | nil => rfl
  | cons c text =>
    have different : '/' ≠ c := fun same => other (by rw [same]; rfl)
    simp [List.isPrefixOf, different]

theorem Rooted.unc_iff {windows : Bool} (rooted : Rooted windows root body) :
    (windows && ['/', '/'].isPrefixOf (root ++ body)) = decide (root = ['/', '/']) := by
  cases rooted with
  | unc body on => simp [on]
  | drive body on ascii => simp [on, List.isPrefixOf]
  | @posix body free =>
    cases windows with
    | false => rfl
    | true => simp [isPrefixOf_slash (free rfl).1]
  | relative free drive => simp [isPrefixOf_slash free]

theorem Rooted.length {windows : Bool} (rooted : Rooted windows root body) :
    rootLength windows (root ++ body) = root.length := by
  have unc := rooted.unc_iff
  unfold rootLength
  simp only [unc]
  cases rooted with
  | unc body on => simp
  | drive body on ascii => simp [on, isDriveRooted, ascii]
  | @posix body free =>
    cases windows with
    | false => simp
    | true =>
      have drive : isDriveRooted ('/' :: body) = false := by
        unfold isDriveRooted
        split
        · rename_i c rest same
          obtain ⟨-, rfl⟩ := List.cons.inj same
          exact absurd ⟨rest, rfl⟩ (free rfl).2
        · rfl
      simp [drive]
  | @relative body free drive =>
    cases windows with
    | false => simp [isPrefixOf_slash free]
    | true => simp [isPrefixOf_slash free, drive rfl]

/-- **The normal form** is the root and the segments that stay. -/
theorem normalizePathText_eq (value : pathValue host raw = root ++ body)
    (rooted : Rooted host.windows root body) :
    normalizePathText host raw =
      lowered host (named raw (rootedText root (keptSegments root body))) := by
  have code : normalizePathText host raw = lowered host (named raw (
      let value := pathValue host raw
      let cut := rootLength host.windows value
      let joined := ['/'].intercalate (((value.drop cut).splitOn '/').foldl
        (normalizeSegment (cut ≠ 0)
          (if (host.windows && ['/', '/'].isPrefixOf value) = true then 2 else 0)) []).reverse
      if joined = [] then value.take cut
      else if value.take cut = [] ∨ (value.take cut).getLast? = some '/' then
        value.take cut ++ joined
      else value.take cut ++ '/' :: joined)) := rfl
  rw [code]
  simp only [value, rooted.length, rooted.unc_iff, List.take_left, List.drop_left]
  have segments : (body.splitOn '/').foldl (normalizeSegment (decide (root.length ≠ 0))
      (if decide (root = ['/', '/']) = true then 2 else 0)) [] = keptSegments root body := by
    simp [keptSegments]
  rw [segments]
  have last : ∀ joined : Str, (if joined = [] then root
      else if root = [] ∨ root.getLast? = some '/' then root ++ joined
      else root ++ '/' :: joined) = root ++ joined := by
    intro joined
    by_cases empty : joined = []
    · simp [empty]
    · rw [if_neg empty, if_pos rooted.root_getLast]
  rw [last]
  rfl

end Host

/-! ### What stays -/

/-- A segment that is a name. -/
structure Proper (segment : Str) : Prop where
  nonempty : segment ≠ []
  dot : segment ≠ ['.']
  up : segment ≠ dotDot
  free : '/' ∉ segment

/-- Names; and where there is no root, before them steps up. The last segment comes first. -/
def Folded (rooted : Bool) : List Str → Prop
  | [] => True
  | segment :: rest =>
    (Proper segment ∨ (rooted = false ∧ segment = dotDot ∧ ∀ other ∈ rest, other = dotDot)) ∧
      Folded rooted rest

section Fold

variable {rooted : Bool} {protectedSegments : Nat} {segments : List Str} {segment : Str}

theorem folded_normalizeSegment (unprotected : rooted = false → protectedSegments = 0)
    (free : '/' ∉ segment) (folded : Folded rooted segments) :
    Folded rooted (normalizeSegment rooted protectedSegments segments segment) := by
  unfold normalizeSegment
  split
  · exact folded
  · rename_i named
    obtain ⟨nonempty, dot⟩ := not_or.mp named
    split
    · rename_i up
      cases segments with
      | nil =>
        cases rooted with
        | true => simpa using folded
        | false => exact ⟨.inr ⟨rfl, up, by simp⟩, trivial⟩
      | cons last rest =>
        split
        · exact folded.2
        · rename_i stays
          cases rooted with
          | true => simpa using folded
          | false =>
            have zero := unprotected rfl
            have top : last = dotDot := by simpa [zero, dotDot] using stays
            obtain proper | ⟨-, -, below⟩ := folded.1
            · exact absurd top proper.up
            · exact ⟨.inr ⟨rfl, up, by simpa [top] using below⟩, folded⟩
    · rename_i up
      exact ⟨.inl ⟨nonempty, dot, up, free⟩, folded⟩

theorem folded_foldl (unprotected : rooted = false → protectedSegments = 0) {body : List Str}
    (free : ∀ segment ∈ body, '/' ∉ segment) (folded : Folded rooted segments) :
    Folded rooted (body.foldl (normalizeSegment rooted protectedSegments) segments) := by
  induction body generalizing segments with
  | nil => exact folded
  | cons segment body ih =>
    obtain ⟨first, free⟩ := List.forall_mem_cons.mp free
    exact ih free (folded_normalizeSegment unprotected first folded)

/-- What stays, stays again. -/
theorem foldl_reverse (folded : Folded rooted segments) :
    segments.reverse.foldl (normalizeSegment rooted protectedSegments) [] = segments := by
  induction segments with
  | nil => rfl
  | cons segment rest ih =>
    rw [List.reverse_cons, List.foldl_append, ih folded.2, List.foldl_cons, List.foldl_nil]
    unfold normalizeSegment
    obtain proper | ⟨unrooted, up, below⟩ := folded.1
    · rw [if_neg (not_or.mpr ⟨proper.nonempty, proper.dot⟩),
        if_neg (show segment ≠ ['.', '.'] from proper.up)]
    · have top : ¬(rest.length > protectedSegments ∧ rest.head? ≠ some ['.', '.']) := by
        rintro ⟨longer, different⟩
        cases rest with
        | nil => simp at longer
        | cons last rest => exact different (congrArg some (below last List.mem_cons_self))
      rw [up, if_neg (by simp [dotDot]), if_pos (show dotDot = ['.', '.'] from rfl), if_neg top]
      simp [unrooted]

theorem Folded.free (folded : Folded rooted segments) : ∀ s ∈ segments.reverse, '/' ∉ s := by
  intro s mem
  rw [List.mem_reverse] at mem
  induction segments with
  | nil => cases mem
  | cons segment rest ih =>
    rcases List.mem_cons.mp mem with rfl | mem
    · obtain proper | ⟨-, rfl, -⟩ := folded.1
      · exact proper.free
      · simp [dotDot]
    · exact ih folded.2 mem

theorem Folded.nonempty (folded : Folded rooted segments) : ∀ s ∈ segments.reverse, s ≠ [] := by
  intro s mem
  rw [List.mem_reverse] at mem
  induction segments with
  | nil => cases mem
  | cons segment rest ih =>
    rcases List.mem_cons.mp mem with rfl | mem
    · obtain proper | ⟨-, rfl, -⟩ := folded.1
      · exact proper.nonempty
      · simp [dotDot]
    · exact ih folded.2 mem

/-- After a name there are only names. -/
theorem Folded.names {first : Str} (folded : Folded rooted (segments ++ [first]))
    (name : first ≠ dotDot) (rooted' : Bool) : Folded rooted' segments := by
  induction segments with
  | nil => trivial
  | cons segment rest ih =>
    refine ⟨?_, ih folded.2⟩
    obtain proper | ⟨-, -, below⟩ := folded.1
    · exact .inl proper
    · exact absurd (below first (by simp)) name

/-- Of names, all are. -/
theorem folded_true (folded : Folded true segments) : ∀ s ∈ segments, Proper s := by
  induction segments with
  | nil => simp
  | cons segment rest ih =>
    obtain proper | ⟨unrooted, -⟩ := folded.1
    · exact List.forall_mem_cons.mpr ⟨proper, ih folded.2⟩
    · cases unrooted

theorem folded_of_proper (proper : ∀ s ∈ segments, Proper s) : Folded rooted segments := by
  induction segments with
  | nil => trivial
  | cons segment rest ih =>
    obtain ⟨first, proper⟩ := List.forall_mem_cons.mp proper
    exact ⟨.inl first, ih proper⟩

theorem unprotected_of_root (root : Str) :
    decide (root ≠ []) = false → (if root = ['/', '/'] then 2 else 0) = 0 := by
  intro none
  obtain rfl : root = [] := by simpa using none
  rfl

theorem folded_keptSegments (root body : Str) :
    Folded (decide (root ≠ [])) (keptSegments root body) :=
  folded_foldl (unprotected_of_root root) (fun _ mem => Segments.not_mem_of_mem_splitOn mem)
    trivial

theorem keptSegments_intercalate {root : Str} (folded : Folded (decide (root ≠ [])) segments) :
    keptSegments root (['/'].intercalate segments.reverse) = segments := by
  unfold keptSegments
  by_cases none : segments = []
  · subst none
    rfl
  · rw [List.splitOn_intercalate '/' folded.free (by simpa using none)]
    exact foldl_reverse folded

end Fold

/-! ### Normal forms -/

/-- The texts that are a root. -/
inductive IsRoot (windows : Bool) : Str → Prop where
  | unc : windows = true → IsRoot windows ['/', '/']
  | drive {c : Char} : windows = true → c.toNat < 128 → IsRoot windows [c, ':', '/']
  | posix : IsRoot windows ['/']
  | relative : IsRoot windows []

section Normal

variable {windows : Bool} {root body root' : Str} {segments : List Str}

theorem Rooted.isRoot (rooted : Rooted windows root body) : IsRoot windows root := by
  cases rooted with
  | unc _ on => exact .unc on
  | drive _ on ascii => exact .drive on ascii
  | posix _ => exact .posix
  | relative _ _ => exact .relative

/-- After a first name, the rest is names. -/
theorem exists_names {rooted : Bool} {first : Str} (folded : Folded rooted segments)
    (name : first ≠ dotDot) (free : '/' ∉ first)
    (same : ['/'].intercalate segments.reverse = first ++ '/' :: body) :
    ∃ kept, Folded true kept ∧ body = ['/'].intercalate kept.reverse := by
  have some_ : segments.reverse ≠ [] := by
    intro none
    simp [none] at same
  have split := List.splitOn_intercalate '/' folded.free some_
  rw [same, List.splitOn_append_cons_self_of_not_mem free] at split
  have whole : segments = (body.splitOn '/').reverse ++ [first] := by
    rw [← List.reverse_reverse segments, ← split, List.reverse_cons]
  rw [whole] at folded
  exact ⟨(body.splitOn '/').reverse, folded.names name true, by simp⟩

/-- However a clean text is taken apart, its body is clean. -/
theorem exists_segments (rooted : Rooted windows root body) (isRoot : IsRoot windows root')
    (folded : Folded (decide (root' ≠ [])) segments)
    (same : root ++ body = root' ++ ['/'].intercalate segments.reverse) :
    ∃ kept, Folded (decide (root ≠ [])) kept ∧ body = ['/'].intercalate kept.reverse := by
  have head : (['/'].intercalate segments.reverse).head? ≠ some '/' :=
    Segments.head_intercalate folded.nonempty folded.free
  have slash : ∀ text, ['/'].intercalate segments.reverse ≠ '/' :: text := by
    intro text begins
    rw [begins] at head
    exact head rfl
  cases rooted with
  | unc body on =>
    cases isRoot with
    | unc _ => exact ⟨segments, folded, by simpa using same⟩
    | drive _ _ => simp at same
    | posix => exact absurd (by simpa using same.symm) (slash body)
    | relative => exact absurd same.symm (slash _)
  | @drive c body on ascii =>
    cases isRoot with
    | unc _ => simp at same
    | drive _ _ => exact ⟨segments, folded, by simpa using And.right (by simpa using same)⟩
    | posix =>
      obtain ⟨rfl, joined⟩ := List.cons.inj same
      exact @exists_names body segments _ [':'] folded (by simp [dotDot]) (by simp) joined.symm
    | relative =>
      have other : c ≠ '/' := by
        rintro rfl
        exact slash _ same.symm
      have free : '/' ∉ [c, ':'] := by simpa using other.symm
      exact @exists_names body segments _ [c, ':'] folded (by simp [dotDot]) free same.symm
  | @posix body free =>
    cases isRoot with
    | unc on =>
      have begins : body = '/' :: ['/'].intercalate segments.reverse := by simpa using same
      exact absurd (by rw [begins]; rfl) (free on).1
    | drive on _ =>
      obtain ⟨rfl, begins⟩ := List.cons.inj same
      exact absurd ⟨_, begins.symm⟩ (free on).2
    | posix => exact ⟨segments, folded, by simpa using same⟩
    | relative => exact absurd same.symm (slash body)
  | @relative body free drive =>
    cases isRoot with
    | unc _ =>
      rw [List.nil_append] at same
      exact absurd (by rw [same]; rfl) free
    | @drive c on ascii =>
      have rooted := drive on
      rw [List.nil_append] at same
      simp [same, isDriveRooted, ascii] at rooted
    | posix =>
      rw [List.nil_append] at same
      exact absurd (by rw [same]; rfl) free
    | relative => exact ⟨segments, folded, same⟩

end Normal

/-! ### Lower case -/

/-- What the path functions rely on of `str::to_lowercase`: it maps words between separators one
by one, ASCII as ASCII does, and letters to letters; and it is done after once. -/
structure LowerCase (toLowercase : Str → Str) : Prop where
  cut : ∀ a b, toLowercase (a ++ '/' :: b) = toLowercase a ++ '/' :: toLowercase b
  ascii : ∀ text, (∀ c ∈ text, c.toNat < 128) → toLowercase text = text.map Char.toLower
  insensitive : ∀ text, toLowercase (text.map Char.toLower) = toLowercase text
  stable : ∀ text, toLowercase (toLowercase text) = toLowercase text
  /-- No punctuation is made. -/
  punctuation : ∀ text, ∀ c ∈ toLowercase text, c.toNat < 128 → c.isAlpha = false → c ∈ text
  /-- What has no letter had none. -/
  letters : ∀ text, (∀ c ∈ toLowercase text, c.toNat < 128 ∧ c.isAlpha = false) →
    toLowercase text = text

/-- The same of the texts that are lowered only on Windows. -/
structure Lowers (lower : Str → Str) : Prop where
  nil : lower [] = []
  cut : ∀ a b, lower (a ++ '/' :: b) = lower a ++ '/' :: lower b
  drive : ∀ c : Char, c.toNat < 128 → ∃ d : Char, d.toNat < 128 ∧ lower [c, ':'] = [d, ':']
  dots : ∀ text : Str, (∀ c ∈ text, c = '.') → lower text = text
  stable : ∀ text, lower (lower text) = lower text
  punctuation : ∀ text, ∀ c ∈ lower text, c.toNat < 128 → c.isAlpha = false → c ∈ text
  letters : ∀ text, (∀ c ∈ lower text, c.toNat < 128 ∧ c.isAlpha = false) → lower text = text

theorem toLower_lt {c : Char} (ascii : c.toNat < 128) : c.toLower.toNat < 128 := by
  obtain ⟨-, small, -⟩ | same := toLower_cases c
  · omega
  · rwa [same]

/-- Only small letters are made. -/
theorem toLower_eq {c d : Char} (eq : c.toLower = d) (other : d.toNat < 97 ∨ 122 < d.toNat) :
    c = d := by
  obtain ⟨first, last, -⟩ | same := toLower_cases c
  · rw [eq] at first last
    omega
  · exact same.symm.trans eq

section Lowered

variable {host : Host}

theorem lowers (unicode : host.windows = true → LowerCase host.toLowercase) :
    Lowers (lowered host) := by
  cases on : host.windows with
  | false =>
    have same : lowered host = id := by
      funext text
      simp [lowered, on]
    rw [same]
    exact ⟨rfl, fun _ _ => rfl, fun c ascii => ⟨c, ascii, rfl⟩, fun _ _ => rfl, fun _ => rfl,
      fun _ _ mem _ _ => mem, fun _ _ => rfl⟩
  | true =>
    have same : lowered host = host.toLowercase := by
      funext text
      simp [lowered, on]
    have unicode := unicode on
    rw [same]
    refine ⟨unicode.ascii [] (by simp), unicode.cut, fun c ascii => ?_, fun text dots => ?_,
      unicode.stable, unicode.punctuation, unicode.letters⟩
    · refine ⟨c.toLower, toLower_lt ascii, ?_⟩
      rw [unicode.ascii [c, ':'] (by simpa using ascii)]
      rfl
    · have ascii : ∀ c ∈ text, c.toNat < 128 := fun c mem => by simp [dots c mem]
      have same : ∀ c ∈ text, c.toLower = c := fun c mem => by rw [dots c mem]; rfl
      rw [unicode.ascii text ascii, List.map_congr_left same, List.map_id']

end Lowered

section Lower

variable {lower : Str → Str} {windows : Bool} {root : Str} {segments : List Str}

theorem Lowers.intercalate (lowers : Lowers lower) (segments : List Str) :
    lower (['/'].intercalate segments) = ['/'].intercalate (segments.map lower) := by
  induction segments with
  | nil => exact lowers.nil
  | cons s segments ih =>
    cases segments with
    | nil => simp
    | cons t segments =>
      rw [List.map_cons] at ih
      rw [List.map_cons, List.map_cons, List.intercalate_cons_cons, List.intercalate_cons_cons,
        List.append_assoc, List.append_assoc, List.singleton_append, List.singleton_append,
        lowers.cut, ih]

/-- A name stays a name. -/
theorem Lowers.proper (lowers : Lowers lower) {segment : Str} (proper : Proper segment) :
    Proper (lower segment) := by
  have same : ∀ text : Str, (∀ c ∈ text, c.toNat < 128 ∧ c.isAlpha = false) →
      lower segment = text → segment = text := by
    intro text marks eq
    rw [← lowers.letters segment (eq ▸ marks), eq]
  refine ⟨fun eq => ?_, fun eq => ?_, fun eq => ?_, fun mem => ?_⟩
  · exact proper.nonempty (same [] (by simp) eq)
  · exact proper.dot (same ['.'] (by simp) eq)
  · exact proper.up (same dotDot (by simp [dotDot]) eq)
  · exact proper.free (lowers.punctuation segment '/' mem (by decide) (by decide))

theorem Lowers.folded (lowers : Lowers lower) {rooted : Bool} (folded : Folded rooted segments) :
    Folded rooted (segments.map lower) := by
  induction segments with
  | nil => trivial
  | cons segment rest ih =>
    refine ⟨?_, ih folded.2⟩
    obtain proper | ⟨unrooted, up, below⟩ := folded.1
    · exact .inl (lowers.proper proper)
    · have same : lower dotDot = dotDot := lowers.dots dotDot (by simp [dotDot])
      refine .inr ⟨unrooted, up ▸ same, ?_⟩
      intro other mem
      obtain ⟨s, at_, rfl⟩ := List.mem_map.mp mem
      rw [below s at_, same]

/-- A root stays a root. -/
theorem Lowers.isRoot (lowers : Lowers lower) (isRoot : IsRoot windows root) :
    ∃ root', IsRoot windows root' ∧ (root' ≠ [] ↔ root ≠ []) ∧
      ∀ body, lower (root ++ body) = root' ++ lower body := by
  cases isRoot with
  | unc on =>
    refine ⟨['/', '/'], .unc on, by simp, fun body => ?_⟩
    have first := lowers.cut [] ('/' :: body)
    have second := lowers.cut [] body
    rw [lowers.nil, List.nil_append, List.nil_append] at first second
    rw [show ['/', '/'] ++ body = '/' :: '/' :: body from rfl, first, second]
    rfl
  | @drive c on ascii =>
    obtain ⟨d, ascii', eq⟩ := lowers.drive c ascii
    refine ⟨[d, ':', '/'], .drive on ascii', by simp, fun body => ?_⟩
    rw [show [c, ':', '/'] ++ body = [c, ':'] ++ '/' :: body from rfl, lowers.cut, eq]
    rfl
  | posix =>
    refine ⟨['/'], .posix, by simp, fun body => ?_⟩
    have first := lowers.cut [] body
    rw [lowers.nil, List.nil_append, List.nil_append] at first
    exact first
  | relative => exact ⟨[], .relative, by simp, fun body => rfl⟩

end Lower

/-! ### The second pass -/

def backslash : Char := '\x5c'

theorem mem_normalizeSegment {rooted : Bool} {protectedSegments : Nat} {segments : List Str}
    {segment s : Str} (mem : s ∈ normalizeSegment rooted protectedSegments segments segment) :
    s ∈ segments ∨ s = segment := by
  unfold normalizeSegment at mem
  split at mem
  · exact .inl mem
  · split at mem
    · split at mem
      · exact .inl (List.mem_of_mem_tail mem)
      · split at mem
        · exact (List.mem_cons.mp mem).symm
        · exact .inl mem
    · exact (List.mem_cons.mp mem).symm

theorem mem_foldl {rooted : Bool} {protectedSegments : Nat} {pieces segments : List Str} {s : Str}
    (mem : s ∈ pieces.foldl (normalizeSegment rooted protectedSegments) segments) :
    s ∈ segments ∨ s ∈ pieces := by
  induction pieces generalizing segments with
  | nil => exact .inl mem
  | cons piece pieces ih =>
    rcases ih mem with mem | mem
    · rcases mem_normalizeSegment mem with mem | rfl
      · exact .inl mem
      · exact .inr List.mem_cons_self
    · exact .inr (List.mem_cons_of_mem _ mem)

/-- Nothing is in a segment that was not in the body. -/
theorem mem_keptSegments {root body s : Str} (mem : s ∈ keptSegments root body) :
    ∀ c ∈ s, c ∈ body := by
  obtain none | piece := mem_foldl mem
  · cases none
  · exact Segments.mem_of_mem_splitOn piece

theorem backslash_not_mem_windowsText (raw : Str) : backslash ∉ windowsText raw := by
  have none : backslash ∉ (trimChars raw).map fun c => if c = '\\' then '/' else c := by
    intro mem
    obtain ⟨c, -, eq⟩ := List.mem_map.mp mem
    split at eq
    · exact absurd eq (by decide)
    · rename_i other
      exact other eq
  unfold windowsText
  dsimp only
  split
  · intro mem
    rcases List.mem_append.mp mem with mem | mem
    · exact absurd mem (by decide)
    · exact none (List.mem_of_mem_drop mem)
  · split
    · exact fun mem => none (List.mem_of_mem_drop mem)
    · exact none

def verbatim : Str := ['/', '/', '?', '/']

theorem verbatim_of_map {text : Str} (begins : verbatim <+: text.map Char.toLower) :
    verbatim <+: text := by
  obtain ⟨rest, whole⟩ := begins
  obtain ⟨a, text, rfl, ha, whole⟩ := List.map_eq_cons_iff.mp whole.symm
  obtain ⟨b, text, rfl, hb, whole⟩ := List.map_eq_cons_iff.mp whole
  obtain ⟨c, text, rfl, hc, whole⟩ := List.map_eq_cons_iff.mp whole
  obtain ⟨d, text, rfl, hd, whole⟩ := List.map_eq_cons_iff.mp whole
  rw [toLower_eq ha (by decide), toLower_eq hb (by decide), toLower_eq hc (by decide),
    toLower_eq hd (by decide)]
  exact ⟨text, rfl⟩

/-- A trimmed text without `\` or verbatim mark is taken as it is. -/
theorem windowsText_eq_self {text : Str} (trimmed : trimChars text = text)
    (slashes : backslash ∉ text) (plain : ¬verbatim <+: text) : windowsText text = text := by
  have same : (text.map fun c => if c = '\\' then '/' else c) = text := by
    have each : ∀ c ∈ text, (if c = '\\' then '/' else c) = c := by
      intro c mem
      rw [if_neg]
      rintro rfl
      exact slashes mem
    rw [List.map_congr_left each, List.map_id']
  have unmarked : ¬"//?/".toList.isPrefixOf (text.map Char.toLower) = true := fun begins =>
    plain (verbatim_of_map (List.isPrefixOf_iff_prefix.mp begins))
  have noUnc : ¬"//?/unc/".toList.isPrefixOf (text.map Char.toLower) = true := fun begins =>
    plain (verbatim_of_map (List.IsPrefix.trans ⟨['u', 'n', 'c', '/'], rfl⟩
      (List.isPrefixOf_iff_prefix.mp begins)))
  unfold windowsText
  simp only [trimmed, same, if_neg noUnc, if_neg unmarked]

section Idempotence

variable {host : Host} {raw : Str}

/-- A text that is nothing but the current directory, or nothing. -/
theorem normalizePathText_small {text : Str} (small : text = [] ∨ text = ['.'])
    (unicode : host.windows = true → LowerCase host.toLowercase) :
    normalizePathText host text = text := by
  have value : pathValue host text = [] ++ text := by
    unfold pathValue
    rcases small with rfl | rfl <;> split <;> rfl
  have rooted : Rooted host.windows [] text := by
    rcases small with rfl | rfl <;> exact .relative (by simp) fun _ => rfl
  rw [normalizePathText_eq value rooted]
  have same : named text (rootedText [] (keptSegments [] text)) = text := by
    rcases small with rfl | rfl <;> rfl
  rw [same]
  apply (lowers unicode).dots
  rcases small with rfl | rfl <;> simp

theorem backslash_not_mem_normalizePathText (on : host.windows = true)
    (unicode : host.windows = true → LowerCase host.toLowercase) :
    backslash ∉ normalizePathText host raw := by
  obtain ⟨root, body, value, rooted⟩ := exists_rooted host.windows (pathValue host raw)
  rw [normalizePathText_eq value rooted]
  intro mem
  have free : backslash ∉ pathValue host raw := by
    rw [pathValue, if_pos on]
    exact backslash_not_mem_windowsText raw
  rw [value] at free
  have mem := (lowers unicode).punctuation _ backslash mem (by decide) (by decide)
  unfold named at mem
  split at mem
  · exact absurd mem (by decide)
  · rcases List.mem_append.mp mem with mem | mem
    · exact free (List.mem_append_left _ mem)
    · rcases Segments.mem_intercalate mem with slash | ⟨s, at_, mem⟩
      · exact absurd slash (by decide)
      · exact free (List.mem_append_right _ (mem_keptSegments (List.mem_reverse.mp at_) _ mem))

/-- **A normal form is its own**, unless trimming or the verbatim mark changes it: white space
at its ends, or `//?/` at its beginning. -/
theorem normalizePathText_normalizePathText
    (unicode : host.windows = true → LowerCase host.toLowercase)
    (trimmed : trimChars (normalizePathText host raw) = normalizePathText host raw)
    (plain : host.windows = true → ¬verbatim <+: normalizePathText host raw) :
    normalizePathText host (normalizePathText host raw) = normalizePathText host raw := by
  have value' : pathValue host (normalizePathText host raw) = normalizePathText host raw := by
    unfold pathValue
    split
    · rename_i on
      exact windowsText_eq_self trimmed (backslash_not_mem_normalizePathText on unicode) (plain on)
    · exact trimmed
  obtain ⟨root, body, value, rooted⟩ := exists_rooted host.windows (pathValue host raw)
  have code := normalizePathText_eq value rooted
  have lowers := lowers unicode
  have folded := folded_keptSegments root body
  generalize keptSegments root body = segments at code folded
  by_cases empty : rootedText root segments = []
  · -- nothing stays
    apply normalizePathText_small _ unicode
    rw [code, empty, named]
    split
    · exact .inr (lowers.dots _ (by simp))
    · exact .inl lowers.nil
  · rw [named, if_neg fun none => empty none.1] at code
    obtain ⟨root', isRoot, root_iff, mapped⟩ := lowers.isRoot rooted.isRoot
    have clean : normalizePathText host raw =
        root' ++ ['/'].intercalate (segments.map (lowered host)).reverse := by
      rw [code, rootedText, mapped, lowers.intercalate, List.map_reverse]
    have folded' : Folded (decide (root' ≠ [])) (segments.map (lowered host)) := by
      rw [decide_eq_decide.mpr root_iff]
      exact lowers.folded folded
    have nonempty : normalizePathText host raw ≠ [] := by
      intro none
      rw [none] at code
      have same := lowers.letters (rootedText root segments) (by simp [← code])
      exact empty (same.symm.trans code.symm)
    have stable : lowered host (normalizePathText host raw) = normalizePathText host raw := by
      rw [code, lowers.stable]
    generalize normalizePathText host raw = normal at *
    obtain ⟨root₂, body₂, parts, rooted₂⟩ := exists_rooted host.windows normal
    obtain ⟨kept, folded₂, rfl⟩ := exists_segments rooted₂ isRoot folded' (parts.symm.trans clean)
    rw [normalizePathText_eq (value'.trans parts) rooted₂, keptSegments_intercalate folded₂,
      rootedText, ← parts, named, if_neg fun none => nonempty none.1, stable]

end Idempotence

end LlamaServerManager.References
