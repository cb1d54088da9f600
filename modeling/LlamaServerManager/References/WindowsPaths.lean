import LlamaServerManager.References.Containment

/-!
On Windows one path has many texts. The normal form (`path_utils.rs`) does not tell them apart
by the direction of the slashes, the case of ASCII letters, the verbatim mark or a separator at
the end.

* `normalizePathText_slashed`, `normalizePathText_toLower` — slashes and letters.
* `normalizePathText_verbatim`, `normalizePathText_unc` — the verbatim mark.
* `normalizePathText_trailing` — a separator at the end.
* `pathIdentity` — all that holds of normal forms and containment.
-/

namespace LlamaServerManager.References

open Lib Lib.Text

def slash (c : Char) : Char := if c = '\x5c' then '/' else c

/-- A text with `/` for `\`. -/
def slashed (text : Str) : Str := text.map slash

/-- A text without its verbatim mark. -/
def unmarked (value : Str) : Str :=
  if "//?/unc/".toList <+: value.map Char.toLower then '/' :: '/' :: value.drop 8
  else if verbatim <+: value.map Char.toLower then value.drop 4
  else value

theorem windowsText_eq (raw : Str) : windowsText raw = unmarked (slashed (trimChars raw)) := by
  unfold windowsText unmarked
  simp only [List.isPrefixOf_iff_prefix]
  rfl

/-! ### Trimming -/

section Trimming

variable {a b : Str}

theorem trimChars_map {f : Char → Char} (same : ∀ c, isWhitespace (f c) = isWhitespace c)
    (text : Str) : trimChars (text.map f) = (trimChars text).map f := by
  have comp : isWhitespace ∘ f = isWhitespace := funext same
  unfold trimChars List.rdropWhile
  rw [List.dropWhile_map, comp, ← List.map_reverse, List.dropWhile_map, comp, List.map_reverse]

theorem isWhitespace_slash (c : Char) : isWhitespace (slash c) = isWhitespace c := by
  unfold slash
  split
  · rename_i eq
    rw [eq]
    rfl
  · rfl

theorem black_of_slashed (black : ∀ c ∈ slashed a, isWhitespace c = false) :
    ∀ c ∈ a, isWhitespace c = false := fun c mem => by
  rw [← isWhitespace_slash]
  exact black _ (List.mem_map_of_mem mem)

theorem trimChars_slashed (raw : Str) : trimChars (slashed raw) = slashed (trimChars raw) :=
  trimChars_map isWhitespace_slash raw

/-- Behind a text that ends in no white space, what is trimmed is the rest's. -/
theorem rdropWhile_append (last : ∀ c ∈ a.getLast?, isWhitespace c = false) (b : Str) :
    (a ++ b).rdropWhile isWhitespace = a ++ b.rdropWhile isWhitespace := by
  have kept : a.reverse.dropWhile isWhitespace = a.reverse := by
    cases ends : a.reverse with
    | nil => rfl
    | cons c rest =>
      have black := last c (by simp [List.getLast?_eq_head?_reverse, ends])
      rw [List.dropWhile_cons, if_neg (by simp [black])]
  unfold List.rdropWhile
  rw [List.reverse_append, List.dropWhile_append]
  split
  · rename_i none
    rw [List.isEmpty_iff.mp none, kept]
    simp
  · rw [List.reverse_append, List.reverse_reverse]

theorem trimChars_append (some_ : a ≠ []) (black : ∀ c ∈ a, isWhitespace c = false) (b : Str) :
    trimChars (a ++ b) = a ++ b.rdropWhile isWhitespace := by
  obtain ⟨c, rest, rfl⟩ := List.exists_cons_of_ne_nil some_
  have begins : ((c :: rest) ++ b).dropWhile isWhitespace = (c :: rest) ++ b := by
    rw [List.cons_append, List.dropWhile_cons, if_neg (by simp [black c List.mem_cons_self])]
  unfold trimChars
  rw [begins, rdropWhile_append fun d ends => black d (List.mem_of_getLast? ends)]

/-- A text that begins with no white space is trimmed at its end. -/
theorem trimChars_of_head {c : Char} (first : a.head? = some c) (black : isWhitespace c = false) :
    trimChars a = a.rdropWhile isWhitespace := by
  obtain ⟨rest, rfl⟩ := List.head?_eq_some_iff.mp first
  unfold trimChars
  rw [List.dropWhile_cons, if_neg (by simp [black])]

/-- A text that ends in no white space is trimmed at its beginning, whatever follows. -/
theorem trimChars_snoc {d : Char} (ends : a.getLast? = some d) (black : isWhitespace d = false)
    {e : Char} (black' : isWhitespace e = false) :
    trimChars (a ++ [e]) = trimChars a ++ [e] := by
  obtain ⟨rest, rfl⟩ := List.getLast?_eq_some_iff.mp ends
  have keeps : ((rest ++ [d]) ++ [e]).dropWhile isWhitespace =
      (rest ++ [d]).dropWhile isWhitespace ++ [e] := by
    rw [@List.dropWhile_append _ _ (rest ++ [d]) [e], if_neg]
    simp [List.isEmpty_iff, black]
  have stays : ((rest ++ [d]).dropWhile isWhitespace).rdropWhile isWhitespace =
      (rest ++ [d]).dropWhile isWhitespace := by
    apply List.rdropWhile_eq_self_iff.mpr
    intro some_
    obtain ⟨before, whole⟩ := List.dropWhile_suffix (l := rest ++ [d]) isWhitespace
    have same : ((rest ++ [d]).dropWhile isWhitespace).getLast some_ = d := by
      have all := List.getLast_append_of_ne_nil
        (List.append_ne_nil_of_right_ne_nil before some_) some_
      simp only [whole, List.getLast_concat] at all
      exact all.symm
    simp [same, black]
  unfold trimChars
  rw [keeps, stays, List.rdropWhile_concat_neg isWhitespace _ e (by simp [black'])]

end Trimming

/-! ### Letters -/

/-- A text with small letters of ASCII for capitals. -/
def asciiLower (text : Str) : Str := text.map Char.toLower

theorem toLower_toLower (c : Char) : c.toLower.toLower = c.toLower := by
  obtain ⟨first, -, -, -⟩ | same := toLower_cases c
  · obtain ⟨-, -, -, last⟩ | same := toLower_cases c.toLower
    · omega
    · exact same
  · rw [same, same]

/-- A character that letters are not made of. -/
def IsMark (c : Char) : Prop := c.toLower = c ∧ (c.toNat < 97 ∨ 122 < c.toNat)

theorem IsMark.toLower_iff {c d : Char} (mark : IsMark d) : c.toLower = d ↔ c = d := by
  constructor
  · exact fun eq => toLower_eq eq mark.2
  · rintro rfl
    exact mark.1

theorem isMark_slash : IsMark '/' := ⟨rfl, .inl (by decide)⟩

theorem isMark_dot : IsMark '.' := ⟨rfl, .inl (by decide)⟩

theorem isMark_colon : IsMark ':' := ⟨rfl, .inl (by decide)⟩

theorem isMark_backslash : IsMark '\x5c' := ⟨rfl, .inl (by decide)⟩

section Letters

variable {text marks : Str}

theorem asciiLower_eq_iff (each : ∀ c ∈ marks, IsMark c) :
    asciiLower text = marks ↔ text = marks := by
  induction marks generalizing text with
  | nil => simp [asciiLower]
  | cons d marks ih =>
    obtain ⟨mark, each⟩ := List.forall_mem_cons.mp each
    cases text with
    | nil => simp [asciiLower]
    | cons c text =>
      have rest := @ih text each
      unfold asciiLower at rest ⊢
      rw [List.map_cons, List.cons.injEq, List.cons.injEq, mark.toLower_iff, rest]

theorem mem_asciiLower_iff {d : Char} (mark : IsMark d) : d ∈ asciiLower text ↔ d ∈ text := by
  simp [asciiLower, mark.toLower_iff]

theorem asciiLower_intercalate (segments : List Str) :
    asciiLower (['/'].intercalate segments) = ['/'].intercalate (segments.map asciiLower) := by
  induction segments with
  | nil => rfl
  | cons s segments ih =>
    cases segments with
    | nil => simp
    | cons t segments =>
      rw [List.map_cons] at ih
      rw [List.map_cons, List.map_cons, List.intercalate_cons_cons, List.intercalate_cons_cons,
        ← ih]
      simp [asciiLower]

theorem splitOn_asciiLower (body : Str) :
    (asciiLower body).splitOn '/' = (body.splitOn '/').map asciiLower := by
  have free : ∀ s ∈ (body.splitOn '/').map asciiLower, '/' ∉ s := by
    intro s mem
    obtain ⟨t, at_, rfl⟩ := List.mem_map.mp mem
    rw [mem_asciiLower_iff isMark_slash]
    exact Segments.not_mem_of_mem_splitOn at_
  have some_ : (body.splitOn '/').map asciiLower ≠ [] := by simp
  rw [← List.splitOn_intercalate '/' free some_, ← asciiLower_intercalate, List.intercalate_splitOn]

theorem normalizeSegment_asciiLower (rooted : Bool) (protectedSegments : Nat)
    (segments : List Str) (segment : Str) :
    normalizeSegment rooted protectedSegments (segments.map asciiLower) (asciiLower segment) =
      (normalizeSegment rooted protectedSegments segments segment).map asciiLower := by
  have none := @asciiLower_eq_iff segment [] (by simp)
  have dot := @asciiLower_eq_iff segment ['.'] (by simp [isMark_dot])
  have up := fun text => @asciiLower_eq_iff text ['.', '.'] (by simp [isMark_dot])
  have last : (segments.map asciiLower).head? ≠ some ['.', '.'] ↔
      segments.head? ≠ some ['.', '.'] := by
    cases segments with
    | nil => simp
    | cons s segments => simp [up]
  unfold normalizeSegment
  simp only [none, dot, up, last, List.length_map]
  split
  · rfl
  · split
    · split
      · rw [List.map_tail]
      · split <;> rfl
    · rfl

theorem foldl_asciiLower (rooted : Bool) (protectedSegments : Nat) (pieces segments : List Str) :
    (pieces.map asciiLower).foldl (normalizeSegment rooted protectedSegments)
        (segments.map asciiLower) =
      (pieces.foldl (normalizeSegment rooted protectedSegments) segments).map asciiLower := by
  induction pieces generalizing segments with
  | nil => rfl
  | cons piece pieces ih =>
    rw [List.map_cons, List.foldl_cons, List.foldl_cons, normalizeSegment_asciiLower, ih]

theorem keptSegments_asciiLower (root body : Str) :
    keptSegments (asciiLower root) (asciiLower body) =
      (keptSegments root body).map asciiLower := by
  have none := @asciiLower_eq_iff root [] (by simp)
  have unc := @asciiLower_eq_iff root ['/', '/'] (by simp [isMark_slash])
  unfold keptSegments
  simp only [ne_eq, none, unc, splitOn_asciiLower]
  exact foldl_asciiLower _ _ _ []

theorem head_asciiLower_iff {d : Char} (mark : IsMark d) :
    (asciiLower text).head? = some d ↔ text.head? = some d := by
  cases text with
  | nil => simp [asciiLower]
  | cons c text => simp [asciiLower, mark.toLower_iff]

theorem isDriveRooted_asciiLower (text : Str) :
    isDriveRooted (asciiLower text) = true ↔ isDriveRooted text = true := by
  have one : ∀ c : Char, c.toLower.toNat < 128 ↔ c.toNat < 128 := by
    intro c
    obtain ⟨-, last, -, last'⟩ | same := toLower_cases c
    · omega
    · rw [same]
  constructor
  · intro drive
    obtain ⟨c, body, eq, ascii⟩ := isDriveRooted_eq drive
    obtain ⟨a, _, rfl, rfl, rest⟩ := List.map_eq_cons_iff.mp eq
    obtain ⟨b, _, rfl, colon, rest⟩ := List.map_eq_cons_iff.mp rest
    obtain ⟨d, text, rfl, sep, rest⟩ := List.map_eq_cons_iff.mp rest
    obtain rfl := isMark_colon.toLower_iff.mp colon
    obtain rfl := isMark_slash.toLower_iff.mp sep
    exact decide_eq_true ((one a).mp ascii)
  · intro drive
    obtain ⟨c, body, rfl, ascii⟩ := isDriveRooted_eq drive
    exact decide_eq_true ((one c).mpr ascii)

theorem Rooted.asciiLower {windows : Bool} {root body : Str} (rooted : Rooted windows root body) :
    Rooted windows (asciiLower root) (asciiLower body) := by
  cases rooted with
  | unc body on => exact .unc _ on
  | drive body on ascii => exact .drive _ on (toLower_lt ascii)
  | @posix body free =>
    refine .posix fun on => ⟨?_, ?_⟩
    · rw [ne_eq, head_asciiLower_iff isMark_slash]
      exact (free on).1
    · rintro ⟨rest, eq⟩
      obtain ⟨b, text, rfl, colon, eq⟩ := List.map_eq_cons_iff.mp eq.symm
      obtain ⟨d, text, rfl, sep, -⟩ := List.map_eq_cons_iff.mp eq
      obtain rfl := isMark_colon.toLower_iff.mp colon
      obtain rfl := isMark_slash.toLower_iff.mp sep
      exact (free on).2 ⟨text, rfl⟩
  | @relative body free drive =>
    refine .relative ?_ fun on => ?_
    · rw [ne_eq, head_asciiLower_iff isMark_slash]
      exact free
    · rw [Bool.eq_false_iff, ne_eq, isDriveRooted_asciiLower, ← ne_eq, ← Bool.eq_false_iff]
      exact drive on

theorem unmarked_asciiLower (value : Str) :
    unmarked (asciiLower value) = asciiLower (unmarked value) := by
  have twice : (asciiLower value).map Char.toLower = value.map Char.toLower := by
    unfold asciiLower
    rw [List.map_map]
    exact List.map_congr_left fun c _ => toLower_toLower c
  unfold unmarked
  rw [twice]
  split
  · simp [asciiLower]
  · split
    · simp [asciiLower]
    · rfl

theorem slashed_asciiLower (text : Str) :
    slashed (asciiLower text) = asciiLower (slashed text) := by
  unfold slashed asciiLower
  rw [List.map_map, List.map_map]
  apply List.map_congr_left
  intro c _
  unfold slash
  simp only [Function.comp_apply, isMark_backslash.toLower_iff]
  split <;> rfl

theorem trimChars_asciiLower (text : Str) :
    trimChars (asciiLower text) = asciiLower (trimChars text) :=
  trimChars_map isWhitespace_toLower text

theorem windowsText_asciiLower (raw : Str) :
    windowsText (asciiLower raw) = asciiLower (windowsText raw) := by
  rw [windowsText_eq, trimChars_asciiLower, slashed_asciiLower, unmarked_asciiLower,
    windowsText_eq]

end Letters

/-! ### Slashes and letters -/

section Windows

variable {host : Host} {raw raw' : Str}

/-- What is taken apart, and whether there is anything, makes the normal form. -/
theorem normalizePathText_congr (value : pathValue host raw = pathValue host raw')
    (blank : trimChars raw = [] ↔ trimChars raw' = []) :
    normalizePathText host raw = normalizePathText host raw' := by
  obtain ⟨root, body, parts, rooted⟩ := exists_rooted host.windows (pathValue host raw)
  rw [normalizePathText_eq parts rooted, normalizePathText_eq (value.symm.trans parts) rooted]
  simp [named, blank]

/-- **Slashes** are one. -/
theorem normalizePathText_slashed (on : host.windows = true) (same : slashed raw = slashed raw') :
    normalizePathText host raw = normalizePathText host raw' := by
  have trimmed : slashed (trimChars raw) = slashed (trimChars raw') := by
    rw [← trimChars_slashed, same, trimChars_slashed]
  apply normalizePathText_congr
  · rw [pathValue, pathValue, if_pos on, if_pos on, windowsText_eq, windowsText_eq, trimmed]
  · have length := congrArg List.length trimmed
    rw [slashed, slashed, List.length_map, List.length_map] at length
    rw [← List.length_eq_zero_iff, length, List.length_eq_zero_iff]

/-- **Letters** of ASCII are small. -/
theorem normalizePathText_asciiLower (on : host.windows = true)
    (unicode : LowerCase host.toLowercase) :
    normalizePathText host (asciiLower raw) = normalizePathText host raw := by
  obtain ⟨root, body, parts, rooted⟩ := exists_rooted host.windows (pathValue host raw)
  have parts' : pathValue host (asciiLower raw) = asciiLower root ++ asciiLower body := by
    rw [pathValue, if_pos on] at parts ⊢
    rw [windowsText_asciiLower, parts]
    simp [asciiLower]
  have text : named (asciiLower raw) (rootedText (asciiLower root)
      (keptSegments (asciiLower root) (asciiLower body))) =
      asciiLower (named raw (rootedText root (keptSegments root body))) := by
    have whole : rootedText (asciiLower root) (keptSegments (asciiLower root) (asciiLower body)) =
        asciiLower (rootedText root (keptSegments root body)) := by
      rw [keptSegments_asciiLower, rootedText, rootedText, ← List.map_reverse,
        ← asciiLower_intercalate]
      simp [asciiLower]
    rw [whole]
    unfold named
    simp only [trimChars_asciiLower, @asciiLower_eq_iff _ [] (by simp), ne_eq]
    split <;> rfl
  rw [normalizePathText_eq parts rooted, normalizePathText_eq parts' rooted.asciiLower, text,
    lowered, lowered, if_pos on, if_pos on]
  exact unicode.insensitive _

/-- **Letters** of ASCII are one, small or capital. -/
theorem normalizePathText_toLower (on : host.windows = true) (unicode : LowerCase host.toLowercase)
    (same : asciiLower raw = asciiLower raw') :
    normalizePathText host raw = normalizePathText host raw' := by
  rw [← normalizePathText_asciiLower on unicode, same, normalizePathText_asciiLower on unicode]

end Windows

/-! ### The verbatim mark -/

section Verbatim

variable {host : Host} {value p : Str}

theorem unmarked_eq_self (plain : ¬verbatim <+: value) : unmarked value = value := by
  have unmarked_ : ¬verbatim <+: value.map Char.toLower := fun begins =>
    plain (verbatim_of_map begins)
  have noUnc : ¬"//?/unc/".toList <+: value.map Char.toLower := fun begins =>
    unmarked_ (List.IsPrefix.trans ⟨['u', 'n', 'c', '/'], rfl⟩ begins)
  rw [unmarked, if_neg noUnc, if_neg unmarked_]

theorem slashed_append (a b : Str) : slashed (a ++ b) = slashed a ++ slashed b := List.map_append

theorem slashed_prefix {a b : Str} (begins : a <+: b) : slashed a <+: slashed b := begins.map slash

/-- **The verbatim mark** before a path. -/
theorem normalizePathText_verbatim (on : host.windows = true) {mark : Str}
    (isMark : slashed mark = verbatim) {c : Char} (first : p.head? = some c)
    (black : isWhitespace c = false) (once : ¬verbatim <+: slashed p)
    (noUnc : ¬"unc/".toList <+: asciiLower (slashed p)) :
    normalizePathText host (mark ++ p) = normalizePathText host p := by
  have some_ : mark ≠ [] := by
    rintro rfl
    cases isMark
  have blackMark : ∀ c ∈ mark, isWhitespace c = false := by
    apply black_of_slashed
    rw [isMark]
    simp [verbatim, isWhitespace]
  have trimmed : trimChars (mark ++ p) = mark ++ trimChars p := by
    rw [trimChars_append some_ blackMark, trimChars_of_head first black]
  have begins : slashed (trimChars p) <+: slashed p := by
    rw [trimChars_of_head first black]
    exact slashed_prefix (List.rdropWhile_prefix _ _)
  have plain : ¬verbatim <+: slashed (trimChars p) := fun marked => once (marked.trans begins)
  have value : unmarked (verbatim ++ slashed (trimChars p)) = slashed (trimChars p) := by
    have whole : (verbatim ++ slashed (trimChars p)).map Char.toLower =
        verbatim ++ (slashed (trimChars p)).map Char.toLower := by
      rw [List.map_append]
      rfl
    have other : ¬"//?/unc/".toList <+: verbatim ++ (slashed (trimChars p)).map Char.toLower := by
      intro unc
      exact noUnc (((List.prefix_append_right_inj verbatim).mp unc).trans (begins.map _))
    unfold unmarked
    rw [whole, if_neg other, if_pos (List.prefix_append _ _)]
    rfl
  apply normalizePathText_congr
  · rw [pathValue, pathValue, if_pos on, if_pos on, windowsText_eq, windowsText_eq, trimmed,
      slashed_append, isMark, value, unmarked_eq_self plain]
  · have blank : trimChars p ≠ [] := by
      obtain ⟨rest, rfl⟩ := List.head?_eq_some_iff.mp first
      rw [← List.singleton_append, trimChars_append (by simp) (by simpa using black)]
      simp
    simp [trimmed, some_, blank]

/-- **The verbatim mark** before the two slashes of a share. -/
theorem normalizePathText_unc (on : host.windows = true) {mark share : Str}
    (isMark : asciiLower (slashed mark) = "//?/unc/".toList)
    (isShare : slashed share = ['/', '/']) (plain : ¬['?', '/'] <+: slashed p) :
    normalizePathText host (mark ++ p) = normalizePathText host (share ++ p) := by
  have some_ : mark ≠ [] := by
    rintro rfl
    cases isMark
  have some_' : share ≠ [] := by
    rintro rfl
    cases isShare
  have blackMark : ∀ c ∈ mark, isWhitespace c = false := by
    apply black_of_slashed
    intro c mem
    rw [← isWhitespace_toLower]
    have at_ : c.toLower ∈ asciiLower (slashed mark) := List.mem_map_of_mem mem
    have all : "//?/unc/".toList.all (fun d => !isWhitespace d) = true := rfl
    simpa using List.all_eq_true.mp all _ (isMark ▸ at_)
  have blackShare : ∀ c ∈ share, isWhitespace c = false := by
    apply black_of_slashed
    rw [isShare]
    simp [isWhitespace]
  have trimmed := trimChars_append some_ blackMark p
  have trimmed' := trimChars_append some_' blackShare p
  have begins : slashed (p.rdropWhile isWhitespace) <+: slashed p :=
    slashed_prefix (List.rdropWhile_prefix _ _)
  generalize p.rdropWhile isWhitespace = rest at trimmed trimmed' begins
  have length : (slashed mark).length = 8 := by
    have same := congrArg List.length isMark
    rwa [asciiLower, List.length_map] at same
  have value : unmarked (slashed mark ++ slashed rest) = ['/', '/'] ++ slashed rest := by
    have unc : "//?/unc/".toList <+: (slashed mark ++ slashed rest).map Char.toLower := by
      rw [List.map_append, show (slashed mark).map Char.toLower = _ from isMark]
      exact List.prefix_append _ _
    unfold unmarked
    rw [if_pos unc, ← length, List.drop_left]
    rfl
  have value' : unmarked (['/', '/'] ++ slashed rest) = ['/', '/'] ++ slashed rest := by
    apply unmarked_eq_self
    intro marked
    have inner : ['?', '/'] <+: slashed rest :=
      (List.prefix_append_right_inj ['/', '/']).mp marked
    exact plain (inner.trans begins)
  apply normalizePathText_congr
  · rw [pathValue, pathValue, if_pos on, if_pos on, windowsText_eq, windowsText_eq, trimmed,
      trimmed', slashed_append, slashed_append, isShare, value, value']
  · simp [trimmed, trimmed', some_, some_']

end Verbatim

/-! ### A separator at the end -/

/-- The texts that a separator makes a root, or another one. -/
def BareRoot (value : Str) : Prop :=
  value = [] ∨ value = ['/'] ∨ ∃ c : Char, c.toNat < 128 ∧ value = [c, ':']

section Trailing

variable {host : Host} {root body value p : Str}

theorem unmarked_append (unc : asciiLower value ≠ "//?/unc".toList)
    (mark : asciiLower value ≠ "//?".toList) :
    unmarked (value ++ ['/']) = unmarked value ++ ['/'] := by
  have whole : (value ++ ['/']).map Char.toLower = value.map Char.toLower ++ ['/'] :=
    List.map_append
  have same : ∀ text : Str, asciiLower value ≠ text →
      (text ++ ['/'] <+: (value ++ ['/']).map Char.toLower ↔
        text ++ ['/'] <+: value.map Char.toLower) := by
    intro text other
    rw [whole, List.prefix_concat_iff, or_iff_right]
    intro eq
    exact other (List.append_inj_left' eq rfl).symm
  have first := same _ unc
  have second := same _ mark
  have lengths : ∀ text : Str, text <+: value.map Char.toLower → text.length ≤ value.length := by
    intro text begins
    simpa using begins.length_le
  unfold unmarked
  simp only [show "//?/unc/".toList = "//?/unc".toList ++ ['/'] from rfl,
    show verbatim = "//?".toList ++ ['/'] from rfl, first, second]
  split
  · rename_i begins
    have long : 8 ≤ value.length := lengths _ begins
    rw [List.drop_append_of_le_length long]
    rfl
  · split
    · rename_i begins
      have long : 4 ≤ value.length := lengths _ begins
      rw [List.drop_append_of_le_length long]
    · rfl

theorem Rooted.concat (rooted : Rooted true root body) (more : ¬BareRoot (root ++ body)) :
    Rooted true root (body ++ ['/']) := by
  have head : body ≠ [] → (body ++ ['/']).head? = body.head? := by
    intro some_
    cases body with
    | nil => exact absurd rfl some_
    | cons c body => rfl
  cases rooted with
  | unc body on => exact .unc _ on
  | drive body on ascii => exact .drive _ on ascii
  | @posix body free =>
    obtain ⟨slash, drive⟩ := free rfl
    have some_ : body ≠ [] := by
      rintro rfl
      exact more (.inr (.inl rfl))
    refine .posix fun _ => ⟨by rwa [head some_], fun begins => ?_⟩
    rcases List.prefix_concat_iff.mp begins with eq | begins
    · obtain ⟨rfl, -⟩ := @List.append_inj' _ [':'] ['/'] body ['/'] eq rfl
      exact more (.inr (.inr ⟨'/', by decide, rfl⟩))
    · exact drive begins
  | @relative body free drive =>
    have some_ : body ≠ [] := by
      rintro rfl
      exact more (.inl rfl)
    refine .relative (by rwa [head some_]) fun _ => ?_
    rw [Bool.eq_false_iff]
    intro rooted
    obtain ⟨c, rest, whole, ascii⟩ := isDriveRooted_eq rooted
    rcases List.eq_nil_or_concat rest with rfl | ⟨rest, e, rfl⟩
    · obtain ⟨rfl, -⟩ := @List.append_inj' _ body ['/'] [c, ':'] ['/'] whole rfl
      exact more (.inr (.inr ⟨c, ascii, rfl⟩))
    · have split : body ++ ['/'] = (c :: ':' :: '/' :: rest) ++ [e] := by simpa using whole
      obtain ⟨rfl, -⟩ := List.append_inj' split rfl
      simp [isDriveRooted, ascii] at drive

theorem keptSegments_concat (root body : Str) :
    keptSegments root (body ++ ['/']) = keptSegments root body := by
  unfold keptSegments
  rw [List.splitOn_append_cons_self, List.foldl_append]
  simp [normalizeSegment]

/-- **A separator** after anything but a bare root. -/
theorem normalizePathText_trailing (on : host.windows = true) {d e : Char}
    (ends : p.getLast? = some d) (black : isWhitespace d = false) (separator : slash e = '/')
    (unc : asciiLower (slashed (trimChars p)) ≠ "//?/unc".toList)
    (mark : asciiLower (slashed (trimChars p)) ≠ "//?".toList)
    (more : ¬BareRoot (windowsText p)) :
    normalizePathText host (p ++ [e]) = normalizePathText host p := by
  have black' : isWhitespace e = false := by
    rw [← isWhitespace_slash, separator]
    rfl
  have trimmed := trimChars_snoc ends black black'
  have value : pathValue host p = windowsText p := by rw [pathValue, if_pos on]
  have value' : pathValue host (p ++ [e]) = windowsText p ++ ['/'] := by
    rw [pathValue, if_pos on, windowsText_eq, trimmed, slashed_append, windowsText_eq,
      show slashed [e] = [slash e] from rfl, separator, unmarked_append unc mark]
  obtain ⟨root, body, parts, rooted⟩ := exists_rooted true (windowsText p)
  rw [parts] at value value' more
  have nonblank : trimChars p ≠ [] := by
    intro blank
    rw [windowsText_eq, blank] at parts
    rw [← parts] at more
    exact more (.inl rfl)
  rw [normalizePathText_eq value (on ▸ rooted),
    normalizePathText_eq (value'.trans (List.append_assoc ..)) (on ▸ rooted.concat more),
    keptSegments_concat]
  simp [named, trimmed, nonblank]

end Trailing

/-! ### Path identity -/

/-- **Path identity.** A normal form that trimming and the verbatim mark leave alone is its own.
Away from Windows, containment of absolute paths is of the components that `.` and `..` leave,
and so of the components of paths that have none of these. On Windows slashes, letters, the
verbatim mark and a separator at the end make no difference. -/
theorem pathIdentity (host : Host)
    (unicode : host.windows = true → LowerCase host.toLowercase) :
    (∀ raw, trimChars (normalizePathText host raw) = normalizePathText host raw →
      (host.windows = true → ¬verbatim <+: normalizePathText host raw) →
      normalizePathText host (normalizePathText host raw) = normalizePathText host raw) ∧
    (host.windows = false → ∀ candidate root, (trimChars candidate).head? = some '/' →
      (trimChars root).head? = some '/' →
      (pathIsWithin host candidate root = true ↔
        components (trimChars root) <+: components (trimChars candidate))) ∧
    (host.windows = false → ∀ candidate root : List Str, (∀ name ∈ candidate, Proper name) →
      (∀ name ∈ root, Proper name) →
      trimChars ('/' :: ['/'].intercalate candidate) = '/' :: ['/'].intercalate candidate →
      trimChars ('/' :: ['/'].intercalate root) = '/' :: ['/'].intercalate root →
      (pathIsWithin host ('/' :: ['/'].intercalate candidate) ('/' :: ['/'].intercalate root) =
        true ↔ root <+: candidate)) ∧
    (host.windows = true → ∀ raw raw', slashed raw = slashed raw' →
      normalizePathText host raw = normalizePathText host raw') ∧
    (host.windows = true → ∀ raw raw', asciiLower raw = asciiLower raw' →
      normalizePathText host raw = normalizePathText host raw') ∧
    (host.windows = true → ∀ mark p c, slashed mark = verbatim → p.head? = some c →
      isWhitespace c = false → ¬verbatim <+: slashed p →
      ¬"unc/".toList <+: asciiLower (slashed p) →
      normalizePathText host (mark ++ p) = normalizePathText host p) ∧
    (host.windows = true → ∀ mark share p, asciiLower (slashed mark) = "//?/unc/".toList →
      slashed share = ['/', '/'] → ¬['?', '/'] <+: slashed p →
      normalizePathText host (mark ++ p) = normalizePathText host (share ++ p)) ∧
    (host.windows = true → ∀ p d e, p.getLast? = some d → isWhitespace d = false →
      slash e = '/' → asciiLower (slashed (trimChars p)) ≠ "//?/unc".toList →
      asciiLower (slashed (trimChars p)) ≠ "//?".toList → ¬BareRoot (windowsText p) →
      normalizePathText host (p ++ [e]) = normalizePathText host p) :=
  ⟨fun _ trimmed plain => normalizePathText_normalizePathText unicode trimmed plain,
    fun posix _ _ candidate root => pathIsWithin_iff posix candidate root,
    fun posix _ _ candidate root trimmed trimmed' =>
      pathIsWithin_plain posix candidate root trimmed trimmed',
    fun on _ _ same => normalizePathText_slashed on same,
    fun on _ _ same => normalizePathText_toLower on (unicode on) same,
    fun on _ _ _ mark first black once noUnc =>
      normalizePathText_verbatim on mark first black once noUnc,
    fun on _ _ _ mark share plain => normalizePathText_unc on mark share plain,
    fun on _ _ _ ends black separator unc mark more =>
      normalizePathText_trailing on ends black separator unc mark more⟩

/-! ### Cases -/

theorem isAlpha_of_small {c : Char} (first : 97 ≤ c.toNat) (last : c.toNat ≤ 122) :
    c.isAlpha = true := by
  have low : c.val ≥ 97 := UInt32.le_iff_toNat_le.mpr first
  have high : c.val ≤ 122 := UInt32.le_iff_toNat_le.mpr last
  have small : c.isLower = true :=
    Bool.and_eq_true_iff.mpr ⟨decide_eq_true low, decide_eq_true high⟩
  exact Bool.or_eq_true_iff.mpr (.inr small)

/-- Letters of ASCII only are lowered as `str::to_lowercase` lowers them. -/
theorem lowerCase_asciiLower : LowerCase asciiLower where
  cut a b := by simp [asciiLower]
  ascii _ _ := rfl
  insensitive text := by
    unfold asciiLower
    rw [List.map_map]
    exact List.map_congr_left fun c _ => toLower_toLower c
  stable text := by
    unfold asciiLower
    rw [List.map_map]
    exact List.map_congr_left fun c _ => toLower_toLower c
  punctuation text c mem _ mark := by
    obtain ⟨d, at_, eq⟩ := List.mem_map.mp mem
    obtain ⟨first, last, -, -⟩ | same := toLower_cases d
    · rw [eq] at first last
      rw [isAlpha_of_small first last] at mark
      cases mark
    · rwa [← eq, same]
  letters text marks := by
    have each : ∀ c ∈ text, c.toLower = c := by
      intro c mem
      obtain ⟨first, last, -, -⟩ | same := toLower_cases c
      · have mark := (marks _ (List.mem_map_of_mem mem)).2
        rw [isAlpha_of_small first last] at mark
        cases mark
      · exact same
    unfold asciiLower
    rw [List.map_congr_left each, List.map_id']

/-- A host where the letters are ASCII. -/
def asciiHost (windows : Bool) : Host where
  windows
  toLowercase := asciiLower
  canonicalize _ := none
  canonicalize_canonicalize := by simp
  isAbsolute path := path.head? = some '/'
  join base path := base ++ '/' :: path
  parent _ := none
  fileName _ := none
  workingDirectory := ['/']
  currentDirFault := none
  metadata _ := .error "NotFound"
  readToString _ := .error "NotFound"

theorem pathIdentity_models :
    pathIsWithin (asciiHost false) "/m/../a/b".toList "/a/.".toList = true ∧
    normalizePathText (asciiHost true) (("\\\\?\\".toList ++ "C:\\Models".toList) ++ ['\x5c']) =
      normalizePathText (asciiHost true) "c:/models".toList := by
  have posix := (pathIdentity (asciiHost false) (by simp [asciiHost])).2.1 rfl
  obtain ⟨-, -, -, slashes, letters, mark, -, trailing⟩ :=
    pathIdentity (asciiHost true) fun _ => lowerCase_asciiLower
  constructor
  · rw [posix _ _ rfl rfl]
    exact ⟨[['b']], rfl⟩
  · have drive : ¬BareRoot (windowsText ("\\\\?\\".toList ++ "C:\\Models".toList)) := by
      rintro (none | root | ⟨c, -, drive⟩)
      · cases none
      · cases root
      · cases drive
    rw [trailing rfl _ 's' '\x5c' rfl rfl rfl (by decide) (by decide) drive,
      mark rfl _ _ 'C' rfl rfl rfl (by decide) (by decide),
      slashes rfl "C:\\Models".toList "C:/Models".toList (by simp [slashed, slash]),
      letters rfl "C:/Models".toList "c:/models".toList (by simp [asciiLower])]

/-- White space in a name is trimmed where it ends the text; a drive is a root only with its
separator; one verbatim mark is taken off at a time. -/
theorem normalizePathText_spaces :
    normalizePathText (asciiHost false) "/a /".toList = "/a ".toList ∧
    normalizePathText (asciiHost false) "/a ".toList = "/a".toList ∧
    pathIsWithin (asciiHost false) "/a ".toList "/a".toList = true ∧
    ¬["a".toList] <+: ["a ".toList] ∧
    normalizePathText (asciiHost true) "C:/".toList ≠
      normalizePathText (asciiHost true) "C:".toList ∧
    normalizePathText (asciiHost true) "\\\\?\\\\\\?\\a".toList ≠
      normalizePathText (asciiHost true) "\\\\?\\a".toList := by
  refine ⟨rfl, rfl, rfl, by decide, by decide, by decide⟩

end LlamaServerManager.References
