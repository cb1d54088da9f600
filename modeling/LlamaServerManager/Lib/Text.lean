import Mathlib.Data.List.DropRight

/-!
Text as Rust's `str` handles it. Strings are compared by their characters;
`len` counts bytes of UTF-8, `chars().take` counts characters.
-/

namespace LlamaServerManager.Lib.Text

/-- `char::is_whitespace`: the Unicode property `White_Space`. -/
def isWhitespace (c : Char) : Bool :=
  let n := c.toNat
  (9 ≤ n && n ≤ 13) || n == 0x20 || n == 0x85 || n == 0xA0 || n == 0x1680 ||
    (0x2000 ≤ n && n ≤ 0x200A) || n == 0x2028 || n == 0x2029 || n == 0x202F ||
    n == 0x205F || n == 0x3000

/-- `str::trim`. -/
def trim (s : String) : String :=
  String.ofList (((s.toList.dropWhile isWhitespace).reverse.dropWhile isWhitespace).reverse)

instance lawfulBEqText : LawfulBEq (List Char) := inferInstance

instance lawfulBEqTexts : LawfulBEq (List (List Char)) := inferInstance

/-- `trim` of the characters. -/
def trimChars (cs : List Char) : List Char := (cs.dropWhile isWhitespace).rdropWhile isWhitespace

theorem trim_eq (s : String) : trim s = String.ofList (trimChars s.toList) := rfl

theorem trimChars_trimChars (cs : List Char) : trimChars (trimChars cs) = trimChars cs := by
  unfold trimChars
  -- what is left begins as it did before the end was cut
  have begins : ((cs.dropWhile isWhitespace).rdropWhile isWhitespace).dropWhile isWhitespace =
      (cs.dropWhile isWhitespace).rdropWhile isWhitespace := by
    apply List.dropWhile_eq_self_iff.mpr
    intro nonempty white
    have cut := List.rdropWhile_prefix isWhitespace (cs.dropWhile isWhitespace)
    have first := cut.getElem nonempty
    rw [first] at white
    exact List.dropWhile_get_zero_not isWhitespace cs (nonempty.trans_le cut.length_le) white
  rw [begins, List.rdropWhile_idempotent]

@[simp] theorem trim_trim (s : String) : trim (trim s) = trim s := by
  rw [trim_eq (trim s), trim_eq s, String.toList_ofList, trimChars_trimChars]

/-- `str::strip_prefix`. -/
def stripPrefix (pre s : String) : Option String :=
  if pre.toList.isPrefixOf s.toList then some (String.ofList (s.toList.drop pre.toList.length))
  else none

theorem eq_of_stripPrefix {pre s rest : String} (cut : stripPrefix pre s = some rest) :
    s = pre ++ rest := by
  unfold stripPrefix at cut
  split at cut
  · rename_i begins
    obtain ⟨more, whole⟩ := List.isPrefixOf_iff_prefix.mp begins
    obtain rfl := Option.some.inj cut
    apply String.toList_inj.mp
    rw [String.toList_append, String.toList_ofList, ← whole, List.drop_left]
  · cases cut

/-! ### Cutting characters -/

/-- `str::trim_matches`. -/
def trimMatches (cut : Char → Bool) (cs : List Char) : List Char :=
  (cs.dropWhile cut).rdropWhile cut

/-- Nothing is cut where neither end is to be cut. -/
theorem trimMatches_eq_self {cut : Char → Bool} {cs : List Char}
    (first : ∀ c ∈ cs.head?, ¬ cut c) (last : ∀ c ∈ cs.getLast?, ¬ cut c) :
    trimMatches cut cs = cs := by
  have kept : cs.dropWhile cut = cs := by
    cases cs with
    | nil => rfl
    | cons c cs => simpa using first c rfl
  unfold trimMatches
  rw [kept]
  apply List.rdropWhile_eq_self_iff.mpr
  intro nonempty
  exact last _ (List.getLast?_eq_getLast_of_ne_nil nonempty)

/-- `str::split_once`: at the first `separator`. -/
def splitOnce (separator : List Char) : List Char → Option (List Char × List Char)
  | [] => if separator = [] then some ([], []) else none
  | c :: cs =>
    if separator.isPrefixOf (c :: cs) then some ([], (c :: cs).drop separator.length)
    else (splitOnce separator cs).map fun (left, right) => (c :: left, right)

/-- `str::rsplit_once`: at the last `separator`. -/
def rsplitOnce (separator : List Char) : List Char → Option (List Char × List Char)
  | [] => if separator = [] then some ([], []) else none
  | c :: cs =>
    match rsplitOnce separator cs with
    | some (left, right) => some (c :: left, right)
    | none =>
      if separator.isPrefixOf (c :: cs) then some ([], (c :: cs).drop separator.length)
      else none

/-- A text is split at its first separator. -/
theorem splitOnce_singleton {c : Char} {left : List Char} (right : List Char) (free : c ∉ left) :
    splitOnce [c] (left ++ c :: right) = some (left, right) := by
  induction left with
  | nil => simp [splitOnce]
  | cons d left ih =>
    obtain ⟨different, free⟩ : c ≠ d ∧ c ∉ left := by simpa using free
    simp [splitOnce, ih free, different]

theorem splitOnce_eq_none {c : Char} {cs : List Char} (free : c ∉ cs) : splitOnce [c] cs = none := by
  induction cs with
  | nil => rfl
  | cons d cs ih =>
    obtain ⟨different, free⟩ : c ≠ d ∧ c ∉ cs := by simpa using free
    simp [splitOnce, ih free, different]

theorem eq_of_splitOnce {c : Char} {cs left right : List Char}
    (cut : splitOnce [c] cs = some (left, right)) : cs = left ++ c :: right := by
  induction cs generalizing left with
  | nil => simp [splitOnce] at cut
  | cons d cs ih =>
    unfold splitOnce at cut
    split at cut
    · rename_i begins
      obtain ⟨rfl, rfl⟩ : [] = left ∧ cs = right := by simpa using cut
      simpa [@eq_comm _ c] using begins
    · obtain ⟨parts, inner, joined⟩ := Option.map_eq_some_iff.mp cut
      obtain ⟨first, second⟩ := parts
      obtain ⟨rfl, rfl⟩ : d :: first = left ∧ second = right := by simpa using joined
      simpa using ih inner

/-- `str::contains`. -/
def containsText (text cs : List Char) : Bool := (splitOnce text cs).isSome

/-- `chars().take(n).collect()`. -/
def takeChars (n : Nat) (s : String) : String := String.ofList (s.toList.take n)

/-- What a test finds of each character of a text. -/
theorem forall_of_all {p : Char → Prop} [DecidablePred p] {cs : List Char}
    (all : cs.all (fun c => decide (p c)) = true) : ∀ c ∈ cs, p c := fun c mem =>
  of_decide_eq_true (List.all_eq_true.mp all c mem)

/-! ### Letters -/

/-- A capital becomes a small letter, anything else stays. -/
theorem toLower_cases (c : Char) :
    (97 ≤ c.toLower.toNat ∧ c.toLower.toNat ≤ 122 ∧ 65 ≤ c.toNat ∧ c.toNat ≤ 90) ∨
      c.toLower = c := by
  unfold Char.toLower
  split
  · rename_i upper
    obtain ⟨first, last⟩ := upper
    have first : 65 ≤ c.val.toNat := UInt32.le_iff_toNat_le.mp first
    have last : c.val.toNat ≤ 90 := UInt32.le_iff_toNat_le.mp last
    have sum : (c.val + ('a'.val - 'A'.val)).toNat = c.val.toNat + 32 := by
      have step : ('a'.val - 'A'.val).toNat = 32 := rfl
      rw [UInt32.toNat_add, step]
      omega
    left
    simp only [Char.toNat, sum]
    omega
  · exact .inr rfl

theorem isWhitespace_toLower (c : Char) : isWhitespace c.toLower = isWhitespace c := by
  obtain ⟨first, last, first', last'⟩ | same := toLower_cases c
  · have none : ∀ d : Char, 65 ≤ d.toNat → d.toNat ≤ 122 → isWhitespace d = false := by
      intro d low high
      unfold isWhitespace
      simp only [Bool.or_eq_false_iff, Bool.and_eq_false_iff, beq_eq_false_iff_ne,
        decide_eq_false_iff_not]
      omega
    rw [none c first' (by omega), none c.toLower (by omega) last]
  · rw [same]

end LlamaServerManager.Lib.Text
