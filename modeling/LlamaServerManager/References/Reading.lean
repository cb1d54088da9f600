import LlamaServerManager.References.Mentions
import Mathlib.Data.List.Infix

/-!
What the scanner reads in a value: every path that is named legibly.

Without double quotes only apostrophes open and close a quote, so the quote is
open after an odd number of them (`scan_quote`). A comma outside a quote ends a
segment; the path behind it is the next one (`scan_listed`).
-/

namespace LlamaServerManager.References

open Lib Lib.Text

/-! ### Ends of a text -/

theorem trimChars_eq_self {text : Str} (first : ∀ c ∈ text.head?, ¬ isWhitespace c)
    (last : ∀ c ∈ text.getLast?, ¬ isWhitespace c) : trimChars text = text :=
  trimMatches_eq_self first last

/-- Trimming stops at a text between others that begins and ends without white space. -/
theorem trimChars_around {before text after : Str} (nonempty : text ≠ [])
    (first : ∀ c ∈ text.head?, ¬ isWhitespace c) (last : ∀ c ∈ text.getLast?, ¬ isWhitespace c) :
    trimChars (before ++ text ++ after) =
      before.dropWhile isWhitespace ++ text ++ after.rdropWhile isWhitespace := by
  have left : (before ++ (text ++ after)).dropWhile isWhitespace =
      before.dropWhile isWhitespace ++ (text ++ after) := by
    cases text with
    | nil => exact absurd rfl nonempty
    | cons c text =>
      rw [List.dropWhile_append]
      split
      · rename_i white
        have stop : isWhitespace c = false := by simpa using first c rfl
        simp [List.isEmpty_iff.mp white, stop]
      · rfl
  unfold trimChars
  rw [List.append_assoc, left, ← List.append_assoc]
  unfold List.rdropWhile
  rw [List.reverse_append, List.dropWhile_append]
  split
  · rename_i white
    have stops : ((before.dropWhile isWhitespace ++ text).reverse).dropWhile isWhitespace =
        (before.dropWhile isWhitespace ++ text).reverse := by
      apply List.dropWhile_eq_self_iff.mpr
      intro _ starts
      refine last (text.getLast nonempty) (List.getLast?_eq_getLast_of_ne_nil nonempty) ?_
      simpa [List.getElem_zero, List.head_reverse, List.getLast_append_of_ne_nil, nonempty]
        using starts
    rw [stops, List.isEmpty_iff.mp white]
    simp
  · simp

theorem trimChars_white {white text : Str} (nonempty : text ≠ [])
    (blank : ∀ c ∈ white, isWhitespace c)
    (first : ∀ c ∈ text.head?, ¬ isWhitespace c) (last : ∀ c ∈ text.getLast?, ¬ isWhitespace c) :
    trimChars (white ++ text) = text := by
  have around : trimChars (white ++ text ++ []) = _ := trimChars_around nonempty first last
  simpa [List.dropWhile_eq_nil_iff.mpr blank] using around

/-! ### Model paths -/

namespace IsModelPath

variable {path : Str}

theorem ne_nil (model : IsModelPath path) : path ≠ [] := by
  rintro rfl
  simpa [gguf] using model.ends

theorem getLast? (model : IsModelPath path) : path.getLast? = some 'f' := by
  obtain ⟨stem, rfl⟩ := model.ends
  simp [gguf]

theorem endsWithGguf (model : IsModelPath path) (before : Str) :
    endsWithGguf (before ++ path) = true := by
  obtain ⟨stem, rfl⟩ := model.ends
  simp only [References.endsWithGguf, List.isSuffixOf_iff_suffix, List.map_append,
    ← List.append_assoc]
  exact List.suffix_append _ _

theorem last_not_white (model : IsModelPath path) : ∀ c ∈ path.getLast?, ¬ isWhitespace c := by
  rw [model.getLast?]
  intro c last
  obtain rfl : 'f' = c := by simpa using last
  decide

/-- A path that begins like one is left as it is. -/
theorem unquote_eq (model : IsModelPath path) {white : Str} (blank : ∀ c ∈ white, isWhitespace c)
    (begins : ∀ c ∈ path.head?, ¬ isWhitespace c ∧ c ≠ '\'') :
    unquote (white ++ path) = path := by
  have first : ∀ c ∈ path.head?, ¬ isWhitespace c := fun c head => (begins c head).1
  have notQuote : ∀ c ∈ path.head?, ¬ isQuote c := by
    intro c head
    have double := (model.plain c (List.mem_of_mem_head? head)).2.2.2
    simp [isQuote, double, (begins c head).2]
  have lastQuote : ∀ c ∈ path.getLast?, ¬ isQuote c := by
    rw [model.getLast?]
    intro c last
    obtain rfl : 'f' = c := by simpa using last
    decide
  unfold unquote trimQuotes
  rw [trimChars_white model.ne_nil blank first model.last_not_white,
    trimMatches_eq_self notQuote lastQuote, trimChars_eq_self first model.last_not_white]

theorem unquote_self (model : IsModelPath path)
    (begins : ∀ c ∈ path.head?, ¬ isWhitespace c ∧ c ≠ '\'') : unquote path = path := by
  have blank : ∀ c ∈ ([] : Str), isWhitespace c := fun _ mem => absurd mem List.not_mem_nil
  have bare := model.unquote_eq blank begins
  rwa [List.nil_append] at bare

end IsModelPath

/-! ### Segments -/

/-- The quote that an apostrophe opens. -/
def quoteOf (isOpen : Bool) : Option Char := if isOpen then some '\'' else none

theorem scan_quote {text : Str} (single : '"' ∉ text) (isOpen : Bool) (segment : Str) :
    (text.foldl SegmentScan.next ⟨quoteOf isOpen, segment⟩).quote =
      quoteOf (isOpen ^^ decide (text.count '\'' % 2 = 1)) := by
  induction text generalizing isOpen segment with
  | nil => simp
  | cons c text ih =>
    obtain ⟨notDouble, restSingle⟩ : '"' ≠ c ∧ '"' ∉ text := by simpa using single
    by_cases apostrophe : c = '\''
    · subst apostrophe
      -- the apostrophe opens or closes
      have turns : ∃ rest, SegmentScan.next ⟨quoteOf isOpen, segment⟩ '\'' =
          ⟨quoteOf !isOpen, rest⟩ := by
        cases isOpen
        · exact ⟨[], rfl⟩
        · exact ⟨_, rfl⟩
      obtain ⟨rest, turns⟩ := turns
      rw [List.foldl_cons, turns, ih restSingle]
      congr 1
      rw [List.count_cons_self]
      rcases Nat.mod_two_eq_zero_or_one (text.count '\'') with even | odd
      · have flipped : (text.count '\'' + 1) % 2 = 1 := by omega
        cases isOpen <;> simp [even, flipped]
      · have flipped : (text.count '\'' + 1) % 2 = 0 := by omega
        cases isOpen <;> simp [odd, flipped]
    · have keeps : ∃ rest, SegmentScan.next ⟨quoteOf isOpen, segment⟩ c = ⟨quoteOf isOpen, rest⟩ := by
        cases isOpen
        · unfold SegmentScan.next quoteOf
          have plain : isQuote c = false := by simp [isQuote, apostrophe, Ne.symm notDouble]
          by_cases separator : isSeparator c
          · exact ⟨[], by simp [plain, separator]⟩
          · exact ⟨segment ++ [c], by simp [plain, separator]⟩
        · exact ⟨segment ++ [c], by simp [SegmentScan.next, quoteOf, apostrophe]⟩
      obtain ⟨rest, keeps⟩ := keeps
      rw [List.foldl_cons, keeps, ih restSingle, List.count_cons_of_ne apostrophe]

/-- Outside a quote plain characters go on the segment. -/
theorem scan_plain {text : Str} (plain : ∀ c ∈ text, ¬ isQuote c ∧ ¬ isSeparator c)
    (segment : Str) :
    text.foldl SegmentScan.next ⟨none, segment⟩ = ⟨none, segment ++ text⟩ := by
  induction text generalizing segment with
  | nil => simp
  | cons c text ih =>
    obtain ⟨quote, separator⟩ := plain c List.mem_cons_self
    rw [List.foldl_cons]
    have next : SegmentScan.next ⟨none, segment⟩ c = ⟨none, segment ++ [c]⟩ := by
      simp [SegmentScan.next, quote, separator]
    rw [next, ih (fun d mem => plain d (List.mem_cons_of_mem _ mem))]
    simp

/-- A comma behind an even number of apostrophes begins a new segment. -/
theorem scan_comma {text : Str} (single : '"' ∉ text) (even : text.count '\'' % 2 = 0) :
    (text ++ [',']).foldl SegmentScan.next ⟨none, []⟩ = ⟨none, []⟩ := by
  have closed : (text.foldl SegmentScan.next ⟨none, []⟩).quote = none := by
    have quote := scan_quote single false []
    simpa [quoteOf, even] using quote
  rw [List.foldl_append]
  generalize text.foldl SegmentScan.next ⟨none, []⟩ = scan at closed ⊢
  simp [SegmentScan.next, closed, isQuote, isSeparator]

/-! ### Lists -/

/-- The elements before a path, each with its comma. -/
def beforeText (before : List ListedPath) : Str :=
  before.flatMap fun listed => listed.text ++ [',']

theorem listText_split (before after : List ListedPath) (listed : ListedPath) :
    ∃ rest, listText (before ++ listed :: after) = beforeText before ++ listed.text ++ rest := by
  induction before with
  | nil =>
    cases after with
    | nil => exact ⟨[], by simp [listText, beforeText]⟩
    | cons next after =>
      exact ⟨',' :: listText (next :: after), by simp [listText, beforeText, List.intercalate]⟩
  | cons first before ih =>
    obtain ⟨rest, ih⟩ := ih
    refine ⟨rest, ?_⟩
    have behind : listText (first :: (before ++ listed :: after)) =
        first.text ++ ',' :: listText (before ++ listed :: after) := by
      cases before <;> simp [listText, List.intercalate]
    rw [List.cons_append, behind, ih]
    simp [beforeText]

theorem beforeText_single {before : List ListedPath} (formed : ∀ listed ∈ before, listed.WellFormed) :
    '"' ∉ beforeText before := by
  intro mem
  obtain ⟨listed, inBefore, mem⟩ := List.mem_flatMap.mp mem
  obtain ⟨lead, path, scale⟩ := formed listed inBefore
  simp only [ListedPath.text, List.mem_append, List.mem_singleton] at mem
  rcases mem with ((inLead | inPath) | inScale) | comma
  · exact absurd (lead _ inLead) (by decide)
  · exact (path.plain _ inPath).2.2.2 rfl
  · cases shape : listed.scale with
    | none => simp [shape] at inScale
    | some text =>
      have inText : '"' ∈ text := by simpa [shape] using inScale
      exact (scale text (by simp [shape]) _ inText).2 (by decide)
  · exact absurd comma (by decide)

/-- Only the paths of a list have apostrophes. -/
theorem beforeText_count {before : List ListedPath}
    (formed : ∀ listed ∈ before, listed.WellFormed) :
    (beforeText before).count '\'' = ((before.map ListedPath.path).flatten).count '\'' := by
  induction before with
  | nil => rfl
  | cons listed before ih =>
    obtain ⟨lead, path, scale⟩ := formed listed List.mem_cons_self
    have noLead : listed.lead.count '\'' = 0 :=
      List.count_eq_zero.mpr fun mem => absurd (lead _ mem) (by decide)
    have noScale : (listed.scale.elim [] (':' :: ·)).count '\'' = 0 := by
      cases shape : listed.scale with
      | none => rfl
      | some text =>
        refine List.count_eq_zero.mpr fun mem => ?_
        have inText : '\'' ∈ text := by simpa using mem
        exact (scale text (by simp [shape]) _ inText).2 (by decide)
    have rest := ih fun other mem => formed other (List.mem_cons_of_mem _ mem)
    have first : beforeText (listed :: before) =
        listed.lead ++ listed.path ++ listed.scale.elim [] (':' :: ·) ++ [','] ++
          beforeText before := rfl
    rw [first]
    simp [noLead, noScale, rest]

theorem count_dropWhile_white (text : Str) :
    (text.dropWhile isWhitespace).count '\'' = text.count '\'' := by
  induction text with
  | nil => rfl
  | cons c text ih =>
    by_cases white : isWhitespace c
    · have other : c ≠ '\'' := by
        rintro rfl
        exact absurd white (by decide)
      rw [List.dropWhile_cons_of_pos white, ih, List.count_cons_of_ne other]
    · rw [List.dropWhile_cons_of_neg white]

/-- Behind the elements before it a path is the segment, up to white space. -/
theorem scan_listed {before : List ListedPath} {white path : Str}
    (formed : ∀ listed ∈ before, listed.WellFormed) (blank : ∀ c ∈ white, isWhitespace c)
    (model : IsModelPath path) (free : '\'' ∉ path)
    (even : ((before.map ListedPath.path).flatten.count '\'') % 2 = 0) :
    ∃ blanks, (∀ c ∈ blanks, isWhitespace c) ∧
      (scanSegment ((beforeText before ++ white).dropWhile isWhitespace ++ path)).segment =
        blanks ++ path := by
  have plainPath : ∀ c ∈ path, ¬ isQuote c ∧ ¬ isSeparator c := by
    intro c mem
    have notApostrophe : c ≠ '\'' := by
      rintro rfl
      exact free mem
    obtain ⟨comma, semicolon, equals, double⟩ := model.plain c mem
    simp [isQuote, isSeparator, comma, semicolon, equals, double, notApostrophe]
  rcases List.eq_nil_or_concat before with rfl | ⟨init, last, rfl⟩
  · refine ⟨[], by simp, ?_⟩
    have dropped : (beforeText [] ++ white).dropWhile isWhitespace = [] :=
      List.dropWhile_eq_nil_iff.mpr (by simpa [beforeText] using blank)
    rw [dropped, scanSegment, List.nil_append, scan_plain plainPath]
    rfl
  · refine ⟨white, blank, ?_⟩
    -- the comma before the path stops the trimming
    obtain ⟨text, cut⟩ : ∃ text, beforeText (init.concat last) = text ++ [','] :=
      ⟨beforeText init ++ last.text, by simp [beforeText]⟩
    have single : '"' ∉ text.dropWhile isWhitespace := by
      intro mem
      have whole := beforeText_single formed
      rw [cut] at whole
      exact whole (List.mem_append_left _ ((List.dropWhile_sublist _).subset mem))
    have even : (text.dropWhile isWhitespace).count '\'' % 2 = 0 := by
      have count := beforeText_count formed
      have noComma : [','].count '\'' = 0 := rfl
      rw [cut, List.count_append, noComma, Nat.add_zero] at count
      rw [count_dropWhile_white, count, even]
    have dropped : (beforeText (init.concat last) ++ white).dropWhile isWhitespace =
        text.dropWhile isWhitespace ++ [','] ++ white := by
      rw [cut, List.append_assoc, List.dropWhile_append]
      split
      · rename_i allWhite
        rw [List.isEmpty_iff.mp allWhite]
        rfl
      · simp
    have plainWhite : ∀ c ∈ white ++ path, ¬ isQuote c ∧ ¬ isSeparator c := by
      intro c mem
      rcases List.mem_append.mp mem with inWhite | inPath
      · have white := blank c inWhite
        constructor
        · intro quote
          simp only [isQuote, Bool.or_eq_true, decide_eq_true_eq] at quote
          rcases quote with rfl | rfl <;> exact absurd white (by decide)
        · intro separator
          simp only [isSeparator, Bool.or_eq_true, decide_eq_true_eq] at separator
          rcases separator with (rfl | rfl) | rfl <;> exact absurd white (by decide)
      · exact plainPath c inPath
    rw [dropped, scanSegment, List.append_assoc, List.foldl_append, scan_comma single even,
      scan_plain plainWhite]
    rfl

/-! ### Readings -/

theorem whole_read {path : Str} (model : IsModelPath path)
    (begins : ∀ c ∈ path.head?, ¬ isWhitespace c ∧ c ≠ '\'') : path ∈ ggufReadings path := by
  have trimmed : trimChars path = path :=
    trimChars_eq_self (fun c head => (begins c head).1) model.last_not_white
  have bare : trimQuotes path = path := by
    refine trimMatches_eq_self ?_ ?_
    · intro c head
      have double := (model.plain c (List.mem_of_mem_head? head)).2.2.2
      simp [isQuote, double, (begins c head).2]
    · rw [model.getLast?]
      intro c last
      obtain rfl : 'f' = c := by simpa using last
      decide
  simp [ggufReadings, trimmed, bare, model.ne_nil]

/-- **A path that is named legibly in a list is among its readings.** -/
theorem listed_read {before after : List ListedPath} {listed : ListedPath}
    (formed : ∀ other ∈ before ++ listed :: after, other.WellFormed)
    (begins : ∀ c ∈ listed.path.head?, ¬ isWhitespace c ∧ c ≠ '\'')
    (free : '\'' ∉ listed.path)
    (even : ((before.map ListedPath.path).flatten.count '\'') % 2 = 0) :
    listed.path ∈ ggufReadings (listText (before ++ listed :: after)) := by
  have ofListed := formed listed (List.mem_append_right _ List.mem_cons_self)
  have model := ofListed.path
  have first : ∀ c ∈ listed.path.head?, ¬ isWhitespace c := fun c head => (begins c head).1
  obtain ⟨rest, split⟩ := listText_split before after listed
  -- the trimmed value up to the end of the path
  have trimmed : trimChars (listText (before ++ listed :: after)) =
      (beforeText before ++ listed.lead).dropWhile isWhitespace ++ listed.path ++
        (listed.scale.elim [] (':' :: ·) ++ rest).rdropWhile isWhitespace := by
    rw [split, ← trimChars_around model.ne_nil first model.last_not_white]
    simp [ListedPath.text]
  obtain ⟨blanks, blank, scanned⟩ := scan_listed
    (fun other mem => formed other (List.mem_append_left _ mem)) ofListed.lead model free even
  unfold ggufReadings
  simp only [trimmed]
  rw [if_neg (by simp [model.ne_nil])]
  apply List.mem_cons_of_mem
  refine List.mem_filter.mpr ⟨List.mem_map.mpr
    ⟨(beforeText before ++ listed.lead).dropWhile isWhitespace ++ listed.path, ?_, ?_⟩, ?_⟩
  · refine List.mem_filter.mpr ⟨?_, model.endsWithGguf _⟩
    exact (List.mem_inits _ _).mpr (List.prefix_append _ _)
  · rw [scanned, model.unquote_eq blank begins]
  · simpa using model.ne_nil

end LlamaServerManager.References
