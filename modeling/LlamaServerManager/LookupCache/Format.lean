import LlamaServerManager.LookupCache.Store

/-!
The legacy four-token n-gram format and its validation.

A record is four context tokens, a count and that many pairs of a token and its
count, all little-endian `i32`s (`Record.encode`). `scanRecords` is the loop of
`validate` as it runs, with the reader's position and `u64` arithmetic that can
overflow; it does what `validateRecords` does with the bytes that are left.
-/

namespace LlamaServerManager.LookupCache

open Lib

/-! ### The format -/

/-- `i32::to_le_bytes`. -/
def leBytes (i : Int) : Bytes :=
  let n := (i % 2 ^ 32).toNat
  [UInt8.ofNat n, UInt8.ofNat (n / 256), UInt8.ofNat (n / 65536), UInt8.ofNat (n / 16777216)]

/-- A token with how often it followed. -/
structure Pair where
  token : Int
  count : Int
  token_range : 0 ≤ token ∧ token < 2 ^ 31
  count_range : 0 < count ∧ count < 2 ^ 31

namespace Pair

@[ext] theorem ext {p q : Pair} (token : p.token = q.token) (count : p.count = q.count) :
    p = q := by
  cases p
  cases q
  cases token
  cases count
  rfl

def encode (p : Pair) : Bytes := leBytes p.token ++ leBytes p.count

end Pair

/-- The record of one context; `-1` is no token. -/
structure Record where
  context : List Int
  pairs : List Pair
  context_length : context.length = 4
  context_range : ∀ token ∈ context, -1 ≤ token ∧ token < 2 ^ 31
  pairs_pos : pairs ≠ []
  pairs_range : pairs.length < 2 ^ 31

namespace Record

@[ext] theorem ext {r s : Record} (context : r.context = s.context) (pairs : r.pairs = s.pairs) :
    r = s := by
  cases r
  cases s
  cases context
  cases pairs
  rfl

def encode (r : Record) : Bytes :=
  r.context.flatMap leBytes ++ leBytes r.pairs.length ++ r.pairs.flatMap Pair.encode

end Record

def encodeRecords (records : List Record) : Bytes := records.flatMap Record.encode

/-! ### Words -/

@[simp] theorem leBytes_length (i : Int) : (leBytes i).length = 4 := rfl

/-- The unsigned value of four bytes, and what it is signed. -/
theorem int32_four (a b c d : UInt8) : ∃ n : Nat,
    n = a.toNat + 256 * (b.toNat + 256 * (c.toNat + 256 * d.toNat)) ∧ n < 2 ^ 32 ∧
      (n < 2 ^ 31 ∧ int32 [a, b, c, d] = n ∨
        2 ^ 31 ≤ n ∧ int32 [a, b, c, d] = (n : Int) - 2 ^ 32) := by
  have ha := a.toNat_lt
  have hb := b.toNat_lt
  have hc := c.toNat_lt
  have hd := d.toNat_lt
  refine ⟨_, rfl, by omega, ?_⟩
  have unfolded : int32 [a, b, c, d] =
      if a.toNat + 256 * (b.toNat + 256 * (c.toNat + 256 * d.toNat)) < 2 ^ 31 then
        ((a.toNat + 256 * (b.toNat + 256 * (c.toNat + 256 * d.toNat)) : Nat) : Int)
      else ((a.toNat + 256 * (b.toNat + 256 * (c.toNat + 256 * d.toNat)) : Nat) : Int) - 2 ^ 32 :=
    rfl
  rw [unfolded]
  by_cases small : a.toNat + 256 * (b.toNat + 256 * (c.toNat + 256 * d.toNat)) < 2 ^ 31
  · exact .inl ⟨small, if_pos small⟩
  · exact .inr ⟨Nat.le_of_not_lt small, if_neg small⟩

variable {bytes : Bytes}

theorem int32_range (four : bytes.length = 4) : -2 ^ 31 ≤ int32 bytes ∧ int32 bytes < 2 ^ 31 := by
  match bytes, four with
  | [a, b, c, d], _ =>
    obtain ⟨n, _, bound, ⟨small, value⟩ | ⟨large, value⟩⟩ := int32_four a b c d
    · omega
    · omega

theorem int32_leBytes {i : Int} (low : -2 ^ 31 ≤ i) (high : i < 2 ^ 31) :
    int32 (leBytes i) = i := by
  dsimp only [leBytes]
  obtain ⟨n, word, bound, signed⟩ := int32_four (UInt8.ofNat (i % 2 ^ 32).toNat)
    (UInt8.ofNat ((i % 2 ^ 32).toNat / 256)) (UInt8.ofNat ((i % 2 ^ 32).toNat / 65536))
    (UInt8.ofNat ((i % 2 ^ 32).toNat / 16777216))
  simp only [UInt8.toNat_ofNat'] at word
  have unsigned : n = (i % 2 ^ 32).toNat := by omega
  rcases signed with ⟨small, value⟩ | ⟨large, value⟩
  · omega
  · omega

theorem leBytes_int32 (four : bytes.length = 4) : leBytes (int32 bytes) = bytes := by
  match bytes, four with
  | [a, b, c, d], _ =>
    have ha := a.toNat_lt
    have hb := b.toNat_lt
    have hc := c.toNat_lt
    obtain ⟨n, word, bound, signed⟩ := int32_four a b c d
    have unsigned : (int32 [a, b, c, d] % 2 ^ 32).toNat = n := by
      rcases signed with ⟨small, value⟩ | ⟨large, value⟩
      · omega
      · omega
    simp only [leBytes, unsigned, List.cons.injEq, and_true]
    refine ⟨?_, ?_, ?_, ?_⟩ <;> apply UInt8.toNat_inj.mp <;> rw [UInt8.toNat_ofNat'] <;> omega

theorem leBytes_inj {i j : Int} (hi : -2 ^ 31 ≤ i ∧ i < 2 ^ 31) (hj : -2 ^ 31 ≤ j ∧ j < 2 ^ 31)
    (same : leBytes i = leBytes j) : i = j := by
  rw [← int32_leBytes hi.1 hi.2, same, int32_leBytes hj.1 hj.2]

/-! ### Pairs -/

theorem Pair.encode_length (p : Pair) : p.encode.length = 8 := rfl

theorem encodePairs_length (pairs : List Pair) :
    (pairs.flatMap Pair.encode).length = 8 * pairs.length := by
  induction pairs with
  | nil => rfl
  | cons p pairs ih => simp [ih, Pair.encode_length]; omega

theorem Pair.int32_token (p : Pair) (rest : Bytes) : int32 ((p.encode ++ rest).take 4) = p.token :=
  int32_leBytes (by have := p.token_range.1; omega) p.token_range.2

theorem Pair.int32_count (p : Pair) (rest : Bytes) :
    int32 (((p.encode ++ rest).drop 4).take 4) = p.count :=
  int32_leBytes (by have := p.count_range.1; omega) p.count_range.2

theorem Pair.drop_encode (p : Pair) (rest : Bytes) : (p.encode ++ rest).drop 8 = rest := rfl

/-- The pairs that are read are those that are there. -/
theorem validatePairs_encode (pairs : List Pair) (rest : Bytes) :
    validatePairs pairs.length (pairs.flatMap Pair.encode ++ rest) = .ok rest := by
  induction pairs with
  | nil => rfl
  | cons p pairs ih =>
    have enough : ¬ (p.encode ++ (pairs.flatMap Pair.encode ++ rest)).length < 8 := by
      simp [Pair.encode_length]
    have valid : ¬ (p.token < 0 ∨ p.count ≤ 0) := by
      have := p.token_range
      have := p.count_range
      omega
    rw [List.flatMap_cons, List.append_assoc, List.length_cons, validatePairs, if_neg enough,
      p.int32_token, p.int32_count, if_neg valid, p.drop_encode]
    exact ih

/-- Eight bytes with valid words are a pair. -/
theorem exists_pair (enough : ¬ bytes.length < 8)
    (valid : ¬ (int32 (bytes.take 4) < 0 ∨ int32 ((bytes.drop 4).take 4) ≤ 0)) :
    ∃ p : Pair, bytes = p.encode ++ bytes.drop 8 := by
  have four : (bytes.take 4).length = 4 := by
    rw [List.length_take]
    omega
  have four' : ((bytes.drop 4).take 4).length = 4 := by
    rw [List.length_take, List.length_drop]
    omega
  have range := int32_range four
  have range' := int32_range four'
  refine ⟨⟨int32 (bytes.take 4), int32 ((bytes.drop 4).take 4), by omega, by omega⟩, ?_⟩
  simp only [Pair.encode, leBytes_int32 four, leBytes_int32 four']
  have tail : (bytes.drop 4).drop 4 = bytes.drop 8 := List.drop_drop
  rw [← tail, List.append_assoc, List.take_append_drop, List.take_append_drop]

theorem validatePairs_ok {count : Nat} {bytes rest : Bytes}
    (ok : validatePairs count bytes = .ok rest) :
    ∃ pairs : List Pair, pairs.length = count ∧ bytes = pairs.flatMap Pair.encode ++ rest := by
  induction count generalizing bytes with
  | zero =>
    obtain rfl := Except.ok.inj ok
    exact ⟨[], rfl, rfl⟩
  | succ count ih =>
    unfold validatePairs at ok
    split at ok
    · cases ok
    · rename_i enough
      split at ok
      · cases ok
      · rename_i valid
        obtain ⟨p, eq⟩ := exists_pair enough valid
        obtain ⟨pairs, length, tail⟩ := ih ok
        refine ⟨p :: pairs, by rw [List.length_cons, length], ?_⟩
        rw [List.flatMap_cons, List.append_assoc, ← tail]
        exact eq

/-- With bytes for all pairs, a pair is never cut off. -/
theorem validatePairs_enough {count : Nat} (enough : 8 * count ≤ bytes.length) {message : String}
    (fails : validatePairs count bytes = .error message) :
    message = "invalid token/count" := by
  induction count generalizing bytes with
  | zero => cases fails
  | succ count ih =>
    unfold validatePairs at fails
    rw [if_neg (by omega)] at fails
    split at fails
    · exact (Except.error.inj fails).symm
    · exact ih (by rw [List.length_drop]; omega) fails

/-! ### Records -/

/-- The header before the pairs. -/
def Record.header (r : Record) : Bytes := r.context.flatMap leBytes ++ leBytes r.pairs.length

theorem Record.encode_eq (r : Record) : r.encode = r.header ++ r.pairs.flatMap Pair.encode := rfl

/-- The four words of a context. -/
theorem Record.exists_words (r : Record) : ∃ a b c d, r.context = [a, b, c, d] := by
  match shape : r.context, r.context_length with
  | [a, b, c, d], _ => exact ⟨a, b, c, d, rfl⟩

theorem Record.header_length (r : Record) : r.header.length = 20 := by
  obtain ⟨a, b, c, d, words⟩ := r.exists_words
  simp [Record.header, words]

theorem Record.encode_length (r : Record) : r.encode.length = 20 + 8 * r.pairs.length := by
  rw [r.encode_eq, List.length_append, r.header_length, encodePairs_length]

theorem Record.header_count (r : Record) : int32 (r.header.drop 16) = r.pairs.length := by
  obtain ⟨a, b, c, d, words⟩ := r.exists_words
  have cut : r.header.drop 16 = leBytes r.pairs.length := by
    simp [Record.header, words, leBytes]
  have range := r.pairs_range
  rw [cut, int32_leBytes (by omega) (by omega)]

/-- The context tokens as the header is read. -/
theorem Record.header_valid (r : Record) :
    ¬ (int32 (r.header.take 4) < -1 ∨ int32 ((r.header.drop 4).take 4) < -1 ∨
      int32 ((r.header.drop 8).take 4) < -1 ∨ int32 ((r.header.drop 12).take 4) < -1) := by
  obtain ⟨a, b, c, d, words⟩ := r.exists_words
  have range := r.context_range
  rw [words] at range
  have ha := range a (by simp)
  have hb := range b (by simp)
  have hc := range c (by simp)
  have hd := range d (by simp)
  have first : r.header.take 4 = leBytes a := by simp [Record.header, words, leBytes]
  have second : (r.header.drop 4).take 4 = leBytes b := by simp [Record.header, words, leBytes]
  have third : (r.header.drop 8).take 4 = leBytes c := by simp [Record.header, words, leBytes]
  have fourth : (r.header.drop 12).take 4 = leBytes d := by simp [Record.header, words, leBytes]
  rw [first, second, third, fourth, int32_leBytes (by omega) ha.2, int32_leBytes (by omega) hb.2,
    int32_leBytes (by omega) hc.2, int32_leBytes (by omega) hd.2]
  omega

/-- Twenty bytes with a valid context are a header, once the pairs are there. -/
theorem exists_record (header : Bytes) (pairs : List Pair) (length : header.length = 20)
    (count : int32 (header.drop 16) = pairs.length) (some_ : 0 < pairs.length)
    (valid : ¬ (int32 (header.take 4) < -1 ∨ int32 ((header.drop 4).take 4) < -1 ∨
      int32 ((header.drop 8).take 4) < -1 ∨ int32 ((header.drop 12).take 4) < -1)) :
    ∃ r : Record, r.header = header ∧ r.pairs = pairs := by
  have four : (header.take 4).length = 4 := by simp [length]
  have four₂ : ((header.drop 4).take 4).length = 4 := by simp [length]
  have four₃ : ((header.drop 8).take 4).length = 4 := by simp [length]
  have four₄ : ((header.drop 12).take 4).length = 4 := by simp [length]
  have four₅ : (header.drop 16).length = 4 := by simp [length]
  have range := int32_range four
  have range₂ := int32_range four₂
  have range₃ := int32_range four₃
  have range₄ := int32_range four₄
  have range₅ := int32_range four₅
  refine ⟨⟨[int32 (header.take 4), int32 ((header.drop 4).take 4),
    int32 ((header.drop 8).take 4), int32 ((header.drop 12).take 4)], pairs, rfl, ?_,
    List.ne_nil_of_length_pos some_, by omega⟩, ?_, rfl⟩
  · intro token mem
    simp only [List.mem_cons, List.not_mem_nil, or_false] at mem
    rcases mem with rfl | rfl | rfl | rfl <;> omega
  · simp only [Record.header, ← count, List.flatMap_cons, List.flatMap_nil, List.append_nil,
      leBytes_int32 four, leBytes_int32 four₂, leBytes_int32 four₃, leBytes_int32 four₄,
      leBytes_int32 four₅]
    have glue (n : Nat) : (header.drop n).take 4 ++ header.drop (n + 4) = header.drop n := by
      rw [← List.drop_drop, List.take_append_drop]
    simp only [List.append_assoc, glue 12, glue 8, glue 4, List.take_append_drop]

/-- What the loop does with a record. -/
theorem validateRecords_succ (nonempty : bytes ≠ []) (fuel : Nat) :
    validateRecords (fuel + 1) bytes =
      if bytes.length < 20 then .error "truncated n-gram header"
      else if int32 ((bytes.take 20).drop 16) ≤ 0 ∨
          ((bytes.drop 20).length / 8 : Nat) < int32 ((bytes.take 20).drop 16) then
        .error "invalid n-gram count"
      else if int32 ((bytes.take 20).take 4) < -1 ∨
          int32 (((bytes.take 20).drop 4).take 4) < -1 ∨
          int32 (((bytes.take 20).drop 8).take 4) < -1 ∨
          int32 (((bytes.take 20).drop 12).take 4) < -1 then .error "invalid prefix token"
      else
        match validatePairs (int32 ((bytes.take 20).drop 16)).toNat (bytes.drop 20) with
        | .error error => .error error
        | .ok rest => validateRecords fuel rest := by
  cases bytes with
  | nil => exact absurd rfl nonempty
  | cons b bytes => rfl

/-- The records that are there are read. -/
theorem validateRecords_encode (records : List Record) {fuel : Nat}
    (enough : (encodeRecords records).length ≤ fuel) :
    validateRecords fuel (encodeRecords records) = .ok () := by
  induction records generalizing fuel with
  | nil => cases fuel <;> rfl
  | cons r records ih =>
    have split : encodeRecords (r :: records) =
        r.header ++ (r.pairs.flatMap Pair.encode ++ encodeRecords records) := by
      simp [encodeRecords, r.encode_eq]
    rw [split] at enough ⊢
    have headerLength := r.header_length
    have pairsLength := encodePairs_length r.pairs
    have somePairs := List.length_pos_of_ne_nil r.pairs_pos
    simp only [List.length_append] at enough
    cases fuel with
    | zero => omega
    | succ fuel =>
      have nonempty : r.header ++ (r.pairs.flatMap Pair.encode ++ encodeRecords records) ≠ [] := by
        intro empty
        have := congrArg List.length empty
        simp [headerLength] at this
      have long : ¬ (r.header ++ (r.pairs.flatMap Pair.encode ++ encodeRecords records)).length
          < 20 := by
        simp only [List.length_append]
        omega
      have fits : ¬ ((r.pairs.length : Int) ≤ 0 ∨
          ((r.pairs.flatMap Pair.encode ++ encodeRecords records).length / 8 : Nat) <
            (r.pairs.length : Int)) := by
        simp only [List.length_append]
        omega
      rw [validateRecords_succ nonempty, List.take_left' headerLength,
        List.drop_left' headerLength, if_neg long, r.header_count, if_neg fits,
        if_neg r.header_valid, Int.toNat_natCast, validatePairs_encode]
      exact ih (by omega)

/-- What is read is records. -/
theorem validateRecords_ok {fuel : Nat} (ok : validateRecords fuel bytes = .ok ()) :
    ∃ records : List Record, bytes = encodeRecords records := by
  induction fuel generalizing bytes with
  | zero =>
    cases bytes with
    | nil => exact ⟨[], rfl⟩
    | cons b bytes => cases ok
  | succ fuel ih =>
    by_cases empty : bytes = []
    · exact ⟨[], empty⟩
    · rw [validateRecords_succ empty] at ok
      split at ok
      · cases ok
      · rename_i long
        split at ok
        · cases ok
        · rename_i fits
          split at ok
          · cases ok
          · rename_i valid
            cases read : validatePairs (int32 ((bytes.take 20).drop 16)).toNat (bytes.drop 20) with
            | error message => simp [read] at ok
            | ok rest =>
              obtain ⟨pairs, count, tail⟩ := validatePairs_ok read
              obtain ⟨records, eq⟩ := ih (by simpa [read] using ok)
              obtain ⟨r, header, rPairs⟩ := exists_record (bytes.take 20) pairs
                (by rw [List.length_take]; omega) (by omega) (by omega) valid
              refine ⟨r :: records, ?_⟩
              have split : encodeRecords (r :: records) =
                  r.header ++ (r.pairs.flatMap Pair.encode ++ encodeRecords records) := by
                simp [encodeRecords, r.encode_eq]
              rw [split, header, rPairs, ← eq, ← tail, List.take_append_drop]

/-! ### One reading -/

theorem Pair.encode_inj {p q : Pair} (same : p.encode = q.encode) : p = q := by
  obtain ⟨token, count⟩ := List.append_inj same rfl
  have hp := p.token_range
  have hq := q.token_range
  have hp' := p.count_range
  have hq' := q.count_range
  exact Pair.ext (leBytes_inj (by omega) (by omega) token) (leBytes_inj (by omega) (by omega) count)

theorem encodePairs_inj {ps qs : List Pair} (length : ps.length = qs.length)
    (same : ps.flatMap Pair.encode = qs.flatMap Pair.encode) : ps = qs := by
  induction ps generalizing qs with
  | nil => exact (List.eq_nil_of_length_eq_zero length.symm).symm
  | cons p ps ih =>
    cases qs with
    | nil => cases length
    | cons q qs =>
      have same : p.encode ++ ps.flatMap Pair.encode = q.encode ++ qs.flatMap Pair.encode := same
      obtain ⟨first, rest⟩ := List.append_inj same rfl
      rw [Pair.encode_inj first, ih (by simpa using length) rest]

theorem context_inj {xs ys : List Int} (length : xs.length = ys.length)
    (hx : ∀ i ∈ xs, -1 ≤ i ∧ i < 2 ^ 31) (hy : ∀ i ∈ ys, -1 ≤ i ∧ i < 2 ^ 31)
    (same : xs.flatMap leBytes = ys.flatMap leBytes) : xs = ys := by
  induction xs generalizing ys with
  | nil => exact (List.eq_nil_of_length_eq_zero length.symm).symm
  | cons x xs ih =>
    cases ys with
    | nil => cases length
    | cons y ys =>
      have same : leBytes x ++ xs.flatMap leBytes = leBytes y ++ ys.flatMap leBytes := same
      obtain ⟨first, rest⟩ := List.append_inj same rfl
      have rangeX := hx x List.mem_cons_self
      have rangeY := hy y List.mem_cons_self
      rw [leBytes_inj (by omega) (by omega) first, ih (by simpa using length)
        (fun i mem => hx i (List.mem_cons_of_mem _ mem))
        (fun i mem => hy i (List.mem_cons_of_mem _ mem)) rest]

/-- **The records of a file are the only ones.** -/
theorem encodeRecords_inj {rs ss : List Record} (same : encodeRecords rs = encodeRecords ss) :
    rs = ss := by
  induction rs generalizing ss with
  | nil =>
    cases ss with
    | nil => rfl
    | cons s ss =>
      have length := congrArg List.length same
      simp only [encodeRecords, List.flatMap_nil, List.flatMap_cons, List.length_append,
        s.encode_length, List.length_nil] at length
      omega
  | cons r rs ih =>
    cases ss with
    | nil =>
      have length := congrArg List.length same
      simp only [encodeRecords, List.flatMap_nil, List.flatMap_cons, List.length_append,
        r.encode_length, List.length_nil] at length
      omega
    | cons s ss =>
      have split : ∀ (t : Record) (ts : List Record), encodeRecords (t :: ts) =
          t.header ++ (t.pairs.flatMap Pair.encode ++ encodeRecords ts) := by
        intro t ts
        simp [encodeRecords, t.encode_eq]
      rw [split, split] at same
      obtain ⟨headers, bodies⟩ :=
        List.append_inj same (by rw [r.header_length, s.header_length])
      have count : r.pairs.length = s.pairs.length := by
        have words := congrArg (fun header => int32 (header.drop 16)) headers
        simp only [r.header_count, s.header_count] at words
        omega
      obtain ⟨pairs, rest⟩ := List.append_inj bodies
        (by rw [encodePairs_length, encodePairs_length, count])
      obtain ⟨contexts, _⟩ := List.append_inj' headers rfl
      have context := context_inj (by rw [r.context_length, s.context_length])
        r.context_range s.context_range contexts
      rw [Record.ext context (encodePairs_inj count pairs), ih rest]

/-! ### The loop as it runs -/

/-- How the loop can end without a verdict, or with a refusal. -/
inductive Fault where
  | refused (message : String)
  | overflow
  | stuck
deriving DecidableEq, Repr

def add64 (a b : Nat) : Except Fault Nat := if a + b < 2 ^ 64 then .ok (a + b) else .error .overflow

def mul64 (a b : Nat) : Except Fault Nat := if a * b < 2 ^ 64 then .ok (a * b) else .error .overflow

/-- `read_exact` at a position of the file. -/
def readExact (file : Bytes) (position n : Nat) (message : String) : Except Fault Bytes :=
  if position + n ≤ file.length then .ok ((file.drop position).take n)
  else .error (.refused message)

/-- The inner loop; it ends at the position behind the pairs. -/
def scanPairs (file : Bytes) : Nat → Nat → Except Fault Nat
  | 0, position => .ok position
  | count + 1, position => do
    let pair ← readExact file position 8 "truncated token pair"
    if int32 (pair.take 4) < 0 ∨ int32 ((pair.drop 4).take 4) ≤ 0 then
      .error (.refused "invalid token/count")
    else scanPairs file count (position + 8)

/-- The outer loop, for as many rounds as are allowed. -/
def scanRecords (file : Bytes) : (rounds : Nat) → (consumed position : Nat) → Except Fault Unit
  | rounds, consumed, position =>
    if file.length ≤ consumed then .ok ()
    else
      match rounds with
      | 0 => .error .stuck
      | rounds + 1 => do
        let header ← readExact file position 20 "truncated n-gram header"
        let count := int32 (header.drop 16)
        if count ≤ 0 then .error (.refused "invalid n-gram count")
        else
          let behind ← add64 consumed 20
          if ((file.length - behind) / 8 : Nat) < count then
            .error (.refused "invalid n-gram count")
          else if int32 (header.take 4) < -1 ∨ int32 ((header.drop 4).take 4) < -1 ∨
              int32 ((header.drop 8).take 4) < -1 ∨ int32 ((header.drop 12).take 4) < -1 then
            .error (.refused "invalid prefix token")
          else
            let position ← scanPairs file count.toNat (position + 20)
            let bytes ← mul64 count.toNat 8
            let bytes ← add64 20 bytes
            let consumed ← add64 consumed bytes
            scanRecords file rounds consumed position

/-- The rest behind the pairs. -/
theorem validatePairs_rest {count : Nat} {bytes rest : Bytes}
    (ok : validatePairs count bytes = .ok rest) : rest = bytes.drop (8 * count) := by
  obtain ⟨pairs, length, rfl⟩ := validatePairs_ok ok
  exact (List.drop_left' (by rw [encodePairs_length, length])).symm

/-- With the pairs in the file, the inner loop reads what is behind its position. -/
theorem scanPairs_eq (file : Bytes) (count position : Nat)
    (there : position + 8 * count ≤ file.length) :
    scanPairs file count position =
      match validatePairs count (file.drop position) with
      | .error message => .error (.refused message)
      | .ok _ => .ok (position + 8 * count) := by
  induction count generalizing position with
  | zero => rfl
  | succ count ih =>
    have enough : ¬ (file.drop position).length < 8 := by
      rw [List.length_drop]
      omega
    have token : ((file.drop position).take 8).take 4 = (file.drop position).take 4 := by
      rw [List.take_take]
      rfl
    have pairCount : (((file.drop position).take 8).drop 4).take 4 =
        ((file.drop position).drop 4).take 4 := by
      rw [List.drop_take, List.take_take]
      rfl
    have read : readExact file position 8 "truncated token pair" =
        .ok ((file.drop position).take 8) := if_pos (by omega)
    have next : (file.drop position).drop 8 = file.drop (position + 8) := List.drop_drop
    rw [scanPairs, validatePairs, read, if_neg enough]
    show (if _ then _ else _) = _
    rw [token, pairCount]
    split
    · rfl
    · rw [ih (position + 8) (by omega), next]
      cases validatePairs count (file.drop (position + 8)) with
      | error message => rfl
      | ok rest => simp only [Nat.mul_succ, Nat.add_assoc, Nat.add_comm 8]

/-- **The loop reads what is left, and its arithmetic is exact.** It takes at most one
round for each byte left. -/
theorem scanRecords_eq {file : Bytes} (small : file.length ≤ maxBytes) {rounds position : Nat}
    (inside : position ≤ file.length) (enough : file.length - position ≤ rounds) :
    scanRecords file rounds position position =
      match validateRecords rounds (file.drop position) with
      | .error message => .error (.refused message)
      | .ok _ => .ok () := by
  have bound : maxBytes < 2 ^ 32 := by decide
  induction rounds generalizing position with
  | zero =>
    have done : file.drop position = [] := List.drop_eq_nil_of_le (by omega)
    rw [scanRecords, if_pos (by omega), done]
    rfl
  | succ rounds ih =>
    rw [scanRecords]
    split
    · rename_i done
      rw [List.drop_eq_nil_of_le done]
      rfl
    · rename_i more
      have nonempty : file.drop position ≠ [] := by
        rw [Ne, List.drop_eq_nil_iff]
        omega
      rw [validateRecords_succ nonempty]
      simp only [List.length_drop, List.drop_drop]
      by_cases long : position + 20 ≤ file.length
      · have read : readExact file position 20 "truncated n-gram header" =
            .ok ((file.drop position).take 20) := if_pos long
        rw [read, if_neg (by omega)]
        show (if _ then _ else _) = _
        generalize int32 (((file.drop position).take 20).drop 16) = count
        by_cases positive : count ≤ 0
        · rw [if_pos positive, if_pos (.inl positive)]
        · have behind : add64 position 20 = .ok (position + 20) := if_pos (by omega)
          rw [if_neg positive, behind]
          show (if _ then _ else _) = _
          by_cases fits : ((file.length - (position + 20)) / 8 : Nat) < count
          · rw [if_pos fits, if_pos (.inr fits)]
          · rw [if_neg fits, if_neg (not_or_intro positive fits)]
            split
            · rfl
            · have pairs := scanPairs_eq file count.toNat (position + 20) (by omega)
              rw [pairs]
              cases read : validatePairs count.toNat (file.drop (position + 20)) with
              | error message => rfl
              | ok rest =>
                have size : mul64 count.toNat 8 = .ok (count.toNat * 8) := if_pos (by omega)
                have record : add64 20 (count.toNat * 8) = .ok (20 + count.toNat * 8) :=
                  if_pos (by omega)
                have next : add64 position (20 + count.toNat * 8) =
                    .ok (position + 20 + 8 * count.toNat) := by
                  rw [add64, if_pos (by omega)]
                  congr 1
                  omega
                have left : rest = file.drop (position + 20 + 8 * count.toNat) := by
                  rw [validatePairs_rest read, List.drop_drop]
                simp only [bind, Except.bind, size, record, next, left]
                exact ih (by omega) (by omega)
      · have cut : readExact file position 20 "truncated n-gram header" =
            .error (.refused "truncated n-gram header") := if_neg long
        rw [cut, if_pos (by omega)]
        rfl

/-- The messages of a refusal: with the count checked, no pair is cut off. -/
theorem validateRecords_message {fuel : Nat} {message : String}
    (fails : validateRecords fuel bytes = .error message) :
    message ∈ ["truncated n-gram header", "invalid n-gram count", "invalid prefix token",
      "invalid token/count"] := by
  induction fuel generalizing bytes with
  | zero =>
    cases bytes with
    | nil => cases fails
    | cons b bytes =>
      obtain rfl := Except.error.inj fails
      decide
  | succ fuel ih =>
    by_cases empty : bytes = []
    · subst empty
      cases fails
    · rw [validateRecords_succ empty] at fails
      split at fails
      · obtain rfl := Except.error.inj fails
        decide
      · split at fails
        · obtain rfl := Except.error.inj fails
          decide
        · rename_i fits
          split at fails
          · obtain rfl := Except.error.inj fails
            decide
          · cases read : validatePairs (int32 ((bytes.take 20).drop 16)).toNat (bytes.drop 20) with
            | error other =>
              obtain rfl : other = message := by simpa [read] using fails
              obtain rfl := validatePairs_enough (by omega) read
              decide
            | ok rest => exact ih (by simpa [read] using fails)

/-! ### Validation -/

/-- The file is a sequence of records of a size that is allowed. -/
structure IsCache (bytes : Bytes) (records : List Record) : Prop where
  size : 1 ≤ bytes.length ∧ bytes.length ≤ maxBytes
  nonempty : records ≠ []
  content : bytes = encodeRecords records

theorem validateBytes_ok_iff (c : Codec) (bytes : Bytes) :
    (∃ result, validateBytes c bytes = .ok result) ↔ ∃ records, IsCache bytes records := by
  unfold validateBytes
  constructor
  · rintro ⟨result, ok⟩
    split at ok
    · cases ok
    · rename_i size
      cases read : validateRecords bytes.length bytes with
      | error message => simp [read] at ok
      | ok done =>
        obtain ⟨records, content⟩ := validateRecords_ok read
        refine ⟨records, ⟨by omega, by omega⟩, ?_, content⟩
        rintro rfl
        subst content
        exact size (.inl rfl)
  · rintro ⟨records, ⟨size, _, content⟩⟩
    have read : validateRecords bytes.length bytes = .ok () := by
      have encoded := validateRecords_encode records (le_refl _)
      rwa [← content] at encoded
    exact ⟨_, by rw [if_neg (by omega), read]⟩

/-- **Validation accepts exactly the format.** The file is accepted when it is a sequence of
records of an allowed size, and then of one sequence only. The loop gives the verdict
within as many rounds as there are bytes, without overflow and without a pair that is cut
off by the end of the file. -/
theorem validate_exact (c : Codec) (name : String) (dir : Dir) (bytes : Bytes)
    (file : readFile name dir = .ok bytes) :
    ((∃ result, validate c name dir = .ok result) ↔ ∃ records, IsCache bytes records) ∧
      (∀ records others, bytes = encodeRecords records → bytes = encodeRecords others →
        records = others) ∧
      (1 ≤ bytes.length ∧ bytes.length ≤ maxBytes →
        (∀ result, validate c name dir = .ok result →
          scanRecords bytes bytes.length 0 0 = .ok ()) ∧
        ∀ message, validate c name dir = .error message →
          scanRecords bytes bytes.length 0 0 = .error (.refused message) ∧
            message ≠ "truncated token pair") := by
  have opened : validate c name dir = validateBytes c bytes := by
    unfold validate
    rw [file]
  rw [opened]
  refine ⟨validateBytes_ok_iff c bytes, ?_, ?_⟩
  · intro records others content content'
    exact encodeRecords_inj (content.symm.trans content')
  · intro size
    have scan := scanRecords_eq size.2 (Nat.zero_le _) (le_refl bytes.length)
    rw [scan, List.drop_zero]
    unfold validateBytes
    rw [if_neg (by omega)]
    cases read : validateRecords bytes.length bytes with
    | error message =>
      refine ⟨fun result ok => (nomatch ok), fun other fails => ?_⟩
      obtain rfl : message = other := Except.error.inj fails
      refine ⟨rfl, ?_⟩
      rintro rfl
      exact absurd (validateRecords_message read) (by decide)
    | ok done => exact ⟨fun _ _ => rfl, fun message fails => (nomatch fails)⟩

/-- One record: the contexts `-1, -1, 7, 8`, once followed by token 5. -/
def oneRecord : Record where
  context := [-1, -1, 7, 8]
  pairs := [⟨5, 1, by decide, by decide⟩]
  context_length := rfl
  context_range := by decide
  pairs_pos := by decide
  pairs_range := by decide

/-- A file with this record is accepted. -/
theorem validate_exact_oneRecord :
    ∃ result, validate ⟨fun _ => List.replicate 32 0, fun _ => none, fun _ => none⟩ "a.bin"
      (fun _ => some (.file oneRecord.encode)) = .ok result := by
  have size : 1 ≤ oneRecord.encode.length ∧ oneRecord.encode.length ≤ maxBytes := by decide
  exact (validate_exact _ "a.bin" (fun _ => some (.file oneRecord.encode)) oneRecord.encode rfl).1.mpr
    ⟨[oneRecord], size, by decide, (List.append_nil _).symm⟩

end LlamaServerManager.LookupCache
