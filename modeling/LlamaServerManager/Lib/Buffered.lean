import Mathlib.Data.List.Infix

/-!
Buffered readers over a source that gives its items piecewise, as `std::io::BufReader` does: a read
gives what is in the buffer, a short seek stays in it.

* `Source.amount` — what one read of the source gives, as little as one item.
* `BufReader.At` — where a reader is.
-/

namespace LlamaServerManager.Lib.Buffered

universe u

variable {α : Type u}

/-- Items and how many of them a read gives: any number, by the count of the reads before it, the
offset and what is wanted. -/
structure Source (α : Type u) where
  items : List α
  given : Nat → Nat → Nat → Nat

/-- At least one item where there is one, and at most what is wanted and there. -/
def Source.amount (source : Source α) (call offset wanted : Nat) : Nat :=
  min (max 1 (source.given call offset wanted)) (min wanted (source.items.length - offset))

structure BufReader (α : Type u) where
  source : Source α
  /-- The reads of the source so far. -/
  calls : Nat
  /-- Of the source. -/
  offset : Nat
  /-- What is read of the source and not consumed. -/
  buffer : List α

namespace BufReader

variable {reader : BufReader α} {place wanted capacity count : Nat}

def new (source : Source α) : BufReader α := ⟨source, 0, 0, []⟩

/-- A read of the source. -/
def fetch (reader : BufReader α) (wanted : Nat) : List α × BufReader α :=
  let amount := reader.source.amount reader.calls reader.offset wanted
  ((reader.source.items.drop reader.offset).take amount,
    { reader with calls := reader.calls + 1, offset := reader.offset + amount })

/-- An empty buffer is filled. -/
def fillBuf (reader : BufReader α) (capacity : Nat) : BufReader α :=
  if reader.buffer = [] then
    let (chunk, reader) := reader.fetch capacity
    { reader with buffer := chunk }
  else reader

/-- `Read::read`: past an empty buffer where more is wanted than it holds. -/
def read (reader : BufReader α) (capacity wanted : Nat) : List α × BufReader α :=
  if reader.buffer = [] ∧ capacity ≤ wanted then reader.fetch wanted
  else
    let reader := reader.fillBuf capacity
    (reader.buffer.take wanted, { reader with buffer := reader.buffer.drop wanted })

/-- `BufReader::seek_relative`, forward. -/
def seekRelative (reader : BufReader α) (count : Nat) : BufReader α :=
  if count ≤ reader.buffer.length then { reader with buffer := reader.buffer.drop count }
  else { reader with offset := reader.offset + (count - reader.buffer.length), buffer := [] }

/-- The reader is at a place of its source, and its buffer holds what follows there. -/
structure At (reader : BufReader α) (place : Nat) : Prop where
  offset : reader.offset = place + reader.buffer.length
  buffer : reader.buffer <+: reader.source.items.drop place

theorem at_new (source : Source α) : (new source).At 0 := ⟨rfl, List.nil_prefix⟩

@[simp] theorem fetch_source : (reader.fetch wanted).2.source = reader.source := rfl

@[simp] theorem fillBuf_source : (reader.fillBuf capacity).source = reader.source := by
  unfold fillBuf
  split <;> rfl

@[simp] theorem read_source : (reader.read capacity wanted).2.source = reader.source := by
  unfold read
  split
  · rfl
  · simp

@[simp] theorem seekRelative_source : (reader.seekRelative count).source = reader.source := by
  unfold seekRelative
  split <;> rfl

/-! ### Reads -/

/-- What a read gives at a place: items that follow there, and none only at the end. -/
structure Gives (source : Source α) (place wanted : Nat) (chunk : List α) : Prop where
  follows : chunk <+: source.items.drop place
  length_le : chunk.length ≤ wanted
  ends : chunk = [] → source.items.length ≤ place

theorem length_fetch : (reader.fetch wanted).1.length =
    reader.source.amount reader.calls reader.offset wanted := by
  simp only [fetch, List.length_take, List.length_drop, Source.amount]
  omega

theorem fetch_gives (empty : reader.buffer = []) (here : reader.At place) (wants : 0 < wanted) :
    Gives reader.source place wanted (reader.fetch wanted).1 := by
  have offset : reader.offset = place := by simpa [empty] using here.offset
  refine ⟨?_, ?_, fun none_ => ?_⟩
  · simpa [fetch, offset] using List.take_prefix _ _
  · rw [length_fetch, Source.amount]
    omega
  · have length := @length_fetch _ reader wanted
    rw [none_, List.length_nil, Source.amount] at length
    omega

theorem fillBuf_at (here : reader.At place) (capacity : Nat) :
    (reader.fillBuf capacity).At place := by
  unfold fillBuf
  split
  · rename_i empty
    have offset : reader.offset = place := by simpa [empty] using here.offset
    constructor
    · have length := @length_fetch _ reader capacity
      dsimp only at length ⊢
      rw [length]
      simp [fetch, offset]
    · simpa [fetch, offset] using List.take_prefix _ _
  · exact here

theorem fillBuf_ends (here : reader.At place) (roomy : 0 < capacity)
    (empty : (reader.fillBuf capacity).buffer = []) : reader.source.items.length ≤ place := by
  unfold fillBuf at empty
  split at empty
  · rename_i none_
    exact (fetch_gives none_ here roomy).ends empty
  · contradiction

/-- **A read** gives what follows, and the reader is behind it. -/
theorem read_gives (here : reader.At place) (roomy : 0 < capacity) (wants : 0 < wanted) :
    Gives reader.source place wanted (reader.read capacity wanted).1 := by
  unfold read
  split
  · rename_i direct
    exact fetch_gives direct.1 here wants
  · have filled := fillBuf_at here capacity
    refine ⟨?_, ?_, fun none_ => ?_⟩
    · have follows := (List.take_prefix wanted _).trans filled.buffer
      rwa [fillBuf_source] at follows
    · exact List.length_take_le _ _
    · refine fillBuf_ends here roomy ?_
      rcases List.take_eq_nil_iff.mp none_ with zero | empty
      · omega
      · exact empty

theorem read_at (here : reader.At place) :
    (reader.read capacity wanted).2.At (place + (reader.read capacity wanted).1.length) := by
  unfold read
  split
  · rename_i direct
    have offset : reader.offset = place := by simpa [direct.1] using here.offset
    refine ⟨?_, ?_⟩
    · rw [length_fetch]
      simp [fetch, offset, direct.1]
    · simp [fetch, direct.1]
  · have filled := fillBuf_at here capacity
    refine ⟨?_, ?_⟩
    · have offset := filled.offset
      simp only [List.length_take, List.length_drop] at offset ⊢
      omega
    · have follows := filled.buffer.drop wanted
      rw [List.drop_drop] at follows
      rw [List.length_take]
      rcases Nat.le_total wanted (reader.fillBuf capacity).buffer.length with short | long
      · rw [Nat.min_eq_left short]
        exact follows
      · simp [List.drop_eq_nil_of_le long]

/-- **A seek** leaves the reader so much further. -/
theorem seekRelative_at (here : reader.At place) :
    (reader.seekRelative count).At (place + count) := by
  unfold seekRelative
  split
  · rename_i short
    refine ⟨?_, ?_⟩
    · have offset := here.offset
      simp only [List.length_drop]
      omega
    · have follows := here.buffer.drop count
      rwa [List.drop_drop] at follows
  · refine ⟨?_, List.nil_prefix⟩
    have offset := here.offset
    simp only [List.length_nil]
    omega

end BufReader

end LlamaServerManager.Lib.Buffered
