import LlamaServerManager.Lib.Machine

/-!
`bounded_delivery` of `proxy_delivery.rs`: a producer task copies a response into
a slot of one chunk, and the consumer stream takes from it. The two wake each
other through `Notify::notify_one`, which stores at most one permit. One step of
the machine is the code between two points where the other side can run.

What the consumer gets is a beginning of the source, an end without an error is
the end of the source, and no wake-up is lost (`delivery_faithful`).
-/

namespace LlamaServerManager.Router.Delivery

open Lib

abbrev Bytes := List UInt8

def deliveryChunk : Nat := 64 * 1024

/-- An `std::io::Error`. -/
structure IoError where
  timedOut : Bool
  message : String
deriving DecidableEq, Repr

abbrev Item := Except IoError Bytes

def exhausted : IoError := ⟨false, "response memory budget exhausted"⟩
def stalled : IoError := ⟨true, "downstream response stalled"⟩

/-- The slices of a source chunk, at the offsets `(0..len).step_by(n)`. -/
def slices (n : Nat) (bytes : Bytes) : List Bytes :=
  (List.range ((bytes.length + n - 1) / n)).map fun i => (bytes.drop (i * n)).take n

/-- Where the producer task is; `rest` are the slices still to be delivered. -/
inductive Producer where
  | source
  | reserve (slice : Bytes) (rest : List Bytes)
  | put (slice : Bytes) (rest : List Bytes)
  | notify (rest : List Bytes)
  /-- The head of the loop of `drained`. -/
  | check (rest : List Bytes)
  /-- Awaits `consumed`. -/
  | wait (rest : List Bytes)
  /-- Before the critical section of `finish`. -/
  | finish (error : Option IoError)
  /-- Before the `notify_one` of `finish`. -/
  | finished
  | stopped
deriving DecidableEq, Repr

inductive Consumer where
  /-- Not polled since the last item. -/
  | idle
  | check
  | notify (item : Item)
  /-- Awaits `ready`. -/
  | wait
  | ended
  /-- The stream was dropped, which aborts the producer. -/
  | dropped

/-- The one-slot buffer with both `Notify`s, where its two sides are, and the histories
that `delivery_faithful` compares: what the source gave and what the consumer was given. -/
structure State where
  slot : Option Item := none
  done : Bool := false
  /-- The stored permits of the two `Notify`s. -/
  ready : Bool := false
  consumed : Bool := false
  producer : Producer := .source
  consumer : Consumer := .idle
  /-- The bytes the source has yielded. -/
  source : Bytes := []
  /-- The source has ended normally. -/
  sourceEnded : Bool := false
  /-- The items the consumer was given. -/
  delivered : List Item := []

/-- The head of the loops over the slices and over the source. -/
def Producer.loop : List Bytes → Producer
  | [] => .source
  | slice :: rest => .reserve slice rest

/-- A step of either side or of what is outside: the source, the timeout, the abort and
who reads. -/
inductive Label where
  | sourceChunk (bytes : Bytes)
  | sourceError (message : String)
  | sourceEnd
  | reserve (granted : Bool)
  | produce
  /-- The idle timeout, while `drained` is pending. -/
  | timeout
  | abort
  | poll
  | consume
  | drop
deriving DecidableEq, Repr

/-- The steps of the producer that nothing outside decides. -/
def produce (s : State) : Option State :=
  match s.producer with
  | .put slice rest => some { s with slot := some (.ok slice), producer := .notify rest }
  | .notify rest => some { s with ready := true, producer := .check rest }
  | .check rest =>
    match s.slot with
    | none => some { s with producer := .loop rest }
    | some _ => some { s with producer := .wait rest }
  | .wait rest =>
    if s.consumed then some { s with consumed := false, producer := .check rest } else none
  | .finish error =>
    let slot := match error with
      | some error => some (.error error)
      | none => s.slot
    some { s with slot, done := true, producer := .finished }
  | .finished => some { s with ready := true, producer := .stopped }
  | .source => none
  | .reserve _ _ => none
  | .stopped => none

/-- The steps of a polled consumer. -/
def consume (s : State) : Option State :=
  match s.consumer with
  | .check =>
    match s.slot with
    | some item => some { s with slot := none, consumer := .notify item }
    | none => some { s with consumer := if s.done then .ended else .wait }
  | .notify item =>
    some { s with consumed := true, delivered := s.delivered ++ [item], consumer := .idle }
  | .wait => if s.ready then some { s with ready := false, consumer := .check } else none
  | .idle => none
  | .ended => none
  | .dropped => none

def next (s : State) : Label → Option State
  | .sourceChunk bytes =>
    match s.producer with
    | .source => some { s with
        source := s.source ++ bytes
        producer := .loop (slices deliveryChunk bytes) }
    | _ => none
  | .sourceError message =>
    match s.producer with
    | .source => some { s with producer := .finish (some ⟨false, message⟩) }
    | _ => none
  | .sourceEnd =>
    match s.producer with
    | .source => some { s with sourceEnded := true, producer := .finish none }
    | _ => none
  | .reserve granted =>
    match s.producer with
    | .reserve slice rest =>
      some { s with producer := if granted then .put slice rest else .finish (some exhausted) }
    | _ => none
  | .produce => produce s
  | .timeout =>
    match s.producer with
    | .wait _ => some { s with producer := .finish (some stalled) }
    | _ => none
  | .abort =>
    -- A task is aborted where it awaits something.
    match s.consumer, s.producer with
    | .dropped, .source => some { s with producer := .stopped }
    | .dropped, .wait _ => some { s with producer := .stopped }
    | _, _ => none
  | .poll =>
    match s.consumer with
    | .idle => some { s with consumer := .check }
    | _ => none
  | .consume => consume s
  | .drop =>
    match s.consumer with
    | .idle => some { s with consumer := .dropped }
    | .wait => some { s with consumer := .dropped }
    | .ended => some { s with consumer := .dropped }
    | _ => none

def machine : Machine State Label where
  init := {}
  next := next

/-! ### What was received -/

/-- The bytes of the items before the first error. -/
def received : List Item → Bytes
  | [] => []
  | .ok bytes :: rest => bytes ++ received rest
  | .error _ :: _ => []

/-- No error among the items. -/
def Clean (items : List Item) : Prop := ∀ error, .error error ∉ items

theorem received_append {items more : List Item} (clean : Clean items) :
    received (items ++ more) = received items ++ received more := by
  induction items with
  | nil => rfl
  | cons item items ih =>
    cases item with
    | error e => exact absurd List.mem_cons_self (clean e)
    | ok bytes =>
      rw [List.cons_append, received, received,
        ih fun e mem => clean e (List.mem_cons_of_mem _ mem), List.append_assoc]

/-- More items only add to what was received. -/
theorem received_mono (items more : List Item) :
    received items <+: received (items ++ more) := by
  induction items with
  | nil => exact List.nil_prefix
  | cons item items ih =>
    cases item with
    | error e => exact List.prefix_rfl
    | ok bytes => exact (List.prefix_append_right_inj bytes).mpr ih

/-- After an error nothing is received. -/
theorem received_append_of_not_clean {items more : List Item} (dirty : ¬ Clean items) :
    received (items ++ more) = received items := by
  induction items with
  | nil => exact absurd (fun _ mem => (nomatch mem)) dirty
  | cons item items ih =>
    cases item with
    | error e => rfl
    | ok bytes =>
      have rest : ¬ Clean items := fun clean => dirty fun e mem =>
        (List.mem_cons.mp mem).elim (fun eq => (nomatch eq)) (clean e)
      rw [List.cons_append, received, received, ih rest]

theorem received_append_error {items : List Item} {error : IoError} :
    received (items ++ [.error error]) = received items := by
  by_cases clean : Clean items
  · rw [received_append clean]
    exact List.append_nil _
  · exact received_append_of_not_clean clean

theorem Clean.left {items more : List Item} (clean : Clean (items ++ more)) : Clean items :=
  fun e mem => clean e (List.mem_append_left _ mem)

theorem slices_flatten {n : Nat} (pos : 0 < n) (bytes : Bytes) :
    (slices n bytes).flatten = bytes := by
  have upTo : ∀ k, ((List.range k).map fun i => (bytes.drop (i * n)).take n).flatten =
      bytes.take (k * n) := by
    intro k
    induction k with
    | zero => simp
    | succ k ih =>
      rw [List.range_succ, List.map_append, List.flatten_append, ih, Nat.succ_mul,
        List.take_add]
      simp
  rw [slices, upTo]
  apply List.take_of_length_le
  have := Nat.div_add_mod (bytes.length + n - 1) n
  have := Nat.mod_lt (bytes.length + n - 1) pos
  have : n * ((bytes.length + n - 1) / n) = ((bytes.length + n - 1) / n) * n := Nat.mul_comm _ _
  omega

/-! ### The invariant -/

/-- What the consumer has taken and not returned yet. -/
def Consumer.taken : Consumer → List Item
  | .notify item => [item]
  | _ => []

/-- The slices of the current source chunk that are still to be delivered. -/
def Producer.pending : Producer → Bytes
  | .reserve slice rest => slice ++ rest.flatten
  | .put slice rest => slice ++ rest.flatten
  | .notify rest => rest.flatten
  | .check rest => rest.flatten
  | .wait rest => rest.flatten
  | _ => []

/-- What the consumer has been given, has taken, and will find in the slot. -/
def State.items (s : State) : List Item :=
  s.delivered ++ s.consumer.taken ++ s.slot.toList

/-- No error was delivered or is about to be. -/
def State.Sound (s : State) : Prop :=
  Clean s.items ∧ (∀ error, s.producer ≠ .finish (some error)) ∧
    (s.producer = .stopped → s.done = true)

/-- The slot is empty wherever the producer is not between a `put` and the drain. -/
@[grind]
def Producer.drained : Producer → Prop
  | .source => True
  | .reserve _ _ => True
  | .put _ _ => True
  | .finish none => True
  | _ => False

/-- Where the two sides can be together. -/
@[grind cases]
structure Paired (s : State) : Prop where
  drained : s.producer.drained → s.slot = none
  finishing : s.producer = .finish none → s.sourceEnded = true
  closed : s.done = true → s.producer = .finished ∨ s.producer = .stopped
  finished : s.producer = .finished → s.done = true
  ended : s.consumer = .ended → s.slot = none ∧ s.done = true
  /-- A parked consumer is notified, or is about to be. -/
  awake : s.consumer = .wait → s.ready = false → s.slot.isSome ∨ s.done = true →
    s.producer = .finished ∨ ∃ rest, s.producer = .notify rest
  /-- A producer that waits for a drain is notified of it, or is about to be. -/
  released : ∀ rest, s.producer = .wait rest → s.consumed = false → s.slot = none →
    ∃ item, s.consumer = .notify item

/-- What of the source the items are. -/
structure Faithful (s : State) : Prop where
  begins : received s.items <+: s.source
  whole : s.Sound → received s.items ++ s.producer.pending = s.source
  complete : s.done = true → Clean s.items → s.sourceEnded = true

/-! ### The steps -/

theorem Producer.loop_pending (rest : List Bytes) : (Producer.loop rest).pending = rest.flatten := by
  cases rest with
  | nil => rfl
  | cons slice rest => rfl

theorem Producer.loop_eq (rest : List Bytes) :
    Producer.loop rest = .source ∨ ∃ slice more, Producer.loop rest = .reserve slice more := by
  cases rest with
  | nil => exact .inl rfl
  | cons slice rest => exact .inr ⟨slice, rest, rfl⟩

/-- A slice is put into the slot, and the consumer is notified of it. -/
theorem Paired.put {s : State} {slice : Bytes} {rest : List Bytes} (h : Paired s)
    (at_ : s.producer = .put slice rest) :
    Paired { s with slot := some (.ok slice), producer := .notify rest } := by
  constructor <;> grind

theorem Paired.notify {s : State} {rest : List Bytes} (h : Paired s)
    (at_ : s.producer = .notify rest) :
    Paired { s with ready := true, producer := .check rest } := by
  constructor <;> grind

/-- The end is marked, with an error or without. -/
theorem Paired.finish {s : State} {error : Option IoError} {slot : Option Item} (h : Paired s)
    (at_ : s.producer = .finish error) :
    Paired { s with slot, done := true, producer := .finished } := by
  constructor <;> grind

variable {s t : State}

theorem Paired.produce (h : Paired s) (step : produce s = some t) : Paired t := by
  unfold Delivery.produce at step
  split at step
  · next slice rest at_ =>
      cases step
      exact h.put at_
  · next rest at_ =>
      cases step
      exact h.notify at_
  · next rest at_ =>
      split at step
      · cases step
        have loop := Producer.loop_eq rest
        constructor <;> grind
      · cases step
        constructor <;> grind
  · next rest at_ =>
      split at step
      · cases step
        constructor <;> grind
      · cases step
  · next error at_ =>
      cases step
      exact h.finish at_
  · next at_ =>
      cases step
      constructor <;> grind
  · cases step
  · cases step
  · cases step

theorem Paired.consume (h : Paired s) (step : consume s = some t) : Paired t := by
  unfold Delivery.consume at step
  split at step
  · split at step
    · cases step
      constructor <;> grind
    · cases step
      constructor <;> grind
  · cases step
    constructor <;> grind
  · split at step
    · cases step
      constructor <;> grind
    · cases step
  · cases step
  · cases step
  · cases step

theorem Paired.sourceChunk {bytes : Bytes} (h : Paired s)
    (step : next s (.sourceChunk bytes) = some t) : Paired t := by
  simp only [Delivery.next] at step
  split at step
  · cases step
    have loop := Producer.loop_eq (slices deliveryChunk bytes)
    constructor <;> grind
  · cases step

theorem Paired.sourceError {message : String} (h : Paired s)
    (step : next s (.sourceError message) = some t) : Paired t := by
  simp only [Delivery.next] at step
  split at step
  · cases step
    constructor <;> grind
  · cases step

theorem Paired.sourceEnd (h : Paired s)
    (step : next s .sourceEnd = some t) : Paired t := by
  simp only [Delivery.next] at step
  split at step
  · cases step
    constructor <;> grind
  · cases step

theorem Paired.reserve {granted : Bool} (h : Paired s)
    (step : next s (.reserve granted) = some t) : Paired t := by
  simp only [Delivery.next] at step
  split at step
  · cases step
    constructor <;> grind
  · cases step

theorem Paired.timeout (h : Paired s)
    (step : next s .timeout = some t) : Paired t := by
  simp only [Delivery.next] at step
  split at step
  · cases step
    constructor <;> grind
  · cases step

theorem Paired.abort (h : Paired s)
    (step : next s .abort = some t) : Paired t := by
  obtain ⟨-, -, -, -, ended, -, -⟩ := h
  simp only [Delivery.next] at step
  split at step
  · cases step
    constructor <;> grind
  · cases step
    constructor <;> grind
  · cases step

theorem Paired.poll (h : Paired s)
    (step : next s .poll = some t) : Paired t := by
  simp only [Delivery.next] at step
  split at step
  · cases step
    constructor <;> grind
  · cases step

theorem Paired.drop (h : Paired s)
    (step : next s .drop = some t) : Paired t := by
  simp only [Delivery.next] at step
  split at step
  · cases step
    constructor <;> grind
  · cases step
    constructor <;> grind
  · cases step
    constructor <;> grind
  · cases step

theorem Paired.next (label : Label) (h : Paired s) (step : next s label = some t) :
    Paired t := by
  cases label with
  | produce => exact h.produce step
  | consume => exact h.consume step
  | sourceChunk bytes => exact h.sourceChunk step
  | sourceError message => exact h.sourceError step
  | sourceEnd => exact h.sourceEnd step
  | reserve granted => exact h.reserve step
  | timeout => exact h.timeout step
  | abort => exact h.abort step
  | poll => exact h.poll step
  | drop => exact h.drop step

/-- A step that moves no bytes. -/
theorem Faithful.congr (h : Faithful s) (items : t.items = s.items) (source : t.source = s.source)
    (pending : t.producer.pending = s.producer.pending) (sound : t.Sound → s.Sound)
    (complete : t.done = true → Clean s.items → t.sourceEnded = true) : Faithful t where
  begins := by
    rw [items, source]
    exact h.begins
  whole is := by
    rw [items, source, pending]
    exact h.whole (sound is)
  complete done clean := complete done (items ▸ clean)

/-- The consumer moves on with what it has taken. -/
theorem Faithful.moves {s : State} {consumer : Consumer} (h : Faithful s)
    (taken : consumer.taken = s.consumer.taken) : Faithful { s with consumer } := by
  have items : State.items { s with consumer } = s.items := by
    rw [State.items, State.items, taken]
  exact h.congr items rfl rfl (fun sound => ⟨items ▸ sound.1, sound.2⟩) h.complete

/-- An error is in the slot, or about to be. -/
theorem Faithful.fail (h : Faithful s) (items : t.items = s.items) (source : t.source = s.source)
    (sound : ¬ t.Sound) (complete : t.done = true → Clean s.items → t.sourceEnded = true) :
    Faithful t where
  begins := by
    rw [items, source]
    exact h.begins
  whole is := absurd is sound
  complete done clean := complete done (items ▸ clean)

/-- Neither failed nor stopped. -/
def Producer.running : Producer → Bool
  | .finish (some _) => false
  | .stopped => false
  | _ => true

theorem State.Sound.of_producer {s : State} (clean : Clean s.items)
    (running : s.producer.running = true) : s.Sound := by
  refine ⟨clean, fun error eq => ?_, fun eq => ?_⟩
  · rw [eq] at running
    cases running
  · rw [eq] at running
    cases running

theorem Faithful.produce (paired : Paired s) (h : Faithful s) (step : produce s = some t) :
    Faithful t := by
  unfold Delivery.produce at step
  split at step
  · next slice rest at_ =>
      cases step
      have empty := paired.drained (at_ ▸ trivial)
      have before : s.items = s.delivered ++ s.consumer.taken := by
        rw [State.items, empty]
        exact List.append_nil _
      have open_ : s.done = false := by
        by_contra done
        rcases paired.closed (Bool.not_eq_false _ ▸ done) with eq | eq
        · rw [at_] at eq; cases eq
        · rw [at_] at eq; cases eq
      have after : State.items { s with
          slot := some (.ok slice), producer := .notify rest } = s.items ++ [.ok slice] := by
        rw [before]
        rfl
      have whole : Clean s.items → received s.items ++ (slice ++ rest.flatten) = s.source := by
        intro clean
        have eq := h.whole (.of_producer clean (by rw [at_]; rfl))
        rw [at_] at eq
        exact eq
      constructor
      · rw [after]
        by_cases clean : Clean s.items
        · rw [received_append clean, ← whole clean]
          refine (List.prefix_append_right_inj _).mpr ?_
          show slice ++ [] <+: _
          rw [List.append_nil]
          exact List.prefix_append _ _
        · rw [received_append_of_not_clean clean]
          exact h.begins
      · intro sound
        have clean : Clean s.items := (after ▸ sound.1 : Clean (s.items ++ _)).left
        rw [after, received_append clean, ← whole clean, List.append_assoc]
        show _ ++ ((slice ++ []) ++ rest.flatten) = _
        rw [List.append_nil]
      · intro done
        rw [show s.done = true from done] at open_
        cases open_
  · next rest at_ =>
      cases step
      exact h.congr rfl rfl (by rw [at_]; rfl)
        (fun sound => .of_producer sound.1 (by rw [at_]; rfl)) h.complete
  · next rest at_ =>
      split at step
      · cases step
        exact h.congr rfl rfl ((Producer.loop_pending rest).trans (by rw [at_]; rfl))
          (fun sound => .of_producer sound.1 (by rw [at_]; rfl)) h.complete
      · cases step
        exact h.congr rfl rfl (by rw [at_]; rfl)
          (fun sound => .of_producer sound.1 (by rw [at_]; rfl)) h.complete
  · next rest at_ =>
      split at step
      · cases step
        exact h.congr rfl rfl (by rw [at_]; rfl)
          (fun sound => .of_producer sound.1 (by rw [at_]; rfl)) h.complete
      · cases step
  · next error at_ =>
      cases step
      cases error with
      | none =>
        exact h.congr rfl rfl (by rw [at_]; rfl)
          (fun sound => .of_producer sound.1 (by rw [at_]; rfl)) fun _ _ => paired.finishing at_
      | some error =>
        -- The error takes the place of what is in the slot.
        have failed : (.error error : Item) ∈ s.delivered ++ s.consumer.taken ++
            (some (.error error)).toList := List.mem_append_right _ List.mem_cons_self
        constructor
        · show received (s.delivered ++ s.consumer.taken ++ [.error error]) <+: s.source
          rw [received_append_error]
          exact (received_mono _ s.slot.toList).trans h.begins
        · exact fun sound => absurd failed (sound.1 error)
        · exact fun _ clean => absurd failed (clean error)
  · next at_ =>
      cases step
      exact h.congr rfl rfl (by rw [at_]; rfl)
        (fun sound => .of_producer sound.1 (by rw [at_]; rfl)) h.complete
  · cases step
  · cases step
  · cases step

theorem Faithful.consume (h : Faithful s) (step : consume s = some t) : Faithful t := by
  have same : t.items = s.items ∧ t.source = s.source ∧ t.producer = s.producer ∧
      t.done = s.done ∧ t.sourceEnded = s.sourceEnded := by
    unfold Delivery.consume at step
    split at step
    · next at_ =>
        split at step
        · next item found =>
            cases step
            simp [State.items, at_, found, Consumer.taken]
        · next found =>
            cases step
            refine ⟨?_, rfl, rfl, rfl, rfl⟩
            show s.delivered ++ Consumer.taken _ ++ s.slot.toList = _
            rw [State.items, at_]
            split
            · rfl
            · rfl
    · next item at_ =>
        cases step
        simp [State.items, at_, Consumer.taken]
    · next at_ =>
        split at step
        · cases step
          simp [State.items, at_, Consumer.taken]
        · cases step
    · cases step
    · cases step
    · cases step
  obtain ⟨items, source, producer, done, ended⟩ := same
  exact h.congr items source (by rw [producer])
    (fun sound => ⟨items ▸ sound.1, producer ▸ sound.2.1, producer ▸ done ▸ sound.2.2⟩)
    fun is clean => ended ▸ h.complete (done ▸ is) clean

theorem Faithful.next (label : Label) (paired : Paired s) (h : Faithful s)
    (step : next s label = some t) : Faithful t := by
  cases label with
  | produce => exact h.produce paired step
  | consume => exact h.consume step
  | sourceChunk bytes =>
    simp only [Delivery.next] at step
    split at step
    · next at_ =>
        cases step
        constructor
        · exact h.begins.trans (List.prefix_append _ _)
        · intro sound
          have before := h.whole (.of_producer sound.1 (by rw [at_]; rfl))
          rw [at_] at before
          show received s.items ++ (Producer.loop (slices deliveryChunk bytes)).pending = _
          rw [Producer.loop_pending, slices_flatten (by decide), ← before]
          show _ = received s.items ++ [] ++ bytes
          rw [List.append_nil]
        · exact h.complete
    · cases step
  | sourceError message =>
    simp only [Delivery.next] at step
    split at step
    · cases step
      exact h.fail rfl rfl (fun sound => sound.2.1 _ rfl) h.complete
    · cases step
  | sourceEnd =>
    simp only [Delivery.next] at step
    split at step
    · next at_ =>
        cases step
        exact h.congr rfl rfl (by rw [at_]; rfl)
          (fun sound => .of_producer sound.1 (by rw [at_]; rfl)) fun _ _ => rfl
    · cases step
  | reserve granted =>
    simp only [Delivery.next] at step
    split at step
    · next slice rest at_ =>
        cases step
        cases granted with
        | true =>
          exact h.congr rfl rfl (by rw [at_]; rfl)
            (fun sound => .of_producer sound.1 (by rw [at_]; rfl)) h.complete
        | false => exact h.fail rfl rfl (fun sound => sound.2.1 _ rfl) h.complete
    · cases step
  | timeout =>
    simp only [Delivery.next] at step
    split at step
    · cases step
      exact h.fail rfl rfl (fun sound => sound.2.1 _ rfl) h.complete
    · cases step
  | abort =>
    -- An aborted producer has not finished.
    have stops (finished : s.producer ≠ .finished) (stopped : s.producer ≠ .stopped) :
        Faithful { s with producer := .stopped } :=
      h.fail rfl rfl (fun sound => (paired.closed (sound.2.2 rfl)).elim finished stopped) h.complete
    simp only [Delivery.next] at step
    split at step
    · next at_ =>
        cases step
        exact stops (by simp [at_]) (by simp [at_])
    · next at_ =>
        cases step
        exact stops (by simp [at_]) (by simp [at_])
    · cases step
  | poll =>
    simp only [Delivery.next] at step
    split at step
    · next at_ =>
        cases step
        exact h.moves (by rw [at_]; rfl)
    · cases step
  | drop =>
    simp only [Delivery.next] at step
    split at step
    · next at_ =>
        cases step
        exact h.moves (by rw [at_]; rfl)
    · next at_ =>
        cases step
        exact h.moves (by rw [at_]; rfl)
    · next at_ =>
        cases step
        exact h.moves (by rw [at_]; rfl)
    · cases step

theorem reachable_faithful {s : State} (reached : machine.Reachable s) :
    Paired s ∧ Faithful s := by
  refine reached.invariant (P := fun s => Paired s ∧ Faithful s) ?_ fun s label t step h =>
    ⟨h.1.next label step, h.2.next label h.1 step⟩
  exact ⟨⟨fun _ => rfl, fun eq => (nomatch eq), fun eq => (nomatch eq), fun eq => (nomatch eq),
    fun eq => (nomatch eq), fun eq => (nomatch eq), fun _ eq => (nomatch eq)⟩,
    ⟨List.nil_prefix, fun _ => rfl, fun eq => (nomatch eq)⟩⟩

/-! ### Delivery -/

/-- **Delivery truncates nothing silently.** In every state of every interleaving,
what the consumer was given before the first error is a beginning of the source;
an end that no error precedes means that the source ended normally and that all
of it was given; a producer that waits although the slot is empty has the
permit, or the consumer is about to store it; and a parked consumer with
something to take, or with the end to see, has the permit, or the producer is
about to store it. -/
theorem delivery_faithful {s : State} (reached : machine.Reachable s) :
    received s.delivered <+: s.source ∧
    (s.consumer = .ended → Clean s.delivered →
      s.sourceEnded = true ∧ received s.delivered = s.source) ∧
    (∀ rest, s.producer = .wait rest → s.slot = none →
      s.consumed = true ∨ ∃ item, s.consumer = .notify item) ∧
    (s.consumer = .wait → s.slot.isSome ∨ s.done = true →
      s.ready = true ∨ s.producer = .finished ∨ ∃ rest, s.producer = .notify rest) := by
  obtain ⟨paired, faithful⟩ := reachable_faithful reached
  refine ⟨?_, ?_, ?_, ?_⟩
  · have shorter := received_mono s.delivered (s.consumer.taken ++ s.slot.toList)
    rw [← List.append_assoc] at shorter
    exact shorter.trans faithful.begins
  · intro ended clean
    obtain ⟨empty, done⟩ := paired.ended ended
    have items : s.items = s.delivered := by
      rw [State.items, ended, empty]
      exact (List.append_nil _).trans (List.append_nil _)
    refine ⟨faithful.complete done (items ▸ clean), ?_⟩
    have closed := paired.closed done
    have running : ∀ error, s.producer ≠ .finish (some error) := by
      intro error eq
      rcases closed with closed | closed
      · rw [closed] at eq
        cases eq
      · rw [closed] at eq
        cases eq
    have whole := faithful.whole ⟨items ▸ clean, running, fun _ => done⟩
    rw [items] at whole
    rcases closed with closed | closed
    · rw [closed] at whole
      exact (List.append_nil _).symm.trans whole
    · rw [closed] at whole
      exact (List.append_nil _).symm.trans whole
  · intro rest waits empty
    cases consumed : s.consumed with
    | true => exact .inl rfl
    | false => exact .inr (paired.released rest waits consumed empty)
  · intro parked something
    cases ready : s.ready with
    | true => exact .inl rfl
    | false => exact .inr (paired.awake parked ready something)

/-- A body of one chunk, delivered to its end. -/
def ordinary : List Label :=
  [.poll, .consume, .sourceChunk [111, 107], .reserve true, .produce, .produce, .consume,
    .consume, .consume, .produce, .sourceEnd, .produce, .poll, .consume]

theorem delivery_faithful_ordinary : ∃ s : State, machine.run machine.init ordinary = some s ∧
    s.delivered = [.ok [111, 107]] ∧ received s.delivered <+: s.source := by
  have ends : (machine.run machine.init ordinary).map (fun s => s.delivered) =
      some [.ok [111, 107]] := by
    decide +kernel
  obtain ⟨s, ran, delivered⟩ := Option.map_eq_some_iff.mp ends
  exact ⟨s, ran, delivered, (delivery_faithful ⟨ordinary, ran⟩).1⟩

end LlamaServerManager.Router.Delivery
