import Mathlib.Data.List.Basic

/-!
Decoders that consume a stream, against the codes that they accept.

A decoder works on a state of which three things are known (`Stream`): that it is sound, what is
left of the stream, and what else decides how it goes on (its credit). `Decodes` relates a decoder
to a grammar: what it accepts is a code of the grammar, in front of what is left afterwards; it
accepts every code of the grammar, whatever follows; and it does not fail in a way that is ruled
out. Decoders are put together as their grammars are (`Decodes.bind`, `Decodes.loop`).
-/

namespace LlamaServerManager.Lib.Decoding

universe u

variable {σ ε τ γ α β : Type u}

/-- What is known of a state of a decoder: whether it can occur, which tokens are left,
and how much may still be spent. -/
structure Stream (σ τ γ : Type u) where
  valid : σ → Prop
  rest : σ → List τ
  credit : σ → γ

/-- A grammar: from a credit, a code of a value, and the credit that is left. It relates
more than it computes, and knows nothing of the decoder. -/
abbrev Grammar (τ γ α : Type u) := γ → List τ → α → γ → Prop

/-- The decoder accepts the codes of the grammar and no others. -/
structure Decodes (stream : Stream σ τ γ) (ruledOut : ε → Prop) (decoder : StateT σ (Except ε) α)
    (grammar : Grammar τ γ α) : Prop where
  sound : ∀ s a s', stream.valid s → decoder s = .ok (a, s') → stream.valid s' ∧
    ∃ code, stream.rest s = code ++ stream.rest s' ∧
      grammar (stream.credit s) code a (stream.credit s')
  complete : ∀ s code rest a credit, stream.valid s → stream.rest s = code ++ rest →
    grammar (stream.credit s) code a credit →
    ∃ s', decoder s = .ok (a, s') ∧ stream.rest s' = rest ∧ stream.credit s' = credit
  fails : ∀ s e, stream.valid s → decoder s = .error e → ¬ ruledOut e

namespace Grammar

/-- The empty code. -/
def pure (a : α) : Grammar τ γ α := fun credit code b credit' =>
  code = [] ∧ b = a ∧ credit' = credit

/-- A code and then another that depends on the value of the first. -/
def bind (first : Grammar τ γ α) (next : α → Grammar τ γ β) : Grammar τ γ β :=
  fun credit code b credit' => ∃ code₁ code₂ a between,
    code = code₁ ++ code₂ ∧ first credit code₁ a between ∧ next a between code₂ b credit'

/-- So many codes, each from the value of the one before. -/
def loop (step : α → Grammar τ γ α) : Nat → α → Grammar τ γ α
  | 0, a => pure a
  | n + 1, a => (step a).bind (loop step n)

end Grammar

/-- `for _ in 0..n`. -/
def loop {m : Type u → Type u} [Monad m] (step : α → m α) : Nat → α → m α
  | 0, a => pure a
  | n + 1, a => step a >>= loop step n

variable {stream : Stream σ τ γ} {ruledOut : ε → Prop}

namespace Decodes

theorem congr {decoder : StateT σ (Except ε) α} {grammar grammar' : Grammar τ γ α}
    (decodes : Decodes stream ruledOut decoder grammar)
    (same : ∀ credit code a credit', grammar credit code a credit' ↔
      grammar' credit code a credit') : Decodes stream ruledOut decoder grammar' where
  sound s a s' valid run := by
    obtain ⟨valid', code, rest, codes⟩ := decodes.sound s a s' valid run
    exact ⟨valid', code, rest, (same _ _ _ _).mp codes⟩
  complete s code rest a credit valid split codes :=
    decodes.complete s code rest a credit valid split ((same _ _ _ _).mpr codes)
  fails := decodes.fails

theorem pure (a : α) :
    Decodes stream ruledOut (Pure.pure a : StateT σ (Except ε) α) (Grammar.pure a) where
  sound s b s' valid run := by
    obtain ⟨rfl, rfl⟩ := Prod.mk.inj (Except.ok.inj run)
    exact ⟨valid, [], rfl, rfl, rfl, rfl⟩
  complete s code rest b credit valid split codes := by
    obtain ⟨rfl, rfl, rfl⟩ := codes
    exact ⟨s, rfl, split, rfl⟩
  fails s e _ run := by cases run

/-- One decoder after another; what follows need only be right for the values that the first can
give. -/
theorem bind {decoder : StateT σ (Except ε) α} {next : α → StateT σ (Except ε) β}
    {first : Grammar τ γ α} {grammar : α → Grammar τ γ β}
    (decodes : Decodes stream ruledOut decoder first)
    (then_ : ∀ a, (∃ credit code credit', first credit code a credit') →
      Decodes stream ruledOut (next a) (grammar a)) :
    Decodes stream ruledOut (decoder >>= next) (first.bind grammar) where
  sound s b s'' valid run := by
    change (decoder s >>= fun p => next p.1 p.2) = _ at run
    cases head : decoder s with
    | error e =>
      rw [head] at run
      cases run
    | ok p =>
      obtain ⟨a, s'⟩ := p
      rw [head] at run
      obtain ⟨valid', code₁, rest₁, codes₁⟩ := decodes.sound s a s' valid head
      obtain ⟨valid'', code₂, rest₂, codes₂⟩ :=
        (then_ a ⟨_, _, _, codes₁⟩).sound s' b s'' valid' run
      refine ⟨valid'', code₁ ++ code₂, ?_, code₁, code₂, a, _, rfl, codes₁, codes₂⟩
      rw [rest₁, rest₂, List.append_assoc]
  complete s code rest b credit valid split codes := by
    obtain ⟨code₁, code₂, a, between, rfl, codes₁, codes₂⟩ := codes
    rw [List.append_assoc] at split
    obtain ⟨s', head, rest₁, credit₁⟩ := decodes.complete s code₁ _ a between valid split codes₁
    obtain ⟨valid', -⟩ := decodes.sound s a s' valid head
    obtain ⟨s'', tail, rest₂, credit₂⟩ := (then_ a ⟨_, _, _, codes₁⟩).complete s' code₂ rest b
      credit valid' rest₁ (credit₁ ▸ codes₂)
    refine ⟨s'', ?_, rest₂, credit₂⟩
    change (decoder s >>= fun p => next p.1 p.2) = _
    rw [head]
    exact tail
  fails s e valid run := by
    change (decoder s >>= fun p => next p.1 p.2) = _ at run
    cases head : decoder s with
    | error e' =>
      rw [head] at run
      cases run
      exact decodes.fails s e valid head
    | ok p =>
      obtain ⟨a, s'⟩ := p
      rw [head] at run
      obtain ⟨valid', _, _, codes⟩ := decodes.sound s a s' valid head
      exact (then_ a ⟨_, _, _, codes⟩).fails s' e valid' run

/-- What is made of a decoded value. -/
theorem map {decoder : StateT σ (Except ε) α} {grammar : Grammar τ γ α}
    (decodes : Decodes stream ruledOut decoder grammar) (f : α → β) :
    Decodes stream ruledOut (do return f (← decoder)) fun credit code b credit' =>
      ∃ a, grammar credit code a credit' ∧ b = f a :=
  (decodes.bind fun a _ => Decodes.pure (f a)).congr fun credit code b credit' => by
    constructor
    · rintro ⟨code, _, a, _, rfl, codes, rfl, rfl, rfl⟩
      rw [List.append_nil]
      exact ⟨a, codes, rfl⟩
    · rintro ⟨a, codes, rfl⟩
      exact ⟨code, [], a, credit', (List.append_nil _).symm, codes, rfl, rfl, rfl⟩

theorem loop {step : α → StateT σ (Except ε) α} {grammar : α → Grammar τ γ α}
    (decodes : ∀ a, Decodes stream ruledOut (step a) (grammar a)) (n : Nat) (a : α) :
    Decodes stream ruledOut (Decoding.loop step n a) (Grammar.loop grammar n a) := by
  induction n generalizing a with
  | zero => exact Decodes.pure a
  | succ n ih => exact (decodes a).bind fun b _ => ih b

/-- A decoder that gives up. -/
theorem throw {e : ε} {grammar : Grammar τ γ α} (allowed : ¬ ruledOut e)
    (none_ : ∀ credit code a credit', ¬ grammar credit code a credit') :
    Decodes stream ruledOut (MonadExcept.throw e : StateT σ (Except ε) α) grammar where
  sound s a s' _ run := by cases run
  complete s code rest a credit _ _ codes := (none_ _ _ _ _ codes).elim
  fails s e' _ run := by
    cases run
    exact allowed

end Decodes

end LlamaServerManager.Lib.Decoding
