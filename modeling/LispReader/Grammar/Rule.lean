import LispReader.Grammar.Report

/-!
# Rules

A rule reads a piece off the front of its input. It answers with a value or with the report that
stopped it, and with the reports that it made on the way; a rule never puts a token back, so what it
leaves is a suffix of what it was given. `Rule.Consumes` holds of the rules that read at least one
token for a value.
-/

namespace LispReader.Grammar

structure Reply (α : Type) where
  result : Except Report α
  /-- What was reported without stopping, in order. -/
  reports : List Report
  /-- What is left of the input. -/
  rest : List Token

/-- Goes on with `f` if there is a value. -/
def Reply.andThen {α β : Type} (first : Reply α) (f : α → List Token → Reply β) : Reply β :=
  match first.result with
  | .ok a =>
    let second := f a first.rest
    { second with reports := first.reports ++ second.reports }
  | .error report => ⟨.error report, first.reports, first.rest⟩

theorem Reply.andThen_rest {α β : Type} {first : Reply α} {f : α → List Token → Reply β}
    (h : ∀ a, (f a first.rest).rest <:+ first.rest) : (first.andThen f).rest <:+ first.rest := by
  unfold andThen
  split
  · exact h _
  · exact List.suffix_rfl

theorem Reply.result_andThen_eq_ok {α β : Type} {first : Reply α} {f : α → List Token → Reply β}
    {b : β} (h : (first.andThen f).result = .ok b) :
    ∃ a, first.result = .ok a ∧ (f a first.rest).result = .ok b ∧
      (first.andThen f).rest = (f a first.rest).rest := by
  unfold andThen at h ⊢
  split at h
  · rename_i a found
    exact ⟨a, found, h, rfl⟩
  · cases h

structure Rule (α : Type) where
  run : List Token → Reply α
  rest_suffix (input : List Token) : (run input).rest <:+ input

namespace Rule

variable {α β σ : Type}

theorem rest_length (r : Rule α) (input : List Token) :
    (r.run input).rest.length ≤ input.length := (r.rest_suffix input).length_le

instance : Monad Rule where
  pure a := ⟨fun input => ⟨.ok a, [], input⟩, fun _ => List.suffix_rfl⟩
  bind r f :=
    ⟨fun input => (r.run input).andThen fun a => (f a).run,
      fun input => (Reply.andThen_rest fun a => (f a).rest_suffix _).trans (r.rest_suffix input)⟩

@[simp] theorem run_pure (a : α) (input : List Token) :
    (pure a : Rule α).run input = ⟨.ok a, [], input⟩ := rfl

@[simp] theorem run_bind (r : Rule α) (f : α → Rule β) (input : List Token) :
    (r >>= f).run input = (r.run input).andThen fun a => (f a).run := rfl

/-! ### Single steps -/

/-- The input that lies ahead; reads nothing. -/
def ahead : Rule (List Token) := ⟨fun input => ⟨.ok input, [], input⟩, fun _ => List.suffix_rfl⟩

/-- Stops with `place` to blame. -/
def stop (problem : Problem) (place : List Token) : Rule α :=
  ⟨fun input => ⟨.error ⟨problem, place⟩, [], input⟩, fun _ => List.suffix_rfl⟩

/-- Reports and goes on. -/
def note (problem : Problem) (place : List Token) : Rule Unit :=
  ⟨fun input => ⟨.ok (), [⟨problem, place⟩], input⟩, fun _ => List.suffix_rfl⟩

/-- Reads a token if `select` takes it. -/
def accept (select : Token → Option σ) : Rule (Option σ) where
  run
    | [] => ⟨.ok none, [], []⟩
    | token :: rest =>
      match select token with
      | some s => ⟨.ok (some s), [], rest⟩
      | none => ⟨.ok none, [], token :: rest⟩
  rest_suffix
    | [] => List.suffix_rfl
    | token :: rest => by
      dsimp only
      split
      · exact List.suffix_cons _ _
      · exact List.suffix_rfl

/-- Reads two tokens if they are of these kinds. -/
def acceptPair (first second : Token.Kind) : Rule Bool where
  run
    | a :: b :: rest =>
      if a.kind = first ∧ b.kind = second then ⟨.ok true, [], rest⟩
      else ⟨.ok false, [], a :: b :: rest⟩
    | short => ⟨.ok false, [], short⟩
  rest_suffix input := by
    split
    · split
      · exact (List.suffix_cons _ _).trans (List.suffix_cons _ _)
      · exact List.suffix_rfl
    · exact List.suffix_rfl

theorem run_accept (select : Token → Option σ) (input : List Token) :
    (accept select).run input = ⟨.ok none, [], input⟩ ∨
      ∃ token s rest, input = token :: rest ∧ select token = some s ∧
        (accept select).run input = ⟨.ok (some s), [], rest⟩ := by
  cases input with
  | nil => exact .inl rfl
  | cons token rest =>
    cases h : select token with
    | none => left; simp [accept, h]
    | some s => exact .inr ⟨token, s, rest, rfl, h, by simp [accept, h]⟩

theorem run_acceptPair (first second : Token.Kind) (input : List Token) :
    (acceptPair first second).run input = ⟨.ok false, [], input⟩ ∨
      ∃ a b rest, input = a :: b :: rest ∧ a.kind = first ∧ b.kind = second ∧
        (acceptPair first second).run input = ⟨.ok true, [], rest⟩ := by
  match input with
  | [] | [_] => exact .inl rfl
  | a :: b :: rest =>
    by_cases h : a.kind = first ∧ b.kind = second
    · exact .inr ⟨a, b, rest, rfl, h.1, h.2, by simp [acceptPair, h]⟩
    · left; simp [acceptPair, h]

/-- Selects the tokens of one kind. -/
def ofKind (kind : Token.Kind) (token : Token) : Option Token :=
  if token.kind = kind then some token else none

/-- Reads a token of this kind or stops before the one that stands in its place. -/
def expect (kind : Token.Kind) (problem : Problem) : Rule Token := do
  match ← accept (ofKind kind) with
  | some token => pure token
  | none => stop problem (← ahead)

/-! ### Rules that read something -/

def Consumes (r : Rule α) : Prop :=
  ∀ input a, (r.run input).result = .ok a → (r.run input).rest.length < input.length

theorem consumes_bind {r : Rule α} (h : r.Consumes) (f : α → Rule β) : (r >>= f).Consumes := by
  intro input b ok
  obtain ⟨a, first, -, rest⟩ := Reply.result_andThen_eq_ok ok
  have := h input a first
  have := (f a).rest_length (r.run input).rest
  rw [run_bind, rest]
  omega

theorem consumes_bind_of_forall (r : Rule α) {f : α → Rule β} (h : ∀ a, (f a).Consumes) :
    (r >>= f).Consumes := by
  intro input b ok
  obtain ⟨a, -, second, rest⟩ := Reply.result_andThen_eq_ok ok
  have := h a _ b second
  have := r.rest_length input
  rw [run_bind, rest]
  omega

theorem consumes_stop (problem : Problem) (place : List Token) :
    (stop problem place : Rule α).Consumes := by
  intro input a h
  cases h

theorem consumes_accept_bind {select : Token → Option σ} {f : Option σ → Rule β}
    (h : (f none).Consumes) : (accept select >>= f).Consumes := by
  intro input b ok
  rw [run_bind] at ok ⊢
  rcases run_accept select input with same | ⟨token, s, rest, rfl, -, same⟩ <;> rw [same] at ok ⊢
  · exact h input b ok
  · exact Nat.lt_succ_of_le ((f (some s)).rest_length rest)

theorem consumes_acceptPair_bind {first second : Token.Kind} {f : Bool → Rule β}
    (h : (f false).Consumes) : (acceptPair first second >>= f).Consumes := by
  intro input b ok
  rw [run_bind] at ok ⊢
  rcases run_acceptPair first second input with same | ⟨_, _, rest, rfl, -, -, same⟩ <;>
    rw [same] at ok ⊢
  · exact h input b ok
  · exact Nat.lt_succ_of_le (Nat.le_succ_of_le ((f true).rest_length rest))

end Rule

end LispReader.Grammar
