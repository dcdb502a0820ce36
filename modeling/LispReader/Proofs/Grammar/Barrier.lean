import LispReader.Proofs.Grammar.Parts
import LispReader.Proofs.Grammar.Piece

/-!
# Expressions stop at a semicolon

`Rule.Halts barrier r` says that `r` never reads the token `barrier`: what stands behind it has no
influence on the reply, faults and reports included, and is left with the barrier before it. The
result for expressions is `halts_expression`.
-/

namespace LispReader.Grammar

/-- The same reply where more input follows. -/
def Reply.before {α : Type} (next : List Token) (reply : Reply α) : Reply α :=
  ⟨reply.result.mapError (·.before next), reply.reports.map (·.before next), reply.rest ++ next⟩

section Before

variable {α β : Type} {reply : Reply α} (f : α → List Token → Reply β) (next : List Token)

theorem Reply.andThen_before_of_ok {a : α} (h : reply.result = .ok a) :
    (reply.before next).andThen f = ⟨(f a (reply.rest ++ next)).result,
      reply.reports.map (·.before next) ++ (f a (reply.rest ++ next)).reports,
      (f a (reply.rest ++ next)).rest⟩ := by
  unfold before
  rw [h]
  rfl

theorem Reply.andThen_before_of_error {report : Report} (h : reply.result = .error report) :
    (reply.before next).andThen f =
      Reply.before next ⟨.error report, reply.reports, reply.rest⟩ := by
  unfold before
  rw [h]
  rfl

end Before

namespace Rule

variable {α β σ : Type} {barrier : Token} {read : List Token}

/-- `Halts` where `read` stands before the barrier. The rule may know what is behind the barrier, but
it makes nothing of it. -/
def HaltsAt (barrier : Token) (r : List Token → Rule α) (read : List Token) : Prop :=
  ∃ reply : Reply α, ∀ rest, (r rest).run (read ++ barrier :: rest) = reply.before (barrier :: rest)

def Halts (barrier : Token) (r : Rule α) : Prop := ∀ read, HaltsAt barrier (fun _ => r) read

theorem suffix_of_halts {r : List Token → Rule α} {reply : Reply α}
    (h : ∀ rest, (r rest).run (read ++ barrier :: rest) = reply.before (barrier :: rest)) :
    reply.rest <:+ read := by
  obtain ⟨done, same⟩ := (h []) ▸ (r []).rest_suffix (read ++ [barrier])
  rw [Reply.before, ← List.append_assoc] at same
  exact ⟨done, List.append_cancel_right same⟩

theorem haltsAt_bind {r : List Token → Rule α} {f : List Token → α → Rule β}
    (first : HaltsAt barrier r read)
    (second : ∀ a kept, kept <:+ read → HaltsAt barrier (fun rest => f rest a) kept) :
    HaltsAt barrier (fun rest => r rest >>= f rest) read := by
  obtain ⟨reply, same⟩ := first
  cases result : reply.result with
  | error report =>
    refine ⟨⟨.error report, reply.reports, reply.rest⟩, fun rest => ?_⟩
    rw [run_bind, same, Reply.andThen_before_of_error _ _ result]
  | ok a =>
    obtain ⟨next, more⟩ := second a reply.rest (suffix_of_halts same)
    refine ⟨⟨next.result, reply.reports ++ next.reports, next.rest⟩, fun rest => ?_⟩
    rw [run_bind, same, Reply.andThen_before_of_ok _ _ result, more]
    simp [Reply.before]

theorem halts_bind {r : Rule α} {f : α → Rule β} (first : r.Halts barrier)
    (second : ∀ a, (f a).Halts barrier) : (r >>= f).Halts barrier :=
  fun read => haltsAt_bind (first read) fun a kept _ => second a kept

/-! ### Single steps -/

theorem haltsAt_pure (a : α) : HaltsAt barrier (fun _ => pure a) read :=
  ⟨⟨.ok a, [], read⟩, fun _ => rfl⟩

theorem halts_pure (a : α) : (pure a : Rule α).Halts barrier := fun _ => haltsAt_pure a

/-- The place of a fault that is found here. -/
theorem haltsAt_stop (problem : Problem) (place : List Token) :
    HaltsAt barrier (fun rest => (stop problem (place ++ barrier :: rest) : Rule α)) read :=
  ⟨⟨.error ⟨problem, place⟩, [], read⟩, fun _ => rfl⟩

theorem haltsAt_note (problem : Problem) (place : List Token) :
    HaltsAt barrier (fun rest => note problem (place ++ barrier :: rest)) read :=
  ⟨⟨.ok (), [⟨problem, place⟩], read⟩, fun _ => rfl⟩

theorem haltsAt_ahead_bind {f : List Token → List Token → Rule β}
    (h : HaltsAt barrier (fun rest => f rest (read ++ barrier :: rest)) read) :
    HaltsAt barrier (fun rest => ahead >>= f rest) read := by
  obtain ⟨reply, same⟩ := h
  refine ⟨reply, fun rest => ?_⟩
  simp [ahead, Reply.andThen, same]

theorem halts_tooDeep : (tooDeep : Rule α).Halts barrier :=
  fun read => haltsAt_ahead_bind (haltsAt_stop _ read)

theorem haltsAt_accept_bind {select : Token → Option σ} {f : List Token → Option σ → Rule α}
    (refused : select barrier = none) (left : HaltsAt barrier (fun rest => f rest none) read)
    (taken : ∀ token s kept, read = token :: kept →
      HaltsAt barrier (fun rest => f rest (some s)) kept) :
    HaltsAt barrier (fun rest => accept select >>= f rest) read := by
  cases read with
  | nil =>
    obtain ⟨reply, same⟩ := left
    refine ⟨reply, fun rest => ?_⟩
    have same : (f rest none).run (barrier :: rest) = _ := same rest
    simp [accept, refused, Reply.andThen, same]
  | cons token read =>
    cases found : select token with
    | none =>
      obtain ⟨reply, same⟩ := left
      refine ⟨reply, fun rest => ?_⟩
      have same : (f rest none).run (token :: (read ++ barrier :: rest)) = _ := same rest
      simp [accept, found, Reply.andThen, same]
    | some s =>
      obtain ⟨reply, same⟩ := taken token s read rfl
      refine ⟨reply, fun rest => ?_⟩
      simp [accept, found, Reply.andThen, same]

theorem halts_accept_bind {select : Token → Option σ} {f : Option σ → Rule α}
    (refused : select barrier = none) (h : ∀ found, (f found).Halts barrier) :
    (accept select >>= f).Halts barrier :=
  fun read => haltsAt_accept_bind refused (h none read) fun _ s kept _ => h (some s) kept

theorem ofKind_eq_none {kind : Token.Kind} {token : Token} (other : token.kind ≠ kind) :
    ofKind kind token = none := if_neg other

theorem halts_expect {kind : Token.Kind} (other : barrier.kind ≠ kind) (problem : Problem) :
    (expect kind problem).Halts barrier := by
  have none : ofKind kind barrier = none := ofKind_eq_none other
  refine fun read => haltsAt_accept_bind none ?_ fun _ token kept _ => haltsAt_pure token
  exact haltsAt_ahead_bind (haltsAt_stop problem read)

/-! ### Repetition -/

theorem halts_foldWhile {select : Token → Option σ} {step : α → σ → Rule α}
    (refused : select barrier = none) (round : ∀ acc s, (step acc s).Halts barrier) (acc : α) :
    (foldWhile select step acc).Halts barrier := by
  intro read
  induction length : read.length using Nat.strongRecOn generalizing read acc with
  | ind n ih =>
    rw [foldWhile_eq]
    refine haltsAt_accept_bind refused (haltsAt_pure acc) ?_
    rintro token s kept rfl
    refine haltsAt_bind (round acc s kept) fun next left short => ih left.length ?_ next left rfl
    rw [← length]
    exact Nat.lt_succ_of_le short.length_le

theorem halts_noteExcess (tooMany : Problem) (count : Nat) :
    (noteExcess tooMany count).Halts barrier := by
  intro read
  unfold noteExcess
  split
  · exact haltsAt_ahead_bind (haltsAt_note tooMany read)
  · exact haltsAt_pure ()

theorem halts_listOf {item : Rule α} {tooMany : Problem} (comma : barrier.kind ≠ .comma)
    (closing : barrier.kind ≠ .rightParen) (h : item.Halts barrier) :
    (listOf item tooMany).Halts barrier := by
  have some : (item >>= fun first => foldWhile (ofKind .comma)
      (fun items _ => listRound item tooMany items) [first]).Halts barrier := by
    refine halts_bind h fun first => halts_foldWhile (ofKind_eq_none comma) (fun items _ => ?_) [first]
    exact halts_bind (halts_noteExcess _ _) fun _ => halts_bind h fun _ => halts_pure _
  intro read
  rw [listOf_eq]
  refine haltsAt_ahead_bind ?_
  -- The list is empty or not by the next token, which may be the barrier.
  cases read with
  | nil => simpa [closing] using some []
  | cons token read =>
    by_cases closed : token.kind = .rightParen
    · simpa [closed] using haltsAt_pure []
    · simpa [closed] using some (token :: read)

end Rule

/-! ### The rules -/

open Rule

section Rules

variable {barrier : Token} {nested : Nested}

structure Nested.Halts (barrier : Token) (nested : Nested) : Prop where
  unary : nested.unary.Halts barrier
  expr : nested.expr.Halts barrier

variable (ends : barrier.kind = .semicolon) (h : nested.Halts barrier)

include ends h

theorem halts_primary : (primary nested).Halts barrier := by
  intro read
  have none : Start.ofToken? barrier = none := by simp [Start.ofToken?, ends]
  refine haltsAt_ahead_bind (haltsAt_accept_bind none (haltsAt_stop _ read) fun _ start kept _ => ?_)
  cases start with
  | constant value => exact haltsAt_pure _
  | name symbol => exact haltsAt_pure _
  | misfit => exact haltsAt_stop _ read
  | group =>
    refine halts_bind h.expr (fun _ => ?_) kept
    exact halts_bind (halts_expect (by simp [ends]) _) fun _ => halts_pure _

theorem halts_call : (call nested).Halts barrier := by
  refine halts_bind (halts_primary ends h) fun callee => ?_
  refine halts_foldWhile (ofKind_eq_none (by simp [ends])) (fun callee _ => ?_) callee
  refine halts_bind (halts_listOf (by simp [ends]) (by simp [ends]) h.expr) fun args => ?_
  exact halts_bind (halts_expect (by simp [ends]) _) fun _ => halts_pure _

theorem halts_unary : (Grammar.unary nested).Halts barrier := by
  refine halts_accept_bind (ofKind_eq_none (by simp [ends])) fun sign => ?_
  cases sign with
  | none => exact halts_call ends h
  | some sign => exact halts_bind h.unary fun _ => halts_pure _

theorem halts_binary (rank : Nat) : (binary (Grammar.unary nested) rank).Halts barrier := by
  induction rank with
  | zero => exact halts_unary ends h
  | succ rank ih =>
    have none : operatorOfRank rank barrier = none := by simp [operatorOfRank, ends, Operator.ofKind?]
    refine halts_bind ih fun left => halts_foldWhile none (fun _ _ => ?_) left
    exact halts_bind ih fun _ => halts_pure _

theorem halts_expression : (expression nested).Halts barrier := by
  refine halts_bind (halts_binary ends h _) fun left read => haltsAt_ahead_bind ?_
  have none : ofKind .equal barrier = none := ofKind_eq_none (by simp [ends])
  refine haltsAt_accept_bind none (haltsAt_pure left) fun _ _ kept _ => ?_
  refine haltsAt_bind (h.expr kept) fun value kept _ => ?_
  cases left with
  | name _ | get _ _ => exact haltsAt_pure _
  | _ => exact haltsAt_bind (haltsAt_note _ read) fun _ _ _ => haltsAt_pure _

end Rules

theorem halts_nestedWithin {barrier : Token} (ends : barrier.kind = .semicolon) (levels : Nat) :
    (nestedWithin levels).Halts barrier := by
  induction levels with
  | zero => exact ⟨halts_tooDeep, halts_tooDeep⟩
  | succ levels ih => exact ⟨halts_unary ends ih, halts_expression ends ih⟩

end LispReader.Grammar
