import LispReader.Proofs.Grammar.Documented

/-!
# One token of lookahead

`Rule.Local r` says that `r` decides by the next token alone: as long as a token is not read, what
stands behind it has no influence. Only the opening of a definition is told by two tokens, and there
the first one is read in either case (`takes_statement`). The result for programs is `local_program`.
-/

namespace LispReader.Grammar

open Rule

theorem exists_kept {α : Type} {read mid tail : List α} (back : tail <:+ mid)
    (front : mid <:+ read ++ tail) : ∃ kept, mid = kept ++ tail ∧ kept <:+ read := by
  obtain ⟨kept, rfl⟩ := back
  obtain ⟨done, same⟩ := front
  rw [← List.append_assoc] at same
  exact ⟨kept, rfl, done, List.append_cancel_right same⟩

namespace Rule

variable {α β σ : Type}

/-- A fault is blamed on a token of the input. -/
def Placed (r : Rule α) : Prop :=
  ∀ input report, r.strict input = .error report → report.place <:+ input

/-- `Local` where `read` stands before the token. -/
def LocalAt (r : Rule α) (read : List Token) : Prop :=
  ∀ token rest rest',
    (∀ a kept, r.strict (read ++ token :: rest) = .ok (a, kept ++ token :: rest) →
      r.strict (read ++ token :: rest') = .ok (a, kept ++ token :: rest')) ∧
    (∀ problem kept, r.strict (read ++ token :: rest) = .error ⟨problem, kept ++ token :: rest⟩ →
      r.strict (read ++ token :: rest') = .error ⟨problem, kept ++ token :: rest'⟩)

structure Local (r : Rule α) : Prop where
  placed : r.Placed
  each (read : List Token) : r.LocalAt read

theorem placed_bind {r : Rule α} {f : α → Rule β} (first : r.Placed) (second : ∀ a, (f a).Placed) :
    (r >>= f).Placed := by
  intro input report error
  rcases strict_bind_error error with failed | ⟨a, mid, ok, failed⟩
  · exact first input report failed
  · exact (second a mid report failed).trans (strict_rest ok)

theorem localAt_bind {r : Rule α} {f : α → Rule β} {read : List Token} (first : r.LocalAt read)
    (placed : ∀ a, (f a).Placed)
    (second : ∀ token rest a kept, kept <:+ read →
      r.strict (read ++ token :: rest) = .ok (a, kept ++ token :: rest) → (f a).LocalAt kept) :
    (r >>= f).LocalAt read := by
  intro token rest rest'
  constructor
  · intro b kept h
    obtain ⟨a, mid, ok, more⟩ := strict_bind_ok h
    obtain ⟨held, rfl, short⟩ := exists_kept ((List.suffix_append _ _).trans (strict_rest more))
      (strict_rest ok)
    rw [strict_bind_of_ok ((first token rest rest').1 a held ok)]
    exact ((second token rest a held short ok) token rest rest').1 b kept more
  · intro problem kept h
    rcases strict_bind_error h with failed | ⟨a, mid, ok, failed⟩
    · exact strict_bind_of_error ((first token rest rest').2 problem kept failed) f
    · obtain ⟨held, rfl, short⟩ := exists_kept
        ((List.suffix_append _ _).trans (placed a _ _ failed)) (strict_rest ok)
      rw [strict_bind_of_ok ((first token rest rest').1 a held ok)]
      exact ((second token rest a held short ok) token rest rest').2 problem kept failed

theorem local_bind {r : Rule α} {f : α → Rule β} (first : r.Local) (second : ∀ a, (f a).Local) :
    (r >>= f).Local :=
  ⟨placed_bind first.placed fun a => (second a).placed, fun read =>
    localAt_bind (first.each read) (fun a => (second a).placed) fun _ _ a kept _ _ => (second a).each kept⟩

/-! ### Single steps -/

theorem local_silent {r : Rule α} {a : α} (silent : ∀ input, r.strict input = .ok (a, input)) :
    r.Local := by
  constructor
  · intro input report h
    rw [silent] at h
    cases h
  · intro read token rest rest'
    constructor
    · intro b kept h
      rw [silent] at h
      obtain ⟨rfl, same⟩ := Prod.mk.inj (Except.ok.inj h)
      obtain rfl := List.append_cancel_right same
      rw [silent]
    · intro problem kept h
      rw [silent] at h
      cases h

theorem local_pure (a : α) : (pure a : Rule α).Local := local_silent (strict_pure a)

theorem not_suffix_of_read {token : Token} {kept rest : List Token}
    (h : kept ++ token :: rest <:+ rest) : False := by
  have := h.length_le
  simp only [List.length_append, List.length_cons] at this
  omega

theorem local_accept (select : Token → Option σ) : (accept select).Local := by
  have total (input : List Token) : ∃ found, (accept select).strict input = .ok found := by
    cases input with
    | nil => exact ⟨_, strict_accept_nil select⟩
    | cons token rest =>
      cases found : select token with
      | none => exact ⟨_, strict_accept_none found rest⟩
      | some s => exact ⟨_, strict_accept_some found rest⟩
  constructor
  · intro input report h
    obtain ⟨found, ok⟩ := total input
    rw [ok] at h
    cases h
  · intro read token rest rest'
    constructor
    · intro s kept h
      cases read with
      | nil =>
        rw [List.nil_append] at h ⊢
        cases found : select token with
        | none =>
          rw [strict_accept_none found] at h
          obtain ⟨rfl, same⟩ := Prod.mk.inj (Except.ok.inj h)
          obtain rfl := List.self_eq_append_left.mp same
          exact strict_accept_none found rest'
        | some t =>
          rw [strict_accept_some found] at h
          obtain ⟨-, same⟩ := Prod.mk.inj (Except.ok.inj h)
          exact (not_suffix_of_read ⟨[], same.symm⟩).elim
      | cons first read =>
        rw [List.cons_append] at h ⊢
        cases found : select first with
        | none =>
          rw [strict_accept_none found] at h
          obtain ⟨rfl, same⟩ := Prod.mk.inj (Except.ok.inj h)
          obtain rfl : first :: read = kept := List.append_cancel_right same
          exact strict_accept_none found _
        | some t =>
          rw [strict_accept_some found] at h
          obtain ⟨rfl, same⟩ := Prod.mk.inj (Except.ok.inj h)
          obtain rfl := List.append_cancel_right same
          exact strict_accept_some found _
    · intro problem kept h
      obtain ⟨found, ok⟩ := total (read ++ token :: rest)
      rw [ok] at h
      cases h

theorem Local.congr {r s : Rule α} (h : s.Local)
    (same : ∀ input, r.strict input = s.strict input) : r.Local := by
  constructor
  · intro input report error
    rw [same] at error
    exact h.placed input report error
  · intro read token rest rest'
    simp only [same]
    exact h.each read token rest rest'

theorem local_of_token {r : Rule α} (select : Token → Option α) {problem : Problem}
    (nil : r.strict [] = .error ⟨problem, []⟩)
    (cons : ∀ token rest, r.strict (token :: rest) = match select token with
      | some a => .ok (a, rest)
      | none => .error ⟨problem, token :: rest⟩) : r.Local := by
  constructor
  · intro input report h
    cases input with
    | nil =>
      rw [nil] at h
      cases h
      exact List.suffix_rfl
    | cons token rest =>
      rw [cons] at h
      split at h <;> cases h
      exact List.suffix_rfl
  · intro read token rest rest'
    constructor
    · intro found kept h
      cases read with
      | nil =>
        rw [List.nil_append, cons] at h
        split at h
        · obtain ⟨-, same⟩ := Prod.mk.inj (Except.ok.inj h)
          exact (not_suffix_of_read ⟨[], same.symm⟩).elim
        · cases h
      | cons first read =>
        rw [List.cons_append, cons] at h ⊢
        split at h
        · obtain ⟨rfl, tail⟩ := Prod.mk.inj (Except.ok.inj h)
          rw [List.append_cancel_right tail]
        · cases h
    · intro cause kept h
      cases read with
      | nil =>
        rw [List.nil_append, cons] at h ⊢
        split at h
        · cases h
        · obtain ⟨rfl, same⟩ := Report.mk.inj (Except.error.inj h)
          rw [List.self_eq_append_left.mp same, List.nil_append]
      | cons first read =>
        rw [List.cons_append, cons] at h ⊢
        split at h
        · cases h
        · obtain ⟨rfl, same⟩ := Report.mk.inj (Except.error.inj h)
          rw [← List.append_cancel_right (show first :: read ++ _ = _ from same)]
          rfl

theorem local_expect (kind : Token.Kind) (problem : Problem) : (expect kind problem).Local := by
  refine local_of_token (ofKind kind) (strict_expect_nil kind problem) fun token rest => ?_
  rw [strict_expect_cons, ofKind]
  split <;> rfl

theorem local_tooDeep : (tooDeep : Rule α).Local := by
  constructor
  · intro input report h
    cases h
    exact List.suffix_rfl
  · intro read token rest rest'
    constructor
    · intro a kept h
      cases h
    · intro problem kept h
      obtain ⟨rfl, same⟩ := Report.mk.inj (Except.error.inj h)
      obtain rfl := List.append_cancel_right same
      rfl

theorem localAt_ahead_bind {f : List Token → Rule β} {read : List Token}
    (same : ∀ place place' input : List Token, place.head? = place'.head? →
      (f place).strict input = (f place').strict input)
    (h : ∀ token rest, (f (read ++ token :: rest)).LocalAt read) : (ahead >>= f).LocalAt read := by
  intro token rest rest'
  have heads : (read ++ token :: rest').head? = (read ++ token :: rest).head? := by
    cases read <;> rfl
  simp only [strict_bind_of_ok (strict_ahead _), same _ _ (read ++ token :: rest') heads]
  exact h token rest token rest rest'

theorem local_ahead_bind {f : List Token → Rule β}
    (same : ∀ place place' input : List Token, place.head? = place'.head? →
      (f place).strict input = (f place').strict input)
    (h : ∀ place, (f place).Local) : (ahead >>= f).Local :=
  ⟨fun input report error => (h input).placed input report error, fun read =>
    localAt_ahead_bind same fun _ _ => (h _).each read⟩

/-! ### Repetition -/

theorem placed_foldWhile {select : Token → Option σ} {step : α → σ → Rule α}
    (h : ∀ acc s, (step acc s).Placed) (acc : α) : (foldWhile select step acc).Placed := by
  intro input
  induction length : input.length using Nat.strongRecOn generalizing input acc with
  | ind n ih =>
    intro report error
    rw [foldWhile_eq] at error
    cases input with
    | nil => rw [strict_bind_of_ok (strict_accept_nil select)] at error; cases error
    | cons token rest =>
      cases found : select token with
      | none => rw [strict_bind_of_ok (strict_accept_none found rest)] at error; cases error
      | some s =>
        rw [strict_bind_of_ok (strict_accept_some found rest)] at error
        refine List.IsSuffix.trans ?_ (List.suffix_cons token rest)
        rcases strict_bind_error error with failed | ⟨next, mid, ok, failed⟩
        · exact h acc s rest report failed
        · have short := strict_rest ok
          have := short.length_le
          simp only [List.length_cons] at length
          exact (ih mid.length (by omega) next mid rfl report failed).trans short

theorem local_foldWhile {select : Token → Option σ} {step : α → σ → Rule α}
    (h : ∀ acc s, (step acc s).Local) (acc : α) : (foldWhile select step acc).Local := by
  have placed (acc : α) : (foldWhile select step acc).Placed :=
    placed_foldWhile (fun acc s => (h acc s).placed) acc
  refine ⟨placed acc, fun read => ?_⟩
  induction length : read.length using Nat.strongRecOn generalizing read acc with
  | ind n ih =>
    rw [foldWhile_eq]
    refine localAt_bind ((local_accept select).each read) (fun found => ?_)
      fun token rest found kept short ok => ?_
    · cases found with
      | none => exact (local_pure acc).placed
      | some s => exact placed_bind (h acc s).placed placed
    · cases found with
      | none => exact (local_pure acc).each kept
      | some s =>
        refine localAt_bind ((h acc s).each kept) placed fun _ _ next held shorter _ => ?_
        have := strict_accept_shorter ok
        have := shorter.length_le
        simp only [List.length_append, List.length_cons] at *
        exact ih held.length (by omega) next held rfl

theorem local_recovering {r : Rule α} {phrase : Syntax.Phrase} (follows : r.Follows phrase)
    (h : r.Local) : (recovering r).Local := by
  have same (input : List Token) := strict_recovering fun report error =>
    ((follows input).error error).1
  have errors {input : List Token} {report : Report}
      (error : (recovering r).strict input = .error report) : r.strict input = .error report := by
    rw [same] at error
    cases found : r.strict input <;> rw [found] at error <;> cases error
    rfl
  constructor
  · intro input report error
    exact h.placed input report (errors error)
  · intro read token rest rest'
    obtain ⟨oks, faults⟩ := h.each read token rest rest'
    constructor
    · intro found kept ok
      rw [same] at ok
      cases value : r.strict (read ++ token :: rest) with
      | error report =>
        rw [value] at ok
        cases ok
      | ok pair =>
        rw [value] at ok
        obtain ⟨rfl, tail⟩ := Prod.mk.inj (Except.ok.inj ok)
        have here : r.strict (read ++ token :: rest) = .ok (pair.1, kept ++ token :: rest) := by
          rw [value, ← tail]
        rw [same, oks pair.1 kept here]
        rfl
    · intro problem kept error
      rw [same, faults problem kept (errors error)]
      rfl

theorem placed_manyUntil {closes : Token → Bool} {r : Rule (Option α)} {advances : r.Advances}
    (h : r.Placed) : (manyUntil closes r advances).Placed := by
  intro input
  induction length : input.length using Nat.strongRecOn generalizing input with
  | ind n ih =>
    intro report error
    rw [manyUntil_eq, strict_bind_of_ok (strict_ahead input)] at error
    split at error
    · cases error
    · rename_i closed
      cases input with
      | nil => exact absurd rfl closed
      | cons token rest =>
        rcases strict_bind_error error with failed | ⟨found, mid, ok, failed⟩
        · exact h _ report failed
        · have shorter := (strict_ok ok).2 ▸ advances token rest
          simp only [List.length_cons] at length
          rcases strict_bind_error failed with failed | ⟨more, _, _, failed⟩
          · exact (ih mid.length (by omega) mid rfl report failed).trans (strict_rest ok)
          · cases failed

theorem local_manyUntil {closes : Token → Bool} {r : Rule (Option α)} {advances : r.Advances}
    (h : r.Local) : (manyUntil closes r advances).Local := by
  have placed : (manyUntil closes r advances).Placed := placed_manyUntil h.placed
  have more (found : Option α) : (manyUntil closes r advances >>= fun more =>
      pure (found.toList ++ more)).Placed :=
    placed_bind placed fun _ => (local_pure _).placed
  refine ⟨placed, fun read => ?_⟩
  induction length : read.length using Nat.strongRecOn generalizing read with
  | ind n ih =>
    rw [manyUntil_eq]
    refine localAt_ahead_bind (fun place place' input heads => by rw [heads]) fun token rest => ?_
    split
    · exact (local_pure []).each read
    · refine localAt_bind (h.each read) more fun next after found kept _ ok => ?_
      refine localAt_bind (ih kept.length ?_ kept rfl) (fun _ => (local_pure _).placed)
        fun _ _ _ held _ _ => (local_pure _).each held
      have := (strict_ok ok).2
      cases read with
      | nil =>
        have short := this ▸ advances next after
        simp only [List.length_append, List.length_cons] at short
        omega
      | cons first read =>
        have short := this ▸ advances first (read ++ next :: after)
        simp only [List.length_append, List.length_cons] at short length
        omega

end Rule

/-! ### The rules -/

structure Nested.Local (nested : Nested) : Prop where
  unary : nested.unary.Local
  expr : nested.expr.Local
  stmt : nested.stmt.Local
  function (symbol : Symbol) : (nested.function symbol).Local

variable {nested : Nested}

theorem local_group (h : nested.Local) : (group nested).Local :=
  local_bind h.expr fun _ => local_bind (local_expect _ _) fun _ => local_pure _

def Start.ofFirst? (token : Token) : Option Start :=
  match Start.ofToken? token with
  | some .misfit => none
  | found => found

/-- The token that an expression begins with. -/
def start : Rule Start := do
  let place ← ahead
  match ← accept Start.ofToken? with
  | none => stop .expressionMissing place
  | some .misfit => stop .expressionMissing place
  | some found => pure found

theorem strict_start_cons (token : Token) (rest : List Token) :
    start.strict (token :: rest) = match Start.ofToken? token with
      | none => .error ⟨.expressionMissing, token :: rest⟩
      | some .misfit => .error ⟨.expressionMissing, token :: rest⟩
      | some found => .ok (found, rest) := by
  unfold start
  rw [strict_bind_of_ok (strict_ahead _)]
  cases found : Start.ofToken? token with
  | none =>
    rw [strict_bind_of_ok (strict_accept_none found rest)]
    rfl
  | some begins =>
    rw [strict_bind_of_ok (strict_accept_some found rest)]
    cases begins <;> rfl

theorem local_start : start.Local := by
  refine local_of_token Start.ofFirst? rfl fun token rest => ?_
  rw [strict_start_cons]
  unfold Start.ofFirst?
  cases Start.ofToken? token with
  | none => rfl
  | some begins => cases begins <;> rfl

def afterStart (nested : Nested) : Start → Rule Expr
  | .constant value => pure (.constant value)
  | .name symbol => pure (.name symbol)
  | .group => group nested
  | .misfit => tooDeep

theorem strict_primary (nested : Nested) (input : List Token) :
    (primary nested).strict input = (start >>= afterStart nested).strict input := by
  cases input with
  | nil => rfl
  | cons token rest =>
    rw [strict_bind, strict_start_cons]
    cases found : Start.ofToken? token with
    | none => exact strict_primary_none found nested rest
    | some begins =>
      rw [strict_primary_some found]
      cases begins <;> rfl

theorem local_primary (h : nested.Local) : (primary nested).Local := by
  refine (local_bind local_start fun found => ?_).congr (strict_primary nested)
  cases found with
  | constant value => exact local_pure _
  | name symbol => exact local_pure _
  | group => exact local_group h
  | misfit => exact local_tooDeep

theorem local_listOf {α : Type} {item : Rule α} {tooMany : Problem} (h : item.Local)
    (mild : tooMany.isFatal = false) : (listOf item tooMany).Local := by
  refine local_ahead_bind (fun place place' input heads => by rw [heads]) fun place => ?_
  split
  · exact local_pure []
  · refine local_bind h fun first => local_foldWhile (fun items _ => ?_) [first]
    exact local_bind (local_silent (strict_noteExcess mild _)) fun _ =>
      local_bind h fun _ => local_pure _

theorem local_calls (h : nested.Local) (callee : Expr) :
    (foldWhile (ofKind .leftParen) (fun callee _ => callRound nested callee) callee).Local :=
  local_foldWhile (fun _ _ => local_bind (local_listOf h.expr rfl) fun _ =>
    local_bind (local_expect _ _) fun _ => local_pure _) callee

theorem local_call (h : nested.Local) : (call nested).Local :=
  local_bind (local_primary h) (local_calls h)

theorem local_unary (h : nested.Local) : (Grammar.unary nested).Local := by
  refine local_bind (local_accept _) fun sign => ?_
  cases sign with
  | none => exact local_call h
  | some sign => exact local_bind h.unary fun _ => local_pure _

theorem local_operations {operand : Rule Expr} (h : operand.Local) (rank : Nat) (left : Expr) :
    (foldWhile (operatorOfRank rank) (binaryRound operand) left).Local :=
  local_foldWhile (fun _ _ => local_bind h fun _ => local_pure _) left

theorem local_binary (h : nested.Local) (rank : Nat) :
    (binary (Grammar.unary nested) rank).Local := by
  induction rank with
  | zero => exact local_unary h
  | succ rank ih => exact local_bind ih (local_operations ih rank)

theorem local_assignment (h : nested.Local) (left : Expr) : (assignment nested left).Local := by
  refine local_ahead_bind (fun place place' input _ => ?_) fun place => ?_
  · -- The place only serves to report a target, which is not fatal.
    simp only [strict_bind]
    congr 1
    funext ⟨equal, rest⟩
    cases equal with
    | none => rfl
    | some _ => simp only [strict_bind, strict_assign]
  · refine local_bind (local_accept _) fun equal => ?_
    cases equal with
    | none => exact local_pure left
    | some _ => exact local_bind h.expr fun value => local_silent (strict_assign left value place)

theorem local_expression (h : nested.Local) : (expression nested).Local :=
  local_bind (local_binary h _) (local_assignment h)

theorem local_exprStatement (h : nested.Local) : (exprStatement nested).Local :=
  local_bind (local_expression h) fun _ => local_bind (local_expect _ _) fun _ => local_pure _

theorem local_statement (h : nested.Local) : (statement nested).Local := by
  refine local_bind (local_accept _) fun cond => ?_
  cases cond with
  | none => exact local_exprStatement h
  | some _ =>
    refine local_bind (local_expect _ _) fun _ => local_bind (local_expression h) fun test => ?_
    refine local_bind (local_expect _ _) fun _ => local_bind h.stmt fun yes => ?_
    refine local_bind (local_accept _) fun otherwise => ?_
    cases otherwise with
    | none => exact local_pure _
    | some _ => exact local_bind h.stmt fun _ => local_pure _

theorem local_definition (h : nested.Local) : (definition nested).Local := by
  rw [definition_eq]
  refine local_bind (local_expect _ _) fun name => local_bind (local_accept _) fun opening => ?_
  cases opening with
  | some _ => exact h.function _
  | none =>
    have close (value : Option Expr) : (closeDefinition (.ofToken name) value).Local :=
      local_bind (local_expect _ _) fun _ => local_pure _
    refine local_bind (local_accept _) fun equal => ?_
    cases equal with
    | none => exact close none
    | some _ => exact local_bind (local_expression h) fun _ => close _

/-! ### Two tokens open a definition -/

/-- A rule that does not stop before `token`. -/
def Rule.Takes {α : Type} (r : Rule α) (token : Token) : Prop :=
  ∀ rest, (∀ a kept, r.strict (token :: rest) = .ok (a, kept) → kept <:+ rest) ∧
    ∀ report, r.strict (token :: rest) = .error report → report.place <:+ rest

theorem takes_bind {α β : Type} {r : Rule α} {f : α → Rule β} {token : Token} (h : r.Takes token)
    (placed : ∀ a, (f a).Placed) : (r >>= f).Takes token := by
  intro rest
  obtain ⟨oks, faults⟩ := h rest
  constructor
  · intro b kept ok
    obtain ⟨a, mid, first, second⟩ := strict_bind_ok ok
    exact (strict_rest second).trans (oks a mid first)
  · intro report error
    rcases strict_bind_error error with failed | ⟨a, mid, first, failed⟩
    · exact faults report failed
    · exact (placed a mid report failed).trans (oks a mid first)

theorem takes_accept_none {α σ : Type} {select : Token → Option σ} {f : Option σ → Rule α}
    {token : Token} (none : select token = none) (h : (f .none).Takes token) :
    (accept select >>= f).Takes token := by
  intro rest
  rw [strict_bind_of_ok (strict_accept_none none rest)]
  exact h rest

theorem takes_primary (h : nested.Local) {token : Token} (opens : token.kind = .leftParen) :
    (primary nested).Takes token := by
  have start : Start.ofToken? token = some .group := by simp [Start.ofToken?, opens]
  intro rest
  rw [strict_primary_some start nested rest]
  exact ⟨fun _ _ ok => strict_rest ok, fun report error => (local_group h).placed rest report error⟩

theorem takes_binary (h : nested.Local) {token : Token} (opens : token.kind = .leftParen)
    (rank : Nat) : (binary (Grammar.unary nested) rank).Takes token := by
  induction rank with
  | zero =>
    refine takes_accept_none (by simp [ofKind, opens]) ?_
    exact takes_bind (takes_primary h opens) fun callee => (local_calls h callee).placed
  | succ rank ih =>
    exact takes_bind ih fun left => (local_operations (local_binary h rank) rank left).placed

theorem takes_statement (h : nested.Local) {token : Token} (opens : token.kind = .leftParen) :
    (statement nested).Takes token := by
  refine takes_accept_none (by simp [ofKind, opens]) ?_
  refine takes_bind (takes_bind (takes_binary h opens _) fun left => ?_) fun value => ?_
  · exact (local_assignment h left).placed
  · exact (local_bind (local_expect _ _) fun _ => local_pure (Stmt.expr value)).placed

theorem takes_definitionOrStatement (h : nested.Local) {token : Token}
    (opens : token.kind = .leftParen) : (definitionOrStatement nested).Takes token := by
  intro rest
  cases definition : opensDefinition (token :: rest) with
  | true =>
    rw [strict_definition definition]
    have back : (token :: rest).drop 2 <:+ rest := List.drop_suffix 1 rest
    constructor
    · intro a kept ok
      exact (strict_rest ok).trans back
    · intro report error
      exact ((local_definition h).placed _ report error).trans back
  | false =>
    rw [strict_statement definition]
    exact takes_statement h opens rest

theorem placed_definitionOrStatement (h : nested.Local) : (definitionOrStatement nested).Placed := by
  intro input report error
  cases definition : opensDefinition input with
  | true =>
    rw [strict_definition definition] at error
    exact ((local_definition h).placed _ report error).trans (List.drop_suffix 2 input)
  | false =>
    rw [strict_statement definition] at error
    exact (local_statement h).placed _ report error

theorem local_definitionOrStatement (h : nested.Local) : (definitionOrStatement nested).Local := by
  refine ⟨placed_definitionOrStatement h, fun read token rest rest' => ?_⟩
  -- Where two tokens are read the second one may be `token`; alone it decides nothing.
  by_cases alone : read = [] ∧ token.kind = .leftParen
  · obtain ⟨rfl, opens⟩ := alone
    obtain ⟨oks, faults⟩ := takes_definitionOrStatement h opens rest
    constructor
    · intro a kept ok
      exact (not_suffix_of_read (oks a _ ok)).elim
    · intro problem kept error
      exact (not_suffix_of_read (faults _ error)).elim
  have closed : read = [] → opensDefinition (token :: rest) = false ∧
      opensDefinition (token :: rest') = false := by
    rintro rfl
    have other : token.kind ≠ .leftParen := by
      intro opens
      exact alone ⟨rfl, opens⟩
    constructor <;> unfold opensDefinition <;> split <;> simp_all
  have same : opensDefinition (read ++ token :: rest') = opensDefinition (read ++ token :: rest) := by
    rcases read with _ | ⟨first, _ | ⟨second, read⟩⟩
    · exact (closed rfl).2.trans (closed rfl).1.symm
    · rfl
    · rfl
  cases definition : opensDefinition (read ++ token :: rest) with
  | false =>
    simp only [strict_statement definition, strict_statement (same.trans definition)]
    exact (local_statement h).each read token rest rest'
  | true =>
    simp only [strict_definition definition, strict_definition (same.trans definition)]
    rcases read with _ | ⟨first, _ | ⟨second, read⟩⟩
    · exact absurd definition (by simp [(closed rfl).1])
    · -- The definition begins behind the token.
      constructor
      · intro a kept ok
        exact (not_suffix_of_read (strict_rest ok)).elim
      · intro problem kept error
        exact (not_suffix_of_read ((local_definition h).placed _ _ error)).elim
    · exact (local_definition h).each read token rest rest'

theorem local_declarations {levels : Nat} (h : (nestedWithin levels).Local) (closes : Token → Bool) :
    (declarations (nestedWithin levels) closes).Local :=
  local_manyUntil (local_recovering (follows_definitionOrStatement (follows_nestedWithin levels))
    (local_definitionOrStatement h))

theorem local_nestedWithin (levels : Nat) : (nestedWithin levels).Local := by
  induction levels with
  | zero => exact ⟨local_tooDeep, local_tooDeep, local_tooDeep, fun _ => local_tooDeep⟩
  | succ levels ih =>
    refine ⟨local_unary ih, local_expression ih, local_statement ih, fun symbol => ?_⟩
    have parameter : parameter.Local := local_bind (local_expect _ _) fun _ => local_pure _
    refine local_bind (local_listOf parameter rfl) fun params => ?_
    refine local_bind (local_expect _ _) fun _ => local_bind (local_declarations ih _) fun body => ?_
    exact local_bind (local_expect _ _) fun _ => local_pure _

theorem local_program : program.Local := local_declarations (local_nestedWithin maxNesting) _

end LispReader.Grammar
