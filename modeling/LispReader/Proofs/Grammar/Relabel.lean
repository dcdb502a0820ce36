import LispReader.Proofs.Grammar.Parts
import LispReader.Proofs.Tree.Relabel

/-!
# Rules and relabeling

A rule decides by kinds and literals alone, so relabeling its input relabels its reply and changes
nothing else. `Rule.Commutes` compares a rule on some tokens with a rule on the relabeled tokens; each
way to build a rule has one lemma, and the result is `commutes_program`.
-/

namespace LispReader.Grammar

def Report.relabel (f : Relabeling) (report : Report) : Report :=
  ⟨report.problem, report.place.map (·.relabel f)⟩

/-- The reply on the relabeled input, if `g` says what becomes of a value. -/
def Reply.relabel {α β : Type} (f : Relabeling) (g : α → β) (reply : Reply α) : Reply β :=
  ⟨(reply.result.mapError (·.relabel f)).map g, reply.reports.map (·.relabel f),
    reply.rest.map (·.relabel f)⟩

section Reply

variable {α β : Type} (f : Relabeling) (g : α → β)

@[simp] theorem Reply.relabel_ok (a : α) (reports : List Report) (rest : List Token) :
    Reply.relabel f g ⟨.ok a, reports, rest⟩ =
      ⟨.ok (g a), reports.map (·.relabel f), rest.map (·.relabel f)⟩ := rfl

@[simp] theorem Reply.relabel_error (report : Report) (reports : List Report) (rest : List Token) :
    Reply.relabel f g ⟨.error report, reports, rest⟩ =
      ⟨.error (report.relabel f), reports.map (·.relabel f), rest.map (·.relabel f)⟩ := rfl

@[simp] theorem Reply.reports_relabel (reply : Reply α) :
    (reply.relabel f g).reports = reply.reports.map (·.relabel f) := rfl

@[simp] theorem Reply.rest_relabel (reply : Reply α) :
    (reply.relabel f g).rest = reply.rest.map (·.relabel f) := rfl

theorem Reply.result_relabel_ok {reply : Reply α} {a : α} (ok : reply.result = .ok a) :
    (reply.relabel f g).result = .ok (g a) := by
  rw [relabel, ok]
  rfl

theorem Reply.result_relabel_error {reply : Reply α} {report : Report}
    (failed : reply.result = .error report) :
    (reply.relabel f g).result = .error (report.relabel f) := by
  rw [relabel, failed]
  rfl

end Reply

namespace Rule

variable {α β γ δ σ τ : Type} {f : Relabeling}

def Commutes (f : Relabeling) (g : α → β) (r : Rule α) (s : Rule β) : Prop :=
  ∀ input, s.run (input.map (·.relabel f)) = (r.run input).relabel f g

/-! ### Steps in sequence -/

theorem commutes_pure (g : α → β) (a : α) : Commutes f g (pure a) (pure (g a)) := fun _ => rfl

theorem commutes_bind {g : α → β} {h : γ → δ} {r : Rule α} {s : Rule β} {k : α → Rule γ}
    {l : β → Rule δ} (first : Commutes f g r s) (second : ∀ a, Commutes f h (k a) (l (g a))) :
    Commutes f h (r >>= k) (s >>= l) := by
  intro input
  rw [run_bind, run_bind, first]
  unfold Reply.andThen
  cases result : (r.run input).result with
  | error report => simp [Reply.result_relabel_error f g result]
  | ok a =>
    have next := second a (r.run input).rest
    simp only [Reply.result_relabel_ok f g result, Reply.rest_relabel, next]
    simp [Reply.relabel]

theorem commutes_ahead : Commutes f (List.map (·.relabel f)) ahead ahead := fun _ => rfl

theorem commutes_stop (g : α → β) (problem : Problem) (place : List Token) :
    Commutes f g (stop problem place) (stop problem (place.map (·.relabel f))) := fun _ => rfl

theorem commutes_note (problem : Problem) (place : List Token) :
    Commutes f id (note problem place) (note problem (place.map (·.relabel f))) := fun _ => rfl

/-! ### Single tokens -/

theorem commutes_accept {g : σ → τ} {select : Token → Option σ} {select' : Token → Option τ}
    (h : ∀ token, select' (token.relabel f) = (select token).map g) :
    Commutes f (Option.map g) (accept select) (accept select') := by
  intro input
  cases input with
  | nil => rfl
  | cons token rest =>
    have same := h token
    cases found : select token with
    | none =>
      rw [found] at same
      simp [accept, found, same]
    | some s =>
      rw [found] at same
      simp [accept, found, same]

theorem ofKind_relabel (kind : Token.Kind) (token : Token) :
    ofKind kind (token.relabel f) = (ofKind kind token).map (·.relabel f) := by
  unfold ofKind
  by_cases same : token.kind = kind <;> simp [same]

theorem commutes_accept_ofKind (kind : Token.Kind) :
    Commutes f (Option.map (·.relabel f)) (accept (ofKind kind)) (accept (ofKind kind)) :=
  commutes_accept (ofKind_relabel kind)

theorem commutes_acceptPair (first second : Token.Kind) :
    Commutes f id (acceptPair first second) (acceptPair first second) := by
  intro input
  match input with
  | [] | [_] => rfl
  | a :: b :: rest =>
    by_cases same : a.kind = first ∧ b.kind = second <;>
      simp [acceptPair, same]

theorem commutes_expect (kind : Token.Kind) (problem : Problem) :
    Commutes f (·.relabel f) (expect kind problem) (expect kind problem) := by
  apply commutes_bind (commutes_accept_ofKind kind)
  intro found
  cases found with
  | some token => exact commutes_pure _ token
  | none => exact commutes_bind commutes_ahead (commutes_stop _ problem)

/-! ### Repetition -/

theorem commutes_foldWhile {g : α → β} {h : σ → τ} {select : Token → Option σ}
    {select' : Token → Option τ} {step : α → σ → Rule α} {step' : β → τ → Rule β}
    (selects : ∀ token, select' (token.relabel f) = (select token).map h)
    (round : ∀ acc s, Commutes f g (step acc s) (step' (g acc) (h s))) (acc : α) :
    Commutes f g (foldWhile select step acc) (foldWhile select' step' (g acc)) := by
  intro input
  show foldWhile.run select' step' (g acc) _ = (foldWhile.run select step acc input).relabel f g
  fun_induction foldWhile.run select step acc input with
  | case1 acc =>
    rw [List.map_nil, foldWhile.run]
    rfl
  | case2 acc token rest none =>
    rw [List.map_cons, foldWhile.run, selects, none]
    rfl
  | case3 acc token rest s found round' report failed =>
    have same : (step' (g acc) (h s)).run (rest.map (·.relabel f)) = round'.relabel f g :=
      round acc s rest
    rw [List.map_cons, foldWhile.run, selects, found]
    simp [same, Reply.result_relabel_error f g failed]
  | case4 acc token rest s found round' next ok more ih =>
    have same : (step' (g acc) (h s)).run (rest.map (·.relabel f)) = round'.relabel f g :=
      round acc s rest
    rw [List.map_cons, foldWhile.run, selects, found]
    simp only [Option.map_some, same, Reply.result_relabel_ok f g ok, Reply.rest_relabel, ih]
    simp [Reply.relabel, more]

theorem opensDeclaration_relabel (input : List Token) :
    opensDeclaration (input.map (·.relabel f)) = opensDeclaration input := by
  match input with
  | [] | [_] | _ :: _ :: _ => rfl

theorem resume_relabel (input : List Token) :
    resume (input.map (·.relabel f)) = (resume input).map (·.relabel f) := by
  induction input with
  | nil => rfl
  | cons token rest ih =>
    rw [List.map_cons, resume, resume, opensDeclaration_relabel, Token.relabel_kind, ih]
    split <;> rfl

theorem commutes_recovering {g : α → β} {r : Rule α} {s : Rule β} (h : Commutes f g r s) :
    Commutes f (Option.map g) (recovering r) (recovering s) := by
  intro input
  simp only [recovering, h input]
  cases result : (r.run input).result with
  | ok a => simp [Reply.result_relabel_ok f g result]
  | error report => simp [Reply.result_relabel_error f g result, resume_relabel]

theorem commutes_manyUntil {g : α → β} {closes : Token → Bool} {r : Rule (Option α)}
    {s : Rule (Option β)} {advances : r.Advances} {advances' : s.Advances}
    (same : ∀ token, closes (token.relabel f) = closes token)
    (h : Commutes f (Option.map g) r s) :
    Commutes f (List.map g) (manyUntil closes r advances) (manyUntil closes s advances') := by
  intro input
  show manyUntil.run closes s advances' _ = (manyUntil.run closes r advances input).relabel f _
  fun_induction manyUntil.run closes r advances input with
  | case1 =>
    rw [List.map_nil, manyUntil.run]
    rfl
  | case2 token rest closed =>
    rw [List.map_cons, manyUntil.run, same, if_pos closed]
    rfl
  | case3 token rest continues round report failed =>
    have run : s.run ((token :: rest).map (·.relabel f)) = round.relabel f (Option.map g) :=
      h (token :: rest)
    rw [List.map_cons] at run ⊢
    rw [manyUntil.run, same, if_neg continues]
    simp [run, Reply.result_relabel_error f _ failed]
  | case4 token rest continues round found ok more ih =>
    have run : s.run ((token :: rest).map (·.relabel f)) = round.relabel f (Option.map g) :=
      h (token :: rest)
    rw [List.map_cons] at run ⊢
    rw [manyUntil.run, same, if_neg continues]
    change manyUntil.run closes s advances' _ = more.relabel f _ at ih
    simp only [run, Reply.result_relabel_ok f _ ok, Reply.rest_relabel, ih]
    cases later : more.result with
    | ok stmts => simp [Reply.result_relabel_ok f _ later, Except.map, Option.toList_map]
    | error report => simp [Reply.result_relabel_error f _ later, Except.map]

theorem commutes_noteExcess (tooMany : Problem) (count : Nat) :
    Commutes f id (noteExcess tooMany count) (noteExcess tooMany count) := by
  unfold noteExcess
  split
  · exact commutes_bind commutes_ahead (commutes_note tooMany)
  · exact commutes_pure id ()

theorem commutes_listOf {g : α → α} {item : Rule α} (h : Commutes f g item item)
    (tooMany : Problem) :
    Commutes f (List.map g) (listOf item tooMany) (listOf item tooMany) := by
  have round (items : List α) :
      Commutes f (List.map g) (listRound item tooMany items) (listRound item tooMany (items.map g)) := by
    unfold listRound
    rw [List.length_map]
    apply commutes_bind (commutes_noteExcess tooMany items.length)
    intro _
    apply commutes_bind h
    intro next
    rw [show items.map g ++ [g next] = (items ++ [next]).map g by simp]
    exact commutes_pure _ _
  rw [listOf_eq]
  apply commutes_bind commutes_ahead
  intro input
  have closes : (input.map (·.relabel f)).head?.any (·.kind = .rightParen) =
      input.head?.any (·.kind = .rightParen) := by
    cases input <;> rfl
  rw [closes]
  by_cases empty : input.head?.any (·.kind = .rightParen)
  · rw [if_pos empty]
    exact commutes_pure (List.map g) []
  · rw [if_neg empty]
    apply commutes_bind h
    intro first
    exact commutes_foldWhile (ofKind_relabel .comma) (fun items _ => round items) [first]

end Rule

/-! ### Expressions -/

open Rule

/-- The rules below take relabeled tokens to relabeled trees. -/
structure Nested.Commutes (f : Relabeling) (nested : Nested) : Prop where
  unary : Rule.Commutes f (Expr.relabel f) nested.unary nested.unary
  expr : Rule.Commutes f (Expr.relabel f) nested.expr nested.expr
  stmt : Rule.Commutes f (Stmt.relabel f) nested.stmt nested.stmt
  function (symbol : Symbol) :
    Rule.Commutes f (Stmt.relabel f) (nested.function symbol) (nested.function (symbol.relabel f))

def Start.relabel (f : Relabeling) : Start → Start
  | .name symbol => .name (symbol.relabel f)
  | start => start

theorem Start.ofToken?_relabel (f : Relabeling) (token : Token) :
    Start.ofToken? (token.relabel f) = (Start.ofToken? token).map (·.relabel f) := by
  unfold Start.ofToken?
  rw [Token.relabel_kind, Token.relabel_literal]
  split <;> rfl

theorem operatorOfRank_relabel (f : Relabeling) (rank : Nat) (token : Token) :
    operatorOfRank rank (token.relabel f) =
      (operatorOfRank rank token).map fun (op, pos) => (op, f.pos pos) := by
  unfold operatorOfRank
  rw [Token.relabel_kind]
  split
  · split <;> rfl
  · rfl

section Rules

variable {f : Relabeling} {nested : Nested} (h : nested.Commutes f)

include h

theorem commutes_primary : Rule.Commutes f (Expr.relabel f) (primary nested) (primary nested) := by
  apply commutes_bind commutes_ahead
  intro place
  apply commutes_bind (commutes_accept (Start.ofToken?_relabel f))
  intro start
  match start with
  | none => exact commutes_stop _ _ place
  | some .misfit => exact commutes_stop _ _ place
  | some (.constant value) => exact commutes_pure (Expr.relabel f) _
  | some (.name symbol) => exact commutes_pure (Expr.relabel f) _
  | some .group =>
    apply commutes_bind h.expr
    intro inner
    apply commutes_bind (commutes_expect _ _)
    intro _
    exact commutes_pure (Expr.relabel f) _

theorem commutes_call : Rule.Commutes f (Expr.relabel f) (call nested) (call nested) := by
  apply commutes_bind (commutes_primary h)
  apply commutes_foldWhile (ofKind_relabel .leftParen)
  intro callee _
  apply commutes_bind (commutes_listOf h.expr _)
  intro args
  apply commutes_bind (commutes_expect _ _)
  intro close
  have call : Expr.call (callee.relabel f) (close.relabel f).pos (args.map (·.relabel f)) =
      (Expr.call callee close.pos args).relabel f := by
    rw [Expr.relabel, Expr.relabelAll_eq_map]
    rfl
  rw [call]
  exact commutes_pure (Expr.relabel f) _

theorem commutes_unary :
    Rule.Commutes f (Expr.relabel f) (Grammar.unary nested) (Grammar.unary nested) := by
  apply commutes_bind (commutes_accept_ofKind .minus)
  intro sign
  cases sign with
  | none => exact commutes_call h
  | some sign =>
    apply commutes_bind h.unary
    intro operand
    exact commutes_pure (Expr.relabel f) _

theorem commutes_binary (rank : Nat) : Rule.Commutes f (Expr.relabel f)
    (binary (Grammar.unary nested) rank) (binary (Grammar.unary nested) rank) := by
  induction rank with
  | zero => exact commutes_unary h
  | succ rank ih =>
    apply commutes_bind ih
    apply commutes_foldWhile (operatorOfRank_relabel f rank)
    intro left (op, pos)
    apply commutes_bind ih
    intro right
    exact commutes_pure (Expr.relabel f) _

theorem commutes_expression :
    Rule.Commutes f (Expr.relabel f) (expression nested) (expression nested) := by
  apply commutes_bind (commutes_binary h Operator.ranks)
  intro left
  apply commutes_bind commutes_ahead
  intro place
  apply commutes_bind (commutes_accept_ofKind .equal)
  intro equal
  cases equal with
  | none => exact commutes_pure (Expr.relabel f) _
  | some _ =>
    apply commutes_bind h.expr
    intro value
    cases left with
    | name _ | get _ _ => exact commutes_pure (Expr.relabel f) _
    | _ => exact commutes_bind (commutes_note _ place) fun _ => commutes_pure (Expr.relabel f) _

/-! ### Statements and declarations -/

theorem commutes_statement :
    Rule.Commutes f (Stmt.relabel f) (statement nested) (statement nested) := by
  apply commutes_bind (commutes_accept_ofKind (.keyword .cond))
  intro cond
  cases cond with
  | none =>
    apply commutes_bind (commutes_expression h)
    intro value
    apply commutes_bind (commutes_expect _ _)
    intro _
    exact commutes_pure (Stmt.relabel f) _
  | some _ =>
    apply commutes_bind (commutes_expect _ _)
    intro _
    apply commutes_bind (commutes_expression h)
    intro test
    apply commutes_bind (commutes_expect _ _)
    intro _
    apply commutes_bind h.stmt
    intro yes
    apply commutes_bind (commutes_accept_ofKind (.keyword .otherwise))
    intro otherwise
    cases otherwise with
    | none => exact commutes_pure (Stmt.relabel f) _
    | some _ =>
      apply commutes_bind h.stmt
      intro no
      exact commutes_pure (Stmt.relabel f) _

theorem commutes_definition :
    Rule.Commutes f (Stmt.relabel f) (definition nested) (definition nested) := by
  have close (symbol : Symbol) (value : Option Expr) : Rule.Commutes f (Stmt.relabel f)
      (closeDefinition symbol value)
      (closeDefinition (symbol.relabel f) (value.map (·.relabel f))) := by
    apply commutes_bind (commutes_expect _ _)
    intro _
    exact commutes_pure (Stmt.relabel f) _
  rw [definition_eq]
  apply commutes_bind (commutes_expect _ _)
  intro name
  apply commutes_bind (commutes_accept_ofKind .leftParen)
  intro opening
  cases opening with
  | some _ => exact h.function (.ofToken name)
  | none =>
    apply commutes_bind (commutes_accept_ofKind .equal)
    intro equal
    cases equal with
    | none => exact close (.ofToken name) none
    | some _ =>
      apply commutes_bind (commutes_expression h)
      intro value
      exact close (.ofToken name) (some value)

theorem commutes_declarations {closes : Token → Bool}
    (same : ∀ token, closes (token.relabel f) = closes token) :
    Rule.Commutes f (List.map (Stmt.relabel f)) (declarations nested closes)
      (declarations nested closes) := by
  apply commutes_manyUntil same
  apply commutes_recovering
  apply commutes_bind (commutes_acceptPair _ _)
  intro defines
  cases defines with
  | true => exact commutes_definition h
  | false => exact commutes_statement h

theorem commutes_function (symbol : Symbol) : Rule.Commutes f (Stmt.relabel f)
    (Grammar.function nested symbol) (Grammar.function nested (symbol.relabel f)) := by
  have parameter : Rule.Commutes f (Symbol.relabel f) parameter parameter :=
    commutes_bind (commutes_expect _ _) fun _ => commutes_pure (Symbol.relabel f) _
  apply commutes_bind (commutes_listOf parameter _)
  intro params
  apply commutes_bind (commutes_expect _ _)
  intro _
  apply commutes_bind (commutes_declarations h fun _ => rfl)
  intro body
  apply commutes_bind (commutes_expect _ _)
  intro _
  rw [← Stmt.relabelAll_eq_map]
  exact commutes_pure (Stmt.relabel f) _

end Rules

theorem commutes_nestedWithin (f : Relabeling) (levels : Nat) : (nestedWithin levels).Commutes f := by
  induction levels with
  | zero =>
    have deep {α : Type} (g : α → α) : Rule.Commutes f g tooDeep tooDeep :=
      commutes_bind commutes_ahead (commutes_stop g _)
    exact ⟨deep _, deep _, deep _, fun _ => deep _⟩
  | succ levels ih =>
    exact ⟨commutes_unary ih, commutes_expression ih, commutes_statement ih, commutes_function ih⟩

theorem commutes_program (f : Relabeling) :
    Rule.Commutes f (List.map (Stmt.relabel f)) program program :=
  commutes_declarations (commutes_nestedWithin f maxNesting) fun _ => rfl

end LispReader.Grammar
