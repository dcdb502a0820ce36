import LispReader.Grammar.Program
import LispReader.Proofs.Grammar.Ensures
import LispReader.Proofs.Grammar.Parts
import LispReader.Proofs.Tree.Shape

/-!
# How deep trees are nested

The levels that the rules have left bound the nesting of the trees that they give, whatever was wrong
with the input: a tree stands one level deeper only where a level was taken for it. No statement that
comes out of a parse is nested beyond the limit, by `Parse.nesting_statements`.
-/

namespace LispReader

namespace Grammar

open Rule

/-- What the rules below give has room one level deeper. A function counts its own level. -/
structure Nested.Shallow (nested : Nested) (levels : Nat) : Prop where
  unary : nested.unary.Gives (·.nesting < levels)
  expr : nested.expr.Gives (·.nesting < levels)
  stmt : nested.stmt.Gives (·.nesting < levels)
  function (symbol : Symbol) : (nested.function symbol).Gives (·.nesting ≤ levels)

section Rules

variable {nested : Nested} {levels : Nat} (h : nested.Shallow levels)

include h

/-! ### Expressions -/

theorem shallow_primary : (primary nested).Gives (·.nesting ≤ levels) := by
  apply gives_bind_of_forall
  intro place
  refine gives_accept_bind (fun token start _ => ?_) (gives_stop _ _ _)
  cases start with
  | constant value => exact gives_pure (Nat.zero_le levels)
  | name symbol => exact gives_pure (Nat.zero_le levels)
  | misfit => exact gives_stop _ _ _
  | group =>
    apply gives_bind h.expr
    intro inner within
    apply gives_bind_of_forall
    intro _
    exact gives_pure (Nat.succ_le_of_lt within)

theorem shallow_call : (call nested).Gives (·.nesting ≤ levels) := by
  apply gives_bind (shallow_primary h)
  intro callee within
  refine gives_foldWhile (fun callee _ _ within _ => ?_) within
  apply gives_bind (gives_listOf h.expr)
  intro args each
  apply gives_bind_of_forall
  intro close
  exact gives_pure (Nat.max_le.mpr ⟨within, Expr.listNesting_le each⟩)

theorem shallow_unary : (unary nested).Gives (·.nesting ≤ levels) := by
  refine gives_accept_bind (fun _ sign _ => ?_) (shallow_call h)
  apply gives_bind h.unary
  intro operand within
  exact gives_pure (Nat.succ_le_of_lt within)

theorem shallow_binary (rank : Nat) : (binary (unary nested) rank).Gives (·.nesting ≤ levels) := by
  induction rank with
  | zero => exact shallow_unary h
  | succ rank ih =>
    apply gives_bind ih
    intro left within
    refine gives_foldWhile (fun left _ op within _ => ?_) within
    apply gives_bind ih
    intro right other
    exact gives_pure (Nat.max_le.mpr ⟨within, other⟩)

/-- Where nothing can be assigned to, the value is left out. -/
theorem shallow_expression : (expression nested).Gives (·.nesting ≤ levels) := by
  apply gives_bind (shallow_binary h Operator.ranks)
  intro left within
  apply gives_bind_of_forall
  intro place
  refine gives_accept_bind (fun _ _ _ => ?_) (gives_pure within)
  apply gives_bind h.expr
  intro value other
  cases left with
  | name symbol => exact gives_pure (Nat.succ_le_of_lt other)
  | get object attr => exact gives_pure (Nat.max_le.mpr ⟨within, Nat.succ_le_of_lt other⟩)
  | _ => exact gives_bind_of_forall fun _ => gives_pure within

/-! ### Statements and declarations -/

theorem shallow_statement : (statement nested).Gives (·.nesting ≤ levels) := by
  refine gives_accept_bind (fun _ _ _ => ?_) ?_
  · apply gives_bind_of_forall
    intro _
    apply gives_bind (shallow_expression h)
    intro test within
    apply gives_bind_of_forall
    intro _
    apply gives_bind h.stmt
    intro yes withinYes
    refine gives_accept_bind (fun _ _ _ => ?_) ?_
    · apply gives_bind h.stmt
      intro no withinNo
      exact gives_pure (Nat.max_le.mpr ⟨within, Nat.max_le.mpr ⟨withinYes, withinNo⟩⟩)
    · exact gives_pure (Nat.max_le.mpr ⟨within, withinYes⟩)
  · apply gives_bind (shallow_expression h)
    intro value within
    apply gives_bind_of_forall
    intro _
    exact gives_pure within

theorem shallow_definition : (definition nested).Gives (·.nesting ≤ levels) := by
  rw [definition_eq]
  apply gives_bind_of_forall
  intro name
  refine gives_accept_bind (fun _ _ _ => h.function _) ?_
  refine gives_accept_bind (fun _ _ _ => ?_) ?_
  · apply gives_bind (shallow_expression h)
    intro value within
    exact gives_bind_of_forall fun _ => gives_pure within
  · exact gives_bind_of_forall fun _ => gives_pure (Nat.zero_le levels)

theorem shallow_declarations (closes : Token → Bool) :
    (declarations nested closes).Gives fun stmts => ∀ stmt ∈ stmts, stmt.nesting ≤ levels := by
  apply gives_manyUntil
  apply gives_recovering
  apply gives_bind_of_forall
  intro defines
  cases defines with
  | true => exact shallow_definition h
  | false => exact shallow_statement h

theorem shallow_function (symbol : Symbol) :
    (function nested symbol).Gives (·.nesting ≤ levels + 1) := by
  apply gives_bind_of_forall
  intro params
  apply gives_bind_of_forall
  intro _
  apply gives_bind (shallow_declarations h _)
  intro body within
  apply gives_bind_of_forall
  intro _
  exact gives_pure (Nat.succ_le_succ (Stmt.listNesting_le within))

end Rules

theorem shallow_nestedWithin (levels : Nat) : (nestedWithin levels).Shallow levels := by
  induction levels with
  | zero => exact ⟨gives_tooDeep _, gives_tooDeep _, gives_tooDeep _, fun _ => gives_tooDeep _⟩
  | succ levels ih =>
    have below {nesting : Nat} (h : nesting ≤ levels) : nesting < levels + 1 := Nat.lt_succ_of_le h
    exact ⟨(shallow_unary ih).mono fun _ => below, (shallow_expression ih).mono fun _ => below,
      (shallow_statement ih).mono fun _ => below, shallow_function ih⟩

end Grammar

namespace Parse

open Grammar

theorem nesting_statements (tokens : List Token) :
    ∀ stmt ∈ (ofTokens tokens).statements, stmt.nesting ≤ maxNesting := by
  have gives := shallow_declarations (shallow_nestedWithin maxNesting) fun _ => false
  show ∀ stmt ∈ (program.run _).result.toOption.getD [], stmt.nesting ≤ maxNesting
  cases result : (program.run (tokens.takeWhile (·.kind ≠ .eof))).result with
  | error report => simp [Except.toOption]
  | ok stmts => exact gives _ stmts result

end Parse

end LispReader
