import LispReader.Grammar.Program
import LispReader.Proofs.Grammar.Ensures
import LispReader.Proofs.Grammar.StatementPiece
import LispReader.Proofs.Tree.Grouping

/-!
# Trees keep their shape

Every statement that comes out of a parse is grouped, whatever was wrong with the input. Expressions
are followed rule by rule with the loosest form that each gives; statements also with what comes
next, as only that shows that an else has gone to the nearest condition.
-/

namespace LispReader

structure Expr.GroupedWithin (bound : Nat) (expr : Expr) : Prop where
  grouped : expr.Grouped
  tight : expr.looseness ≤ bound

theorem Expr.GroupedWithin.mono {a b : Nat} {expr : Expr} (h : expr.GroupedWithin a) (le : a ≤ b) :
    expr.GroupedWithin b := ⟨h.grouped, Nat.le_trans h.tight le⟩

namespace Grammar

open Rule

/-- A statement that is not closed has no else behind it. -/
structure Finished (stmt : Stmt) (rest : List Token) : Prop where
  grouped : stmt.Grouped
  branch : stmt.isBranch = true
  closed : stmt.isClosed = true ∨ NoElse rest

structure Nested.Groups (nested : Nested) : Prop where
  unary : nested.unary.Gives (Expr.GroupedWithin 2)
  expr : nested.expr.Gives Expr.Grouped
  stmt (input : List Token) : nested.stmt.EnsuresOn input Finished
  function (symbol : Symbol) : (nested.function symbol).Gives Stmt.Grouped

variable {nested : Nested}

/-! ### Expressions -/

theorem gives_primary (h : nested.Groups) : (primary nested).Gives (Expr.GroupedWithin 0) := by
  refine gives_bind_of_forall fun place => gives_accept_bind (fun token start _ => ?_) ?_
  · cases start with
    | constant value => exact gives_pure ⟨.constant value, Nat.le_refl 0⟩
    | name symbol => exact gives_pure ⟨.name symbol, Nat.le_refl 0⟩
    | misfit => exact gives_stop _ _ _
    | group =>
      refine gives_bind h.expr fun inner grouped => gives_bind_of_forall fun _ => ?_
      exact gives_pure ⟨.group grouped, Nat.le_refl 0⟩
  · exact gives_stop _ _ _

theorem gives_call (h : nested.Groups) : (call nested).Gives (Expr.GroupedWithin 1) := by
  refine gives_bind (gives_primary h) fun callee known => ?_
  refine gives_foldWhile (fun callee _ _ known _ => ?_) (known.mono (Nat.zero_le 1))
  refine gives_bind (gives_listOf h.expr) fun args each => gives_bind_of_forall fun close => ?_
  exact gives_pure ⟨.call known.tight known.grouped each, Nat.le_refl 1⟩

theorem gives_unary (h : nested.Groups) : (unary nested).Gives (Expr.GroupedWithin 2) := by
  refine gives_accept_bind (fun _ sign _ => ?_) ?_
  · refine gives_bind h.unary fun operand known => ?_
    exact gives_pure ⟨.negate known.tight known.grouped, Nat.le_refl 2⟩
  · exact (gives_call h).mono fun expr known => known.mono (Nat.le_succ 1)

/-- In a round the value so far becomes the left operand, so only the right one has to be tighter. -/
theorem gives_binary (h : nested.Groups) (rank : Nat) :
    (binary (unary nested) rank).Gives (Expr.GroupedWithin (rank + 2)) := by
  induction rank with
  | zero => exact gives_unary h
  | succ rank ih =>
    refine gives_bind ih fun left known => ?_
    refine gives_foldWhile (fun left token op known selected => ?_) (known.mono (Nat.le_succ _))
    obtain ⟨-, same, -⟩ := operatorOfRank_eq_some_iff.mp selected
    refine gives_bind ih fun right other => gives_pure ⟨?_, ?_⟩
    · exact .binary (same ▸ known.tight) known.grouped (same ▸ other.tight) other.grouped
    · simp [Expr.looseness, same]

theorem gives_assign {left value : Expr} (target : left.Grouped) (grouped : value.Grouped)
    (place : List Token) : (assign left value place).Gives Expr.Grouped := by
  cases left with
  | name symbol => exact gives_pure (.assign grouped)
  -- No rule gives an attribute, so none is set.
  | get object attr => cases target
  | _ => exact gives_bind_of_forall fun _ => gives_pure target

theorem gives_expression (h : nested.Groups) : (expression nested).Gives Expr.Grouped := by
  refine gives_bind (gives_binary h _) fun left known => gives_bind_of_forall fun place => ?_
  refine gives_accept_bind (fun _ _ _ => ?_) (gives_pure known.grouped)
  exact gives_bind h.expr fun value grouped => gives_assign known.grouped grouped place

/-! ### Statements -/

theorem ensures_exprStatement (h : nested.Groups) (input : List Token) :
    (exprStatement nested).EnsuresOn input Finished := by
  refine ensuresOn_bind (gives_expression h input) fun value rest grouped => ?_
  refine ensuresOn_bind (gives_trivial _ rest) fun _ rest _ => ensuresOn_pure ?_
  exact ⟨.expr grouped, rfl, .inl rfl⟩

theorem ensures_statement (h : nested.Groups) (input : List Token) :
    (statement nested).EnsuresOn input Finished := by
  refine ensuresOn_bind (ensuresOn_accept _ input) fun cond rest accepted => ?_
  cases accepted with
  | left => exact ensures_exprStatement h _
  | taken =>
    refine ensuresOn_bind (gives_trivial _ _) fun _ rest _ => ?_
    refine ensuresOn_bind (gives_expression h rest) fun test rest groupedTest => ?_
    refine ensuresOn_bind (gives_trivial _ rest) fun _ rest _ => ?_
    refine ensuresOn_bind (h.stmt rest) fun yes rest finished => ?_
    refine ensuresOn_bind (ensuresOn_accept _ rest) fun otherwise rest accepted => ?_
    cases accepted with
    | left none =>
      have noElse : NoElse rest := fun token first same => by
        have := none token first
        simp [ofKind, same] at this
      exact ensuresOn_pure ⟨.cond groupedTest finished.branch finished.grouped, rfl, .inr noElse⟩
    | @taken token s rest selected =>
      -- The else was not left to a condition in the first branch.
      have closed : yes.isClosed = true := by
        refine finished.closed.resolve_right fun noElse => ?_
        have other := noElse token rfl
        simp [ofKind, other] at selected
      refine ensuresOn_bind (h.stmt rest) fun no rest last => ensuresOn_pure ⟨?_, rfl, last.closed⟩
      exact .condElse groupedTest finished.branch finished.grouped closed last.branch last.grouped

theorem gives_definition (h : nested.Groups) : (definition nested).Gives Stmt.Grouped := by
  rw [definition_eq]
  refine gives_bind_of_forall fun name => gives_accept_bind (fun _ _ _ => h.function _) ?_
  have close {value : Option Expr} (grouped : ∀ expr ∈ value, expr.Grouped) :
      (closeDefinition (.ofToken name) value).Gives Stmt.Grouped :=
    gives_bind_of_forall fun _ => gives_pure (.define _ grouped)
  refine gives_accept_bind (fun _ _ _ => ?_) (close (by simp))
  exact gives_bind (gives_expression h) fun value grouped => close (by simpa using grouped)

theorem gives_declarations (h : nested.Groups) (closes : Token → Bool) :
    (declarations nested closes).Gives fun stmts => ∀ stmt ∈ stmts, stmt.Grouped := by
  refine gives_manyUntil (gives_recovering (gives_bind_of_forall fun defines => ?_))
  split
  · exact gives_definition h
  · exact fun input stmt ok => (ensures_statement h input stmt ok).grouped

theorem gives_function (h : nested.Groups) (symbol : Symbol) :
    (function nested symbol).Gives Stmt.Grouped := by
  refine gives_bind_of_forall fun params => gives_bind_of_forall fun _ => ?_
  refine gives_bind (gives_declarations h _) fun body each => gives_bind_of_forall fun _ => ?_
  exact gives_pure (.function symbol params each)

theorem groups_nestedWithin (levels : Nat) : (nestedWithin levels).Groups := by
  induction levels with
  | zero =>
    refine ⟨gives_tooDeep _, gives_tooDeep _, fun input stmt ok => ?_, fun _ => gives_tooDeep _⟩
    cases ok
  | succ levels ih =>
    exact ⟨gives_unary ih, gives_expression ih, ensures_statement ih, gives_function ih⟩

end Grammar

namespace Parse

open Grammar

/-- Whatever is wrong with the tokens, the statements that come back are grouped, and nothing that has
no syntax is in them. -/
theorem statements_grouped (tokens : List Token) :
    ∀ stmt ∈ (ofTokens tokens).statements, stmt.Grouped ∧ stmt.hasSyntax = true := by
  have gives := gives_declarations (groups_nestedWithin maxNesting) (fun _ => false)
  have grouped : ∀ stmt ∈ (ofTokens tokens).statements, stmt.Grouped := by
    show ∀ stmt ∈ (program.run _).result.toOption.getD [], stmt.Grouped
    cases result : (program.run (tokens.takeWhile (·.kind ≠ .eof))).result with
    | error report => simp [Except.toOption]
    | ok stmts => exact gives _ stmts result
  exact fun stmt known => ⟨grouped stmt known, (grouped stmt known).hasSyntax⟩

/-- The tokens of `Cond (a) Cond (b) c; 't a + b = c;`, where a sum is assigned to. -/
def salvagedTokens : List Token :=
  [⟨.keyword .cond, "Cond", none, ⟨1, 0⟩⟩, ⟨.leftParen, "(", none, ⟨1, 5⟩⟩,
    ⟨.identifier, "a", none, ⟨1, 6⟩⟩, ⟨.rightParen, ")", none, ⟨1, 7⟩⟩,
    ⟨.keyword .cond, "Cond", none, ⟨1, 9⟩⟩, ⟨.leftParen, "(", none, ⟨1, 14⟩⟩,
    ⟨.identifier, "b", none, ⟨1, 15⟩⟩, ⟨.rightParen, ")", none, ⟨1, 16⟩⟩,
    ⟨.identifier, "c", none, ⟨1, 18⟩⟩, ⟨.semicolon, ";", none, ⟨1, 19⟩⟩,
    ⟨.keyword .otherwise, "'t", none, ⟨1, 21⟩⟩, ⟨.identifier, "a", none, ⟨1, 24⟩⟩,
    ⟨.plus, "+", none, ⟨1, 26⟩⟩, ⟨.identifier, "b", none, ⟨1, 28⟩⟩,
    ⟨.equal, "=", none, ⟨1, 30⟩⟩, ⟨.identifier, "c", none, ⟨1, 32⟩⟩,
    ⟨.semicolon, ";", none, ⟨1, 33⟩⟩]

/-- The else belongs to the inner condition, and its branch is the sum alone. -/
def salvaged : Stmt :=
  .cond (.name ⟨"a", ⟨1, 6⟩⟩) <|
    .condElse (.name ⟨"b", ⟨1, 15⟩⟩) (.expr (.name ⟨"c", ⟨1, 18⟩⟩)) <|
      .expr (.binary .plus ⟨1, 26⟩ (.name ⟨"a", ⟨1, 24⟩⟩) (.name ⟨"b", ⟨1, 28⟩⟩))

theorem statements_grouped_salvaged :
    salvaged ∈ (ofTokens salvagedTokens).statements ∧ salvaged.Grouped ∧
      salvaged.hasSyntax = true := by
  have known : salvaged ∈ (ofTokens salvagedTokens).statements := by decide +kernel
  exact ⟨known, statements_grouped salvagedTokens salvaged known⟩

end Parse

end LispReader
