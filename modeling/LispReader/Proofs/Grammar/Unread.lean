import LispReader.Proofs.Grammar.Draft

/-!
# Pieces of written trees

The converse of what is said of pieces without reports: a proper tree that is written out is the
value of such a piece. The main results are `exists_exprPiece` and
`exists_declPiece`.
-/

namespace LispReader.Grammar

open Syntax

/-- Is there a piece of this kind that was read without a report? -/
def Unread {α : Type} (piece : Piece α → Prop) (value : α) (tokens : List Token) : Prop :=
  ∃ p, piece p ∧ p.value = value ∧ p.tokens = tokens ∧ p.notes = []

theorem exists_exprPiece {expr : Expr} {tokens : List Token} (h : expr.Written tokens)
    (proper : expr.Proper) : Unread (ExprPiece .whole) expr tokens := by
  obtain ⟨p, piece, has⟩ := makes_expr h proper
  exact ⟨p, piece.to_whole, has.value, has.tokens, Piece.records_nil_iff.mp has.records⟩

/-! ### Statements and declarations -/

theorem exists_stmtPiece {stmt : Stmt} {tokens : List Token} (h : stmt.Written tokens)
    (proper : stmt.Proper) (branch : stmt.isBranch = true) : Unread StmtPiece stmt tokens := by
  induction h with
  | expr written same =>
    cases proper with
    | expr proper =>
      obtain ⟨p, piece, rfl, rfl, clean⟩ := exists_exprPiece written proper
      exact ⟨_, .expr piece same, rfl, by simp [Piece.exprStmt], by simp [Piece.exprStmt, clean]⟩
  | cond same opened written closed _ ih =>
    cases proper with
    | cond properTest branchYes properYes =>
      obtain ⟨p, test, rfl, rfl, cleanTest⟩ := exists_exprPiece written properTest
      obtain ⟨q, yes, rfl, rfl, cleanYes⟩ := ih properYes branchYes
      refine ⟨_, .cond same opened test closed yes, rfl, ?_, ?_⟩
      · simp [Piece.cond, Piece.condHead]
      · simp [Piece.cond, Piece.condHead, cleanTest, cleanYes]
  | condElse same opened written closed _ other _ ih ihNo =>
    cases proper with
    | condElse properTest branchYes properYes yesClosed branchNo properNo =>
      obtain ⟨p, test, rfl, rfl, cleanTest⟩ := exists_exprPiece written properTest
      obtain ⟨q, yes, rfl, rfl, cleanYes⟩ := ih properYes branchYes
      obtain ⟨r, no, rfl, rfl, cleanNo⟩ := ihNo properNo branchNo
      refine ⟨_, .condElse same opened test closed yes yesClosed other no, rfl, ?_, ?_⟩
      · simp [Piece.condElse, Piece.condHead]
      · simp [Piece.condElse, Piece.condHead, cleanTest, cleanYes, cleanNo]
  | _ => cases branch

theorem exists_branchPiece {stmt : Stmt} {tokens : List Token} (h : stmt.Written tokens)
    (proper : stmt.Proper) (branch : stmt.isBranch = true) : Unread DeclPiece stmt tokens := by
  obtain ⟨p, piece, same⟩ := exists_stmtPiece h proper branch
  exact ⟨p, .statement piece, same⟩

theorem exists_row {parts : List (Stmt × List Token)}
    (h : ∀ part ∈ parts, Unread DeclPiece part.1 part.2) : ∃ body : List (Piece Stmt),
      (∀ p ∈ body, DeclPiece p) ∧ body.map Piece.value = parts.map Prod.fst ∧
        body.flatMap Piece.tokens = parts.flatMap Prod.snd ∧ ∀ p ∈ body, p.notes = [] := by
  induction parts with
  | nil => exact ⟨[], by simp, rfl, rfl, by simp⟩
  | cons part parts ih =>
    obtain ⟨⟨p, piece, value, tokens, clean⟩, more⟩ := List.forall_mem_cons.mp h
    obtain ⟨body, pieces, values, rest, notes⟩ := ih more
    exact ⟨p :: body, List.forall_mem_cons.mpr ⟨piece, pieces⟩, by simp [value, values],
      by simp [tokens, rest], List.forall_mem_cons.mpr ⟨clean, notes⟩⟩

def Contents.parameter (name : Token) : Contents Symbol := ⟨.ofToken name, [name], 0, []⟩

/-- However many parameters there are; what is wrong with a function is only their number. -/
theorem makes_function {opening define name first closing last : Token} {params : Listing Token}
    {body : List (Stmt × List Token)} (opened : opening.kind = .leftParen)
    (defines : define.kind = .keyword .define) (named : name.kind = .identifier)
    (begun : first.kind = .leftParen) (separated : params.Separated)
    (names : ∀ param ∈ params.items, param.kind = .identifier) (closed : closing.kind = .rightParen)
    (each : ∀ part ∈ body, Unread DeclPiece part.1 part.2) (ended : last.kind = .rightParen) :
    Makes DeclPiece
      { value := .function (.ofToken name) (params.items.map .ofToken) (body.map Prod.fst)
        tokens := opening :: define :: name :: first :: params.tokens ([·]) ++
          closing :: body.flatMap Prod.snd ++ [last]
        nesting := Stmt.listNesting (body.map Prod.fst) + 1
        faults := (Contents.list .parametersTooMany (params.map .parameter)).faults } := by
  obtain ⟨pieces, decls, values, tokens, clean⟩ := exists_row each
  have list : (Piece.list .parametersTooMany (params.map Piece.parameter)).Has
      (.list .parametersTooMany (params.map .parameter)) :=
    Piece.has_list _ fun name _ => ⟨⟨rfl, rfl, rfl, rfl⟩, List.cons_ne_nil _ _⟩
  have silent : (pieces.mapM id).Records [] :=
    Piece.records_nil_iff.mpr ((Piece.notes_mapM_id_eq_nil_iff pieces).mpr clean)
  have rest : (Piece.functionRest params closing pieces last (.ofToken name)).Records
      (Contents.list .parametersTooMany (params.map .parameter)).faults :=
    list.records.bind_nil ((Piece.records_token _).bind
      (silent.bind ((Piece.records_token _).bind (Piece.records_pure _))))
  refine ⟨_, .function opened defines named begun separated names closed decls ended, ?_, ?_, ?_, ?_⟩
  · simp [Piece.function, Piece.definition, Piece.functionRest, Piece.value_list,
      Piece.value_mapM_id, Function.comp_def, Piece.parameter, values]
  · simp [Piece.function, Piece.definition, Piece.functionRest, Listing.tokens_map,
      Function.comp_def, Piece.parameter, tokens]
  · rw [← values, stmtListNesting_eq fun p known => ((decls p known).faithful (clean p known)).nested]
    simp [Piece.function, Piece.definition, Piece.functionRest, Piece.nesting_list,
      Piece.nesting_mapM_id, deepest_parameters]
  · exact (Piece.records_token _).bind ((Piece.records_token _).bind ((Piece.records_token _).bind
      ((Piece.records_token _).bind rest.deeper)))

theorem exists_declPiece {stmt : Stmt} {tokens : List Token} (h : stmt.Written tokens)
    (proper : stmt.Proper) : Unread DeclPiece stmt tokens := by
  induction h with
  | define opened defines named closed => exact ⟨_, .define opened defines named closed, rfl, rfl, rfl⟩
  | defineAs opened defines named same written closed =>
    cases proper with
    | define _ properValue =>
      obtain ⟨p, piece, rfl, rfl, clean⟩ := exists_exprPiece written (properValue _ rfl)
      refine ⟨_, .defineAs opened defines named same piece closed, rfl, ?_, ?_⟩
      · simp [Piece.defineAs, Piece.definition]
      · simp [Piece.defineAs, Piece.definition, clean]
  | @function _ _ _ _ _ _ params _ opened defines named begun separated names closed _ ended ih =>
    cases proper with
    | function _ short properBody =>
      obtain ⟨p, piece, has⟩ := makes_function opened defines named begun separated names closed
        (fun part known => ih part known (properBody _ (List.mem_map_of_mem known))) ended
      -- A list that is short enough is not reported.
      have none : (Contents.list .parametersTooMany (params.map .parameter)).faults = [] := by
        rw [Contents.list, listFaults_of_short (by simpa using short)]
        simp [Contents.parameter]
      exact ⟨p, piece, has.value, has.tokens, Piece.records_nil_iff.mp (none ▸ has.records)⟩
  | expr written same => exact exists_branchPiece (.expr written same) proper rfl
  | cond same opened written closed yes =>
    exact exists_branchPiece (.cond same opened written closed yes) proper rfl
  | condElse same opened written closed yes other no =>
    exact exists_branchPiece (.condElse same opened written closed yes other no) proper rfl

end LispReader.Grammar
