import LispReader.Proofs.Grammar.StatementPiece
import LispReader.Proofs.Grammar.Documented

/-!
# Every sentence is made of pieces

The grammar leaves open which condition an else belongs to, the pieces do not: by `StmtPiece.attach`
an else may always go to the nearest one. So the pieces cover all that the grammar derives, which is
`exists_pieces`.
-/

namespace LispReader.Grammar

open Syntax

/-- Is there such a piece with these tokens? -/
def Made {α : Type} (piece : Piece α → Prop) (tokens : List Token) : Prop :=
  ∃ p, piece p ∧ p.tokens = tokens

def Listed {α : Type} (holds : α → Prop) (write : α → List Token) (tokens : List Token) : Prop :=
  ∃ list : Listing α, list.Separated ∧ (∀ x ∈ list.items, holds x) ∧ list.tokens write = tokens

/-! ### Attaching an else -/

theorem StmtPiece.attach {yes no : Piece Stmt} {otherwise : Token} (h : StmtPiece yes)
    (unclosed : yes.value.isClosed = false) (same : otherwise.kind = .keyword .otherwise)
    (other : StmtPiece no) : Made StmtPiece (yes.tokens ++ otherwise :: no.tokens) := by
  induction h with
  | expr => cases unclosed
  | @cond cond opening closing test yes kind opened expr closed inner ih =>
    cases closedInner : yes.value.isClosed with
    | true => exact ⟨_, .condElse kind opened expr closed inner closedInner same other, by
        simp [Piece.condElse, Piece.cond, Piece.condHead]⟩
    | false =>
      obtain ⟨p, made, tokens⟩ := ih closedInner
      exact ⟨_, .cond kind opened expr closed made, by
        simp [Piece.cond, Piece.condHead, tokens]⟩
  | @condElse cond opening closing _ test yes no' kind opened expr closed inner innerClosed same' _ _ ih =>
    obtain ⟨p, made, tokens⟩ := ih unclosed
    exact ⟨_, .condElse kind opened expr closed inner innerClosed same' made, by
      simp [Piece.condElse, Piece.condHead, tokens]⟩

/-- A condition with an else, wherever the else belongs. -/
theorem StmtPiece.made_condElse {cond opening closing otherwise : Token} {test : Piece Expr}
    {yes no : Piece Stmt} (kind : cond.kind = .keyword .cond) (opened : opening.kind = .leftParen)
    (expr : ExprPiece .whole test) (closed : closing.kind = .rightParen) (inner : StmtPiece yes)
    (same : otherwise.kind = .keyword .otherwise) (other : StmtPiece no) :
    Made StmtPiece (cond :: opening :: test.tokens ++ closing :: yes.tokens ++
      otherwise :: no.tokens) := by
  obtain ⟨p, made, tokens⟩ := (StmtPiece.cond kind opened expr closed inner).attach rfl same other
  exact ⟨p, made, by simp [tokens, Piece.cond, Piece.condHead]⟩

/-! ### What holds of the parts of a phrase -/

section Parts

variable {language : Nonterminal → List Token → Prop} {tokens : List Token}

theorem holds_token {kind : Token.Kind} (h : (Phrase.token [kind]).Holds language tokens) :
    ∃ token, tokens = [token] ∧ token.kind = kind := by
  obtain ⟨token, rfl, known, -⟩ := h
  exact ⟨token, rfl, List.mem_singleton.mp known⟩

theorem holds_after {kind : Token.Kind} {rest : Phrase}
    (h : (Phrase.after kind rest).Holds language tokens) :
    ∃ token others, tokens = token :: others ∧ token.kind = kind ∧ rest.Holds language others := by
  obtain ⟨_, others, rfl, one, h⟩ := h
  obtain ⟨token, rfl, same⟩ := holds_token one
  exact ⟨token, others, rfl, same, h⟩

theorem holds_many {β : Type} {part : Phrase} {holds : β → Prop} {write : β → List Token}
    (each : ∀ tokens, part.Holds language tokens → ∃ x, holds x ∧ write x = tokens)
    (h : (Phrase.many part).Holds language tokens) :
    ∃ xs : List β, (∀ x ∈ xs, holds x) ∧ xs.flatMap write = tokens := by
  obtain ⟨parts, rfl, all⟩ := h
  induction parts with
  | nil => exact ⟨[], by simp, rfl⟩
  | cons a parts ih =>
    obtain ⟨first, more⟩ := List.forall_mem_cons.mp all
    obtain ⟨x, hx, rfl⟩ := each a first
    obtain ⟨xs, hxs, same⟩ := ih more
    exact ⟨x :: xs, List.forall_mem_cons.mpr ⟨hx, hxs⟩, by rw [List.flatMap_cons, same]; rfl⟩

theorem holds_separated {β : Type} {part : Phrase} {holds : β → Prop} {write : β → List Token}
    (each : ∀ tokens, part.Holds language tokens → ∃ x, holds x ∧ write x = tokens)
    (h : (Phrase.separated [.comma] part).Holds language tokens) :
    Listed holds write tokens := by
  obtain ⟨_, _, rfl, first, more⟩ := h
  obtain ⟨x, hx, rfl⟩ := each _ first
  have step : ∀ tokens, (Phrase.seq (.token [.comma]) part).Holds language tokens →
      ∃ round : Token × β, (round.1.kind = .comma ∧ holds round.2) ∧
        round.1 :: write round.2 = tokens := by
    rintro _ ⟨_, _, rfl, comma, h⟩
    obtain ⟨token, rfl, same⟩ := holds_token comma
    obtain ⟨y, hy, rfl⟩ := each _ h
    exact ⟨(token, y), ⟨same, hy⟩, rfl⟩
  obtain ⟨rounds, all, rfl⟩ := holds_many step more
  refine ⟨.some x rounds, fun round known => (all round known).1, ?_, rfl⟩
  rw [Listing.items, List.forall_mem_cons, List.forall_mem_map]
  exact ⟨hx, fun round known => (all round known).2⟩

end Parts

/-! ### Covering the rules -/

def Declared (tokens : List Token) : Prop :=
  ∃ body : List (Piece Stmt), (∀ p ∈ body, DeclPiece p) ∧ (body.mapM id).tokens = tokens

/-- What the pieces make of each rule. -/
def Covered : Nonterminal → List Token → Prop
  | .program, tokens => Declared tokens
  | .declaration, tokens => Made DeclPiece tokens
  | .definition, tokens => ∀ opening define : Token, opening.kind = .leftParen →
    define.kind = .keyword .define → Made DeclPiece (opening :: define :: tokens)
  | .parameters, tokens => Listed (fun param : Token => param.kind = .identifier) ([·]) tokens
  | .block, tokens => ∃ body last, tokens = body ++ [last] ∧ Declared body ∧ last.kind = .rightParen
  | .statement, tokens | .condStmt, tokens | .exprStmt, tokens => Made StmtPiece tokens
  | .expression, tokens | .assignment, tokens => Made (ExprPiece .whole) tokens
  | .logicOr, tokens => Made (ExprPiece (.ranks 6)) tokens
  | .logicAnd, tokens => Made (ExprPiece (.ranks 5)) tokens
  | .equality, tokens => Made (ExprPiece (.ranks 4)) tokens
  | .comparison, tokens => Made (ExprPiece (.ranks 3)) tokens
  | .addition, tokens => Made (ExprPiece (.ranks 2)) tokens
  | .multiplication, tokens => Made (ExprPiece (.ranks 1)) tokens
  | .unary, tokens => Made (ExprPiece (.ranks 0)) tokens
  | .call, tokens => Made (ExprPiece .call) tokens
  | .arguments, tokens => Listed (ExprPiece .whole) Piece.tokens tokens
  | .primary, tokens => Made (ExprPiece .primary) tokens

theorem covered_primary {tokens : List Token}
    (h : Nonterminal.primary.phrase.Holds Covered tokens) : Covered .primary tokens := by
  rcases h with ⟨token, rfl, known, fits⟩ | h
  · rcases Start.ofToken?_cases token with ⟨value, found, _⟩ | ⟨_, same⟩ | ⟨_, same⟩ | ⟨_, unfit⟩ |
      ⟨_, other⟩
    · exact ⟨_, .constant found, rfl⟩
    · exact ⟨_, .name same, rfl⟩
    · simp [same, atomKinds] at known
    · rw [fits] at unfit
      cases unfit
    · exact absurd (List.mem_cons_of_mem _ known) other
  · obtain ⟨opening, _, rfl, opened, _, _, rfl, ⟨inner, made, rfl⟩, close⟩ := holds_after h
    obtain ⟨closing, rfl, closed⟩ := holds_token close
    exact ⟨_, .group opened made closed, by simp [Piece.group]⟩

theorem covered_call {tokens : List Token}
    (h : Nonterminal.call.phrase.Holds Covered tokens) : Covered .call tokens := by
  obtain ⟨_, _, rfl, ⟨callee, made, rfl⟩, more⟩ := h
  have round : ∀ tokens, (Phrase.after .leftParen
      (.seq (.optional (.rule .arguments)) (.token [.rightParen]))).Holds Covered tokens →
      ∃ round : Token × Listing (Piece Expr) × Token,
        ((round.1.kind = .leftParen ∧ round.2.1.Separated ∧ round.2.2.kind = .rightParen) ∧
          ∀ p ∈ round.2.1.items, ExprPiece .whole p) ∧
        round.1 :: (round.2.1.tokens Piece.tokens ++ [round.2.2]) = tokens := by
    intro tokens h
    obtain ⟨opening, _, rfl, opened, _, _, rfl, args, close⟩ := holds_after h
    obtain ⟨closing, rfl, closed⟩ := holds_token close
    rcases args with ⟨list, separated, items, rfl⟩ | rfl
    · exact ⟨(opening, list, closing), ⟨⟨opened, separated, closed⟩, items⟩, rfl⟩
    · exact ⟨(opening, .none, closing), ⟨⟨opened, trivial, closed⟩, by simp [Listing.items]⟩, rfl⟩
  obtain ⟨rounds, all, rfl⟩ := holds_many round more
  refine ⟨_, .call made (fun r h => (all r h).1) (fun r h => (all r h).2), ?_⟩
  rw [Piece.tokens_bind, Piece.tokens_foldlM _ fun callee round => ?_]
  simp [Piece.callRound, Listing.tokens_map, Function.comp_def]

theorem covered_binary (rank : Nat) (bound : rank < Operator.ranks) {tokens : List Token}
    (part : (Phrase.separated (rankKinds rank) (.rule (rankRule rank))).Holds Covered tokens)
    (covered : ∀ tokens, Covered (rankRule rank) tokens → Made (ExprPiece (.ranks rank)) tokens) :
    Made (ExprPiece (.ranks (rank + 1))) tokens := by
  obtain ⟨_, _, rfl, first, more⟩ := part
  obtain ⟨first, made, rfl⟩ := covered _ first
  have round : ∀ tokens, (Phrase.seq (.token (rankKinds rank)) (.rule (rankRule rank))).Holds
      Covered tokens → ∃ round : Token × Operator × Piece Expr,
        (operatorOfRank rank round.1 = some (round.2.1, round.1.pos) ∧
          ExprPiece (.ranks rank) round.2.2) ∧
        round.1 :: round.2.2.tokens = tokens := by
    rintro _ ⟨_, _, rfl, ⟨token, rfl, known, -⟩, h⟩
    obtain ⟨right, made, rfl⟩ := covered _ h
    have isSome := (operatorOfRank_isSome_iff bound token).mpr known
    obtain ⟨⟨op, pos⟩, found⟩ := Option.isSome_iff_exists.mp isSome
    obtain ⟨-, -, rfl⟩ := operatorOfRank_eq_some_iff.mp found
    exact ⟨(token, op, right), ⟨found, made⟩, rfl⟩
  obtain ⟨rounds, all, rfl⟩ := holds_many round more
  refine ⟨_, .binary made (fun r h => (all r h).1) (fun r h => (all r h).2), ?_⟩
  rw [Piece.tokens_bind, Piece.tokens_foldlM _ fun left round => ?_]
  simp [Piece.binaryRound]

theorem covered_assignment {tokens : List Token}
    (h : Nonterminal.assignment.phrase.Holds Covered tokens) : Covered .assignment tokens := by
  obtain ⟨_, _, rfl, ⟨left, made, rfl⟩, more⟩ := h
  rcases more with more | rfl
  · obtain ⟨equal, _, rfl, same, value, other, rfl⟩ := holds_after more
    exact ⟨_, .assign made same other, by simp [Piece.assign]⟩
  · exact ⟨left, .value made, by simp⟩

theorem covered_condStmt {tokens : List Token}
    (h : Nonterminal.condStmt.phrase.Holds Covered tokens) : Covered .condStmt tokens := by
  obtain ⟨cond, _, rfl, kind, h₁⟩ := holds_after h
  obtain ⟨opening, _, rfl, opened, _, _, rfl, ⟨test, expr, rfl⟩, h₂⟩ := holds_after h₁
  obtain ⟨closing, _, rfl, closed, _, _, rfl, ⟨yes, inner, rfl⟩, more⟩ := holds_after h₂
  rcases more with more | rfl
  · obtain ⟨otherwise, _, rfl, same, no, other, rfl⟩ := holds_after more
    obtain ⟨p, made, tokens⟩ := StmtPiece.made_condElse kind opened expr closed inner same other
    exact ⟨p, made, by simpa using tokens⟩
  · exact ⟨_, .cond kind opened expr closed inner, by simp [Piece.cond, Piece.condHead]⟩

theorem covered_definition {tokens : List Token}
    (h : Nonterminal.definition.phrase.Holds Covered tokens) : Covered .definition tokens := by
  intro opening define first second
  rcases h with h | h
  · obtain ⟨name, _, rfl, named, h₁⟩ := holds_after h
    obtain ⟨opening, _, rfl, opened, _, _, rfl, params, h₂⟩ := holds_after h₁
    obtain ⟨closing, _, rfl, closed, block⟩ := holds_after h₂
    obtain ⟨_, last, rfl, ⟨body, decls, rfl⟩, ended⟩ := block
    obtain ⟨list, separated, names, rfl⟩ :
        Listed (fun param : Token => param.kind = .identifier) ([·]) _ := by
      rcases params with params | rfl
      · exact params
      · exact ⟨.none, trivial, by simp [Listing.items], rfl⟩
    refine ⟨_, .function first second named opened separated names closed decls ended, ?_⟩
    simp [Piece.function, Piece.definition, Piece.functionRest, Listing.tokens_map,
      Function.comp_def, Piece.parameter]
  · obtain ⟨name, _, rfl, named, _, _, rfl, value, close⟩ := holds_after h
    obtain ⟨closing, rfl, closed⟩ := holds_token close
    rcases value with value | rfl
    · obtain ⟨equal, _, rfl, same, value, expr, rfl⟩ := holds_after value
      exact ⟨_, .defineAs first second named same expr closed, by
        simp [Piece.defineAs, Piece.definition]⟩
    · exact ⟨_, .define first second named closed, by simp [Piece.define, Piece.definition]⟩

theorem declared_of_holds {tokens : List Token}
    (h : (Phrase.many (.rule .declaration)).Holds Covered tokens) : Declared tokens := by
  have each : ∀ tokens, (Phrase.rule .declaration).Holds Covered tokens → Made DeclPiece tokens :=
    fun _ h => h
  obtain ⟨body, decls, rfl⟩ := holds_many each h
  exact ⟨body, decls, Piece.tokens_mapM_id body⟩

theorem covered_of_holds (name : Nonterminal) (tokens : List Token)
    (h : name.phrase.Holds Covered tokens) : Covered name tokens := by
  cases name with
  | program => exact declared_of_holds h
  | declaration =>
    rcases h with h | ⟨p, made, same⟩
    · obtain ⟨opening, _, rfl, first, h₁⟩ := holds_after h
      obtain ⟨define, _, rfl, second, definition⟩ := holds_after h₁
      exact definition opening define first second
    · exact ⟨p, .statement made, same⟩
  | definition => exact covered_definition h
  | parameters => exact holds_separated (fun tokens h => by
      obtain ⟨token, rfl, same⟩ := holds_token h
      exact ⟨token, same, rfl⟩) h
  | block =>
    obtain ⟨_, _, rfl, body, close⟩ := h
    obtain ⟨closing, rfl, closed⟩ := holds_token close
    exact ⟨_, closing, rfl, declared_of_holds body, closed⟩
  | statement => exact h.elim id id
  | condStmt => exact covered_condStmt h
  | exprStmt =>
    obtain ⟨_, _, rfl, ⟨value, expr, rfl⟩, close⟩ := h
    obtain ⟨semicolon, rfl, same⟩ := holds_token close
    exact ⟨_, .expr expr same, by simp [Piece.exprStmt]⟩
  | expression => exact h
  | assignment => exact covered_assignment h
  | logicOr => exact covered_binary 5 (by decide) h fun _ => id
  | logicAnd => exact covered_binary 4 (by decide) h fun _ => id
  | equality => exact covered_binary 3 (by decide) h fun _ => id
  | comparison => exact covered_binary 2 (by decide) h fun _ => id
  | addition => exact covered_binary 1 (by decide) h fun _ => id
  | multiplication => exact covered_binary 0 (by decide) h fun _ => id
  | unary =>
    rcases h with h | ⟨p, made, same⟩
    · obtain ⟨sign, _, rfl, same, operand, made, rfl⟩ := holds_after h
      exact ⟨_, .negate same made, by simp [Piece.negate]⟩
    · exact ⟨p, .unsigned made, same⟩
  | call => exact covered_call h
  | arguments =>
    have each : ∀ tokens, (Phrase.rule .expression).Holds Covered tokens →
        Made (ExprPiece .whole) tokens := fun _ h => h
    exact holds_separated each h
  | primary => exact covered_primary h

theorem exists_pieces {tokens : List Token} (h : Sentence tokens) :
    ∃ body : List (Piece Stmt), (∀ p ∈ body, DeclPiece p) ∧ (body.mapM id).tokens = tokens :=
  h.least covered_of_holds

end LispReader.Grammar
