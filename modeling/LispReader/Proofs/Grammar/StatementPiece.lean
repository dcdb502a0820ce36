import LispReader.Proofs.Grammar.ExpressionPiece
import LispReader.Proofs.Tree.Shape

/-!
# Pieces that are statements and declarations

`StmtPiece` and `DeclPiece` are what the rules for statements and declarations can make of the input.
As an else goes to the nearest condition, the first branch of a condition with one is closed, and a
statement that is not closed has no else behind it. The main result is `reads_program`.
-/

namespace LispReader.Grammar

open Rule Syntax

namespace Piece

def exprStmt (value : Piece Expr) (semicolon : Token) : Piece Stmt := do
  let value ← value
  let _ ← token semicolon
  pure (.expr value)

/-- A condition, with what is made of its test and its first branch. -/
def condHead (cond opening : Token) (test : Piece Expr) (closing : Token) (yes : Piece Stmt)
    (rest : Expr → Stmt → Piece Stmt) : Piece Stmt := do
  let _ ← token cond
  let _ ← token opening
  let test ← test
  let _ ← token closing
  let yes ← yes.deeper
  rest test yes

def cond (cond opening : Token) (test : Piece Expr) (closing : Token) (yes : Piece Stmt) :
    Piece Stmt :=
  condHead cond opening test closing yes fun test yes => pure (.cond test yes)

def condElse (cond opening : Token) (test : Piece Expr) (closing : Token) (yes : Piece Stmt)
    (otherwise : Token) (no : Piece Stmt) : Piece Stmt :=
  condHead cond opening test closing yes fun test yes => do
    let _ ← token otherwise
    let no ← no.deeper
    pure (.condElse test yes no)

def definition (opening define name : Token) (rest : Symbol → Piece Stmt) : Piece Stmt := do
  let _ ← token opening
  let _ ← token define
  let name ← token name
  rest (.ofToken name)

def define (opening define name closing : Token) : Piece Stmt :=
  definition opening define name fun symbol => do
    let _ ← token closing
    pure (.define symbol none)

def defineAs (opening define name equal : Token) (value : Piece Expr) (closing : Token) :
    Piece Stmt :=
  definition opening define name fun symbol => do
    let _ ← token equal
    let value ← value
    let _ ← token closing
    pure (.define symbol (some value))

def parameter (name : Token) : Piece Symbol := do
  let name ← token name
  pure (.ofToken name)

/-- What stands behind the parenthesis that opens the parameters. -/
def functionRest (params : Listing Token) (closing : Token) (body : List (Piece Stmt)) (last : Token)
    (symbol : Symbol) : Piece Stmt := do
  let params ← list .parametersTooMany (params.map parameter)
  let _ ← token closing
  let body ← body.mapM id
  let _ ← token last
  pure (.function symbol params body)

def function (opening define name first : Token) (params : Listing Token) (closing : Token)
    (body : List (Piece Stmt)) (last : Token) : Piece Stmt :=
  definition opening define name fun symbol => do
    let _ ← token first
    (functionRest params closing body last symbol).deeper

end Piece

inductive StmtPiece : Piece Stmt → Prop where
  | expr {value : Piece Expr} {semicolon : Token} :
    ExprPiece .whole value → semicolon.kind = .semicolon → StmtPiece (.exprStmt value semicolon)
  | cond {cond opening closing : Token} {test : Piece Expr} {yes : Piece Stmt} :
    cond.kind = .keyword .cond → opening.kind = .leftParen → ExprPiece .whole test →
    closing.kind = .rightParen → StmtPiece yes → StmtPiece (.cond cond opening test closing yes)
  | condElse {cond opening closing otherwise : Token} {test : Piece Expr} {yes no : Piece Stmt} :
    cond.kind = .keyword .cond → opening.kind = .leftParen → ExprPiece .whole test →
    closing.kind = .rightParen → StmtPiece yes → yes.value.isClosed = true →
    otherwise.kind = .keyword .otherwise → StmtPiece no →
    StmtPiece (.condElse cond opening test closing yes otherwise no)

inductive DeclPiece : Piece Stmt → Prop where
  | statement {p : Piece Stmt} : StmtPiece p → DeclPiece p
  | define {opening define name closing : Token} :
    opening.kind = .leftParen → define.kind = .keyword .define → name.kind = .identifier →
    closing.kind = .rightParen → DeclPiece (.define opening define name closing)
  | defineAs {opening define name equal closing : Token} {value : Piece Expr} :
    opening.kind = .leftParen → define.kind = .keyword .define → name.kind = .identifier →
    equal.kind = .equal → ExprPiece .whole value → closing.kind = .rightParen →
    DeclPiece (.defineAs opening define name equal value closing)
  | function {opening define name first closing last : Token} {params : Listing Token}
      {body : List (Piece Stmt)} :
    opening.kind = .leftParen → define.kind = .keyword .define → name.kind = .identifier →
    first.kind = .leftParen → params.Separated → (∀ param ∈ params.items, param.kind = .identifier) →
    closing.kind = .rightParen → (∀ p ∈ body, DeclPiece p) → last.kind = .rightParen →
    DeclPiece (.function opening define name first params closing body last)

/-! ### How a declaration begins -/

theorem StmtPiece.opens {p : Piece Stmt} (h : StmtPiece p) :
    (∃ token rest, p.tokens = token :: rest ∧ token.kind = .keyword .cond) ∨
      Level.whole.Opens p.tokens := by
  cases h with
  | expr value _ => exact .inr (value.opens.append _)
  | cond same => exact .inl ⟨_, _, rfl, same⟩
  | condElse same => exact .inl ⟨_, _, rfl, same⟩

theorem StmtPiece.not_opensDefinition {p : Piece Stmt} (h : StmtPiece p) (next : List Token) :
    opensDefinition (p.tokens ++ next) = false := by
  rcases h.opens with ⟨token, rest, tokens, same⟩ | ⟨token, rest, tokens, start, second⟩
  · rw [tokens]
    cases hrest : rest ++ next <;> simp [opensDefinition, same, hrest]
  · by_cases opening : token.kind = .leftParen
    · obtain ⟨token', rest', rfl, start'⟩ := second opening
      have other : token'.kind ≠ .keyword .define := Level.ne_of_starts start' rfl
      simp [tokens, opensDefinition, other]
    · rw [tokens]
      cases hrest : rest ++ next <;> simp [opensDefinition, opening, hrest]

theorem DeclPiece.opens {p : Piece Stmt} (h : DeclPiece p) :
    ∃ token rest, p.tokens = token :: rest ∧ token.kind ≠ .rightParen ∧
      token.kind ≠ .keyword .otherwise := by
  cases h with
  | statement h =>
    rcases h.opens with ⟨token, rest, tokens, same⟩ | ⟨token, rest, tokens, start, -⟩
    · exact ⟨token, rest, tokens, by simp [same], by simp [same]⟩
    · exact ⟨token, rest, tokens, Level.ne_of_starts start rfl, Level.ne_of_starts start rfl⟩
  | define same => exact ⟨_, _, rfl, by simp [same], by simp [same]⟩
  | defineAs same => exact ⟨_, _, rfl, by simp [same], by simp [same]⟩
  | function same => exact ⟨_, _, rfl, by simp [same], by simp [same]⟩

/-! ### Reading a statement -/

/-- Where no else follows. -/
def NoElse (next : List Token) : Prop := ∀ token ∈ next.head?, token.kind ≠ .keyword .otherwise

variable {levels : Nat} {next : List Token}

theorem noElse_cons {token : Token} (other : token.kind ≠ .keyword .otherwise) (rest : List Token) :
    NoElse (token :: rest) := by
  rintro _ ⟨⟩
  exact other

theorem reads_condHead {cond opening closing : Token} {test : Piece Expr} {yes : Piece Stmt}
    {rest : Expr → Stmt → Piece Stmt} (same : cond.kind = .keyword .cond)
    (opened : opening.kind = .leftParen) (expr : ExprPiece .whole test)
    (closed : closing.kind = .rightParen)
    (branch : ∀ levels, (statement (nestedWithin levels)).Reads levels yes
      ((rest test.value yes.value).tokens ++ next))
    (more : (accept (ofKind (.keyword .otherwise)) >>= fun
      | none => pure (.cond test.value yes.value)
      | some _ => (nestedWithin levels).stmt >>= fun no =>
        pure (.condElse test.value yes.value no)).Reads levels (rest test.value yes.value) next) :
    (statement (nestedWithin levels)).Reads levels
      (.condHead cond opening test closing yes rest) next := by
  refine reads_accept_bind_some (s := cond) (by simp [ofKind, same]) ?_
  refine reads_bind (reads_expect opened _) (reads_bind (reads_exprPiece expr levels _ ?_) ?_)
  · exact endsAt_cons closed rfl _
  · exact reads_bind (reads_expect closed _) (reads_bind (reads_nested_stmt branch) more)

theorem reads_stmtPiece {p : Piece Stmt} (h : StmtPiece p) (levels : Nat) (next : List Token)
    (ends : p.value.isClosed = true ∨ NoElse next) :
    (statement (nestedWithin levels)).Reads levels p next := by
  induction h generalizing levels next with
  | @expr value semicolon expr same =>
    refine reads_accept_bind_none (fun token first => ?_) ?_
    · obtain ⟨token', rest, tokens, start, -⟩ := expr.opens
      obtain rfl : token' = token := by simpa [Piece.exprStmt, tokens] using first
      have other : token'.kind ≠ .keyword .cond := Level.ne_of_starts start rfl
      simp [ofKind, other]
    · exact reads_bind (reads_exprPiece expr levels _ (endsAt_cons same rfl _))
        (reads_bind (reads_expect same _) (reads_pure _))
  | cond same opened test closed _ ih =>
    have noElse : NoElse next := ends.resolve_left Bool.false_ne_true
    refine reads_condHead same opened test closed (fun levels => ih levels next (.inr noElse)) ?_
    exact reads_accept_bind_none (fun token first => by simp [ofKind, noElse token first]) (reads_pure _)
  | @condElse _ _ _ otherwise _ _ no same opened test closed _ yes other _ ihYes ihNo =>
    refine reads_condHead same opened test closed (fun levels => ihYes levels _ (.inl yes)) ?_
    refine reads_accept_bind_some (s := otherwise) (by simp [ofKind, other]) ?_
    exact reads_bind (reads_nested_stmt fun levels => ihNo levels next ends) (reads_pure _)

/-! ### Reading a declaration -/

theorem Rule.Reads.congr {α : Type} {r s : Rule α} {p : Piece α} (h : s.Reads levels p next)
    (same : r.run (p.tokens ++ next) = s.run (p.tokens ++ next)) : r.Reads levels p next := by
  have strict : r.strict (p.tokens ++ next) = s.strict (p.tokens ++ next) := congrArg Reply.strict same
  exact ⟨fun within => same.trans (h.within within), fun beyond => strict ▸ h.beyond beyond, h.mild⟩

theorem reads_definition {opening define name : Token} {rest : Symbol → Piece Stmt}
    (first : opening.kind = .leftParen) (second : define.kind = .keyword .define)
    (named : name.kind = .identifier)
    (more : (accept (ofKind .leftParen) >>= fun
      | some _ => (nestedWithin levels).function (.ofToken name)
      | none => accept (ofKind .equal) >>= fun
        | none => closeDefinition (.ofToken name) none
        | some _ => expression (nestedWithin levels) >>= fun value =>
          closeDefinition (.ofToken name) (some value)).Reads levels (rest (.ofToken name)) next) :
    (definitionOrStatement (nestedWithin levels)).Reads levels
      (.definition opening define name rest) next := by
  have pair (rest : List Token) : (acceptPair .leftParen (.keyword .define)).Reads levels
      (do let _ ← Piece.token opening; let _ ← Piece.token define; pure true) rest :=
    ⟨fun _ => by simp [acceptPair, first, second], fun beyond => absurd beyond (Nat.not_lt_zero _),
      by simp⟩
  have split : Piece.definition opening define name rest =
      (do let _ ← Piece.token opening; let _ ← Piece.token define; pure true) >>= fun _ =>
        Piece.token name >>= fun name => rest (.ofToken name) := by
    simp only [Piece.definition, bind_assoc, pure_bind]
  rw [split]
  refine reads_bind (pair _) ?_
  rw [if_pos (by rfl), definition_eq]
  exact reads_bind (reads_expect named _) more

theorem reads_closeDefinition {closing : Token} (closed : closing.kind = .rightParen)
    (symbol : Symbol) (value : Option Expr) : (closeDefinition symbol value).Reads levels
      (do let _ ← Piece.token closing; pure (.define symbol value)) next :=
  reads_bind (reads_expect closed _) (reads_pure _)

theorem reads_declarations {closes : Token → Bool} {body : List (Piece Stmt)}
    (closing : ∀ token, closes token = true → token.kind = .rightParen)
    (each : ∀ p ∈ body, DeclPiece p ∧ ∀ levels next, NoElse next →
      (definitionOrStatement (nestedWithin levels)).Reads levels p next)
    (last : NoElse next) (closed : ∀ token ∈ next.head?, closes token = true) :
    (declarations (nestedWithin levels) closes).Reads levels (body.mapM id) next := by
  refine reads_manyUntil (fun p known next h => reads_recovering ((each p known).2 levels next h))
    (fun p known => ?_) last closed
  obtain ⟨token, rest, tokens, other, notElse⟩ := (each p known).1.opens
  refine ⟨token, rest, tokens, ?_, noElse_cons notElse⟩
  exact Bool.eq_false_iff.mpr fun h => other (closing token h)

theorem reads_functionRest {params : Listing Token} {closing last : Token}
    {body : List (Piece Stmt)} (separated : params.Separated)
    (named : ∀ param ∈ params.items, param.kind = .identifier) (closed : closing.kind = .rightParen)
    (each : ∀ p ∈ body, DeclPiece p ∧ ∀ levels next, NoElse next →
      (definitionOrStatement (nestedWithin levels)).Reads levels p next)
    (ended : last.kind = .rightParen) (symbol : Symbol) :
    (function (nestedWithin levels) symbol).Reads levels
      (.functionRest params closing body last symbol) next := by
  have parameters : ∀ p ∈ (params.map Piece.parameter).items,
      (∃ token rest, p.tokens = token :: rest ∧ token.kind ≠ .rightParen) ∧
        ∀ token rest, token.kind = .comma ∨ token.kind = .rightParen →
          parameter.Reads levels p (token :: rest) := by
    rw [Listing.items_map, List.forall_mem_map]
    intro param known
    have same := named param known
    exact ⟨⟨param, [], rfl, by simp [same]⟩, fun _ _ _ => reads_bind (reads_expect same _) (reads_pure _)⟩
  refine reads_bind (reads_listOf rfl (Listing.separated_map.mpr separated) parameters closed _) ?_
  refine reads_bind (reads_expect closed _) (reads_bind (reads_declarations ?_ each ?_ ?_) ?_)
  · exact fun token h => of_decide_eq_true h
  · exact noElse_cons (by simp [ended]) _
  · rintro _ ⟨⟩
    exact decide_eq_true ended
  · exact reads_bind (reads_expect ended _) (reads_pure _)

theorem reads_declPiece {p : Piece Stmt} (h : DeclPiece p) (levels : Nat) (next : List Token)
    (noElse : NoElse next) : (definitionOrStatement (nestedWithin levels)).Reads levels p next := by
  induction h generalizing levels next with
  | statement h =>
    exact (reads_stmtPiece h levels next (.inr noElse)).congr (run_statement (h.not_opensDefinition _) _)
  | define first second named closed =>
    refine reads_definition first second named (reads_accept_bind_none ?_ (reads_accept_bind_none ?_
      (reads_closeDefinition closed _ _)))
    · rintro _ ⟨⟩
      simp [ofKind, closed]
    · rintro _ ⟨⟩
      simp [ofKind, closed]
  | @defineAs _ _ _ equal closing value first second named same expr closed =>
    refine reads_definition first second named (reads_accept_bind_none ?_
      (reads_accept_bind_some (s := equal) (by simp [ofKind, same])
        (reads_bind (reads_exprPiece expr levels _ (endsAt_cons closed rfl _))
          (reads_closeDefinition closed _ _))))
    rintro _ ⟨⟩
    simp [ofKind, same]
  | @function _ _ _ opening _ _ _ body first second named opened separated params closed decls last ih =>
    refine reads_definition first second named
      (reads_accept_bind_some (s := opening) (by simp [ofKind, opened]) ?_)
    exact reads_nested_function fun levels =>
      reads_functionRest separated params closed (fun p h => ⟨decls p h, ih p h⟩) last _

theorem reads_program {body : List (Piece Stmt)} (h : ∀ p ∈ body, DeclPiece p) :
    program.Reads maxNesting (body.mapM id) [] :=
  reads_declarations (fun _ h => absurd h Bool.false_ne_true)
    (fun p known => ⟨h p known, reads_declPiece (h p known)⟩) (by rintro _ ⟨⟩) (by rintro _ ⟨⟩)

end LispReader.Grammar
