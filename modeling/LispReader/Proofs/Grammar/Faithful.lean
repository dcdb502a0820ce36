import LispReader.Proofs.Grammar.StatementPiece
import LispReader.Proofs.Tree.Writing

/-!
# Pieces without reports

A piece without reports is faithful: its value is a proper tree, is written as the tokens of the
piece and is nested as deep as the piece. The main results are `ExprPiece.faithful` and
`DeclPiece.faithful`.
-/

namespace LispReader.Grammar

open Syntax

/-! ### Expressions -/

/-- The loosest expression that a level reads. -/
def Level.bound : Level → Nat
  | primary => 0
  | call => 1
  | ranks count => count + 2
  | whole => Operator.ranks + 3

/-- What there is to know about a tree that was read without a report. -/
structure Faithful (bound : Nat) (expr : Expr) (tokens : List Token) (nesting : Nat) : Prop where
  written : expr.Written tokens
  proper : expr.Proper
  tight : expr.looseness ≤ bound
  nested : expr.nesting = nesting

theorem Start.ofToken?_eq_constant_iff {token : Token} {value : Constant} :
    Start.ofToken? token = some (.constant value) ↔ value.IsToken token := by
  constructor
  · intro h
    unfold Start.ofToken? at h
    split at h <;> cases h <;> simp_all [Constant.IsToken]
  · intro h
    match value, h with
    | .nil, h | .bool true, h | .bool false, h =>
      rw [Constant.IsToken] at h
      simp [Start.ofToken?, h]
    | .number _, ⟨kind, literal⟩ | .text _, ⟨kind, literal⟩ =>
      simp [Start.ofToken?, kind, literal]

theorem listNesting_eq {parts : List (Piece Expr)} (h : ∀ p ∈ parts, p.value.nesting = p.nesting) :
    Expr.listNesting (parts.map Piece.value) = Piece.deepest (parts.map Piece.deeper) := by
  induction parts with
  | nil => rfl
  | cons p parts ih =>
    obtain ⟨first, more⟩ := List.forall_mem_cons.mp h
    rw [List.map_cons, Expr.listNesting, first, ih more]
    rfl

/-- What holds of an operand holds of it with the rounds behind it. -/
theorem faithful_foldlM {β : Type} {bound : Nat} {step : Expr → β → Piece Expr} {rounds : List β}
    (each : ∀ round ∈ rounds, ∀ acc tokens nesting, Faithful bound acc tokens nesting →
      (step acc round).notes = [] → Faithful bound (step acc round).value
        (tokens ++ (step acc round).tokens) (max nesting (step acc round).nesting))
    {acc : Expr} {tokens : List Token} {nesting : Nat} (h : Faithful bound acc tokens nesting)
    (clean : (rounds.foldlM step acc).notes = []) : Faithful bound (rounds.foldlM step acc).value
      (tokens ++ (rounds.foldlM step acc).tokens) (max nesting (rounds.foldlM step acc).nesting) := by
  induction rounds generalizing acc tokens nesting with
  | nil => simpa using h
  | cons round rounds ih =>
    rw [List.foldlM_cons] at clean ⊢
    obtain ⟨first, more⟩ := Piece.notes_bind_eq_nil_iff.mp clean
    have next := each round (List.mem_cons_self ..) acc tokens nesting h first
    have rest := ih (fun r known => each r (List.mem_cons_of_mem _ known)) next more
    simpa [Nat.max_assoc] using rest

def Piece.written {α : Type} (p : Piece α) : α × List Token := (p.value, p.tokens)

theorem written_call {callee : Expr} {tokens : List Token} {opening closing : Token}
    {args : Listing (Piece Expr)} (h : callee.Written tokens) (opened : opening.kind = .leftParen)
    (separated : args.Separated) (each : ∀ p ∈ args.items, p.value.Written p.tokens)
    (closed : closing.kind = .rightParen) :
    Expr.Written (.call callee closing.pos (args.items.map Piece.value))
      (tokens ++ opening :: args.tokens Piece.tokens ++ [closing]) := by
  have items : ∀ arg ∈ (args.map Piece.written).items, arg.1.Written arg.2 := by
    rw [Listing.items_map, List.forall_mem_map]
    exact each
  have := Expr.Written.call h opened (Listing.separated_map.mpr separated) items closed
  rwa [Listing.items_map, List.map_map, Listing.tokens_map] at this

theorem faithful_callRound {callee : Expr} {tokens : List Token} {nesting : Nat}
    {opening closing : Token} {args : Listing (Piece Expr)} (opened : opening.kind = .leftParen)
    (separated : args.Separated) (closed : closing.kind = .rightParen)
    (each : ∀ p ∈ args.items, p.notes = [] → Faithful Level.whole.bound p.value p.tokens p.nesting)
    (h : Faithful 1 callee tokens nesting)
    (clean : (Piece.callRound callee args closing).notes = []) :
    Faithful 1 (Piece.callRound callee args closing).value
      (tokens ++ opening :: (Piece.callRound callee args closing).tokens)
      (max nesting (Piece.callRound callee args closing).nesting) := by
  obtain ⟨short, items⟩ : args.items.length ≤ maxListLength ∧ ∀ p ∈ args.items, p.notes = [] := by
    have := (Piece.notes_bind_eq_nil_iff.mp clean).1
    rw [Piece.notes_list_eq_nil_iff, Listing.items_map, List.length_map, List.forall_mem_map] at this
    exact this
  have each (p : Piece Expr) (known : p ∈ args.items) := each p known (items p known)
  have value : (Piece.callRound callee args closing).value =
      .call callee closing.pos (args.items.map Piece.value) := by
    simp [Piece.callRound, Piece.value_list, Function.comp_def]
  rw [value]
  refine ⟨?_, ?_, Nat.le_refl 1, ?_⟩
  · have written := written_call h.written opened separated (fun p known => (each p known).written) closed
    simpa [Piece.callRound, Listing.tokens_map, Function.comp_def] using written
  · refine .call h.tight h.proper (by simpa using short) ?_
    rw [List.forall_mem_map]
    exact fun p known => (each p known).proper
  · rw [Expr.nesting, h.nested, listNesting_eq fun p known => (each p known).nested]
    simp [Piece.callRound, Piece.nesting_list]

theorem ExprPiece.faithful {level : Level} {p : Piece Expr} (h : ExprPiece level p)
    (clean : p.notes = []) : Faithful level.bound p.value p.tokens p.nesting := by
  induction h with
  | constant found =>
    exact ⟨.constant (Start.ofToken?_eq_constant_iff.mp found), .constant _, Nat.le_refl 0, rfl⟩
  | name same => exact ⟨.name same, .name _, Nat.le_refl 0, rfl⟩
  | @group opening closing inner opened _ closed ih =>
    have := ih (by simpa [Piece.group] using clean)
    exact ⟨by simpa [Piece.group] using Expr.Written.group opened this.written closed,
      .group this.proper, Nat.le_refl 0, by simp [Piece.group, Expr.nesting, this.nested]⟩
  | call _ shape _ ih ihs =>
    obtain ⟨first, more⟩ := Piece.notes_bind_eq_nil_iff.mp clean
    have callee := ih first
    refine faithful_foldlM (fun round known acc tokens nesting h clean => ?_)
      ⟨callee.written, callee.proper, Nat.le_succ_of_le callee.tight, callee.nested⟩ more
    obtain ⟨opened, separated, closed⟩ := shape round known
    have := faithful_callRound opened separated closed (ihs round known) h (by simpa using clean)
    simpa [Level.bound] using this
  | unsigned _ ih =>
    have := ih clean
    exact ⟨this.written, this.proper, Nat.le_succ_of_le this.tight, this.nested⟩
  | @negate sign operand same _ ih =>
    have := ih (by simpa [Piece.negate] using clean)
    exact ⟨by simpa [Piece.negate] using Expr.Written.negate same this.written,
      .negate this.tight this.proper, Nat.le_refl 2, by simp [Piece.negate, Expr.nesting, this.nested]⟩
  | @binary rank first rounds _ ops _ ih ihs =>
    obtain ⟨clean, more⟩ := Piece.notes_bind_eq_nil_iff.mp clean
    have operand := ih clean
    refine faithful_foldlM (fun round known acc tokens nesting h clean => ?_)
      ⟨operand.written, operand.proper, Nat.le_succ_of_le operand.tight, operand.nested⟩ more
    obtain ⟨found, same, -⟩ := operatorOfRank_eq_some_iff.mp (ops round known)
    have right := ihs round known (by simpa [Piece.binaryRound] using clean)
    refine ⟨?_, ?_, ?_, ?_⟩
    · simpa [Piece.binaryRound] using Expr.Written.binary h.written found right.written
    · exact .binary (same ▸ h.tight) h.proper (same ▸ right.tight) right.proper
    · simp [Piece.binaryRound, Expr.looseness, Level.bound, same]
    · simp [Piece.binaryRound, Expr.nesting, h.nested, right.nested]
  | value _ ih =>
    have := ih clean
    exact ⟨this.written, this.proper, Nat.le_succ_of_le this.tight, this.nested⟩
  | @assign left value equal inside same _ ih ihv =>
    simp only [Piece.assign, Piece.notes_bind_eq_nil_iff, Piece.notes_deeper] at clean
    obtain ⟨cleanLeft, -, cleanValue, assigns⟩ := clean
    have target := ih cleanLeft
    have result := ihv cleanValue
    -- Of what has a syntax, only the assignment to a name is not reported.
    obtain ⟨symbol, named⟩ : ∃ symbol, left.value = .name symbol := by
      unfold Piece.assignTo at assigns
      split at assigns
      · exact ⟨_, ‹_›⟩
      · rename_i found
        have written := target.written
        rw [found] at written
        cases written
      · simp at assigns
    have writes : ∀ tokens, left.tokens = tokens → (Expr.name symbol).Written tokens := by
      rintro _ rfl
      exact named ▸ target.written
    have value : (Piece.assign left equal value).value = .assign symbol value.value := by
      simp [Piece.assign, Piece.assignTo, named]
    have nesting : left.nesting = 0 := by rw [← target.nested, named, Expr.nesting]
    rw [value]
    refine ⟨?_, .assign result.proper, Nat.le_refl _, ?_⟩
    · generalize read : left.tokens = tokens at writes
      cases writes tokens rfl with
      | name isName => simpa [Piece.assign, read] using Expr.Written.assign isName same result.written
    · simp [Piece.assign, Piece.assignTo, named, nesting, Expr.nesting, result.nested]

/-! ### Statements and declarations -/

structure FaithfulStmt (stmt : Stmt) (tokens : List Token) (nesting : Nat) : Prop where
  written : stmt.Written tokens
  proper : stmt.Proper
  nested : stmt.nesting = nesting

theorem StmtPiece.isBranch {p : Piece Stmt} (h : StmtPiece p) : p.value.isBranch = true := by
  cases h <;> rfl

theorem StmtPiece.faithful {p : Piece Stmt} (h : StmtPiece p) (clean : p.notes = []) :
    FaithfulStmt p.value p.tokens p.nesting := by
  induction h with
  | @expr value semicolon expr same =>
    have := expr.faithful (by simpa [Piece.exprStmt] using clean)
    exact ⟨by simpa [Piece.exprStmt] using Stmt.Written.expr this.written same, .expr this.proper,
      by simp [Piece.exprStmt, Stmt.nesting, this.nested]⟩
  | cond same opened expr closed inner ih =>
    simp only [Piece.cond, Piece.condHead, Piece.notes_bind_eq_nil_iff, Piece.notes_deeper] at clean
    obtain ⟨-, -, cleanTest, -, cleanYes, -⟩ := clean
    have test := expr.faithful cleanTest
    have yes := ih cleanYes
    refine ⟨?_, .cond test.proper inner.isBranch yes.proper, ?_⟩
    · simpa [Piece.cond, Piece.condHead] using
        Stmt.Written.cond same opened test.written closed yes.written
    · simp [Piece.cond, Piece.condHead, Stmt.nesting, test.nested, yes.nested]
  | condElse same opened expr closed inner yesClosed other last ih ihNo =>
    simp only [Piece.condElse, Piece.condHead, Piece.notes_bind_eq_nil_iff, Piece.notes_deeper] at clean
    obtain ⟨-, -, cleanTest, -, cleanYes, -, cleanNo, -⟩ := clean
    have test := expr.faithful cleanTest
    have yes := ih cleanYes
    have no := ihNo cleanNo
    refine ⟨?_, .condElse test.proper inner.isBranch yes.proper yesClosed last.isBranch no.proper, ?_⟩
    · simpa [Piece.condElse, Piece.condHead] using
        Stmt.Written.condElse same opened test.written closed yes.written other no.written
    · simp [Piece.condElse, Piece.condHead, Stmt.nesting, test.nested, yes.nested, no.nested]

theorem stmtListNesting_eq {parts : List (Piece Stmt)}
    (h : ∀ p ∈ parts, p.value.nesting = p.nesting) :
    Stmt.listNesting (parts.map Piece.value) = Piece.deepest parts := by
  induction parts with
  | nil => rfl
  | cons p parts ih =>
    obtain ⟨first, more⟩ := List.forall_mem_cons.mp h
    rw [List.map_cons, Stmt.listNesting, first, ih more]
    rfl

theorem allWritten_of_faithful {parts : List (Piece Stmt)}
    (h : ∀ p ∈ parts, FaithfulStmt p.value p.tokens p.nesting) :
    ∀ part ∈ parts.map Piece.written, part.1.Written part.2 := by
  rw [List.forall_mem_map]
  exact fun p known => (h p known).written

theorem deepest_parameters (names : List Token) :
    Piece.deepest (names.map Piece.parameter) = 0 := by
  induction names with
  | nil => rfl
  | cons name names ih => exact (congrArg (max 0) ih).trans (Nat.max_self 0)

theorem faithful_function {opening define name first closing last : Token} {params : Listing Token}
    {body : List (Piece Stmt)} (opened : opening.kind = .leftParen)
    (defines : define.kind = .keyword .define) (named : name.kind = .identifier)
    (begun : first.kind = .leftParen) (separated : params.Separated)
    (names : ∀ param ∈ params.items, param.kind = .identifier) (closed : closing.kind = .rightParen)
    (ended : last.kind = .rightParen)
    (each : ∀ p ∈ body, p.notes = [] → FaithfulStmt p.value p.tokens p.nesting)
    (clean : (Piece.function opening define name first params closing body last).notes = []) :
    FaithfulStmt (.function (.ofToken name) (params.items.map .ofToken) (body.map Piece.value))
      (Piece.function opening define name first params closing body last).tokens
      (Piece.function opening define name first params closing body last).nesting := by
  simp only [Piece.function, Piece.definition, Piece.functionRest, Piece.notes_bind_eq_nil_iff,
    Piece.notes_deeper, Piece.notes_list_eq_nil_iff, Piece.notes_mapM_id_eq_nil_iff] at clean
  obtain ⟨-, -, -, -, ⟨short, -⟩, -, cleanBody, -⟩ := clean
  have each (p : Piece Stmt) (known : p ∈ body) := each p known (cleanBody p known)
  refine ⟨?_, .function _ (by simpa using short) ?_, ?_⟩
  · have written := Stmt.Written.function opened defines named begun separated names closed
      (allWritten_of_faithful each) ended
    have values : (body.map Piece.written).map Prod.fst = body.map Piece.value := List.map_map ..
    rw [values] at written
    simpa [Piece.function, Piece.definition, Piece.functionRest, Listing.tokens_map,
      Function.comp_def, Piece.parameter, List.flatMap_map, Piece.written] using written
  · rw [List.forall_mem_map]
    exact fun p known => (each p known).proper
  · rw [Stmt.nesting, stmtListNesting_eq fun p known => (each p known).nested]
    simp [Piece.function, Piece.definition, Piece.functionRest, Piece.nesting_list,
      Piece.nesting_mapM_id, deepest_parameters]

theorem DeclPiece.faithful {p : Piece Stmt} (h : DeclPiece p) (clean : p.notes = []) :
    FaithfulStmt p.value p.tokens p.nesting := by
  induction h with
  | statement h => exact h.faithful clean
  | define opened defines named closed =>
    exact ⟨.define opened defines named closed, .define _ (by simp), rfl⟩
  | @defineAs _ _ _ equal closing value opened defines named same expr closed =>
    have := expr.faithful (by simpa [Piece.defineAs, Piece.definition] using clean)
    refine ⟨?_, .define _ (by simpa using this.proper), ?_⟩
    · simpa [Piece.defineAs, Piece.definition] using
        Stmt.Written.defineAs opened defines named same this.written closed
    · simp [Piece.defineAs, Piece.definition, Stmt.nesting, this.nested]
  | @function opening define name first closing last params body opened defines named begun separated
      names closed _ ended ih =>
    have value : (Piece.function opening define name first params closing body last).value =
        .function (.ofToken name) (params.items.map .ofToken) (body.map Piece.value) := by
      simp [Piece.function, Piece.definition, Piece.functionRest, Piece.value_list,
        Piece.value_mapM_id, Function.comp_def, Piece.parameter]
    rw [value]
    exact faithful_function opened defines named begun separated names closed ended ih clean

end LispReader.Grammar
