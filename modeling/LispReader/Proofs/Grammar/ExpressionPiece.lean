import LispReader.Proofs.Grammar.Reads

/-!
# Pieces that are expressions

The rules for expressions as a definition of what they read: `ExprPiece level` holds of the pieces
that the rule of a level can make. The main result is `reads_exprPiece`: a rule reads such a piece
wherever no token follows that goes on with it.
-/

namespace LispReader.Grammar

open Rule Syntax

inductive Level where
  | primary
  | call
  /-- Operators of the ranks below `count`; of none, but with a sign. -/
  | ranks (count : Nat)
  | whole

namespace Level

def rule (nested : Nested) : Level → Rule Expr
  | primary => Grammar.primary nested
  | call => Grammar.call nested
  | ranks count => binary (unary nested) count
  | whole => expression nested

/-- The kinds of token that go on with an expression. -/
def extends? : Level → Token.Kind → Bool
  | primary, _ => false
  | call, kind => kind = .leftParen
  | ranks count, kind => kind = .leftParen || (Operator.ofKind? kind).any (·.rank < count)
  | whole, kind => kind = .leftParen || (Operator.ofKind? kind).isSome || kind = .equal

/-- An expression ends where this follows. -/
def EndsAt (level : Level) (next : List Token) : Prop :=
  ∀ token ∈ next.head?, level.extends? token.kind = false

def starts : Level → Token.Kind → Bool
  | primary, kind | call, kind => kind = .leftParen || kind ∈ atomKinds
  | ranks _, kind | whole, kind => kind = .minus || kind = .leftParen || kind ∈ atomKinds

end Level

namespace Piece

def group (opening : Token) (inner : Piece Expr) (closing : Token) : Piece Expr := do
  let _ ← token opening
  let inner ← inner.deeper
  let _ ← token closing
  pure (.group inner)

/-- What stands behind the opening parenthesis of a call. -/
def callRound (callee : Expr) (args : Listing (Piece Expr)) (closing : Token) : Piece Expr := do
  let args ← list .argumentsTooMany (args.map deeper)
  let close ← token closing
  pure (.call callee close.pos args)

def negate (sign : Token) (operand : Piece Expr) : Piece Expr := do
  let sign ← token sign
  let operand ← operand.deeper
  pure (.negate sign.pos operand)

def binaryRound (left : Expr) (op : Operator) (pos : Position) (right : Piece Expr) : Piece Expr := do
  let right ← right
  pure (.binary op pos left right)

def assignTo (left value : Expr) (back : List Token) : Piece Expr :=
  match left with
  | .name symbol => pure (.assign symbol value)
  | .get object attr => pure (.set object attr value)
  | other => do
    note .targetInvalid back
    pure other

def assign (left : Piece Expr) (equal : Token) (value : Piece Expr) : Piece Expr := do
  let left ← left
  let _ ← token equal
  let result ← value.deeper
  assignTo left result (equal :: value.tokens)

@[simp] theorem tokens_assignTo (left value : Expr) (back : List Token) :
    (assignTo left value back).tokens = [] := by
  unfold assignTo
  split <;> rfl

end Piece

/-- What a level can make of the input. -/
inductive ExprPiece : Level → Piece Expr → Prop where
  | constant {token : Token} {value : Constant} :
    Start.ofToken? token = some (.constant value) →
    ExprPiece .primary (do let _ ← Piece.token token; pure (.constant value))
  | name {token : Token} : token.kind = .identifier →
    ExprPiece .primary (do let name ← Piece.token token; pure (.name (.ofToken name)))
  | group {opening closing : Token} {inner : Piece Expr} :
    opening.kind = .leftParen → ExprPiece .whole inner → closing.kind = .rightParen →
    ExprPiece .primary (.group opening inner closing)
  | call {callee : Piece Expr} {rounds : List (Token × Listing (Piece Expr) × Token)} :
    ExprPiece .primary callee →
    (∀ round ∈ rounds, round.1.kind = .leftParen ∧ round.2.1.Separated ∧
      round.2.2.kind = .rightParen) →
    (∀ round ∈ rounds, ∀ p ∈ round.2.1.items, ExprPiece .whole p) →
    ExprPiece .call (callee >>= rounds.foldlM fun callee round =>
      Piece.token round.1 >>= fun _ => .callRound callee round.2.1 round.2.2)
  | unsigned {p : Piece Expr} : ExprPiece .call p → ExprPiece (.ranks 0) p
  | negate {sign : Token} {operand : Piece Expr} :
    sign.kind = .minus → ExprPiece (.ranks 0) operand → ExprPiece (.ranks 0) (.negate sign operand)
  | binary {rank : Nat} {first : Piece Expr} {rounds : List (Token × Operator × Piece Expr)} :
    ExprPiece (.ranks rank) first →
    (∀ round ∈ rounds, operatorOfRank rank round.1 = some (round.2.1, round.1.pos)) →
    (∀ round ∈ rounds, ExprPiece (.ranks rank) round.2.2) →
    ExprPiece (.ranks (rank + 1)) (first >>= rounds.foldlM fun left round =>
      Piece.token round.1 >>= fun _ => .binaryRound left round.2.1 round.1.pos round.2.2)
  | value {p : Piece Expr} : ExprPiece (.ranks Operator.ranks) p → ExprPiece .whole p
  | assign {left value : Piece Expr} {equal : Token} :
    ExprPiece (.ranks Operator.ranks) left → equal.kind = .equal → ExprPiece .whole value →
    ExprPiece .whole (.assign left equal value)

/-! ### How an expression begins -/

/-- Begins with a token that may begin an expression, and if that is a parenthesis, with another such
token behind it. -/
def Level.Opens (level : Level) (tokens : List Token) : Prop :=
  ∃ token rest, tokens = token :: rest ∧ level.starts token.kind = true ∧
    (token.kind = .leftParen →
      ∃ token' rest', rest = token' :: rest' ∧ Level.whole.starts token'.kind = true)

theorem Level.ne_of_starts {level : Level} {kind other : Token.Kind} (start : level.starts kind = true)
    (unfit : level.starts other = false) : kind ≠ other := by
  rintro rfl
  rw [start] at unfit
  cases unfit

theorem Level.Opens.append {level : Level} {tokens : List Token} (h : level.Opens tokens)
    (next : List Token) : level.Opens (tokens ++ next) := by
  obtain ⟨token, rest, rfl, start, second⟩ := h
  refine ⟨token, rest ++ next, rfl, start, fun opening => ?_⟩
  obtain ⟨token', rest', rfl, start'⟩ := second opening
  exact ⟨token', rest' ++ next, rfl, start'⟩

theorem Level.Opens.mono {a b : Level} (le : ∀ kind, a.starts kind = true → b.starts kind = true)
    {tokens : List Token} : a.Opens tokens → b.Opens tokens
  | ⟨token, rest, same, start, second⟩ => ⟨token, rest, same, le _ start, second⟩

theorem ExprPiece.opens {level : Level} {p : Piece Expr} (h : ExprPiece level p) :
    level.Opens p.tokens := by
  induction h with
  | @constant token value found =>
    rcases Start.ofToken?_cases token with ⟨_, _, _, known⟩ | ⟨same, _⟩ | ⟨same, _⟩ | ⟨same, _⟩ | ⟨same, _⟩
    · refine ⟨token, [], rfl, by simp [Level.starts, known], fun opening => ?_⟩
      simp [opening, atomKinds] at known
    all_goals simp [found] at same
  | @name token same => exact ⟨token, [], rfl, by simp [Level.starts, same, atomKinds], by simp [same]⟩
  | @group opening closing inner same _ _ ih =>
    obtain ⟨token, rest, tokens, start, -⟩ := ih
    refine ⟨opening, inner.tokens ++ [closing], rfl, by simp [Level.starts, same], fun _ => ?_⟩
    exact ⟨token, rest ++ [closing], by simp [tokens], start⟩
  | call _ _ _ ih => exact ih.append _
  | unsigned _ ih => exact ih.mono fun kind => by simp +contextual [Level.starts, or_imp]
  | @negate sign operand same _ _ =>
    exact ⟨sign, operand.tokens ++ [], rfl, by simp [Level.starts, same], by simp [same]⟩
  | binary _ _ _ ih => exact (ih.mono fun _ => id).append _
  | value _ ih => exact ih.mono fun _ => id
  | assign _ _ _ ih => exact (ih.mono fun _ => id).append _

/-! ### How an expression ends -/

theorem endsAt_cons {level : Level} {token : Token} {kind : Token.Kind} (same : token.kind = kind)
    (ends : level.extends? kind = false) (rest : List Token) : level.EndsAt (token :: rest) := by
  rintro _ ⟨⟩
  exact same ▸ ends

theorem Level.EndsAt.mono {a b : Level} {next : List Token} (h : b.EndsAt next)
    (le : ∀ kind, a.extends? kind = true → b.extends? kind = true) : a.EndsAt next := by
  intro token first
  have := h token first
  cases extended : a.extends? token.kind with
  | false => rfl
  | true => rw [le _ extended] at this; cases this

theorem not_leftParen_of_operator {kind : Token.Kind} {op : Operator}
    (found : Operator.ofKind? kind = some op) : kind ≠ .leftParen := by
  rintro rfl
  cases found

theorem Level.extends?_succ {kind : Token.Kind} (count : Nat)
    (h : (ranks count).extends? kind = true) : (ranks (count + 1)).extends? kind = true := by
  simp only [extends?, Bool.or_eq_true, Option.any_eq_true, decide_eq_true_eq] at h ⊢
  exact h.imp_right fun ⟨op, found, lt⟩ => ⟨op, found, Nat.lt_succ_of_lt lt⟩

theorem Level.extends?_whole {kind : Token.Kind} {count : Nat}
    (h : (ranks count).extends? kind = true) : whole.extends? kind = true := by
  simp only [extends?, Bool.or_eq_true, Option.any_eq_true, decide_eq_true_eq] at h ⊢
  exact .inl (h.imp_right fun ⟨op, found, _⟩ => by simp [found])

/-! ### Reading an expression -/

theorem reads_callRound {levels : Nat} {args : Listing (Piece Expr)} {closing : Token}
    (separated : args.Separated) (same : closing.kind = .rightParen)
    (each : ∀ p ∈ args.items, Level.whole.Opens p.tokens ∧ ∀ levels next, Level.whole.EndsAt next →
      (expression (nestedWithin levels)).Reads levels p next)
    (callee : Expr) (next : List Token) : (callRound (nestedWithin levels) callee).Reads levels
      (.callRound callee args closing) next := by
  refine reads_bind (reads_listOf rfl (Listing.separated_map.mpr separated) ?_ same next)
    (reads_bind (reads_expect same _) (reads_pure _))
  rw [Listing.items_map, List.forall_mem_map]
  intro p known
  obtain ⟨⟨token, rest, tokens, start, -⟩, reads⟩ := each p known
  refine ⟨⟨token, rest, tokens, Level.ne_of_starts start rfl⟩, fun token rest kind => ?_⟩
  have ends : Level.whole.EndsAt (token :: rest) := by
    rcases kind with comma | closing
    · exact endsAt_cons comma rfl rest
    · exact endsAt_cons closing rfl rest
  exact reads_nested_expr fun levels => reads levels _ ends

theorem reads_assign {levels : Nat} {equal : Token} {value : Piece Expr} {next : List Token}
    (same : equal.kind = .equal)
    (reads : ∀ levels, (expression (nestedWithin levels)).Reads levels value next) (left : Expr) :
    (assignment (nestedWithin levels) left).Reads levels (do
      let _ ← Piece.token equal
      let result ← value.deeper
      .assignTo left result (equal :: value.tokens)) next := by
  refine reads_ahead_bind (reads_accept_bind_some (s := equal) (by simp [ofKind, same]) ?_)
  refine reads_bind (reads_nested_expr ?_) ?_
  · simpa using reads
  · have place : (do
        let _ ← Piece.token equal
        let result ← value.deeper
        Piece.assignTo left result (equal :: value.tokens)).tokens ++ next =
          (equal :: value.tokens) ++ next := by simp
    rw [place]
    cases left with
    | name _ | get _ _ => exact reads_pure _
    | _ => exact reads_bind (reads_note rfl _) (reads_pure _)

theorem reads_exprPiece {level : Level} {p : Piece Expr} (h : ExprPiece level p) (levels : Nat)
    (next : List Token) (ends : level.EndsAt next) :
    (level.rule (nestedWithin levels)).Reads levels p next := by
  induction h generalizing levels next with
  | constant found => exact reads_ahead_bind (reads_accept_bind_some found (reads_pure _))
  | @name token same =>
    refine reads_ahead_bind (reads_accept_bind_some (s := .name (.ofToken token)) ?_ (reads_pure _))
    simp [Start.ofToken?, same]
  | @group opening closing inner same inside closed ih =>
    refine reads_ahead_bind (reads_accept_bind_some (s := .group) (by simp [Start.ofToken?, same]) ?_)
    have ends : Level.whole.EndsAt (closing :: next) := endsAt_cons closed rfl next
    exact reads_bind (reads_nested_expr fun levels => ih levels _ ends)
      (reads_bind (reads_expect closed _) (reads_pure _))
  | @call callee rounds first shape items ih ihs =>
    refine reads_bind (ih levels _ fun _ _ => rfl) ?_
    refine reads_foldWhile (fun _ => True) (fun round known => ?_) (fun _ _ _ => trivial)
      trivial (fun token first => ?_) _
    · obtain ⟨opened, separated, closed⟩ := shape round known
      refine ⟨round.1, by simp [ofKind, opened], fun callee next _ => ?_⟩
      exact reads_callRound separated closed
        (fun p h => ⟨(items round known p h).opens, ihs round known p h⟩) callee next
    · have := ends token first
      simpa [Level.extends?, ofKind] using this
  | @unsigned p inside ih =>
    have call : Level.call.EndsAt next := ends.mono fun kind => by simp [Level.extends?]
    refine reads_accept_bind_none (fun token first => ?_) (ih levels next call)
    obtain ⟨token', rest, tokens, start, -⟩ := inside.opens
    obtain rfl : token' = token := by simpa [tokens] using first
    have unsigned : token'.kind ≠ .minus := Level.ne_of_starts start rfl
    simp [ofKind, unsigned]
  | @negate sign operand same _ ih =>
    refine reads_accept_bind_some (s := sign) (by simp [ofKind, same]) ?_
    exact reads_bind (reads_nested_unary fun levels => ih levels _ ends) (reads_pure _)
  | @binary rank first rounds inside ops rights ih ihs =>
    have between (round : Token × Operator × Piece Expr) (known : round ∈ rounds)
        (next : List Token) : (Level.ranks rank).EndsAt (round.1 :: next) := by
      obtain ⟨found, same, -⟩ := operatorOfRank_eq_some_iff.mp (ops round known)
      refine endsAt_cons rfl ?_ next
      simp [Level.extends?, found, same, not_leftParen_of_operator found]
    have last : (Level.ranks rank).EndsAt next := ends.mono fun kind => Level.extends?_succ rank
    refine reads_bind (ih levels _ (follow_foldlM _ _ between last _)) ?_
    refine reads_foldWhile (Level.ranks rank).EndsAt (fun round known => ?_) between
      last (fun token first => ?_) _
    · refine ⟨_, ops round known, fun left next h => ?_⟩
      exact reads_bind (ihs round known levels _ h) (reads_pure _)
    · have none := ends token first
      cases found : operatorOfRank rank token with
      | none => rfl
      | some op =>
        obtain ⟨found, same, -⟩ := operatorOfRank_eq_some_iff.mp found
        simp [Level.extends?, found, same] at none
  | @value p _ ih =>
    refine bind_pure p ▸ reads_bind (ih levels next (ends.mono fun kind => Level.extends?_whole)) ?_
    refine reads_ahead_bind (reads_accept_bind_none (fun token first => ?_) (reads_pure _))
    have := ends token first
    simp only [Level.extends?, Bool.or_eq_false_iff, decide_eq_false_iff_not] at this
    simp [ofKind, this.2]
  | assign _ same _ ih ihv =>
    exact reads_bind (ih levels _ (endsAt_cons same rfl _))
      (reads_assign same (fun levels => ihv levels next ends) _)

end LispReader.Grammar
