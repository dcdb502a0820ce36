import LispReader.Proofs.Grammar.Strict
import LispReader.Proofs.Syntax.Sentence

/-!
# The parts of the rules

Names for the pieces that the rules for expressions and definitions are put together from, and what
a token at the start of an expression can be.
-/

namespace LispReader.Grammar

open Rule Syntax

def group (nested : Nested) : Rule Expr := do
  let inner ← nested.expr
  let _ ← expect .rightParen .groupUnclosed
  pure (.group inner)

def callRound (nested : Nested) (callee : Expr) : Rule Expr := do
  let args ← listOf nested.expr .argumentsTooMany
  let close ← expect .rightParen .argumentsUnclosed
  pure (.call callee close.pos args)

def binaryRound (operand : Rule Expr) (left : Expr) (op : Operator × Position) : Rule Expr := do
  let right ← operand
  pure (.binary op.1 op.2 left right)

/-- What is made of a value for `left`; `place` begins with the equals sign. -/
def assign (left value : Expr) (place : List Token) : Rule Expr :=
  match left with
  | .name symbol => pure (.assign symbol value)
  | .get object attr => pure (.set object attr value)
  | other => do
    note .targetInvalid place
    pure other

/-- What follows the operators of an expression. -/
def assignment (nested : Nested) (left : Expr) : Rule Expr := do
  let place ← ahead
  match ← accept (ofKind .equal) with
  | none => pure left
  | some _ => do
    let value ← nested.expr
    assign left value place

def listRound {α : Type} (item : Rule α) (tooMany : Problem) (items : List α) : Rule (List α) := do
  noteExcess tooMany items.length
  let next ← item
  pure (items ++ [next])

def closeDefinition (symbol : Symbol) (value : Option Expr) : Rule Stmt := do
  let _ ← expect .rightParen .definitionUnclosed
  pure (.define symbol value)

theorem listOf_eq {α : Type} (item : Rule α) (tooMany : Problem) : listOf item tooMany =
    ahead >>= fun input => if input.head?.any (·.kind = .rightParen) then pure []
      else item >>= fun first =>
        foldWhile (ofKind .comma) (fun items _ => listRound item tooMany items) [first] := rfl

theorem definition_eq (nested : Nested) : definition nested =
    expect .identifier .nameMissing >>= fun name => accept (ofKind .leftParen) >>= fun
      | some _ => nested.function (.ofToken name)
      | none => accept (ofKind .equal) >>= fun
        | none => closeDefinition (.ofToken name) none
        | some _ => expression nested >>= fun value => closeDefinition (.ofToken name) (some value) := by
  refine bind_congr fun name => bind_congr fun opening => ?_
  cases opening with
  | some _ => rfl
  | none =>
    refine bind_congr fun equal => ?_
    cases equal with
    | none => rfl
    | some _ => simp [closeDefinition]

/-! ### The start of a declaration -/

def opensDefinition : List Token → Bool
  | a :: b :: _ => a.kind = .leftParen && b.kind = .keyword .define
  | _ => false

theorem exists_eq_of_opensDefinition {input : List Token} (opens : opensDefinition input = true) :
    ∃ a b rest, input = a :: b :: rest ∧ a.kind = .leftParen ∧ b.kind = .keyword .define := by
  unfold opensDefinition at opens
  split at opens
  · rename_i a b rest
    simp only [Bool.and_eq_true, decide_eq_true_eq] at opens
    exact ⟨a, b, rest, rfl, opens⟩
  · cases opens

theorem run_definition {input : List Token} (opens : opensDefinition input = true)
    (nested : Nested) :
    (definitionOrStatement nested).run input = (definition nested).run (input.drop 2) := by
  obtain ⟨a, b, rest, rfl, first, second⟩ := exists_eq_of_opensDefinition opens
  simp [definitionOrStatement, acceptPair, first, second, Reply.andThen]

theorem run_statement {input : List Token} (other : opensDefinition input = false)
    (nested : Nested) :
    (definitionOrStatement nested).run input = (statement nested).run input := by
  rcases run_acceptPair .leftParen (.keyword .define) input with same |
    ⟨a, b, rest, rfl, first, second, -⟩
  · simp [definitionOrStatement, same, Reply.andThen]
  · simp [opensDefinition, first, second] at other

theorem strict_definition {input : List Token} (opens : opensDefinition input = true)
    (nested : Nested) :
    (definitionOrStatement nested).strict input = (definition nested).strict (input.drop 2) :=
  congrArg Reply.strict (run_definition opens nested)

theorem strict_statement {input : List Token} (other : opensDefinition input = false)
    (nested : Nested) :
    (definitionOrStatement nested).strict input = (statement nested).strict input :=
  congrArg Reply.strict (run_statement other nested)

/-! ### The start of an expression -/

/-- A token that begins an expression is one by itself, opens a group, or is unfit. -/
theorem Start.ofToken?_cases (token : Token) :
    (∃ value, Start.ofToken? token = some (.constant value) ∧ token.fits = true ∧
      token.kind ∈ atomKinds) ∨
    (Start.ofToken? token = some (.name (.ofToken token)) ∧ token.kind = .identifier) ∨
    (Start.ofToken? token = some .group ∧ token.kind = .leftParen) ∨
    (Start.ofToken? token = some .misfit ∧ token.fits = false) ∨
    (Start.ofToken? token = none ∧ token.kind ∉ .leftParen :: atomKinds) := by
  unfold Start.ofToken? Token.fits
  split <;> simp_all [atomKinds]

theorem strict_primary_nil (nested : Nested) :
    (primary nested).strict [] = .error ⟨.expressionMissing, []⟩ := rfl

theorem strict_primary_none {token : Token} (h : Start.ofToken? token = none) (nested : Nested)
    (rest : List Token) :
    (primary nested).strict (token :: rest) = .error ⟨.expressionMissing, token :: rest⟩ := by
  unfold primary
  rw [strict_bind_of_ok (strict_ahead _), strict_bind_of_ok (strict_accept_none h rest)]
  rfl

theorem strict_primary_some {token : Token} {start : Start} (h : Start.ofToken? token = some start)
    (nested : Nested) (rest : List Token) :
    (primary nested).strict (token :: rest) = match start with
      | .misfit => .error ⟨.expressionMissing, token :: rest⟩
      | .constant value => .ok (.constant value, rest)
      | .name symbol => .ok (.name symbol, rest)
      | .group => (group nested).strict rest := by
  unfold primary
  rw [strict_bind_of_ok (strict_ahead _), strict_bind_of_ok (strict_accept_some h rest)]
  cases start <;> rfl

theorem operatorOfRank_eq_some_iff {rank : Nat} {token : Token} {op : Operator} {pos : Position} :
    operatorOfRank rank token = some (op, pos) ↔
      Operator.ofKind? token.kind = some op ∧ op.rank = rank ∧ token.pos = pos := by
  unfold operatorOfRank
  split <;> simp_all
  · grind

theorem strict_noteExcess {tooMany : Problem} (mild : tooMany.isFatal = false) (count : Nat)
    (input : List Token) : (noteExcess tooMany count).strict input = .ok ((), input) := by
  unfold noteExcess
  split
  · rw [strict_bind_of_ok (strict_ahead input), strict_note mild]
  · rfl

theorem strict_assign (left value : Expr) (place input : List Token) :
    (assign left value place).strict input =
      .ok (match left with
        | .name symbol => .assign symbol value
        | .get object attr => .set object attr value
        | other => other, input) := by
  unfold assign
  split
  · rfl
  · rfl
  · rw [strict_bind_of_ok (strict_note rfl place input)]
    rfl

end LispReader.Grammar
