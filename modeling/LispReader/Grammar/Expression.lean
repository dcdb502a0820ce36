import LispReader.Grammar.Nested

/-!
# Expressions

    expression → binary ("=" expression)?
    binary     → operators of six ranks over unary, each grouping to the left
    unary      → "-" unary | call
    call       → primary ("(" (expression ("," expression)*)? ")")*
    primary    → constant | name | "(" expression ")"

The left side of an assignment has to be a name, or an attribute, which no rule gives yet.
-/

namespace LispReader.Grammar

open Rule

/-- What a token at the start of an expression begins. -/
inductive Start where
  | constant (value : Constant)
  | name (symbol : Symbol)
  | group
  /-- A number or string token without such a value. -/
  | misfit

def Start.ofToken? (token : Token) : Option Start :=
  match token.kind, token.literal with
  | .keyword .falsity, _ => some (.constant (.bool false))
  | .keyword .truth, _ => some (.constant (.bool true))
  | .keyword .nil, _ => some (.constant .nil)
  | .number, some (.number value) => some (.constant (.number value))
  | .number, _ => some .misfit
  | .string, some (.text value) => some (.constant (.text value))
  | .string, _ => some .misfit
  | .identifier, _ => some (.name (.ofToken token))
  | .leftParen, _ => some .group
  | _, _ => none

def primary (nested : Nested) : Rule Expr := do
  let place ← ahead
  match ← accept Start.ofToken? with
  | none => stop .expressionMissing place
  | some .misfit => stop .expressionMissing place
  | some (.constant value) => pure (.constant value)
  | some (.name symbol) => pure (.name symbol)
  | some .group => do
    let inner ← nested.expr
    let _ ← expect .rightParen .groupUnclosed
    pure (.group inner)

def call (nested : Nested) : Rule Expr := do
  let callee ← primary nested
  foldWhile (ofKind .leftParen)
    (fun callee _ => do
      let args ← listOf nested.expr .argumentsTooMany
      let close ← expect .rightParen .argumentsUnclosed
      pure (.call callee close.pos args))
    callee

def unary (nested : Nested) : Rule Expr := do
  match ← accept (ofKind .minus) with
  | some sign => do
    let operand ← nested.unary
    pure (.negate sign.pos operand)
  | none => call nested

/-- Selects the operators of one rank, with their position. -/
def operatorOfRank (rank : Nat) (token : Token) : Option (Operator × Position) :=
  match Operator.ofKind? token.kind with
  | some op => if op.rank = rank then some (op, token.pos) else none
  | none => none

/-- Binary operators of ranks below `rank`, those of each rank from left to right. -/
def binary (operand : Rule Expr) : Nat → Rule Expr
  | 0 => operand
  | rank + 1 => do
    let left ← binary operand rank
    foldWhile (operatorOfRank rank)
      (fun left (op, pos) => do
        let right ← binary operand rank
        pure (.binary op pos left right))
      left

def expression (nested : Nested) : Rule Expr := do
  let left ← binary (unary nested) Operator.ranks
  let place ← ahead
  match ← accept (ofKind .equal) with
  | none => pure left
  | some _ => do
    let value ← nested.expr
    match left with
    | .name symbol => pure (.assign symbol value)
    | .get object attr => pure (.set object attr value)
    | other => do
      note .targetInvalid place
      pure other

/-! ### An expression has at least one token -/

theorem consumes_primary (nested : Nested) : (primary nested).Consumes :=
  consumes_bind_of_forall _ fun _ => consumes_accept_bind (consumes_stop _ _)

theorem consumes_call (nested : Nested) : (call nested).Consumes :=
  consumes_bind (consumes_primary nested) _

theorem consumes_unary (nested : Nested) : (unary nested).Consumes :=
  consumes_accept_bind (consumes_call nested)

theorem consumes_binary {operand : Rule Expr} (h : operand.Consumes) (rank : Nat) :
    (binary operand rank).Consumes := by
  induction rank with
  | zero => exact h
  | succ rank ih => exact consumes_bind ih _

theorem consumes_expression (nested : Nested) : (expression nested).Consumes :=
  consumes_bind (consumes_binary (consumes_unary nested) _) _

end LispReader.Grammar
