import LispReader.Grammar.Expression
import LispReader.Grammar.Recovery

/-!
# Statements and declarations

    declaration → "(" "Define" definition | statement
    definition  → name "(" (name ("," name)*)? ")" declaration* ")"
                | name ("=" expression)? ")"
    statement   → "Cond" "(" expression ")" statement ("'t" statement)?
                | expression ";"

A declaration with a fault is dropped and the input resumed after it.
-/

namespace LispReader.Grammar

open Rule

def exprStatement (nested : Nested) : Rule Stmt := do
  let value ← expression nested
  let _ ← expect .semicolon .semicolonMissing
  pure (.expr value)

def statement (nested : Nested) : Rule Stmt := do
  match ← accept (ofKind (.keyword .cond)) with
  | none => exprStatement nested
  | some _ => do
    let _ ← expect .leftParen .conditionUnopened
    let test ← expression nested
    let _ ← expect .rightParen .conditionUnclosed
    let yes ← nested.stmt
    match ← accept (ofKind (.keyword .otherwise)) with
    | none => pure (.cond test yes)
    | some _ => do
      let no ← nested.stmt
      pure (.condElse test yes no)

def definition (nested : Nested) : Rule Stmt := do
  let symbol := Symbol.ofToken (← expect .identifier .nameMissing)
  match ← accept (ofKind .leftParen) with
  | some _ => nested.function symbol
  | none => do
    let value ←
      match ← accept (ofKind .equal) with
      | none => pure none
      | some _ => some <$> expression nested
    let _ ← expect .rightParen .definitionUnclosed
    pure (.define symbol value)

def definitionOrStatement (nested : Nested) : Rule Stmt := do
  if ← acceptPair .leftParen (.keyword .define) then definition nested else statement nested

/-- A declaration, or nothing where it has a fault. -/
def declaration (nested : Nested) : Rule (Option Stmt) := recovering (definitionOrStatement nested)

theorem consumes_statement (nested : Nested) : (statement nested).Consumes :=
  consumes_accept_bind (consumes_bind (consumes_expression nested) _)

theorem advances_declaration (nested : Nested) : (declaration nested).Advances :=
  advances_recovering (consumes_acceptPair_bind (consumes_statement nested))

/-- Declarations up to the end, or up to a token that closes them. -/
def declarations (nested : Nested) (closes : Token → Bool) : Rule (List Stmt) :=
  manyUntil closes (declaration nested) (advances_declaration nested)

def parameter : Rule Symbol := Symbol.ofToken <$> expect .identifier .parameterMissing

def function (nested : Nested) (symbol : Symbol) : Rule Stmt := do
  let params ← listOf parameter .parametersTooMany
  let _ ← expect .rightParen .parametersUnclosed
  let body ← declarations nested (·.kind = .rightParen)
  let _ ← expect .rightParen .bodyUnclosed
  pure (.function symbol params body)

/-! ### Levels -/

/-- The rules that `levels` more levels of nesting are open to. -/
def nestedWithin : Nat → Nested
  | 0 => .none
  | levels + 1 =>
    let below := nestedWithin levels
    ⟨unary below, expression below, statement below, function below⟩

/-- How deep a program may be nested. -/
def maxNesting : Nat := 64

/-- A whole program. -/
def program : Rule (List Stmt) := declarations (nestedWithin maxNesting) fun _ => false

end LispReader.Grammar
