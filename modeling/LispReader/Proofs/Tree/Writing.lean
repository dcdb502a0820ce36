import LispReader.Proofs.Syntax.Listing
import LispReader.Tree.Basic

/-!
# Writing a tree out

`Written tree tokens` says that the tokens are those of the tree, in order and with the punctuation:
names stand for identifiers with their spelling and position, constants for tokens with their value,
and operators and calls have the position of their token. It says nothing about parentheses that the
tree would need, and a tree with a part that has no syntax is not written at all.
-/

namespace LispReader

open Syntax (Listing)

/-- Does the token stand for the constant? -/
def Constant.IsToken (token : Token) : Constant → Prop
  | .nil => token.kind = .keyword .nil
  | .bool true => token.kind = .keyword .truth
  | .bool false => token.kind = .keyword .falsity
  | .number value => token.kind = .number ∧ token.literal = some (.number value)
  | .text value => token.kind = .string ∧ token.literal = some (.text value)

/-- Arguments come with the tokens that they are written as. -/
inductive Expr.Written : Expr → List Token → Prop where
  | constant {value : Constant} {token : Token} :
    value.IsToken token → Written (.constant value) [token]
  | name {token : Token} : token.kind = .identifier → Written (.name (.ofToken token)) [token]
  | group {opening closing : Token} {inner : Expr} {tokens : List Token} :
    opening.kind = .leftParen → inner.Written tokens → closing.kind = .rightParen →
    Written (.group inner) (opening :: tokens ++ [closing])
  | negate {sign : Token} {operand : Expr} {tokens : List Token} :
    sign.kind = .minus → operand.Written tokens →
    Written (.negate sign.pos operand) (sign :: tokens)
  | binary {op : Operator} {token : Token} {left right : Expr} {a b : List Token} :
    left.Written a → Operator.ofKind? token.kind = some op → right.Written b →
    Written (.binary op token.pos left right) (a ++ token :: b)
  | assign {name equal : Token} {value : Expr} {tokens : List Token} :
    name.kind = .identifier → equal.kind = .equal → value.Written tokens →
    Written (.assign (.ofToken name) value) (name :: equal :: tokens)
  | call {callee : Expr} {tokens : List Token} {opening closing : Token}
      {args : Listing (Expr × List Token)} :
    callee.Written tokens → opening.kind = .leftParen → args.Separated →
    (∀ arg ∈ args.items, arg.1.Written arg.2) → closing.kind = .rightParen →
    Written (.call callee closing.pos (args.items.map Prod.fst))
      (tokens ++ opening :: args.tokens Prod.snd ++ [closing])

/-- The statements in a body come with the tokens that they are written as. -/
inductive Stmt.Written : Stmt → List Token → Prop where
  | expr {value : Expr} {semicolon : Token} {tokens : List Token} :
    value.Written tokens → semicolon.kind = .semicolon →
    Written (.expr value) (tokens ++ [semicolon])
  | define {opening define name closing : Token} :
    opening.kind = .leftParen → define.kind = .keyword .define → name.kind = .identifier →
    closing.kind = .rightParen →
    Written (.define (.ofToken name) none) [opening, define, name, closing]
  | defineAs {opening define name equal closing : Token} {value : Expr} {tokens : List Token} :
    opening.kind = .leftParen → define.kind = .keyword .define → name.kind = .identifier →
    equal.kind = .equal → value.Written tokens → closing.kind = .rightParen →
    Written (.define (.ofToken name) (some value))
      (opening :: define :: name :: equal :: tokens ++ [closing])
  | function {opening define name first closing last : Token} {params : Listing Token}
      {body : List (Stmt × List Token)} :
    opening.kind = .leftParen → define.kind = .keyword .define → name.kind = .identifier →
    first.kind = .leftParen → params.Separated → (∀ param ∈ params.items, param.kind = .identifier) →
    closing.kind = .rightParen → (∀ stmt ∈ body, stmt.1.Written stmt.2) → last.kind = .rightParen →
    Written (.function (.ofToken name) (params.items.map .ofToken) (body.map Prod.fst))
      (opening :: define :: name :: first :: params.tokens ([·]) ++
        closing :: body.flatMap Prod.snd ++ [last])
  | cond {cond opening closing : Token} {test : Expr} {yes : Stmt} {a b : List Token} :
    cond.kind = .keyword .cond → opening.kind = .leftParen → test.Written a →
    closing.kind = .rightParen → yes.Written b →
    Written (.cond test yes) (cond :: opening :: a ++ closing :: b)
  | condElse {cond opening closing otherwise : Token} {test : Expr} {yes no : Stmt}
      {a b c : List Token} :
    cond.kind = .keyword .cond → opening.kind = .leftParen → test.Written a →
    closing.kind = .rightParen → yes.Written b → otherwise.kind = .keyword .otherwise →
    no.Written c →
    Written (.condElse test yes no) (cond :: opening :: a ++ closing :: b ++ otherwise :: c)

def Stmt.AllWritten (stmts : List Stmt) (tokens : List Token) : Prop :=
  ∃ parts : List (Stmt × List Token), stmts = parts.map Prod.fst ∧
    tokens = parts.flatMap Prod.snd ∧ ∀ part ∈ parts, part.1.Written part.2

end LispReader
