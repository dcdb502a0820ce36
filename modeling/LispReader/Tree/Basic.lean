import LispReader.Token.Basic

/-!
# Programs as trees

A program is a list of statements. Expressions keep their parentheses, and names, operators and
calls keep the position of their token. Attributes, got or set, have no syntax yet, and neither have
the statements `print`, `block`, `ret` and `loop`.
-/

namespace LispReader

structure Symbol where
  name : String
  pos : Position
deriving DecidableEq

def Symbol.ofToken (token : Token) : Symbol := ⟨token.lexeme, token.pos⟩

inductive Operator where
  | or
  | and
  | equal
  | less
  | lessEqual
  | greater
  | greaterEqual
  | plus
  | minus
  | times
  | divide
deriving DecidableEq

namespace Operator

def ofKind? : Token.Kind → Option Operator
  | .keyword .or => some .or
  | .keyword .and => some .and
  | .equalEqual => some .equal
  | .less => some .less
  | .lessEqual => some .lessEqual
  | .greater => some .greater
  | .greaterEqual => some .greaterEqual
  | .plus => some .plus
  | .minus => some .minus
  | .star => some .times
  | .slash => some .divide
  | _ => none

/-- How loosely an operator binds. -/
def rank : Operator → Nat
  | .times | .divide => 0
  | .plus | .minus => 1
  | .less | .lessEqual | .greater | .greaterEqual => 2
  | .equal => 3
  | .and => 4
  | .or => 5

/-- The number of ranks. -/
def ranks : Nat := 6

theorem rank_lt_ranks (op : Operator) : op.rank < ranks := by cases op <;> decide

end Operator

inductive Constant where
  | nil
  | bool (value : Bool)
  | number (value : Number)
  | text (value : String)
deriving DecidableEq

inductive Expr where
  | constant (value : Constant)
  | name (symbol : Symbol)
  | group (inner : Expr)
  | negate (pos : Position) (operand : Expr)
  | binary (op : Operator) (pos : Position) (left right : Expr)
  | assign (target : Symbol) (value : Expr)
  /-- The position is that of the closing parenthesis. -/
  | call (callee : Expr) (close : Position) (args : List Expr)
  | get (object : Expr) (attr : Symbol)
  | set (object : Expr) (attr : Symbol) (value : Expr)

inductive Stmt where
  | expr (value : Expr)
  | define (symbol : Symbol) (value : Option Expr)
  | function (symbol : Symbol) (params : List Symbol) (body : List Stmt)
  | cond (test : Expr) (yes : Stmt)
  | condElse (test : Expr) (yes no : Stmt)
  | print (value : Expr)
  | block (body : List Stmt)
  | ret (pos : Position) (value : Option Expr)
  | loop (test : Expr) (body : Stmt)

end LispReader
