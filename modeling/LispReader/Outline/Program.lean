import LispReader.Number.Shortest
import LispReader.Outline.Basic
import LispReader.Text.Quoted
import LispReader.Tree.Basic

/-!
# Outlines of tokens and programs

The names and the order of the fields are part of the format.
-/

namespace LispReader

def Keyword.title : Keyword → String
  | .and => "And"
  | .or => "Or"
  | .truth => "True"
  | .falsity => "False"
  | .nil => "Nil"
  | .print => "Print"
  | .cond => "Cond"
  | .otherwise => "Else"
  | .define => "Define"
  | .cons => "Cons"
  | .car => "Car"
  | .cdr => "Cdr"

def Token.Kind.title : Token.Kind → String
  | .leftParen => "LeftParen"
  | .rightParen => "RightParen"
  | .comma => "Comma"
  | .minus => "Minus"
  | .plus => "Plus"
  | .semicolon => "Semicolon"
  | .slash => "Slash"
  | .star => "Star"
  | .equal => "Equal"
  | .equalEqual => "EqualEqual"
  | .greater => "Greater"
  | .greaterEqual => "GreaterEqual"
  | .less => "Less"
  | .lessEqual => "LessEqual"
  | .identifier => "Identifier"
  | .string => "String"
  | .number => "Number"
  | .keyword word => word.title
  | .eof => "Eof"

def Operator.title : Operator → String
  | .or => "Or"
  | .and => "And"
  | .equal => "EqualEqual"
  | .less => "Less"
  | .lessEqual => "LessEqual"
  | .greater => "Greater"
  | .greaterEqual => "GreaterEqual"
  | .plus => "Plus"
  | .minus => "Minus"
  | .times => "Star"
  | .divide => "Slash"

/-- Operators on truth values, which choose whether their right side counts. -/
def Operator.isLogical : Operator → Bool
  | .or | .and => true
  | _ => false

/-- The fields of a position. -/
def Position.outline (p : Position) : List (String × Outline) :=
  [("line", .leaf (toString p.line)), ("col", .leaf (toString p.col))]

def Number.outline (x : Number) : Outline := .tuple "Number" [.leaf x.text]

def Token.Literal.outline : Token.Literal → Outline
  | .text value => .tuple "Str" [.leaf (Text.quoted value)]
  | .number value => value.outline

def Token.outline (token : Token) : Outline :=
  .fields "Token" <|
    [("ty", .leaf token.kind.title), ("lexeme", .leaf (Text.quoted token.lexeme)),
      ("literal", .option (token.literal.map Token.Literal.outline))] ++ token.pos.outline

def Symbol.outline (s : Symbol) : Outline :=
  .fields "Symbol" (("name", .leaf (Text.quoted s.name)) :: s.pos.outline)

def Constant.outline : Constant → Outline
  | .nil => .leaf "Nil"
  | .bool true => .leaf "True"
  | .bool false => .leaf "False"
  | .number value => value.outline
  | .text value => .tuple "String" [.leaf (Text.quoted value)]

/-- An operator sign with its position. -/
def operatorOutline (name title : String) (pos : Position) : Outline :=
  .fields name (("ty", .leaf title) :: pos.outline)

mutual

def Expr.outline : Expr → Outline
  | .constant value => .tuple "Literal" [value.outline]
  | .name symbol => .tuple "Variable" [symbol.outline]
  | .group inner => .tuple "Grouping" [inner.outline]
  | .negate pos operand => .tuple "Unary" [operatorOutline "UnaryOp" "Minus" pos, operand.outline]
  | .binary op pos left right =>
    let (node, sign) := if op.isLogical then ("Logical", "LogicalOp") else ("Binary", "BinaryOp")
    .tuple node [left.outline, operatorOutline sign op.title pos, right.outline]
  | .assign target value => .tuple "Assign" [target.outline, value.outline]
  | .call callee close args =>
    .tuple "Call"
      [callee.outline, .fields "SourceLocation" close.outline, .list (Expr.outlines args)]
  | .get object attr => .tuple "Get" [object.outline, attr.outline]
  | .set object attr value =>
    .tuple "Set" [object.outline, attr.outline, value.outline]

def Expr.outlines : List Expr → List Outline
  | [] => []
  | e :: es => e.outline :: Expr.outlines es

end

mutual

def Stmt.outline : Stmt → Outline
  | .expr value => .tuple "Expr" [value.outline]
  | .define symbol value =>
    .tuple "VarDecl" [symbol.outline, .option (value.map Expr.outline)]
  | .function symbol params body =>
    .tuple "FunDecl"
      [.fields "FunDecl"
        [("name", symbol.outline), ("params", .list (params.map Symbol.outline)),
          ("body", .list (Stmt.outlines body))]]
  | .cond test yes => .tuple "Cond" [test.outline, yes.outline, .option none]
  | .condElse test yes no => .tuple "Cond" [test.outline, yes.outline, .option (some no.outline)]
  | .print value => .tuple "Print" [value.outline]
  | .block body => .tuple "Block" [.list (Stmt.outlines body)]
  | .ret pos value =>
    .tuple "Return" [.fields "SourceLocation" pos.outline, .option (value.map Expr.outline)]
  | .loop test body => .tuple "While" [test.outline, body.outline]

def Stmt.outlines : List Stmt → List Outline
  | [] => []
  | s :: ss => s.outline :: Stmt.outlines ss

end

end LispReader
