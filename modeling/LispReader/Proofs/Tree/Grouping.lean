import LispReader.Proofs.Tree.Shape

/-!
# Grouping

A tree is `Grouped` if it has the shape that precedence, grouping to the left and the choice of the
nearest condition for an else give it. It is `Proper` but for the length of its lists, so faults may
leave such trees behind. All its parts have a syntax.
-/

namespace LispReader

inductive Expr.Grouped : Expr → Prop where
  | constant (value : Constant) : Grouped (.constant value)
  | name (symbol : Symbol) : Grouped (.name symbol)
  | group {inner : Expr} : inner.Grouped → Grouped (.group inner)
  /-- The operand is another sign, a call or tighter. -/
  | negate {pos : Position} {operand : Expr} :
    operand.looseness ≤ 2 → operand.Grouped → Grouped (.negate pos operand)
  /-- The right operand has only operators of lower ranks. -/
  | binary {op : Operator} {pos : Position} {left right : Expr} :
    left.looseness ≤ op.rank + 3 → left.Grouped → right.looseness ≤ op.rank + 2 → right.Grouped →
    Grouped (.binary op pos left right)
  | assign {target : Symbol} {value : Expr} : value.Grouped → Grouped (.assign target value)
  /-- What is called is a call or tighter. -/
  | call {callee : Expr} {close : Position} {args : List Expr} :
    callee.looseness ≤ 1 → callee.Grouped → (∀ arg ∈ args, arg.Grouped) →
    Grouped (.call callee close args)

inductive Stmt.Grouped : Stmt → Prop where
  | expr {value : Expr} : value.Grouped → Grouped (.expr value)
  | define (symbol : Symbol) {value : Option Expr} :
    (∀ expr ∈ value, expr.Grouped) → Grouped (.define symbol value)
  | function (symbol : Symbol) (params : List Symbol) {body : List Stmt} :
    (∀ stmt ∈ body, stmt.Grouped) → Grouped (.function symbol params body)
  | cond {test : Expr} {yes : Stmt} :
    test.Grouped → yes.isBranch = true → yes.Grouped → Grouped (.cond test yes)
  | condElse {test : Expr} {yes no : Stmt} :
    test.Grouped → yes.isBranch = true → yes.Grouped → yes.isClosed = true →
    no.isBranch = true → no.Grouped → Grouped (.condElse test yes no)

/-! ### What has no syntax -/

mutual

/-- There is no attribute in the expression, neither got nor set. -/
def Expr.hasSyntax : Expr → Bool
  | .constant _ | .name _ => true
  | .group inner => inner.hasSyntax
  | .negate _ operand => operand.hasSyntax
  | .binary _ _ left right => left.hasSyntax && right.hasSyntax
  | .assign _ value => value.hasSyntax
  | .call callee _ args => callee.hasSyntax && Expr.allHaveSyntax args
  | .get .. | .set .. => false

def Expr.allHaveSyntax : List Expr → Bool
  | [] => true
  | arg :: args => arg.hasSyntax && Expr.allHaveSyntax args

end

mutual

/-- There is no `print`, `block`, `ret` or `loop` in the statement, and no attribute. -/
def Stmt.hasSyntax : Stmt → Bool
  | .expr value => value.hasSyntax
  | .define _ none => true
  | .define _ (some value) => value.hasSyntax
  | .function _ _ body => Stmt.allHaveSyntax body
  | .cond test yes => test.hasSyntax && yes.hasSyntax
  | .condElse test yes no => test.hasSyntax && yes.hasSyntax && no.hasSyntax
  | .print _ | .block _ | .ret .. | .loop .. => false

def Stmt.allHaveSyntax : List Stmt → Bool
  | [] => true
  | stmt :: stmts => stmt.hasSyntax && Stmt.allHaveSyntax stmts

end

theorem Expr.allHaveSyntax_of_forall {args : List Expr} (h : ∀ arg ∈ args, arg.hasSyntax = true) :
    Expr.allHaveSyntax args = true := by
  induction args with
  | nil => rfl
  | cons arg args ih =>
    obtain ⟨first, more⟩ := List.forall_mem_cons.mp h
    rw [Expr.allHaveSyntax, first, ih more, Bool.and_true]

theorem Stmt.allHaveSyntax_of_forall {stmts : List Stmt}
    (h : ∀ stmt ∈ stmts, stmt.hasSyntax = true) : Stmt.allHaveSyntax stmts = true := by
  induction stmts with
  | nil => rfl
  | cons stmt stmts ih =>
    obtain ⟨first, more⟩ := List.forall_mem_cons.mp h
    rw [Stmt.allHaveSyntax, first, ih more, Bool.and_true]

theorem Expr.Grouped.hasSyntax {expr : Expr} (h : expr.Grouped) : expr.hasSyntax = true := by
  induction h with
  | constant | name => rfl
  | group _ ih | negate _ _ ih | assign _ ih => exact ih
  | binary _ _ _ _ ihLeft ihRight => rw [Expr.hasSyntax, ihLeft, ihRight, Bool.and_true]
  | call _ _ _ ih ihs =>
    rw [Expr.hasSyntax, ih, Expr.allHaveSyntax_of_forall ihs, Bool.and_true]

theorem Stmt.Grouped.hasSyntax {stmt : Stmt} (h : stmt.Grouped) : stmt.hasSyntax = true := by
  induction h with
  | expr grouped => exact grouped.hasSyntax
  | @define _ value each =>
    cases value with
    | none => rfl
    | some value => exact (each value rfl).hasSyntax
  | function _ _ _ ihs => exact Stmt.allHaveSyntax_of_forall ihs
  | cond test _ _ ih => rw [Stmt.hasSyntax, test.hasSyntax, ih, Bool.and_true]
  | condElse test _ _ _ _ _ ih ihNo =>
    rw [Stmt.hasSyntax, test.hasSyntax, ih, ihNo, Bool.and_true, Bool.and_true]

end LispReader
