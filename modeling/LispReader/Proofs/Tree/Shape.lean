import LispReader.Grammar.Nested

/-!
# The shape of a tree

A tree is `Proper` if it can be written without adding parentheses: operands bind tightly enough,
branches are statements, an else belongs to the nearest condition, and no list is too long. Its
nesting is counted level by level as the grammar does.
-/

namespace LispReader

open Grammar (maxListLength)

/-- How loosely an expression binds. -/
def Expr.looseness : Expr → Nat
  | .constant _ | .name _ | .group _ => 0
  | .call .. | .get .. => 1
  | .negate .. => 2
  | .binary op .. => op.rank + 3
  | .assign .. | .set .. => Operator.ranks + 3

/-- Operators of one rank group to the left, and lists have a limited length. -/
inductive Expr.Proper : Expr → Prop where
  | constant (value : Constant) : Proper (.constant value)
  | name (symbol : Symbol) : Proper (.name symbol)
  | group {inner : Expr} : inner.Proper → Proper (.group inner)
  | negate {pos : Position} {operand : Expr} :
    operand.looseness ≤ 2 → operand.Proper → Proper (.negate pos operand)
  | binary {op : Operator} {pos : Position} {left right : Expr} :
    left.looseness ≤ op.rank + 3 → left.Proper → right.looseness ≤ op.rank + 2 → right.Proper →
    Proper (.binary op pos left right)
  | assign {target : Symbol} {value : Expr} : value.Proper → Proper (.assign target value)
  | call {callee : Expr} {close : Position} {args : List Expr} :
    callee.looseness ≤ 1 → callee.Proper → args.length ≤ maxListLength →
    (∀ arg ∈ args, arg.Proper) → Proper (.call callee close args)

namespace Stmt

/-- May the statement be a branch? -/
def isBranch : Stmt → Bool
  | .expr _ | .cond .. | .condElse .. => true
  | _ => false

/-- Is there no condition at the end that an else would belong to? -/
def isClosed : Stmt → Bool
  | .cond .. => false
  | .condElse _ _ no => no.isClosed
  | .loop _ body => body.isClosed
  | _ => true

inductive Proper : Stmt → Prop where
  | expr {value : Expr} : value.Proper → Proper (.expr value)
  | define (symbol : Symbol) {value : Option Expr} :
    (∀ expr ∈ value, expr.Proper) → Proper (.define symbol value)
  | function (symbol : Symbol) {params : List Symbol} {body : List Stmt} :
    params.length ≤ maxListLength → (∀ stmt ∈ body, stmt.Proper) →
    Proper (.function symbol params body)
  | cond {test : Expr} {yes : Stmt} :
    test.Proper → yes.isBranch = true → yes.Proper → Proper (.cond test yes)
  | condElse {test : Expr} {yes no : Stmt} :
    test.Proper → yes.isBranch = true → yes.Proper → yes.isClosed = true →
    no.isBranch = true → no.Proper → Proper (.condElse test yes no)

end Stmt

/-! ### Nesting -/

mutual

def Expr.nesting : Expr → Nat
  | .constant _ | .name _ => 0
  | .group inner => inner.nesting + 1
  | .negate _ operand => operand.nesting + 1
  | .binary _ _ left right => max left.nesting right.nesting
  | .assign _ value => value.nesting + 1
  | .call callee _ args => max callee.nesting (Expr.listNesting args)
  | .get object _ => object.nesting
  | .set object _ value => max object.nesting (value.nesting + 1)

def Expr.listNesting : List Expr → Nat
  | [] => 0
  | arg :: args => max (arg.nesting + 1) (Expr.listNesting args)

end

theorem Expr.listNesting_eq_foldr (args : List Expr) :
    Expr.listNesting args = (args.map fun arg => arg.nesting + 1).foldr max 0 := by
  induction args with
  | nil => rfl
  | cons arg args ih => rw [Expr.listNesting, ih, List.map_cons, List.foldr_cons]

theorem Expr.listNesting_le {levels : Nat} {args : List Expr} (h : ∀ arg ∈ args, arg.nesting < levels) :
    Expr.listNesting args ≤ levels := by
  induction args with
  | nil => exact Nat.zero_le levels
  | cons arg args ih =>
    obtain ⟨first, more⟩ := List.forall_mem_cons.mp h
    exact Nat.max_le.mpr ⟨first, ih more⟩

mutual

def Stmt.nesting : Stmt → Nat
  | .expr value => value.nesting
  | .define _ none => 0
  | .define _ (some value) => value.nesting
  | .function _ _ body => Stmt.listNesting body + 1
  | .cond test yes => max test.nesting (yes.nesting + 1)
  | .condElse test yes no => max test.nesting (max (yes.nesting + 1) (no.nesting + 1))
  | .print value => value.nesting
  | .block body => Stmt.listNesting body + 1
  | .ret _ none => 0
  | .ret _ (some value) => value.nesting
  | .loop test body => max test.nesting (body.nesting + 1)

def Stmt.listNesting : List Stmt → Nat
  | [] => 0
  | stmt :: stmts => max stmt.nesting (Stmt.listNesting stmts)

end

theorem Stmt.listNesting_le {levels : Nat} {stmts : List Stmt}
    (h : ∀ stmt ∈ stmts, stmt.nesting ≤ levels) : Stmt.listNesting stmts ≤ levels := by
  induction stmts with
  | nil => exact Nat.zero_le levels
  | cons stmt stmts ih =>
    obtain ⟨first, more⟩ := List.forall_mem_cons.mp h
    exact Nat.max_le.mpr ⟨first, ih more⟩

end LispReader
