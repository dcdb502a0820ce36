import LispReader.Diagnostic
import LispReader.Tree.Basic

/-!
# Relabeling

A relabeling changes positions and spellings: those of tokens, and those that have gone from tokens
into trees and diagnostics. Kinds, literals, operators and constants stay as they are.
-/

namespace LispReader

structure Relabeling where
  pos : Position → Position
  spelling : String → String

def Position.down (lines : Nat) (p : Position) : Position := ⟨p.line + lines, p.col⟩

/-- Moves everything down by some lines. -/
def Relabeling.down (lines : Nat) : Relabeling := ⟨Position.down lines, id⟩

def Token.relabel (f : Relabeling) (token : Token) : Token :=
  { token with lexeme := f.spelling token.lexeme, pos := f.pos token.pos }

def Symbol.relabel (f : Relabeling) (symbol : Symbol) : Symbol :=
  ⟨f.spelling symbol.name, f.pos symbol.pos⟩

mutual

def Expr.relabel (f : Relabeling) : Expr → Expr
  | .constant value => .constant value
  | .name symbol => .name (symbol.relabel f)
  | .group inner => .group (inner.relabel f)
  | .negate pos operand => .negate (f.pos pos) (operand.relabel f)
  | .binary op pos left right => .binary op (f.pos pos) (left.relabel f) (right.relabel f)
  | .assign target value => .assign (target.relabel f) (value.relabel f)
  | .call callee close args => .call (callee.relabel f) (f.pos close) (Expr.relabelAll f args)
  | .get object attr => .get (object.relabel f) (attr.relabel f)
  | .set object attr value =>
    .set (object.relabel f) (attr.relabel f) (value.relabel f)

def Expr.relabelAll (f : Relabeling) : List Expr → List Expr
  | [] => []
  | arg :: args => arg.relabel f :: Expr.relabelAll f args

end

mutual

def Stmt.relabel (f : Relabeling) : Stmt → Stmt
  | .expr value => .expr (value.relabel f)
  | .define symbol value => .define (symbol.relabel f) (value.map (·.relabel f))
  | .function symbol params body =>
    .function (symbol.relabel f) (params.map (·.relabel f)) (Stmt.relabelAll f body)
  | .cond test yes => .cond (test.relabel f) (yes.relabel f)
  | .condElse test yes no => .condElse (test.relabel f) (yes.relabel f) (no.relabel f)
  | .print value => .print (value.relabel f)
  | .block body => .block (Stmt.relabelAll f body)
  | .ret pos value => .ret (f.pos pos) (value.map (·.relabel f))
  | .loop test body => .loop (test.relabel f) (body.relabel f)

def Stmt.relabelAll (f : Relabeling) : List Stmt → List Stmt
  | [] => []
  | stmt :: stmts => stmt.relabel f :: Stmt.relabelAll f stmts

end

namespace Diagnostic

def Place.relabel (f : Relabeling) : Place → Place
  | .line => .line
  | .atEnd => .atEnd
  | .atLexeme lexeme => .atLexeme (f.spelling lexeme)

def relabel (f : Relabeling) (d : Diagnostic) : Diagnostic :=
  { d with pos := f.pos d.pos, place := d.place.relabel f }

end Diagnostic

variable (f : Relabeling)

@[simp] theorem Token.relabel_kind (token : Token) : (token.relabel f).kind = token.kind := rfl

@[simp] theorem Token.relabel_literal (token : Token) :
    (token.relabel f).literal = token.literal := rfl

@[simp] theorem Token.relabel_pos (token : Token) : (token.relabel f).pos = f.pos token.pos := rfl

theorem Expr.relabelAll_eq_map (args : List Expr) :
    Expr.relabelAll f args = args.map (·.relabel f) := by
  induction args with
  | nil => rfl
  | cons arg args ih => rw [Expr.relabelAll, ih, List.map_cons]

theorem Stmt.relabelAll_eq_map (stmts : List Stmt) :
    Stmt.relabelAll f stmts = stmts.map (·.relabel f) := by
  induction stmts with
  | nil => rfl
  | cons stmt stmts ih => rw [Stmt.relabelAll, ih, List.map_cons]

theorem Diagnostic.relabel_ofToken (token : Token) (message : String) :
    (ofToken token message).relabel f = ofToken (token.relabel f) message := by
  unfold ofToken relabel
  by_cases atEnd : token.kind = .eof <;> simp [atEnd, Place.relabel, Token.relabel]

end LispReader
