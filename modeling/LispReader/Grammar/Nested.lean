import LispReader.Grammar.Repetition
import LispReader.Tree.Basic

/-!
# Nesting

Every construct that may contain itself reads its parts by the rules in a `Nested` record, which
stand one level deeper. Rules are thus functions of the rules below them, and the nesting limit is
the number of levels that are built; `Nested.none` is below the last one.
-/

namespace LispReader.Grammar

structure Nested where
  /-- An operand of the sign. -/
  unary : Rule Expr
  expr : Rule Expr
  /-- A branch. -/
  stmt : Rule Stmt
  /-- What follows the name and the opening parenthesis of a function. -/
  function : Symbol → Rule Stmt

def Rule.tooDeep {α : Type} : Rule α := do
  Rule.stop .nestingTooDeep (← Rule.ahead)

/-- Nothing may be nested any deeper. -/
def Nested.none : Nested := ⟨.tooDeep, .tooDeep, .tooDeep, fun _ => .tooDeep⟩

/-- The most elements that a list of parameters or arguments may have. -/
def maxListLength : Nat := 255

/-- Reports an element that the limit leaves no room for, `count` others standing before it. -/
def noteExcess (tooMany : Problem) (count : Nat) : Rule Unit :=
  if count = maxListLength then do Rule.note tooMany (← Rule.ahead) else pure ()

/-- The elements of a list, separated by commas, up to a closing parenthesis that is not read. The
first element beyond the limit is reported, and all are kept. -/
def listOf {α : Type} (item : Rule α) (tooMany : Problem) : Rule (List α) := do
  if (← Rule.ahead).head?.any (·.kind = .rightParen) then pure []
  else
    let first ← item
    Rule.foldWhile (Rule.ofKind .comma)
      (fun items _ => do
        noteExcess tooMany items.length
        let next ← item
        pure (items ++ [next]))
      [first]

end LispReader.Grammar
