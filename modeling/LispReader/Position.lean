/-!
# Positions in a text

A line, counted from 1, and a column, counted in characters from 0. `Position.advance` moves over a
piece of text; by `advance_append` it may do so piece by piece.
-/

namespace LispReader

structure Position where
  line : Nat
  col : Int
deriving DecidableEq

namespace Position

/-- The position of the first character of a text. -/
def start : Position := ⟨1, 0⟩

/-- The position after the character `c`. Only a newline begins a line. -/
def next (p : Position) (c : Char) : Position :=
  if c = '\n' then ⟨p.line + 1, 0⟩ else ⟨p.line, p.col + 1⟩

/-- The position after all of `text`. -/
def advance (p : Position) (text : List Char) : Position := text.foldl next p

@[simp] theorem advance_nil (p : Position) : p.advance [] = p := rfl

@[simp] theorem advance_cons (p : Position) (c : Char) (text : List Char) :
    p.advance (c :: text) = (p.next c).advance text := rfl

theorem advance_append (p : Position) (a b : List Char) :
    p.advance (a ++ b) = (p.advance a).advance b := List.foldl_append

end Position

end LispReader
