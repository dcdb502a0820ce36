import LispReader.Number.Basic
import LispReader.Position

/-!
# Tokens

The keywords, the kinds of token, and a token with its spelling and its place in the text.
-/

namespace LispReader

inductive Keyword where
  | and
  | or
  | truth
  | falsity
  | nil
  | print
  | cond
  /-- The word that opens the branch for all other cases. -/
  | otherwise
  | define
  | cons
  | car
  | cdr
deriving DecidableEq

namespace Keyword

def all : List Keyword :=
  [.and, .or, .truth, .falsity, .nil, .print, .cond, .otherwise, .define, .cons, .car, .cdr]

def spelling : Keyword → List Char
  | .and => ['a', 'n', 'd']
  | .or => ['o', 'r']
  | .truth => ['t', 'r', 'u', 'e']
  | .falsity => ['f', 'a', 'l', 's', 'e']
  | .nil => ['n', 'i', 'l']
  | .print => ['p', 'r', 'i', 'n', 't']
  | .cond => ['C', 'o', 'n', 'd']
  | .otherwise => ['\'', 't']
  | .define => ['D', 'e', 'f', 'i', 'n', 'e']
  | .cons => ['C', 'o', 'n', 's']
  | .car => ['c', 'a', 'r']
  | .cdr => ['c', 'd', 'r']

def ofSpelling? (text : List Char) : Option Keyword := all.find? (·.spelling = text)

theorem ofSpelling?_eq_some_iff {text : List Char} {k : Keyword} :
    ofSpelling? text = some k ↔ text = k.spelling := by
  constructor
  · intro h
    have := List.find?_some h
    simp only [decide_eq_true_eq] at this
    exact this.symm
  · rintro rfl
    cases k <;> rfl

end Keyword

namespace Token

inductive Kind where
  | leftParen
  | rightParen
  | comma
  | minus
  | plus
  | semicolon
  | slash
  | star
  | equal
  | equalEqual
  | greater
  | greaterEqual
  | less
  | lessEqual
  | identifier
  | string
  | number
  | keyword (word : Keyword)
  /-- The end of the text. -/
  | eof
deriving DecidableEq

/-- What a token stands for, beyond its spelling. -/
inductive Literal where
  | text (value : String)
  | number (value : Number)
deriving DecidableEq

end Token

structure Token where
  kind : Token.Kind
  lexeme : String
  literal : Option Token.Literal
  pos : Position
deriving DecidableEq

namespace Token

/-- The token that marks the end of a text. -/
def atEnd (pos : Position) : Token := ⟨.eof, "", none, pos⟩

end Token

end LispReader
