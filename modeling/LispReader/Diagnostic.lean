import LispReader.Token.Basic

/-!
# Diagnostics

What is wrong with a text, and where: a lexical fault blames a position, a syntactic one a token.
`Diagnostic.Log` collects diagnostics in the order in which they are found; reporting only appends.
-/

namespace LispReader

namespace Diagnostic

inductive Kind where
  | lexical
  | syntactic
deriving DecidableEq

/-- What a diagnostic names besides its line. -/
inductive Place where
  | line
  | atEnd
  | atLexeme (lexeme : String)
deriving DecidableEq

end Diagnostic

structure Diagnostic where
  kind : Diagnostic.Kind
  pos : Position
  place : Diagnostic.Place
  message : String
deriving DecidableEq

namespace Diagnostic

def ofPosition (pos : Position) (message : String) : Diagnostic := ⟨.lexical, pos, .line, message⟩

def ofToken (token : Token) (message : String) : Diagnostic :=
  ⟨.syntactic, token.pos, if token.kind = .eof then .atEnd else .atLexeme token.lexeme, message⟩

/-- The place as it stands after the word "Error". -/
def Place.text : Place → String
  | .line => ""
  | .atEnd => " at end"
  | .atLexeme lexeme => " at '" ++ lexeme ++ "'"

def text (d : Diagnostic) : String :=
  "[line " ++ toString d.pos.line ++ "] Error" ++ d.place.text ++ ": " ++ d.message

/-- Diagnostics in the order of their finding. -/
structure Log where
  entries : List Diagnostic
deriving DecidableEq

namespace Log

def empty : Log := ⟨[]⟩

/-- Adds `found` after all that is there. -/
def append (log : Log) (found : List Diagnostic) : Log := ⟨log.entries ++ found⟩

def reportPosition (log : Log) (pos : Position) (message : String) : Log :=
  log.append [.ofPosition pos message]

def reportToken (log : Log) (token : Token) (message : String) : Log :=
  log.append [.ofToken token message]

def size (log : Log) : Nat := log.entries.length

def hasErrors (log : Log) : Bool := !log.entries.isEmpty

def last? (log : Log) : Option Diagnostic := log.entries.getLast?

end Log

end Diagnostic

end LispReader
