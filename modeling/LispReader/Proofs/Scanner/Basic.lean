import LispReader.Token.Scan

/-!
# Scanning in place

The tokens of a text, found without taking the text apart: a `Scanner` keeps the offset of the next
character and counts lines and columns on the way, and it goes back where a quote begins no keyword.
Nothing protects it. To read beyond the end of the text and to cut out a piece that is not there are
slips, and so is a loop that has more rounds than the text has characters.
-/

namespace LispReader

open Segment

structure Scanner where
  text : List Char
  /-- The offset and the column where the piece begins that is being read. -/
  start : Nat
  startCol : Int
  /-- The offset and the position of the next character. -/
  current : Nat
  pos : Position
  tokens : List Token
  diagnostics : List Diagnostic

namespace Scanner

/-- What must not happen. -/
inductive Slip where
  | noCharacter
  | noPiece
  | endless

/-- Before the first character of a text. -/
def before (text : String) : Scanner := ⟨text.toList, 0, 0, 0, .start, [], []⟩

end Scanner

abbrev Scanning := StateT Scanner (Except Scanner.Slip)

namespace Scanning

/-- The next character, or a null character at the end. -/
def peek : Scanning Char := do
  let s ← get
  return s.text[s.current]?.getD '\x00'

def peekNext : Scanning Char := do
  let s ← get
  return s.text[s.current + 1]?.getD '\x00'

def done : Scanning Bool := do
  let s ← get
  return s.text.length ≤ s.current

/-- Reads a character as one that begins no line. -/
def advance : Scanning Char := do
  let s ← get
  match s.text[s.current]? with
  | none => throw .noCharacter
  | some c =>
    set { s with current := s.current + 1, pos := ⟨s.pos.line, s.pos.col + 1⟩ }
    return c

def newline : Scanning Unit := modify fun s => { s with pos := ⟨s.pos.line + 1, 0⟩ }

/-- Reads the next character if it is `c`. -/
def accept (c : Char) : Scanning Bool := do
  if ← done then return false
  else if (← peek) ≠ c then return false
  else
    let _ ← advance
    return true

def slice (low high : Nat) : Scanning (List Char) := do
  let s ← get
  if low ≤ high ∧ high ≤ s.text.length then return (s.text.drop low).take (high - low)
  else throw .noPiece

/-- What has been read since the start of the piece. -/
def piece : Scanning (List Char) := do
  let s ← get
  slice s.start s.current

def addToken (kind : Token.Kind) (literal : Option Token.Literal) : Scanning Unit := do
  let text ← piece
  modify fun s => { s with
    tokens := s.tokens ++ [⟨kind, String.ofList text, literal, ⟨s.pos.line, s.startCol⟩⟩] }

def report (pos : Position) (message : String) : Scanning Unit :=
  modify fun s => { s with diagnostics := s.diagnostics ++ [.ofPosition pos message] }

def reportStart (message : String) : Scanning Unit := do
  let s ← get
  report ⟨s.pos.line, s.startCol⟩ message

/-- Repeats `body` as long as `test` says so. -/
def loop (test : Scanning Bool) (body : Scanning Unit) : Nat → Scanning Unit
  | 0 => throw .endless
  | rounds + 1 => do
    if ← test then
      body
      loop test body rounds

def repeating (test : Scanning Bool) (body : Scanning Unit) : Scanning Unit := do
  let s ← get
  loop test body (s.text.length + 1)

/-- Reads on while the next character is of a kind. At the end, the null character is no reason to. -/
def skipWhile (p : Char → Bool) : Scanning Unit :=
  repeating (do return p (← peek)) (do let _ ← advance)

/-- Reads on up to a character that ends the piece, or to the end of the text. -/
def skipUntil (stop : Char) (body : Scanning Unit) : Scanning Unit :=
  repeating (do return (← peek) ≠ stop && !(← done)) body

def comment : Scanning Unit := skipUntil '\n' (do let _ ← advance)

def identifier : Scanning Unit := do
  skipWhile isWordChar
  addToken (wordKind (← piece)) none

/-- A quote is part of a keyword or stands alone: then what was read behind it is read again. -/
def quotedKeyword : Scanning Unit := do
  let saved ← get
  if isLetter (← peek) then
    skipWhile isWordChar
    match Keyword.ofSpelling? (← piece) with
    | some k => addToken (.keyword k) none
    | none =>
      modify fun s => { s with current := saved.current, pos := ⟨s.pos.line, saved.pos.col⟩ }
      reportStart "Unexpected character."
  else reportStart "Unexpected character."

/-- The value of digits, or of digits with a point among them. -/
def parseNumber? : List Char → Option Number
  | [] => none
  | c :: rest => if isDigit c ∧ numeral c rest = c :: rest then some (.ofNumeral (c :: rest)) else none

/-- A point counts only with a digit after it. -/
def point : Scanning Unit := do
  if (← peek) = '.' ∧ isDigit (← peekNext) then
    let _ ← advance

def readNumeral : Scanning Unit := do
  skipWhile isDigit
  point
  skipWhile isDigit

def number : Scanning Unit := do
  readNumeral
  let text ← piece
  match parseNumber? text with
  | some value => addToken .number (some (.number value))
  | none => reportStart ("Invalid number literal " ++ String.ofList text ++ ": invalid float literal.")

def string : Scanning Unit := do
  skipUntil '"' (do if (← advance) = '\n' then newline)
  if ← done then
    let s ← get
    report s.pos "Unterminated string."
  else
    let _ ← advance
    let s ← get
    let value ← slice (s.start + 1) (s.current - 1)
    addToken .string (some (.text (String.ofList value)))

/-- Reads what the next character begins. -/
def scanToken : Scanning Unit := do
  let c ← advance
  match Opening.ofChar c with
  | .blank => if c = '\n' then newline
  | .mark kind => addToken kind none
  | .relation alone joined => if ← accept '=' then addToken joined none else addToken alone none
  | .slash => if ← accept '/' then comment else addToken .slash none
  | .doubleQuote => string
  | .quote => quotedKeyword
  | .digit => number
  | .letter => identifier
  | .nothing => reportStart "Unexpected character."

def begin : Scanning Unit := modify fun s => { s with start := s.current, startCol := s.pos.col }

def scanTokens : Scanning Unit := do
  repeating (do return !(← done)) (do begin; scanToken)
  modify fun s => { s with tokens := s.tokens ++ [.atEnd s.pos] }

end Scanning

end LispReader
