import LispReader.Diagnostic
import LispReader.Token.Segment

/-!
# Tokens of a text

The tokens and the lexical faults of a text are read off its segments, each at its position: a
lexeme is a token, a stray character and a string left open are faults, and blanks and comments are
neither.
-/

namespace LispReader

namespace Segment

inductive Fault where
  | unexpectedCharacter
  | unterminatedString
deriving DecidableEq

def Fault.message : Fault → String
  | .unexpectedCharacter => "Unexpected character."
  | .unterminatedString => "Unterminated string."

/-- The segments that stand one after another from `pos` on, each with its own position. -/
def place (pos : Position) : List Segment → List (Position × Segment)
  | [] => []
  | segment :: more => (pos, segment) :: place (pos.advance segment.text) more

/-- The value of a lexeme: a string is what stands between its quotes. -/
def literal (kind : Token.Kind) (text : List Char) : Option Token.Literal :=
  match kind with
  | .string => some (.text (String.ofList text.tail.dropLast))
  | .number => some (.number (.ofNumeral text))
  | _ => none

/-- The token that a segment is. It has the column where it begins and the line where it ends. -/
def token? (pos : Position) : Segment → Option Token
  | .lexeme kind text =>
    some ⟨kind, String.ofList text, literal kind text, ⟨(pos.advance text).line, pos.col⟩⟩
  | _ => none

/-- What is wrong with a segment. An open string is blamed on the end of the text. -/
def fault? (pos : Position) : Segment → Option (Position × Fault)
  | .stray _ => some (pos, .unexpectedCharacter)
  | .openString text => some (pos.advance text, .unterminatedString)
  | _ => none

end Segment

/-- What scanning finds in a text. -/
structure Scan where
  /-- All tokens in order, the last one of kind `eof`. -/
  tokens : List Token
  diagnostics : List Diagnostic
deriving DecidableEq

def Scan.ofText (text : String) : Scan :=
  let segments := Segment.place .start (Segment.ofText text.toList)
  { tokens :=
      segments.filterMap (fun (pos, segment) => segment.token? pos) ++
        [.atEnd (Position.start.advance text.toList)]
    diagnostics :=
      (segments.filterMap fun (pos, segment) => segment.fault? pos).map
        fun (pos, fault) => .ofPosition pos fault.message }

end LispReader
