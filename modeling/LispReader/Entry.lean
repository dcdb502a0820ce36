import LispReader.Text.Blank
import LispReader.Text.Lines
import LispReader.Token.Segment

/-!
# Entries

Typed input is read in entries of one or more lines. A line that leaves a parenthesis or a string
open is continued by the next one; a blank line ends the entry in any case. Lines keep their ends
and are joined by one more newline.
-/

namespace LispReader.Entry

def isOpenString : Segment → Bool
  | .openString _ => true
  | _ => false

def isMark (kind : Token.Kind) : Segment → Bool
  | .lexeme k _ => k = kind
  | _ => false

/-- Could more input close what the text has opened? A string that does not end, or more opening
than closing parentheses. -/
def isOpen (text : List Char) : Bool :=
  let segments := Segment.ofText text
  segments.any isOpenString ||
    segments.countP (isMark .rightParen) < segments.countP (isMark .leftParen)

/-- The lines read so far with one more. -/
def extend (pending line : List Char) : List Char :=
  if pending.isEmpty then line else pending ++ '\n' :: line

/-- Does `line` end the entry that it makes of the pending lines? -/
def endsWith (pending line : List Char) : Bool :=
  Text.isBlank line || !isOpen (extend pending line)

/-- The entries that a list of lines makes together with the pending ones. The last one may be cut
off by the end of the input. -/
def ofLines (pending : List Char) : List (List Char) → List (List Char)
  | [] => if pending.isEmpty then [] else [pending]
  | line :: lines =>
    if endsWith pending line then extend pending line :: ofLines [] lines
    else ofLines (extend pending line) lines

def ofText (text : List Char) : List (List Char) := ofLines [] (Text.lines text)

end LispReader.Entry
