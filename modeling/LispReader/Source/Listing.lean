import LispReader.Diagnostic
import LispReader.Output
import LispReader.Source.Basic

/-!
# Listings of diagnostics

Each diagnostic is shown with the line it is about and a caret under the column, and all of them are
counted at the end.
-/

namespace LispReader.Diagnostic

def Kind.header : Kind → String
  | .lexical => "lexical error"
  | .syntactic => "parse error"

/-- The line of a position with a caret below it, or nothing where the source has no such line. -/
def excerpt (color : Bool) (source : Source) (pos : Position) : String :=
  match source.line? pos.line with
  | none => ""
  | some line =>
    String.ofList line ++ "\n" ++
      Style.boldBlue.paint color (String.ofList (List.replicate pos.col.toNat '~')) ++
      Style.boldBlue.paint color "^" ++ "\n"

def listing (color : Bool) (source : Source) (d : Diagnostic) : String :=
  "lispi: " ++ Style.boldRed.paint color d.kind.header ++ ": " ++
    Style.boldWhite.paint color d.text ++ "\n" ++
    "in " ++ source.name ++ ", at line " ++ toString d.pos.line ++ ", column " ++
    toString d.pos.col ++ ":\n" ++
    excerpt color source d.pos

/-- The number of errors in words. -/
def countText (count : Nat) (source : Source) : String :=
  toString count ++ (if count = 1 then " error in " else " errors in ") ++ source.name

def Log.listing (color : Bool) (source : Source) (log : Log) : String :=
  String.join (log.entries.map (Diagnostic.listing color source)) ++
    "lispi: " ++ Style.red.paint color (countText log.size source) ++ "\n"

end LispReader.Diagnostic
