import LispReader.Entry
import LispReader.Source.Run

/-!
# Sessions

A session runs every entry of its input that is not blank, each on its own, and always shows trees.
-/

namespace LispReader.Session

def banner : String :=
  "===========================================\n" ++
  "Welcome to lispi! Each entry is scanned and\n" ++
  "parsed on its own; an open paren continues\n" ++
  "on the next line. Ctrl-D quits.\n" ++
  "===========================================\n\n"

/-- What an entry shows; nothing if it is blank. -/
def respond (color showTokens : Bool) (entry : List Char) : Output :=
  if Text.isBlank entry then .empty
  else
    let options : Options := ⟨showTokens, true⟩
    let source := Source.prompt (String.ofList entry)
    (source.run options).output color options source

/-- All that a session shows for its input. -/
def transcript (color showTokens : Bool) (input : String) : Output :=
  ⟨banner, ""⟩ ++ .concat ((Entry.ofText input.toList).map (respond color showTokens))

end LispReader.Session
