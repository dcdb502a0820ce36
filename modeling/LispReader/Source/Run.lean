import LispReader.Grammar.Program
import LispReader.Outline.Program
import LispReader.Source.Listing

/-!
# Running a source

A run scans a source and, unless only its tokens are asked for, parses it. Where anything was
reported, nothing but the reports comes back.
-/

namespace LispReader

structure Options where
  showTokens : Bool
  showTree : Bool

inductive Outcome where
  | tokens (found : List Token)
  | parsed (statements : List Stmt)
  | failed (log : Diagnostic.Log)

def Source.run (options : Options) (source : Source) : Outcome :=
  let (tokens, log) := Diagnostic.Log.empty.scan source.text
  if options.showTokens then
    if log.hasErrors then .failed log else .tokens tokens
  else
    let (statements, log) := log.parse tokens
    if log.hasErrors then .failed log else .parsed statements

namespace Outcome

def succeeded : Outcome → Bool
  | .failed _ => false
  | _ => true

/-- What is shown of an outcome. -/
def output (color : Bool) (options : Options) (source : Source) : Outcome → Output
  | .tokens found =>
    ⟨"tokens: " ++ (Outline.list (found.map Token.outline)).render 0 ++ "\n", ""⟩
  | .parsed statements =>
    if options.showTree then
      ⟨"AST: " ++ (Outline.list (Stmt.outlines statements)).render 0 ++ "\n", ""⟩
    else .empty
  | .failed log => ⟨"", log.listing color source⟩

end Outcome

end LispReader
