import LispReader.Grammar.Statement
import LispReader.Token.Scan
import LispReader.Tree.Equality

/-!
# Programs from tokens

`Parse.ofTokens` reads the statements of a program. It stops at the first token of kind `eof`; where
there is none, the end counts as standing at column 0 of the last token's line. Scanning and parsing
add what they find to a log and never read it.
-/

namespace LispReader

/-- The statements without a fault, and the diagnostics for the others. -/
structure Parse where
  statements : List Stmt
  diagnostics : List Diagnostic
deriving DecidableEq

namespace Parse

/-- The token that ends the input. -/
def endToken (tokens : List Token) : Token :=
  (tokens.find? (·.kind = .eof)).getD
    (.atEnd ⟨(tokens.getLast?.map fun token => token.pos.line).getD 1, 0⟩)

/-- A report as a diagnostic; at the end of the input, `last` is to blame. -/
def diagnose (last : Token) (report : Grammar.Report) : Diagnostic :=
  .ofToken (report.place.head?.getD last) report.problem.message

def ofTokens (tokens : List Token) : Parse :=
  let reply := Grammar.program.run (tokens.takeWhile (·.kind ≠ .eof))
  let reports := reply.reports ++ match reply.result with
    | .ok _ => []
    | .error report => [report]
  ⟨reply.result.toOption.getD [], reports.map (diagnose (endToken tokens))⟩

end Parse

namespace Diagnostic.Log

/-- The tokens of `text`, and the log with its lexical faults. -/
def scan (log : Log) (text : String) : List Token × Log :=
  let scan := Scan.ofText text
  (scan.tokens, log.append scan.diagnostics)

/-- The statements in `tokens`, and the log with their faults. -/
def parse (log : Log) (tokens : List Token) : List Stmt × Log :=
  let parse := Parse.ofTokens tokens
  (parse.statements, log.append parse.diagnostics)

end Diagnostic.Log

end LispReader
