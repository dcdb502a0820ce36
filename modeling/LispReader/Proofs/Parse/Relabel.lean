import LispReader.Proofs.Grammar.Relabel
import LispReader.Proofs.Parse.Append

/-!
# Positions and spellings do not steer the parse

Two inputs whose tokens differ in positions and spellings alone have the same parse, up to the
positions and the spellings in its trees and diagnostics: `Parse.ofTokens_relabel`. An input without
an end is different, as its end takes the line of the last token and column 0.
-/

namespace LispReader.Parse

open Grammar

variable (f : Relabeling)

theorem input_relabel (tokens : List Token) :
    input (tokens.map (·.relabel f)) = (input tokens).map (·.relabel f) := List.takeWhile_map ..

theorem endToken_relabel {tokens : List Token} (ends : ∃ token ∈ tokens, token.kind = .eof) :
    endToken (tokens.map (·.relabel f)) = (endToken tokens).relabel f := by
  have isSome : (tokens.find? (·.kind = .eof)).isSome = true := by
    simpa [List.find?_isSome] using ends
  obtain ⟨last, found⟩ := Option.isSome_iff_exists.mp isSome
  have found' : (tokens.map (·.relabel f)).find? (·.kind = .eof) = some (last.relabel f) := by
    rw [List.find?_map]
    show (tokens.find? (·.kind = .eof)).map _ = _
    rw [found]
    rfl
  unfold endToken
  rw [found, found', Option.getD_some, Option.getD_some]

theorem diagnose_relabel (last : Token) (report : Report) :
    diagnose (last.relabel f) (report.relabel f) = (diagnose last report).relabel f := by
  unfold diagnose
  rw [Diagnostic.relabel_ofToken, Report.relabel, List.head?_map, Option.getD_map]

/-- Relabeling the tokens relabels the parse and changes nothing else. -/
theorem ofTokens_relabel {tokens : List Token} (ends : ∃ token ∈ tokens, token.kind = .eof) :
    ofTokens (tokens.map (·.relabel f)) =
      ⟨(ofTokens tokens).statements.map (·.relabel f),
        (ofTokens tokens).diagnostics.map (·.relabel f)⟩ := by
  obtain ⟨stmts, result⟩ := result_program (input tokens)
  have same := commutes_program f (input tokens)
  rw [← input_relabel] at same
  have result' : (program.run (input (tokens.map (·.relabel f)))).result =
      .ok (stmts.map (Stmt.relabel f)) := by
    rw [same, Reply.relabel, result]
    rfl
  have reports : (program.run (input (tokens.map (·.relabel f)))).reports =
      (program.run (input tokens)).reports.map (·.relabel f) := by
    rw [same, Reply.relabel]
  rw [ofTokens_eq result', ofTokens_eq result, reports, endToken_relabel f ends, List.map_map,
    List.map_map]
  congr 1
  exact List.map_congr_left fun report _ => diagnose_relabel f (endToken tokens) report

/-- The tokens of `f(a + b = "c");)` with their end. -/
def invalidTokens : List Token :=
  [⟨.identifier, "f", none, ⟨1, 0⟩⟩, ⟨.leftParen, "(", none, ⟨1, 1⟩⟩,
    ⟨.identifier, "a", none, ⟨1, 2⟩⟩, ⟨.plus, "+", none, ⟨1, 4⟩⟩,
    ⟨.identifier, "b", none, ⟨1, 6⟩⟩, ⟨.equal, "=", none, ⟨1, 8⟩⟩,
    ⟨.string, "\"c\"", some (.text "c"), ⟨1, 10⟩⟩, ⟨.rightParen, ")", none, ⟨1, 13⟩⟩,
    ⟨.semicolon, ";", none, ⟨1, 14⟩⟩, ⟨.rightParen, ")", none, ⟨1, 15⟩⟩, .atEnd ⟨1, 16⟩]

/-- The tokens may even all be spelled as a keyword and stand in one place. -/
theorem ofTokens_relabel_invalid :
    (∃ token ∈ invalidTokens, token.kind = .eof) ∧
      ofTokens (invalidTokens.map (·.relabel ⟨fun _ => ⟨7, -1⟩, fun _ => "Cond"⟩)) =
        ⟨(ofTokens invalidTokens).statements.map (·.relabel ⟨fun _ => ⟨7, -1⟩, fun _ => "Cond"⟩),
          (ofTokens invalidTokens).diagnostics.map
            (·.relabel ⟨fun _ => ⟨7, -1⟩, fun _ => "Cond"⟩)⟩ := by
  have ends : ∃ token ∈ invalidTokens, token.kind = .eof := by decide
  exact ⟨ends, ofTokens_relabel _ ends⟩

end LispReader.Parse
