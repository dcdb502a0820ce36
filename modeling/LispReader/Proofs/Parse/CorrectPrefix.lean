import LispReader.Proofs.Grammar.Covering
import LispReader.Proofs.Grammar.Lookahead

/-!
# The correct-prefix property

The first fatal report comes neither too early nor too late: what stands before the blamed token
begins a sentence, and what ends with it does not. The exception is nesting, which the grammar does
not limit.
-/

namespace LispReader.Parse

open Grammar Syntax

/-- What stands before the end. -/
def input (tokens : List Token) : List Token := tokens.takeWhile (·.kind ≠ .eof)

/-- All reports in order; `Parse.ofTokens` makes a diagnostic of each. -/
def reports (tokens : List Token) : List Report :=
  let reply := program.run (input tokens)
  reply.reports ++ match reply.result with
    | .ok _ => []
    | .error report => [report]

theorem diagnostics_ofTokens (tokens : List Token) :
    (ofTokens tokens).diagnostics = (reports tokens).map (diagnose (endToken tokens)) := rfl

theorem strict_of_find?_reports {tokens : List Token} {report : Report}
    (h : (reports tokens).find? (·.problem.isFatal) = some report) :
    program.strict (input tokens) = .error report := by
  unfold reports at h
  unfold Rule.strict Reply.strict
  rw [List.find?_append] at h
  cases earlier : (program.run (input tokens)).reports.find? (·.problem.isFatal) with
  | some other =>
    rw [earlier] at h
    exact congrArg Except.error (Option.some.inj h)
  | none =>
    rw [earlier, Option.none_or] at h
    cases result : (program.run (input tokens)).result with
    | ok => simp [result] at h
    | error last =>
      simp only [result, List.find?_singleton, Option.ite_none_right_eq_some, Option.some.injEq] at h
      simp [h.2, Except.map]

theorem strict_of_sentence {tokens : List Token} (h : Sentence tokens) :
    (∃ stmts, program.strict tokens = .ok (stmts, [])) ∨
      ∃ place, program.strict tokens = .error ⟨.nestingTooDeep, place⟩ := by
  obtain ⟨body, decls, rfl⟩ := exists_pieces h
  have reads := reads_program decls
  by_cases within : (body.mapM id).nesting ≤ maxNesting
  · exact .inl ⟨_, by simpa using reads.strict within⟩
  · exact .inr (by simpa using reads.beyond (by omega))

theorem not_sentence_of_strict {tokens : List Token} {report : Report}
    (error : program.strict tokens = .error report) (shallow : report.problem ≠ .nestingTooDeep) :
    ¬ Sentence tokens := by
  intro h
  rcases strict_of_sentence h with ⟨stmts, ok⟩ | ⟨place, deep⟩
  · rw [error] at ok
    cases ok
  · rw [error] at deep
    cases deep
    exact shallow rfl

/-- The blamed token is the first that no sentence has in its place; the end is blamed if a sentence
would go on. -/
theorem blamed_is_first_wrong {tokens : List Token} {report : Report}
    (first : (reports tokens).find? (·.problem.isFatal) = some report)
    (shallow : report.problem ≠ .nestingTooDeep) :
    ∃ read, input tokens = read ++ report.place ∧ (∃ more, Sentence (read ++ more)) ∧
      match report.place with
      | [] => ¬ Sentence read
      | token :: _ => ∀ more, ¬ Sentence (read ++ token :: more) := by
  have error := strict_of_find?_reports first
  obtain ⟨-, read, same, begins⟩ := (follows_program (input tokens)).error error
  refine ⟨read, same, begins shallow, ?_⟩
  rw [same] at error
  obtain ⟨problem, place⟩ := report
  cases place with
  | nil =>
    rw [List.append_nil] at error
    exact not_sentence_of_strict error shallow
  | cons token rest =>
    -- The report depends on no token behind the blamed one.
    intro more
    exact not_sentence_of_strict ((local_program.each read token rest more).2 problem [] error) shallow

/-- After `f(x` a call may go on with a comma or end, but a semicolon is wrong. -/
theorem blamed_is_first_wrong_call : ∃ read,
    input [⟨.identifier, "f", none, ⟨1, 0⟩⟩, ⟨.leftParen, "(", none, ⟨1, 1⟩⟩,
      ⟨.identifier, "x", none, ⟨1, 2⟩⟩, ⟨.semicolon, ";", none, ⟨1, 3⟩⟩] =
        read ++ [⟨.semicolon, ";", none, ⟨1, 3⟩⟩] ∧
      (∃ more, Sentence (read ++ more)) ∧
      ∀ more, ¬ Sentence (read ++ ⟨.semicolon, ";", none, ⟨1, 3⟩⟩ :: more) :=
  @blamed_is_first_wrong _ ⟨.argumentsUnclosed, [⟨.semicolon, ";", none, ⟨1, 3⟩⟩]⟩
    (by decide +kernel) (by decide)

end LispReader.Parse
