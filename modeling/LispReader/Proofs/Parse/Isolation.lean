import LispReader.Proofs.Grammar.Barrier
import LispReader.Proofs.Parse.Append

/-!
# A semicolon ends what is wrong

Whatever is wrong with tokens that begin no condition and no definition, the damage ends with the next
semicolon: expressions stop before it at the latest, and recovery resumes behind it.
-/

namespace LispReader

namespace Grammar

open Rule

/-- No token ends a statement or the text, and nothing opens a condition or a definition. -/
structure Plain (tokens : List Token) : Prop where
  kinds : ∀ token ∈ tokens, token.kind ≠ .semicolon ∧ token.kind ≠ .keyword .cond ∧ token.kind ≠ .eof
  pairs : ∀ a b, [a, b] <:+: tokens → a.kind = .leftParen → b.kind ≠ .keyword .define

theorem Plain.suffix {tokens kept : List Token} (h : Plain tokens) (suffix : kept <:+ tokens) :
    Plain kept :=
  ⟨fun token known => h.kinds token (suffix.mem known),
    fun a b pair => h.pairs a b (pair.trans suffix.isInfix)⟩

variable {semicolon : Token} {tokens : List Token}

theorem Plain.not_opensDefinition (h : Plain tokens) (ends : semicolon.kind = .semicolon)
    (rest : List Token) : opensDefinition (tokens ++ semicolon :: rest) = false := by
  match tokens, h with
  | [], _ => cases rest <;> simp [opensDefinition, ends]
  | [_], _ => simp [opensDefinition, ends]
  | a :: b :: more, h =>
    have := h.pairs a b ⟨[], more, rfl⟩
    simpa [opensDefinition] using this

theorem Plain.not_opensDeclaration (h : Plain tokens) (ends : semicolon.kind = .semicolon)
    (rest : List Token) : opensDeclaration (tokens ++ semicolon :: rest) = false := by
  match tokens, h with
  | [], _ => cases rest <;> simp [opensDeclaration, ends]
  | [_], h => simp [opensDeclaration, ends, h.kinds]
  | a :: b :: more, h =>
    have := h.pairs a b ⟨[], more, rfl⟩
    simpa [opensDeclaration, h.kinds] using this

theorem resume_plain (h : Plain tokens) (ends : semicolon.kind = .semicolon) (rest : List Token) :
    resume (tokens ++ semicolon :: rest) = rest := by
  induction tokens with
  | nil => simp [resume, ends]
  | cons token tokens ih =>
    have more : Plain tokens := h.suffix (List.suffix_cons _ _)
    rw [List.cons_append, resume, more.not_opensDeclaration ends rest]
    simpa [h.kinds] using ih more

def closeStatement (value : Expr) : Rule Stmt := do
  let _ ← expect .semicolon .semicolonMissing
  pure (.expr value)

theorem exprStatement_eq (nested : Nested) :
    exprStatement nested = expression nested >>= closeStatement := rfl

theorem run_closeStatement (value : Expr) (token : Token) (rest : List Token) :
    (closeStatement value).run (token :: rest) =
      if token.kind = .semicolon then ⟨.ok (.expr value), [], rest⟩
      else ⟨.error ⟨.semicolonMissing, token :: rest⟩, [], token :: rest⟩ := by
  rw [closeStatement, run_bind, expect, run_bind]
  by_cases same : token.kind = .semicolon <;>
    simp [accept, ofKind, same, Reply.andThen, ahead, stop]

/-- A rule that stops at the semicolon or before it is resumed behind it. -/
theorem run_recovering_of_error {α : Type} {r : Rule α} {report : Report} {reports : List Report}
    {kept rest : List Token} (plain : Plain kept) (ends : semicolon.kind = .semicolon)
    (stopped : r.run (tokens ++ semicolon :: rest) =
      Reply.before (semicolon :: rest) ⟨.error report, reports, kept⟩) :
    (recovering r).run (tokens ++ semicolon :: rest) =
      ⟨.ok none, (reports ++ [report]).map (·.before (semicolon :: rest)), rest⟩ := by
  have stopped : r.run (tokens ++ semicolon :: rest) =
      ⟨.error (report.before (semicolon :: rest)), reports.map (·.before (semicolon :: rest)),
        kept ++ semicolon :: rest⟩ := stopped
  simp [recovering, stopped, resume_plain plain ends]

theorem run_recovering_exprStatement (plain : Plain tokens) (ends : semicolon.kind = .semicolon)
    (levels : Nat) : ∃ (found : Option Stmt) (reports : List Report), ∀ rest,
      (recovering (exprStatement (nestedWithin levels))).run (tokens ++ semicolon :: rest) =
        ⟨.ok found, reports.map (·.before (semicolon :: rest)), rest⟩ := by
  obtain ⟨reply, same⟩ := halts_expression ends (halts_nestedWithin ends levels) tokens
  have kept : Plain reply.rest := plain.suffix (suffix_of_halts same)
  cases result : reply.result with
  | error report =>
    refine ⟨none, reply.reports ++ [report], fun rest => run_recovering_of_error kept ends ?_⟩
    rw [exprStatement_eq, run_bind, same, Reply.andThen_before_of_error _ _ result]
  | ok value =>
    have run (rest : List Token) := Reply.andThen_before_of_ok (fun value => (closeStatement value).run)
      (semicolon :: rest) result
    cases left : reply.rest with
    | nil =>
      refine ⟨some (.expr value), reply.reports, fun rest => ?_⟩
      have whole : (exprStatement (nestedWithin levels)).run (tokens ++ semicolon :: rest) =
          ⟨.ok (.expr value), reply.reports.map (·.before (semicolon :: rest)), rest⟩ := by
        rw [exprStatement_eq, run_bind, same, run, left, List.nil_append, run_closeStatement,
          if_pos ends, List.append_nil]
      simp [recovering, whole]
    | cons token more =>
      -- The expression ended too early, so the token behind it is blamed.
      rw [left] at kept
      have other : token.kind ≠ .semicolon := (kept.kinds token (List.mem_cons_self ..)).1
      refine ⟨none, reply.reports ++ [⟨.semicolonMissing, token :: more⟩], fun rest => ?_⟩
      apply run_recovering_of_error kept ends
      rw [exprStatement_eq, run_bind, same, run, left, List.cons_append, run_closeStatement,
        if_neg other, List.append_nil]
      rfl

theorem run_statement_of_not_cond {input : List Token}
    (other : ∀ token ∈ input.head?, token.kind ≠ .keyword .cond) (nested : Nested) :
    (statement nested).run input = (exprStatement nested).run input := by
  have none : (accept (ofKind (.keyword .cond))).run input = ⟨.ok none, [], input⟩ := by
    cases input with
    | nil => rfl
    | cons token rest =>
      have other := other token rfl
      simp [accept, ofKind, other]
  rw [statement, run_bind, none]
  simp [Reply.andThen]

theorem run_declaration_plain (plain : Plain tokens) (ends : semicolon.kind = .semicolon)
    (levels : Nat) : ∃ (found : Option Stmt) (reports : List Report), ∀ rest,
      (declaration (nestedWithin levels)).run (tokens ++ semicolon :: rest) =
        ⟨.ok found, reports.map (·.before (semicolon :: rest)), rest⟩ := by
  obtain ⟨found, reports, run⟩ := run_recovering_exprStatement plain ends levels
  refine ⟨found, reports, fun rest => ?_⟩
  have notCond : ∀ token ∈ (tokens ++ semicolon :: rest).head?, token.kind ≠ .keyword .cond := by
    cases tokens with
    | nil => simp [ends]
    | cons token tokens => simpa using (plain.kinds token (List.mem_cons_self ..)).2.1
  have same := (run_statement (plain.not_opensDefinition ends rest) (nestedWithin levels)).trans
    (run_statement_of_not_cond notCond _)
  rw [← run rest]
  simp only [declaration, recovering, same]

/-- The first statement ends with the semicolon, and its reports are blamed on tokens up to there. -/
theorem run_program_plain (plain : Plain tokens) (ends : semicolon.kind = .semicolon) :
    ∃ (found : List Stmt) (reports : List Report), ∀ rest,
      program.run (tokens ++ semicolon :: rest) = ⟨(program.run rest).result.map (found ++ ·),
        reports.map (·.before (semicolon :: rest)) ++ (program.run rest).reports,
        (program.run rest).rest⟩ := by
  obtain ⟨found, reports, run⟩ := run_declaration_plain plain ends maxNesting
  refine ⟨found.toList, reports, fun rest => ?_⟩
  have round := run rest
  cases tokens with
  | nil => exact run_program_cons round
  | cons token tokens => exact run_program_cons round

end Grammar

namespace Parse

open Grammar

theorem diagnose_before (report : Report) (token : Token) (rest rest' : List Token) (last : Token) :
    diagnose last (report.before (token :: rest)) =
      diagnose last (report.before (token :: rest')) := by
  cases place : report.place <;> simp [diagnose, Report.before, place]

/-- What is parsed up to the semicolon and what is parsed behind it have nothing to do with each
other. -/
theorem ofTokens_semicolon {front : List Token} {semicolon : Token} (plain : Plain front)
    (ends : semicolon.kind = .semicolon) (back : List Token) :
    ofTokens (front ++ semicolon :: back) =
      ⟨(ofTokens (front ++ [semicolon])).statements ++ (ofTokens back).statements,
        (ofTokens (front ++ [semicolon])).diagnostics ++ (ofTokens back).diagnostics⟩ := by
  obtain ⟨found, reports, run⟩ := run_program_plain plain ends
  have noEnd : ∀ token ∈ front ++ [semicolon], token.kind ≠ .eof := by
    refine List.forall_mem_append.mpr ⟨fun token known => (plain.kinds token known).2.2, ?_⟩
    simp [ends]
  have parse (back : List Token) : ofTokens (front ++ semicolon :: back) =
      ⟨found ++ (ofTokens back).statements,
        (reports.map (·.before [semicolon])).map (diagnose semicolon) ++
          (ofTokens back).diagnostics⟩ := by
    have whole := run (input back)
    rw [List.append_cons] at whole ⊢
    have placed : ∀ report ∈ reports.map (·.before (semicolon :: input back)), report.place ≠ [] := by
      rw [List.forall_mem_map]
      simp [Report.before]
    rw [ofTokens_append noEnd whole placed semicolon, List.map_map, List.map_map]
    congr 2
    exact List.map_congr_left fun report _ => diagnose_before report semicolon _ _ semicolon
  rw [parse back, parse [], ofTokens_nil, List.append_nil, List.append_nil]

/-- The tokens of `)f(`, which are wrong from the first one on. -/
def malformedTokens : List Token :=
  [⟨.rightParen, ")", none, ⟨1, 0⟩⟩, ⟨.identifier, "f", none, ⟨1, 1⟩⟩,
    ⟨.leftParen, "(", none, ⟨1, 2⟩⟩]

theorem ofTokens_semicolon_malformed :
    Plain malformedTokens ∧
      ofTokens (malformedTokens ++ ⟨.semicolon, ";", none, ⟨1, 3⟩⟩ :: assignmentTokens) =
        ⟨(ofTokens (malformedTokens ++ [⟨.semicolon, ";", none, ⟨1, 3⟩⟩])).statements ++
            (ofTokens assignmentTokens).statements,
          (ofTokens (malformedTokens ++ [⟨.semicolon, ";", none, ⟨1, 3⟩⟩])).diagnostics ++
            (ofTokens assignmentTokens).diagnostics⟩ := by
  have plain : Plain malformedTokens := by
    refine ⟨by decide, fun a b pair => ?_⟩
    simp only [malformedTokens, List.infix_cons_iff, List.cons_prefix_cons] at pair
    rcases pair with ⟨rfl, rfl, -⟩ | ⟨rfl, rfl, -⟩ | pair
    · simp
    · simp
    · simp at pair
  exact ⟨plain, ofTokens_semicolon plain rfl assignmentTokens⟩

end Parse

end LispReader
