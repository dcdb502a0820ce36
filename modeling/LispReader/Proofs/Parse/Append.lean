import LispReader.Proofs.Parse.Exact
import LispReader.Proofs.Scanning.Lossless

/-!
# Inputs put together

Where the grammar takes a front part of the input by itself, the parse of the whole is the parse of
the front followed by that of the rest (`ofTokens_append`). A front without a fault is such a part,
unless an else comes next.
-/

namespace LispReader

namespace Grammar

namespace Rule

variable {α : Type}

theorem run_manyUntil {closes : Token → Bool} {r : Rule (Option α)} {advances : r.Advances}
    {token : Token} {input rest : List Token} {found : Option α} {reports : List Report}
    (continues : closes token = false)
    (round : r.run (token :: input) = ⟨.ok found, reports, rest⟩) :
    (manyUntil closes r advances).run (token :: input) =
      let more := (manyUntil closes r advances).run rest
      ⟨more.result.map (found.toList ++ ·), reports ++ more.reports, more.rest⟩ := by
  show manyUntil.run closes r advances (token :: input) = _
  rw [manyUntil.run]
  simp [continues, round, manyUntil]

theorem result_recovering (r : Rule α) (input : List Token) :
    ∃ found, ((recovering r).run input).result = .ok found := by
  cases result : (r.run input).result with
  | ok a => exact ⟨some a, by simp [recovering, result]⟩
  | error report => exact ⟨none, by simp [recovering, result]⟩

/-- Recovery leaves nothing that would stop a repetition. -/
theorem result_manyUntil {closes : Token → Bool} {r : Rule α} {advances : (recovering r).Advances}
    (input : List Token) :
    ∃ found, ((manyUntil closes (recovering r) advances).run input).result = .ok found := by
  show ∃ found, (manyUntil.run closes (recovering r) advances input).result = .ok found
  fun_induction manyUntil.run closes (recovering r) advances input with
  | case1 => exact ⟨[], rfl⟩
  | case2 => exact ⟨[], rfl⟩
  | case3 token rest _ round report failed =>
    obtain ⟨found, result⟩ := result_recovering r (token :: rest)
    rw [show round.result = .ok found from result] at failed
    cases failed
  | case4 token rest _ round found _ more ih =>
    obtain ⟨later, result⟩ := ih
    exact ⟨found.toList ++ later, by rw [result]; rfl⟩

end Rule

theorem result_program (input : List Token) :
    ∃ stmts, (program.run input).result = .ok stmts := Rule.result_manyUntil input

theorem run_program_nil : program.run [] = ⟨.ok [], [], []⟩ := by
  show Rule.manyUntil.run _ _ _ [] = _
  rw [Rule.manyUntil.run]

theorem run_program_cons {token : Token} {input rest : List Token} {found : Option Stmt}
    {reports : List Report}
    (round : (declaration (nestedWithin maxNesting)).run (token :: input) =
      ⟨.ok found, reports, rest⟩) :
    program.run (token :: input) = ⟨(program.run rest).result.map (found.toList ++ ·),
      reports ++ (program.run rest).reports, (program.run rest).rest⟩ := Rule.run_manyUntil rfl round

end Grammar

namespace Parse

open Grammar

theorem ofTokens_eq {tokens : List Token} {stmts : List Stmt}
    (result : (program.run (input tokens)).result = .ok stmts) :
    ofTokens tokens =
      ⟨stmts, (program.run (input tokens)).reports.map (diagnose (endToken tokens))⟩ := by
  have same : ofTokens tokens = ⟨(program.run (input tokens)).result.toOption.getD [],
    (reports tokens).map (diagnose (endToken tokens))⟩ := rfl
  rw [same, reports, result]
  simp [Except.toOption]

theorem ofTokens_nil : ofTokens [] = ⟨[], []⟩ := by
  have run : program.run (input []) = ⟨.ok [], [], []⟩ := run_program_nil
  rw [ofTokens_of_run run]
  rfl

theorem diagnose_of_placed {report : Report} (placed : report.place ≠ []) (last last' : Token) :
    diagnose last report = diagnose last' report := by
  obtain ⟨token, rest, same⟩ := List.exists_cons_of_ne_nil placed
  simp [diagnose, same]

/-! ### The rest of the input -/

section Append

variable {front back : List Token} (noEnd : ∀ token ∈ front, token.kind ≠ .eof)

include noEnd

theorem input_append : input (front ++ back) = front ++ input back :=
  List.takeWhile_append_of_pos fun token known => decide_eq_true (noEnd token known)

theorem endToken_append (some : back ≠ []) : endToken (front ++ back) = endToken back := by
  have none : front.find? (·.kind = .eof) = none :=
    List.find?_eq_none.mpr fun token known => by simpa using noEnd token known
  rw [endToken, List.find?_append, none, Option.none_or, List.getLast?_append,
    List.getLast?_eq_some_getLast some]
  simp [endToken, List.getLast?_eq_some_getLast some]

/-- The rest of the input is parsed as if nothing stood before it. -/
theorem ofTokens_append {found : List Stmt} {notes : List Report}
    (run : program.run (front ++ input back) = ⟨(program.run (input back)).result.map (found ++ ·),
      notes ++ (program.run (input back)).reports, (program.run (input back)).rest⟩)
    (placed : ∀ report ∈ notes, report.place ≠ []) (last : Token) :
    ofTokens (front ++ back) = ⟨found ++ (ofTokens back).statements,
      notes.map (diagnose last) ++ (ofTokens back).diagnostics⟩ := by
  obtain ⟨stmts, result⟩ := result_program (input back)
  have whole : (program.run (input (front ++ back))).result = .ok (found ++ stmts) := by
    rw [input_append noEnd, run, result]
    rfl
  rw [ofTokens_eq whole, ofTokens_eq result, input_append noEnd, run, List.map_append]
  have notes : notes.map (diagnose (endToken (front ++ back))) = notes.map (diagnose last) :=
    List.map_congr_left fun report known => diagnose_of_placed (placed report known) _ _
  rw [notes]
  -- Where the rest is empty it has no end of its own, but nothing to report either.
  by_cases empty : back = []
  · subst empty
    have silent : (program.run (input [])).reports = [] := congrArg Reply.reports run_program_nil
    rw [silent]
    rfl
  · rw [endToken_append noEnd empty]

theorem input_ended {last : Token} (ends : last.kind = .eof) (rest : List Token) :
    input (front ++ last :: rest) = front := by
  rw [input_append noEnd, input, List.takeWhile_cons_of_neg (by simp [ends]), List.append_nil]

theorem endToken_ended {last : Token} (ends : last.kind = .eof) (rest : List Token) :
    endToken (front ++ last :: rest) = last := by
  rw [endToken_append noEnd (List.cons_ne_nil _ _), endToken, List.find?_cons_of_pos (by simp [ends]),
    Option.getD_some]

end Append

theorem ofTokens_congr {tokens tokens' : List Token} (same : input tokens = input tokens')
    (ends : endToken tokens = endToken tokens') : ofTokens tokens = ofTokens tokens' := by
  obtain ⟨stmts, result⟩ := result_program (input tokens)
  rw [ofTokens_eq result, ofTokens_eq (same ▸ result), same, ends]

/-! ### A front without a fault -/

end Parse

namespace Grammar

theorem noElse_flatMap {body : List (Piece Stmt)} (pieces : ∀ p ∈ body, DeclPiece p)
    {rest : List Token} (noElse : NoElse rest) : NoElse (body.flatMap Piece.tokens ++ rest) := by
  cases body with
  | nil => exact noElse
  | cons p body =>
    obtain ⟨token, more, tokens, -, notElse⟩ := (pieces p (List.mem_cons_self ..)).opens
    rw [List.flatMap_cons, tokens]
    exact noElse_cons notElse _

theorem run_program_pieces {body : List (Piece Stmt)} (pieces : ∀ p ∈ body, DeclPiece p)
    (shallow : ∀ p ∈ body, p.nesting ≤ maxNesting) (clean : ∀ p ∈ body, p.notes = [])
    {rest : List Token} (noElse : NoElse rest) : program.run (body.flatMap Piece.tokens ++ rest) =
      ⟨(program.run rest).result.map (body.map Piece.value ++ ·), (program.run rest).reports,
        (program.run rest).rest⟩ := by
  obtain ⟨stmts, result⟩ := result_program rest
  induction body with
  | nil =>
    have same : (program.run rest).result.map (([] : List Stmt) ++ ·) = (program.run rest).result := by
      rw [result]
      rfl
    rw [List.map_nil, same]
    rfl
  | cons p body ih =>
    obtain ⟨piece, pieces⟩ := List.forall_mem_cons.mp pieces
    obtain ⟨within, shallow⟩ := List.forall_mem_cons.mp shallow
    obtain ⟨silent, clean⟩ := List.forall_mem_cons.mp clean
    have follows := noElse_flatMap pieces noElse
    have reads := Rule.reads_recovering (reads_declPiece piece maxNesting _ follows)
    have round := reads.within (by simpa using within)
    obtain ⟨token, more, tokens, -⟩ := piece.opens
    simp only [Piece.tokens_map, tokens, List.cons_append] at round
    rw [List.flatMap_cons, tokens, List.append_assoc, List.cons_append, run_program_cons round,
      ih pieces shallow clean, result]
    simp [Except.map, silent]

end Grammar

namespace Parse

open Grammar Syntax

/-- The pieces that an input without a fault is made of. -/
theorem exists_body_of_clean {tokens : List Token} (clean : (ofTokens tokens).diagnostics = []) :
    ∃ body : List (Piece Stmt), (∀ p ∈ body, DeclPiece p) ∧ (∀ p ∈ body, p.nesting ≤ maxNesting) ∧
      (∀ p ∈ body, p.notes = []) ∧ body.flatMap Piece.tokens = input tokens ∧
      body.map Piece.value = (ofTokens tokens).statements := by
  obtain ⟨body, pieces, whole⟩ := exists_pieces (sentence_of_clean clean)
  rw [diagnostics_ofTokens, List.map_eq_nil_iff] at clean
  obtain ⟨stmts, run⟩ := run_of_reports clean
  have reads := reads_program pieces
  have shallow : (body.mapM id).nesting ≤ maxNesting := by
    refine Nat.le_of_not_lt fun deep => ?_
    obtain ⟨place, error⟩ := reads.beyond deep
    rw [List.append_nil, whole, Rule.strict_of_run run (by simp)] at error
    cases error
  have again := reads.within shallow
  rw [List.append_nil, whole, run, Piece.value_mapM_id] at again
  obtain ⟨values, notes⟩ : stmts = body.map Piece.value ∧ (body.mapM id).notes = [] := by
    simpa using again
  rw [Piece.nesting_mapM_id] at shallow
  refine ⟨body, pieces, fun p known => Nat.le_trans (nesting_le_deepest known) shallow, ?_, ?_, ?_⟩
  · exact (Piece.notes_mapM_id_eq_nil_iff body).mp notes
  · rw [← whole, Piece.tokens_mapM_id]
  · rw [ofTokens_of_run run, values]

/-- Without a diagnostic no token is left out of the statements. -/
theorem written_of_clean {tokens : List Token} (clean : (ofTokens tokens).diagnostics = []) :
    Stmt.AllWritten (ofTokens tokens).statements (input tokens) := by
  obtain ⟨body, pieces, -, silent, whole, values⟩ := exists_body_of_clean clean
  have faithful (p : Piece Stmt) (known : p ∈ body) : FaithfulStmt p.value p.tokens p.nesting :=
    (pieces p known).faithful (silent p known)
  refine ⟨body.map Piece.written, ?_, ?_, allWritten_of_faithful faithful⟩
  · rw [← values, List.map_map]
    rfl
  · rw [← whole, List.flatMap_map]
    rfl

/-- What stands behind an input without a fault is parsed as if it stood alone, unless it begins with
an else. -/
theorem ofTokens_append_of_clean {front back : List Token}
    (noEnd : ∀ token ∈ front, token.kind ≠ .eof) (clean : (ofTokens front).diagnostics = []) (noElse : NoElse back) :
    ofTokens (front ++ back) =
      ⟨(ofTokens front).statements ++ (ofTokens back).statements, (ofTokens back).diagnostics⟩ := by
  obtain ⟨body, pieces, shallow, silent, tokens, values⟩ := exists_body_of_clean clean
  have whole : input front = front := by simpa [input] using @input_append front [] noEnd
  have noElse : NoElse (input back) := by
    intro token first
    refine noElse token ?_
    cases back with
    | nil => simp [input] at first
    | cons next back =>
      by_cases ends : next.kind = .eof
      · simp [input, ends] at first
      · simpa [input, ends] using first
  have run := run_program_pieces pieces shallow silent noElse
  rw [tokens, whole, values] at run
  exact @ofTokens_append front back noEnd _ [] run (by simp) (endToken front)

theorem ofTokens_append_of_clean_malformed :
    (ofTokens assignmentTokens).diagnostics = [] ∧
      ofTokens (assignmentTokens ++ [⟨.rightParen, ")", none, ⟨2, 0⟩⟩]) =
        ⟨(ofTokens assignmentTokens).statements ++
            (ofTokens [⟨.rightParen, ")", none, ⟨2, 0⟩⟩]).statements,
          (ofTokens [⟨.rightParen, ")", none, ⟨2, 0⟩⟩]).diagnostics⟩ := by
  have clean : (ofTokens assignmentTokens).diagnostics = [] := by decide +kernel
  exact ⟨clean, ofTokens_append_of_clean (by decide) clean (noElse_cons (by decide) [])⟩

end Parse

/-- The end comes last in what scanning finds, and parsing takes all that stands before it. -/
theorem Scan.exists_input (text : String) :
    ∃ last, (ofText text).tokens = Parse.input (ofText text).tokens ++ [.atEnd last] := by
  have noEnd := (Segment.lexemes_of_splits (Segment.splits_ofText text.toList) .start).2
  refine ⟨Position.start.advance text.toList, ?_⟩
  rw [ofText, Parse.input_ended noEnd rfl]

end LispReader
