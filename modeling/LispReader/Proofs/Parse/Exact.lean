import LispReader.Proofs.Grammar.Unread
import LispReader.Proofs.Parse.CorrectPrefix

/-!
# Parsing is exact

A parse without a diagnostic has read a sentence, and its statements are the tree of that sentence;
conversely the tree of whatever is written out is read back. Both directions go through the pieces
that the sentence is made of.
-/

namespace LispReader

/-! ### No sentence contains the end -/

namespace Syntax

/-- Does no token in the phrase itself have this kind? -/
def Phrase.avoids (kind : Token.Kind) : Phrase → Bool
  | .token kinds => kind ∉ kinds
  | .rule _ | .empty => true
  | .seq first second | .alt first second => first.avoids kind && second.avoids kind
  | .many part => part.avoids kind

theorem Nonterminal.avoids_eof (name : Nonterminal) : name.phrase.avoids .eof = true := by
  cases name <;> rfl

theorem Derives.ne_eof {phrase : Phrase} {tokens : List Token} (h : Derives phrase tokens)
    (avoids : phrase.avoids .eof = true) : ∀ token ∈ tokens, token.kind ≠ .eof := by
  induction h with
  | token known =>
    rw [Phrase.avoids, decide_eq_true_eq] at avoids
    rw [List.forall_mem_singleton]
    exact fun same => avoids (same ▸ known)
  | @rule name _ _ ih => exact ih name.avoids_eof
  | empty => simp
  | seq _ _ ih₁ ih₂ =>
    rw [Phrase.avoids, Bool.and_eq_true] at avoids
    exact List.forall_mem_append.mpr ⟨ih₁ avoids.1, ih₂ avoids.2⟩
  | left _ ih => exact ih (Bool.and_eq_true_iff.mp avoids).1
  | right _ ih => exact ih (Bool.and_eq_true_iff.mp avoids).2
  | manyNil => simp
  | manyCons _ _ ih₁ ih₂ => exact List.forall_mem_append.mpr ⟨ih₁ avoids, ih₂ avoids⟩

end Syntax

/-! ### Reading to the end -/

namespace Grammar

theorem Rule.rest_manyUntil {α : Type} {closes : Token → Bool} {r : Rule (Option α)}
    {advances : r.Advances} {input : List Token} {found : List α}
    (ok : ((manyUntil closes r advances).run input).result = .ok found) :
    ∀ token ∈ ((manyUntil closes r advances).run input).rest.head?, closes token = true := by
  change (manyUntil.run closes r advances input).result = _ at ok
  show ∀ token ∈ (manyUntil.run closes r advances input).rest.head?, _
  fun_induction manyUntil.run closes r advances input generalizing found with
  | case1 => simp
  | case2 token rest closed => simpa using closed
  | case3 => cases ok
  | case4 token rest _ round _ _ more =>
    rename_i ih
    cases result : more.result with
    | error => simp [result, Except.map] at ok
    | ok later => exact ih result

theorem rest_program {input : List Token} {stmts : List Stmt}
    (ok : (program.run input).result = .ok stmts) : (program.run input).rest = [] := by
  have closed : ∀ token ∈ (program.run input).rest.head?, false = true := Rule.rest_manyUntil ok
  cases left : (program.run input).rest with
  | nil => rfl
  | cons token _ => exact absurd (closed token (by simp [left])) Bool.false_ne_true

theorem run_program {body : List (Piece Stmt)} (pieces : ∀ p ∈ body, DeclPiece p)
    (shallow : Piece.deepest body ≤ maxNesting) : program.run (body.flatMap Piece.tokens) =
      ⟨.ok (body.map Piece.value), (body.mapM id).notes, []⟩ := by
  have := (reads_program pieces).within (by rwa [Piece.nesting_mapM_id])
  simpa [Piece.value_mapM_id] using this

theorem nesting_le_deepest {p : Piece Stmt} {body : List (Piece Stmt)} (known : p ∈ body) :
    p.nesting ≤ Piece.deepest body := by
  induction body with
  | nil => cases known
  | cons q body ih =>
    show _ ≤ max q.nesting (Piece.deepest body)
    rcases List.mem_cons.mp known with rfl | known
    · exact Nat.le_max_left _ _
    · exact Nat.le_trans (ih known) (Nat.le_max_right _ _)

theorem deepest_le {body : List (Piece Stmt)} {levels : Nat} (h : ∀ p ∈ body, p.nesting ≤ levels) :
    Piece.deepest body ≤ levels := by
  induction body with
  | nil => exact Nat.zero_le _
  | cons q body ih =>
    obtain ⟨first, more⟩ := List.forall_mem_cons.mp h
    exact Nat.max_le.mpr ⟨first, ih more⟩

end Grammar

namespace Parse

open Grammar Syntax

theorem ofTokens_of_run {tokens : List Token} {stmts : List Stmt} {notes : List Report}
    (run : program.run (input tokens) = ⟨.ok stmts, notes, []⟩) :
    ofTokens tokens = ⟨stmts, notes.map (diagnose (endToken tokens))⟩ := by
  have same : ofTokens tokens = ⟨(program.run (input tokens)).result.toOption.getD [],
    (reports tokens).map (diagnose (endToken tokens))⟩ := rfl
  rw [same, reports, run]
  simp [Except.toOption]

theorem run_of_reports {tokens : List Token} (clean : reports tokens = []) :
    ∃ stmts, program.run (input tokens) = ⟨.ok stmts, [], []⟩ := by
  unfold reports at clean
  obtain ⟨none, last⟩ := List.append_eq_nil_iff.mp clean
  cases result : (program.run (input tokens)).result with
  | error report => simp [result] at last
  | ok stmts =>
    have rest : (program.run (input tokens)).rest = [] := rest_program result
    exact ⟨stmts, by rw [← result, ← none, ← rest]⟩

theorem sentence_of_clean {tokens : List Token} (clean : (ofTokens tokens).diagnostics = []) :
    Sentence (input tokens) := by
  rw [diagnostics_ofTokens, List.map_eq_nil_iff] at clean
  obtain ⟨stmts, run⟩ := run_of_reports clean
  obtain ⟨read, same, sentence⟩ := (follows_program _).ok (Rule.strict_of_run run (by simp))
  rw [List.append_nil] at same
  rwa [same]

/-- Without a diagnostic the statements are the parse tree of the input. -/
theorem tree_of_clean {tokens : List Token} (clean : (ofTokens tokens).diagnostics = []) :
    Sentence (input tokens) ∧ Stmt.AllWritten (ofTokens tokens).statements (input tokens) ∧
      ∀ stmt ∈ (ofTokens tokens).statements, stmt.Proper ∧ stmt.nesting ≤ maxNesting := by
  rw [diagnostics_ofTokens, List.map_eq_nil_iff] at clean
  obtain ⟨stmts, run⟩ := run_of_reports clean
  have strict : program.strict (input tokens) = .ok (stmts, []) := Rule.strict_of_run run (by simp)
  obtain ⟨read, same, sentence⟩ := (follows_program _).ok strict
  rw [List.append_nil] at same
  rw [← same] at sentence
  obtain ⟨body, pieces, whole⟩ := exists_pieces sentence
  have reads := reads_program pieces
  have shallow : (body.mapM id).nesting ≤ maxNesting := by
    by_contra deep
    obtain ⟨place, error⟩ := reads.beyond (Nat.lt_of_not_le deep)
    rw [List.append_nil, whole, strict] at error
    cases error
  have again := reads.within shallow
  rw [List.append_nil, whole, run, Piece.value_mapM_id] at again
  obtain ⟨values, notes⟩ : stmts = body.map Piece.value ∧ (body.mapM id).notes = [] := by
    simpa using again
  have faithful (p : Piece Stmt) (known : p ∈ body) : FaithfulStmt p.value p.tokens p.nesting :=
    (pieces p known).faithful ((Piece.notes_mapM_id_eq_nil_iff body).mp notes p known)
  rw [ofTokens_of_run run, values]
  refine ⟨sentence, ⟨body.map Piece.written, ?_, ?_, allWritten_of_faithful faithful⟩, ?_⟩
  · rw [List.map_map]
    rfl
  · rw [← whole, Piece.tokens_mapM_id, List.flatMap_map]
    rfl
  · rw [List.forall_mem_map]
    intro p known
    refine ⟨(faithful p known).proper, ?_⟩
    rw [(faithful p known).nested]
    rw [Piece.nesting_mapM_id] at shallow
    exact Nat.le_trans (nesting_le_deepest known) shallow

/-- The tokens of `x = -y;`, without the end. -/
def assignmentTokens : List Token :=
  [⟨.identifier, "x", none, ⟨1, 0⟩⟩, ⟨.equal, "=", none, ⟨1, 2⟩⟩, ⟨.minus, "-", none, ⟨1, 4⟩⟩,
    ⟨.identifier, "y", none, ⟨1, 5⟩⟩, ⟨.semicolon, ";", none, ⟨1, 6⟩⟩]

theorem tree_of_clean_assignment :
    Sentence (input assignmentTokens) ∧
      Stmt.AllWritten (ofTokens assignmentTokens).statements (input assignmentTokens) ∧
      ∀ stmt ∈ (ofTokens assignmentTokens).statements,
        stmt.Proper ∧ stmt.nesting ≤ maxNesting :=
  tree_of_clean (by decide +kernel)

/-- What is written out is read back. -/
theorem ofTokens_of_written {stmts : List Stmt} {tokens : List Token} {last : Token} (rest : List Token)
    (written : Stmt.AllWritten stmts tokens) (proper : ∀ stmt ∈ stmts, stmt.Proper)
    (shallow : ∀ stmt ∈ stmts, stmt.nesting ≤ maxNesting) (ends : last.kind = .eof) :
    ofTokens (tokens ++ last :: rest) = ⟨stmts, []⟩ := by
  obtain ⟨parts, rfl, rfl, each⟩ := written
  obtain ⟨body, pieces, values, tokens, clean⟩ := exists_row fun part known =>
    exists_declPiece (each part known) (proper _ (List.mem_map_of_mem known))
  have deep : Piece.deepest body ≤ maxNesting := by
    refine deepest_le fun p known => ?_
    have faithful := (pieces p known).faithful (clean p known)
    rw [← faithful.nested]
    exact shallow _ (values ▸ List.mem_map_of_mem known)
  have run := run_program pieces deep
  rw [(Piece.notes_mapM_id_eq_nil_iff body).mpr clean, values, tokens] at run
  obtain ⟨read, same, sentence⟩ := (follows_program _).ok (Rule.strict_of_run run (by simp))
  rw [List.append_nil] at same
  have whole : input (parts.flatMap Prod.snd ++ last :: rest) = parts.flatMap Prod.snd := by
    have none := sentence.ne_eof rfl
    rw [← same] at none
    have keeps : ∀ token ∈ parts.flatMap Prod.snd, decide (token.kind ≠ .eof) = true := by
      intro token known
      exact decide_eq_true (none token known)
    rw [input, List.takeWhile_append_of_pos keeps, List.takeWhile_cons_of_neg (by simp [ends]),
      List.append_nil]
  rw [← whole] at run
  exact ofTokens_of_run run

theorem ofTokens_of_written_assignment :
    ofTokens (assignmentTokens ++ [.atEnd ⟨1, 7⟩]) =
      ⟨[.expr (.assign ⟨"x", ⟨1, 0⟩⟩ (.negate ⟨1, 4⟩ (.name ⟨"y", ⟨1, 5⟩⟩)))], []⟩ := by
  let x : Token := ⟨.identifier, "x", none, ⟨1, 0⟩⟩
  let equal : Token := ⟨.equal, "=", none, ⟨1, 2⟩⟩
  let minus : Token := ⟨.minus, "-", none, ⟨1, 4⟩⟩
  let y : Token := ⟨.identifier, "y", none, ⟨1, 5⟩⟩
  have value : Expr.Written (.assign (.ofToken x) (.negate minus.pos (.name (.ofToken y))))
      [x, equal, minus, y] := .assign rfl rfl (.negate rfl (.name rfl))
  have written : Stmt.Written (.expr _) assignmentTokens := .expr value rfl
  refine ofTokens_of_written [] ⟨[(_, assignmentTokens)], rfl, rfl, ?_⟩ ?_ ?_ rfl <;>
    rw [List.forall_mem_singleton]
  · exact written
  · exact .expr (.assign (.negate (Nat.zero_le 2) (.name _)))
  · decide

end Parse

end LispReader
