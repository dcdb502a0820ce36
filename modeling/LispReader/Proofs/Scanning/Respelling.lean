import LispReader.Proofs.Scanning.Newline

/-!
# Scanning the tokens once more

The tokens of any text can be spelled out with a space between each two, whatever stood between them
and whatever was wrong with the text. By `Scan.ofText_spelled` that is scanned without a fault into
the same tokens: no lexeme depends on what stood around it, and no two are joined.
-/

namespace LispReader

/-- What a token is, wherever it stands. -/
def Token.content (token : Token) : Token.Kind × String × Option Token.Literal :=
  (token.kind, token.lexeme, token.literal)

/-- The lexemes of all tokens but the end, with spaces between them. -/
def Scan.spelled (scan : Scan) : String :=
  " ".intercalate ((scan.tokens.filter (·.kind ≠ .eof)).map (·.lexeme))

namespace Segment

def content? : Segment → Option (Token.Kind × String × Option Token.Literal)
  | .lexeme kind text => some (kind, String.ofList text, literal kind text)
  | _ => none

theorem map_content_place (pos : Position) (segments : List Segment) :
    ((place pos segments).filterMap fun (pos, segment) => segment.token? pos).map Token.content =
      segments.filterMap content? := by
  induction segments generalizing pos with
  | nil => rfl
  | cons segment segments ih =>
    have rest := ih (pos.advance segment.text)
    cases segment with
    | lexeme kind text => exact congrArg (List.cons _) rest
    | _ => exact rest

theorem map_spelling_content? (segments : List Segment) :
    (segments.filterMap content?).map (fun content => content.2.1.toList) =
      (segments.filter isLexeme).map text := by
  induction segments with
  | nil => rfl
  | cons segment segments ih =>
    cases segment with
    | lexeme kind text =>
      show (String.ofList text).toList :: List.map _ (segments.filterMap content?) = text :: _
      rw [ih, String.toList_ofList]
    | _ => exact ih

/-! ### Lexemes with spaces between them -/

/-- A lexeme may stand at the end or before a space. -/
theorem Lawful.before_space {kind : Token.Kind} {text after : List Char}
    (h : (Segment.lexeme kind text).Lawful after) :
    (Segment.lexeme kind text).Lawful [] ∧
      ∀ rest, (Segment.lexeme kind text).Lawful (' ' :: rest) := by
  cases h with
  | lexeme isLexeme =>
    have ends : kind.EndsBefore text [] := by
      cases kind <;> simp [Token.Kind.EndsBefore]
    refine ⟨.lexeme isLexeme ends, fun rest => .lexeme isLexeme ?_⟩
    exact ends.of_beginsLike (.append_blank (by decide) [] rest)

theorem lexed_intersperse {lexemes : List Segment}
    (h : ∀ segment ∈ lexemes, segment.Lawful [] ∧ ∀ rest, segment.Lawful (' ' :: rest)) :
    Lexed ([' '].intercalate (lexemes.map text)) (lexemes.intersperse (.blank ' ')) := by
  induction lexemes with
  | nil => exact .nil
  | cons segment lexemes ih =>
    obtain ⟨⟨last, before⟩, more⟩ := List.forall_mem_cons.mp h
    cases lexemes with
    | nil =>
      have whole := Lexed.cons last .nil
      rw [List.append_nil] at whole
      rw [List.map_cons, List.map_nil, List.intercalate_singleton]
      exact whole
    | cons next lexemes =>
      have space : (blank ' ').Lawful ([' '].intercalate ((next :: lexemes).map text)) :=
        .blank (by decide)
      rw [List.intersperse_cons_cons, List.map_cons, List.map_cons, List.intercalate_cons_cons,
        List.append_assoc]
      exact .cons (before _) (.cons space (ih more))

theorem filterMap_content?_intersperse (lexemes : List Segment) :
    (lexemes.intersperse (.blank ' ')).filterMap content? = lexemes.filterMap content? := by
  induction lexemes with
  | nil => rfl
  | cons segment lexemes ih =>
    cases lexemes with
    | nil => rfl
    | cons next lexemes =>
      rw [List.intersperse_cons_cons, List.filterMap_cons, List.filterMap_cons_none rfl, ih]
      exact List.filterMap_cons.symm

/-- Neither a lexeme nor a space is a fault. -/
theorem faults_intersperse {lexemes : List Segment}
    (h : ∀ segment ∈ lexemes, segment.isLexeme = true) (pos : Position) :
    (place pos (lexemes.intersperse (.blank ' '))).filterMap
      (fun (pos, segment) => segment.fault? pos) = [] := by
  induction lexemes generalizing pos with
  | nil => rfl
  | cons segment lexemes ih =>
    obtain ⟨here, more⟩ := List.forall_mem_cons.mp h
    cases segment with
    | lexeme kind text =>
      cases lexemes with
      | nil => rfl
      | cons next lexemes => exact ih more _
    | _ => cases here

end Segment

namespace Scan

theorem toList_spelled (text : String) : (ofText text).spelled.toList =
    [' '].intercalate (((Segment.ofText text.toList).filter Segment.isLexeme).map Segment.text) := by
  unfold spelled
  rw [filter_tokens, String.toList_intercalate, ← Segment.map_spelling_content?,
    ← Segment.map_content_place .start, List.map_map, List.map_map]
  rfl

theorem segments_spelled (text : String) : Segment.ofText (ofText text).spelled.toList =
    ((Segment.ofText text.toList).filter Segment.isLexeme).intersperse (.blank ' ') := by
  have lexed := Segment.lexed_ofText text.toList
  rw [toList_spelled]
  refine (Segment.lexed_intersperse fun segment known => ?_).eq_ofText.symm
  obtain ⟨known, isLexeme⟩ := List.mem_filter.mp known
  obtain ⟨front, back, same⟩ := List.append_of_mem known
  rw [same] at lexed
  have lawful := lexed.lawful
  cases segment with
  | lexeme kind text => exact lawful.before_space
  | _ => cases isLexeme

theorem content_spelled (text : String) :
    ((ofText (ofText text).spelled).tokens.filter (·.kind ≠ .eof)).map Token.content =
      ((ofText text).tokens.filter (·.kind ≠ .eof)).map Token.content := by
  have lexemes : ((Segment.ofText text.toList).filter Segment.isLexeme).filterMap Segment.content? =
      (Segment.ofText text.toList).filterMap Segment.content? := by
    rw [List.filterMap_filter]
    congr 1
    funext segment
    cases segment <;> rfl
  rw [filter_tokens, filter_tokens, Segment.map_content_place, Segment.map_content_place,
    segments_spelled, Segment.filterMap_content?_intersperse, lexemes]

/-- What is scanned can be spelled out and scanned again: the tokens are the same, and no fault is
left. -/
theorem ofText_spelled (text : String) :
    let again := ofText (ofText text).spelled
    again.diagnostics = [] ∧
      ∃ tokens last, again.tokens = tokens ++ [last] ∧ last.kind = .eof ∧
        (∀ token ∈ tokens, token.kind ≠ .eof) ∧
        tokens.map Token.content =
          ((ofText text).tokens.filter (·.kind ≠ .eof)).map Token.content := by
  intro again
  have silent : again.diagnostics = [] := by
    show List.map _ (List.filterMap _ _) = []
    rw [segments_spelled, Segment.faults_intersperse (fun _ known => (List.mem_filter.mp known).2)]
    rfl
  have tokens : again.tokens = again.tokens.filter (·.kind ≠ .eof) ++
      [.atEnd (Position.start.advance (ofText text).spelled.toList)] := by
    rw [filter_tokens]
    rfl
  refine ⟨silent, _, _, tokens, rfl, fun token known => ?_, content_spelled text⟩
  simpa using (List.mem_filter.mp known).2

end Scan

end LispReader
