import LispReader.Proofs.Scanning.Lawful
import Mathlib.Data.List.Forall2

/-!
# Longest match

Every text falls apart into lawful segments in exactly one way, and that is how it is scanned. So a
token has the kind and the value of its spelling, and no lexeme in its place could be longer.
-/

namespace LispReader

namespace Segment

/-- The segments make up the text, each lawful where it stands. -/
inductive Lexed : List Char → List Segment → Prop where
  | nil : Lexed [] []
  | cons {segment : Segment} {after : List Char} {more : List Segment} :
    segment.Lawful after → Lexed after more → Lexed (segment.text ++ after) (segment :: more)

theorem Lawful.text_ne_nil {segment : Segment} {after : List Char} (h : segment.Lawful after) :
    segment.text ≠ [] := by
  cases h with
  | lexeme isLexeme => exact isLexeme.ne_nil
  | _ => exact List.cons_ne_nil _ _

theorem lexed_ofText (text : List Char) : Lexed text (ofText text) := by
  fun_induction ofText text with
  | case1 => exact .nil
  | case2 c rest segment ih =>
    obtain ⟨more, text, after, rfl⟩ := text_first c rest
    have whole : c :: (more ++ after) = segment.text ++ after := by
      rw [show segment.text = c :: more from text, List.cons_append]
    have dropped : (more ++ after).drop (segment.text.length - 1) = after := by
      rw [show segment.text = c :: more from text]
      simp
    rw [dropped] at ih ⊢
    rw [whole]
    exact .cons (lawful_first whole) ih

theorem Lexed.eq_ofText {text : List Char} {segments : List Segment} (h : Lexed text segments) :
    segments = ofText text := by
  induction h with
  | nil => rw [ofText]
  | @cons segment after _ lawful _ ih =>
    obtain ⟨c, more, text⟩ := List.exists_cons_of_ne_nil lawful.text_ne_nil
    have here := lawful.eq_first text
    have dropped : (more ++ after).drop ((first c (more ++ after)).text.length - 1) = after := by
      rw [← here, text]
      simp
    rw [text, List.cons_append, ofText, dropped, ← ih, ← here]

theorem Lexed.text {text : List Char} {segments : List Segment} (h : Lexed text segments) :
    segments.flatMap Segment.text = text := by
  rw [h.eq_ofText, flatten_text]

theorem Lexed.lawful {text : List Char} {front back : List Segment} {segment : Segment}
    (h : Lexed text (front ++ segment :: back)) : segment.Lawful (back.flatMap Segment.text) := by
  induction front generalizing text with
  | nil =>
    cases h with
    | cons lawful rest => exact rest.text ▸ lawful
  | cons _ front ih =>
    cases h with
    | cons _ rest => exact ih rest

/-- No lexeme in the text is the beginning of a longer one. -/
def AllLongest (segments : List Segment) : Prop :=
  ∀ front kind lexeme back, segments = front ++ .lexeme kind lexeme :: back →
    ∀ kind' more literal, more <+: back.flatMap Segment.text →
      IsLexeme kind' (lexeme ++ more) literal → more = []

theorem Lexed.allLongest {text : List Char} {segments : List Segment} (h : Lexed text segments) :
    AllLongest segments := by
  rintro front kind lexeme back rfl kind' more literal ⟨after, same⟩ longer
  have lawful := h.lawful
  rw [← same] at lawful
  cases lawful with
  | lexeme isLexeme ends => exact isLexeme.longest ends longer

end Segment

/-- Does the token stand for the segment, with the kind and the value that its spelling has? -/
def Token.IsFor (token : Token) (segment : Segment) : Prop :=
  ∃ lexeme, segment = .lexeme token.kind lexeme ∧ token.lexeme = String.ofList lexeme ∧
    IsLexeme token.kind lexeme token.literal

theorem IsLexeme.literal_eq {kind : Token.Kind} {text : List Char} {literal : Option Token.Literal}
    (h : IsLexeme kind text literal) : Segment.literal kind text = literal := by
  cases h with
  | mark spelled => cases kind <;> cases spelled <;> rfl
  | string closed => simp [Segment.literal]
  | _ => rfl

namespace Segment

def isLexeme : Segment → Bool
  | .lexeme .. => true
  | _ => false

theorem tokens_of_lexed {text : List Char} {segments : List Segment} (h : Lexed text segments)
    (pos : Position) : List.Forall₂ Token.IsFor
      ((place pos segments).filterMap fun (pos, segment) => segment.token? pos)
      (segments.filter isLexeme) := by
  induction h generalizing pos with
  | nil => exact .nil
  | @cons segment after more lawful _ ih =>
    have rest := ih (pos.advance segment.text)
    cases lawful with
    | lexeme isLexeme => exact .cons ⟨_, rfl, rfl, isLexeme.literal_eq ▸ isLexeme⟩ rest
    | _ => exact rest

theorem Lexed.splits {text : List Char} {segments : List Segment} (h : Lexed text segments) :
    Splits text segments := h.eq_ofText ▸ splits_ofText text

end Segment

/-- A text falls apart in one way into lawful segments, and its lexemes cannot be longer. The tokens
are those of the lexemes, with the kind and the value that the spelling has, and the characters that
are reported as unexpected are the stray ones. -/
theorem Scan.longest_match (text : String) : ∃ segments : List Segment,
    Segment.Lexed text.toList segments ∧
    (∀ others, Segment.Lexed text.toList others → others = segments) ∧
    Segment.AllLongest segments ∧
    (∃ tokens, (ofText text).tokens = tokens ++ [.atEnd (Position.start.advance text.toList)] ∧
      List.Forall₂ Token.IsFor tokens (segments.filter Segment.isLexeme)) ∧
    ((ofText text).diagnostics.filter (·.message = "Unexpected character.")).map (·.pos) =
      Segment.strays .start segments := by
  have lexed := Segment.lexed_ofText text.toList
  refine ⟨_, lexed, fun _ other => other.eq_ofText, lexed.allLongest,
    ⟨_, rfl, Segment.tokens_of_lexed lexed .start⟩, ?_⟩
  have unexpected (places : List Position) : ((places.map fun pos => Diagnostic.ofPosition pos
      Segment.Fault.unexpectedCharacter.message).filter (·.message = "Unexpected character.")).map
        (·.pos) = places := by
    simp [List.filter_map, Function.comp_def, Diagnostic.ofPosition, Segment.Fault.message]
  simp only [ofText, Segment.faults_of_splits lexed.splits, List.map_append, List.map_map,
    Function.comp_def, List.filter_append, unexpected]
  split <;> simp [Diagnostic.ofPosition, Segment.Fault.message]

end LispReader
