import LispReader.Proofs.Scanner.Agrees
import Mathlib.Data.List.DropRight

/-!
# Positions are counted right

Scanning moves a position along with the text. At every offset it is the one that counting gives: as
many lines as there are newlines before the offset and one more, as many columns as there are
characters since the last of them (`Position.advance_take`). `Scan.positions_counted` says which offset
each token and each lexical fault has its line and its column from, and that a scanner that counts on
the way and goes back in between finds the same.
-/

namespace LispReader

namespace Position

/-- One more than the newlines that stand before the offset. -/
def lineAt (text : List Char) (i : Nat) : Nat := (text.take i).count '\n' + 1

/-- The number of characters from the last newline before the offset, or from the start, to there. -/
def columnAt (text : List Char) (i : Nat) : Nat := ((text.take i).rtakeWhile (· ≠ '\n')).length

/-- The position of an offset, by counting. -/
def ofOffset (text : List Char) (i : Nat) : Position := ⟨lineAt text i, columnAt text i⟩

theorem advance_start (text : List Char) :
    start.advance text = ⟨text.count '\n' + 1, (text.rtakeWhile (· ≠ '\n')).length⟩ := by
  induction text using List.reverseRecOn with
  | nil => rfl
  | append_singleton text c ih =>
    rw [advance_append, ih, advance_cons, advance_nil, next]
    by_cases newline : c = '\n'
    · subst newline
      rw [if_pos rfl, List.count_append, List.rtakeWhile_concat_neg _ _ _ (by simp)]
      rfl
    · rw [if_neg newline, List.count_append, List.rtakeWhile_concat_pos _ _ _ (by simpa using newline)]
      simp [newline]

theorem advance_take (text : List Char) (i : Nat) : start.advance (text.take i) = ofOffset text i :=
  advance_start _

end Position

namespace Segment

/-- The segments that stand one after another from an offset on, each with its own offset. -/
def spans (i : Nat) : List Segment → List (Nat × Segment)
  | [] => []
  | segment :: more => (i, segment) :: spans (i + segment.text.length) more

/-- The token of a lexeme at this offset: the column where it begins, the line where it ends. -/
def tokenAt? (whole : List Char) (i : Nat) : Segment → Option Token
  | .lexeme kind text =>
    some ⟨kind, String.ofList text, literal kind text,
      ⟨Position.lineAt whole (i + text.length), Position.columnAt whole i⟩⟩
  | _ => none

/-- What is reported of a segment at this offset. A string that is not closed goes to the end. -/
def faultAt? (whole : List Char) (i : Nat) : Segment → Option Diagnostic
  | .stray _ =>
    some ⟨.lexical, ⟨Position.lineAt whole i, Position.columnAt whole i⟩, .line,
      "Unexpected character."⟩
  | .openString _ =>
    some ⟨.lexical, ⟨Position.lineAt whole whole.length, Position.columnAt whole whole.length⟩, .line,
      "Unterminated string."⟩
  | _ => none

theorem Lexed.exists_after {text : List Char} {segments : List Segment} (h : Lexed text segments)
    (front : List Char) : ∀ span ∈ spans front.length segments,
      ∃ after, span.2.Lawful after ∧ (front ++ text).drop span.1 = span.2.text ++ after := by
  induction h generalizing front with
  | nil => simp [spans]
  | @cons segment after more lawful _ ih =>
    refine List.forall_mem_cons.mpr ⟨⟨after, lawful, List.drop_left⟩, ?_⟩
    have later := ih (front ++ segment.text)
    rwa [List.length_append, List.append_assoc] at later

theorem place_eq_spans (front : List Char) (segments : List Segment) :
    place (Position.start.advance front) segments =
      (spans front.length segments).map fun span =>
        (.ofOffset (front ++ segments.flatMap text) span.1, span.2) := by
  induction segments generalizing front with
  | nil => rfl
  | cons segment more ih =>
    have later := ih (front ++ segment.text)
    rw [Position.advance_append, List.length_append, List.append_assoc, ← List.flatMap_cons] at later
    have here : Position.start.advance front =
        .ofOffset (front ++ (segment :: more).flatMap text) front.length := by
      rw [← Position.advance_take, List.take_left]
    rw [place, spans, later, List.map_cons, here]

section Here

variable {text after : List Char} {i : Nat} {segment : Segment}

theorem advance_ofOffset {piece : List Char} (here : text.drop i = piece ++ after) :
    (Position.ofOffset text i).advance piece = .ofOffset text (i + piece.length) := by
  rw [← Position.advance_take, ← Position.advance_take, ← Position.advance_append, List.take_add, here,
    List.take_left]

theorem token?_ofOffset (here : text.drop i = segment.text ++ after) :
    segment.token? (.ofOffset text i) = segment.tokenAt? text i := by
  cases segment with
  | lexeme kind piece =>
    have here : text.drop i = piece ++ after := here
    rw [token?, advance_ofOffset here]
    rfl
  | _ => rfl

theorem fault?_ofOffset (lawful : segment.Lawful after) (here : text.drop i = segment.text ++ after) :
    (segment.fault? (.ofOffset text i)).map (fun found => Diagnostic.ofPosition found.1 found.2.message) =
      segment.faultAt? text i := by
  cases lawful with
  | @openString body =>
    have here : text.drop i = '"' :: body ++ [] := here
    have length := congrArg List.length here
    rw [List.length_drop, List.append_nil, List.length_cons] at length
    have last : i + ('"' :: body).length = text.length := by
      rw [List.length_cons]
      omega
    rw [fault?, advance_ofOffset here, last]
    rfl
  | _ => rfl

end Here

end Segment

namespace Scan

theorem place_ofText (text : List Char) : Segment.place .start (Segment.ofText text) =
    (Segment.spans 0 (Segment.ofText text)).map fun span => (.ofOffset text span.1, span.2) := by
  have whole := Segment.place_eq_spans [] (Segment.ofText text)
  rwa [Segment.flatten_text] at whole

theorem stands_ofText (text : List Char) : ∀ span ∈ Segment.spans 0 (Segment.ofText text),
    ∃ after, span.2.Lawful after ∧ text.drop span.1 = span.2.text ++ after :=
  (Segment.lexed_ofText text).exists_after []

theorem tokens_ofText (text : String) : (ofText text).tokens =
    (Segment.spans 0 (Segment.ofText text.toList)).filterMap
        (fun span => span.2.tokenAt? text.toList span.1) ++
      [.atEnd (.ofOffset text.toList text.toList.length)] := by
  unfold ofText
  dsimp only
  rw [place_ofText, List.filterMap_map, ← Position.advance_take, List.take_length]
  congr 1
  refine List.filterMap_congr fun span known => ?_
  obtain ⟨after, -, here⟩ := stands_ofText text.toList span known
  exact Segment.token?_ofOffset here

theorem diagnostics_ofText (text : String) : (ofText text).diagnostics =
    (Segment.spans 0 (Segment.ofText text.toList)).filterMap fun span =>
      span.2.faultAt? text.toList span.1 := by
  unfold ofText
  dsimp only
  rw [place_ofText, List.filterMap_map, List.map_filterMap]
  refine List.filterMap_congr fun span known => ?_
  obtain ⟨after, lawful, here⟩ := stands_ofText text.toList span known
  exact Segment.fault?_ofOffset lawful here

/-- A token has the column of the offset where its lexeme begins and the line of the one where it ends,
an unexpected character the position of its own, and the end of the text and a string that is not
closed have that of the end. Scanning in place counts no other ones. -/
theorem positions_counted (text : String) : ∃ (s : Scanner) (segments : List Segment),
    Scanning.Runs Scanning.scanTokens (.before text) ⟨⟩ s ∧ ofText text = ⟨s.tokens, s.diagnostics⟩ ∧
    Segment.Lexed text.toList segments ∧
    (∀ span ∈ Segment.spans 0 segments, span.2.text <+: text.toList.drop span.1) ∧
    s.tokens =
      (Segment.spans 0 segments).filterMap (fun span => span.2.tokenAt? text.toList span.1) ++
        [⟨.eof, "", none, ⟨Position.lineAt text.toList text.toList.length,
          Position.columnAt text.toList text.toList.length⟩⟩] ∧
    s.diagnostics =
      (Segment.spans 0 segments).filterMap fun span => span.2.faultAt? text.toList span.1 := by
  obtain ⟨s, runs, -, found⟩ := Scanning.runs_scanTokens text
  have tokens := tokens_ofText text
  have diagnostics := diagnostics_ofText text
  rw [found] at tokens diagnostics
  refine ⟨s, _, runs, found, Segment.lexed_ofText text.toList, ?_, tokens, diagnostics⟩
  intro span known
  obtain ⟨after, -, here⟩ := stands_ofText text.toList span known
  exact ⟨after, here.symm⟩

end Scan

end LispReader
