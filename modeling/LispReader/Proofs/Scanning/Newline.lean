import LispReader.Proofs.Scanning.Onward
import LispReader.Proofs.Tree.Relabel

/-!
# Scanning line by line

No segment but a string reaches over the end of a line, so two texts with a newline between them are
scanned one after the other: `Scan.ofText_append_newline`. The second text is found as many lines
further down as the first one has.
-/

namespace LispReader

open Segment

namespace Segment

theorem Lawful.append_newline {segment : Segment} {after : List Char} (h : segment.Lawful after)
    (closed : segment.isOpen = false) (rest : List Char) :
    segment.Lawful (after ++ '\n' :: rest) := by
  cases h with
  | blank known => exact .blank known
  | comment body stops => exact .comment body (head?_append_cons stops rfl rest)
  | lexeme isLexeme ends => exact .lexeme isLexeme (ends.of_beginsLike (.append_blank (by decide) after rest))
  | stray notBlank none => exact .stray notBlank none
  | quote other =>
    apply Lawful.quote
    intro more same
    cases after with
    | nil => simp at same
    | cons c after =>
      obtain ⟨rfl, rfl⟩ := List.cons.inj same
      obtain ⟨d, first, word⟩ := other after rfl
      refine ⟨d, ?_, word⟩
      show d ∈ (after ++ '\n' :: rest).head?
      rw [List.head?_append, Option.mem_def.mp first]
      rfl
  | openString => cases closed

theorem Lexed.append_newline {a b : List Char} {segments more : List Segment}
    (first : Lexed a segments) (closed : ∀ segment ∈ segments, segment.isOpen = false)
    (second : Lexed b more) : Lexed (a ++ '\n' :: b) (segments ++ .blank '\n' :: more) := by
  induction first with
  | nil =>
    have newline : (Segment.blank '\n').Lawful b := .blank (by decide)
    exact Lexed.cons newline second
  | @cons segment after segments lawful _ ih =>
    obtain ⟨here, closed⟩ := List.forall_mem_cons.mp closed
    rw [List.append_assoc]
    exact .cons (lawful.append_newline here b) (ih closed)

end Segment

/-! ### Moving down -/

namespace Position

theorem next_down (lines : Nat) (p : Position) (c : Char) :
    (p.down lines).next c = (p.next c).down lines := by
  unfold next
  by_cases newline : c = '\n'
  · simp [newline, down, Nat.add_right_comm]
  · simp [newline, down]

theorem advance_down (lines : Nat) (p : Position) (text : List Char) :
    (p.down lines).advance text = (p.advance text).down lines := by
  induction text generalizing p with
  | nil => rfl
  | cons c text ih => rw [advance_cons, next_down, ih, advance_cons]

theorem line_advance (p : Position) (text : List Char) :
    (p.advance text).line = p.line + text.count '\n' := by
  induction text generalizing p with
  | nil => rfl
  | cons c text ih =>
    rw [advance_cons, ih, next]
    by_cases newline : c = '\n'
    · rw [if_pos newline, newline, List.count_cons_self]
      show p.line + 1 + text.count '\n' = _
      omega
    · rw [if_neg newline, List.count_cons_of_ne newline]

end Position

namespace Segment

theorem place_append (pos : Position) (a b : List Segment) :
    place pos (a ++ b) = place pos a ++ place (pos.advance (a.flatMap text)) b := by
  induction a generalizing pos with
  | nil => rfl
  | cons segment a ih =>
    rw [List.cons_append, place, ih, place, List.flatMap_cons, Position.advance_append,
      List.cons_append]

theorem place_down (lines : Nat) (pos : Position) (segments : List Segment) :
    place (pos.down lines) segments =
      (place pos segments).map fun (pos, segment) => (pos.down lines, segment) := by
  induction segments generalizing pos with
  | nil => rfl
  | cons segment segments ih => rw [place, Position.advance_down, ih, place, List.map_cons]

theorem token?_down (lines : Nat) (pos : Position) (segment : Segment) :
    segment.token? (pos.down lines) = (segment.token? pos).map (·.relabel (.down lines)) := by
  cases segment with
  | lexeme kind text =>
    simp only [token?, Position.advance_down]
    rfl
  | _ => rfl

theorem fault?_down (lines : Nat) (pos : Position) (segment : Segment) :
    segment.fault? (pos.down lines) =
      (segment.fault? pos).map fun (pos, fault) => (pos.down lines, fault) := by
  cases segment with
  | openString text =>
    simp only [fault?, Position.advance_down]
    rfl
  | _ => rfl

end Segment

/-! ### Two texts -/

namespace Position

theorem next_advance_start (text : List Char) :
    (start.advance text).next '\n' = start.down (text.count '\n' + 1) := by
  simp [next, line_advance, start, down, Nat.add_assoc]

end Position

namespace Segment

theorem ofText_append_lineBreak {a : List Char} (closed : ∀ segment ∈ ofText a, segment.isOpen = false)
    (b : List Char) : ofText (a ++ '\n' :: b) = ofText a ++ .blank '\n' :: ofText b :=
  ((lexed_ofText a).append_newline closed (lexed_ofText b)).eq_ofText.symm

/-- The newline has the position of the end of the first text. -/
theorem place_append_newline (a b : List Char) :
    place .start (ofText a ++ .blank '\n' :: ofText b) =
      place .start (ofText a) ++ (Position.start.advance a, .blank '\n') ::
        (place .start (ofText b)).map fun (pos, segment) =>
          (pos.down (a.count '\n' + 1), segment) := by
  rw [place_append, flatten_text, place]
  congr 2
  show place ((Position.start.advance a).next '\n') _ = _
  rw [Position.next_advance_start, place_down]

theorem all_closed {text : List Char}
    (closed : ∀ found ∈ (place .start (ofText text)).filterMap fun (pos, segment) =>
      segment.fault? pos, found.2 ≠ .unterminatedString) :
    ∀ segment ∈ ofText text, segment.isOpen = false := by
  rw [faults_of_splits (splits_ofText text)] at closed
  by_cases some : (ofText text).any isOpen
  · rw [if_pos some] at closed
    exact absurd rfl (closed (_, .unterminatedString) (List.mem_append_right _ (List.mem_singleton_self _)))
  · simpa using some

end Segment

namespace Scan

theorem segments_closed {a : String}
    (closed : ∀ d ∈ (ofText a).diagnostics, d.message ≠ "Unterminated string.") :
    ∀ segment ∈ Segment.ofText a.toList, segment.isOpen = false := by
  apply Segment.all_closed
  rintro ⟨pos, fault⟩ known rfl
  exact closed _ (List.mem_map_of_mem known) rfl

theorem filter_tokens (text : String) : (ofText text).tokens.filter (·.kind ≠ .eof) =
    (Segment.place .start (Segment.ofText text.toList)).filterMap fun (pos, segment) =>
      segment.token? pos := by
  have kinds := (Segment.lexemes_of_splits (Segment.splits_ofText text.toList) .start).2
  unfold ofText
  rw [List.filter_append, List.filter_eq_self.mpr (by simpa using kinds)]
  simp [Token.atEnd]

/-- A text that leaves no string open is scanned as if nothing stood behind its last newline. -/
theorem ofText_append_newline {a b : String}
    (closed : ∀ d ∈ (ofText a).diagnostics, d.message ≠ "Unterminated string.") :
    ofText (a ++ "\n" ++ b) =
      let below := Relabeling.down (a.toList.count '\n' + 1)
      ⟨(ofText a).tokens.filter (·.kind ≠ .eof) ++ (ofText b).tokens.map (·.relabel below),
        (ofText a).diagnostics ++ (ofText b).diagnostics.map (·.relabel below)⟩ := by
  have text : (a ++ "\n" ++ b).toList = a.toList ++ '\n' :: b.toList := by simp
  have last : Position.start.advance (a ++ "\n" ++ b).toList =
      (Position.start.advance b.toList).down (a.toList.count '\n' + 1) := by
    rw [text, Position.advance_append, Position.advance_cons, Position.next_advance_start,
      Position.advance_down]
  rw [filter_tokens]
  unfold ofText
  rw [last, text, Segment.ofText_append_lineBreak (segments_closed closed),
    Segment.place_append_newline]
  dsimp only
  -- Both sides are now made of the same pieces, each segment of `b` moved down.
  rw [List.filterMap_append, List.filterMap_cons_none rfl, List.filterMap_append,
    List.filterMap_cons_none rfl]
  simp only [List.filterMap_map, List.map_filterMap, List.map_append, List.append_assoc,
    Function.comp_def, Segment.token?_down, Segment.fault?_down, Option.map_map]
  rfl

/-- The quote and the point at the ends of lines are not joined with what stands on the next line. -/
theorem ofText_append_newline_quote :
    (∀ d ∈ (ofText "x = '").diagnostics, d.message ≠ "Unterminated string.") ∧
      ofText ("x = '" ++ "\n" ++ "t 1.\n\"y") =
        ⟨(ofText "x = '").tokens.filter (·.kind ≠ .eof) ++
            (ofText "t 1.\n\"y").tokens.map (·.relabel (.down 1)),
          (ofText "x = '").diagnostics ++
            (ofText "t 1.\n\"y").diagnostics.map (·.relabel (.down 1))⟩ := by
  have closed : ∀ d ∈ (ofText "x = '").diagnostics, d.message ≠ "Unterminated string." := by
    decide +kernel
  exact ⟨closed, ofText_append_newline closed⟩

end Scan

end LispReader
