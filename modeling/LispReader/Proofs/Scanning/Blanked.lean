import LispReader.Proofs.Scanning.Cut
import LispReader.Proofs.Scanning.Onward

/-!
# Spaces in the place of comments and faults

What scanning skips might as well be spaces: if each character that is reported as unexpected and each
character of a comment is replaced by a space, scanning finds the same tokens at the same positions, and
reports nothing but the string that is left open, if there is one (`Scan.ofText_blanked`).
-/

namespace LispReader

open Segment

/-! ### Texts that differ by spaces -/

theorem beginsLike_of_spaced {text' text : List Char}
    (h : List.Forall₂ (fun c' c => c' = ' ' ∨ c' = c) text' text) : BeginsLike text' text := by
  have space : ' ' ∈ [' ', '\r', '\t', '\n'] := by decide
  constructor
  case first =>
    cases h with
    | nil => simp
    | cons here =>
      rintro _ ⟨⟩
      exact here.imp (fun same => by rwa [same]) fun same => by rw [same]; rfl
  case point =>
    rintro c rest' rfl
    obtain ⟨_, _, isPoint | rfl, later, rfl⟩ := List.forall₂_cons_left_iff.mp h
    · exact absurd isPoint (by decide)
    obtain ⟨d, rest, here, -, rfl⟩ := List.forall₂_cons_left_iff.mp later
    exact here.imp (fun same => by rwa [same]) fun same => ⟨rest, by rw [same]⟩

namespace Position

theorem advance_of_not_mem (pos : Position) {text : List Char} (single : '\n' ∉ text) :
    pos.advance text = ⟨pos.line, pos.col + text.length⟩ := by
  induction text generalizing pos with
  | nil => simp
  | cons c text ih =>
    obtain ⟨other, single⟩ := List.ne_and_not_mem_of_not_mem_cons single
    rw [advance_cons, ih _ single, next, if_neg (Ne.symm other), List.length_cons,
      Int.natCast_succ, Int.add_assoc, Int.add_comm 1]

/-- No two offsets have the same position. -/
theorem ofOffset_injective {text : List Char} {i j : Nat} (within : i ≤ text.length)
    (within' : j ≤ text.length) (same : ofOffset text i = ofOffset text j) : i = j := by
  wlog le : i ≤ j generalizing i j
  · exact (this within' within same.symm (Nat.le_of_not_le le)).symm
  have here : text.drop i = (text.drop i).take (j - i) ++ (text.drop i).drop (j - i) :=
    (List.take_append_drop ..).symm
  have moves := advance_ofOffset here
  have length : ((text.drop i).take (j - i)).length = j - i := by
    rw [List.length_take, List.length_drop]
    omega
  rw [length, Nat.add_sub_cancel' le, ← same] at moves
  have lines := congrArg line moves
  rw [line_advance] at lines
  have single : '\n' ∉ (text.drop i).take (j - i) := List.count_eq_zero.mp (by omega)
  have columns := congrArg col moves
  rw [advance_of_not_mem _ single, length] at columns
  dsimp only at columns
  omega

end Position

/-! ### Spaces in the place of segments -/

namespace Segment

def isComment : Segment → Bool
  | .comment _ => true
  | _ => false

def isStray : Segment → Bool
  | .stray _ => true
  | _ => false

/-- Is the segment a comment or a character that begins nothing? -/
def isSkipped (segment : Segment) : Bool := segment.isStray || segment.isComment

/-- The text of a segment, or as many spaces. -/
def blanked (segment : Segment) : List Char :=
  if segment.isSkipped then segment.text.map fun _ => ' ' else segment.text

theorem spaced_blanked (segments : List Segment) : List.Forall₂ (fun c' c => c' = ' ' ∨ c' = c)
    (segments.flatMap blanked) (segments.flatMap text) := by
  induction segments with
  | nil => exact .nil
  | cons segment more ih =>
    refine List.rel_append ?_ ih
    unfold blanked
    split
    · exact List.forall₂_map_left_iff.mpr (List.forall₂_same.mpr fun _ _ => .inl rfl)
    · exact List.forall₂_same.mpr fun _ _ => .inr rfl

variable {segment : Segment} {after after' : List Char}

theorem Lawful.single (h : segment.Lawful after) (skipped : segment.isSkipped = true) :
    '\n' ∉ segment.text := by
  cases h with
  | comment inside => simpa [Segment.text] using inside
  | stray notBlank =>
    intro known
    exact notBlank (by rw [← List.mem_singleton.mp known]; decide)
  | quote => decide
  | _ => cases skipped

theorem Lawful.blanked (h : segment.Lawful after) (kept : segment.isSkipped = false)
    (alike : BeginsLike after' after) (last : after = [] → after' = []) : segment.Lawful after' := by
  cases h with
  | blank known => exact .blank known
  | lexeme isLexeme ends => exact .lexeme isLexeme (ends.of_beginsLike alike)
  | openString inside =>
    rw [last rfl]
    exact .openString inside
  | _ => cases kept

end Segment

namespace Scan

/-- Without the characters that were reported. -/
def silenced (scan : Scan) : Scan :=
  { scan with diagnostics := scan.diagnostics.filter (·.message = "Unterminated string.") }

theorem silenced_behind_skipped {segment : Segment} (skipped : segment.isSkipped = true) (pos : Position)
    (scan : Scan) : (behind pos segment scan).silenced = scan.silenced := by
  cases segment with
  | comment => rfl
  | stray => rfl
  | _ => cases skipped

theorem silenced_behind_kept {segment : Segment} (kept : segment.isSkipped = false) (pos : Position)
    (scan : Scan) : (behind pos segment scan).silenced = behind pos segment scan.silenced := by
  cases segment with
  | comment => cases kept
  | stray => cases kept
  | _ => rfl

end Scan

namespace Segment

theorem Lexed.onward_blanked {text : List Char} {segments : List Segment} (h : Lexed text segments)
    (pos : Position) : Scan.onward pos (segments.flatMap blanked) = (Scan.onward pos text).silenced := by
  induction h generalizing pos with
  | nil =>
    rw [List.flatMap_nil, Scan.onward_nil]
    rfl
  | @cons segment after more lawful rest ih =>
    rw [List.flatMap_cons, Scan.onward_append lawful, blanked]
    cases skipped : segment.isSkipped with
    | true =>
      -- As many spaces as there were characters lead to the same position.
      have spaces : ∀ c ∈ segment.text.map fun _ => ' ', c = ' ' := by simp
      have same : pos.advance (segment.text.map fun _ => ' ') = pos.advance segment.text := by
        rw [Position.advance_of_not_mem pos (lawful.single skipped), Position.advance_of_not_mem,
          List.length_map]
        exact fun known => absurd (spaces _ known) (by decide)
      rw [if_pos rfl, Scan.silenced_behind_skipped skipped, ← ih, ← same]
      exact Scan.onward_blanks (fun c known => by rw [spaces c known]; decide) pos _
    | false =>
      have alike : BeginsLike (more.flatMap blanked) after := by
        rw [← rest.text]
        exact beginsLike_of_spaced (spaced_blanked more)
      have last : after = [] → more.flatMap blanked = [] := by
        rintro rfl
        rw [rest.splits.eq_nil, List.flatMap_nil]
      rw [if_neg Bool.false_ne_true, Scan.silenced_behind_kept skipped, ← ih]
      exact Scan.onward_append (lawful.blanked skipped alike last) pos

end Segment

/-! ### Offset by offset -/

namespace Segment

/-- Does the offset lie in the segment? -/
def Covers (i : Nat) (span : Nat × Segment) : Prop := span.1 ≤ i ∧ i < span.1 + span.2.text.length

instance (i : Nat) (span : Nat × Segment) : Decidable (Covers i span) :=
  inferInstanceAs (Decidable (_ ∧ _))

/-- No two segments cover the same offset. -/
theorem eq_of_covers {start i : Nat} {segments : List Segment} {span span' : Nat × Segment}
    (known : span ∈ spans start segments) (known' : span' ∈ spans start segments)
    (here : Covers i span) (here' : Covers i span') : span = span' := by
  induction segments generalizing start with
  | nil => cases known
  | cons segment more ih =>
    unfold Covers at here here'
    rcases List.mem_cons.mp known with rfl | later <;> rcases List.mem_cons.mp known' with rfl | later'
    · rfl
    · have := le_of_mem_spans later'
      dsimp only at here
      omega
    · have := le_of_mem_spans later
      dsimp only at here'
      omega
    · exact ih later later'

/-- Spaces at the offsets of all segments that are skipped. -/
theorem mapIdx_spaces {spaced : Nat → Bool} {start : Nat} {segments : List Segment}
    (h : ∀ span ∈ spans start segments, ∀ i, Covers i span → spaced i = span.2.isSkipped) :
    (segments.flatMap text).mapIdx (fun i c => if spaced (start + i) then ' ' else c) =
      segments.flatMap blanked := by
  induction segments generalizing start with
  | nil => rfl
  | cons segment more ih =>
    obtain ⟨here, later⟩ := List.forall_mem_cons.mp h
    have first : segment.text.mapIdx (fun i c => if spaced (start + i) then ' ' else c) =
        segment.blanked := by
      refine List.ext_getElem ?_ fun i low high => ?_
      · unfold blanked
        split <;> simp
      · rw [List.length_mapIdx] at low
        rw [List.getElem_mapIdx, here (start + i) ⟨Nat.le_add_right .., Nat.add_lt_add_left low _⟩]
        unfold blanked
        dsimp only
        split <;> simp [*]
    rw [List.flatMap_cons, List.mapIdx_append, first, List.flatMap_cons, ← ih later]
    simp only [Nat.add_assoc, Nat.add_comm segment.text.length]

end Segment

namespace Scan

variable {text : String}

/-- Is the character at this offset reported as unexpected? -/
def isReported (text : String) (i : Nat) : Bool :=
  .ofPosition (.ofOffset text.toList i) "Unexpected character." ∈ (ofText text).diagnostics

/-- Does the offset lie in a comment? -/
def isInComment (text : String) (i : Nat) : Bool :=
  (spans 0 (Segment.ofText text.toList)).any fun span => span.2.isComment && Covers i span

/-- The text with spaces in the place of all that is reported or in a comment. -/
def blanked (text : String) : String :=
  String.ofList (text.toList.mapIdx fun i c => if isReported text i || isInComment text i then ' ' else c)

section Covered

variable {span : Nat × Segment} {i : Nat} (known : span ∈ spans 0 (Segment.ofText text.toList))
  (here : Covers i span)
include known here

theorem isInComment_of_covers : isInComment text i = span.2.isComment := by
  unfold isInComment
  rw [Bool.eq_iff_iff, List.any_eq_true]
  constructor
  · rintro ⟨span', known', found⟩
    rw [Bool.and_eq_true, decide_eq_true_eq] at found
    rw [eq_of_covers known known' here found.2]
    exact found.1
  · intro comment
    exact ⟨span, known, by simp [comment, here]⟩

theorem lt_length_of_covers : i < text.toList.length := by
  obtain ⟨after, -, stands⟩ := stands_ofText text.toList span known
  have length := congrArg List.length stands
  rw [List.length_drop, List.length_append] at length
  unfold Covers at here
  omega

theorem isReported_of_covers : isReported text i = span.2.isStray := by
  unfold isReported
  rw [diagnostics_ofText, Bool.eq_iff_iff, decide_eq_true_eq, List.mem_filterMap]
  constructor
  · rintro ⟨⟨start, segment⟩, known', found⟩
    cases segment with
    | stray c =>
      have pos := congrArg Diagnostic.pos (Option.some.inj found)
      have own : Covers start (start, .stray c) := ⟨Nat.le_refl _, Nat.lt_succ_self _⟩
      have same : start = i := Position.ofOffset_injective
        (Nat.le_of_lt (lt_length_of_covers known' own)) (Nat.le_of_lt (lt_length_of_covers known here)) pos
      subst same
      rw [eq_of_covers known known' here own]
      rfl
    | openString =>
      have message := congrArg Diagnostic.message (Option.some.inj found)
      exact absurd message (show "Unterminated string." ≠ "Unexpected character." by decide)
    | _ => cases found
  · obtain ⟨start, segment⟩ := span
    intro stray
    cases segment with
    | stray c =>
      obtain ⟨low, high⟩ := here
      obtain rfl : start = i := Nat.le_antisymm low (Nat.le_of_lt_succ high)
      exact ⟨_, known, rfl⟩
    | _ => cases stray

end Covered

/-- What is reported as unexpected and what is in a comment might as well be spaces: the tokens are the
same, and nothing else is reported than before. -/
theorem ofText_blanked (text : String) : ofText (blanked text) =
    { tokens := (ofText text).tokens
      diagnostics := (ofText text).diagnostics.filter (·.message = "Unterminated string.") } := by
  have spaced : (blanked text).toList = (Segment.ofText text.toList).flatMap Segment.blanked := by
    have skipped : ∀ span ∈ spans 0 (Segment.ofText text.toList), ∀ i, Covers i span →
        (isReported text i || isInComment text i) = span.2.isSkipped := by
      intro span known i here
      rw [isReported_of_covers known here, isInComment_of_covers known here, isSkipped]
    have whole := mapIdx_spaces skipped
    rw [flatten_text] at whole
    simpa [blanked] using whole
  rw [ofText_eq_onward, spaced, (lexed_ofText text.toList).onward_blanked]
  rfl

/-- A point without a digit, a quote without its word, and a comment. -/
example : blanked "1.'a // \"b" = "1  a      " := by decide +kernel

end Scan

end LispReader
