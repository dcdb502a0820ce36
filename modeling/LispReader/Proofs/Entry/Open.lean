import LispReader.Entry
import LispReader.Proofs.Parse.Append
import LispReader.Proofs.Scanning.Cut

/-!
# What an entry leaves open

An entry is open if it ends inside a string or if it has more opening than closing parentheses. The
parentheses of a program without a fault all have partners, so wherever it is cut off it is open just if
the cut is inside a string or between two partners (`Entry.isOpen_of_clean`). In other texts a closing
parenthesis that closes nothing still counts against the opening ones (`Entry.isOpen_iff_leavesOpen`).
-/

namespace LispReader

open Paren

namespace Segment

/-- The last segment of the text is a string that is not closed. -/
def EndsInString (text : List Char) : Prop :=
  ∃ front body, Lexed text (front ++ [.openString body])

theorem map_snd_spans (i : Nat) (segments : List Segment) :
    (spans i segments).map Prod.snd = segments := by
  induction segments generalizing i with
  | nil => rfl
  | cons segment more ih => rw [spans, List.map_cons, ih]

theorem filterMap_spans {α : Type} (f : Segment → Option α) (i : Nat) (segments : List Segment) :
    (spans i segments).filterMap (fun span => f span.2) = segments.filterMap f := by
  conv_rhs => rw [← map_snd_spans i segments, List.filterMap_map]
  rfl

theorem exists_span {segments : List Segment} {segment : Segment} (known : segment ∈ segments)
    (i : Nat) : ∃ span ∈ spans i segments, span.2 = segment := by
  rw [← map_snd_spans i segments] at known
  exact List.mem_map.mp known

theorem mem_of_mem_spans {i : Nat} {segments : List Segment} {span : Nat × Segment}
    (known : span ∈ spans i segments) : span.2 ∈ segments := by
  rw [← map_snd_spans i segments]
  exact List.mem_map_of_mem known

theorem spans_append (i : Nat) (front back : List Segment) : spans i (front ++ back) =
    spans i front ++ spans (i + (front.flatMap text).length) back := by
  induction front generalizing i with
  | nil => rfl
  | cons segment front ih =>
    rw [List.cons_append, spans, spans, ih, List.cons_append, List.flatMap_cons, List.length_append,
      Nat.add_assoc]

/-- Nothing comes after a string that is not closed. -/
theorem Lexed.isOpen_iff {text : List Char} {segments : List Segment} (h : Lexed text segments) :
    (∃ segment ∈ segments, segment.isOpen = true) ↔
      ∃ front body, segments = front ++ [.openString body] := by
  constructor
  · intro isOpen
    induction h with
    | nil => simp at isOpen
    | @cons segment after more lawful rest ih =>
      rcases (List.exists_mem_cons_iff ..).mp isOpen with here | later
      · cases lawful with
        | openString =>
          obtain rfl := rest.splits.eq_nil
          exact ⟨[], _, rfl⟩
        | _ => cases here
      · obtain ⟨front, body, rfl⟩ := ih later
        exact ⟨segment :: front, body, rfl⟩
  · rintro ⟨front, body, rfl⟩
    exact ⟨.openString body, by simp, rfl⟩

theorem faultAt?_eq_none_iff (whole : List Char) (i : Nat) (segment : Segment) :
    segment.faultAt? whole i = none ↔ segment.isFault = false := by
  cases segment <;> simp [faultAt?, isFault]

theorem faultAt?_unterminated_iff (whole : List Char) (i : Nat) (segment : Segment) :
    (∃ d ∈ segment.faultAt? whole i, d.message = Fault.unterminatedString.message) ↔
      segment.isOpen = true := by
  cases segment <;> simp [faultAt?, isOpen, Fault.message]

theorem endsInString_iff (text : List Char) :
    EndsInString text ↔ ∃ segment ∈ ofText text, segment.isOpen = true := by
  rw [(lexed_ofText text).isOpen_iff]
  constructor
  · rintro ⟨front, body, lexed⟩
    exact ⟨front, body, lexed.eq_ofText.symm⟩
  · rintro ⟨front, body, same⟩
    exact ⟨front, body, same ▸ lexed_ofText text⟩

end Segment

/-! ### What scanning finds -/

namespace Scan

theorem parens_ofText (text : String) :
    Token.parens (ofText text).tokens = (Segment.ofText text.toList).filterMap Segment.paren? := by
  have same (span : Nat × Segment) : (span.2.tokenAt? text.toList span.1).bind
      (fun token => token.kind.paren?) = span.2.paren? := by
    cases span.2 <;> rfl
  have none (pos : Position) : Token.parens [.atEnd pos] = [] := rfl
  rw [tokens_ofText, Token.parens_append, none, List.append_nil, Token.parens,
    List.filterMap_filterMap, List.filterMap_congr fun span _ => same span, Segment.filterMap_spans]

theorem parens_input (text : String) :
    Token.parens (Parse.input (ofText text).tokens) = Token.parens (ofText text).tokens := by
  obtain ⟨last, whole⟩ := exists_input text
  have none : Token.parens [.atEnd last] = [] := rfl
  have parts := congrArg Token.parens whole
  rw [Token.parens_append, none, List.append_nil] at parts
  exact parts.symm

theorem unterminated_iff (text : String) :
    (∃ d ∈ (ofText text).diagnostics, d.message = Segment.Fault.unterminatedString.message) ↔
      Segment.EndsInString text.toList := by
  rw [Segment.endsInString_iff, diagnostics_ofText]
  constructor
  · rintro ⟨d, known, message⟩
    obtain ⟨span, among, found⟩ := List.mem_filterMap.mp known
    have isOpen := (Segment.faultAt?_unterminated_iff _ _ _).mp ⟨d, found, message⟩
    exact ⟨span.2, Segment.mem_of_mem_spans among, isOpen⟩
  · rintro ⟨segment, known, isOpen⟩
    obtain ⟨span, among, rfl⟩ := Segment.exists_span known 0
    obtain ⟨d, found, message⟩ := (Segment.faultAt?_unterminated_iff text.toList span.1 _).mpr isOpen
    exact ⟨d, List.mem_filterMap.mpr ⟨span, among, found⟩, message⟩

end Scan

namespace Entry

/-- The depth behind a token of this kind. -/
def depthBehind (depth : Int) : Token.Kind → Int
  | .leftParen => depth + 1
  | .rightParen => depth - 1
  | _ => depth

/-- The depth behind all tokens. It may fall below zero. -/
def depth (tokens : List Token) : Int :=
  tokens.foldl (fun depth token => depthBehind depth token.kind) 0

theorem depth_eq_count (tokens : List Token) : depth tokens =
    (Token.parens tokens).count .opening - (Token.parens tokens).count .closing := by
  have counted (start : Int) : tokens.foldl (fun depth token => depthBehind depth token.kind) start =
      start + ((Token.parens tokens).count .opening - (Token.parens tokens).count .closing) := by
    induction tokens generalizing start with
    | nil => simp [Token.parens]
    | cons token tokens ih =>
      rw [List.foldl_cons, ih, ← List.singleton_append (x := token), Token.parens_append,
        Token.parens_singleton, List.count_append, List.count_append]
      cases token.kind <;> simp [depthBehind, Token.Kind.paren?] <;> omega
  rw [depth, counted, Int.zero_add]

/-- Each closing parenthesis that is left over takes away from the opening ones. -/
theorem depth_eq_unmatched (tokens : List Token) : depth tokens =
    (unmatched (Token.parens tokens)).opening - (unmatched (Token.parens tokens)).closing := by
  have partners := count_unmatched (Token.parens tokens)
  rw [depth_eq_count]
  omega

theorem isOpenString_eq : isOpenString = Segment.isOpen := by
  funext segment
  cases segment <;> rfl

theorem countP_isMark {kind : Token.Kind} {p : Paren} (only : ∀ k, k.paren? = some p ↔ k = kind)
    (segments : List Segment) :
    segments.countP (isMark kind) = (segments.filterMap Segment.paren?).count p := by
  rw [List.count, List.countP_filterMap]
  refine List.countP_congr fun segment _ => ?_
  cases segment with
  | lexeme k text =>
    rw [isMark, decide_eq_true_eq, ← only, Segment.paren?]
    cases k.paren? <;> simp
  | _ => simp [isMark, Segment.paren?]

theorem isOpen_iff_unmatched (text : List Char) : isOpen text = true ↔
    Segment.EndsInString text ∨
      (unmatched ((Segment.ofText text).filterMap Segment.paren?)).closing <
        (unmatched ((Segment.ofText text).filterMap Segment.paren?)).opening := by
  have opens (k : Token.Kind) : k.paren? = some .opening ↔ k = .leftParen := by
    cases k <;> simp [Token.Kind.paren?]
  have closes (k : Token.Kind) : k.paren? = some .closing ↔ k = .rightParen := by
    cases k <;> simp [Token.Kind.paren?]
  have partners := count_unmatched ((Segment.ofText text).filterMap Segment.paren?)
  rw [isOpen, Bool.or_eq_true, decide_eq_true_eq, isOpenString_eq, List.any_eq_true,
    Segment.endsInString_iff, countP_isMark opens, countP_isMark closes]
  exact or_congr_right (by omega)

/-- Entries are judged by what scanning finds. -/
theorem isOpen_iff_depth_pos (text : String) : isOpen text.toList = true ↔
    (∃ d ∈ (Scan.ofText text).diagnostics,
      d.message = Segment.Fault.unterminatedString.message) ∨
      0 < depth (Scan.ofText text).tokens := by
  rw [isOpen_iff_unmatched, Scan.unterminated_iff, depth_eq_unmatched, Scan.parens_ofText]
  exact or_congr_right (by omega)

/-- An entry is open if it ends inside a string or if the depth behind it is positive. That depth is the
number of opening parentheses that are left over less the number of closing ones, so where no closing
one is left over an entry is open just if it ends inside a string or leaves a parenthesis open. -/
theorem isOpen_iff_leavesOpen (text : String) :
    (isOpen text.toList = true ↔
      Segment.EndsInString text.toList ∨ 0 < depth (Scan.ofText text).tokens) ∧
    depth (Scan.ofText text).tokens =
      (unmatched (Token.parens (Scan.ofText text).tokens)).opening -
        (unmatched (Token.parens (Scan.ofText text).tokens)).closing ∧
    (AllOpened (·.kind.paren?) (Scan.ofText text).tokens →
      (isOpen text.toList = true ↔ Segment.EndsInString text.toList ∨
        LeavesOpen (·.kind.paren?) (Scan.ofText text).tokens)) := by
  have judged : isOpen text.toList = true ↔
      Segment.EndsInString text.toList ∨ 0 < depth (Scan.ofText text).tokens := by
    rw [isOpen_iff_depth_pos, Scan.unterminated_iff]
  have depth := depth_eq_unmatched (Scan.ofText text).tokens
  refine ⟨judged, depth, fun opened => ?_⟩
  have none : (unmatched (Token.parens (Scan.ofText text).tokens)).closing = 0 :=
    allOpened_iff.mp opened
  have left : LeavesOpen (·.kind.paren?) (Scan.ofText text).tokens ↔
      0 < (unmatched (Token.parens (Scan.ofText text).tokens)).opening := leavesOpen_iff
  rw [judged, left, depth, none]
  exact or_congr_right (by omega)

/-- The list of parameters is closed, but not the definition. -/
theorem isOpen_iff_leavesOpen_definition :
    AllOpened (·.kind.paren?) (Scan.ofText "(Define f(a)").tokens ∧
      LeavesOpen (·.kind.paren?) (Scan.ofText "(Define f(a)").tokens ∧
      isOpen "(Define f(a)".toList = true := by
  have opened : AllOpened (·.kind.paren?) (Scan.ofText "(Define f(a)").tokens :=
    allOpened_iff.mpr (by decide +kernel)
  have leaves : LeavesOpen (·.kind.paren?) (Scan.ofText "(Define f(a)").tokens :=
    leavesOpen_iff.mpr (by decide +kernel)
  exact ⟨opened, leaves, ((isOpen_iff_leavesOpen _).2.2 opened).mpr (.inr leaves)⟩

/-- A closing parenthesis that closes nothing counts against one that opens later. -/
theorem isOpen_stray :
    LeavesOpen (·.kind.paren?) (Scan.ofText ")(").tokens ∧
      ¬ (isOpen ")(".toList = true ↔ Segment.EndsInString ")(".toList ∨
        LeavesOpen (·.kind.paren?) (Scan.ofText ")(").tokens) := by
  have leaves : LeavesOpen (·.kind.paren?) (Scan.ofText ")(").tokens :=
    leavesOpen_iff.mpr (by decide +kernel)
  have closed : isOpen ")(".toList = false := by decide +kernel
  refine ⟨leaves, fun same => ?_⟩
  rw [same.mpr (.inr leaves)] at closed
  cases closed

/-! ### Programs without a fault -/

/-- The offset lies behind an opening parenthesis and not behind the one that closes it. -/
def InParens (n : Nat) (spans : List (Nat × Segment)) : Prop :=
  ∃ a b, Partners (·.2.paren?) spans a b ∧ a.1 < n ∧ ¬ b.1 < n

theorem not_isOpen_of_sound {segment : Segment} (sound : segment.isFault = false) :
    ¬ segment.isOpen = true := by
  cases segment with
  | openString => cases sound
  | _ => exact Bool.false_ne_true

theorem sound_of_clean {text : String} (scanned : (Scan.ofText text).diagnostics = []) :
    ∀ segment ∈ Segment.ofText text.toList, segment.isFault = false := by
  intro segment known
  rw [Scan.diagnostics_ofText, List.filterMap_eq_nil_iff] at scanned
  obtain ⟨span, among, rfl⟩ := Segment.exists_span known 0
  exact (Segment.faultAt?_eq_none_iff _ _ _).mp (scanned span among)

theorem unmatched_of_clean {text : String}
    (parsed : (Parse.ofTokens (Scan.ofText text).tokens).diagnostics = []) :
    unmatched ((Segment.ofText text.toList).filterMap Segment.paren?) = ⟨0, 0⟩ := by
  rw [← Scan.parens_ofText, ← Scan.parens_input]
  exact (Parse.sentence_of_clean parsed).unmatched

theorem length_of_paren {text : List Char} {span : Nat × Segment}
    (known : span ∈ Segment.spans 0 (Segment.ofText text)) (paren : span.2.paren? ≠ none) :
    span.2.text.length = 1 := by
  obtain ⟨after, lawful, -⟩ := Scan.stands_ofText text span known
  obtain ⟨i, segment⟩ := span
  cases lawful with
  | lexeme isLexeme =>
    obtain ⟨c, rfl, -⟩ := Segment.text_of_paren isLexeme paren
    rfl
  | _ => exact absurd rfl paren

section Cut

variable {text part : List Char} {front back tail : List Segment}
  (cut : Segment.Cut 0 part.length (Segment.ofText text) part front back tail)

include cut

/-- Only what the cut leaves of a segment can be an open string. -/
theorem endsInString_cut (sound : ∀ segment ∈ Segment.ofText text, segment.isFault = false) :
    Segment.EndsInString part ↔
      ∃ span ∈ Segment.spans 0 (Segment.ofText text), Segment.InString part.length span := by
  rw [Segment.endsInString_iff, ← cut.lexed.eq_ofText, ← cut.string]
  constructor
  · rintro ⟨segment, known, isOpen⟩
    rcases List.mem_append.mp known with early | last
    · have sound := sound segment (cut.whole ▸ List.mem_append_left back early)
      exact absurd isOpen (not_isOpen_of_sound sound)
    · exact ⟨segment, last, isOpen⟩
  · rintro ⟨segment, known, isOpen⟩
    exact ⟨segment, List.mem_append_right front known, isOpen⟩

theorem inParens_cut
    (pairs : unmatched ((Segment.ofText text).filterMap Segment.paren?) = ⟨0, 0⟩) :
    0 < (unmatched (front.filterMap Segment.paren?)).opening ↔
      InParens part.length (Segment.spans 0 (Segment.ofText text)) := by
  have split : Segment.spans 0 (Segment.ofText text) = Segment.spans 0 front ++
      Segment.spans (0 + (front.flatMap Segment.text).length) back := by
    rw [cut.whole, Segment.spans_append]
  have low : ∀ span ∈ Segment.spans 0 front, span.2.paren? ≠ none → span.1 < part.length := by
    intro span known paren
    have ends := cut.before span known
    have one := length_of_paren (split ▸ List.mem_append_left _ known) paren
    omega
  have high : ∀ span ∈ Segment.spans (0 + (front.flatMap Segment.text).length) back,
      span.2.paren? ≠ none → ¬ span.1 < part.length := by
    intro span known paren
    have ends := cut.behind span known
    have one := length_of_paren (split ▸ List.mem_append_right _ known) paren
    omega
  rw [← Segment.filterMap_spans Segment.paren? 0, split] at pairs
  rw [← Segment.filterMap_spans Segment.paren? 0, InParens, split]
  exact opening_front_pos_iff_partners pairs low high

end Cut

/-- A program without a fault is not open, and a part of it that is cut off anywhere is open just if the
cut is inside a string or between two parentheses that are partners. -/
theorem isOpen_of_clean {text : String} (scanned : (Scan.ofText text).diagnostics = [])
    (parsed : (Parse.ofTokens (Scan.ofText text).tokens).diagnostics = []) :
    isOpen text.toList = false ∧ ∃ segments, Segment.Lexed text.toList segments ∧
      (Scan.ofText text).tokens =
        (Segment.spans 0 segments).filterMap (fun span => span.2.tokenAt? text.toList span.1) ++
          [.atEnd (.ofOffset text.toList text.toList.length)] ∧
      ∀ part, part <+: text.toList → (isOpen part = true ↔
        (∃ span ∈ Segment.spans 0 segments, Segment.InString part.length span) ∨
          InParens part.length (Segment.spans 0 segments)) := by
  have sound := sound_of_clean scanned
  have pairs := unmatched_of_clean parsed
  have lexed := Segment.lexed_ofText text.toList
  refine ⟨?_, _, lexed, Scan.tokens_ofText text, fun part here => ?_⟩
  · rw [← Bool.not_eq_true, isOpen_iff_unmatched, Segment.endsInString_iff, pairs]
    rintro (⟨segment, known, isOpen⟩ | more)
    · exact not_isOpen_of_sound (sound segment known) isOpen
    · exact Nat.lt_irrefl 0 more
  · obtain ⟨front, back, tail, cut⟩ := lexed.exists_cut sound here (Nat.zero_add _)
    have parens : (Segment.ofText part).filterMap Segment.paren? = front.filterMap Segment.paren? := by
      rw [← cut.lexed.eq_ofText, List.filterMap_append, cut.parens, List.append_nil]
    have closing : (unmatched (front.filterMap Segment.paren?)).closing = 0 := by
      rw [cut.whole, List.filterMap_append] at pairs
      exact closing_front_eq_zero (by rw [pairs])
    rw [isOpen_iff_unmatched, endsInString_cut cut sound, parens, closing, inParens_cut cut pairs]

/-- A call with a parenthesis in a string. -/
def quotedParen : String := "f(\"a(\");"

theorem isOpen_of_clean_quotedParen :
    (Scan.ofText quotedParen).diagnostics = [] ∧
      (Parse.ofTokens (Scan.ofText quotedParen).tokens).diagnostics = [] ∧
      isOpen quotedParen.toList = false := by
  have scanned : (Scan.ofText quotedParen).diagnostics = [] := by decide +kernel
  have parsed : (Parse.ofTokens (Scan.ofText quotedParen).tokens).diagnostics = [] := by
    decide +kernel
  exact ⟨scanned, parsed, (isOpen_of_clean scanned parsed).1⟩

end Entry

end LispReader
