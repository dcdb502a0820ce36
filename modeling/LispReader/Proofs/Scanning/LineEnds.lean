import LispReader.Grammar.Program
import LispReader.Proofs.Scanning.Onward
import LispReader.Proofs.Scanning.Respelling

/-!
# How lines end

A text with a carriage return before every newline is scanned like the text without them, unless a string
goes over the end of a line and keeps the carriage return (`Scan.ofText_withReturns`). A comment takes the
carriage return in and anywhere else it is a blank; in either case the newline behind it begins the line.
-/

namespace LispReader

open Segment

namespace Text

/-- Puts a carriage return before every newline. -/
def withReturns (text : List Char) : List Char :=
  text.flatMap fun c => if c = '\n' then ['\r', '\n'] else [c]

theorem withReturns_append (a b : List Char) :
    withReturns (a ++ b) = withReturns a ++ withReturns b := List.flatMap_append

theorem withReturns_cons {c : Char} (other : c ≠ '\n') (text : List Char) :
    withReturns (c :: text) = c :: withReturns text := by
  rw [withReturns, List.flatMap_cons, if_neg other]
  rfl

theorem withReturns_of_not_mem {text : List Char} (single : '\n' ∉ text) : withReturns text = text := by
  induction text with
  | nil => rfl
  | cons c text ih =>
    obtain ⟨other, single⟩ := List.ne_and_not_mem_of_not_mem_cons single
    rw [withReturns_cons (Ne.symm other), ih single]

theorem mem_withReturns {c : Char} {text : List Char} (known : c ∈ withReturns text) :
    c = '\r' ∨ c ∈ text := by
  obtain ⟨d, among, known⟩ := List.mem_flatMap.mp known
  split at known
  · rename_i newline
    subst newline
    simp only [List.mem_cons, List.not_mem_nil, or_false] at known
    exact known.imp_right fun same => by rwa [same]
  · rw [List.mem_singleton.mp known]
    exact .inr among

theorem head?_withReturns (text : List Char) :
    ∀ c ∈ (withReturns text).head?, c = '\r' ∨ c ∈ text.head? := by
  cases text with
  | nil => exact fun _ known => .inr known
  | cons d text =>
    by_cases newline : d = '\n'
    · subst newline
      rintro _ ⟨⟩
      exact .inl rfl
    · rw [withReturns_cons newline]
      rintro _ ⟨⟩
      exact .inr rfl

theorem withReturns_eq_cons {c : Char} {rest text : List Char} (same : withReturns text = c :: rest)
    (other : c ≠ '\r') : ∃ more, text = c :: more ∧ rest = withReturns more := by
  cases text with
  | nil => cases same
  | cons d more =>
    by_cases newline : d = '\n'
    · subst newline
      exact absurd (List.cons.inj same).1.symm other
    · rw [withReturns_cons newline] at same
      obtain ⟨rfl, rfl⟩ := List.cons.inj same
      exact ⟨more, rfl, rfl⟩

theorem beginsLike_withReturns (text : List Char) : BeginsLike (withReturns text) text := by
  have blank : '\r' ∈ [' ', '\r', '\t', '\n'] := by decide
  constructor
  case first =>
    intro c known
    exact (head?_withReturns text c known).imp_left fun same => by rwa [same]
  case point =>
    intro c rest' same
    obtain ⟨rest, rfl, behind⟩ := withReturns_eq_cons same (by decide)
    have next := head?_withReturns rest c (by rw [← behind]; rfl)
    refine next.imp (fun same => by rwa [same]) fun first => ?_
    obtain ⟨more, rfl⟩ := List.head?_eq_some_iff.mp first
    exact ⟨more, rfl⟩

end Text

open Text

/-- The newline sets the column back, so the carriage return before it does not count. -/
theorem Position.advance_withReturns (pos : Position) (text : List Char) :
    pos.advance (withReturns text) = pos.advance text := by
  induction text generalizing pos with
  | nil => rfl
  | cons c text ih =>
    by_cases newline : c = '\n'
    · subst newline
      exact ih _
    · rw [withReturns_cons newline, advance_cons, advance_cons, ih]

/-! ### Segments that are on one line -/

theorem IsLexeme.newline_not_mem {kind : Token.Kind} {text : List Char} {literal : Option Token.Literal}
    (h : IsLexeme kind text literal) (other : kind ≠ .string) : '\n' ∉ text := by
  cases h with
  | mark spelled => cases kind <;> cases spelled <;> decide
  | identifier word => exact fun known => absurd (word.all _ known) (by decide)
  | keyword k => cases k <;> decide
  | number numeral =>
    intro known
    rcases numeral.all _ known with point | digit
    · cases point
    · cases digit
  | string => exact absurd rfl other

namespace Segment

/-- A string that is closed does not go over the end of a line. -/
def OnOneLine (segment : Segment) : Prop := ∀ text, segment = .lexeme .string text → '\n' ∉ text

theorem Lawful.withReturns {c : Char} {after : List Char} (h : (Segment.stray c).Lawful after) :
    (Segment.stray c).Lawful (withReturns after) := by
  cases h with
  | stray notBlank none => exact .stray notBlank none
  | quote other =>
    refine .quote fun rest' same => ?_
    obtain ⟨rest, rfl, rfl⟩ := withReturns_eq_cons same (by decide)
    obtain ⟨c, first, word⟩ := other rest rfl
    obtain ⟨more, rfl⟩ := List.head?_eq_some_iff.mp first
    have notNewline : c ≠ '\n' := by
      rintro rfl
      cases word
    exact ⟨c, by rw [withReturns_cons notNewline]; rfl, word⟩

end Segment

/-! ### Side by side -/

namespace Scan

/-- A comment takes in a blank that stands behind it on its line. -/
theorem onward_comment_blank {c : Char} {body after : List Char} (inside : '\n' ∉ body)
    (blank : c ∈ [' ', '\r', '\t', '\n']) (other : c ≠ '\n') (stops : ∀ d ∈ after.head?, d = '\n')
    (pos : Position) : onward pos ('/' :: '/' :: body ++ c :: after) =
      onward (pos.advance ('/' :: '/' :: body)) (c :: after) := by
  have longer : '\n' ∉ body ++ [c] := List.not_mem_append inside (by simpa using Ne.symm other)
  have whole : onward pos ('/' :: '/' :: (body ++ [c]) ++ after) =
      onward (pos.advance ('/' :: '/' :: (body ++ [c]))) after :=
    onward_append (.comment longer stops) pos
  rw [onward_blank blank]
  simpa [Position.advance_append] using whole

end Scan

namespace Segment

theorem Lexed.onward_withReturns {text : List Char} {segments : List Segment} (h : Lexed text segments)
    (single : ∀ segment ∈ segments, segment.OnOneLine) (pos : Position) :
    Scan.onward pos (withReturns text) = Scan.onward pos text := by
  induction h generalizing pos with
  | nil => rfl
  | @cons segment after more lawful _ ih =>
    obtain ⟨here, single⟩ := List.forall_mem_cons.mp single
    have ih := ih single
    have plain := Scan.onward_append lawful pos
    -- A segment without a newline stays as it is, if only it may stand before what follows.
    have stays (single : '\n' ∉ segment.text) (lawful' : segment.Lawful (withReturns after)) :
        Scan.onward pos (withReturns (segment.text ++ after)) =
          Scan.onward pos (segment.text ++ after) := by
      rw [withReturns_append, withReturns_of_not_mem single, Scan.onward_append lawful', plain, ih]
    cases lawful with
    | @blank c _ blank =>
      by_cases newline : c = '\n'
      · subst newline
        show Scan.onward pos ('\r' :: '\n' :: withReturns after) = Scan.onward pos ('\n' :: after)
        rw [Scan.onward_blank (by decide), Scan.onward_blank blank, Scan.onward_blank blank]
        exact ih _
      · exact stays (by simpa [Segment.text] using Ne.symm newline) (.blank blank)
    | @comment body _ inside stops =>
      cases after with
      | nil => exact stays (by simpa [Segment.text] using inside) (.comment inside stops)
      | cons c rest =>
        obtain rfl : c = '\n' := stops c rfl
        have ends : ∀ d ∈ ('\n' :: withReturns rest).head?, d = '\n' := by
          rintro _ ⟨⟩
          rfl
        have single : '\n' ∉ '/' :: '/' :: body := by simpa using inside
        show Scan.onward pos (withReturns ('/' :: '/' :: body ++ '\n' :: rest)) = _
        rw [withReturns_append, withReturns_of_not_mem single]
        rw [plain]
        exact (Scan.onward_comment_blank inside (by decide) (by decide) ends pos).trans (ih _)
    | @lexeme kind text _ _ isLexeme ends =>
      refine stays ?_ (.lexeme isLexeme (ends.of_beginsLike (beginsLike_withReturns after)))
      by_cases string : kind = .string
      · exact here text (by rw [string])
      · exact isLexeme.newline_not_mem string
    | stray notBlank none =>
      refine stays (fun known => notBlank ?_) (Lawful.withReturns (.stray notBlank none))
      rw [← List.mem_singleton.mp known]
      decide
    | quote other => exact stays (by decide) (Lawful.withReturns (.quote other))
    | @openString body inside =>
      have inside' : '"' ∉ withReturns body := fun known =>
        (mem_withReturns known).elim (by decide) inside
      have same : pos.advance ('"' :: withReturns body) = pos.advance ('"' :: body) :=
        Position.advance_withReturns _ body
      have whole := Scan.onward_append (.openString inside') pos
      rw [plain]
      show Scan.onward pos (withReturns ('"' :: body ++ [])) = _
      rw [withReturns_append, withReturns_cons (by decide)]
      refine whole.trans ?_
      simp only [Scan.behind, Segment.text, token?, fault?, same]

end Segment

namespace Scan

/-- Where no string goes over the end of a line, it makes no difference how lines end. -/
theorem ofText_withReturns {text : String}
    (single : ∀ token ∈ (ofText text).tokens, token.kind = .string → '\n' ∉ token.lexeme.toList) :
    let returned := String.ofList (withReturns text.toList)
    ofText returned = ofText text ∧
      Parse.ofTokens (ofText returned).tokens = Parse.ofTokens (ofText text).tokens := by
  intro returned
  have same : ofText returned = ofText text := by
    rw [ofText_eq_onward, ofText_eq_onward, String.toList_ofList]
    refine (Segment.lexed_ofText text.toList).onward_withReturns ?_ .start
    rintro _ known lexeme rfl
    have content : (.string, String.ofList lexeme, literal .string lexeme) ∈
        (Segment.ofText text.toList).filterMap content? := List.mem_filterMap.mpr ⟨_, known, rfl⟩
    rw [← Segment.map_content_place .start, ← filter_tokens] at content
    obtain ⟨token, among, same⟩ := List.mem_map.mp content
    obtain ⟨kind, rest⟩ := Prod.mk.inj same
    have line := single token (List.mem_filter.mp among).1 kind
    rwa [(Prod.mk.inj rest).1, String.toList_ofList] at line
  exact ⟨same, by rw [same]⟩

/-- The ends of lines come after a point, a quote, half an operator and a comment, and in an open string. -/
theorem ofText_withReturns_everywhere :
    let text := "x 1.\n'\n=\n= // \"\n\"a\" \"open\n"
    (∀ token ∈ (ofText text).tokens, token.kind = .string → '\n' ∉ token.lexeme.toList) ∧
      ofText "x 1.\r\n'\r\n=\r\n= // \"\r\n\"a\" \"open\r\n" = ofText text := by
  intro text
  have single : ∀ token ∈ (ofText text).tokens, token.kind = .string → '\n' ∉ token.lexeme.toList := by
    decide +kernel
  have returned : String.ofList (withReturns text.toList) =
      "x 1.\r\n'\r\n=\r\n= // \"\r\n\"a\" \"open\r\n" := by decide +kernel
  have same := (ofText_withReturns single).1
  rw [returned] at same
  exact ⟨single, same⟩

end Scan

end LispReader
