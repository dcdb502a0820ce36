import LispReader.Proofs.Parse.Cascade
import LispReader.Proofs.Scanning.Positions
import LispReader.Proofs.Text.Lines
import LispReader.Source.Run

/-!
# Where carets stand

A listing shows the line of a diagnostic with a caret under the column. There is such a line unless
the text has ended before it, the caret stands within it or right behind it, and where a lexeme is
blamed the line goes on with it from there. That is so of all diagnostics but those that blame a lexeme
of several lines: they have the column where it begins and the line where it ends
(`Source.caret_stands`, `Source.caret_astray`).
-/

namespace LispReader

open Position Segment

/-! ### The last character of a lexeme -/

/-- Does the text end in a character that is no end of a line? -/
def EndsInside (text : List Char) : Prop := ∃ c, text.getLast? = some c ∧ c ≠ '\r' ∧ c ≠ '\n'

theorem endsInside_of_forall {p : Char → Bool} {text : List Char} (nonempty : text ≠ [])
    (all : ∀ c ∈ text, p c = true) (other : p '\r' = false ∧ p '\n' = false) : EndsInside text := by
  have last := all _ (List.getLast_mem nonempty)
  refine ⟨text.getLast nonempty, List.getLast?_eq_some_getLast nonempty, ?_, ?_⟩
  · intro same
    rw [same, other.1] at last
    cases last
  · intro same
    rw [same, other.2] at last
    cases last

theorem EndsInside.append {text : List Char} (h : EndsInside text) (front : List Char) :
    EndsInside (front ++ text) := by
  obtain ⟨c, last, other⟩ := h
  exact ⟨c, by rw [List.getLast?_append, last]; rfl, other⟩

theorem EndsInside.behind_newline {front text : List Char} (h : EndsInside (front ++ ['\n'] ++ text)) :
    EndsInside text := by
  obtain ⟨c, last, other⟩ := h
  rw [List.getLast?_append, List.getLast?_concat] at last
  cases own : text.getLast? with
  | none =>
    rw [own] at last
    exact absurd (Option.some.inj last).symm other.2
  | some d =>
    rw [own] at last
    obtain rfl := Option.some.inj last
    exact ⟨d, own, other⟩

theorem IsLexeme.endsInside {kind : Token.Kind} {text : List Char} {literal : Option Token.Literal}
    (h : IsLexeme kind text literal) : EndsInside text := by
  cases h with
  | mark spelled => cases kind <;> cases spelled <;> exact ⟨_, rfl, by decide, by decide⟩
  | identifier word => exact endsInside_of_forall word.ne_nil word.all (by decide)
  | keyword k => cases k <;> exact ⟨_, rfl, by decide, by decide⟩
  | number numeral =>
    rcases numeral with ⟨nonempty, digits⟩ | ⟨whole, part, rfl, -, nonempty, digits⟩
    · exact endsInside_of_forall nonempty digits (by decide)
    · have ends : EndsInside part := endsInside_of_forall nonempty digits (by decide)
      exact (ends.append ['.']).append whole
  | @string body => exact ⟨'"', List.getLast?_concat .., by decide, by decide⟩

theorem IsLexeme.ne_eof {kind : Token.Kind} {text : List Char} {literal : Option Token.Literal}
    (h : IsLexeme kind text literal) : kind ≠ .eof := by
  rintro rfl
  cases h with
  | mark spelled => cases spelled

theorem Scan.complete_ofText (text : String) :
    Cursor.complete (ofText text).tokens = (ofText text).tokens := by
  rw [tokens_ofText]
  unfold Cursor.complete
  rw [List.getLast?_concat]
  rfl

/-! ### The line of an offset -/

theorem newline_not_mem_rtakeWhile (text : List Char) : '\n' ∉ text.rtakeWhile (· ≠ '\n') := by
  intro known
  simpa using List.mem_rtakeWhile_imp known

/-- Before the last line of a text there are whole lines. -/
theorem exists_whole_lines (text : List Char) : ∃ front,
    text = front ++ text.rtakeWhile (· ≠ '\n') ∧ (front = [] ∨ ∃ body, front = body ++ ['\n']) := by
  refine ⟨text.rdropWhile (· ≠ '\n'), List.rdropWhile_append_rtakeWhile.symm, ?_⟩
  by_cases empty : text.rdropWhile (· ≠ '\n') = []
  · exact .inl empty
  · have last := List.rdropWhile_last_not _ _ empty
    rw [decide_eq_true_eq, ne_eq, not_not] at last
    exact .inr ⟨_, last ▸ (List.dropLast_concat_getLast empty).symm⟩

/-- Before an offset there are whole lines and a part of its own. -/
theorem Position.exists_line_begin (text : List Char) (i : Nat) : ∃ front before,
    text = front ++ (before ++ text.drop i) ∧ (front = [] ∨ ∃ body, front = body ++ ['\n']) ∧
    '\n' ∉ before ∧ lineAt text i = front.count '\n' + 1 ∧ columnAt text i = before.length := by
  obtain ⟨front, parts, begins⟩ := exists_whole_lines (text.take i)
  have single := newline_not_mem_rtakeWhile (text.take i)
  refine ⟨front, _, ?_, begins, single, ?_, rfl⟩
  · rw [← List.append_assoc, ← parts, List.take_append_drop]
  · unfold lineAt
    rw [parts, List.count_append, List.count_eq_zero_of_not_mem single, Nat.add_zero]

theorem Position.lineAt_append {text piece after : List Char} {i : Nat}
    (here : text.drop i = piece ++ after) :
    lineAt text (i + piece.length) = lineAt text i + piece.count '\n' := by
  unfold lineAt
  rw [List.take_add, here, List.take_left, List.count_append, Nat.add_right_comm]

namespace Source

variable {source : Source} {i : Nat}

theorem line?_of_begin {front rest : List Char} (whole : source.text.toList = front ++ rest)
    (begins : front = [] ∨ ∃ body, front = body ++ ['\n']) :
    source.line? (front.count '\n' + 1) = (Text.lines rest).head?.map Text.chomp := by
  rw [line?, if_neg (Nat.succ_ne_zero _), Nat.add_sub_cancel, whole, Text.getElem?_lines begins]

/-- The line of an offset goes on from there with what stands there in the text. -/
theorem line?_of_piece {piece : List Char} (here : piece <+: source.text.toList.drop i)
    (single : '\n' ∉ piece) (ends : EndsInside piece) :
    ∃ line, source.line? (lineAt source.text.toList i) = some line ∧
      columnAt source.text.toList i ≤ line.length ∧
      piece <+: line.drop (columnAt source.text.toList i) := by
  obtain ⟨front, before, whole, begins, single', line, column⟩ :=
    exists_line_begin source.text.toList i
  obtain ⟨c, last, notReturn, -⟩ := ends.append before
  have nonempty : before ++ piece ≠ [] := List.ne_nil_of_mem (List.mem_of_getLast? last)
  obtain ⟨found, same, more, rfl⟩ := Text.prefix_chomp_head
    ((List.prefix_append_right_inj before).mpr here) nonempty (by simp [single, single'])
    (by simpa [last] using notReturn)
  rw [line, column, line?_of_begin whole begins, same]
  refine ⟨_, rfl, ?_, ?_⟩
  · simp
  · rw [List.append_assoc, List.drop_left]
    exact List.prefix_append _ _

theorem line?_end (source : Source) :
    (source.line? (lineAt source.text.toList source.text.toList.length) = none ∧
      ∀ c ∈ source.text.toList.getLast?, c = '\n') ∨
    ∃ line, source.line? (lineAt source.text.toList source.text.toList.length) = some line ∧
      columnAt source.text.toList source.text.toList.length = line.length := by
  obtain ⟨front, before, whole, begins, single, line, column⟩ :=
    exists_line_begin source.text.toList source.text.toList.length
  rw [List.drop_length, List.append_nil] at whole
  rw [line, column, line?_of_begin whole begins]
  by_cases empty : before = []
  · subst empty
    rw [List.append_nil] at whole
    refine .inl ⟨rfl, fun c last => ?_⟩
    rw [whole] at last
    rcases begins with rfl | ⟨body, rfl⟩
    · cases last
    · simpa using last.symm
  · rw [Text.lines_of_not_mem empty single, List.head?_cons, Option.map_some,
      Text.chomp_of_not_mem single]
    exact .inr ⟨before, rfl, rfl⟩

end Source

/-! ### What is reported of a text -/

namespace Source

/-- All that scanning and then parsing the text reports. -/
def diagnostics (source : Source) : List Diagnostic :=
  let (tokens, log) := Diagnostic.Log.empty.scan source.text
  (log.parse tokens).2.entries

/-- The position is that of the empty line behind the last newline, which is no line of the text. -/
def PastLines (source : Source) (pos : Position) : Prop :=
  source.line? pos.line = none ∧ pos = .ofOffset source.text.toList source.text.toList.length ∧
    ∀ c ∈ source.text.toList.getLast?, c = '\n'

/-- The column of the diagnostic lies in its line or right behind it, and a lexeme that is blamed, up to
its first newline, is what stands there. -/
def CaretStands (source : Source) (d : Diagnostic) : Prop :=
  source.PastLines d.pos ∨ ∃ line, source.line? d.pos.line = some line ∧
    0 ≤ d.pos.col ∧ d.pos.col ≤ line.length ∧ ∀ lexeme, d.place = .atLexeme lexeme →
      lexeme.toList.takeWhile (· ≠ '\n') <+: line.drop d.pos.col.toNat

variable {source : Source} {i : Nat} {d : Diagnostic}

theorem caretStands_of_piece {piece : List Char} (here : piece <+: source.text.toList.drop i)
    (single : '\n' ∉ piece) (ends : EndsInside piece)
    (line : d.pos.line = lineAt source.text.toList i)
    (column : d.pos.col = columnAt source.text.toList i)
    (blamed : ∀ lexeme, d.place = .atLexeme lexeme → lexeme.toList = piece) : source.CaretStands d := by
  obtain ⟨found, same, within, shown⟩ := line?_of_piece here single ends
  refine .inr ⟨found, line ▸ same, by omega, by omega, fun lexeme place => ?_⟩
  rw [blamed lexeme place, column, Int.toNat_natCast]
  exact (List.takeWhile_prefix _).trans shown

theorem caretStands_end (pos : d.pos = .ofOffset source.text.toList source.text.toList.length)
    (blamed : ∀ lexeme, d.place ≠ .atLexeme lexeme) : source.CaretStands d := by
  have line : d.pos.line = lineAt source.text.toList source.text.toList.length := by rw [pos]; rfl
  have column : d.pos.col = columnAt source.text.toList source.text.toList.length := by rw [pos]; rfl
  rcases source.line?_end with ⟨none, last⟩ | ⟨found, same, length⟩
  · exact .inl ⟨line ▸ none, pos, last⟩
  · refine .inr ⟨found, line ▸ same, by omega, by omega, fun lexeme place => ?_⟩
    exact absurd place (blamed lexeme)

/-- What a syntactic diagnostic of a text blames: the end or a lexeme. -/
theorem blamed_of_syntactic
    (known : d ∈ (Parse.ofTokens (Scan.ofText source.text).tokens).diagnostics) :
    (d.pos = .ofOffset source.text.toList source.text.toList.length ∧ d.place = .atEnd) ∨
    ∃ i kind piece literal after, IsLexeme kind piece literal ∧
      source.text.toList.drop i = piece ++ after ∧
      d.pos = ⟨lineAt source.text.toList (i + piece.length), columnAt source.text.toList i⟩ ∧
      d.place = .atLexeme (String.ofList piece) := by
  obtain ⟨token, among, same⟩ := Parse.exists_token_of_mem known
  rw [Scan.complete_ofText, Scan.tokens_ofText] at among
  rw [same]
  rcases List.mem_append.mp among with among | last
  · obtain ⟨⟨i, segment⟩, stands, made⟩ := List.mem_filterMap.mp among
    obtain ⟨after, lawful, here⟩ := Scan.stands_ofText _ _ stands
    cases lawful with
    | lexeme isLexeme =>
      obtain rfl := Option.some.inj made
      exact .inr ⟨i, _, _, _, after, isLexeme, here, rfl, if_neg isLexeme.ne_eof⟩
    | _ => cases made
  · obtain rfl := List.mem_singleton.mp last
    exact .inl ⟨rfl, rfl⟩

theorem caretStands_lexical (known : d ∈ (Scan.ofText source.text).diagnostics) :
    source.CaretStands d := by
  rw [Scan.diagnostics_ofText] at known
  obtain ⟨⟨i, segment⟩, stands, fault⟩ := List.mem_filterMap.mp known
  obtain ⟨after, lawful, here⟩ := Scan.stands_ofText _ _ stands
  cases segment with
  | stray c =>
    obtain rfl := Option.some.inj fault
    have other : c ≠ '\r' ∧ c ≠ '\n' := by
      cases lawful with
      | stray notBlank => constructor <;> rintro rfl <;> simp at notBlank
      | quote => decide
    have here : [c] <+: source.text.toList.drop i := ⟨after, here.symm⟩
    exact caretStands_of_piece here (by simpa using other.2.symm) ⟨c, rfl, other⟩ rfl rfl
      (fun _ place => by cases place)
  | openString _ =>
    obtain rfl := Option.some.inj fault
    exact caretStands_end rfl (fun _ place => by cases place)
  | _ => cases fault

theorem caretStands_of_lexeme {kind : Token.Kind} {piece after : List Char}
    {literal : Option Token.Literal} (isLexeme : IsLexeme kind piece literal)
    (here : source.text.toList.drop i = piece ++ after) (single : '\n' ∉ piece)
    (pos : d.pos = ⟨lineAt source.text.toList (i + piece.length), columnAt source.text.toList i⟩)
    (place : d.place = .atLexeme (String.ofList piece)) : source.CaretStands d := by
  have line := lineAt_append here
  rw [List.count_eq_zero_of_not_mem single, Nat.add_zero] at line
  refine caretStands_of_piece ⟨after, here.symm⟩ single isLexeme.endsInside ?_ ?_ ?_
  · rw [pos]
    exact line
  · rw [pos]
  · intro lexeme blamed
    obtain rfl := Diagnostic.Place.atLexeme.inj (place.symm.trans blamed)
    exact String.toList_ofList

/-- The part of a lexeme behind its last newline begins the line where the lexeme ends. -/
theorem line?_of_last_line {piece after : List Char} (here : source.text.toList.drop i = piece ++ after)
    (ends : EndsInside piece) (several : '\n' ∈ piece) :
    ∃ line, source.line? (lineAt source.text.toList (i + piece.length)) = some line ∧
      piece.rtakeWhile (· ≠ '\n') <+: line := by
  have single := newline_not_mem_rtakeWhile piece
  obtain ⟨front, parts, begins⟩ := exists_whole_lines piece
  generalize last : piece.rtakeWhile (· ≠ '\n') = tail at single parts ⊢
  obtain ⟨body, rfl⟩ : ∃ body, front = body ++ ['\n'] := by
    rcases begins with rfl | begins
    · rw [parts] at several
      exact absurd several single
    · exact begins
  have there : source.text.toList.drop (i + (body ++ ['\n']).length) = tail ++ after := by
    rw [← List.drop_drop, here, parts, List.append_assoc, List.drop_left]
  have column : columnAt source.text.toList (i + (body ++ ['\n']).length) = 0 := by
    unfold columnAt
    rw [List.take_add, here, parts, List.append_assoc, List.take_left, ← List.append_assoc,
      List.rtakeWhile_concat_neg _ _ _ (by simp), List.length_nil]
  rw [parts] at ends
  obtain ⟨line, found, -, shown⟩ := line?_of_piece ⟨after, there.symm⟩ single ends.behind_newline
  have below := lineAt_append there
  rw [List.count_eq_zero_of_not_mem single, Nat.add_zero, Nat.add_assoc, ← List.length_append,
    ← parts] at below
  rw [column] at shown
  exact ⟨line, below ▸ found, shown⟩

/-- The caret of a diagnostic stands under what it blames, unless that is a lexeme of several lines. Of
such a lexeme, it is the last line that is shown. -/
theorem caret_stands (source : Source) : ∀ d ∈ source.diagnostics,
    ((∀ lexeme, d.place = .atLexeme lexeme → '\n' ∉ lexeme.toList) → source.CaretStands d) ∧
    ∀ lexeme, d.place = .atLexeme lexeme → '\n' ∈ lexeme.toList →
      ∃ line, source.line? d.pos.line = some line ∧ lexeme.toList.rtakeWhile (· ≠ '\n') <+: line := by
  intro d known
  rcases List.mem_append.mp known with lexical | syntactic
  · obtain ⟨_, -, same⟩ := List.mem_map.mp lexical
    refine ⟨fun _ => caretStands_lexical lexical, fun lexeme place => ?_⟩
    rw [← same] at place
    cases place
  · rcases blamed_of_syntactic syntactic with ⟨pos, place⟩ |
      ⟨i, kind, piece, literal, after, isLexeme, here, pos, place⟩
    · constructor
      · intro _
        exact caretStands_end pos fun lexeme blamed => by simp [place] at blamed
      · intro lexeme blamed
        simp [place] at blamed
    · constructor
      · intro single
        exact caretStands_of_lexeme isLexeme here (by simpa using single _ place) pos place
      · intro lexeme blamed several
        obtain rfl := Diagnostic.Place.atLexeme.inj (place.symm.trans blamed)
        rw [String.toList_ofList] at several ⊢
        rw [pos]
        exact line?_of_last_line here isLexeme.endsInside several

/-- A name is blamed on the second line. -/
def twoNames : Source := .prompt "total\r\n  count;"

theorem caret_stands_twoNames :
    (⟨.syntactic, ⟨2, 2⟩, .atLexeme "count", "Expect ';' after expression."⟩ ∈ twoNames.diagnostics) ∧
      twoNames.CaretStands ⟨.syntactic, ⟨2, 2⟩, .atLexeme "count", "Expect ';' after expression."⟩ := by
  have known : ⟨.syntactic, ⟨2, 2⟩, .atLexeme "count", "Expect ';' after expression."⟩ ∈
      twoNames.diagnostics := by decide +kernel
  refine ⟨known, (caret_stands twoNames _ known).1 ?_⟩
  rintro _ ⟨⟩
  decide

/-- A string that begins further right on its first line than its last line goes. -/
def longString : Source := .prompt "total \"a\nb\";"

/-- The caret stands beyond the last line of the string. -/
theorem caret_astray :
    (⟨.syntactic, ⟨2, 6⟩, .atLexeme "\"a\nb\"", "Expect ';' after expression."⟩ ∈
        longString.diagnostics) ∧
      ¬ longString.CaretStands
        ⟨.syntactic, ⟨2, 6⟩, .atLexeme "\"a\nb\"", "Expect ';' after expression."⟩ := by
  have line : longString.line? 2 = some ['b', '"', ';'] := by decide +kernel
  refine ⟨by decide +kernel, ?_⟩
  rintro (⟨none, -⟩ | ⟨found, same, -, within, -⟩)
  · rw [line] at none
    cases none
  · obtain rfl := Option.some.inj (line.symm.trans same)
    exact absurd within (by decide)

end Source

end LispReader
