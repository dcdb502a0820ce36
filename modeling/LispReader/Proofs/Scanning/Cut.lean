import LispReader.Proofs.Scanning.Onward
import LispReader.Proofs.Scanning.Positions
import LispReader.Proofs.Syntax.Parens

/-!
# Texts that are cut off

Where a text without a lexical fault is cut off, the segments before the cut are those of the whole
text. What is left of the next segment may be scanned as something else, but it holds no parenthesis,
and it is an open string just if it was cut out of a string (`Cut`).
-/

namespace LispReader

namespace Segment

/-- Does scanning report the segment? -/
def isFault : Segment → Bool
  | .stray _ | .openString _ => true
  | _ => false

theorem Lawful.cut {segment : Segment} {after rest : List Char} (h : segment.Lawful after)
    (sound : segment.isFault = false) (here : rest <+: after) : segment.Lawful rest := by
  cases h with
  | blank known => exact .blank known
  | comment body stops => exact .comment body fun c known => stops c (mem_head?_of_front here c known)
  | lexeme isLexeme ends => exact .lexeme isLexeme (ends.of_beginsLike (.of_front here))
  | stray => cases sound
  | quote => cases sound
  | openString => cases sound

/-! ### What is left of a segment -/

def paren? : Segment → Option Paren
  | .lexeme kind _ => kind.paren?
  | _ => none

/-- The character begins no parenthesis and no string. -/
def Inert (c : Char) : Prop := c ≠ '(' ∧ c ≠ ')' ∧ c ≠ '"'

theorem inert_of_isWordChar {c : Char} (word : isWordChar c = true) : Inert c := by
  refine ⟨?_, ?_, ?_⟩ <;> rintro rfl <;> cases word

theorem inert_of_isLexeme {kind : Token.Kind} {text : List Char} {literal : Option Token.Literal}
    (h : IsLexeme kind text literal) (notParen : kind.paren? = none) (notString : kind ≠ .string) :
    ∀ c ∈ text, Inert c := by
  cases h with
  | mark spelled =>
    cases kind <;> cases spelled <;> simp [Token.Kind.paren?, Inert] at notParen ⊢
  | identifier word => exact fun c known => inert_of_isWordChar (word.all c known)
  | keyword k => cases k <;> simp [Keyword.spelling, Inert]
  | number numeral =>
    intro c known
    rcases numeral.all c known with rfl | digit
    · simp [Inert]
    · exact inert_of_isWordChar (isWordChar_of_isDigit digit)
  | string => exact absurd rfl notString

theorem text_of_paren {kind : Token.Kind} {text : List Char} {literal : Option Token.Literal}
    (h : IsLexeme kind text literal) (paren : kind.paren? ≠ none) : ∃ c, text = [c] ∧ ¬ Inert c := by
  cases h with
  | mark spelled =>
    cases kind <;> cases spelled <;> simp [Token.Kind.paren?, Inert] at paren ⊢
  | _ => exact absurd rfl paren

theorem Lexed.inert {text : List Char} {segments : List Segment} (h : Lexed text segments)
    (inert : ∀ c ∈ text, Inert c) :
    ∀ segment ∈ segments, segment.paren? = none ∧ segment.isOpen = false := by
  induction h with
  | nil => simp
  | @cons segment after more lawful _ ih =>
    obtain ⟨here, later⟩ := List.forall_mem_append.mp inert
    refine List.forall_mem_cons.mpr ⟨?_, ih later⟩
    cases lawful with
    | @lexeme kind _ _ _ isLexeme =>
      refine ⟨Classical.byContradiction fun paren => ?_, rfl⟩
      obtain ⟨c, rfl, other⟩ := text_of_paren isLexeme paren
      exact other (here c (List.mem_singleton_self c))
    | openString => exact absurd rfl (here '"' (List.mem_cons_self ..)).2.2
    | _ => exact ⟨rfl, rfl⟩

theorem ofText_inert {piece : List Char} (inert : ∀ c ∈ piece, Inert c) :
    (ofText piece).filterMap paren? = [] ∧ ¬ ∃ part ∈ ofText piece, part.isOpen = true := by
  have none := (lexed_ofText piece).inert inert
  refine ⟨List.filterMap_eq_nil_iff.mpr fun part known => (none part known).1, ?_⟩
  rintro ⟨part, known, isOpen⟩
  rw [(none part known).2] at isOpen
  cases isOpen

theorem ofText_openString {body : List Char} (inside : '"' ∉ body) :
    ofText ('"' :: body) = [.openString ('"' :: body)] := by
  have lexed : Lexed ('"' :: body ++ []) [.openString ('"' :: body)] := .cons (.openString inside) .nil
  rw [List.append_nil] at lexed
  exact lexed.eq_ofText.symm

theorem ofText_comment {body : List Char} (inside : '\n' ∉ body) :
    ofText ('/' :: '/' :: body) = [.comment ('/' :: '/' :: body)] := by
  have lexed : Lexed ('/' :: '/' :: body ++ []) [.comment ('/' :: '/' :: body)] :=
    .cons (.comment inside (by simp)) .nil
  rw [List.append_nil] at lexed
  exact lexed.eq_ofText.symm

/-- What is left of a segment that is cut off holds no parenthesis, and it is an open string just if the
segment is a string. -/
theorem ofText_of_cut {segment : Segment} {after piece : List Char} (lawful : segment.Lawful after)
    (sound : segment.isFault = false) (nonempty : piece ≠ []) (here : piece <+: segment.text)
    (shorter : piece.length < segment.text.length) :
    (ofText piece).filterMap paren? = [] ∧
      ((∃ part ∈ ofText piece, part.isOpen = true) ↔ ∃ text, segment = .lexeme .string text) := by
  have several : 2 ≤ segment.text.length := by
    have := List.length_pos_iff.mpr nonempty
    omega
  have silent (inert : ∀ c ∈ piece, Inert c) (other : ∀ text, segment ≠ .lexeme .string text) :
      (ofText piece).filterMap paren? = [] ∧
        ((∃ part ∈ ofText piece, part.isOpen = true) ↔ ∃ text, segment = .lexeme .string text) := by
    obtain ⟨parens, closed⟩ := ofText_inert inert
    exact ⟨parens, iff_of_false closed fun ⟨text, same⟩ => other text same⟩
  cases lawful with
  | blank => simp [Segment.text] at several
  | @comment body _ inside _ =>
    -- One slash alone is an operator; two of them begin a comment again.
    rcases List.prefix_cons_iff.mp here with rfl | ⟨more, rfl, within⟩
    · exact absurd rfl nonempty
    rcases List.prefix_cons_iff.mp within with rfl | ⟨rest, rfl, left⟩
    · exact silent (by simp [Inert]) (by simp)
    · rw [ofText_comment fun known => inside (left.mem known)]
      exact ⟨rfl, by simp [isOpen]⟩
  | @lexeme kind text _ _ isLexeme _ =>
    by_cases string : kind = .string
    · subst string
      cases isLexeme with
      | mark spelled => cases spelled
      | @string body closed =>
        rcases List.prefix_cons_iff.mp here with rfl | ⟨more, rfl, within⟩
        · exact absurd rfl nonempty
        rcases List.prefix_concat_iff.mp within with rfl | left
        · simp [Segment.text] at shorter
        · rw [ofText_openString fun known => closed (left.mem known)]
          exact ⟨rfl, by simp [isOpen]⟩
    · have notParen : kind.paren? = none := by
        refine Classical.byContradiction fun paren => ?_
        obtain ⟨c, rfl, -⟩ := text_of_paren isLexeme paren
        simp [Segment.text] at several
      have inert := inert_of_isLexeme isLexeme notParen string
      exact silent (fun c known => inert c (here.mem known))
        fun text same => string (Segment.lexeme.inj same).1
  | stray => cases sound
  | quote => cases sound
  | openString => cases sound

/-! ### Where a text is cut off -/

/-- The offset lies behind the first character of a string and before its end. -/
def InString (n : Nat) (span : Nat × Segment) : Prop :=
  ∃ text, span.2 = .lexeme .string text ∧ span.1 < n ∧ n < span.1 + text.length

/-- The first part of a text with these segments, which goes from offset `i` to offset `n`, is made of
whole segments and of what the cut leaves of one more. -/
structure Cut (i n : Nat) (segments : List Segment) (part : List Char)
    (front back tail : List Segment) : Prop where
  whole : segments = front ++ back
  lexed : Lexed part (front ++ tail)
  before : ∀ span ∈ spans i front, span.1 + span.2.text.length ≤ n
  behind : ∀ span ∈ spans (i + (front.flatMap text).length) back,
    n < span.1 + span.2.text.length
  parens : tail.filterMap paren? = []
  string : (∃ segment ∈ tail, segment.isOpen = true) ↔ ∃ span ∈ spans i segments, InString n span

theorem le_of_mem_spans {i : Nat} {segments : List Segment} {span : Nat × Segment}
    (known : span ∈ spans i segments) : i ≤ span.1 := by
  induction segments generalizing i with
  | nil => cases known
  | cons segment more ih =>
    rcases List.mem_cons.mp known with rfl | known
    · exact Nat.le_refl _
    · exact Nat.le_trans (Nat.le_add_right ..) (ih known)

theorem Lexed.lt_of_mem_spans {text : List Char} {segments : List Segment} (h : Lexed text segments)
    {i : Nat} {span : Nat × Segment} (known : span ∈ spans i segments) :
    i < span.1 + span.2.text.length := by
  induction h generalizing i with
  | nil => cases known
  | cons lawful _ ih =>
    rcases List.mem_cons.mp known with rfl | known
    · exact Nat.lt_add_of_pos_right (List.length_pos_iff.mpr lawful.text_ne_nil)
    · exact Nat.lt_of_le_of_lt (Nat.le_add_right ..) (ih known)

theorem not_inString_of_le {i n : Nat} {segments : List Segment} (h : n ≤ i) :
    ¬ ∃ span ∈ spans i segments, InString n span := by
  rintro ⟨span, known, text, -, low, -⟩
  have := le_of_mem_spans known
  omega

/-- A whole segment before a part that is cut off. -/
theorem Cut.cons {i n : Nat} {segment : Segment} {more front back tail : List Segment}
    {part : List Char} (h : Cut (i + segment.text.length) n more part front back tail)
    (lawful : segment.Lawful part) (ends : i + segment.text.length ≤ n) :
    Cut i n (segment :: more) (segment.text ++ part) (segment :: front) back tail := by
  have outside : ¬ InString n (i, segment) := by
    rintro ⟨text, rfl, -, high⟩
    exact absurd high (Nat.not_lt.mpr ends)
  constructor
  case whole => exact congrArg (List.cons segment) h.whole
  case lexed => exact .cons lawful h.lexed
  case before => exact List.forall_mem_cons.mpr ⟨ends, h.before⟩
  case behind =>
    rw [List.flatMap_cons, List.length_append, ← Nat.add_assoc]
    exact h.behind
  case parens => exact h.parens
  case string => rw [h.string, spans, List.exists_mem_cons_iff, or_iff_right outside]

/-- A cut through the first segment, or right before it. -/
theorem Lexed.cut_first {i n : Nat} {segment : Segment} {after part : List Char}
    {more : List Segment} (rest : Lexed after more) (lawful : segment.Lawful after)
    (sound : segment.isFault = false) (here : part <+: segment.text) (length : i + part.length = n)
    (shorter : part.length < segment.text.length) :
    Cut i n (segment :: more) part [] (segment :: more) (ofText part) := by
  have left : (ofText part).filterMap paren? = [] ∧
      ((∃ s ∈ ofText part, s.isOpen = true) ↔ InString n (i, segment)) := by
    by_cases empty : part = []
    · subst empty
      have notYet : ¬ InString n (i, segment) := by
        rintro ⟨text, -, low, -⟩
        simp [← length] at low
      rw [ofText]
      exact ⟨rfl, iff_of_false (by simp) notYet⟩
    · have some := List.length_pos_iff.mpr empty
      obtain ⟨parens, string⟩ := ofText_of_cut lawful sound empty here shorter
      refine ⟨parens, string.trans ?_⟩
      constructor
      · rintro ⟨text, rfl⟩
        simp only [Segment.text] at shorter
        exact ⟨text, rfl, by dsimp only; omega, by dsimp only; omega⟩
      · rintro ⟨text, same, -⟩
        exact ⟨text, same⟩
  have outside : ¬ ∃ span ∈ spans (i + segment.text.length) more, InString n span :=
    not_inString_of_le (by omega)
  constructor
  case whole => rfl
  case lexed => exact lexed_ofText part
  case before => simp [spans]
  case behind =>
    refine List.forall_mem_cons.mpr ⟨?_, fun span known => ?_⟩
    · simp only [List.flatMap_nil, List.length_nil]
      omega
    · have := rest.lt_of_mem_spans known
      simp only [List.flatMap_nil, List.length_nil] at this
      omega
  case parens => exact left.1
  case string => rw [left.2, spans, List.exists_mem_cons_iff, or_iff_left outside]

theorem Lexed.exists_cut {text : List Char} {segments : List Segment} (h : Lexed text segments)
    (sound : ∀ segment ∈ segments, segment.isFault = false) {i n : Nat} {part : List Char}
    (here : part <+: text) (length : i + part.length = n) :
    ∃ front back tail, Cut i n segments part front back tail := by
  induction h generalizing i part with
  | nil =>
    obtain rfl := List.prefix_nil.mp here
    exact ⟨[], [], [], rfl, .nil, by simp [spans], by simp [spans], rfl, by simp [spans]⟩
  | @cons segment after more lawful rest ih =>
    obtain ⟨soundHere, soundLater⟩ := List.forall_mem_cons.mp sound
    by_cases fits : segment.text.length ≤ part.length
    · obtain ⟨part, rfl⟩ := List.prefix_of_prefix_length_le (List.prefix_append ..) here fits
      have within := (List.prefix_append_right_inj _).mp here
      rw [List.length_append, ← Nat.add_assoc] at length
      obtain ⟨front, back, tail, cut⟩ := ih soundLater within length
      exact ⟨_, _, _, cut.cons (lawful.cut soundHere within) (by omega)⟩
    · have shorter := Nat.lt_of_not_le fits
      have within := List.prefix_of_prefix_length_le here (List.prefix_append ..) (by omega)
      exact ⟨_, _, _, rest.cut_first lawful soundHere within length shorter⟩

end Segment

end LispReader
