import LispReader.Token.Basic

/-!
# Segments of a text

A text falls apart into blanks, comments, lexemes, characters that begin nothing, and at its end
perhaps a string that is never closed. `Segment.first` finds the first segment, the longest that may
stand there, and `Segment.ofText` finds them all. By `flatten_text` no character is lost or moved.
-/

namespace LispReader

inductive Segment where
  | blank (c : Char)
  | comment (text : List Char)
  | lexeme (kind : Token.Kind) (text : List Char)
  | stray (c : Char)
  | openString (text : List Char)
deriving DecidableEq

namespace Segment

/-- The characters of a segment. -/
def text : Segment → List Char
  | .blank c => [c]
  | .comment text => text
  | .lexeme _ text => text
  | .stray c => [c]
  | .openString text => text

/-! ### Characters -/

/-- ASCII digits only. -/
def isDigit (c : Char) : Bool := '0' ≤ c && c ≤ '9'

/-- ASCII letters and the underscore. -/
def isLetter (c : Char) : Bool := 'a' ≤ c && c ≤ 'z' || 'A' ≤ c && c ≤ 'Z' || c == '_'

def isWordChar (c : Char) : Bool := isLetter c || isDigit c

/-- What a character may begin. -/
inductive Opening where
  | blank
  /-- A mark that is a token whatever follows. -/
  | mark (kind : Token.Kind)
  /-- A mark that is another token together with an equals sign after it. -/
  | relation (alone joined : Token.Kind)
  | slash
  | doubleQuote
  | quote
  | digit
  | letter
  | nothing

def Opening.ofChar : Char → Opening
  | ' ' | '\r' | '\t' | '\n' => .blank
  | '(' => .mark .leftParen
  | ')' => .mark .rightParen
  | ',' => .mark .comma
  | '-' => .mark .minus
  | '+' => .mark .plus
  | ';' => .mark .semicolon
  | '*' => .mark .star
  | '=' => .relation .equal .equalEqual
  | '<' => .relation .less .lessEqual
  | '>' => .relation .greater .greaterEqual
  | '/' => .slash
  | '"' => .doubleQuote
  | '\'' => .quote
  | c => if isDigit c then .digit else if isLetter c then .letter else .nothing

/-! ### The first segment -/

/-- The fraction at the head of `text`: a point counts only with a digit after it. -/
def fraction : List Char → List Char
  | '.' :: c :: text => if isDigit c then '.' :: c :: text.takeWhile isDigit else []
  | _ => []

/-- A numeral whose first digit is `c`. -/
def numeral (c : Char) (rest : List Char) : List Char :=
  c :: rest.takeWhile isDigit ++ fraction (rest.dropWhile isDigit)

/-- A word is a keyword if it is spelled like one. -/
def wordKind (word : List Char) : Token.Kind :=
  match Keyword.ofSpelling? word with
  | some k => .keyword k
  | none => .identifier

/-- The first segment of `c :: rest`. -/
def first (c : Char) (rest : List Char) : Segment :=
  match Opening.ofChar c with
  | .blank => .blank c
  | .mark kind => .lexeme kind [c]
  | .relation alone joined =>
    if rest.head? = some '=' then .lexeme joined [c, '='] else .lexeme alone [c]
  | .slash =>
    if rest.head? = some '/' then .comment (c :: rest.takeWhile (· != '\n')) else .lexeme .slash [c]
  | .doubleQuote =>
    let body := rest.takeWhile (· != '"')
    match rest.dropWhile (· != '"') with
    | [] => .openString (c :: body)
    | _ => .lexeme .string (c :: body ++ ['"'])
  | .quote =>
    let word := c :: rest.takeWhile isWordChar
    match Keyword.ofSpelling? word with
    | some k => .lexeme (.keyword k) word
    | none => .stray c
  | .digit => .lexeme .number (numeral c rest)
  | .letter =>
    let word := c :: rest.takeWhile isWordChar
    .lexeme (wordKind word) word
  | .nothing => .stray c

theorem isPrefix_fraction (text : List Char) : fraction text <+: text := by
  unfold fraction
  split
  · split
    · exact (List.prefix_cons_inj _).mpr ((List.prefix_cons_inj _).mpr (List.takeWhile_prefix _))
    · exact List.nil_prefix
  · exact List.nil_prefix

theorem isPrefix_takeWhile_append {p : Char → Bool} {rest more : List Char}
    (h : more <+: rest.dropWhile p) : rest.takeWhile p ++ more <+: rest := by
  obtain ⟨left, h⟩ := h
  exact ⟨left, by rw [List.append_assoc, h, List.takeWhile_append_dropWhile]⟩

/-- The first segment begins with `c` and goes on as the text does. -/
theorem text_first (c : Char) (rest : List Char) :
    ∃ more, (first c rest).text = c :: more ∧ more <+: rest := by
  unfold first
  split
  · exact ⟨[], rfl, List.nil_prefix⟩
  · exact ⟨[], rfl, List.nil_prefix⟩
  · split
    · rename_i h
      obtain ⟨tail, rfl⟩ := List.head?_eq_some_iff.mp h
      exact ⟨['='], rfl, tail, rfl⟩
    · exact ⟨[], rfl, List.nil_prefix⟩
  · split
    · exact ⟨_, rfl, List.takeWhile_prefix _⟩
    · exact ⟨[], rfl, List.nil_prefix⟩
  · dsimp only
    split
    · exact ⟨_, rfl, List.takeWhile_prefix _⟩
    · rename_i closed
      refine ⟨_, rfl, isPrefix_takeWhile_append ?_⟩
      cases found : rest.dropWhile (· != '"') with
      | nil => exact absurd found closed
      | cons d after =>
        have := List.head?_dropWhile_not (· != '"') rest
        simp only [found, List.head?_cons, bne_eq_false_iff_eq] at this
        exact this ▸ ⟨after, rfl⟩
  · dsimp only
    split
    · exact ⟨_, rfl, List.takeWhile_prefix _⟩
    · exact ⟨[], rfl, List.nil_prefix⟩
  · exact ⟨_, rfl, isPrefix_takeWhile_append (isPrefix_fraction _)⟩
  · exact ⟨_, rfl, List.takeWhile_prefix _⟩
  · exact ⟨[], rfl, List.nil_prefix⟩

/-! ### All segments -/

/-- The segments of a text, in order. -/
def ofText : List Char → List Segment
  | [] => []
  | c :: rest =>
    let segment := first c rest
    segment :: ofText (rest.drop (segment.text.length - 1))
termination_by text => text.length
decreasing_by simp only [List.length_cons, List.length_drop]; omega

theorem flatten_text (text : List Char) : (ofText text).flatMap Segment.text = text := by
  fun_induction ofText text with
  | case1 => rfl
  | case2 c rest segment ih =>
    obtain ⟨more, same, left, rfl⟩ := text_first c rest
    rw [List.flatMap_cons, ih]
    simp only [segment, same, List.length_cons, Nat.add_sub_cancel, List.drop_left,
      List.cons_append]

end Segment

end LispReader
