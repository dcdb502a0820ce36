import LispReader.Proofs.Scanning.Lexeme

/-!
# Lawful segments

`Segment.Lawful` says what a segment may be, given what follows it, without reference to how it is
found. The first segment of a text is lawful (`lawful_first`), and no other one is there
(`Lawful.eq_first`).
-/

namespace LispReader

namespace Segment

inductive Lawful : Segment → List Char → Prop where
  | blank {c : Char} {after : List Char} :
    c ∈ [' ', '\r', '\t', '\n'] → Lawful (.blank c) after
  | comment {body after : List Char} :
    '\n' ∉ body → (∀ c ∈ after.head?, c = '\n') → Lawful (.comment ('/' :: '/' :: body)) after
  | lexeme {kind : Token.Kind} {text after : List Char} {literal : Option Token.Literal} :
    IsLexeme kind text literal → kind.EndsBefore text after → Lawful (.lexeme kind text) after
  /-- No lexeme begins with the character. -/
  | stray {c : Char} {after : List Char} :
    c ∉ [' ', '\r', '\t', '\n'] → (∀ kind more literal, ¬ IsLexeme kind (c :: more) literal) →
    Lawful (.stray c) after
  /-- What follows the quote is not `t`, or it is a longer word. -/
  | quote {after : List Char} :
    (∀ rest, after = 't' :: rest → ∃ c ∈ rest.head?, isWordChar c = true) → Lawful (.stray '\'') after
  | openString {body : List Char} : '"' ∉ body → Lawful (.openString ('"' :: body)) []

/-! ### The first segment is lawful -/

section Numeral

theorem allDigits_takeWhile {c : Char} (digit : isDigit c = true) (rest : List Char) :
    AllDigits (c :: rest.takeWhile isDigit) := by
  refine ⟨List.cons_ne_nil _ _, List.forall_mem_cons.mpr ⟨digit, fun d known => ?_⟩⟩
  exact List.all_eq_true.mp List.all_takeWhile d known

theorem fraction_cases (text : List Char) :
    (fraction text = [] ∧ ∀ c rest, text = '.' :: c :: rest → isDigit c = false) ∨
      ∃ c rest, text = '.' :: c :: rest ∧ isDigit c = true ∧
        fraction text = '.' :: c :: rest.takeWhile isDigit := by
  unfold fraction
  split
  · rename_i c rest
    cases digit : isDigit c with
    | true => exact .inr ⟨c, rest, rfl, digit, if_pos rfl⟩
    | false =>
      refine .inl ⟨if_neg Bool.false_ne_true, ?_⟩
      rintro _ _ ⟨⟩
      exact digit
  · rename_i other
    exact .inl ⟨rfl, fun c rest same => (other c rest same).elim⟩

theorem head?_dropWhile {p : Char → Bool} (text : List Char) :
    ∀ c ∈ (text.dropWhile p).head?, p c = false := by
  intro c first
  have := List.head?_dropWhile_not p text
  rw [first] at this
  exact this

theorem ends_takeWhile {p : Char → Bool} {text after : List Char}
    (same : text = text.takeWhile p ++ after) : ∀ c ∈ after.head?, p c = false := by
  have left : text.dropWhile p = after :=
    List.append_cancel_left ((List.takeWhile_append_dropWhile ..).trans same)
  exact left ▸ head?_dropWhile text

theorem isNumeral_numeral {c : Char} (digit : isDigit c = true) (rest : List Char) :
    IsNumeral (numeral c rest) := by
  unfold numeral
  rcases fraction_cases (rest.dropWhile isDigit) with ⟨none, -⟩ | ⟨d, more, -, digit', some⟩
  · rw [none, List.append_nil]
    exact .inl (allDigits_takeWhile digit rest)
  · rw [some]
    exact .inr ⟨_, _, rfl, allDigits_takeWhile digit rest, allDigits_takeWhile digit' more⟩

theorem endsBefore_numeral {c : Char} {rest after : List Char}
    (same : c :: rest = numeral c rest ++ after) :
    Token.Kind.number.EndsBefore (numeral c rest) after := by
  have whole := List.takeWhile_append_dropWhile (p := isDigit) (l := rest)
  have left : rest.dropWhile isDigit = fraction (rest.dropWhile isDigit) ++ after := by
    refine List.append_cancel_left (whole.trans ?_)
    simpa [numeral] using same
  rcases fraction_cases (rest.dropWhile isDigit) with ⟨none, point⟩ | ⟨d, more, text, digit', some⟩
  · rw [none, List.nil_append] at left
    exact ⟨left ▸ head?_dropWhile rest, fun _ => left ▸ point⟩
  · refine ⟨?_, fun none => (none ?_).elim⟩
    · have back : more.dropWhile isDigit = after := by
        rw [some, text] at left
        have := (List.cons.inj (List.cons.inj left).2).2
        refine List.append_cancel_left ((List.takeWhile_append_dropWhile ..).trans this)
      exact back ▸ head?_dropWhile more
    · simp [numeral, some]

end Numeral

theorem isLexeme_wordKind {word : List Char} (h : IsWord word) :
    IsLexeme (wordKind word) word none := by
  unfold wordKind
  cases found : Keyword.ofSpelling? word with
  | none =>
    refine .identifier h fun k same => ?_
    rw [Keyword.ofSpelling?_eq_some_iff.mpr same] at found
    cases found
  | some k =>
    obtain rfl := Keyword.ofSpelling?_eq_some_iff.mp found
    exact .keyword k

theorem lexeme_of_first {c : Char} {rest text after : List Char} {kind : Token.Kind}
    (found : first c rest = .lexeme kind text) (same : c :: rest = text ++ after) :
    (∃ literal, IsLexeme kind text literal) ∧ kind.EndsBefore text after := by
  have opens := ofChar_opens c
  unfold first at found
  cases opening : Opening.ofChar c <;> rw [opening] at opens found <;> dsimp only at opens found
  case blank => cases found
  case nothing => cases found
  case mark only =>
    obtain ⟨rfl, rfl⟩ := Segment.lexeme.inj found
    exact ⟨⟨_, .mark opens.1⟩, opens.2 _ _⟩
  case relation alone joined =>
    obtain ⟨isAlone, isJoined, endsAlone, endsJoined⟩ := opens
    by_cases joins : rest.head? = some '='
    · rw [if_pos joins] at found
      obtain ⟨rfl, rfl⟩ := Segment.lexeme.inj found
      exact ⟨⟨_, .mark isJoined⟩, endsJoined _ _⟩
    · rw [if_neg joins] at found
      obtain ⟨rfl, rfl⟩ := Segment.lexeme.inj found
      obtain rfl : rest = after := (List.cons.inj same).2
      exact ⟨⟨_, .mark isAlone⟩, (endsAlone _ _).mpr joins⟩
  case slash =>
    subst opens
    by_cases comments : rest.head? = some '/'
    · rw [if_pos comments] at found
      cases found
    · rw [if_neg comments] at found
      obtain ⟨rfl, rfl⟩ := Segment.lexeme.inj found
      obtain rfl : rest = after := (List.cons.inj same).2
      exact ⟨⟨_, .mark rfl⟩, comments⟩
  case doubleQuote =>
    subst opens
    split at found
    · cases found
    · obtain ⟨rfl, rfl⟩ := Segment.lexeme.inj found
      exact ⟨⟨_, .string (not_mem_takeWhile_ne '"' rest)⟩, trivial⟩
  case quote =>
    split at found
    · rename_i k known
      obtain ⟨rfl, rfl⟩ := Segment.lexeme.inj found
      rw [Keyword.ofSpelling?_eq_some_iff] at known
      refine ⟨⟨none, ?_⟩, ends_takeWhile (List.cons.inj same).2⟩
      rw [known]
      exact .keyword k
    · cases found
  case digit =>
    obtain ⟨rfl, rfl⟩ := Segment.lexeme.inj found
    exact ⟨⟨_, .number (isNumeral_numeral opens rest)⟩, endsBefore_numeral same⟩
  case letter =>
    obtain ⟨rfl, rfl⟩ := Segment.lexeme.inj found
    have word : IsWord (c :: rest.takeWhile isWordChar) :=
      ⟨c, _, rfl, opens, fun d known => List.all_eq_true.mp List.all_takeWhile d known⟩
    exact ⟨⟨_, isLexeme_wordKind word⟩,
      endsBefore_wordKind_iff.mpr (ends_takeWhile (List.cons.inj same).2)⟩

/-- A quote alone is no lexeme, but it may be the keyword's. -/
theorem stray_of_first {c d : Char} {rest : List Char} (found : first c rest = .stray d) :
    c = d ∧ (Segment.stray d).Lawful rest := by
  have opens := ofChar_opens c
  unfold first at found
  cases opening : Opening.ofChar c <;> rw [opening] at opens found <;> dsimp only at opens found
  case quote =>
    subst opens
    split at found
    · cases found
    · rename_i none
      obtain rfl := Segment.stray.inj found
      refine ⟨rfl, .quote ?_⟩
      rintro after rfl
      refine Classical.byContradiction fun alone => ?_
      have stops : ∀ c ∈ after.head?, isWordChar c = false := by
        intro c first
        exact Bool.eq_false_iff.mpr fun word => alone ⟨c, first, word⟩
      have word : (['t'] ++ after).takeWhile isWordChar = ['t'] :=
        takeWhile_append_stop (List.forall_mem_singleton.mpr (by decide)) stops
      rw [show 't' :: after = ['t'] ++ after from rfl, word] at none
      cases none
  case nothing =>
    obtain rfl := Segment.stray.inj found
    refine ⟨rfl, .stray ?_ ?_⟩
    · intro blank
      simp only [List.mem_cons, List.not_mem_nil, or_false] at blank
      rcases blank with rfl | rfl | rfl | rfl <;> cases opening
    · intro kind more literal isLexeme
      have := isLexeme.opening
      rwa [opening] at this
  case relation => split at found <;> cases found
  case slash => split at found <;> cases found
  case doubleQuote => split at found <;> cases found
  all_goals cases found

theorem lawful_first {c : Char} {rest after : List Char}
    (same : c :: rest = (first c rest).text ++ after) : (first c rest).Lawful after := by
  obtain ⟨more, text, -⟩ := text_first c rest
  have precedes : (first c rest).Precedes after := by
    refine first_precedes text ?_
    rw [text] at same
    exact (List.cons.inj same).2
  cases found : first c rest <;> rw [found] at precedes same
  case lexeme kind lexeme =>
    obtain ⟨⟨literal, isLexeme⟩, ends⟩ := lexeme_of_first found same
    exact .lexeme isLexeme ends
  case stray d =>
    obtain ⟨rfl, lawful⟩ := stray_of_first found
    obtain rfl : rest = after := (List.cons.inj same).2
    exact lawful
  all_goals
    cases precedes
    constructor <;> assumption

/-! ### No other segment is lawful -/

theorem numeral_of_isNumeral {c : Char} {more after : List Char} (h : IsNumeral (c :: more))
    (ends : Token.Kind.number.EndsBefore (c :: more) after) :
    numeral c (more ++ after) = c :: more := by
  obtain ⟨digit, point⟩ := ends
  rcases h with ⟨-, digits⟩ | ⟨whole, part, text, ⟨some, digits⟩, fractional⟩
  · have inside := (List.forall_mem_cons.mp digits).2
    have none : fraction after = [] := by
      rcases fraction_cases after with ⟨none, -⟩ | ⟨d, rest, same, digit', -⟩
      · exact none
      · rw [point (point_not_mem_of_digits digits) d rest same] at digit'
        cases digit'
    rw [numeral, takeWhile_append_stop inside digit, dropWhile_append_stop inside digit, none,
      List.append_nil]
  · obtain ⟨d, whole, rfl⟩ := List.exists_cons_of_ne_nil some
    obtain ⟨e, part, rfl⟩ := List.exists_cons_of_ne_nil fractional.1
    rw [List.cons_append] at text
    obtain ⟨rfl, rfl⟩ := List.cons.inj text
    have inside := (List.forall_mem_cons.mp digits).2
    have stops := stops_cons isDigit_point (e :: (part ++ after))
    have inside' := (List.forall_mem_cons.mp fractional.2).2
    have rest : whole ++ '.' :: e :: part ++ after = whole ++ '.' :: e :: (part ++ after) := by simp
    rw [numeral, rest, takeWhile_append_stop inside stops, dropWhile_append_stop inside stops,
      fraction, if_pos fractional.head, takeWhile_append_stop inside' digit, List.cons_append]

theorem first_of_isLexeme {kind : Token.Kind} {c : Char} {more after : List Char}
    {literal : Option Token.Literal} (h : IsLexeme kind (c :: more) literal)
    (ends : kind.EndsBefore (c :: more) after) :
    first c (more ++ after) = .lexeme kind (c :: more) := by
  have opens := ofChar_opens c
  have shape := h.opening
  unfold first
  cases found : Opening.ofChar c <;> rw [found] at opens shape <;> dsimp only at opens shape ⊢
  case mark only =>
    obtain ⟨rfl, rfl⟩ := shape
    rfl
  case relation alone joined =>
    rcases shape with ⟨rfl, rfl⟩ | ⟨rfl, rfl⟩
    · exact if_neg ((opens.2.2.1 _ _).mp ends)
    · rfl
  case slash =>
    obtain ⟨rfl, rfl⟩ := shape
    exact if_neg ends
  case doubleQuote =>
    subst opens
    obtain ⟨rfl, body, closed, rfl⟩ := shape
    have stops : ∀ c ∈ (['"'] ++ after).head?, (c != '"') = false := stops_cons (by simp) after
    rw [List.append_assoc, takeWhile_append_stop (ne_of_not_mem closed) stops,
      dropWhile_append_stop (ne_of_not_mem closed) stops]
    rfl
  case quote =>
    subst opens
    obtain ⟨rfl, rfl⟩ := shape
    rw [takeWhile_append_stop (List.forall_mem_singleton.mpr (by decide)) ends]
    rfl
  case digit =>
    obtain ⟨rfl, numeral⟩ := shape
    rw [numeral_of_isNumeral numeral ends]
  case letter =>
    obtain ⟨rfl, inside⟩ := shape
    rw [takeWhile_append_stop inside (endsBefore_wordKind_iff.mp ends)]

theorem first_of_no_lexeme {c : Char} (notBlank : c ∉ [' ', '\r', '\t', '\n'])
    (none : ∀ kind more literal, ¬ IsLexeme kind (c :: more) literal) (rest : List Char) :
    first c rest = .stray c := by
  have opens := ofChar_opens c
  unfold first
  cases found : Opening.ofChar c <;> rw [found] at opens <;> dsimp only at opens ⊢
  case blank => exact absurd opens notBlank
  case mark => exact absurd (.mark opens.1) (none _ _ _)
  case relation => exact absurd (.mark opens.1) (none _ _ _)
  case slash =>
    subst opens
    exact absurd (.mark rfl) (none .slash [] _)
  case doubleQuote =>
    subst opens
    exact absurd (.string List.not_mem_nil) (none .string ['"'] _)
  case quote =>
    subst opens
    exact absurd (.keyword .otherwise) (none (.keyword .otherwise) ['t'] _)
  case digit =>
    have numeral : IsNumeral [c] := .inl ⟨by simp, by simpa using opens⟩
    exact absurd (.number numeral) (none _ _ _)
  case letter =>
    have word : IsWord [c] := ⟨c, [], rfl, opens, by simp⟩
    exact absurd (isLexeme_wordKind word) (none _ _ _)

theorem first_of_lone_quote {rest : List Char}
    (other : ∀ after, rest = 't' :: after → ∃ c ∈ after.head?, isWordChar c = true) :
    first '\'' rest = .stray '\'' := by
  have none : Keyword.ofSpelling? ('\'' :: rest.takeWhile isWordChar) = none := by
    refine Option.eq_none_iff_forall_ne_some.mpr fun k known => ?_
    rw [Keyword.ofSpelling?_eq_some_iff] at known
    obtain ⟨word, rfl⟩ : rest.takeWhile isWordChar = ['t'] ∧ k = .otherwise := by
      cases k <;> simp_all [Keyword.spelling]
    have split := List.takeWhile_append_dropWhile (p := isWordChar) (l := rest)
    rw [word] at split
    obtain ⟨c, first, longer⟩ := other _ split.symm
    rw [head?_dropWhile rest c first] at longer
    cases longer
  simp [first, Opening.ofChar, none]

theorem Lawful.eq_first {segment : Segment} {c : Char} {more after : List Char}
    (h : segment.Lawful after) (text : segment.text = c :: more) :
    segment = first c (more ++ after) := by
  cases h with
  | blank known =>
    obtain ⟨rfl, rfl⟩ := List.cons.inj text
    simp only [List.mem_cons, List.not_mem_nil, or_false] at known
    rcases known with rfl | rfl | rfl | rfl <;> rfl
  | @comment body _ inside stops =>
    obtain ⟨rfl, rfl⟩ := List.cons.inj text
    have ends : ∀ c ∈ after.head?, (c != '\n') = false := fun c first => by simp [stops c first]
    have comment : (body ++ after).takeWhile (· != '\n') = body :=
      takeWhile_append_stop (ne_of_not_mem inside) ends
    simp [first, Opening.ofChar, comment]
  | lexeme isLexeme ends =>
    cases text
    exact (first_of_isLexeme isLexeme ends).symm
  | stray notBlank none =>
    obtain ⟨rfl, rfl⟩ := List.cons.inj text
    exact (first_of_no_lexeme notBlank none _).symm
  | quote other =>
    obtain ⟨rfl, rfl⟩ := List.cons.inj text
    exact (first_of_lone_quote other).symm
  | @openString body inside =>
    obtain ⟨rfl, rfl⟩ := List.cons.inj text
    have stops : ∀ c ∈ ([] : List Char).head?, (c != '"') = false := by simp
    simp only [first, Opening.ofChar, takeWhile_append_stop (ne_of_not_mem inside) stops,
      dropWhile_append_stop (ne_of_not_mem inside) stops]

end Segment

end LispReader
