import LispReader.Proofs.Scanning.Lossless

/-!
# Lexemes

`IsLexeme` says how tokens are spelled and what they stand for, and `Token.Kind.EndsBefore` what may
not follow a lexeme of a kind. By `IsLexeme.longest` a lexeme that ends where it may is the longest
one that the text has in its place.
-/

namespace LispReader

open Segment

/-- A letter, and perhaps letters and digits behind it. -/
def IsWord (text : List Char) : Prop :=
  ∃ c more, text = c :: more ∧ isLetter c = true ∧ ∀ d ∈ more, isWordChar d = true

def AllDigits (text : List Char) : Prop := text ≠ [] ∧ ∀ d ∈ text, isDigit d = true

/-- Digits, and perhaps a point with digits behind it. -/
def IsNumeral (text : List Char) : Prop :=
  AllDigits text ∨ ∃ whole part, text = whole ++ '.' :: part ∧ AllDigits whole ∧ AllDigits part

namespace Token.Kind

/-- The spelling of the kinds that are punctuation or operators. -/
def mark? : Kind → Option (List Char)
  | .leftParen => some ['(']
  | .rightParen => some [')']
  | .comma => some [',']
  | .minus => some ['-']
  | .plus => some ['+']
  | .semicolon => some [';']
  | .slash => some ['/']
  | .star => some ['*']
  | .equal => some ['=']
  | .equalEqual => some ['=', '=']
  | .greater => some ['>']
  | .greaterEqual => some ['>', '=']
  | .less => some ['<']
  | .lessEqual => some ['<', '=']
  | .identifier | .string | .number | .keyword _ | .eof => none

/-- May a lexeme of this kind end where `after` begins? -/
def EndsBefore (kind : Kind) (text after : List Char) : Prop :=
  match kind with
  | .equal | .less | .greater => after.head? ≠ some '='
  | .slash => after.head? ≠ some '/'
  | .identifier | .keyword _ => ∀ c ∈ after.head?, isWordChar c = false
  | .number => (∀ c ∈ after.head?, isDigit c = false) ∧
    ('.' ∉ text → ∀ c rest, after = '.' :: c :: rest → isDigit c = false)
  | _ => True

end Token.Kind

/-- The spellings of each kind, with the value that a token has by its spelling. -/
inductive IsLexeme : Token.Kind → List Char → Option Token.Literal → Prop where
  | mark {kind : Token.Kind} {text : List Char} : kind.mark? = some text → IsLexeme kind text none
  | identifier {text : List Char} :
    IsWord text → (∀ k : Keyword, text ≠ k.spelling) → IsLexeme .identifier text none
  | keyword (k : Keyword) : IsLexeme (.keyword k) k.spelling none
  | number {text : List Char} :
    IsNumeral text → IsLexeme .number text (some (.number (.ofNumeral text)))
  | string {body : List Char} :
    '"' ∉ body → IsLexeme .string ('"' :: body ++ ['"']) (some (.text (String.ofList body)))

/-! ### The characters of a lexeme -/

theorem isWordChar_of_isDigit {c : Char} (h : isDigit c = true) : isWordChar c = true := by
  rw [isWordChar, h, Bool.or_true]

theorem IsWord.all {text : List Char} (h : IsWord text) : ∀ c ∈ text, isWordChar c = true := by
  obtain ⟨c, more, rfl, letter, chars⟩ := h
  exact List.forall_mem_cons.mpr ⟨by rw [isWordChar, letter, Bool.true_or], chars⟩

theorem IsWord.ne_nil {text : List Char} (h : IsWord text) : text ≠ [] := by
  obtain ⟨c, more, rfl, -⟩ := h
  exact List.cons_ne_nil c more

theorem IsNumeral.all {text : List Char} (h : IsNumeral text) :
    ∀ c ∈ text, c = '.' ∨ isDigit c = true := by
  rcases h with ⟨-, digits⟩ | ⟨whole, part, rfl, ⟨-, digits⟩, -, digits'⟩
  · exact fun c known => .inr (digits c known)
  · refine List.forall_mem_append.mpr ⟨fun c known => .inr (digits c known), ?_⟩
    exact List.forall_mem_cons.mpr ⟨.inl rfl, fun c known => .inr (digits' c known)⟩

/-! ### The first character of a lexeme -/

theorem isDigit_eq_false_of_isLetter {c : Char} (h : isLetter c = true) : isDigit c = false := by
  simp only [isLetter, isDigit, Bool.or_eq_true, Bool.and_eq_true, decide_eq_true_eq, beq_iff_eq,
    Bool.and_eq_false_iff, decide_eq_false_iff_not, Char.le_def, UInt32.le_iff_toNat_le] at h ⊢
  rcases h with (⟨low, high⟩ | ⟨low, high⟩) | rfl
  · right
    have : 'a'.val.toNat = 97 := rfl
    have : '9'.val.toNat = 57 := rfl
    omega
  · right
    have : 'A'.val.toNat = 65 := rfl
    have : '9'.val.toNat = 57 := rfl
    omega
  · exact .inr (by decide)

theorem ofChar_of_isDigit {c : Char} (h : isDigit c = true) : Opening.ofChar c = .digit := by
  unfold Opening.ofChar
  split <;> try exact absurd h (by decide)
  exact if_pos h

theorem ofChar_of_isLetter {c : Char} (h : isLetter c = true) : Opening.ofChar c = .letter := by
  unfold Opening.ofChar
  split <;> try exact absurd h (by decide)
  simp [h, isDigit_eq_false_of_isLetter h]

theorem isWord_spelling {k : Keyword} (word : k ≠ .otherwise) : IsWord k.spelling := by
  cases k with
  | otherwise => exact absurd rfl word
  | _ => exact ⟨_, _, rfl, by decide, List.all_eq_true.mp (by decide)⟩

theorem wordKind_spelling (k : Keyword) : wordKind k.spelling = .keyword k := by
  rw [wordKind, Keyword.ofSpelling?_eq_some_iff.mpr rfl]

theorem wordKind_of_ne {text : List Char} (other : ∀ k : Keyword, text ≠ k.spelling) :
    wordKind text = .identifier := by
  unfold wordKind
  cases found : Keyword.ofSpelling? text with
  | none => rfl
  | some k => exact absurd (Keyword.ofSpelling?_eq_some_iff.mp found) (other k)

theorem endsBefore_wordKind_iff {word text after : List Char} :
    (wordKind word).EndsBefore text after ↔ ∀ c ∈ after.head?, isWordChar c = false := by
  unfold wordKind
  split <;> rfl

theorem AllDigits.head {c : Char} {more : List Char} (h : AllDigits (c :: more)) : isDigit c = true :=
  h.2 c (List.mem_cons_self ..)

theorem IsNumeral.head {c : Char} {more : List Char} (h : IsNumeral (c :: more)) :
    isDigit c = true := by
  rcases h with digits | ⟨whole, part, text, digits, -⟩
  · exact digits.head
  · cases whole with
    | nil => exact absurd rfl digits.1
    | cons d whole =>
      obtain ⟨rfl, -⟩ := List.cons.inj text
      exact digits.head

/-- The first character leaves little choice for the rest of a lexeme and for its kind. -/
theorem IsLexeme.opening {kind : Token.Kind} {c : Char} {more : List Char}
    {literal : Option Token.Literal} (h : IsLexeme kind (c :: more) literal) :
    match Opening.ofChar c with
    | .mark only => kind = only ∧ more = []
    | .relation alone joined => kind = alone ∧ more = [] ∨ kind = joined ∧ more = ['=']
    | .slash => kind = .slash ∧ more = []
    | .doubleQuote => kind = .string ∧ ∃ body, '"' ∉ body ∧ more = body ++ ['"']
    | .quote => kind = .keyword .otherwise ∧ more = ['t']
    | .digit => kind = .number ∧ IsNumeral (c :: more)
    | .letter => kind = wordKind (c :: more) ∧ ∀ d ∈ more, isWordChar d = true
    | .blank | .nothing => False := by
  generalize same : c :: more = text at h ⊢
  cases h with
  | mark spelled =>
    cases kind <;> cases spelled <;> cases same <;> simp [Opening.ofChar]
  | identifier word other =>
    obtain ⟨d, rest, rfl, letter, chars⟩ := word
    obtain ⟨rfl, rfl⟩ := List.cons.inj same
    rw [ofChar_of_isLetter letter]
    exact ⟨(wordKind_of_ne other).symm, chars⟩
  | keyword k =>
    by_cases quoted : k = .otherwise
    · subst quoted
      obtain ⟨rfl, rfl⟩ := List.cons.inj same
      exact ⟨rfl, rfl⟩
    · obtain ⟨d, rest, spelling, letter, chars⟩ := isWord_spelling quoted
      obtain ⟨rfl, rfl⟩ := List.cons.inj (same.trans spelling)
      rw [ofChar_of_isLetter letter]
      exact ⟨(wordKind_spelling k).symm, chars⟩
  | number numeral =>
    subst same
    rw [ofChar_of_isDigit numeral.head]
    exact ⟨rfl, numeral⟩
  | string closed =>
    obtain ⟨rfl, rfl⟩ := List.cons.inj same
    exact ⟨rfl, _, closed, rfl⟩

theorem IsLexeme.ne_nil {kind : Token.Kind} {text : List Char} {literal : Option Token.Literal}
    (h : IsLexeme kind text literal) : text ≠ [] := by
  cases h with
  | mark spelled => cases kind <;> cases spelled <;> simp
  | identifier word => obtain ⟨c, more, rfl, -⟩ := word; simp
  | keyword k => cases k <;> simp [Keyword.spelling]
  | number numeral =>
    rcases numeral with digits | ⟨whole, part, rfl, -⟩
    · exact digits.1
    · simp
  | string => simp

/-- What the opening of a character says about the lexemes that begin with it. -/
theorem ofChar_opens (c : Char) : match Opening.ofChar c with
    | .mark kind => kind.mark? = some [c] ∧ ∀ text after, kind.EndsBefore text after
    | .relation alone joined => alone.mark? = some [c] ∧ joined.mark? = some [c, '='] ∧
      (∀ text after, alone.EndsBefore text after ↔ after.head? ≠ some '=') ∧
      ∀ text after, joined.EndsBefore text after
    | .blank => c ∈ [' ', '\r', '\t', '\n']
    | .slash => c = '/'
    | .doubleQuote => c = '"'
    | .quote => c = '\''
    | .digit => isDigit c = true
    | .letter => isLetter c = true
    | .nothing => True := by
  generalize known : Opening.ofChar c = opening
  unfold Opening.ofChar at known
  split at known <;> try (subst known; simp [Token.Kind.mark?, Token.Kind.EndsBefore]; done)
  split at known
  · subst known
    assumption
  · split at known <;> subst known
    · assumption
    · trivial

/-! ### The longest lexeme -/

section Stop

variable {p : Char → Bool} {run after : List Char}

theorem takeWhile_append_stop (inside : ∀ c ∈ run, p c = true)
    (stops : ∀ c ∈ after.head?, p c = false) : (run ++ after).takeWhile p = run := by
  rw [List.takeWhile_append_of_pos inside]
  cases after with
  | nil => exact List.append_nil run
  | cons c after => rw [List.takeWhile_cons_of_neg (by simp [stops c rfl]), List.append_nil]

theorem dropWhile_append_stop (inside : ∀ c ∈ run, p c = true)
    (stops : ∀ c ∈ after.head?, p c = false) : (run ++ after).dropWhile p = after := by
  rw [List.dropWhile_append_of_pos inside]
  cases after with
  | nil => rfl
  | cons c after => exact List.dropWhile_cons_of_neg (by simp [stops c rfl])

/-- A text has only one place where a run of characters first stops. -/
theorem eq_of_append_stop {run' after' : List Char} (same : run ++ after = run' ++ after')
    (inside : ∀ c ∈ run, p c = true) (stops : ∀ c ∈ after.head?, p c = false)
    (inside' : ∀ c ∈ run', p c = true) (stops' : ∀ c ∈ after'.head?, p c = false) :
    run = run' ∧ after = after' := by
  constructor
  · rw [← takeWhile_append_stop inside stops, same, takeWhile_append_stop inside' stops']
  · rw [← dropWhile_append_stop inside stops, same, dropWhile_append_stop inside' stops']

end Stop

theorem stops_cons {p : Char → Bool} {c : Char} (h : p c = false) (after : List Char) :
    ∀ d ∈ (c :: after).head?, p d = false := by
  rintro _ ⟨⟩
  exact h

theorem ne_of_not_mem {c : Char} {text : List Char} (h : c ∉ text) : ∀ d ∈ text, (d != c) = true := by
  intro d known
  exact bne_iff_ne.mpr fun same => h (same ▸ known)

theorem isDigit_point : isDigit '.' = false := by decide

theorem point_not_mem_of_digits {text : List Char} (h : ∀ d ∈ text, isDigit d = true) :
    '.' ∉ text := by
  intro point
  have := h _ point
  rw [isDigit_point] at this
  cases this

theorem IsNumeral.longest {text more back : List Char} (h : IsNumeral text)
    (ends : Token.Kind.number.EndsBefore text (more ++ back)) (longer : IsNumeral (text ++ more)) :
    more = [] := by
  obtain ⟨digit, point⟩ := ends
  cases more with
  | nil => rfl
  | cons c more =>
    have other : isDigit c = false := digit c rfl
    exfalso
    rcases h with ⟨-, digits⟩ | ⟨whole, part, rfl, ⟨-, digits⟩, -⟩
    · rcases longer with ⟨-, digits'⟩ | ⟨whole, part, same, ⟨-, digits'⟩, fraction⟩
      · have : isDigit c = true := digits' c (by simp)
        rw [other] at this
        cases this
      · -- Only a point with a digit behind it would go on with the digits.
        obtain ⟨-, rest⟩ := eq_of_append_stop same digits (stops_cons other more) digits'
          (stops_cons isDigit_point part)
        obtain ⟨rfl, rfl⟩ := List.cons.inj rest
        obtain ⟨d, part, rfl⟩ := List.exists_cons_of_ne_nil fraction.1
        have := point (point_not_mem_of_digits digits) d (part ++ back) rfl
        rw [fraction.head] at this
        cases this
    · rcases longer with ⟨-, digits'⟩ | ⟨whole', part', same, ⟨-, digits'⟩, -, fraction⟩
      · exact point_not_mem_of_digits digits' (by simp)
      · rw [List.append_assoc] at same
        obtain ⟨-, rest⟩ := eq_of_append_stop same digits (stops_cons isDigit_point _) digits'
          (stops_cons isDigit_point part')
        have : isDigit c = true := fraction c ((List.cons.inj rest).2 ▸ by simp)
        rw [other] at this
        cases this

/-- No longer piece of the text is a lexeme, of this kind or another. -/
theorem IsLexeme.longest {kind kind' : Token.Kind} {text more back : List Char}
    {literal literal' : Option Token.Literal} (h : IsLexeme kind text literal)
    (ends : kind.EndsBefore text (more ++ back)) (longer : IsLexeme kind' (text ++ more) literal') :
    more = [] := by
  obtain ⟨c, rest, rfl⟩ := List.exists_cons_of_ne_nil h.ne_nil
  have opens := ofChar_opens c
  have short := h.opening
  rw [List.cons_append] at longer
  have long := longer.opening
  cases found : Opening.ofChar c <;> rw [found] at opens short long <;> dsimp only at opens short long
  case mark only => exact (List.append_eq_nil_iff.mp long.2).2
  case slash => exact (List.append_eq_nil_iff.mp long.2).2
  case relation alone joined =>
    obtain ⟨-, -, alone, -⟩ := opens
    rcases short with ⟨rfl, rfl⟩ | ⟨-, rfl⟩
    · rcases long with ⟨-, same⟩ | ⟨-, same⟩
      · exact same
      · rw [List.nil_append] at same
        exact absurd (by simp [same]) ((alone _ _).mp ends)
    · have long : kind' = joined ∧ more = [] := by simpa using long
      exact long.2
  case doubleQuote =>
    obtain ⟨-, body, closed, rfl⟩ := short
    obtain ⟨-, body', closed', same⟩ := long
    rw [List.append_assoc] at same
    obtain ⟨-, rest⟩ := eq_of_append_stop same (ne_of_not_mem closed) (stops_cons (by simp) more)
      (ne_of_not_mem closed') (stops_cons (by simp) [])
    exact (List.cons.inj rest).2
  case quote =>
    obtain ⟨-, rfl⟩ := short
    simpa using long.2
  case digit =>
    obtain ⟨rfl, numeral⟩ := short
    exact numeral.longest ends long.2
  case letter =>
    obtain ⟨rfl, -⟩ := short
    cases more with
    | nil => rfl
    | cons d more =>
      have word : isWordChar d = true := long.2 d (by simp)
      have ends : isWordChar d = false := endsBefore_wordKind_iff.mp ends d rfl
      rw [word] at ends
      cases ends

end LispReader
