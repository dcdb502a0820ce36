import LispReader.Proofs.Scanner.Basic
import LispReader.Proofs.Scanning.LongestMatch
import LispReader.Proofs.Scanning.Newline

/-!
# Scanning in place finds the segments

`Scanner.Has` says what has been read of a piece and what lies ahead, and `Scanning.Runs` how an
action takes one scanner to another without a slip. A round of scanning goes past one segment, the
rewind behind a quote included (`runs_scanToken`), and so the whole run makes no slip, comes to the end
of the text, and has found what the segments give: `runs_scanTokens`.
-/

namespace LispReader

open Segment

namespace Scanner

/-- The text goes on with `read` from the start of the piece and with `after` from the next character. -/
structure Has (s : Scanner) (read after : List Char) : Prop where
  text : ∃ front, s.text = front ++ (read ++ after) ∧ front.length = s.start
  current : s.current = s.start + read.length

/-- Behind a run of characters, with the position that it leads to. -/
def moved (s : Scanner) (run : List Char) : Scanner :=
  { s with current := s.current + run.length, pos := s.pos.advance run }

variable {s : Scanner} {read run after : List Char}

theorem Has.ahead (h : s.Has read after) : s.text.drop s.current = after := by
  obtain ⟨front, text, start⟩ := h.text
  rw [h.current, text, ← start, ← List.append_assoc, ← List.length_append, List.drop_left]

theorem Has.length (h : s.Has read after) : s.text.length = s.current + after.length := by
  obtain ⟨front, text, start⟩ := h.text
  rw [h.current, text, List.length_append, List.length_append, start, Nat.add_assoc]

theorem Has.getElem? (h : s.Has read after) (i : Nat) : s.text[s.current + i]? = after[i]? := by
  rw [← h.ahead, List.getElem?_drop]

theorem Has.moved (run : List Char) (h : s.Has read (run ++ after)) :
    (s.moved run).Has (read ++ run) after where
  text := by rw [List.append_assoc]; exact h.text
  current := by
    show s.current + run.length = s.start + (read ++ run).length
    rw [h.current, List.length_append, Nat.add_assoc]

theorem moved_append (s : Scanner) (a b : List Char) : (s.moved a).moved b = s.moved (a ++ b) := by
  simp only [moved, Position.advance_append, List.length_append, Nat.add_assoc]

end Scanner

namespace Scanning

variable {α β : Type} {s s₁ s₂ : Scanner}

/-- From `s` the scanning comes to `s'` with this value, without a slip. -/
def Runs (m : Scanning α) (s : Scanner) (a : α) (s' : Scanner) : Prop := m.run s = .ok (a, s')

theorem runs_pure (a : α) (s : Scanner) : Runs (pure a) s a s := rfl

theorem runs_bind {m : Scanning α} {k : α → Scanning β} {a : α} {b : β} (first : Runs m s a s₁)
    (second : Runs (k a) s₁ b s₂) : Runs (m >>= k) s b s₂ := by
  unfold Runs at first second ⊢
  rw [StateT.run_bind, first]
  exact second

theorem runs_get_bind {k : Scanner → Scanning β} {b : β} (h : Runs (k s) s b s₁) :
    Runs (get >>= k) s b s₁ := h

theorem runs_modify (f : Scanner → Scanner) (s : Scanner) : Runs (modify f) s ⟨⟩ (f s) := rfl

/-! ### Single characters -/

section Single

variable {read after : List Char} {c : Char}

theorem runs_peek (h : s.Has read after) : Runs peek s (after.head?.getD '\x00') s := by
  have next := h.getElem? 0
  rw [Nat.add_zero, ← List.head?_eq_getElem?] at next
  exact runs_get_bind (next ▸ runs_pure _ s)

theorem runs_peekNext (h : s.Has read after) : Runs peekNext s (after[1]?.getD '\x00') s :=
  runs_get_bind (h.getElem? 1 ▸ runs_pure _ s)

theorem runs_done (h : s.Has read after) : Runs done s after.isEmpty s := by
  have same : decide (s.text.length ≤ s.current) = after.isEmpty := by
    rw [h.length]
    cases after <;> simp
  exact runs_get_bind (same ▸ runs_pure _ s)

theorem runs_advance_any (h : s.Has read (c :: after)) : Runs advance s c
    { s with current := s.current + 1, pos := ⟨s.pos.line, s.pos.col + 1⟩ } := by
  have next := h.getElem? 0
  rw [Nat.add_zero, List.getElem?_cons_zero] at next
  refine runs_get_bind ?_
  rw [next]
  rfl

theorem runs_advance (h : s.Has read (c :: after)) (other : c ≠ '\n') :
    Runs advance s c (s.moved [c]) := by
  have step : s.moved [c] =
      { s with current := s.current + 1, pos := ⟨s.pos.line, s.pos.col + 1⟩ } := by
    simp [Scanner.moved, Position.next, other]
  rw [step]
  exact runs_advance_any h

theorem runs_advance_newline (h : s.Has read (c :: after)) :
    Runs (do if (← advance) = '\n' then newline) s ⟨⟩ (s.moved [c]) := by
  by_cases breaks : c = '\n'
  · refine runs_bind (runs_advance_any h) ?_
    rw [if_pos breaks, breaks]
    rfl
  · refine runs_bind (runs_advance h breaks) ?_
    rw [if_neg breaks]
    exact runs_pure _ _

theorem runs_accept_true (h : s.Has read (c :: after)) (other : c ≠ '\n') :
    Runs (accept c) s true (s.moved [c]) := by
  refine runs_bind (runs_done h) ?_
  refine runs_bind (runs_peek h) ?_
  rw [List.head?_cons, Option.getD_some, if_neg (not_not_intro rfl)]
  exact runs_bind (runs_advance h other) (runs_pure _ _)

theorem runs_accept_false (h : s.Has read after) (other : after.head? ≠ some c) :
    Runs (accept c) s false s := by
  refine runs_bind (runs_done h) ?_
  cases after with
  | nil => exact runs_pure _ _
  | cons d after =>
    refine runs_bind (runs_peek h) ?_
    rw [List.head?_cons, Option.getD_some, if_pos (by simpa using other)]
    exact runs_pure _ _

end Single

/-! ### Pieces -/

section Piece

variable {read after : List Char}

theorem runs_slice {low high : Nat} {front piece after : List Char}
    (text : s.text = front ++ (piece ++ after)) (start : low = front.length)
    (stop : high = low + piece.length) : Runs (slice low high) s piece s := by
  have within : low ≤ high ∧ high ≤ s.text.length := by
    rw [text, List.length_append, List.length_append]
    omega
  have cut : (s.text.drop low).take (high - low) = piece := by
    rw [text, start, List.drop_left, stop, start, Nat.add_sub_cancel_left, List.take_left]
  refine runs_get_bind ?_
  rw [if_pos within, cut]
  exact runs_pure _ _

theorem runs_piece (h : s.Has read after) : Runs piece s read s := by
  obtain ⟨front, text, start⟩ := h.text
  exact runs_get_bind (runs_slice text start.symm h.current)

/-- What stands between the first and the last character that were read. -/
theorem runs_inside {first last : Char} {body : List Char} (h : s.Has (first :: body ++ [last]) after) :
    Runs (slice (s.start + 1) (s.current - 1)) s body s := by
  obtain ⟨front, text, start⟩ := h.text
  have text : s.text = (front ++ [first]) ++ (body ++ last :: after) := by simpa using text
  refine runs_slice text ?_ ?_
  · rw [List.length_append, start]
    rfl
  · rw [h.current, List.length_append, List.length_cons, List.length_singleton]
    omega

end Piece

/-! ### Loops -/

section Loops

variable {read after : List Char} {p : Char → Bool} {test : Scanning Bool} {body : Scanning Unit}

/-- A loop reads a run of characters if each of its rounds reads one of them. -/
theorem runs_loop {run after : List Char} (more : ∀ c ∈ run, p c = true)
    (round : ∀ {s read c rest}, s.Has read (c :: rest) → p c = true →
      Runs test s true s ∧ Runs body s ⟨⟩ (s.moved [c]))
    (last : ∀ {s read}, s.Has read after → Runs test s false s)
    {rounds : Nat} (enough : run.length < rounds) (h : s.Has read (run ++ after)) :
    Runs (loop test body rounds) s ⟨⟩ (s.moved run) := by
  induction run generalizing s read rounds with
  | nil =>
    obtain ⟨rounds, rfl⟩ := Nat.exists_eq_add_of_lt enough
    refine runs_bind (last h) ?_
    rw [if_neg Bool.false_ne_true]
    exact runs_pure _ _
  | cons c run ih =>
    obtain ⟨rounds, rfl⟩ : ∃ n, rounds = n + 1 := ⟨rounds - 1, by omega⟩
    obtain ⟨here, more⟩ := List.forall_mem_cons.mp more
    obtain ⟨goesOn, moves⟩ := round h here
    refine runs_bind goesOn ?_
    rw [if_pos rfl]
    refine runs_bind moves ?_
    have rest := ih more (Nat.lt_of_succ_lt_succ enough) (h.moved [c])
    rwa [Scanner.moved_append] at rest

theorem runs_repeating {run after : List Char} (more : ∀ c ∈ run, p c = true)
    (round : ∀ {s read c rest}, s.Has read (c :: rest) → p c = true →
      Runs test s true s ∧ Runs body s ⟨⟩ (s.moved [c]))
    (last : ∀ {s read}, s.Has read after → Runs test s false s) (h : s.Has read (run ++ after)) :
    Runs (repeating test body) s ⟨⟩ (s.moved run) := by
  refine runs_get_bind (runs_loop more round last ?_ h)
  rw [h.length, List.length_append]
  omega

/-- At the end of the text the null character stops the loop. -/
theorem runs_skipWhile (null : p '\x00' = false) (newline : p '\n' = false) (h : s.Has read after) :
    Runs (skipWhile p) s ⟨⟩ (s.moved (after.takeWhile p)) := by
  rw [← List.takeWhile_append_dropWhile (p := p) (l := after)] at h
  refine runs_repeating (p := p) (List.all_eq_true.mp List.all_takeWhile) ?_ ?_ h
  · intro s read c rest h good
    have other : c ≠ '\n' := by
      rintro rfl
      rw [newline] at good
      cases good
    constructor
    · exact runs_bind (runs_peek h) (good ▸ runs_pure _ s)
    · exact runs_bind (runs_advance h other) (runs_pure _ _)
  · intro s read h
    have stops : p ((after.dropWhile p).head?.getD '\x00') = false := by
      cases first : (after.dropWhile p).head? with
      | none => exact null
      | some c => exact head?_dropWhile after c first
    exact runs_bind (runs_peek h) (stops ▸ runs_pure _ s)

theorem runs_skipUntil {stop : Char}
    (round : ∀ {s read c rest}, s.Has read (c :: rest) → c ≠ stop →
      Runs body s ⟨⟩ (s.moved [c]))
    (h : s.Has read after) :
    Runs (skipUntil stop body) s ⟨⟩ (s.moved (after.takeWhile (· != stop))) := by
  rw [← List.takeWhile_append_dropWhile (p := (· != stop)) (l := after)] at h
  refine runs_repeating (p := (· != stop)) (List.all_eq_true.mp List.all_takeWhile) ?_ ?_ h
  · intro s read c rest h good
    have other : c ≠ stop := by simpa using good
    refine ⟨runs_bind (runs_peek h) (runs_bind (runs_done h) ?_), round h other⟩
    have test : (decide ((c :: rest).head?.getD '\x00' ≠ stop) && !(c :: rest).isEmpty) = true :=
      Bool.and_eq_true_iff.mpr ⟨decide_eq_true other, rfl⟩
    exact test ▸ runs_pure _ s
  · intro s read h
    have stops : (decide ((after.dropWhile (· != stop)).head?.getD '\x00' ≠ stop) &&
        !(after.dropWhile (· != stop)).isEmpty) = false := by
      cases rest : after.dropWhile (· != stop) with
      | nil => exact Bool.and_false _
      | cons c rest =>
        have first : c = stop := by
          simpa using head?_dropWhile (p := (· != stop)) after c (by rw [rest]; rfl)
        exact Bool.and_eq_false_imp.mpr fun other => absurd first (of_decide_eq_true other)
    exact runs_bind (runs_peek h) (runs_bind (runs_done h) (stops ▸ runs_pure _ s))

end Loops

end Scanning

/-! ### Pieces that are read -/

namespace Scanner

/-- With more tokens and diagnostics. -/
def found (s : Scanner) (tokens : List Token) (diagnostics : List Diagnostic) : Scanner :=
  { s with tokens := s.tokens ++ tokens, diagnostics := s.diagnostics ++ diagnostics }

/-- Behind a segment. -/
def past (s : Scanner) (segment : Segment) : Scanner :=
  (s.moved segment.text).found (segment.token? s.pos).toList
    ((segment.fault? s.pos).toList.map fun fault => .ofPosition fault.1 fault.2.message)

/-- A piece begins here. -/
structure Begins (s : Scanner) (text : List Char) : Prop extends s.Has [] text where
  column : s.startCol = s.pos.col

/-- A word is on one line, so to go back over it only the column must be set back. -/
theorem back_moved (s : Scanner) (c : Char) {word : List Char} (oneLine : '\n' ∉ word) :
    { s.moved (c :: word) with
      current := (s.moved [c]).current
      pos := ⟨(s.moved (c :: word)).pos.line, (s.moved [c]).pos.col⟩ } = s.moved [c] := by
  simp [moved, Position.line_advance, List.count_eq_zero.mpr oneLine]

section Begins

variable {s : Scanner} {c : Char} {rest text after : List Char}

theorem Begins.behind (b : s.Begins (text ++ after)) : (s.moved text).Has text after := b.toHas.moved text

theorem Begins.next (b : s.Begins (c :: rest)) : (s.moved [c]).Has [c] rest := b.toHas.moved [c]

theorem Begins.split (b : s.Begins (c :: rest)) (p : Char → Bool) :
    s.Begins (c :: rest.takeWhile p ++ rest.dropWhile p) := by
  rwa [List.cons_append, List.takeWhile_append_dropWhile]

end Begins

end Scanner

namespace Scanning

section Pieces

variable {s : Scanner} {c : Char} {rest text after : List Char}

theorem runs_addToken (b : s.Begins (text ++ after)) (kind : Token.Kind) :
    Runs (addToken kind (literal kind text)) (s.moved text) ⟨⟩ (s.past (.lexeme kind text)) := by
  refine runs_bind (runs_piece b.behind) ?_
  have found : s.past (.lexeme kind text) = { s.moved text with
      tokens := (s.moved text).tokens ++ [⟨kind, String.ofList text, literal kind text,
        ⟨(s.moved text).pos.line, (s.moved text).startCol⟩⟩] } := by
    simp [Scanner.past, Scanner.found, Scanner.moved, token?, fault?, Segment.text, b.column]
  rw [found]
  exact runs_modify _ _

theorem runs_report (s : Scanner) (pos : Position) (message : String) :
    Runs (report pos message) s ⟨⟩ (s.found [] [.ofPosition pos message]) := by
  have found : s.found [] [.ofPosition pos message] =
      { s with diagnostics := s.diagnostics ++ [.ofPosition pos message] } := by
    simp [Scanner.found]
  rw [found]
  exact runs_modify _ s

theorem past_of_silent {segment : Segment} (token : segment.token? s.pos = none)
    (fault : segment.fault? s.pos = none) : s.past segment = s.moved segment.text := by
  simp [Scanner.past, Scanner.found, token, fault]

theorem runs_unexpected (b : s.Begins (c :: rest)) (other : c ≠ '\n') :
    Runs (reportStart "Unexpected character.") (s.moved [c]) ⟨⟩ (s.past (.stray c)) := by
  have pos : (⟨(s.moved [c]).pos.line, (s.moved [c]).startCol⟩ : Position) = s.pos := by
    have line : (s.moved [c]).pos.line = s.pos.line := by simp [Scanner.moved, Position.next, other]
    rw [line]
    exact congrArg _ b.column
  refine runs_get_bind ?_
  rw [pos]
  exact runs_report _ _ _

theorem runs_comment (b : s.Begins ('/' :: '/' :: rest)) : Runs comment (s.moved ['/', '/']) ⟨⟩
    (s.moved ('/' :: '/' :: rest.takeWhile (· != '\n'))) := by
  have h : (s.moved ['/', '/']).Has ['/', '/'] rest := b.toHas.moved ['/', '/']
  have read : Runs comment (s.moved ['/', '/']) ⟨⟩
      ((s.moved ['/', '/']).moved (rest.takeWhile (· != '\n'))) :=
    runs_skipUntil (fun h other => runs_bind (runs_advance h other) (runs_pure _ _)) h
  rwa [Scanner.moved_append] at read

theorem runs_digits (b : s.Begins (text ++ after)) :
    Runs (skipWhile isDigit) (s.moved text) ⟨⟩ (s.moved (text ++ after.takeWhile isDigit)) := by
  have read := runs_skipWhile (p := isDigit) (by decide) (by decide) b.behind
  rwa [Scanner.moved_append] at read

theorem runs_word (b : s.Begins (c :: rest)) :
    Runs (skipWhile isWordChar) (s.moved [c]) ⟨⟩ (s.moved (c :: rest.takeWhile isWordChar)) := by
  have read := runs_skipWhile (p := isWordChar) (by decide) (by decide) b.next
  rwa [Scanner.moved_append] at read

theorem literal_wordKind (word text : List Char) : literal (wordKind word) text = none := by
  unfold wordKind
  split <;> rfl

theorem runs_identifier (b : s.Begins (c :: rest)) : Runs identifier (s.moved [c]) ⟨⟩
    (s.past (.lexeme (wordKind (c :: rest.takeWhile isWordChar)) (c :: rest.takeWhile isWordChar))) := by
  have whole := b.split isWordChar
  refine runs_bind (runs_word b) (runs_bind (runs_piece whole.behind) ?_)
  have added := runs_addToken whole (wordKind (c :: rest.takeWhile isWordChar))
  rwa [literal_wordKind] at added

/-- Where the word is no keyword, what was read behind the quote is read again. -/
theorem runs_quotedKeyword (b : s.Begins ('\'' :: rest)) :
    Runs quotedKeyword (s.moved ['\'']) ⟨⟩ (s.past (first '\'' rest)) := by
  have h := b.next
  refine runs_get_bind (runs_bind (runs_peek h) ?_)
  by_cases letter : isLetter (rest.head?.getD '\x00') = true
  · rw [if_pos letter]
    have whole := b.split isWordChar
    refine runs_bind (runs_word b) (runs_bind (runs_piece whole.behind) ?_)
    have quote : Opening.ofChar '\'' = .quote := rfl
    rw [first, quote]
    dsimp only
    cases Keyword.ofSpelling? ('\'' :: rest.takeWhile isWordChar) with
    | some k => exact runs_addToken whole (.keyword k)
    | none =>
      refine runs_bind (runs_modify _ _) ?_
      have oneLine : '\n' ∉ rest.takeWhile isWordChar := fun known =>
        absurd (List.all_eq_true.mp List.all_takeWhile _ known) (by decide)
      have back := Scanner.back_moved s '\'' oneLine
      dsimp only at back ⊢
      rw [back]
      exact runs_unexpected b (by decide)
  · rw [if_neg letter]
    have stray : first '\'' rest = .stray '\'' := by
      refine first_of_lone_quote fun after same => ?_
      rw [same] at letter
      exact absurd (by decide : isLetter 't' = true) letter
    rw [stray]
    exact runs_unexpected b (by decide)

theorem parseNumber?_numeral (digit : isDigit c = true) (rest : List Char) :
    parseNumber? (numeral c rest) = some (.ofNumeral (numeral c rest)) := by
  have isNumeral := isNumeral_numeral digit rest
  obtain ⟨more, whole⟩ : ∃ more, numeral c rest = c :: more := ⟨_, rfl⟩
  rw [whole] at isNumeral ⊢
  have same : numeral c more = c :: more := by
    have again : numeral c (more ++ []) = c :: more :=
      numeral_of_isNumeral isNumeral ⟨by simp, by simp⟩
    rwa [List.append_nil] at again
  exact if_pos ⟨digit, same⟩

theorem runs_point_true {read : List Char} {d : Char} (h : s.Has read ('.' :: d :: after))
    (digit : isDigit d = true) : Runs point s ⟨⟩ (s.moved ['.']) := by
  refine runs_bind (runs_peek h) (runs_bind (runs_peekNext h) ?_)
  rw [if_pos ⟨rfl, digit⟩]
  exact runs_bind (runs_advance h (by decide)) (runs_pure _ _)

theorem runs_point_false {read : List Char} (h : s.Has read after)
    (none : ∀ c rest, after = '.' :: c :: rest → isDigit c = false) : Runs point s ⟨⟩ s := by
  refine runs_bind (runs_peek h) (runs_bind (runs_peekNext h) ?_)
  rw [if_neg]
  · exact runs_pure _ _
  rintro ⟨isPoint, digit⟩
  rcases after with _ | ⟨c, _ | ⟨d, rest⟩⟩
  · exact absurd isPoint (by decide)
  · exact absurd digit Bool.false_ne_true
  · obtain rfl : c = '.' := isPoint
    have other : isDigit d = false := none d rest rfl
    rw [show ('.' :: d :: rest)[1]?.getD '\x00' = d from rfl, other] at digit
    cases digit

theorem runs_readNumeral (b : s.Begins (c :: rest)) :
    Runs readNumeral (s.moved [c]) ⟨⟩ (s.moved (numeral c rest)) := by
  have whole := b.split isDigit
  have start : s.Begins ([c] ++ rest) := b
  refine runs_bind (runs_digits start) ?_
  unfold numeral
  rcases fraction_cases (rest.dropWhile isDigit) with ⟨none, point⟩ | ⟨d, more, same, digit, some⟩
  · rw [none]
    refine runs_bind (runs_point_false whole.behind point) ?_
    have stopped : (rest.dropWhile isDigit).takeWhile isDigit = [] :=
      takeWhile_append_stop (List.forall_mem_nil _) (head?_dropWhile rest)
    have read := runs_digits whole
    rwa [stopped] at read
  · rw [some]
    rw [same] at whole
    refine runs_bind (runs_point_true whole.behind digit) ?_
    have behind : s.Begins ((c :: rest.takeWhile isDigit ++ ['.']) ++ d :: more) := by
      simpa using whole
    have read := runs_digits behind
    rw [← Scanner.moved_append s (c :: rest.takeWhile isDigit)] at read
    simpa [digit] using read

/-- The characters of a numeral are always a number. -/
theorem runs_number (b : s.Begins (c :: rest)) (digit : isDigit c = true) :
    Runs number (s.moved [c]) ⟨⟩ (s.past (.lexeme .number (numeral c rest))) := by
  obtain ⟨after, same⟩ : numeral c rest <+: c :: rest :=
    (List.prefix_cons_inj c).mpr (isPrefix_takeWhile_append (isPrefix_fraction _))
  have whole : s.Begins (numeral c rest ++ after) := same ▸ b
  refine runs_bind (runs_readNumeral b) (runs_bind (runs_piece whole.behind) ?_)
  rw [parseNumber?_numeral digit]
  exact runs_addToken whole .number

theorem runs_string (b : s.Begins ('"' :: rest)) :
    Runs string (s.moved ['"']) ⟨⟩ (s.past (first '"' rest)) := by
  have body : Runs (skipUntil '"' (do if (← advance) = '\n' then newline)) (s.moved ['"']) ⟨⟩
      (s.moved ('"' :: rest.takeWhile (· != '"'))) := by
    have read : Runs (skipUntil '"' _) _ ⟨⟩ _ :=
      runs_skipUntil (fun h _ => runs_advance_newline h) b.next
    rwa [Scanner.moved_append] at read
  have whole := b.split (· != '"')
  dsimp only [first, Opening.ofChar]
  cases left : rest.dropWhile (· != '"') with
  | nil =>
    rw [left] at whole
    refine runs_bind body (runs_bind (runs_done whole.behind) ?_)
    rw [List.isEmpty_nil, if_pos rfl]
    exact runs_get_bind (runs_report _ _ _)
  | cons d after =>
    have quote : d = '"' := by
      simpa using head?_dropWhile (p := (· != '"')) rest d (by rw [left]; rfl)
    rw [left, quote] at whole
    refine runs_bind body (runs_bind (runs_done whole.behind) ?_)
    rw [List.isEmpty_cons, if_neg Bool.false_ne_true]
    refine runs_bind (runs_advance whole.behind (by decide)) (runs_get_bind ?_)
    rw [Scanner.moved_append]
    have closed : s.Begins (('"' :: rest.takeWhile (· != '"') ++ ['"']) ++ after) := by
      simpa using whole
    refine runs_bind (runs_inside closed.behind) ?_
    have value : literal .string ('"' :: rest.takeWhile (· != '"') ++ ['"']) =
        some (.text (String.ofList (rest.takeWhile (· != '"')))) := by simp [literal]
    rw [← value]
    exact runs_addToken closed .string

theorem runs_mark {kind : Token.Kind} (spelled : kind.mark? = some text) (b : s.Begins (text ++ after)) :
    Runs (addToken kind none) (s.moved text) ⟨⟩ (s.past (.lexeme kind text)) := by
  have added := runs_addToken b kind
  rwa [(IsLexeme.mark spelled).literal_eq] at added

/-- What a character begins is read to its end, as one segment. -/
theorem runs_scanToken (b : s.Begins (c :: rest)) : Runs scanToken s ⟨⟩ (s.past (first c rest)) := by
  by_cases newline : c = '\n'
  · subst newline
    refine runs_bind (runs_advance_any b.toHas) ?_
    rw [show first '\n' rest = .blank '\n' from rfl, past_of_silent rfl rfl]
    exact runs_modify _ _
  refine runs_bind (runs_advance b.toHas newline) ?_
  have opens := ofChar_opens c
  have h := b.next
  cases found : Opening.ofChar c <;> rw [found] at opens <;> dsimp only at opens ⊢
  case blank =>
    rw [if_neg newline, first, found, past_of_silent rfl rfl]
    exact runs_pure _ _
  case mark kind =>
    rw [first, found]
    exact runs_mark opens.1 b
  case relation alone joined =>
    rw [first, found]
    by_cases joins : rest.head? = some '='
    · obtain ⟨after, rfl⟩ := List.head?_eq_some_iff.mp joins
      refine runs_bind (runs_accept_true h (by decide)) ?_
      rw [Scanner.moved_append]
      exact runs_mark opens.2.1 b
    · refine runs_bind (runs_accept_false h joins) ?_
      dsimp only
      rw [if_neg joins]
      exact runs_mark opens.1 b
  case slash =>
    subst opens
    rw [first, found]
    by_cases comments : rest.head? = some '/'
    · obtain ⟨after, rfl⟩ := List.head?_eq_some_iff.mp comments
      refine runs_bind (runs_accept_true h (by decide)) ?_
      rw [Scanner.moved_append]
      dsimp only
      rw [if_pos rfl, past_of_silent rfl rfl]
      exact runs_comment b
    · refine runs_bind (runs_accept_false h comments) ?_
      dsimp only
      rw [if_neg comments]
      exact runs_mark rfl b
  case doubleQuote =>
    subst opens
    exact runs_string b
  case quote =>
    subst opens
    exact runs_quotedKeyword b
  case digit =>
    rw [first, found]
    exact runs_number b opens
  case letter =>
    rw [first, found]
    exact runs_identifier b
  case nothing =>
    rw [first, found]
    exact runs_unexpected b newline

end Pieces

end Scanning

/-! ### The whole text -/

namespace Scanner

/-- At the beginning of a piece. -/
def begun (s : Scanner) : Scanner := { s with start := s.current, startCol := s.pos.col }

/-- After a round of scanning that has found this segment. -/
def round (s : Scanner) (segment : Segment) : Scanner := s.begun.past segment

variable {s : Scanner} {read text after : List Char}

theorem Has.begun (h : s.Has read after) : s.begun.Begins after where
  text := by
    obtain ⟨front, text, start⟩ := h.text
    refine ⟨front ++ read, by rw [List.append_assoc]; exact text, ?_⟩
    rw [List.length_append, start]
    exact h.current.symm
  current := rfl
  column := rfl

theorem Has.round {segment : Segment} (h : s.Has read (segment.text ++ after)) :
    (s.round segment).Has segment.text after :=
  ⟨h.begun.behind.text, h.begun.behind.current⟩

variable (s) (segments : List Segment)

theorem current_rounds :
    (segments.foldl round s).current = s.current + (segments.flatMap Segment.text).length := by
  induction segments generalizing s with
  | nil => rfl
  | cons segment more ih =>
    rw [List.foldl_cons, ih, List.flatMap_cons, List.length_append, ← Nat.add_assoc]
    rfl

theorem pos_rounds :
    (segments.foldl round s).pos = s.pos.advance (segments.flatMap Segment.text) := by
  induction segments generalizing s with
  | nil => rfl
  | cons segment more ih =>
    rw [List.foldl_cons, ih, List.flatMap_cons, Position.advance_append]
    rfl

theorem tokens_rounds : (segments.foldl round s).tokens =
    s.tokens ++ (place s.pos segments).filterMap fun placed => placed.2.token? placed.1 := by
  induction segments generalizing s with
  | nil => exact (List.append_nil _).symm
  | cons segment more ih =>
    have here : (s.round segment).tokens = s.tokens ++ (segment.token? s.pos).toList := rfl
    have next : (s.round segment).pos = s.pos.advance segment.text := rfl
    rw [List.foldl_cons, ih, here, next, place, List.filterMap_cons]
    cases segment.token? s.pos <;> simp

theorem diagnostics_rounds : (segments.foldl round s).diagnostics =
    s.diagnostics ++ ((place s.pos segments).filterMap fun placed => placed.2.fault? placed.1).map
      fun fault => .ofPosition fault.1 fault.2.message := by
  induction segments generalizing s with
  | nil => exact (List.append_nil _).symm
  | cons segment more ih =>
    have here : (s.round segment).diagnostics = s.diagnostics ++
        (segment.fault? s.pos).toList.map fun fault => .ofPosition fault.1 fault.2.message := rfl
    have next : (s.round segment).pos = s.pos.advance segment.text := rfl
    rw [List.foldl_cons, ih, here, next, place, List.filterMap_cons]
    cases segment.fault? s.pos <;> simp

end Scanner

namespace Scanning

/-- A lawful segment is read in one round of the loop. -/
theorem runs_round {s : Scanner} {read after : List Char} {segment : Segment}
    (h : s.Has read (segment.text ++ after)) (lawful : segment.Lawful after) :
    Runs (do begin; scanToken) s ⟨⟩ (s.round segment) := by
  obtain ⟨c, more, text⟩ := List.exists_cons_of_ne_nil lawful.text_ne_nil
  rw [text, List.cons_append] at h
  have scanned := runs_scanToken h.begun
  rw [← lawful.eq_first text] at scanned
  exact runs_bind (runs_modify _ s) scanned

theorem runs_rounds {s : Scanner} {read text : List Char} {segments : List Segment} {rounds : Nat}
    (lexed : Lexed text segments) (h : s.Has read text) (enough : text.length < rounds) :
    Runs (loop (do return !(← done)) (do begin; scanToken) rounds) s ⟨⟩
      (segments.foldl Scanner.round s) := by
  induction lexed generalizing s read rounds with
  | nil =>
    obtain ⟨rounds, rfl⟩ := Nat.exists_eq_add_of_lt enough
    refine runs_bind (runs_bind (runs_done h) (runs_pure _ s)) ?_
    exact runs_pure _ _
  | @cons segment after more lawful _ ih =>
    obtain ⟨rounds, rfl⟩ : ∃ n, rounds = n + 1 := ⟨rounds - 1, by omega⟩
    have some : 0 < segment.text.length := List.length_pos_iff.mpr lawful.text_ne_nil
    have goesOn : (segment.text ++ after).isEmpty = false := by
      simpa using fun none => absurd none lawful.text_ne_nil
    refine runs_bind (runs_bind (runs_done h) (runs_pure _ s)) ?_
    rw [goesOn, Bool.not_false, if_pos rfl]
    rw [List.length_append] at enough
    exact runs_bind (runs_round h lawful) (ih h.round (by omega))

/-- Scanning in place makes no slip, ends at the end of the text, and finds what the segments give. What
has been reported before stays, and nothing depends on it. -/
theorem runs_scanTokens_behind (text : String) (earlier : List Diagnostic) :
    ∃ s, Runs scanTokens { Scanner.before text with diagnostics := earlier } ⟨⟩ s ∧
      s.current = text.toList.length ∧ s.tokens = (Scan.ofText text).tokens ∧
      s.diagnostics = earlier ++ (Scan.ofText text).diagnostics := by
  have h : ({ Scanner.before text with diagnostics := earlier } : Scanner).Has [] text.toList :=
    ⟨⟨[], rfl, rfl⟩, rfl⟩
  have rounds := runs_rounds (lexed_ofText _) h (Nat.lt_succ_self _)
  refine ⟨_, runs_bind (runs_get_bind rounds) (runs_modify _ _), ?_, ?_, ?_⟩
  · rw [Scanner.current_rounds, flatten_text]
    exact Nat.zero_add _
  · dsimp only
    rw [Scanner.tokens_rounds, Scanner.pos_rounds, flatten_text]
    rfl
  · dsimp only
    rw [Scanner.diagnostics_rounds]
    rfl

theorem runs_scanTokens (text : String) : ∃ s, Runs scanTokens (.before text) ⟨⟩ s ∧
    s.current = text.toList.length ∧ Scan.ofText text = ⟨s.tokens, s.diagnostics⟩ := by
  obtain ⟨s, runs, current, tokens, diagnostics⟩ := runs_scanTokens_behind text []
  exact ⟨s, runs, current, by rw [tokens, diagnostics, List.nil_append]⟩

end Scanning

end LispReader
