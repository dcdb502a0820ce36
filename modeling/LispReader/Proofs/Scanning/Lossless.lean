import LispReader.Token.Scan

/-!
# Scanning loses nothing

`Splits` says what the segments of a text may be, each with what follows it in view. Every text splits
into its segments, by `splits_ofText`, and all that scanning gives back is accounted for by them: a
token for each lexeme, a diagnostic for each stray character and one for a string left open.
-/

namespace LispReader

namespace Segment

/-- May the segment stand before `after`? -/
inductive Precedes : Segment → List Char → Prop where
  | blank {c : Char} {after : List Char} :
    c ∈ [' ', '\r', '\t', '\n'] → Precedes (.blank c) after
  | comment {body after : List Char} :
    '\n' ∉ body → (∀ c ∈ after.head?, c = '\n') → Precedes (.comment ('/' :: '/' :: body)) after
  | lexeme {kind : Token.Kind} {text after : List Char} :
    kind ≠ .eof → text ≠ [] → Precedes (.lexeme kind text) after
  | stray (c : Char) (after : List Char) : Precedes (.stray c) after
  | openString {body : List Char} : '"' ∉ body → Precedes (.openString ('"' :: body)) []

/-- The segments make up the text, one after the other. -/
inductive Splits : List Char → List Segment → Prop where
  | nil : Splits [] []
  | cons {segment : Segment} {after : List Char} {more : List Segment} :
    segment.Precedes after → Splits after more → Splits (segment.text ++ after) (segment :: more)

theorem Precedes.text_ne_nil {segment : Segment} {after : List Char} (h : segment.Precedes after) :
    segment.text ≠ [] := by
  cases h with
  | lexeme _ some => exact some
  | _ => exact List.cons_ne_nil _ _

theorem Splits.eq_nil {segments : List Segment} (h : Splits [] segments) : segments = [] := by
  generalize empty : [] = text at h
  cases h with
  | nil => rfl
  | cons precedes => exact absurd (List.append_eq_nil_iff.mp empty.symm).1 precedes.text_ne_nil

/-! ### The first segment and what follows it -/

theorem not_mem_takeWhile_ne (c : Char) (text : List Char) : c ∉ text.takeWhile (· != c) := by
  intro h
  have := List.all_takeWhile (p := (· != c)) (l := text)
  simpa using List.all_eq_true.mp this c h

theorem ofChar_spec (c : Char) : match Opening.ofChar c with
    | .blank => c ∈ [' ', '\r', '\t', '\n']
    | .mark kind => kind ≠ .eof
    | .relation alone joined => alone ≠ .eof ∧ joined ≠ .eof
    | .slash => c = '/'
    | .doubleQuote => c = '"'
    | _ => True := by
  generalize known : Opening.ofChar c = opening
  unfold Opening.ofChar at known
  split at known <;> try (subst known; simp; done)
  -- What is left is a digit, a letter or nothing.
  split at known
  · subst known
    trivial
  · split at known <;> subst known <;> trivial

theorem wordKind_ne_eof (word : List Char) : wordKind word ≠ .eof := by
  unfold wordKind
  split <;> simp

theorem first_spec (c : Char) (rest : List Char) : match first c rest with
    | .blank d => d ∈ [' ', '\r', '\t', '\n']
    | .comment text =>
      ∃ tail, c = '/' ∧ rest = '/' :: tail ∧ text = '/' :: '/' :: tail.takeWhile (· != '\n')
    | .lexeme kind _ => kind ≠ .eof
    | .stray _ => True
    | .openString text => c = '"' ∧ text = c :: rest ∧ '"' ∉ rest := by
  have spec := ofChar_spec c
  unfold first
  cases opening : Opening.ofChar c <;> rw [opening] at spec <;> dsimp only at spec ⊢
  case blank => exact spec
  case mark kind => exact spec
  case relation alone joined =>
    by_cases joins : rest.head? = some '='
    · rw [if_pos joins]
      exact spec.2
    · rw [if_neg joins]
      exact spec.1
  case slash =>
    by_cases comments : rest.head? = some '/'
    · rw [if_pos comments]
      obtain ⟨tail, rfl⟩ := List.head?_eq_some_iff.mp comments
      exact ⟨tail, spec, rfl, by simp [spec]⟩
    · rw [if_neg comments]
      simp
  case doubleQuote =>
    cases unclosed : rest.dropWhile (· != '"') with
    | nil =>
      have whole := List.takeWhile_append_dropWhile (p := (· != '"')) (l := rest)
      rw [unclosed, List.append_nil] at whole
      have none := not_mem_takeWhile_ne '"' rest
      rw [whole] at none
      exact ⟨spec, by rw [whole], none⟩
    | cons => simp
  case quote =>
    cases Keyword.ofSpelling? (c :: rest.takeWhile isWordChar) <;> simp
  case digit => simp
  case letter => exact wordKind_ne_eof _

theorem first_precedes {c : Char} {rest more after : List Char}
    (text : (first c rest).text = c :: more) (same : rest = more ++ after) :
    (first c rest).Precedes after := by
  have spec := first_spec c rest
  cases found : first c rest with
  | blank d =>
    rw [found] at spec
    exact .blank spec
  | comment text' =>
    rw [found] at spec text
    obtain ⟨tail, rfl, rfl, rfl⟩ := spec
    obtain rfl : more = '/' :: tail.takeWhile (· != '\n') := (List.cons.inj text).2.symm
    refine .comment (not_mem_takeWhile_ne '\n' tail) ?_
    -- The comment ends where the newline does not belong to it any more.
    have split := List.takeWhile_append_dropWhile (p := (· != '\n')) (l := tail)
    obtain rfl : tail.dropWhile (· != '\n') = after :=
      List.append_cancel_left (split.trans (List.cons.inj same).2)
    intro d next
    have stops := List.head?_dropWhile_not (· != '\n') tail
    rw [next] at stops
    simpa using stops
  | lexeme kind text' =>
    rw [found] at spec text
    exact .lexeme spec (by rw [show text' = c :: more from text]; simp)
  | stray d => exact .stray d after
  | openString text' =>
    rw [found] at spec text
    obtain ⟨rfl, rfl, none⟩ := spec
    obtain rfl : rest = more := (List.cons.inj text).2
    obtain rfl : after = [] := by simpa using same
    exact .openString none

theorem splits_ofText (text : List Char) : Splits text (ofText text) := by
  fun_induction ofText text with
  | case1 => exact .nil
  | case2 c rest segment ih =>
    obtain ⟨more, text, after, same⟩ := text_first c rest
    have dropped : rest.drop (segment.text.length - 1) = after := by
      rw [show segment.text = c :: more from text, ← same]
      simp
    have whole : c :: rest = segment.text ++ after := by
      rw [show segment.text = c :: more from text, ← same, List.cons_append]
    rw [dropped] at ih ⊢
    rw [whole]
    exact .cons (first_precedes text same.symm) ih

/-! ### What is made of the segments -/

/-- The kind and the spelling of a lexeme. -/
def lexeme? : Segment → Option (Token.Kind × String)
  | .lexeme kind text => some (kind, String.ofList text)
  | _ => none

def isOpen : Segment → Bool
  | .openString _ => true
  | _ => false

def strays (pos : Position) : List Segment → List Position
  | [] => []
  | .stray c :: more => pos :: strays (pos.next c) more
  | segment :: more => strays (pos.advance segment.text) more

theorem lexemes_of_splits {text : List Char} {segments : List Segment} (h : Splits text segments)
    (pos : Position) :
    ((place pos segments).filterMap fun (pos, segment) => segment.token? pos).map
        (fun token => (token.kind, token.lexeme)) = segments.filterMap lexeme? ∧
      ∀ token ∈ (place pos segments).filterMap fun (pos, segment) => segment.token? pos,
        token.kind ≠ .eof := by
  induction h generalizing pos with
  | nil => simp [place]
  | @cons segment after more precedes _ ih =>
    obtain ⟨same, kinds⟩ := ih (pos.advance segment.text)
    cases precedes with
    | lexeme kind =>
      exact ⟨congrArg (List.cons _) same, List.forall_mem_cons.mpr ⟨kind, kinds⟩⟩
    | _ => exact ⟨same, kinds⟩

theorem faults_of_splits {text : List Char} {segments : List Segment} (h : Splits text segments)
    (pos : Position) : (place pos segments).filterMap (fun (pos, segment) => segment.fault? pos) =
      (strays pos segments).map (·, .unexpectedCharacter) ++
        if segments.any isOpen then [(pos.advance text, .unterminatedString)] else [] := by
  induction h generalizing pos with
  | nil => rfl
  | @cons segment after more precedes rest ih =>
    have ih := ih (pos.advance segment.text)
    rw [Position.advance_append]
    cases precedes with
    | stray c => exact congrArg (List.cons _) ih
    | openString =>
      obtain rfl := rest.eq_nil
      rfl
    | _ => exact ih

end Segment

/-- All of the text is in the segments, and each is accounted for: a token for a lexeme, a diagnostic
for a stray character and one at the end for a string left open. -/
theorem Scan.accounts_for_text (text : String) : ∃ segments : List Segment,
    Segment.Splits text.toList segments ∧
    (∃ tokens last, (ofText text).tokens = tokens ++ [last] ∧ last.kind = .eof ∧
      (∀ token ∈ tokens, token.kind ≠ .eof) ∧
      tokens.map (fun token => (token.kind, token.lexeme)) = segments.filterMap Segment.lexeme?) ∧
    (ofText text).diagnostics =
      (Segment.strays .start segments).map (.ofPosition · "Unexpected character.") ++
        if segments.any Segment.isOpen then
          [.ofPosition (Position.start.advance text.toList) "Unterminated string."]
        else [] := by
  have splits := Segment.splits_ofText text.toList
  obtain ⟨lexemes, kinds⟩ := Segment.lexemes_of_splits splits .start
  refine ⟨_, splits, ⟨_, _, rfl, rfl, kinds, lexemes⟩, ?_⟩
  simp only [ofText, Segment.faults_of_splits splits, List.map_append, List.map_map]
  congr 1
  split <;> rfl

end LispReader
