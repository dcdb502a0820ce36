import LispReader.Proofs.Scanner.Agrees

/-!
# Rounds of scanning

A scan goes round by round. Whatever the text is, a round makes no slip and ends further on in the text
than it began, also where it goes back behind a quote, and what it reads as a number is one. So the scan
comes to the end of the text and there it stops (`Scanner.rounds_reach_end`).
-/

namespace LispReader

open Segment

namespace Scanning

/-- One round: the piece that begins here. -/
def scanPiece : Scanning Unit := do
  begin
  scanToken

/-- The beginning of a round that reads a number: what is read as one. -/
def readNumberText : Scanning (List Char) := do
  begin
  let _ ← advance
  readNumeral
  piece

theorem Runs.unique {α : Type} {m : Scanning α} {s s₁ s₂ : Scanner} {a b : α} (h : Runs m s a s₁)
    (h' : Runs m s b s₂) : a = b ∧ s₁ = s₂ := by
  have same := Except.ok.inj (h.symm.trans h')
  exact Prod.mk.inj same

end Scanning

open Scanning

namespace Scanner

/-- Between two rounds in the scan of a text, before the first or after the last. -/
inductive Reached (text : String) : Scanner → Prop where
  | before : Reached text (.before text)
  | again {s s' : Scanner} :
    Reached text s → Runs done s false s → Runs scanPiece s ⟨⟩ s' → Reached text s'

/-- What is behind the scanner are whole segments, and what lies ahead are the others. -/
structure Between (text : String) (front back : List Segment) (s : Scanner) : Prop where
  segments : Segment.ofText text.toList = front ++ back
  rounds : s = front.foldl round (.before text)
  has : ∃ read, s.Has read (back.flatMap Segment.text)

variable {text : String} {front back : List Segment} {s s' : Scanner}

theorem between_before (text : String) :
    Between text [] (Segment.ofText text.toList) (.before text) where
  segments := rfl
  rounds := rfl
  has := by
    rw [flatten_text]
    exact ⟨[], ⟨[], rfl, rfl⟩, rfl⟩

theorem text_rounds (s : Scanner) (segments : List Segment) :
    (segments.foldl round s).text = s.text := by
  induction segments generalizing s with
  | nil => rfl
  | cons segment more ih => exact ih _

namespace Between

theorem text_eq (h : Between text front back s) : s.text = text.toList := by
  rw [h.rounds, text_rounds]
  rfl

theorem length (h : Between text front back s) :
    text.toList.length = s.current + (back.flatMap Segment.text).length := by
  obtain ⟨read, has⟩ := h.has
  rw [← h.text_eq, has.length]

theorem next {segment : Segment} (h : Between text front (segment :: back) s) :
    Runs done s false s ∧ Runs scanPiece s ⟨⟩ (s.round segment) ∧
      Between text (front ++ [segment]) back (s.round segment) ∧
      s.current < (s.round segment).current := by
  obtain ⟨read, has⟩ := h.has
  have lexed := lexed_ofText text.toList
  rw [h.segments] at lexed
  have lawful := lexed.lawful
  have some := List.length_pos_iff.mpr lawful.text_ne_nil
  have goesOn : (segment.text ++ back.flatMap Segment.text).isEmpty = false := by
    simpa using fun none => absurd none lawful.text_ne_nil
  have notDone := runs_done has
  rw [List.flatMap_cons, goesOn] at notDone
  refine ⟨notDone, runs_round has lawful, ⟨?_, ?_, _, has.round⟩, Nat.lt_add_of_pos_right some⟩
  · rw [List.append_assoc]
    exact h.segments
  · rw [List.foldl_append, ← h.rounds]
    rfl

end Between

theorem Reached.between (h : Reached text s) : ∃ front back, Between text front back s := by
  induction h with
  | before => exact ⟨[], _, between_before text⟩
  | @again s s' _ goesOn scanned ih =>
    obtain ⟨front, back, between⟩ := ih
    obtain ⟨read, has⟩ := between.has
    cases back with
    | nil =>
      have ended := (goesOn.unique (runs_done has)).1
      cases ended
    | cons segment back =>
      obtain ⟨-, runs, further, -⟩ := between.next
      rw [(scanned.unique runs).2]
      exact ⟨_, back, further⟩

theorem Between.exists_last (h : Between text front back s) (reached : Reached text s) :
    ∃ last, Reached text last ∧ Between text (Segment.ofText text.toList) [] last := by
  induction back generalizing front s with
  | nil =>
    have whole := h.segments
    rw [List.append_nil] at whole
    exact ⟨s, reached, whole ▸ h⟩
  | cons segment back ih =>
    obtain ⟨goesOn, scanned, further, -⟩ := h.next
    exact ih further (.again reached goesOn scanned)

/-- A round goes on in the text, and not beyond its end. -/
theorem Reached.advances (h : Reached text s) : s.current ≤ text.toList.length ∧
    (s.current < text.toList.length → ∃ s', Runs scanPiece s ⟨⟩ s' ∧
      s.current < s'.current ∧ s'.current ≤ text.toList.length) := by
  obtain ⟨front, back, between⟩ := h.between
  have length := between.length
  refine ⟨by omega, fun goesOn => ?_⟩
  cases back with
  | nil =>
    rw [List.flatMap_nil, List.length_nil] at length
    omega
  | cons segment back =>
    obtain ⟨-, scanned, further, lt⟩ := between.next
    have length := further.length
    exact ⟨_, scanned, lt, by omega⟩

/-- What is read as a number is one. -/
theorem Reached.readNumberText {c : Char} (h : Reached text s)
    (here : text.toList[s.current]? = some c) (digit : isDigit c = true) :
    ∃ numeral s', Runs readNumberText s numeral s' ∧ IsNumeral numeral ∧
      parseNumber? numeral = some (.ofNumeral numeral) := by
  obtain ⟨front, back, between⟩ := h.between
  obtain ⟨read, has⟩ := between.has
  have first := has.getElem? 0
  rw [Nat.add_zero, between.text_eq, here, ← List.head?_eq_getElem?] at first
  obtain ⟨rest, ahead⟩ := List.head?_eq_some_iff.mp first.symm
  rw [ahead] at has
  have begins := has.begun
  have other : c ≠ '\n' := by
    rintro rfl
    cases digit
  obtain ⟨after, same⟩ : numeral c rest <+: c :: rest :=
    (List.prefix_cons_inj c).mpr (isPrefix_takeWhile_append (isPrefix_fraction _))
  have whole : s.begun.Begins (numeral c rest ++ after) := same ▸ begins
  have runs : Runs Scanning.readNumberText s (numeral c rest) (s.begun.moved (numeral c rest)) := by
    refine runs_bind (runs_modify _ s) (runs_bind (runs_advance begins.toHas other) ?_)
    exact runs_bind (runs_readNumeral begins) (runs_piece whole.behind)
  exact ⟨_, _, runs, isNumeral_numeral digit rest, parseNumber?_numeral digit rest⟩

/-- There is no other report than these two. -/
theorem Reached.message_of_mem {d : Diagnostic} (h : Reached text s) (known : d ∈ s.diagnostics) :
    d.message = "Unexpected character." ∨ d.message = "Unterminated string." := by
  obtain ⟨front, back, between⟩ := h.between
  rw [between.rounds, diagnostics_rounds] at known
  rcases List.mem_append.mp known with none | found
  · cases none
  · obtain ⟨⟨pos, fault⟩, -, rfl⟩ := List.mem_map.mp found
    cases fault
    · exact .inl rfl
    · exact .inr rfl

/-- Scanning makes no slip and comes to the end of the text, each round further than the one before. A
number is always read as one, and so that it is none is never reported. -/
theorem rounds_reach_end (text : String) :
    (∀ s, Reached text s → s.current ≤ text.toList.length ∧
      (s.current < text.toList.length → ∃ s', Runs scanPiece s ⟨⟩ s' ∧
        s.current < s'.current ∧ s'.current ≤ text.toList.length)) ∧
    (∃ last, Reached text last ∧ Runs done last true last ∧ last.current = text.toList.length ∧
      Runs scanTokens (.before text) ⟨⟩ { last with tokens := last.tokens ++ [.atEnd last.pos] }) ∧
    (∀ s c, Reached text s → text.toList[s.current]? = some c → isDigit c = true →
      ∃ numeral s', Runs readNumberText s numeral s' ∧ IsNumeral numeral ∧
        parseNumber? numeral = some (.ofNumeral numeral)) ∧
    ∀ s, Reached text s → ∀ d ∈ s.diagnostics, ∀ numeral : String,
      d.message ≠ "Invalid number literal " ++ numeral ++ ": invalid float literal." := by
  refine ⟨fun s h => h.advances, ?_, ?_, ?_⟩
  · obtain ⟨last, reached, between⟩ := (between_before text).exists_last .before
    have length := between.length
    rw [List.flatMap_nil, List.length_nil, Nat.add_zero] at length
    obtain ⟨read, has⟩ := between.has
    obtain ⟨_, start⟩ := (between_before text).has
    rw [flatten_text] at start
    refine ⟨last, reached, runs_done has, length.symm, ?_⟩
    rw [between.rounds]
    exact runs_bind (runs_get_bind (runs_rounds (lexed_ofText _) start (Nat.lt_succ_self _)))
      (runs_modify _ _)
  · exact fun s c h here digit => h.readNumberText here digit
  · intro s h d known numeral same
    have first : d.message.toList.head? = some 'I' := by rw [same]; simp
    rcases h.message_of_mem known with other | other <;> rw [other] at first <;> cases first

end Scanner

end LispReader
