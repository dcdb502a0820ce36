import LispReader.Proofs.Scanning.LongestMatch

/-!
# Scanning from any position

`Scan.onward` is what scanning finds in a text that begins at any position. By `onward_append` it goes on
from segment to segment, so that two texts can be scanned side by side, also where one of them has more
blanks than the other: a lexeme that ends before a text ends before blanks in its place (`BeginsLike`).
-/

namespace LispReader

open Segment

/-! ### What a lexeme ends before -/

/-- The texts begin alike, but for blanks in the first of them. A point is nothing without the character
behind it. -/
structure BeginsLike (after' after : List Char) : Prop where
  first : ∀ c ∈ after'.head?, c ∈ [' ', '\r', '\t', '\n'] ∨ c ∈ after.head?
  point : ∀ c rest', after' = '.' :: c :: rest' →
    c ∈ [' ', '\r', '\t', '\n'] ∨ ∃ rest, after = '.' :: c :: rest

theorem mem_head?_of_front {after rest : List Char} (here : rest <+: after) :
    ∀ c ∈ rest.head?, c ∈ after.head? := by
  intro c first
  obtain ⟨more, rfl⟩ := List.head?_eq_some_iff.mp first
  obtain ⟨left, rfl⟩ := here
  rfl

theorem BeginsLike.of_front {after rest : List Char} (here : rest <+: after) :
    BeginsLike rest after where
  first c known := .inr (mem_head?_of_front here c known)
  point := by
    rintro c more rfl
    obtain ⟨left, rfl⟩ := here
    exact .inr ⟨more ++ left, rfl⟩

/-- Only what stands first can be the first character. -/
theorem head?_append_cons {p : Char → Prop} {after : List Char} {c : Char}
    (h : ∀ d ∈ after.head?, p d) (last : p c) (rest : List Char) :
    ∀ d ∈ (after ++ c :: rest).head?, p d := by
  cases after with
  | nil =>
    rintro _ ⟨⟩
    exact last
  | cons d after => exact h

/-- A blank at the end of what follows goes on with nothing. -/
theorem BeginsLike.append_blank {c : Char} (blank : c ∈ [' ', '\r', '\t', '\n']) (after rest : List Char) :
    BeginsLike (after ++ c :: rest) after where
  first := head?_append_cons (fun _ known => .inr known) (.inl blank) rest
  point := by
    rintro d more same
    rcases after with _ | ⟨e, _ | ⟨f, after⟩⟩
    · obtain ⟨rfl, -⟩ := List.cons.inj same
      exact absurd blank (by decide)
    · obtain ⟨rfl, -⟩ := List.cons.inj (List.cons.inj same).2
      exact .inl blank
    · obtain ⟨rfl, behind⟩ := List.cons.inj same
      obtain ⟨rfl, -⟩ := List.cons.inj behind
      exact .inr ⟨after, rfl⟩

/-- No lexeme goes on with a blank. -/
theorem not_continues_of_blank {c : Char} (blank : c ∈ [' ', '\r', '\t', '\n']) :
    isWordChar c = false ∧ isDigit c = false ∧ c ≠ '=' ∧ c ≠ '/' := by
  simp only [List.mem_cons, List.not_mem_nil, or_false] at blank
  rcases blank with rfl | rfl | rfl | rfl <;> decide

theorem Token.Kind.EndsBefore.of_beginsLike {kind : Token.Kind} {text after after' : List Char}
    (h : kind.EndsBefore text after) (alike : BeginsLike after' after) :
    kind.EndsBefore text after' := by
  have stops {p : Char → Bool} (blank : ∀ c ∈ [' ', '\r', '\t', '\n'], p c = false)
      (here : ∀ c ∈ after.head?, p c = false) : ∀ c ∈ after'.head?, p c = false := fun c known =>
    (alike.first c known).elim (blank c) (here c)
  have other {d : Char} (blank : d ∉ [' ', '\r', '\t', '\n']) (here : after.head? ≠ some d) :
      after'.head? ≠ some d := fun known => (alike.first d known).elim blank here
  cases kind with
  | equal | less | greater => exact other (by decide) h
  | slash => exact other (by decide) h
  | identifier => exact stops (fun c blank => (not_continues_of_blank blank).1) h
  | keyword k => exact stops (fun c blank => (not_continues_of_blank blank).1) h
  | number =>
    obtain ⟨digit, point⟩ := h
    refine ⟨stops (fun c blank => (not_continues_of_blank blank).2.1) digit, ?_⟩
    intro whole c rest' same
    rcases alike.point c rest' same with blank | ⟨rest, same⟩
    · exact (not_continues_of_blank blank).2.1
    · exact point whole c rest same
  | _ => trivial

/-! ### Segment by segment -/

namespace Scan

/-- What scanning finds in a text that begins at this position. -/
def onward (pos : Position) (text : List Char) : Scan :=
  let segments := Segment.place pos (Segment.ofText text)
  { tokens :=
      segments.filterMap (fun placed => placed.2.token? placed.1) ++ [.atEnd (pos.advance text)]
    diagnostics :=
      (segments.filterMap fun placed => placed.2.fault? placed.1).map
        fun found => .ofPosition found.1 found.2.message }

theorem ofText_eq_onward (text : String) : ofText text = onward .start text.toList := rfl

/-- Behind a segment at this position, which may be a token or a fault. -/
def behind (pos : Position) (segment : Segment) (scan : Scan) : Scan where
  tokens := (segment.token? pos).toList ++ scan.tokens
  diagnostics :=
    (segment.fault? pos).toList.map (fun found => .ofPosition found.1 found.2.message) ++
      scan.diagnostics

theorem onward_nil (pos : Position) : onward pos [] = ⟨[.atEnd pos], []⟩ := by
  rw [onward, Segment.ofText]
  rfl

theorem onward_append {segment : Segment} {after : List Char} (lawful : segment.Lawful after)
    (pos : Position) : onward pos (segment.text ++ after) =
      behind pos segment (onward (pos.advance segment.text) after) := by
  have segments : Segment.ofText (segment.text ++ after) = segment :: Segment.ofText after :=
    (Lexed.cons lawful (lexed_ofText after)).eq_ofText.symm
  rw [onward, segments, place, Position.advance_append, onward, behind]
  dsimp only
  rw [List.filterMap_cons, List.filterMap_cons]
  cases segment.token? pos <;> cases segment.fault? pos <;> rfl

/-- A blank is nothing but its place. -/
theorem onward_blank {c : Char} (blank : c ∈ [' ', '\r', '\t', '\n']) (pos : Position)
    (after : List Char) : onward pos (c :: after) = onward (pos.next c) after :=
  onward_append (.blank blank) pos

theorem onward_blanks {run : List Char} (blank : ∀ c ∈ run, c ∈ [' ', '\r', '\t', '\n'])
    (pos : Position) (after : List Char) : onward pos (run ++ after) = onward (pos.advance run) after := by
  induction run generalizing pos with
  | nil => rfl
  | cons c run ih =>
    obtain ⟨here, blank⟩ := List.forall_mem_cons.mp blank
    rw [List.cons_append, onward_blank here, ih blank, Position.advance_cons]

end Scan

end LispReader
