import LispReader.Text.Lines
import Mathlib.Data.List.Basic
import Mathlib.Data.List.Infix

/-!
# Where lines begin

A text that ends with a newline has as many lines as newlines, so the line that begins behind it is
found by counting them (`getElem?_lines`, `getElem?_lines_eq_some_iff`). By `prefix_chomp_head` a line
shows all of a piece of text that it begins with, unless a newline or a dropped carriage return belongs
to the piece.
-/

namespace LispReader.Text

/-! ### Lines that are ended -/

theorem lines_ended (front rest : List Char) :
    lines (front ++ '\n' :: rest) = lines (front ++ ['\n']) ++ lines rest := by
  induction front with
  | nil => rfl
  | cons c front ih =>
    rw [List.cons_append, List.cons_append, lines, lines, ih]
    by_cases newline : c = '\n'
    · rw [if_pos newline, if_pos newline, List.cons_append]
    · rw [if_neg newline, if_neg newline]
      cases first : lines (front ++ ['\n']) with
      | nil =>
        have whole := flatten_lines (front ++ ['\n'])
        simp [first] at whole
      | cons line more => rfl

theorem lines_append {front : List Char} (ends : front = [] ∨ ∃ body, front = body ++ ['\n'])
    (rest : List Char) : lines (front ++ rest) = lines front ++ lines rest := by
  rcases ends with rfl | ⟨body, rfl⟩
  · rfl
  · rw [List.append_assoc, List.singleton_append, lines_ended]

theorem length_lines_ended (front : List Char) :
    (lines (front ++ ['\n'])).length = (front ++ ['\n']).count '\n' := by
  induction front with
  | nil => rfl
  | cons c front ih =>
    rw [List.cons_append, lines]
    by_cases newline : c = '\n'
    · rw [if_pos newline, newline, List.count_cons_self, List.length_cons, ih]
    · rw [if_neg newline, List.count_cons_of_ne newline, ← ih]
      cases first : lines (front ++ ['\n']) with
      | nil => simp [first] at ih
      | cons line more => rfl

theorem getElem?_lines {front : List Char} (ends : front = [] ∨ ∃ body, front = body ++ ['\n'])
    (rest : List Char) : (lines (front ++ rest))[front.count '\n']? = (lines rest).head? := by
  rw [List.head?_eq_getElem?]
  rcases ends with rfl | ⟨body, rfl⟩
  · rfl
  · rw [lines_append (.inr ⟨body, rfl⟩), ← length_lines_ended,
      List.getElem?_append_right (Nat.le_refl _), Nat.sub_self]

/-! ### The first line -/

theorem lines_append_newline {body : List Char} (single : '\n' ∉ body) (after : List Char) :
    lines (body ++ '\n' :: after) = (body ++ ['\n']) :: lines after := by
  induction body with
  | nil => rfl
  | cons c body ih =>
    obtain ⟨other, single⟩ := List.ne_and_not_mem_of_not_mem_cons single
    rw [List.cons_append, lines, if_neg (Ne.symm other), ih single]
    rfl

theorem lines_of_not_mem {body : List Char} (nonempty : body ≠ []) (single : '\n' ∉ body) :
    lines body = [body] := by
  induction body with
  | nil => exact absurd rfl nonempty
  | cons c body ih =>
    obtain ⟨other, single⟩ := List.ne_and_not_mem_of_not_mem_cons single
    rw [lines, if_neg (Ne.symm other)]
    cases body with
    | nil => rfl
    | cons d body => rw [ih (List.cons_ne_nil _ _) single]

theorem chomp_of_not_mem {body : List Char} (single : '\n' ∉ body) : chomp body = body := by
  unfold chomp
  exact if_neg fun last => single (List.mem_of_getLast? last)

theorem chomp_append_newline (body : List Char) :
    chomp (body ++ ['\n']) = if body.getLast? = some '\r' then body.dropLast else body := by
  simp [chomp]

/-- A newline ends what the piece may reach into. -/
theorem prefix_of_prefix_append_newline {piece body after : List Char}
    (here : piece <+: body ++ '\n' :: after) (single : '\n' ∉ piece) : piece <+: body := by
  have line : body ++ ['\n'] <+: body ++ '\n' :: after := ⟨after, by simp⟩
  rcases List.prefix_or_prefix_of_prefix here line with within | beyond
  · rcases List.prefix_concat_iff.mp within with rfl | within
    · exact absurd (by simp) single
    · exact within
  · exact absurd (beyond.mem (by simp)) single

/-- The text begins with this line, given without its end. A newline ends it, together with a carriage
return before that, or the text does. -/
inductive Leads : List Char → List Char → Prop where
  | newline {line after : List Char} :
    '\n' ∉ line → line.getLast? ≠ some '\r' → Leads line (line ++ '\n' :: after)
  | carriageReturn {line after : List Char} :
    '\n' ∉ line → Leads line (line ++ '\r' :: '\n' :: after)
  | textEnd {line : List Char} : '\n' ∉ line → line ≠ [] → Leads line line

theorem exists_leads {text : List Char} (nonempty : text ≠ []) : ∃ line, Leads line text := by
  by_cases more : '\n' ∈ text
  · obtain ⟨body, after, rfl, single⟩ := List.eq_append_cons_of_mem more
    by_cases last : body.getLast? = some '\r'
    · obtain ⟨line, rfl⟩ := List.getLast?_eq_some_iff.mp last
      rw [List.append_assoc, List.singleton_append]
      exact ⟨line, .carriageReturn fun known => single (List.mem_append_left _ known)⟩
    · exact ⟨body, .newline single last⟩
  · exact ⟨text, .textEnd more nonempty⟩

theorem Leads.head?_lines {line text : List Char} (h : Leads line text) :
    (lines text).head?.map chomp = some line := by
  cases h with
  | newline single notReturn =>
    rw [lines_append_newline single, List.head?_cons, Option.map_some, chomp_append_newline,
      if_neg notReturn]
  | @carriageReturn after single =>
    have single' : '\n' ∉ line ++ ['\r'] := by simpa using single
    have shown := lines_append_newline single' after
    rw [List.append_assoc, List.singleton_append] at shown
    rw [shown, List.head?_cons, Option.map_some, chomp_append_newline, List.getLast?_concat, if_pos rfl,
      List.dropLast_concat]
  | textEnd single nonempty =>
    rw [lines_of_not_mem nonempty single, List.head?_cons, Option.map_some, chomp_of_not_mem single]

theorem leads_iff {line text : List Char} :
    Leads line text ↔ (lines text).head?.map chomp = some line := by
  refine ⟨Leads.head?_lines, fun first => ?_⟩
  have nonempty : text ≠ [] := by
    rintro rfl
    cases first
  obtain ⟨line', leads⟩ := exists_leads nonempty
  obtain rfl := Option.some.inj (leads.head?_lines.symm.trans first)
  exact leads

theorem prefix_chomp_head {piece text : List Char} (here : piece <+: text) (nonempty : piece ≠ [])
    (single : '\n' ∉ piece) (ends : piece.getLast? ≠ some '\r') :
    ∃ line, (lines text).head?.map chomp = some line ∧ piece <+: line := by
  obtain ⟨line, leads⟩ :=
    exists_leads fun empty => nonempty (List.prefix_nil.mp (empty ▸ here))
  refine ⟨line, leads.head?_lines, ?_⟩
  cases leads with
  | newline => exact prefix_of_prefix_append_newline here single
  | @carriageReturn after =>
    have here : piece <+: (line ++ ['\r']) ++ '\n' :: after := by simpa using here
    rcases List.prefix_concat_iff.mp (prefix_of_prefix_append_newline here single) with rfl | within
    · exact absurd List.getLast?_concat ends
    · exact within
  | textEnd => exact here

/-! ### The line with a number -/

/-- The line with this number, counted from 1, given without its end. -/
def IsLine (text : List Char) (number : Nat) (line : List Char) : Prop :=
  ∃ front rest, text = front ++ rest ∧ (front = [] ∨ ∃ body, front = body ++ ['\n']) ∧
    number = front.count '\n' + 1 ∧ Leads line rest

theorem exists_nth_line {text : List Char} {k : Nat} (inside : k < (lines text).length) :
    ∃ front rest, text = front ++ rest ∧ (front = [] ∨ ∃ body, front = body ++ ['\n']) ∧
      k = front.count '\n' := by
  induction k generalizing text with
  | zero => exact ⟨[], text, rfl, .inl rfl, rfl⟩
  | succ k ih =>
    by_cases more : '\n' ∈ text
    · obtain ⟨body, after, rfl, single⟩ := List.eq_append_cons_of_mem more
      rw [lines_append_newline single, List.length_cons] at inside
      obtain ⟨front, rest, rfl, begins, count⟩ := ih (Nat.lt_of_succ_lt_succ inside)
      refine ⟨body ++ '\n' :: front, rest, by simp, .inr ?_, ?_⟩
      · rcases begins with rfl | ⟨body', rfl⟩
        · exact ⟨body, rfl⟩
        · exact ⟨body ++ '\n' :: body', by simp⟩
      · rw [List.count_append, List.count_eq_zero_of_not_mem single, List.count_cons_self, Nat.zero_add,
          count]
    · by_cases empty : text = []
      · subst empty
        cases inside
      · rw [lines_of_not_mem empty more, List.length_singleton] at inside
        omega

theorem getElem?_lines_eq_some_iff {text line : List Char} {k : Nat} :
    (lines text)[k]?.map chomp = some line ↔ IsLine text (k + 1) line := by
  constructor
  · intro h
    have inside : k < (lines text).length := by
      by_contra beyond
      rw [List.getElem?_eq_none (Nat.le_of_not_lt beyond)] at h
      cases h
    obtain ⟨front, rest, rfl, begins, rfl⟩ := exists_nth_line inside
    rw [getElem?_lines begins] at h
    exact ⟨front, rest, rfl, begins, rfl, leads_iff.mpr h⟩
  · rintro ⟨front, rest, rfl, begins, number, leads⟩
    obtain rfl := Nat.succ.inj number
    rw [getElem?_lines begins]
    exact leads.head?_lines

end LispReader.Text
