import LispReader.Proofs.Cursor.Rules
import LispReader.Proofs.Parse.Append
import Mathlib.Data.List.TakeWhile

/-!
# Reading in place comes to an end

Whatever the tokens are, with enough fuel `Reading.program` ends at the first end among them, without
a slip, and gives the parse; on the way the index never falls and never passes that end. Each
declaration read before the end moves the index, so the repetitions of the grammar make progress after
every fault.
-/

namespace LispReader

open Grammar

namespace Cursor

/-- The index of the first end. -/
def firstEnd (tokens : List Token) : Nat := (complete tokens).findIdx (·.kind = .eof)

variable {tokens : List Token}

theorem endToken_kind (tokens : List Token) : (Parse.endToken tokens).kind = .eof := by
  unfold Parse.endToken
  cases found : tokens.find? (·.kind = .eof) with
  | none => rfl
  | some last => simpa using List.find?_some found

theorem ne_eof_of_mem_input {token : Token} (known : token ∈ Parse.input tokens) :
    token.kind ≠ .eof := by
  simpa using List.mem_takeWhile_imp known

/-- The first end stands right behind the input, be it one of the tokens or not. -/
theorem complete_eq (tokens : List Token) :
    ∃ more, complete tokens = Parse.input tokens ++ Parse.endToken tokens :: more := by
  cases found : tokens.find? (·.kind = .eof) with
  | some last =>
    obtain ⟨ends, front, back, rfl, clean⟩ := List.find?_eq_some_iff_append.mp found
    have noEnd : ∀ token ∈ front, token.kind ≠ .eof := by simpa using clean
    have ends : last.kind = .eof := of_decide_eq_true ends
    rw [Parse.input_ended noEnd ends, Parse.endToken_ended noEnd ends]
    unfold complete
    split
    · exact ⟨back, rfl⟩
    · exact ⟨back ++ [_], by rw [List.append_assoc, List.cons_append]⟩
  | none =>
    have noEnd : ∀ token ∈ tokens, token.kind ≠ .eof := by
      simpa using List.find?_eq_none.mp found
    have input : Parse.input tokens = tokens := by
      apply List.takeWhile_eq_self_iff.mpr
      simpa using noEnd
    have unended : tokens.getLast?.any (·.kind = .eof) = false := by
      cases last : tokens.getLast? with
      | none => rfl
      | some token => exact decide_eq_false (noEnd token (List.mem_of_getLast? last))
    rw [input, Parse.endToken, found, complete, unended]
    exact ⟨[], rfl⟩

theorem firstEnd_eq (tokens : List Token) : firstEnd tokens = (Parse.input tokens).length := by
  obtain ⟨more, complete⟩ := complete_eq tokens
  have none : (Parse.input tokens).findIdx (·.kind = .eof) = (Parse.input tokens).length := by
    apply List.findIdx_eq_length_of_false
    intro token known
    exact decide_eq_false (ne_eof_of_mem_input known)
  unfold firstEnd
  rw [complete, List.findIdx_append, none, if_neg (Nat.lt_irrefl _), List.findIdx_cons]
  simp [endToken_kind]

theorem firstEnd_lt (tokens : List Token) : firstEnd tokens < (complete tokens).length := by
  obtain ⟨more, complete⟩ := complete_eq tokens
  rw [firstEnd_eq, complete, List.length_append, List.length_cons]
  omega

theorem exists_drop_eq_cons {i : Nat} (before : i < firstEnd tokens) :
    ∃ token, (Parse.input tokens).drop i = token :: (Parse.input tokens).drop (i + 1) := by
  rw [firstEnd_eq] at before
  exact ⟨_, List.drop_eq_getElem_cons before⟩

theorem drop_firstEnd (tokens : List Token) : (Parse.input tokens).drop (firstEnd tokens) = [] := by
  rw [firstEnd_eq, List.drop_length]

/-- The cursor stands among `tokens`, at their first end at the latest. -/
structure Within (tokens : List Token) (c : Cursor) : Prop where
  same : c.tokens = complete tokens
  before : c.index ≤ firstEnd tokens
  shallow : c.depth ≤ maxNesting

variable {c c' : Cursor}

theorem within_start (tokens : List Token) : (start tokens).Within tokens :=
  ⟨rfl, Nat.zero_le _, Nat.zero_le _⟩

theorem Within.ahead (h : c.Within tokens) :
    c.Ahead ((Parse.input tokens).drop c.index) (Parse.endToken tokens) := by
  obtain ⟨more, complete⟩ := complete_eq tokens
  have before := h.before
  rw [firstEnd_eq] at before
  refine ⟨⟨more, ?_⟩, endToken_kind tokens, ?_⟩
  · rw [h.same, complete, List.drop_append_of_le_length before]
  · intro token known
    exact ne_eof_of_mem_input (List.mem_of_mem_drop known)

theorem ahead_start (tokens : List Token) :
    (start tokens).Ahead (Parse.input tokens) (Parse.endToken tokens) := (within_start tokens).ahead

theorem Within.passes {last : Token} {rest : List Token} {reports : List Report}
    (h : c.Within tokens)
    (passes : c.Passes last ((Parse.input tokens).drop c.index) rest reports c') :
    c'.Within tokens := by
  have index := passes.index
  have before := h.before
  rw [List.length_drop, ← firstEnd_eq] at index
  exact ⟨passes.tokens.trans h.same, by omega, passes.depth ▸ h.shallow⟩

theorem Climbs.within {low i j : Nat} {steps : List (Nat × Nat)} (h : Climbs low i steps j) :
    i ≤ j ∧ steps.Pairwise (·.1 ≤ ·.1) ∧
      ∀ step ∈ steps, i ≤ step.1 ∧ step.1 ≤ j ∧ low ≤ step.2 ∧ step.2 ≤ maxNesting := by
  induction h with
  | nil i => exact ⟨Nat.le_refl i, .nil, by simp⟩
  | cons le least most _ ih =>
    obtain ⟨rest, ordered, bounds⟩ := ih
    refine ⟨Nat.le_trans le rest, ordered.cons fun step known => (bounds step known).1, ?_⟩
    intro step known
    rcases List.mem_cons.mp known with rfl | known
    · exact ⟨le, rest, least, most⟩
    · obtain ⟨later, bounds⟩ := bounds step known
      exact ⟨Nat.le_trans le later, bounds⟩

end Cursor

namespace Reading

variable {tokens : List Token} {c c' : Cursor}

/-- A declaration read before the end takes something of what lies ahead. -/
theorem declaration_passes (within : c.Within tokens) (before : c.index < Cursor.firstEnd tokens) :
    ∃ found c' rest reports, Finishes declaration c (.ok found) c' ∧
      c.Passes (Parse.endToken tokens) ((Parse.input tokens).drop c.index) rest reports c' ∧
      rest.length < ((Parse.input tokens).drop c.index).length := by
  have ahead := within.ahead
  obtain ⟨token, input⟩ := Cursor.exists_drop_eq_cons before
  rw [input] at ahead ⊢
  have room : c.depth + (maxNesting - c.depth) = maxNesting := Nat.add_sub_cancel' within.shallow
  obtain ⟨c', finishes, passes⟩ := imitates_declaration (refined_nestedWithin _) ahead room
  obtain ⟨found, result⟩ : ∃ found, ((Grammar.declaration (nestedWithin (maxNesting - c.depth))).run
      (token :: (Parse.input tokens).drop (c.index + 1))).result = .ok found :=
    Rule.result_recovering _ _
  have shorter := advances_declaration (nestedWithin (maxNesting - c.depth)) token
    ((Parse.input tokens).drop (c.index + 1))
  rw [result] at finishes
  exact ⟨found, c', _, _, finishes, passes, Nat.lt_succ_of_le shorter⟩

/-- A declaration read before the end leaves the index between where it was and the end. -/
theorem finishes_declaration (within : c.Within tokens) (before : c.index < Cursor.firstEnd tokens) :
    ∃ found c', Finishes declaration c (.ok found) c' ∧ c.index < c'.index ∧ c'.Within tokens ∧
      c'.depth = c.depth := by
  obtain ⟨found, c', rest, reports, finishes, passes, shorter⟩ := declaration_passes within before
  have index := passes.index
  exact ⟨found, c', finishes, by omega, within.passes passes, passes.depth⟩

theorem within_declaration {found : Option Stmt} (within : c.Within tokens)
    (before : c.index < Cursor.firstEnd tokens) (finishes : Finishes declaration c (.ok found) c') :
    c'.Within tokens ∧ c'.depth = c.depth := by
  obtain ⟨_, c₁, finishes₁, -, within₁, depth⟩ := finishes_declaration within before
  obtain rfl := (Machine.finishes_unique finishes finishes₁).2
  exact ⟨within₁, depth⟩

/-- A program is read to its end without a slip, and what is read is its parse. -/
theorem finishes_program (tokens : List Token) :
    ∃ stmts final reports, Finishes program (.start tokens) (.ok stmts) final ∧
      Parse.ofTokens tokens = ⟨stmts, final.diagnostics⟩ ∧
      (Cursor.start tokens).Passes (Parse.endToken tokens) (Parse.input tokens) [] reports final := by
  obtain ⟨final, finishes, passes⟩ := refines_program (Cursor.ahead_start tokens) rfl
  obtain ⟨stmts, result⟩ := result_program (Parse.input tokens)
  rw [result] at finishes
  rw [rest_program result] at passes
  refine ⟨stmts, final, _, finishes, ?_, passes⟩
  rw [Parse.ofTokens_eq result, passes.diagnostics]
  rfl

/-- Reading ends at the first end of the input with the parse as its outcome, its index never having
passed that end or gone back, and every declaration on the way moves on, with a fault or without. -/
theorem program_ends_at_firstEnd (tokens : List Token) :
    Cursor.firstEnd tokens < (Cursor.complete tokens).length ∧
    (∃ stmts final, Finishes program (Cursor.start tokens) (.ok stmts) final ∧
      Parse.ofTokens tokens = ⟨stmts, final.diagnostics⟩ ∧
      final.index = Cursor.firstEnd tokens ∧ final.depth = 0 ∧
      final.trail.Pairwise (·.1 ≤ ·.1) ∧
      ∀ step ∈ final.trail, step.1 ≤ Cursor.firstEnd tokens ∧ step.2 ≤ maxNesting) ∧
    ∀ c : Cursor, c.tokens = Cursor.complete tokens → c.index < Cursor.firstEnd tokens →
      c.depth ≤ maxNesting →
      ∃ found c', Finishes declaration c (.ok found) c' ∧ c.index < c'.index ∧
        c'.index ≤ Cursor.firstEnd tokens ∧ c'.depth = c.depth := by
  refine ⟨Cursor.firstEnd_lt tokens, ?_, ?_⟩
  · obtain ⟨stmts, final, _, finishes, parse, passes⟩ := finishes_program tokens
    have arrived : final.index = Cursor.firstEnd tokens := by
      have index := passes.index
      rw [Cursor.firstEnd_eq]
      simpa [Cursor.start] using index
    obtain ⟨steps, trail, climbs⟩ := passes.trail
    change final.trail = steps at trail
    obtain ⟨-, ordered, bounds⟩ := climbs.within
    rw [← trail, arrived] at bounds
    rw [← trail] at ordered
    refine ⟨stmts, final, finishes, parse, arrived, passes.depth, ordered, ?_⟩
    intro step known
    obtain ⟨-, most, -, shallow⟩ := bounds step known
    exact ⟨most, shallow⟩
  · intro c same before shallow
    obtain ⟨found, c', finishes, further, within, depth⟩ :=
      finishes_declaration ⟨same, Nat.le_of_lt before, shallow⟩ before
    exact ⟨found, c', finishes, further, within.before, depth⟩

/-- A closing parenthesis, where no declaration can begin and no end follows. -/
def unopened : List Token := [⟨.rightParen, ")", none, ⟨1, 0⟩⟩]

theorem program_ends_at_firstEnd_unopened :
    Cursor.firstEnd unopened = 1 ∧
      ∃ found c', Finishes declaration (Cursor.start unopened) (.ok found) c' ∧ 0 < c'.index ∧
        c'.index ≤ 1 ∧ c'.depth = 0 := by
  have first : Cursor.firstEnd unopened = 1 := by decide
  obtain ⟨-, -, moves⟩ := program_ends_at_firstEnd unopened
  rw [first] at moves
  exact ⟨first, moves (Cursor.start unopened) rfl (by decide) (by decide)⟩

end Reading

end LispReader
