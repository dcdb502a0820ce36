import LispReader.Proofs.Cursor.Ends
import LispReader.Proofs.Parse.Nesting

/-!
# The depth is kept

Every reading of the grammar comes back with the depth at which it was entered, with a value or with a
fault, and on the way the depth lies between that one and the limit. So every declaration of a program
is read at depth 0, whatever was wrong with those before it.
-/

namespace LispReader

open Grammar

namespace Reading

/-- The reading refines a rule whatever number of levels is left. -/
def Ruled {α : Type} (m : Nat → Reading α) : Prop := ∀ levels, ∃ r : Rule α, Refines levels m r

/-- The rules of the grammar, read in place, and each of them read one level deeper. A declaration is
not among them, as it is never read at the end of the input. -/
inductive IsRule : {α : Type} → (Nat → Reading α) → Prop where
  | primary : IsRule primary
  | arguments : IsRule arguments
  | call : IsRule call
  | unary : IsRule unary
  | binary (rank : Nat) : IsRule fun fuel => binary fuel rank
  | expression : IsRule expression
  | statement : IsRule statement
  | parameters : IsRule parameters
  | definition : IsRule definition
  | definitionOrStatement : IsRule definitionOrStatement
  | block : IsRule block
  | function (symbol : Symbol) : IsRule fun fuel => function fuel symbol
  | program : IsRule program
  | nested {α : Type} {m : Nat → Reading α} : IsRule m → IsRule fun fuel => nested (m fuel)

theorem IsRule.ruled {α : Type} {m : Nat → Reading α} (h : IsRule m) : Ruled m := by
  intro levels
  have below := refined_nestedWithin levels
  induction h generalizing levels with
  | primary => exact ⟨_, refines_primary below⟩
  | arguments => exact ⟨_, refines_arguments below⟩
  | call => exact ⟨_, refines_call below⟩
  | unary => exact ⟨_, refines_unary below⟩
  | binary rank => exact ⟨_, refines_binary below rank⟩
  | expression => exact ⟨_, refines_expression below⟩
  | statement => exact ⟨_, refines_statement below⟩
  | parameters => exact ⟨_, refines_parameters levels⟩
  | definition => exact ⟨_, refines_definition below⟩
  | definitionOrStatement => exact ⟨_, refines_definitionOrStatement below⟩
  | block => exact ⟨_, refines_block below⟩
  | function symbol => exact ⟨_, refines_function below symbol⟩
  | program => exact ⟨_, refines_declarations below⟩
  | nested _ ih =>
    cases levels with
    | zero => exact ⟨_, refines_nested_none _⟩
    | succ levels =>
      obtain ⟨r, refines⟩ := ih levels (refined_nestedWithin levels)
      exact ⟨r, refines_nested refines⟩

/-- `c'` has the depth of `c`, and on the way there the depth was never less, and never beyond the
limit. -/
def KeepsDepth (c c' : Cursor) : Prop :=
  c'.depth = c.depth ∧ ∃ steps, c'.trail = c.trail ++ steps ∧
    ∀ step ∈ steps, c.depth ≤ step.2 ∧ step.2 ≤ maxNesting

theorem keepsDepth_of_passes {c c' : Cursor} {last : Token} {input rest : List Token}
    {reports : List Report} (h : c.Passes last input rest reports c') : KeepsDepth c c' := by
  obtain ⟨steps, trail, climbs⟩ := h.trail
  obtain ⟨-, -, bounds⟩ := climbs.within
  refine ⟨h.depth, steps, trail, fun step known => ?_⟩
  obtain ⟨-, -, least, most⟩ := bounds step known
  exact ⟨least, most⟩

variable {tokens : List Token} {c : Cursor}

theorem Ruled.passes {α : Type} {m : Nat → Reading α} (h : Ruled m) (within : c.Within tokens) :
    ∃ outcome c' rest reports, Finishes m c outcome c' ∧
      c.Passes (Parse.endToken tokens) ((Parse.input tokens).drop c.index) rest reports c' := by
  obtain ⟨r, refines⟩ := h (maxNesting - c.depth)
  obtain ⟨c', finishes, passes⟩ := refines within.ahead (Nat.add_sub_cancel' within.shallow)
  exact ⟨_, c', _, _, finishes, passes⟩

theorem IsRule.keepsDepth {α : Type} {m : Nat → Reading α} (h : IsRule m)
    (within : c.Within tokens) : ∃ outcome c', Finishes m c outcome c' ∧ KeepsDepth c c' := by
  obtain ⟨outcome, c', _, _, finishes, passes⟩ := h.ruled.passes within
  exact ⟨outcome, c', finishes, keepsDepth_of_passes passes⟩

theorem declaration_keepsDepth (within : c.Within tokens)
    (before : c.index < Cursor.firstEnd tokens) :
    ∃ found c', Finishes declaration c (.ok found) c' ∧ KeepsDepth c c' := by
  obtain ⟨found, c', _, _, finishes, passes, -⟩ := declaration_passes within before
  exact ⟨found, c', finishes, keepsDepth_of_passes passes⟩

/-! ### The declarations of a program -/

/-- The cursors that a program comes to between its declarations, and behind the last of them. -/
inductive Arrives (tokens : List Token) : Cursor → Prop where
  | start : Arrives tokens (.start tokens)
  | next {c c' : Cursor} {found : Option Stmt} :
    Arrives tokens c → c.index < Cursor.firstEnd tokens → Finishes declaration c (.ok found) c' →
    Arrives tokens c'

theorem Arrives.invariant (h : Arrives tokens c) : c.Within tokens ∧ c.depth = 0 := by
  induction h with
  | start => exact ⟨Cursor.within_start tokens, rfl⟩
  | next _ before finishes ih =>
    obtain ⟨within, depth⟩ := ih
    obtain ⟨within', depth'⟩ := within_declaration within before finishes
    exact ⟨within', depth'.trans depth⟩

theorem finishes_program_end (ends : Machine.isAtEnd.Ends c true c) : Finishes program c (.ok []) c := by
  refine Machine.finishes_succ (fun _ => rfl) ⟨0, fun fuel _ => ?_⟩
  exact ends_bind_ok (ends_lift ends) (ends_pure [] c)

theorem finishes_program_cons {c₁ c₂ : Cursor} {found : Option Stmt} {stmts : List Stmt}
    (goes : Machine.isAtEnd.Ends c false c) (first : Finishes declaration c (.ok found) c₁)
    (more : Finishes program c₁ (.ok stmts) c₂) :
    Finishes program c (.ok (found.toList ++ stmts)) c₂ := by
  have tail : Finishes (fun fuel => do return found.toList ++ (← program fuel)) c₁
      (.ok (found.toList ++ stmts)) c₂ :=
    finishes_bind_ok more (finishes_of_ends (ends_pure (found.toList ++ stmts) c₂))
  have whole : Finishes
      (fun fuel => do
        let found ← declaration fuel
        return found.toList ++ (← program fuel)) c (.ok (found.toList ++ stmts)) c₂ :=
    finishes_bind_ok first tail
  obtain ⟨enough, ends⟩ := whole
  refine Machine.finishes_succ (fun _ => rfl) ⟨enough, fun fuel le => ?_⟩
  exact ends_bind_ok (ends_lift goes) (ends fuel le)

/-- From wherever a program comes to, it goes on to its end by declarations alone. -/
theorem Arrives.finishes (h : Arrives tokens c) :
    ∃ stmts final, Finishes program c (.ok stmts) final ∧ Arrives tokens final := by
  induction left : Cursor.firstEnd tokens - c.index using Nat.strongRecOn generalizing c with
  | ind left ih =>
    obtain ⟨within, -⟩ := h.invariant
    have atEnd := Machine.ends_isAtEnd within.ahead
    rcases Nat.lt_or_eq_of_le within.before with going | ended
    · obtain ⟨token, input⟩ := Cursor.exists_drop_eq_cons going
      rw [input] at atEnd
      obtain ⟨found, c', finishes, further, -⟩ := finishes_declaration within going
      obtain ⟨stmts, final, finishes', arrives⟩ := ih _ (by omega) (h.next going finishes) rfl
      exact ⟨_, final, finishes_program_cons atEnd finishes finishes', arrives⟩
    · rw [ended, Cursor.drop_firstEnd] at atEnd
      exact ⟨[], c, finishes_program_end atEnd, h⟩

theorem program_keepsDepth (tokens : List Token) :
    ∃ stmts final, Finishes program (.start tokens) (.ok stmts) final ∧
      Parse.ofTokens tokens = ⟨stmts, final.diagnostics⟩ ∧ KeepsDepth (.start tokens) final := by
  obtain ⟨stmts, final, _, finishes, parse, passes⟩ := finishes_program tokens
  exact ⟨stmts, final, finishes, parse, keepsDepth_of_passes passes⟩

/-- A program is read declaration by declaration, all of them at depth 0, and no rule leaves another
depth behind than it found, whatever comes of it; no statement is nested beyond the limit. -/
theorem depth_kept (tokens : List Token) :
    (∃ stmts final, Finishes program (.start tokens) (.ok stmts) final ∧
      Parse.ofTokens tokens = ⟨stmts, final.diagnostics⟩ ∧ KeepsDepth (.start tokens) final ∧
      Arrives tokens final) ∧
    (∀ c, Arrives tokens c → c.depth = 0) ∧
    (∀ c : Cursor, c.tokens = Cursor.complete tokens → c.depth ≤ maxNesting →
      (c.index ≤ Cursor.firstEnd tokens → ∀ {α : Type} {m : Nat → Reading α}, IsRule m →
        ∃ outcome c', Finishes m c outcome c' ∧ KeepsDepth c c') ∧
      (c.index < Cursor.firstEnd tokens →
        ∃ found c', Finishes declaration c (.ok found) c' ∧ KeepsDepth c c')) ∧
    ∀ stmt ∈ (Parse.ofTokens tokens).statements, stmt.nesting ≤ maxNesting := by
  refine ⟨?_, fun c h => h.invariant.2, ?_, Parse.nesting_statements tokens⟩
  · obtain ⟨stmts, final, finishes, parse, keeps⟩ := program_keepsDepth tokens
    obtain ⟨_, final', finishes', arrives⟩ := (Arrives.start : Arrives tokens _).finishes
    obtain rfl := (Machine.finishes_unique finishes finishes').2
    exact ⟨stmts, final, finishes, parse, keeps, arrives⟩
  · intro c same shallow
    constructor
    · intro before α m rule
      exact rule.keepsDepth ⟨same, before, shallow⟩
    · intro before
      exact declaration_keepsDepth ⟨same, Nat.le_of_lt before, shallow⟩ before

/-- The tokens of `); -x;`, which begin with a fault. -/
def faultyTokens : List Token :=
  [⟨.rightParen, ")", none, ⟨1, 0⟩⟩, ⟨.semicolon, ";", none, ⟨1, 1⟩⟩, ⟨.minus, "-", none, ⟨1, 3⟩⟩,
    ⟨.identifier, "x", none, ⟨1, 4⟩⟩, ⟨.semicolon, ";", none, ⟨1, 5⟩⟩]

theorem depth_kept_faulty :
    (∃ outcome c', Finishes (fun fuel => nested (expression fuel)) (.start faultyTokens) outcome c' ∧
      KeepsDepth (.start faultyTokens) c') ∧
    (∃ found c', Finishes declaration (.start faultyTokens) (.ok found) c' ∧
      Arrives faultyTokens c' ∧ c'.depth = 0) ∧
    (Stmt.expr (.negate ⟨1, 3⟩ (.name ⟨"x", ⟨1, 4⟩⟩))).nesting ≤ maxNesting := by
  obtain ⟨-, arrivals, rules, statements⟩ := depth_kept faultyTokens
  have before : (0 : Nat) < Cursor.firstEnd faultyTokens := by decide
  obtain ⟨ofRule, ofDeclaration⟩ := rules (.start faultyTokens) rfl (by decide)
  obtain ⟨found, c', finishes, -⟩ := ofDeclaration before
  have arrives : Arrives faultyTokens c' := Arrives.start.next before finishes
  exact ⟨ofRule (Nat.le_of_lt before) (.nested .expression),
    ⟨found, c', finishes, arrives, arrivals c' arrives⟩, statements _ (by decide +kernel)⟩

end Reading

end LispReader
