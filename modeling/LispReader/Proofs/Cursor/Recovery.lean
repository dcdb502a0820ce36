import LispReader.Proofs.Cursor.Reach
import Mathlib.Order.Bounds.Basic

/-!
# Where reading is resumed

Whatever has stopped a declaration, reading is resumed at the earliest index behind the one where it
stopped at which a declaration may begin: behind a semicolon, before a condition or a definition, or at
the first end (`resumes_earliest`). It is said of the cursors that a reading of the tokens comes to,
with the declarations of the program and with those in the bodies of functions (`Reaches`).
-/

namespace LispReader

open Grammar

/-! ### Where a declaration may begin -/

namespace Cursor

/-- The kind of the token at `i`, be it the end that is put behind the others. -/
def kindAt (tokens : List Token) (i : Nat) : Option Token.Kind := (complete tokens)[i]?.map (·.kind)

/-- A condition or a definition begins at `j`. -/
def OpensAt (tokens : List Token) (j : Nat) : Prop :=
  kindAt tokens j = some (.keyword .cond) ∨
    kindAt tokens j = some .leftParen ∧ kindAt tokens (j + 1) = some (.keyword .define)

instance (tokens : List Token) (j : Nat) : Decidable (OpensAt tokens j) :=
  inferInstanceAs (Decidable (_ ∨ _))

/-- Reading may be resumed at `j`, some token having been skipped. -/
def ResumesAt (tokens : List Token) (j : Nat) : Prop :=
  j = firstEnd tokens ∨ kindAt tokens (j - 1) = some .semicolon ∨ OpensAt tokens j

instance (tokens : List Token) (j : Nat) : Decidable (ResumesAt tokens j) :=
  inferInstanceAs (Decidable (_ ∨ _))

/-- Where reading may be resumed that has stopped at `i`. -/
def resumptions (tokens : List Token) (i : Nat) : Set Nat :=
  {j | i < j ∧ j ≤ firstEnd tokens ∧ ResumesAt tokens j}

variable {tokens : List Token} {i j : Nat}

theorem kindAt_eq (inside : j ≤ firstEnd tokens) : kindAt tokens j =
    some (((Parse.input tokens).drop j).head?.getD (Parse.endToken tokens)).kind := by
  have within : ({ start tokens with index := j } : Cursor).Within tokens :=
    ⟨rfl, inside, Nat.zero_le _⟩
  have current : (complete tokens)[j]? = _ := within.ahead.current
  rw [kindAt, current, Option.map_some]

theorem kindAt_of_drop {token : Token} {rest : List Token} (inside : i < firstEnd tokens)
    (input : (Parse.input tokens).drop i = token :: rest) : kindAt tokens i = some token.kind := by
  rw [kindAt_eq (Nat.le_of_lt inside), input]
  rfl

theorem opensDeclaration_drop (inside : j ≤ firstEnd tokens) :
    Rule.opensDeclaration ((Parse.input tokens).drop j) = true ↔ OpensAt tokens j := by
  unfold OpensAt
  rcases Nat.lt_or_eq_of_le inside with before | rfl
  · obtain ⟨token, input⟩ := exists_drop_eq_cons before
    rw [input, kindAt_of_drop before input, kindAt_eq before]
    cases (Parse.input tokens).drop (j + 1) with
    | nil => simp [Rule.opensDeclaration, endToken_kind]
    | cons next rest => simp [Rule.opensDeclaration]
  · rw [kindAt_eq inside, drop_firstEnd]
    simp [Rule.opensDeclaration, endToken_kind]

/-! ### Skipping -/

theorem resume_drop_of_resumesAt (inside : i < firstEnd tokens) (stops : ResumesAt tokens (i + 1)) :
    Rule.resume ((Parse.input tokens).drop i) = (Parse.input tokens).drop (i + 1) := by
  obtain ⟨token, input⟩ := exists_drop_eq_cons inside
  have kind := kindAt_of_drop inside input
  rw [input, Rule.resume]
  rcases stops with atEnd | semicolon | opens
  · rw [atEnd, drop_firstEnd, Rule.resume, ite_self]
  · rw [Nat.add_sub_cancel, kind, Option.some_inj] at semicolon
    rw [semicolon]
    rfl
  · rw [(opensDeclaration_drop inside).mpr opens, Bool.or_true, if_pos rfl]

theorem resume_drop_of_not_resumesAt (inside : i < firstEnd tokens)
    (goes : ¬ ResumesAt tokens (i + 1)) :
    Rule.resume ((Parse.input tokens).drop i) = Rule.resume ((Parse.input tokens).drop (i + 1)) := by
  obtain ⟨token, input⟩ := exists_drop_eq_cons inside
  have kind := kindAt_of_drop inside input
  rw [ResumesAt, Nat.add_sub_cancel, kind, Option.some_inj, ← opensDeclaration_drop inside] at goes
  rw [input, Rule.resume, if_neg]
  simpa using fun semicolon => goes (.inr semicolon)

theorem isLeast_of_resumesAt (inside : i < firstEnd tokens) (stops : ResumesAt tokens (i + 1)) :
    IsLeast (resumptions tokens i) (i + 1) :=
  ⟨⟨Nat.lt_succ_self i, inside, stops⟩, fun _ known => known.1⟩

theorem isLeast_of_not_resumesAt (goes : ¬ ResumesAt tokens (i + 1))
    (least : IsLeast (resumptions tokens (i + 1)) j) : IsLeast (resumptions tokens i) j := by
  obtain ⟨⟨behind, within, resumes⟩, first⟩ := least
  refine ⟨⟨Nat.lt_of_succ_lt behind, within, resumes⟩, ?_⟩
  rintro k ⟨behind, within, resumes⟩
  have other : i + 1 ≠ k := by
    rintro rfl
    exact goes resumes
  exact first ⟨by omega, within, resumes⟩

/-- Skipping comes to the earliest index behind its first token where reading may be resumed. -/
theorem exists_earliest (inside : i < firstEnd tokens) :
    ∃ j, IsLeast (resumptions tokens i) j ∧
      Rule.resume ((Parse.input tokens).drop i) = (Parse.input tokens).drop j := by
  induction left : firstEnd tokens - i generalizing i with
  | zero => omega
  | succ left ih =>
    by_cases stops : ResumesAt tokens (i + 1)
    · exact ⟨i + 1, isLeast_of_resumesAt inside stops, resume_drop_of_resumesAt inside stops⟩
    · have further : i + 1 < firstEnd tokens := by
        have : i + 1 ≠ firstEnd tokens := fun atEnd => stops (.inl atEnd)
        omega
      obtain ⟨j, least, same⟩ := ih further (by omega)
      refine ⟨j, isLeast_of_not_resumesAt stops least, ?_⟩
      rw [resume_drop_of_not_resumesAt inside stops, same]

theorem exists_resumption (inside : i ≤ firstEnd tokens) : ∃ j ≤ firstEnd tokens,
    (i = firstEnd tokens → j = firstEnd tokens) ∧
    (i ≠ firstEnd tokens → IsLeast (resumptions tokens i) j) ∧
    (Parse.input tokens).drop j = Rule.resume ((Parse.input tokens).drop i) := by
  by_cases atEnd : i = firstEnd tokens
  · subst atEnd
    exact ⟨_, inside, fun _ => rfl, fun other => absurd rfl other, by rw [drop_firstEnd, Rule.resume]⟩
  · obtain ⟨j, least, same⟩ := exists_earliest (Nat.lt_of_le_of_ne inside atEnd)
    exact ⟨j, least.1.2.1, fun ended => absurd ended atEnd, fun _ => least, same.symm⟩

/-! ### Recovery in place -/

/-- `c'` is `c`, moved on to the earliest index where reading may be resumed. -/
structure ResumesEarliest (tokens : List Token) (c c' : Cursor) : Prop where
  same : c'.tokens = c.tokens
  depth : c'.depth = c.depth
  diagnostics : c'.diagnostics = c.diagnostics
  atEnd : c.index = firstEnd tokens → c'.index = firstEnd tokens
  earliest : c.index ≠ firstEnd tokens → IsLeast (resumptions tokens c.index) c'.index
  /-- This is also where the rules take up what is left of the input. -/
  rest : (Parse.input tokens).drop c'.index = Rule.resume ((Parse.input tokens).drop c.index)

variable {c c' : Cursor}

theorem ResumesEarliest.not_opensAt (h : ResumesEarliest tokens c c') (behind : c.index < j)
    (skipped : j < c'.index) : ¬ OpensAt tokens j := by
  intro opens
  by_cases atEnd : c.index = firstEnd tokens
  · have := h.atEnd atEnd
    omega
  · obtain ⟨⟨-, within, -⟩, first⟩ := h.earliest atEnd
    have := first ⟨behind, by omega, .inr (.inr opens)⟩
    omega

theorem ResumesEarliest.index_of_semicolon (h : ResumesEarliest tokens c c')
    (before : c.index ≤ firstEnd tokens) (semicolon : kindAt tokens c.index = some .semicolon) :
    c'.index = c.index + 1 := by
  have inside : c.index ≠ firstEnd tokens := by
    intro atEnd
    rw [kindAt_eq before, atEnd, drop_firstEnd, List.head?_nil, Option.getD_none, endToken_kind]
      at semicolon
    cases semicolon
  apply (h.earliest inside).unique
  exact isLeast_of_resumesAt (Nat.lt_of_le_of_ne before inside) (.inr (.inl semicolon))

end Cursor

/-- Skips a token and then what cannot begin a declaration. -/
def Machine.synchronize (fuel : Nat) : Machine Unit := do
  let _ ← advance
  resume fuel

namespace Reading

open Cursor

variable {tokens : List Token} {c c' : Cursor}

/-- Recovery comes to its end without a slip wherever there is a token to skip or one to look back
at. -/
theorem finishes_synchronize (within : c.Within tokens)
    (moved : c.index = firstEnd tokens → 0 < c.index) :
    ∃ c', Machine.Finishes Machine.synchronize c () c' ∧ ResumesEarliest tokens c c' := by
  have before := within.before
  have length := firstEnd_eq tokens
  have moved : (Parse.input tokens).drop c.index = [] → 0 < c.index := by
    intro none
    have := List.drop_eq_nil_iff.mp none
    exact moved (by omega)
  obtain ⟨skipped, c₁, c', advances, resumes, passes⟩ := finishes_skip within.ahead moved within.shallow
  have recovers : Machine.Finishes Machine.synchronize c () c' :=
    Machine.finishes_bind (Machine.finishes_of_ends advances) resumes
  obtain ⟨j, inside, atEnd, earliest, rest⟩ := exists_resumption before
  have arrives : c'.index = j := by
    have index := passes.index
    rw [← rest, List.length_drop, List.length_drop] at index
    omega
  subst arrives
  exact ⟨c', recovers, passes.tokens, passes.depth, by simpa using passes.diagnostics, atEnd, earliest,
    rest⟩

/-! ### Where a fault is caught -/

theorem recovering_eq {α : Type} (fuel : Nat) (m : Reading α) : recovering fuel m =
    (do
      match ← m.run with
      | .ok a => return .ok (some a)
      | .error blame =>
        Machine.report blame.token blame.problem
        Machine.synchronize fuel
        return .ok none : Machine (Except Blame (Option α))) := by
  refine bind_congr (m := Machine) fun outcome => ?_
  cases outcome with
  | ok a => rfl
  | error blame => simp only [Machine.synchronize, bind_assoc]

/-- The declaration begun in `begun` is stopped by a fault, which has just been reported in `caught`. -/
inductive Catches (begun caught : Cursor) : Prop where
  | intro {blame : Blame} {c : Cursor} :
    Finishes definitionOrStatement begun (.error blame) c →
    caught = c.addDiagnostic (.ofToken blame.token blame.problem.message) → Catches begun caught

variable {begun caught : Cursor}

theorem Catches.within (h : Catches begun caught) (within : begun.Within tokens) :
    caught.Within tokens := by
  obtain ⟨stopped, rfl⟩ := h
  obtain ⟨same, before, shallow⟩ :=
    IsRule.definitionOrStatement.ruled.within within stopped
  exact ⟨same, before, shallow⟩

/-- A declaration that has caught a fault ends where recovery does. -/
theorem Catches.finishes_declaration (h : Catches begun caught)
    (recovers : Machine.Finishes Machine.synchronize caught () c') :
    Finishes declaration begun (.ok none) c' := by
  obtain ⟨stopped, rfl⟩ := h
  apply Machine.finishes_succ declaration.eq_2
  simp only [recovering_eq]
  apply Machine.finishes_bind stopped
  apply Machine.finishes_bind (Machine.finishes_of_ends (Machine.ends_ofStep rfl))
  apply Machine.finishes_bind recovers
  exact Machine.finishes_of_ends (Machine.ends_pure _ c')

/-- Wherever in a program or in the body of a function a fault is caught, recovery leaves the depth and
the diagnostics alone and resumes at the earliest index in question. So it skips no condition and no
definition but one that it sets out from, and no more than the semicolon if it sets out from one. -/
theorem resumes_earliest (tokens : List Token) :
    (∀ series begun, Reaches tokens series begun → series.isOver.Ends begun false begun →
      begun.Within tokens ∧ begun.index < firstEnd tokens) ∧
    ∀ begun caught, begun.Within tokens → begun.index < firstEnd tokens → Catches begun caught →
      caught.Within tokens ∧ ∃ resumed, Machine.Finishes Machine.synchronize caught () resumed ∧
        Finishes declaration begun (.ok none) resumed ∧ ResumesEarliest tokens caught resumed ∧
        (∀ j, caught.index < j → j < resumed.index → ¬ OpensAt tokens j) ∧
        (kindAt tokens caught.index = some .semicolon → resumed.index = caught.index + 1) := by
  constructor
  · intro series begun reached more
    exact ⟨reached.within, Series.lt_firstEnd reached.within more⟩
  · intro begun caught start before catches
    have within := catches.within start
    have moved : caught.index = firstEnd tokens → 0 < caught.index :=
      fun atEnd => atEnd ▸ Nat.zero_lt_of_lt before
    obtain ⟨resumed, recovers, earliest⟩ := finishes_synchronize within moved
    refine ⟨within, resumed, recovers, catches.finishes_declaration recovers, earliest, ?_, ?_⟩
    · intro j behind skipped
      exact earliest.not_opensAt behind skipped
    · exact earliest.index_of_semicolon within.before

/-- The tokens of `(Define f() a b c Cond (d) e;)`, where `b` stops the declaration in the body. -/
def brokenBody : List Token :=
  [⟨.leftParen, "(", none, ⟨1, 0⟩⟩, ⟨.keyword .define, "Define", none, ⟨1, 1⟩⟩,
    ⟨.identifier, "f", none, ⟨1, 8⟩⟩, ⟨.leftParen, "(", none, ⟨1, 9⟩⟩,
    ⟨.rightParen, ")", none, ⟨1, 10⟩⟩, ⟨.identifier, "a", none, ⟨1, 12⟩⟩,
    ⟨.identifier, "b", none, ⟨1, 14⟩⟩, ⟨.identifier, "c", none, ⟨1, 16⟩⟩,
    ⟨.keyword .cond, "Cond", none, ⟨1, 18⟩⟩, ⟨.leftParen, "(", none, ⟨1, 23⟩⟩,
    ⟨.identifier, "d", none, ⟨1, 24⟩⟩, ⟨.rightParen, ")", none, ⟨1, 25⟩⟩,
    ⟨.identifier, "e", none, ⟨1, 27⟩⟩, ⟨.semicolon, ";", none, ⟨1, 28⟩⟩,
    ⟨.rightParen, ")", none, ⟨1, 29⟩⟩]

theorem exists_reaches_brokenBody : ∃ begun, Reaches brokenBody .body begun ∧
    Series.body.isOver.Ends begun false begun ∧ begun.index = 5 ∧ begun.depth = 1 :=
  ⟨_, .body .start rfl (.intro rfl rfl rfl rfl rfl rfl ⟨0, fun _ _ => rfl⟩ rfl), rfl, rfl, rfl⟩

theorem exists_catches_brokenBody {begun : Cursor} (within : begun.Within brokenBody)
    (index : begun.index = 5) (depth : begun.depth = 1) :
    ∃ caught, Catches begun caught ∧ caught.index = 6 ∧ caught.depth = 1 := by
  have ahead := within.ahead
  rw [index] at ahead
  obtain ⟨c, stopped, passes⟩ :=
    refines_definitionOrStatement (refined_nestedWithin 63) ahead (by rw [depth]; rfl)
  have result : ((Grammar.definitionOrStatement (nestedWithin 63)).run
      ((Parse.input brokenBody).drop 5)).result =
      .error ⟨.semicolonMissing, (Parse.input brokenBody).drop 6⟩ := by decide +kernel
  have rest : ((Grammar.definitionOrStatement (nestedWithin 63)).run
      ((Parse.input brokenBody).drop 5)).rest.length = 9 := by decide +kernel
  rw [result] at stopped
  have moved := passes.index
  rw [rest, index] at moved
  exact ⟨_, .intro stopped rfl, Nat.add_right_cancel moved, passes.depth.trans depth⟩

/-- From `b` reading goes on at the condition. -/
theorem resumes_earliest_inBody : ∃ begun caught resumed,
    Reaches brokenBody .body begun ∧ Series.body.isOver.Ends begun false begun ∧
    begun.Within brokenBody ∧ begun.index < firstEnd brokenBody ∧ Catches begun caught ∧
    caught.index = 6 ∧ caught.depth = 1 ∧ Machine.Finishes Machine.synchronize caught () resumed ∧
    Finishes declaration begun (.ok none) resumed ∧ resumed.index = 8 ∧ resumed.depth = 1 := by
  obtain ⟨reachable, recovery⟩ := resumes_earliest brokenBody
  obtain ⟨begun, reached, more, index, depth⟩ := exists_reaches_brokenBody
  obtain ⟨within, before⟩ := reachable .body begun reached more
  obtain ⟨caught, catches, index', depth'⟩ := exists_catches_brokenBody within index depth
  obtain ⟨-, resumed, recovers, finishes, resumes, -⟩ := recovery begun caught within before catches
  have earliest := resumes.earliest
  rw [index'] at earliest
  have least : IsLeast (resumptions brokenBody 6) 8 := by
    refine ⟨⟨by decide, by decide, by decide⟩, ?_⟩
    rintro j ⟨behind, -, resumes⟩
    have : j ≠ 7 := by
      rintro rfl
      exact absurd resumes (by decide)
    omega
  exact ⟨begun, caught, resumed, reached, more, within, before, catches, index', depth', recovers,
    finishes, (earliest (by decide)).unique least, resumes.depth.trans depth'⟩

end Reading

end LispReader
