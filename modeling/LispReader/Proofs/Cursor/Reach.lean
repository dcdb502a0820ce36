import LispReader.Proofs.Cursor.Depth

/-!
# What a reading comes to

A program is a series of declarations, and so is the body of a function. `Reading.Reaches` gives the
cursors that a reading of some tokens comes to between the declarations of such a series, however deep
it is nested. Each of them stands among these tokens, at the first end at the latest, with no more levels
open than the limit allows (`Reaches.within`).
-/

namespace LispReader

open Grammar

namespace Reading

open Machine

/-- What declarations are read for. -/
inductive Series where
  | program
  | body

/-- Has the series come to its end? -/
def Series.isOver : Series → Machine Bool
  | program => isAtEnd
  | body => isAtClose

/-- A declaration that begins in `c` is the definition of a function, whose body begins in `c'`. -/
inductive OpensBody (c c' : Cursor) : Prop where
  | intro {opening define name paren close : Token} {params : List Symbol}
    {c₁ c₂ c₃ c₄ c₅ c₆ : Cursor} :
    startsDefinition.Ends c true c → advance.Ends c opening c₁ → advance.Ends c₁ define c₂ →
    (expect .identifier .nameMissing).Ends c₂ (.ok name) c₃ →
    (accept (Rule.ofKind .leftParen)).Ends c₃ (.ok (some paren)) c₄ →
    enter.Ends c₄ (.ok ()) c₅ →
    Finishes parameters c₅ (.ok params) c₆ →
    (expect .rightParen .parametersUnclosed).Ends c₆ (.ok close) c' → OpensBody c c'

/-- The cursors that a reading of `tokens` comes to before each declaration of a series and behind the
last one. -/
inductive Reaches (tokens : List Token) : Series → Cursor → Prop where
  | start : Reaches tokens .program (.start tokens)
  | next {series : Series} {c c' : Cursor} {found : Option Stmt} :
    Reaches tokens series c → series.isOver.Ends c false c → Finishes declaration c (.ok found) c' →
    Reaches tokens series c'
  | body {series : Series} {c c' : Cursor} :
    Reaches tokens series c → series.isOver.Ends c false c → OpensBody c c' → Reaches tokens .body c'

variable {α : Type} {tokens : List Token} {c c' : Cursor}

/-! ### What is read keeps the cursor within the tokens -/

theorem ruled_expect (kind : Token.Kind) (problem : Problem) : Ruled fun _ => expect kind problem :=
  fun levels => ⟨_, refines_expect levels kind problem⟩

theorem ruled_accept {σ : Type} (select : Token → Option σ) : Ruled fun _ => accept select := by
  intro levels
  refine ⟨Rule.accept select >>= pure, ?_⟩
  have refines : Refines levels (fun _ => accept select >>= pure) (Rule.accept select >>= pure) :=
    refines_accept_bind (refines_pure levels none) fun s => refines_pure levels (some s)
  simpa only [bind_pure] using refines

theorem Ruled.within {m : Nat → Reading α} {outcome : Except Blame α} (ruled : Ruled m)
    (within : c.Within tokens) (finishes : Finishes m c outcome c') : c'.Within tokens := by
  obtain ⟨_, c₁, _, _, finishes₁, passes⟩ := ruled.passes within
  obtain rfl := (finishes_unique finishes finishes₁).2
  exact within.passes passes

theorem Series.lt_firstEnd {series : Series} (within : c.Within tokens)
    (more : series.isOver.Ends c false c) : c.index < Cursor.firstEnd tokens := by
  have ahead := within.ahead
  apply Nat.lt_of_le_of_ne within.before
  intro atEnd
  rw [atEnd, Cursor.drop_firstEnd] at ahead
  have ended : series.isOver.Ends c true c := by
    cases series with
    | program => exact ends_isAtEnd ahead
    | body => exact ends_isAtClose ahead
  cases (Ends.unique more ended).1

/-! ### The body of a function -/

theorem within_define {opening define : Token} {c₁ c₂ : Cursor} (within : c.Within tokens)
    (opens : startsDefinition.Ends c true c) (first : advance.Ends c opening c₁)
    (second : advance.Ends c₁ define c₂) : c₂.Within tokens := by
  have ahead := within.ahead
  have opens : opensDefinition ((Parse.input tokens).drop c.index) = true :=
    (Ends.unique (ends_startsDefinition ahead) opens).1
  obtain ⟨a, b, rest, input, -⟩ := exists_eq_of_opensDefinition opens
  rw [input] at ahead
  obtain rfl := (Ends.unique (ends_advance ahead) first).2
  obtain rfl := (Ends.unique (ends_advance ahead.forward) second).2
  have passes := (ahead.passes_forward within.shallow).trans
    (ahead.forward.passes_forward within.shallow)
  rw [← input] at passes
  exact within.passes passes

theorem within_enter (within : c.Within tokens) (enters : enter.Ends c (.ok ()) c') :
    c'.Within tokens := by
  have ahead := within.ahead
  by_cases full : c.depth = maxNesting
  · cases (Ends.unique (ends_enter_full ahead full) enters).1
  · obtain rfl := (Ends.unique (ends_enter full) enters).2
    exact ⟨within.same, within.before, Nat.lt_of_le_of_ne within.shallow full⟩

theorem OpensBody.within (within : c.Within tokens) (opens : OpensBody c c') : c'.Within tokens := by
  obtain ⟨starts, first, second, named, opened, entered, listed, closed⟩ := opens
  have within := within_define within starts first second
  have within := (ruled_expect _ _).within within (finishes_of_ends named)
  have within := (ruled_accept _).within within (finishes_of_ends opened)
  have within := within_enter within entered
  have within := IsRule.parameters.ruled.within within listed
  exact (ruled_expect _ _).within within (finishes_of_ends closed)

/-! ### All that is reached -/

theorem Reaches.within {series : Series} (h : Reaches tokens series c) : c.Within tokens := by
  induction h with
  | start => exact Cursor.within_start tokens
  | next _ more finishes ih => exact (within_declaration ih (Series.lt_firstEnd ih more) finishes).1
  | body _ _ opens ih => exact opens.within ih

end Reading

end LispReader
