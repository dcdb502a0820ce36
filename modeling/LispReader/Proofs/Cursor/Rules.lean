import LispReader.Proofs.Cursor.Refines

/-!
# The grammar read in place

Each reading of the grammar refines the rule of its name. What a rule has from the levels below it,
the reading has by opening a level, so the two limits on nesting are one: `refined_nestedWithin`.
-/

namespace LispReader

open Grammar Reading

/-- The rules one level deeper, where `levels` levels are left. -/
structure Grammar.Nested.Refined (below : Nested) (levels : Nat) : Prop where
  unary : Refines levels (fun fuel => nested (Reading.unary fuel)) below.unary
  expr : Refines levels (fun fuel => nested (Reading.expression fuel)) below.expr
  stmt : Refines levels (fun fuel => nested (Reading.statement fuel)) below.stmt
  function (symbol : Symbol) :
    Refines levels (fun fuel => nested (Reading.function fuel symbol)) (below.function symbol)

namespace Reading

theorem eq_of_ofKind {kind : Token.Kind} {token found : Token}
    (takes : Rule.ofKind kind token = some found) : token = found := by
  unfold Rule.ofKind at takes
  split at takes
  · exact Option.some.inj takes
  · cases takes

variable {levels : Nat} {below : Nested} (h : below.Refined levels)

include h

/-! ### Expressions -/

theorem refines_group : Refines levels
    (fun fuel => do
      let inner ← nested (expression fuel)
      let _ ← expect .rightParen .groupUnclosed
      return .group inner) (group below) := by
  apply refines_bind h.expr
  intro inner
  apply refines_bind (refines_expect levels _ _)
  intro _
  exact refines_pure levels _

theorem refines_primary : Refines levels primary (Grammar.primary below) := by
  intro c input last ahead room
  apply imitates_succ primary.eq_2
  apply imitates_ahead_bind
  apply imitates_accept_bind ahead (Nat.le.intro room)
  · exact refines_blame levels .expressionMissing ahead room
  · rintro token rest start rfl - next
    match start with
    | .misfit =>
      apply imitates_lift_bind (Machine.ends_previous_forward ahead)
      exact ⟨c.forward, finishes_of_ends (ends_throw _ _), .refl next⟩
    | .constant value => exact imitates_pure next _
    | .name symbol => exact imitates_pure next _
    | .group => exact refines_group h next room

theorem refines_arguments :
    Refines levels arguments (listOf below.expr .argumentsTooMany) := by
  apply refines_succ arguments.eq_2
  exact refines_listOf moreArguments.eq_2 (fun _ _ => rfl) (fun _ _ _ => rfl) h.expr

theorem refines_call : Refines levels call (Grammar.call below) := by
  have round (callee : Expr) : Refines levels
      (fun fuel => do
        let args ← arguments fuel
        let close ← expect .rightParen .argumentsUnclosed
        return .call callee close.pos args) (callRound below callee) := by
    apply refines_bind (refines_arguments h)
    intro args
    apply refines_bind (refines_expect levels _ _)
    intro close
    exact refines_pure levels _
  apply refines_succ call.eq_2
  apply refines_bind (refines_primary h)
  apply refines_foldWhile moreCalls.eq_2 (fun _ _ => rfl) _ fun callee _ => round callee
  intro fuel callee _
  simp only [bind_assoc, pure_bind]

theorem refines_unary : Refines levels unary (Grammar.unary below) := by
  apply refines_succ unary.eq_2
  apply refines_accept_bind (refines_call h)
  intro sign
  apply refines_bind h.unary
  intro operand
  exact refines_pure levels _

theorem refines_binary (rank : Nat) :
    Refines levels (fun fuel => binary fuel rank) (Grammar.binary (Grammar.unary below) rank) := by
  induction rank with
  | zero => exact refines_succ binary.eq_2 (refines_unary h)
  | succ rank ih =>
    have round (left : Expr) (op : Operator × Position) : Refines levels
        (fun fuel => do
          let right ← binary fuel rank
          return .binary op.1 op.2 left right)
        (binaryRound (Grammar.binary (Grammar.unary below) rank) left op) := by
      apply refines_bind ih
      intro right
      exact refines_pure levels _
    apply refines_succ fun fuel => binary.eq_3 fuel rank
    apply refines_bind ih
    apply refines_foldWhile (moreOperators.eq_2 rank) (fun _ _ => rfl) _ round
    intro fuel left op
    simp only [bind_assoc, pure_bind]

theorem refines_expression : Refines levels expression (Grammar.expression below) := by
  apply refines_succ expression.eq_2
  apply refines_bind (refines_binary h Operator.ranks)
  intro left c input last ahead room
  apply imitates_ahead_bind
  apply imitates_accept_bind ahead (Nat.le.intro room) (imitates_pure ahead left)
  rintro equal rest _ rfl takes next
  obtain rfl := eq_of_ofKind takes
  apply imitates_bind (h.expr next room)
  intro value c₁ _ passes
  cases left with
  | name _ | get _ _ => exact imitates_pure passes.ahead _
  | _ =>
    apply imitates_bind (imitates_report passes.ahead .targetInvalid (equal :: rest))
    intro _ c₂ _ passes
    exact imitates_pure passes.ahead _

/-! ### Statements and declarations -/

theorem refines_exprStatement : Refines levels
    (fun fuel => do
      let value ← expression fuel
      let _ ← expect .semicolon .semicolonMissing
      return .expr value) (exprStatement below) := by
  apply refines_bind (refines_expression h)
  intro value
  apply refines_bind (refines_expect levels _ _)
  intro _
  exact refines_pure levels _

theorem refines_statement : Refines levels statement (Grammar.statement below) := by
  apply refines_succ statement.eq_2
  apply refines_accept_bind (refines_exprStatement h)
  intro _
  apply refines_bind (refines_expect levels _ _)
  intro _
  apply refines_bind (refines_expression h)
  intro test
  apply refines_bind (refines_expect levels _ _)
  intro _
  apply refines_bind h.stmt
  intro yes
  apply refines_accept_bind
  · exact refines_pure levels _
  · intro _
    apply refines_bind h.stmt
    intro no
    exact refines_pure levels _

theorem refines_definition : Refines levels definition (Grammar.definition below) := by
  have close (symbol : Symbol) (value : Option Expr) : Refines levels
      (fun _ => do
        let _ ← expect .rightParen .definitionUnclosed
        return .define symbol value) (closeDefinition symbol value) := by
    apply refines_bind (refines_expect levels _ _)
    intro _
    exact refines_pure levels _
  rw [definition_eq]
  apply refines_succ definition.eq_2
  apply refines_bind (refines_expect levels _ _)
  intro name
  apply refines_accept_bind
  · apply refines_accept_bind
    · exact close (.ofToken name) none
    · intro _
      apply refines_bind (refines_expression h)
      intro value
      exact close (.ofToken name) (some value)
  · intro _
    exact h.function (.ofToken name)

theorem refines_definitionOrStatement :
    Refines levels definitionOrStatement (Grammar.definitionOrStatement below) := by
  intro c input last ahead room
  apply imitates_succ definitionOrStatement.eq_2
  apply imitates_lift_bind (Machine.ends_startsDefinition ahead)
  by_cases opens : opensDefinition input = true
  · simp only [if_pos opens]
    unfold Imitates
    rw [run_definition opens]
    obtain ⟨first, second, rest, rfl, -⟩ := exists_eq_of_opensDefinition opens
    have inner := ahead.forward
    obtain ⟨c', finishes, passes⟩ := refines_definition h inner.forward room
    refine ⟨c', ?_, ?_⟩
    · apply finishes_bind_ok (finishes_of_ends (ends_lift (Machine.ends_advance ahead)))
      exact finishes_bind_ok (finishes_of_ends (ends_lift (Machine.ends_advance inner))) finishes
    · apply (ahead.passes_forward (Nat.le.intro room)).trans
      exact (inner.passes_forward (Nat.le.intro room)).trans passes
  · simp only [if_neg opens]
    unfold Imitates
    rw [run_statement (by simpa using opens)]
    exact refines_statement h ahead room

theorem imitates_declaration {c : Cursor} {token : Token} {rest : List Token} {last : Token}
    (ahead : c.Ahead (token :: rest) last) (room : c.depth + levels = maxNesting) :
    Imitates declaration (Grammar.declaration below) c (token :: rest) last := by
  apply imitates_succ declaration.eq_2
  exact imitates_recovering (Nat.le.intro room) (refines_definitionOrStatement h ahead room)

theorem refines_block :
    Refines levels block (declarations below (·.kind = .rightParen)) := by
  apply refines_manyUntil block.eq_2
  · intro c input last ahead
    exact Machine.ends_isAtClose ahead
  · intro c token rest last ahead room
    exact imitates_declaration h ahead room

theorem refines_declarations : Refines levels program (declarations below fun _ => false) := by
  apply refines_manyUntil program.eq_2
  · intro c input last ahead
    cases input <;> exact Machine.ends_isAtEnd ahead
  · intro c token rest last ahead room
    exact imitates_declaration h ahead room

omit h in
theorem refines_parameters (levels : Nat) :
    Refines levels parameters (listOf Grammar.parameter .parametersTooMany) := by
  have item : Refines levels (fun _ => parameter) Grammar.parameter := by
    apply refines_bind (refines_expect levels _ _)
    intro token
    exact refines_pure levels _
  exact refines_listOf moreParameters.eq_2 (fun _ _ => rfl) (fun _ _ _ => rfl) item

theorem refines_function (symbol : Symbol) :
    Refines levels (fun fuel => function fuel symbol) (Grammar.function below symbol) := by
  apply refines_succ (function.eq_2 symbol)
  apply refines_bind (refines_parameters levels)
  intro params
  apply refines_bind (refines_expect levels _ _)
  intro _
  apply refines_bind (refines_block h)
  intro body
  apply refines_bind (refines_expect levels _ _)
  intro _
  exact refines_pure levels _

omit h

/-! ### Levels -/

theorem refined_nestedWithin (levels : Nat) : (nestedWithin levels).Refined levels := by
  induction levels with
  | zero =>
    exact ⟨refines_nested_none _, refines_nested_none _, refines_nested_none _,
      fun _ => refines_nested_none _⟩
  | succ levels ih =>
    exact ⟨refines_nested (refines_unary ih), refines_nested (refines_expression ih),
      refines_nested (refines_statement ih), fun symbol => refines_nested (refines_function ih symbol)⟩

theorem refines_program : Refines maxNesting program Grammar.program :=
  refines_declarations (refined_nestedWithin maxNesting)

end Reading

end LispReader
