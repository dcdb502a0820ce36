import LispReader.Proofs.Grammar.Follows
import LispReader.Proofs.Grammar.Parts

/-!
# The rules follow the grammar

Each rule follows the phrase that the grammar gives for it, on any number of levels
(`follows_nestedWithin`). For a whole program this is `follows_program`.
-/

namespace LispReader.Grammar

open Syntax Rule

/-- What stands behind the name and the opening parenthesis of a function. -/
def functionPhrase : Phrase :=
  .seq (.optional (.rule .parameters)) (.after .rightParen (.rule .block))

structure Nested.Follows (nested : Nested) : Prop where
  unary : nested.unary.Follows (.rule .unary)
  expr : nested.expr.Follows (.rule .expression)
  stmt : nested.stmt.Follows (.rule .statement)
  function (symbol : Symbol) : (nested.function symbol).Follows functionPhrase

theorem follows_tooDeep {α : Type} (phrase : Phrase) : (tooDeep : Rule α).Follows phrase :=
  fun _ => ⟨rfl, [], rfl, fun deep => absurd rfl deep⟩

theorem follows_nested_none : Nested.none.Follows :=
  ⟨follows_tooDeep _, follows_tooDeep _, follows_tooDeep _, fun _ => follows_tooDeep _⟩

variable {nested : Nested}

/-! ### Expressions -/

theorem follows_group (h : nested.Follows) :
    (group nested).Follows (.seq (.rule .expression) (.token [.rightParen])) :=
  follows_bind rfl h.expr fun _ => follows_bind_pure (follows_expect rfl rfl) _

theorem follows_primary (h : nested.Follows) : (primary nested).Follows (.rule .primary) := by
  intro input
  cases input with
  | nil => exact followsOn_of_error (strict_primary_nil nested) rfl rfl
  | cons token rest =>
    rcases Start.ofToken?_cases token with ⟨value, start, fits, known⟩ | ⟨start, same⟩ |
      ⟨start, same⟩ | ⟨start, -⟩ | ⟨start, -⟩
    · exact followsOn_of_ok [token] (strict_primary_some start nested rest)
        (.rule (.left (.token known fits)))
    · exact followsOn_of_ok [token] (strict_primary_some start nested rest)
        (.rule (.left (.token (by simp [same, atomKinds])
          (fits_of_kind (by rw [same]; rfl)))))
    · show (primary nested).FollowsOn _ ([token] ++ rest)
      refine (follows_group h rest).behind (strict_primary_some start nested rest) ?_
      intro tokens done
      exact .rule (.right (.cons rfl same done))
    · exact followsOn_of_error (strict_primary_some start nested rest) rfl rfl
    · exact followsOn_of_error (strict_primary_none start nested rest) rfl rfl

theorem follows_listRound {α : Type} {item : Rule α} {phrase : Phrase} {tooMany : Problem}
    (h : item.Follows phrase) (mild : tooMany.isFatal = false) (items : List α) :
    (listRound item tooMany items).Follows phrase := fun input =>
  followsOn_silent_bind (strict_noteExcess mild _ input) (follows_bind_pure h _ input)

theorem follows_listOf {α : Type} {item : Rule α} {phrase : Phrase} {tooMany : Problem}
    (h : item.Follows phrase) (mild : tooMany.isFatal = false) :
    (listOf item tooMany).Follows (.optional (.separated [.comma] phrase)) := by
  intro input
  refine followsOn_ahead_bind ?_
  split
  · exact (follows_pure [] input).mono fun _ => .right
  · refine FollowsOn.mono ?_ fun _ => .left
    exact follows_bind rfl h (fun first => follows_foldWhile (derives_ofKind rfl)
      (fun items _ => follows_listRound h mild items) [first]) input

theorem follows_callRound (h : nested.Follows) (callee : Expr) : (callRound nested callee).Follows
    (.seq (.optional (.rule .arguments)) (.token [.rightParen])) := by
  have args : (listOf nested.expr .argumentsTooMany).Follows (.optional (.rule .arguments)) :=
    (follows_listOf h.expr rfl).mono fun _ h =>
      (derives_alt_iff.mp h).elim (fun some => .left (.rule some)) .right
  exact follows_bind rfl args fun _ => follows_bind_pure (follows_expect rfl rfl) _

theorem follows_call (h : nested.Follows) : (call nested).Follows (.rule .call) := by
  refine Follows.rule .call (follows_bind rfl (follows_primary h) fun callee => ?_)
  exact follows_foldWhile (derives_ofKind rfl) (fun callee _ => follows_callRound h callee) callee

theorem follows_unary (h : nested.Follows) : (Grammar.unary nested).Follows (.rule .unary) := by
  refine Follows.rule .unary (follows_accept_bind (derives_ofKind rfl) (fun sign => ?_) (follows_call h))
  exact follows_bind_pure h.unary _

def rankRule : Nat → Nonterminal
  | 0 => .unary
  | 1 => .multiplication
  | 2 => .addition
  | 3 => .comparison
  | 4 => .equality
  | 5 => .logicAnd
  | _ => .logicOr

def rankKinds : Nat → List Token.Kind
  | 0 => [.slash, .star]
  | 1 => [.minus, .plus]
  | 2 => [.greater, .greaterEqual, .less, .lessEqual]
  | 3 => [.equalEqual]
  | 4 => [.keyword .and]
  | _ => [.keyword .or]

theorem phrase_rankRule {rank : Nat} (h : rank < Operator.ranks) :
    (rankRule (rank + 1)).phrase = .separated (rankKinds rank) (.rule (rankRule rank)) := by
  match rank, h with
  | 0, _ | 1, _ | 2, _ | 3, _ | 4, _ | 5, _ => rfl

theorem mem_rankKinds_of_operator {kind : Token.Kind} {op : Operator}
    (h : Operator.ofKind? kind = some op) : kind ∈ rankKinds op.rank := by
  unfold Operator.ofKind? at h
  split at h <;> cases h <;> decide

theorem exists_operator_of_mem_rankKinds {rank : Nat} {kind : Token.Kind}
    (bound : rank < Operator.ranks) (h : kind ∈ rankKinds rank) :
    ∃ op, Operator.ofKind? kind = some op ∧ op.rank = rank := by
  have spelled : ∀ rank < Operator.ranks, ∀ kind ∈ rankKinds rank,
      (Operator.ofKind? kind).any (·.rank = rank) = true := by decide
  have := spelled rank bound kind h
  simpa [Option.any_eq_true] using this

theorem operatorOfRank_isSome_iff {rank : Nat} (h : rank < Operator.ranks) (token : Token) :
    (operatorOfRank rank token).isSome = true ↔ token.kind ∈ rankKinds rank := by
  rw [Option.isSome_iff_exists]
  constructor
  · rintro ⟨⟨op, pos⟩, found⟩
    obtain ⟨spelled, rfl, -⟩ := operatorOfRank_eq_some_iff.mp found
    exact mem_rankKinds_of_operator spelled
  · intro known
    obtain ⟨op, spelled, same⟩ := exists_operator_of_mem_rankKinds h known
    exact ⟨(op, token.pos), operatorOfRank_eq_some_iff.mpr ⟨spelled, same, rfl⟩⟩

theorem derives_operatorOfRank {rank : Nat} (h : rank < Operator.ranks) (token : Token)
    (op : Operator × Position) (found : operatorOfRank rank token = some op) :
    Derives (.token (rankKinds rank)) [token] := by
  have known := (operatorOfRank_isSome_iff h token).mp (by simp [found])
  have bare : ∀ rank < Operator.ranks, ∀ kind ∈ rankKinds rank, kind.isBare = true := by decide
  exact .token known (fits_of_kind (bare rank h _ known))

theorem follows_binary (h : nested.Follows) {rank : Nat} (le : rank ≤ Operator.ranks) :
    (binary (Grammar.unary nested) rank).Follows (.rule (rankRule rank)) := by
  induction rank with
  | zero => exact follows_unary h
  | succ rank ih =>
    have lower := ih (by omega)
    refine Follows.rule _ (phrase_rankRule le ▸ follows_bind rfl lower fun left => ?_)
    refine follows_foldWhile (derives_operatorOfRank le) (fun left op => ?_) left
    exact follows_bind_pure lower _

theorem follows_assignment (h : nested.Follows) (left : Expr) :
    (assignment nested left).Follows (.optional (.after .equal (.rule .assignment))) := by
  refine fun input => followsOn_ahead_bind ?_
  refine follows_accept_bind (derives_ofKind rfl) (fun _ => ?_) (follows_pure left) input
  have value : nested.expr.Follows (.rule .assignment) := h.expr.mono fun _ h => by
    cases h with | rule h => exact h
  refine (follows_bind (b := .empty) rfl value fun value => ?_).mono fun tokens h => ?_
  · exact fun rest => followsOn_of_ok [] (strict_assign left value input rest) .empty
  · obtain ⟨read, rest, rfl, done, nothing⟩ := derives_seq_iff.mp h
    obtain rfl := derives_empty_iff.mp nothing
    simpa using done

theorem follows_expression (h : nested.Follows) :
    (expression nested).Follows (.rule .expression) := by
  refine Follows.rule .expression (Follows.rule .assignment ?_)
  exact follows_bind rfl (follows_binary h (Nat.le_refl _)) (follows_assignment h)

/-! ### Statements and declarations -/

theorem follows_exprStatement (h : nested.Follows) :
    (exprStatement nested).Follows (.rule .exprStmt) :=
  Follows.rule .exprStmt (follows_bind rfl (follows_expression h) fun _ =>
    follows_bind_pure (follows_expect rfl rfl) _)

theorem follows_statement (h : nested.Follows) : (statement nested).Follows (.rule .statement) := by
  refine Follows.mono ?_ fun tokens (h : Derives (.alt Nonterminal.condStmt.phrase _) tokens) =>
    (derives_alt_iff.mp h).elim (fun cond => .rule (.left (.rule cond))) fun expr => .rule (.right expr)
  refine follows_accept_bind (derives_ofKind rfl) (fun _ => ?_) (follows_exprStatement h)
  refine follows_bind rfl (follows_expect rfl rfl) fun _ => follows_bind rfl (follows_expression h) fun test => ?_
  refine follows_bind rfl (follows_expect rfl rfl) fun _ => follows_bind rfl h.stmt fun yes => ?_
  exact follows_accept_bind (derives_ofKind rfl) (fun _ => follows_bind_pure h.stmt _) (follows_pure _)

theorem follows_definition (h : nested.Follows) :
    (definition nested).Follows (.rule .definition) := by
  refine Follows.mono (a := .after .identifier (.alt (.after .leftParen functionPhrase)
    (.seq (.optional (.after .equal (.rule .expression))) (.token [.rightParen])))) ?_ ?_
  · rw [definition_eq]
    refine follows_bind rfl (follows_expect rfl rfl) fun name => ?_
    refine follows_accept_bind (derives_ofKind rfl) (fun _ => h.function _) ?_
    have close (value : Option Expr) :
        (closeDefinition (.ofToken name) value).Follows (.token [.rightParen]) :=
      follows_bind_pure (follows_expect rfl rfl) _
    refine Follows.mono (a := .alt (.after .equal (.seq (.rule .expression) (.token [.rightParen])))
      (.token [.rightParen])) ?_ ?_
    · exact follows_accept_bind (derives_ofKind rfl)
        (fun _ => follows_bind rfl (follows_expression h) fun _ => close _) (close none)
    · intro tokens h
      rcases derives_alt_iff.mp h with h | h
      · obtain ⟨equal, rest, rfl, hequal, h⟩ := derives_seq_iff.mp h
        obtain ⟨value, last, rfl, hvalue, hlast⟩ := derives_seq_iff.mp h
        rw [← List.append_assoc]
        exact .seq (.present (.seq hequal hvalue)) hlast
      · exact .seq .absent h
  · intro tokens h
    obtain ⟨name, rest, rfl, hname, h⟩ := derives_seq_iff.mp h
    exact .rule ((derives_alt_iff.mp h).elim (fun function => .left (.seq hname function))
      fun value => .right (.seq hname value))

theorem follows_definitionOrStatement (h : nested.Follows) :
    (definitionOrStatement nested).Follows (.rule .declaration) := by
  intro input
  rcases run_acceptPair .leftParen (.keyword .define) input with same |
    ⟨a, b, rest, rfl, first, second, same⟩
  · refine followsOn_silent_bind (strict_of_run same (by simp)) ?_
    exact Follows.rule .declaration ((follows_statement h).mono fun _ => .right) input
  · show (definitionOrStatement nested).FollowsOn _ ([a, b] ++ rest)
    refine (follows_definition h rest).behind ?_ fun tokens done => ?_
    · exact strict_definition (by simp [opensDefinition, first, second]) nested
    · exact .rule (.left (.cons rfl first (.cons rfl second done)))

theorem follows_declarations (h : nested.Follows) (closes : Token → Bool) :
    (declarations nested closes).Follows (.many (.rule .declaration)) :=
  follows_manyUntil (follows_recovering (follows_definitionOrStatement h))

theorem follows_function (h : nested.Follows) (symbol : Symbol) :
    (Grammar.function nested symbol).Follows functionPhrase := by
  have parameter : parameter.Follows (.token [.identifier]) :=
    follows_bind_pure (follows_expect rfl rfl) _
  have params : (listOf Grammar.parameter .parametersTooMany).Follows (.optional (.rule .parameters)) :=
    (follows_listOf parameter rfl).mono fun _ h =>
      (derives_alt_iff.mp h).elim (fun some => .left (.rule some)) .right
  refine follows_bind rfl params fun params => follows_bind rfl (follows_expect rfl rfl) fun _ => ?_
  refine Follows.rule .block (follows_bind rfl (follows_declarations h _) fun body => ?_)
  exact follows_bind_pure (follows_expect rfl rfl) _

/-! ### Levels -/

theorem follows_nestedWithin (levels : Nat) : (nestedWithin levels).Follows := by
  induction levels with
  | zero => exact follows_nested_none
  | succ levels ih =>
    exact ⟨follows_unary ih, follows_expression ih, follows_statement ih, follows_function ih⟩

theorem follows_program : program.Follows (.rule .program) :=
  Follows.rule .program (follows_declarations (follows_nestedWithin maxNesting) _)

end LispReader.Grammar
