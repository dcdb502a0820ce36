import LispReader.Proofs.Grammar.Contents
import LispReader.Proofs.Grammar.Faithful
import LispReader.Proofs.Tree.Draft
import Mathlib.Tactic.Choose

/-!
# Pieces of written drafts

A proper draft that is written out is read as a piece: its value is the repaired draft, and its
reports blame the misplaced equal signs. A proper expression is the draft of itself and is read
without a report. The main results are `makes_draft` and `makes_expr`.
-/

namespace LispReader.Grammar

open Syntax

/-! ### From level to level -/

namespace Level

/-- The level of expressions that bind no looser. -/
def within : Nat → Level
  | 0 => primary
  | 1 => call
  | count + 2 => if count ≤ Operator.ranks then ranks count else whole

theorem within_ranks {count : Nat} (bound : count ≤ Operator.ranks) :
    within (count + 2) = ranks count := if_pos bound

theorem within_whole {count : Nat} (loose : Operator.ranks < count) :
    within (count + 2) = whole := if_neg (Nat.not_le_of_lt loose)

end Level

namespace ExprPiece

variable {p : Piece Expr}

theorem call_of_primary (h : ExprPiece .primary p) : ExprPiece .call p := by
  simpa using h.call (List.forall_mem_nil _) (List.forall_mem_nil _)

theorem succ_of_ranks {count : Nat} (h : ExprPiece (.ranks count) p) :
    ExprPiece (.ranks (count + 1)) p := by
  simpa using h.binary (List.forall_mem_nil _) (List.forall_mem_nil _)

theorem loosen {a b : Nat} (le : a ≤ b) (h : ExprPiece (.within a) p) : ExprPiece (.within b) p := by
  induction le with
  | refl => exact h
  | @step b _ ih =>
    match b, ih with
    | 0, ih => exact ih.call_of_primary
    | 1, ih => exact ih.unsigned
    | count + 2, ih =>
      -- Behind the loosest operators come assignments, and nothing binds looser than they do.
      rcases Nat.lt_trichotomy count Operator.ranks with below | rfl | beyond
      · rw [Level.within_ranks (Nat.le_of_lt below)] at ih
        exact Level.within_ranks (Nat.succ_le_of_lt below) ▸ ih.succ_of_ranks
      · exact ih.value
      · rw [Level.within_whole beyond] at ih
        exact Level.within_whole (Nat.lt_succ_of_lt beyond) ▸ ih

theorem to_whole {bound : Nat} (h : ExprPiece (.within bound) p) : ExprPiece .whole p := by
  have loose : Operator.ranks < bound + Operator.ranks + 1 := by omega
  exact Level.within_whole loose ▸ h.loosen (Nat.le_add_right bound (Operator.ranks + 3))

theorem call_snoc {callee : Piece Expr} {opening closing : Token} {args : Listing (Piece Expr)}
    (h : ExprPiece .call callee) (opened : opening.kind = .leftParen) (separated : args.Separated)
    (each : ∀ p ∈ args.items, ExprPiece .whole p) (closed : closing.kind = .rightParen) :
    ExprPiece .call (callee >>= fun callee => Piece.token opening >>= fun _ =>
      .callRound callee args closing) := by
  cases h with
  | @call first rounds inside shape items =>
    let last : Token × Listing (Piece Expr) × Token := (opening, args, closing)
    have shape' : ∀ round ∈ rounds ++ [last], round.1.kind = .leftParen ∧ round.2.1.Separated ∧
        round.2.2.kind = .rightParen :=
      List.forall_mem_append.mpr ⟨shape, List.forall_mem_singleton.mpr ⟨opened, separated, closed⟩⟩
    have items' : ∀ round ∈ rounds ++ [last], ∀ p ∈ round.2.1.items, ExprPiece .whole p :=
      List.forall_mem_append.mpr ⟨items, List.forall_mem_singleton.mpr each⟩
    simpa [last] using inside.call shape' items'

theorem binary_snoc {rank : Nat} {left right : Piece Expr} {token : Token} {op : Operator}
    (h : ExprPiece (.ranks (rank + 1)) left)
    (found : operatorOfRank rank token = some (op, token.pos)) (other : ExprPiece (.ranks rank) right) :
    ExprPiece (.ranks (rank + 1)) (left >>= fun left => Piece.token token >>= fun _ =>
      .binaryRound left op token.pos right) := by
  cases h with
  | @binary _ first rounds inside ops rights =>
    let last : Token × Operator × Piece Expr := (token, op, right)
    have ops' : ∀ round ∈ rounds ++ [last],
        operatorOfRank rank round.1 = some (round.2.1, round.1.pos) :=
      List.forall_mem_append.mpr ⟨ops, List.forall_mem_singleton.mpr found⟩
    have rights' : ∀ round ∈ rounds ++ [last], ExprPiece (.ranks rank) round.2.2 :=
      List.forall_mem_append.mpr ⟨rights, List.forall_mem_singleton.mpr other⟩
    simpa [last] using inside.binary ops' rights'

end ExprPiece

/-! ### Calls -/

def Contents.call (callee : Contents Expr) (opening : Token) (args : Listing (Contents Expr))
    (closing : Token) : Contents Expr :=
  let list := Contents.list .argumentsTooMany (args.map .deeper)
  { value := .call callee.value closing.pos list.value
    tokens := callee.tokens ++ opening :: list.tokens ++ [closing]
    nesting := max callee.nesting list.nesting
    faults := callee.faults ++ list.faults }

theorem Makes.tokens_ne_nil {level : Level} {contents : Contents Expr}
    (h : Makes (ExprPiece level) contents) : contents.tokens ≠ [] := by
  obtain ⟨p, piece, has⟩ := h
  obtain ⟨token, rest, tokens, -⟩ := piece.opens
  rw [← has.tokens, tokens]
  exact List.cons_ne_nil _ _

theorem makes_call {callee : Contents Expr} {args : Listing (Contents Expr)} {opening closing : Token}
    (h : Makes (ExprPiece .call) callee) (opened : opening.kind = .leftParen) (separated : args.Separated)
    (closed : closing.kind = .rightParen) (each : ∀ arg ∈ args.items, Makes (ExprPiece .whole) arg) :
    Makes (ExprPiece .call) (.call callee opening args closing) := by
  obtain ⟨p, piece, has⟩ := h
  have nonempty (arg : Contents Expr) (known : arg ∈ args.items) : arg.tokens ≠ [] :=
    (each arg known).tokens_ne_nil
  have inhabited : Nonempty (Piece Expr) := ⟨p⟩
  choose! pieceOf pieces contents using each
  have parts : ∀ p ∈ (args.map pieceOf).items, ExprPiece .whole p := by
    rwa [Listing.items_map, List.forall_mem_map]
  have list : (Piece.list .argumentsTooMany ((args.map pieceOf).map Piece.deeper)).Has
      (.list .argumentsTooMany (args.map .deeper)) := by
    rw [Listing.map_map]
    exact Piece.has_list _ fun arg known => ⟨(contents arg known).deeper, nonempty arg known⟩
  have round : (Piece.callRound p.value (args.map pieceOf) closing).Records
      (Contents.list .argumentsTooMany (args.map .deeper)).faults :=
    list.records.bind_nil ((Piece.records_token closing).bind (Piece.records_pure _))
  refine ⟨_, piece.call_snoc opened (Listing.separated_map.mpr separated) parts closed, ?_, ?_, ?_, ?_⟩
  · simp [Piece.callRound, Contents.call, has.value, list.value]
  · simp only [Piece.callRound, Contents.call, Piece.tokens_bind, Piece.tokens_token,
      Piece.tokens_pure, has.tokens, list.tokens]
    simp
  · simp only [Piece.callRound, Contents.call, Piece.nesting_bind, Piece.nesting_token,
      Piece.nesting_pure, has.nesting, list.nesting]
    simp
  · exact has.records.bind ((Piece.records_token opening).bind round)

/-! ### Drafts -/

/-- What a draft that is written as these tokens is read as. -/
def Contents.ofDraft (draft : Draft) (tokens : List Token) : Contents Expr :=
  ⟨draft.repaired, tokens, draft.nesting, draft.misplaced.map (Fault.mk .targetInvalid)⟩

theorem Contents.call_ofDraft {callee : Draft} {tokens : List Token} {opening closing : Token}
    {args : Listing (Draft × List Token)} (short : args.items.length ≤ maxListLength) :
    Contents.call (.ofDraft callee tokens) opening (args.map fun arg => .ofDraft arg.1 arg.2) closing =
      .ofDraft (.call callee closing.pos (args.items.map Prod.fst))
        (tokens ++ opening :: args.tokens Prod.snd ++ [closing]) := by
  simp [Contents.call, Contents.list, Contents.ofDraft, Contents.deeper, Draft.repaired,
    Draft.misplaced, Draft.nesting, Draft.repairedAll_eq_map, Draft.misplacedAll_eq_flatMap,
    Draft.listNesting_eq_foldr, Listing.tokens_map, Function.comp_def, List.flatMap_map,
    List.map_flatMap, listFaults_of_short, short]

theorem Piece.assignTo_of_not_isTarget {left : Expr} (other : left.isTarget = false) (value : Expr)
    (back : List Token) :
    Piece.assignTo left value back = Piece.note .targetInvalid back >>= fun _ => pure left := by
  cases left with
  | name | get => cases other
  | _ => rfl

/-- The last step of an assignment, after all its tokens. -/
theorem has_assignTo {left value : Draft} (tight : left.looseness ≤ Operator.ranks + 2) (equal : Token)
    (rest : List Token) : (Piece.assignTo left.repaired value.repaired (equal :: rest)).Has
      { value := (Draft.assign left equal value).repaired
        tokens := []
        nesting := 0
        faults := (if left.target?.isSome then [] else [equal]).map (Fault.mk .targetInvalid) } := by
  cases target : left.target? with
  | some symbol =>
    obtain rfl := Draft.eq_name_of_target target
    exact ⟨rfl, rfl, rfl, rfl⟩
  | none =>
    rw [Piece.assignTo_of_not_isTarget (Draft.isTarget_repaired tight target)]
    exact ⟨by simp [Draft.repaired, target], rfl, rfl, rfl⟩

theorem has_assign {left value : Draft} {equal : Token} {a b : List Token} {p q : Piece Expr}
    (tight : left.looseness ≤ Operator.ranks + 2) (has : p.Has (.ofDraft left a))
    (hasValue : q.Has (.ofDraft value b)) :
    (Piece.assign p equal q).Has (.ofDraft (.assign left equal value) (a ++ equal :: b)) := by
  -- Whether the left side can be assigned to is seen only after the value has been read.
  have sameLeft : p.value = left.repaired := has.value
  have sameValue : q.value = value.repaired := hasValue.value
  have last := @has_assignTo left value tight equal q.tokens
  rw [← sameLeft, ← sameValue] at last
  refine ⟨?_, ?_, ?_, ?_⟩
  · simpa [Piece.assign, Contents.ofDraft] using last.value
  · simp [Piece.assign, Contents.ofDraft, has.tokens, hasValue.tokens]
  · simp [Piece.assign, Contents.ofDraft, Draft.nesting, has.nesting, hasValue.nesting, last.nesting]
  · rw [Contents.ofDraft, Draft.misplaced, List.append_assoc, List.map_append, List.map_append]
    exact has.records.bind ((Piece.records_token equal).bind
      (hasValue.deeper.records.bind last.records))

theorem makes_draft {draft : Draft} {tokens : List Token} (h : draft.Written tokens)
    (proper : draft.Proper) : Makes (ExprPiece (.within draft.looseness)) (.ofDraft draft tokens) := by
  induction h with
  | constant isToken =>
    exact ⟨_, .constant (Start.ofToken?_eq_constant_iff.mpr isToken), rfl, rfl, rfl, rfl⟩
  | name same => exact ⟨_, .name same, rfl, rfl, rfl, rfl⟩
  | group opened _ closed ih =>
    cases proper with
    | group proper =>
      obtain ⟨p, piece, has⟩ := ih proper
      refine ⟨_, .group opened piece.to_whole closed, ?_, ?_, ?_, ?_⟩
      · simp [Piece.group, Contents.ofDraft, Draft.repaired, has.value]
      · simp [Piece.group, Contents.ofDraft, has.tokens]
      · simp [Piece.group, Contents.ofDraft, Draft.nesting, has.nesting]
      · exact (Piece.records_token _).bind (has.deeper.records.bind_nil
          ((Piece.records_token _).bind (Piece.records_pure _)))
  | negate same _ ih =>
    cases proper with
    | negate tight proper =>
      obtain ⟨p, piece, has⟩ := ih proper
      refine ⟨_, .negate same (piece.loosen tight), ?_, ?_, ?_, ?_⟩
      · simp [Piece.negate, Contents.ofDraft, Draft.repaired, has.value]
      · simp [Piece.negate, Contents.ofDraft, has.tokens]
      · simp [Piece.negate, Contents.ofDraft, Draft.nesting, has.nesting]
      · exact (Piece.records_token _).bind (has.deeper.records.bind_nil (Piece.records_pure _))
  | @binary op token _ _ _ _ _ found _ ihLeft ihRight =>
    cases proper with
    | binary tightLeft properLeft tightRight properRight =>
      obtain ⟨p, left, hasLeft⟩ := ihLeft properLeft
      obtain ⟨q, right, hasRight⟩ := ihRight properRight
      have bound := op.rank_lt_ranks
      have selected : operatorOfRank op.rank token = some (op, token.pos) :=
        operatorOfRank_eq_some_iff.mpr ⟨found, rfl, rfl⟩
      have left := left.loosen tightLeft
      have right := right.loosen tightRight
      rw [Level.within_ranks (Nat.succ_le_of_lt bound)] at left
      rw [Level.within_ranks (Nat.le_of_lt bound)] at right
      rw [Draft.looseness, Level.within_ranks (Nat.succ_le_of_lt bound)]
      refine ⟨_, left.binary_snoc selected right, ?_, ?_, ?_, ?_⟩
      · simp [Piece.binaryRound, Contents.ofDraft, Draft.repaired, hasLeft.value, hasRight.value]
      · simp [Piece.binaryRound, Contents.ofDraft, hasLeft.tokens, hasRight.tokens]
      · simp [Piece.binaryRound, Contents.ofDraft, Draft.nesting, hasLeft.nesting, hasRight.nesting]
      · rw [Contents.ofDraft, Draft.misplaced, List.map_append]
        exact hasLeft.records.bind ((Piece.records_token _).bind
          (hasRight.records.bind_nil (Piece.records_pure _)))
  | assign _ same _ ih ihValue =>
    cases proper with
    | assign tight properLeft properValue =>
      obtain ⟨p, piece, has⟩ := ih properLeft
      obtain ⟨q, result, hasValue⟩ := ihValue properValue
      have target : ExprPiece (.ranks Operator.ranks) p := piece.loosen tight
      exact ⟨_, ExprPiece.assign target same result.to_whole, has_assign tight has hasValue⟩
  | call _ opened separated _ closed ih ihs =>
    cases proper with
    | call tight proper short items =>
      rw [← Contents.call_ofDraft (by simpa using short)]
      obtain ⟨p, piece, has⟩ := ih proper
      refine makes_call ⟨p, piece.loosen tight, has⟩ opened (Listing.separated_map.mpr separated)
        closed ?_
      rw [Listing.items_map, List.forall_mem_map]
      intro arg known
      obtain ⟨q, item, has⟩ := ihs arg known (items _ (List.mem_map_of_mem known))
      exact ⟨q, item.to_whole, has⟩

/-! ### Expressions -/

/-- What an expression that is written as these tokens is read as. -/
def Contents.ofExpr (expr : Expr) (tokens : List Token) : Contents Expr :=
  ⟨expr, tokens, expr.nesting, []⟩

theorem makes_expr {expr : Expr} {tokens : List Token} (h : expr.Written tokens)
    (proper : expr.Proper) : Makes (ExprPiece (.within expr.looseness)) (.ofExpr expr tokens) := by
  obtain ⟨draft, keeps⟩ := h.exists_draft proper
  have same : Contents.ofDraft draft tokens = .ofExpr expr tokens := by
    rw [Contents.ofDraft, keeps.repaired, keeps.nesting, keeps.misplaced]
    rfl
  exact same ▸ keeps.looseness ▸ makes_draft keeps.written keeps.proper

end LispReader.Grammar
