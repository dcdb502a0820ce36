import LispReader.Proofs.Tree.Shape
import LispReader.Proofs.Tree.Writing
import Mathlib.Tactic.Choose

/-!
# Drafts of expressions

A `Draft` is an expression as it stands in the input, where any operand may be assigned to. What
becomes of it is its `repaired` expression: an assignment to something other than a name leaves only
what it would assign to. Its equal sign is `misplaced`. Nothing else changes, and an expression is
the draft of itself.
-/

namespace LispReader

open Grammar (maxListLength)
open Syntax (Listing)

/-- May the expression be assigned to? -/
def Expr.isTarget : Expr → Bool
  | .name _ | .get .. => true
  | _ => false

inductive Draft where
  | constant (value : Constant)
  | name (symbol : Symbol)
  | group (inner : Draft)
  | negate (pos : Position) (operand : Draft)
  | binary (op : Operator) (pos : Position) (left right : Draft)
  | assign (left : Draft) (equal : Token) (value : Draft)
  | call (callee : Draft) (close : Position) (args : List Draft)

namespace Draft

/-- The name, if the draft is nothing but a name. -/
def target? : Draft → Option Symbol
  | .name symbol => some symbol
  | _ => none

mutual

def repaired : Draft → Expr
  | .constant value => .constant value
  | .name symbol => .name symbol
  | .group inner => .group inner.repaired
  | .negate pos operand => .negate pos operand.repaired
  | .binary op pos left right => .binary op pos left.repaired right.repaired
  | .assign left _ value =>
    match left.target? with
    | some symbol => .assign symbol value.repaired
    | none => left.repaired
  | .call callee close args => .call callee.repaired close (repairedAll args)

def repairedAll : List Draft → List Expr
  | [] => []
  | arg :: args => arg.repaired :: repairedAll args

end

mutual

/-- The equal signs of assignments to something other than a name, those of the left side first,
then those of the value. -/
def misplaced : Draft → List Token
  | .constant _ | .name _ => []
  | .group inner => inner.misplaced
  | .negate _ operand => operand.misplaced
  | .binary _ _ left right => left.misplaced ++ right.misplaced
  | .assign left equal value =>
    left.misplaced ++ value.misplaced ++ if left.target?.isSome then [] else [equal]
  | .call callee _ args => callee.misplaced ++ misplacedAll args

def misplacedAll : List Draft → List Token
  | [] => []
  | arg :: args => arg.misplaced ++ misplacedAll args

end

mutual

def nesting : Draft → Nat
  | .constant _ | .name _ => 0
  | .group inner => inner.nesting + 1
  | .negate _ operand => operand.nesting + 1
  | .binary _ _ left right => max left.nesting right.nesting
  | .assign left _ value => max left.nesting (value.nesting + 1)
  | .call callee _ args => max callee.nesting (listNesting args)

def listNesting : List Draft → Nat
  | [] => 0
  | arg :: args => max (arg.nesting + 1) (listNesting args)

end

def looseness : Draft → Nat
  | .constant _ | .name _ | .group _ => 0
  | .call .. => 1
  | .negate .. => 2
  | .binary op .. => op.rank + 3
  | .assign .. => Operator.ranks + 3

/-- As for expressions, but the left side of an assignment may be any operand. -/
inductive Proper : Draft → Prop where
  | constant (value : Constant) : Proper (.constant value)
  | name (symbol : Symbol) : Proper (.name symbol)
  | group {inner : Draft} : inner.Proper → Proper (.group inner)
  | negate {pos : Position} {operand : Draft} :
    operand.looseness ≤ 2 → operand.Proper → Proper (.negate pos operand)
  | binary {op : Operator} {pos : Position} {left right : Draft} :
    left.looseness ≤ op.rank + 3 → left.Proper → right.looseness ≤ op.rank + 2 → right.Proper →
    Proper (.binary op pos left right)
  | assign {left value : Draft} {equal : Token} :
    left.looseness ≤ Operator.ranks + 2 → left.Proper → value.Proper →
    Proper (.assign left equal value)
  | call {callee : Draft} {close : Position} {args : List Draft} :
    callee.looseness ≤ 1 → callee.Proper → args.length ≤ maxListLength →
    (∀ arg ∈ args, arg.Proper) → Proper (.call callee close args)

inductive Written : Draft → List Token → Prop where
  | constant {value : Constant} {token : Token} :
    value.IsToken token → Written (.constant value) [token]
  | name {token : Token} : token.kind = .identifier → Written (.name (.ofToken token)) [token]
  | group {opening closing : Token} {inner : Draft} {tokens : List Token} :
    opening.kind = .leftParen → inner.Written tokens → closing.kind = .rightParen →
    Written (.group inner) (opening :: tokens ++ [closing])
  | negate {sign : Token} {operand : Draft} {tokens : List Token} :
    sign.kind = .minus → operand.Written tokens →
    Written (.negate sign.pos operand) (sign :: tokens)
  | binary {op : Operator} {token : Token} {left right : Draft} {a b : List Token} :
    left.Written a → Operator.ofKind? token.kind = some op → right.Written b →
    Written (.binary op token.pos left right) (a ++ token :: b)
  | assign {left value : Draft} {equal : Token} {a b : List Token} :
    left.Written a → equal.kind = .equal → value.Written b →
    Written (.assign left equal value) (a ++ equal :: b)
  | call {callee : Draft} {tokens : List Token} {opening closing : Token}
      {args : Listing (Draft × List Token)} :
    callee.Written tokens → opening.kind = .leftParen → args.Separated →
    (∀ arg ∈ args.items, arg.1.Written arg.2) → closing.kind = .rightParen →
    Written (.call callee closing.pos (args.items.map Prod.fst))
      (tokens ++ opening :: args.tokens Prod.snd ++ [closing])

theorem repairedAll_eq_map (args : List Draft) : repairedAll args = args.map repaired := by
  induction args with
  | nil => rfl
  | cons arg args ih => rw [repairedAll, ih, List.map_cons]

theorem misplacedAll_eq_flatMap (args : List Draft) : misplacedAll args = args.flatMap misplaced := by
  induction args with
  | nil => rfl
  | cons arg args ih => rw [misplacedAll, ih, List.flatMap_cons]

theorem listNesting_eq_foldr (args : List Draft) :
    listNesting args = (args.map fun arg => arg.nesting + 1).foldr max 0 := by
  induction args with
  | nil => rfl
  | cons arg args ih => rw [listNesting, ih, List.map_cons, List.foldr_cons]

theorem eq_name_of_target {left : Draft} {symbol : Symbol} (h : left.target? = some symbol) :
    left = .name symbol := by
  cases left with
  | name => exact congrArg _ (Option.some.inj h)
  | _ => cases h

/-- An operand that is no name does not become anything to assign to. -/
theorem isTarget_repaired {left : Draft} (tight : left.looseness ≤ Operator.ranks + 2)
    (other : left.target? = none) : left.repaired.isTarget = false := by
  cases left with
  | name => cases other
  | assign => exact absurd tight (Nat.not_succ_le_self _)
  | _ => rfl

/-! ### Expressions as drafts -/

/-- There is nothing to repair: the draft, written in the same way, is the expression. -/
structure Keeps (draft : Draft) (expr : Expr) (tokens : List Token) : Prop where
  written : draft.Written tokens
  proper : draft.Proper
  repaired : draft.repaired = expr
  misplaced : draft.misplaced = []
  nesting : draft.nesting = expr.nesting
  looseness : draft.looseness = expr.looseness

theorem keeps_call {callee : Expr} {tokens : List Token} {opening closing : Token}
    {args : Listing (Expr × List Token)} (opened : opening.kind = .leftParen)
    (separated : args.Separated) (closed : closing.kind = .rightParen)
    (tight : callee.looseness ≤ 1) (short : args.items.length ≤ maxListLength)
    (first : ∃ draft : Draft, draft.Keeps callee tokens)
    (each : ∀ arg ∈ args.items, ∃ draft : Draft, draft.Keeps arg.1 arg.2) :
    ∃ draft : Draft, draft.Keeps (.call callee closing.pos (args.items.map Prod.fst))
      (tokens ++ opening :: args.tokens Prod.snd ++ [closing]) := by
  obtain ⟨first, keeps⟩ := first
  have inhabited : Nonempty Draft := ⟨first⟩
  choose! draftOf each using each
  let drafts : Listing (Draft × List Token) := args.map fun arg => (draftOf arg, arg.2)
  have items : drafts.items.map Prod.fst = args.items.map draftOf := by
    simp [drafts, Function.comp_def]
  have written : drafts.tokens Prod.snd = args.tokens Prod.snd := Listing.tokens_map ..
  refine ⟨.call first closing.pos (drafts.items.map Prod.fst), ?_, ?_, ?_, ?_, ?_, rfl⟩
  · rw [← written]
    refine .call keeps.written opened (Listing.separated_map.mpr separated) ?_ closed
    rw [Listing.items_map, List.forall_mem_map]
    exact fun arg known => (each arg known).written
  · refine .call (keeps.looseness ▸ tight) keeps.proper (by simpa [items] using short) ?_
    rw [items, List.forall_mem_map]
    exact fun arg known => (each arg known).proper
  · rw [Draft.repaired, keeps.repaired, repairedAll_eq_map, items, List.map_map]
    exact congrArg _ (List.map_congr_left fun arg known => (each arg known).repaired)
  · rw [Draft.misplaced, keeps.misplaced, misplacedAll_eq_flatMap, items, List.nil_append,
      List.flatMap_map, List.flatMap_eq_nil_iff]
    exact fun arg known => (each arg known).misplaced
  · rw [Draft.nesting, keeps.nesting, listNesting_eq_foldr, items, List.map_map, Expr.nesting,
      Expr.listNesting_eq_foldr, List.map_map]
    have same : args.items.map ((fun arg => arg.nesting + 1) ∘ draftOf) =
        args.items.map ((fun arg => arg.nesting + 1) ∘ Prod.fst) :=
      List.map_congr_left fun arg known => congrArg (· + 1) (each arg known).nesting
    rw [same]

end Draft

/-- An expression that is written out can be read as a draft in which nothing is misplaced. -/
theorem Expr.Written.exists_draft {expr : Expr} {tokens : List Token} (h : expr.Written tokens)
    (proper : expr.Proper) : ∃ draft : Draft, draft.Keeps expr tokens := by
  induction h with
  | @constant value _ isToken =>
    exact ⟨.constant value, .constant isToken, .constant value, rfl, rfl, rfl, rfl⟩
  | name same => exact ⟨.name _, .name same, .name _, rfl, rfl, rfl, rfl⟩
  | group opened _ closed ih =>
    cases proper with
    | group proper =>
      obtain ⟨inner, keeps⟩ := ih proper
      exact ⟨.group inner, .group opened keeps.written closed, .group keeps.proper,
        by rw [Draft.repaired, keeps.repaired], keeps.misplaced, congrArg (· + 1) keeps.nesting, rfl⟩
  | @negate sign _ _ same _ ih =>
    cases proper with
    | negate tight proper =>
      obtain ⟨operand, keeps⟩ := ih proper
      exact ⟨.negate sign.pos operand, .negate same keeps.written,
        .negate (keeps.looseness ▸ tight) keeps.proper, by rw [Draft.repaired, keeps.repaired],
        keeps.misplaced, congrArg (· + 1) keeps.nesting, rfl⟩
  | @binary op token _ _ _ _ _ found _ ihLeft ihRight =>
    cases proper with
    | binary tightLeft properLeft tightRight properRight =>
      obtain ⟨left, keepsLeft⟩ := ihLeft properLeft
      obtain ⟨right, keepsRight⟩ := ihRight properRight
      refine ⟨.binary op token.pos left right,
        .binary keepsLeft.written found keepsRight.written, ?_, ?_, ?_, ?_, rfl⟩
      · exact .binary (keepsLeft.looseness ▸ tightLeft) keepsLeft.proper
          (keepsRight.looseness ▸ tightRight) keepsRight.proper
      · rw [Draft.repaired, keepsLeft.repaired, keepsRight.repaired]
      · rw [Draft.misplaced, keepsLeft.misplaced, keepsRight.misplaced, List.append_nil]
      · rw [Draft.nesting, keepsLeft.nesting, keepsRight.nesting, Expr.nesting]
  | @assign name equal _ _ named same _ ih =>
    cases proper with
    | assign proper =>
      obtain ⟨value, keeps⟩ := ih proper
      refine ⟨.assign (.name (.ofToken name)) equal value, .assign (.name named) same keeps.written,
        .assign (Nat.zero_le _) (.name _) keeps.proper, ?_, ?_, ?_, rfl⟩
      · rw [Draft.repaired, keeps.repaired, Draft.target?]
      · rw [Draft.misplaced, keeps.misplaced]
        rfl
      · rw [Draft.nesting, keeps.nesting, Expr.nesting, Draft.nesting, Nat.zero_max]
  | call _ opened separated _ closed ih ihs =>
    cases proper with
    | call tight proper short items =>
      exact Draft.keeps_call opened separated closed tight (by simpa using short) (ih proper)
        fun arg known => ihs arg known (items _ (List.mem_map_of_mem known))

end LispReader
