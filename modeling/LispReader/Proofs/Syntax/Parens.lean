import LispReader.Proofs.Syntax.Sentence

/-!
# Parentheses

Parentheses are matched from left to right, and a closing one that comes while nothing is open matches
nothing. `Unmatched` counts what is left over, and `Balanced` says which lists leave nothing over. Of
the phrases of the grammar only definitions and blocks close more than they open: they stand behind
the parenthesis that they close. So a sentence leaves nothing over (`Sentence.unmatched`).
-/

namespace LispReader

inductive Paren where
  | opening
  | closing
deriving DecidableEq

namespace Paren

/-- Every parenthesis has a partner. -/
inductive Balanced : List Paren → Prop where
  | nil : Balanced []
  | pair {inside after : List Paren} :
    Balanced inside → Balanced after → Balanced (.opening :: inside ++ .closing :: after)

/-- The parentheses without a partner: the closing ones that came while nothing was open, and the
opening ones that nothing has closed. -/
structure Unmatched where
  closing : Nat
  opening : Nat
deriving DecidableEq

namespace Unmatched

def next (u : Unmatched) : Paren → Unmatched
  | .opening => ⟨u.closing, u.opening + 1⟩
  | .closing => if u.opening = 0 then ⟨u.closing + 1, 0⟩ else ⟨u.closing, u.opening - 1⟩

/-- The closing ones of the second part find partners in the first. -/
def append (a b : Unmatched) : Unmatched :=
  ⟨a.closing + (b.closing - a.opening), b.opening + (a.opening - b.closing)⟩

theorem append_none (u : Unmatched) : u.append ⟨0, 0⟩ = u := by simp [append]

theorem none_append (u : Unmatched) : append ⟨0, 0⟩ u = u := by simp [append]

theorem next_append (u : Unmatched) (p : Paren) (v : Unmatched) :
    (u.next p).append v = u.append ((next ⟨0, 0⟩ p).append v) := by
  cases p with
  | opening =>
    simp only [next, append, mk.injEq]
    omega
  | closing =>
    by_cases none : u.opening = 0
    · simp only [next, append, none, if_true, mk.injEq]
      omega
    · simp only [next, append, none, if_true, if_false, mk.injEq]
      omega

end Unmatched

/-- Matches from left to right. -/
def unmatched (parens : List Paren) : Unmatched := parens.foldl Unmatched.next ⟨0, 0⟩

theorem foldl_next (u : Unmatched) (parens : List Paren) :
    parens.foldl Unmatched.next u = u.append (unmatched parens) := by
  induction parens generalizing u with
  | nil => exact u.append_none.symm
  | cons p parens ih => rw [unmatched, List.foldl_cons, List.foldl_cons, ih, ih, Unmatched.next_append]

theorem unmatched_append (a b : List Paren) :
    unmatched (a ++ b) = (unmatched a).append (unmatched b) := by
  rw [unmatched, List.foldl_append, foldl_next]
  rfl

theorem closing_front_eq_zero {a b : List Paren} (h : (unmatched (a ++ b)).closing = 0) :
    (unmatched a).closing = 0 := by
  rw [unmatched_append] at h
  exact Nat.eq_zero_of_add_eq_zero_right h

theorem unmatched_opening_cons (parens : List Paren) : unmatched (.opening :: parens) =
    ⟨(unmatched parens).closing - 1, (unmatched parens).opening + (1 - (unmatched parens).closing)⟩ := by
  rw [unmatched, List.foldl_cons, foldl_next]
  simp [Unmatched.next, Unmatched.append]

theorem unmatched_closing_cons (parens : List Paren) : unmatched (.closing :: parens) =
    ⟨(unmatched parens).closing + 1, (unmatched parens).opening⟩ := by
  rw [unmatched, List.foldl_cons, foldl_next]
  simp [Unmatched.next, Unmatched.append, Nat.add_comm]

/-- Partners cancel out. -/
theorem count_unmatched (parens : List Paren) :
    parens.count .opening + (unmatched parens).closing =
      parens.count .closing + (unmatched parens).opening := by
  induction parens with
  | nil => rfl
  | cons p parens ih =>
    cases p with
    | opening =>
      rw [unmatched_opening_cons, List.count_cons_self, List.count_cons_of_ne (by decide)]
      dsimp only
      omega
    | closing =>
      rw [unmatched_closing_cons, List.count_cons_self, List.count_cons_of_ne (by decide)]
      dsimp only
      omega

/-! ### Partners -/

theorem Balanced.unmatched {parens : List Paren} (h : Balanced parens) :
    unmatched parens = ⟨0, 0⟩ := by
  induction h with
  | nil => rfl
  | pair _ _ inside after =>
    rw [List.cons_append, unmatched_opening_cons, unmatched_append, unmatched_closing_cons, inside,
      after, Unmatched.none_append]
    rfl

/-- The first closing parenthesis that is left over has only pairs before it. -/
theorem exists_of_closing_pos {parens : List Paren} (h : 0 < (unmatched parens).closing) :
    ∃ inside rest, parens = inside ++ .closing :: rest ∧ Balanced inside ∧
      (unmatched rest).closing + 1 = (unmatched parens).closing := by
  induction length : parens.length using Nat.strongRecOn generalizing parens with
  | ind n ih =>
    match parens with
    | [] => cases h
    | .closing :: parens =>
      rw [unmatched_closing_cons]
      exact ⟨[], parens, rfl, .nil, rfl⟩
    | .opening :: parens =>
      rw [unmatched_opening_cons] at h ⊢
      dsimp only at h ⊢
      rw [List.length_cons] at length
      -- What closes the first one comes first, and then comes what is left over.
      obtain ⟨inside, more, rfl, balanced, fewer⟩ := ih parens.length (by omega) (by omega) rfl
      rw [List.length_append, List.length_cons] at length
      obtain ⟨after, rest, rfl, balanced', fewer'⟩ := ih more.length (by omega) (by omega) rfl
      exact ⟨.opening :: inside ++ .closing :: after, rest, by simp, .pair balanced balanced', by omega⟩

theorem closing_pos_iff {parens : List Paren} : 0 < (unmatched parens).closing ↔
    ∃ inside rest, parens = inside ++ .closing :: rest ∧ Balanced inside := by
  constructor
  · intro h
    obtain ⟨inside, rest, same, balanced, -⟩ := exists_of_closing_pos h
    exact ⟨inside, rest, same, balanced⟩
  · rintro ⟨inside, rest, rfl, balanced⟩
    rw [unmatched_append, balanced.unmatched, Unmatched.none_append, unmatched_closing_cons]
    exact Nat.succ_pos _

theorem opening_pos_iff {parens : List Paren} : 0 < (unmatched parens).opening ↔
    ∃ before after, parens = before ++ .opening :: after ∧ (unmatched after).closing = 0 := by
  constructor
  · intro h
    induction parens with
    | nil => cases h
    | cons p parens ih =>
      by_cases last : p = .opening ∧ (unmatched parens).closing = 0
      · obtain ⟨rfl, none⟩ := last
        exact ⟨[], parens, rfl, none⟩
      · have later : 0 < (unmatched parens).opening := by
          cases p with
          | opening =>
            rw [unmatched_opening_cons] at h
            dsimp only at h
            have : (unmatched parens).closing ≠ 0 := fun none => last ⟨rfl, none⟩
            omega
          | closing => rwa [unmatched_closing_cons] at h
        obtain ⟨before, after, rfl, none⟩ := ih later
        exact ⟨p :: before, after, rfl, none⟩
  · rintro ⟨before, after, rfl, none⟩
    rw [unmatched_append, unmatched_opening_cons, none]
    simp only [Unmatched.append]
    omega

/-! ### Items that may be parentheses -/

section Items

variable {α : Type} (paren? : α → Option Paren)

/-- `a` opens and `b` closes it: between them there are only pairs. -/
def Partners (items : List α) (a b : α) : Prop :=
  ∃ before inside after, items = before ++ a :: (inside ++ b :: after) ∧
    paren? a = some .opening ∧ paren? b = some .closing ∧ Balanced (inside.filterMap paren?)

/-- Some item opens what no later one closes. -/
def LeavesOpen (items : List α) : Prop :=
  ∃ before a after, items = before ++ a :: after ∧ paren? a = some .opening ∧
    ∀ inside b rest, after = inside ++ b :: rest → paren? b = some .closing →
      ¬ Balanced (inside.filterMap paren?)

/-- No item closes something while nothing is open. -/
def AllOpened (items : List α) : Prop :=
  ∀ before b after, items = before ++ b :: after → paren? b = some .closing →
    LeavesOpen paren? before

variable {paren?} {items : List α}

theorem filterMap_append_cons {before after : List α} {a : α} {p : Paren} (h : paren? a = some p) :
    (before ++ a :: after).filterMap paren? =
      before.filterMap paren? ++ p :: after.filterMap paren? := by
  rw [List.filterMap_append, List.filterMap_cons_some h]

theorem exists_of_filterMap_eq {before after : List Paren} {p : Paren}
    (h : items.filterMap paren? = before ++ p :: after) : ∃ front a back,
      items = front ++ a :: back ∧ front.filterMap paren? = before ∧ paren? a = some p ∧
      back.filterMap paren? = after := by
  obtain ⟨front, rest, rfl, first, second⟩ := List.filterMap_eq_append_iff.mp h
  obtain ⟨others, a, back, rfl, none, here, last⟩ := List.filterMap_eq_cons_iff.mp second
  refine ⟨front ++ others, a, back, by simp, ?_, here, last⟩
  rw [List.filterMap_append, List.filterMap_eq_nil_iff.mpr none, List.append_nil, first]

theorem closing_items_pos_iff : 0 < (unmatched (items.filterMap paren?)).closing ↔
    ∃ inside b rest, items = inside ++ b :: rest ∧ paren? b = some .closing ∧
      Balanced (inside.filterMap paren?) := by
  rw [closing_pos_iff]
  constructor
  · rintro ⟨inside, rest, same, balanced⟩
    obtain ⟨inside, b, rest, rfl, rfl, closes, -⟩ := exists_of_filterMap_eq same
    exact ⟨inside, b, rest, rfl, closes, balanced⟩
  · rintro ⟨inside, b, rest, rfl, closes, balanced⟩
    exact ⟨_, _, filterMap_append_cons closes, balanced⟩

theorem opening_items_pos_iff : 0 < (unmatched (items.filterMap paren?)).opening ↔
    ∃ before a after, items = before ++ a :: after ∧ paren? a = some .opening ∧
      (unmatched (after.filterMap paren?)).closing = 0 := by
  rw [opening_pos_iff]
  constructor
  · rintro ⟨before, after, same, none⟩
    obtain ⟨before, a, after, rfl, -, opens, rfl⟩ := exists_of_filterMap_eq same
    exact ⟨before, a, after, rfl, opens, none⟩
  · rintro ⟨before, a, after, rfl, opens, none⟩
    exact ⟨_, _, filterMap_append_cons opens, none⟩

theorem leavesOpen_iff :
    LeavesOpen paren? items ↔ 0 < (unmatched (items.filterMap paren?)).opening := by
  rw [opening_items_pos_iff]
  constructor
  · rintro ⟨before, a, after, rfl, opens, unclosed⟩
    refine ⟨before, a, after, rfl, opens, Nat.eq_zero_of_not_pos fun closed => ?_⟩
    obtain ⟨inside, b, rest, rfl, closes, balanced⟩ := closing_items_pos_iff.mp closed
    exact unclosed inside b rest rfl closes balanced
  · rintro ⟨before, a, after, rfl, opens, none⟩
    refine ⟨before, a, after, rfl, opens, fun inside b rest same closes balanced => ?_⟩
    exact Nat.ne_of_gt (closing_items_pos_iff.mpr ⟨inside, b, rest, same, closes, balanced⟩) none

theorem allOpened_iff :
    AllOpened paren? items ↔ (unmatched (items.filterMap paren?)).closing = 0 := by
  constructor
  · intro h
    refine Nat.eq_zero_of_not_pos fun astray => ?_
    obtain ⟨inside, b, rest, rfl, closes, balanced⟩ := closing_items_pos_iff.mp astray
    have opened := leavesOpen_iff.mp (h inside b rest rfl closes)
    rw [balanced.unmatched] at opened
    exact Nat.lt_irrefl 0 opened
  · rintro none before b after rfl closes
    refine leavesOpen_iff.mpr (Nat.pos_of_ne_zero fun nothing => ?_)
    rw [filterMap_append_cons closes, unmatched_append, unmatched_closing_cons] at none
    simp only [Unmatched.append] at none
    omega

/-- In a list that leaves nothing over, what the front leaves open is closed behind it. -/
theorem opening_front_pos_iff {front back : List α}
    (h : unmatched ((front ++ back).filterMap paren?) = ⟨0, 0⟩) :
    0 < (unmatched (front.filterMap paren?)).opening ↔
      ∃ before a inside inside' b after, front = before ++ a :: inside ∧
        back = inside' ++ b :: after ∧ paren? a = some .opening ∧ paren? b = some .closing ∧
        Balanced ((inside ++ inside').filterMap paren?) := by
  rw [opening_items_pos_iff]
  constructor
  · rintro ⟨before, a, inside, rfl, opens, none⟩
    have closed : 0 < (unmatched ((inside ++ back).filterMap paren?)).closing := by
      refine Nat.pos_of_ne_zero fun never => ?_
      have left := opening_items_pos_iff.mpr ⟨before, a, inside ++ back, rfl, opens, never⟩
      rw [List.append_assoc, List.cons_append] at h
      rw [h] at left
      exact Nat.lt_irrefl 0 left
    obtain ⟨between, b, after, split, closes, balanced⟩ := closing_items_pos_iff.mp closed
    rcases List.append_eq_append_iff.mp split with ⟨inside', rfl, rfl⟩ | ⟨others, rfl, rest⟩
    · exact ⟨before, a, inside, inside', b, after, rfl, rfl, opens, closes, balanced⟩
    · cases others with
      | nil => exact ⟨before, a, _, [], b, after, rfl, rest.symm, opens, closes, by simpa⟩
      | cons other others =>
        -- It would be left over in the front.
        obtain ⟨rfl, -⟩ := List.cons.inj rest
        have early := closing_items_pos_iff.mpr ⟨between, b, others, rfl, closes, balanced⟩
        exact absurd none (Nat.ne_of_gt early)
  · rintro ⟨before, a, inside, inside', b, after, rfl, rfl, opens, -, balanced⟩
    refine ⟨before, a, inside, rfl, opens, ?_⟩
    have whole := balanced.unmatched
    rw [List.filterMap_append, unmatched_append, Unmatched.append, Unmatched.mk.injEq] at whole
    omega

theorem front_of_not_mem_back {front back before after : List α} {a : α}
    (split : front ++ back = before ++ a :: after) (notBehind : a ∉ back) :
    ∃ more, front = before ++ a :: more ∧ after = more ++ back := by
  rcases List.append_eq_append_iff.mp split with ⟨others, -, rfl⟩ | ⟨others, rfl, rest⟩
  · exact absurd (by simp) notBehind
  · cases others with
    | nil =>
      obtain rfl : a :: after = back := rest
      exact absurd (List.mem_cons_self ..) notBehind
    | cons other others =>
      obtain ⟨rfl, same⟩ := List.cons.inj rest
      exact ⟨others, rfl, same⟩

theorem back_of_not_mem_front {front back before after : List α} {b : α}
    (split : before ++ b :: after = front ++ back) (notBefore : b ∉ front) :
    ∃ more, before = front ++ more ∧ back = more ++ b :: after := by
  rcases List.append_eq_append_iff.mp split with ⟨others, rfl, rest⟩ | ⟨others, rfl, rfl⟩
  · cases others with
    | nil => exact ⟨[], by simp, rest.symm⟩
    | cons other others =>
      obtain ⟨rfl, -⟩ := List.cons.inj rest
      exact absurd (by simp) notBefore
  · exact ⟨others, rfl, rfl⟩

/-- In a list that leaves nothing over, the front leaves something open just if two partners stand on the
two sides of its end. The parentheses of the front are told from those behind it by `early`. -/
theorem opening_front_pos_iff_partners {early : α → Prop} {front back : List α}
    (h : unmatched ((front ++ back).filterMap paren?) = ⟨0, 0⟩)
    (low : ∀ x ∈ front, paren? x ≠ none → early x)
    (high : ∀ x ∈ back, paren? x ≠ none → ¬ early x) :
    0 < (unmatched (front.filterMap paren?)).opening ↔
      ∃ a b, Partners paren? (front ++ back) a b ∧ early a ∧ ¬ early b := by
  have paren {x : α} {p : Paren} (known : paren? x = some p) : paren? x ≠ none := by simp [known]
  rw [opening_front_pos_iff h]
  constructor
  · rintro ⟨before, a, inside, inside', b, after, rfl, rfl, opens, closes, balanced⟩
    refine ⟨a, b, ⟨before, inside ++ inside', after, by simp, opens, closes, balanced⟩, ?_, ?_⟩
    · exact low a (by simp) (paren opens)
    · exact high b (by simp) (paren closes)
  · rintro ⟨a, b, ⟨before, inside, after, split, opens, closes, balanced⟩, first, last⟩
    have notBehind : a ∉ back := fun known => high a known (paren opens) first
    have notBefore : b ∉ front := fun known => last (low b known (paren closes))
    obtain ⟨more, rfl, rest⟩ := front_of_not_mem_back split notBehind
    have notMore : b ∉ more := fun known => notBefore (by simp [known])
    obtain ⟨inside', rfl, rfl⟩ := back_of_not_mem_front rest notMore
    exact ⟨before, a, more, inside', b, after, rfl, rfl, opens, closes, balanced⟩

end Items

end Paren

namespace Token.Kind

def paren? : Kind → Option Paren
  | .leftParen => some .opening
  | .rightParen => some .closing
  | _ => none

end Token.Kind

/-- The parentheses among the tokens. -/
def Token.parens (tokens : List Token) : List Paren := tokens.filterMap (·.kind.paren?)

theorem Token.parens_append (a b : List Token) : parens (a ++ b) = parens a ++ parens b :=
  List.filterMap_append

theorem Token.parens_singleton (token : Token) : parens [token] = token.kind.paren?.toList := by
  cases known : token.kind.paren? with
  | none => exact List.filterMap_cons_none known
  | some p => exact List.filterMap_cons_some known

/-! ### Parentheses of a phrase -/

namespace Syntax

open Paren

/-- What the tokens of a rule leave over: two of them stand behind the parenthesis that they close. -/
def Nonterminal.unmatched : Nonterminal → Unmatched
  | .definition | .block => ⟨1, 0⟩
  | _ => ⟨0, 0⟩

/-- What the tokens of a phrase leave over, if it is the same for all of them. -/
def Phrase.unmatched? : Phrase → Option Unmatched
  | .token kinds =>
    if kinds = [.leftParen] then some ⟨0, 1⟩
    else if kinds = [.rightParen] then some ⟨1, 0⟩
    else if kinds.all (·.paren?.isNone) then some ⟨0, 0⟩
    else none
  | .rule name => some name.unmatched
  | .empty => some ⟨0, 0⟩
  | .seq first second =>
    first.unmatched?.bind fun a => second.unmatched?.map fun b => a.append b
  | .alt first second => if first.unmatched? = second.unmatched? then first.unmatched? else none
  | .many part => if part.unmatched? = some ⟨0, 0⟩ then some ⟨0, 0⟩ else none

theorem Nonterminal.unmatched?_phrase (name : Nonterminal) :
    name.phrase.unmatched? = some name.unmatched := by
  cases name <;> rfl

theorem unmatched_token {kinds : List Token.Kind} {u : Unmatched}
    (h : (Phrase.token kinds).unmatched? = some u) {token : Token} (known : token.kind ∈ kinds) :
    unmatched (Token.parens [token]) = u := by
  rw [Token.parens_singleton]
  unfold Phrase.unmatched? at h
  split at h
  · rename_i only
    obtain rfl := Option.some.inj h
    rw [only, List.mem_singleton] at known
    rw [known]
    rfl
  · split at h
    · rename_i only
      obtain rfl := Option.some.inj h
      rw [only, List.mem_singleton] at known
      rw [known]
      rfl
    · obtain ⟨others, same⟩ := Option.ite_none_right_eq_some.mp h
      obtain rfl := Option.some.inj same
      rw [Option.isNone_iff_eq_none.mp (List.all_eq_true.mp others _ known)]
      rfl

theorem Derives.unmatched {phrase : Phrase} {tokens : List Token} (h : Derives phrase tokens)
    {u : Unmatched} (leaves : phrase.unmatched? = some u) : unmatched (Token.parens tokens) = u := by
  induction h generalizing u with
  | token known => exact unmatched_token leaves known
  | @rule name _ _ ih => exact ih (name.unmatched?_phrase.trans leaves)
  | empty => exact Option.some.inj leaves
  | seq _ _ first second =>
    obtain ⟨a, ha, leaves⟩ := Option.bind_eq_some_iff.mp leaves
    obtain ⟨b, hb, rfl⟩ := Option.map_eq_some_iff.mp leaves
    rw [Token.parens_append, unmatched_append, first ha, second hb]
  | left _ ih =>
    obtain ⟨-, leaves⟩ := Option.ite_none_right_eq_some.mp leaves
    exact ih leaves
  | right _ ih =>
    obtain ⟨same, leaves⟩ := Option.ite_none_right_eq_some.mp leaves
    exact ih (same ▸ leaves)
  | manyNil =>
    obtain ⟨-, leaves⟩ := Option.ite_none_right_eq_some.mp leaves
    exact Option.some.inj leaves
  | manyCons _ _ first more =>
    obtain ⟨part, same⟩ := Option.ite_none_right_eq_some.mp leaves
    obtain rfl := Option.some.inj same
    rw [Token.parens_append, unmatched_append, first part, more leaves]
    rfl

theorem Sentence.unmatched {tokens : List Token} (h : Sentence tokens) :
    unmatched (Token.parens tokens) = ⟨0, 0⟩ := Derives.unmatched h rfl

end Syntax

end LispReader
