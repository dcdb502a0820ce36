import LispReader.Token.Basic

/-!
# Lists with commas

A `Listing` is a list as it stands in the input: every item but the first has a token before it, and
in a `Separated` listing these tokens are commas.
-/

namespace LispReader.Syntax

inductive Listing (α : Type) where
  | none
  | some (first : α) (more : List (Token × α))

namespace Listing

variable {α β : Type}

def items : Listing α → List α
  | none => []
  | some first more => first :: more.map Prod.snd

def map (f : α → β) : Listing α → Listing β
  | none => none
  | some first more => some (f first) (more.map fun (comma, item) => (comma, f item))

def Separated : Listing α → Prop
  | none => True
  | some _ more => ∀ round ∈ more, round.1.kind = .comma

/-- The whole listing, with `write` telling the tokens of an item. -/
def tokens (write : α → List Token) : Listing α → List Token
  | none => []
  | some first more => write first ++ more.flatMap fun (comma, item) => comma :: write item

@[simp] theorem items_map (f : α → β) (list : Listing α) : (list.map f).items = list.items.map f := by
  cases list <;> simp [map, items, Function.comp_def]

theorem map_map {γ : Type} (g : β → γ) (f : α → β) (list : Listing α) :
    (list.map f).map g = list.map (g ∘ f) := by
  cases list <;> simp [map, Function.comp_def]

theorem separated_map {f : α → β} {list : Listing α} : (list.map f).Separated ↔ list.Separated := by
  cases list with
  | none => rfl
  | some first more => simp only [map, Separated, List.forall_mem_map]

theorem tokens_map (write : β → List Token) (f : α → β) (list : Listing α) :
    (list.map f).tokens write = list.tokens (write ∘ f) := by
  cases list <;> simp [map, tokens, List.flatMap_map]

theorem tokens_congr {write write' : α → List Token} {list : Listing α}
    (h : ∀ x ∈ list.items, write x = write' x) : list.tokens write = list.tokens write' := by
  cases list with
  | none => rfl
  | some first more =>
    obtain ⟨head, rest⟩ := List.forall_mem_cons.mp h
    rw [List.forall_mem_map] at rest
    have same : more.map (fun round => round.1 :: write round.2) =
        more.map fun round => round.1 :: write' round.2 :=
      List.map_congr_left fun round known => by rw [rest round known]
    simp only [tokens, head, List.flatMap_def, same]

theorem mem_items_some {first : α} {more : List (Token × α)} {round : Token × α}
    (h : round ∈ more) : round.2 ∈ (some first more).items :=
  List.mem_cons_of_mem _ (List.mem_map_of_mem h)

end Listing

end LispReader.Syntax
