import LispReader.Diagnostic
import LispReader.Proofs.Grammar.Piece

/-!
# The contents of a piece

The reports of a piece name places, and what follows the piece is part of them. Its `Contents` name
the tokens to blame instead, so they do not depend on what follows. Contents are put together like
pieces; in a list, the first item beyond the limit is to blame for its length.
-/

namespace LispReader.Grammar

open Syntax (Listing)

/-- A problem and the token that is to blame. -/
structure Fault where
  problem : Problem
  token : Token

def Fault.diagnostic (fault : Fault) : Diagnostic := .ofToken fault.token fault.problem.message

structure Contents (α : Type) where
  value : α
  tokens : List Token
  nesting : Nat
  faults : List Fault

variable {α β : Type}

/-! ### Lists -/

/-- The fault of an item that the limit leaves no room for, `count` others standing before it. -/
def excessFaults (tooMany : Problem) (count : Nat) (item : Contents α) : List Fault :=
  if count = maxListLength then (item.tokens.head?.map (Fault.mk tooMany)).toList else []

/-- The faults of items that `count` others stand before. -/
def listFaults (tooMany : Problem) : Nat → List (Contents α) → List Fault
  | _, [] => []
  | count, item :: items =>
    excessFaults tooMany count item ++ item.faults ++ listFaults tooMany (count + 1) items

def Contents.list (tooMany : Problem) (items : Listing (Contents α)) : Contents (List α) where
  value := items.items.map value
  tokens := items.tokens tokens
  nesting := (items.items.map nesting).foldr max 0
  faults := listFaults tooMany 0 items.items

def Contents.deeper (contents : Contents α) : Contents α :=
  { contents with nesting := contents.nesting + 1 }

theorem listFaults_of_short {tooMany : Problem} {count : Nat} {items : List (Contents α)}
    (short : count + items.length ≤ maxListLength) :
    listFaults tooMany count items = items.flatMap Contents.faults := by
  induction items generalizing count with
  | nil => rfl
  | cons item items ih =>
    rw [List.length_cons] at short
    rw [listFaults, excessFaults, if_neg (by omega), ih (by omega), List.nil_append, List.flatMap_cons]

theorem listFaults_of_clean {tooMany : Problem} {count : Nat} {items : List (Contents α)}
    (clean : ∀ item ∈ items, item.faults = []) : listFaults tooMany count items =
      if count ≤ maxListLength then
        (items[maxListLength - count]?.bind (·.tokens.head?.map (Fault.mk tooMany))).toList
      else [] := by
  induction items generalizing count with
  | nil => simp [listFaults]
  | cons item items ih =>
    obtain ⟨first, more⟩ := List.forall_mem_cons.mp clean
    rw [listFaults, first, ih more, excessFaults, List.append_nil]
    -- Below the limit the fault is still ahead, and beyond it there is none left.
    rcases Nat.lt_trichotomy count maxListLength with below | rfl | beyond
    · have next : maxListLength - count = maxListLength - (count + 1) + 1 := by omega
      rw [if_neg (Nat.ne_of_lt below), if_pos (Nat.succ_le_of_lt below),
        if_pos (Nat.le_of_lt below), next, List.getElem?_cons_succ, List.nil_append]
    · rw [if_pos rfl, if_neg (Nat.not_succ_le_self _), if_pos (Nat.le_refl _), Nat.sub_self,
        List.getElem?_cons_zero, Option.bind_some, List.append_nil]
    · rw [if_neg (by omega), if_neg (by omega), if_neg (by omega), List.nil_append]

namespace Piece

/-! ### What the reports blame -/

/-- The reports of the piece blame these tokens for these problems. -/
def Records (p : Piece α) (faults : List Fault) : Prop :=
  p.notes.map (fun note => (note.problem, note.place.head?)) =
    faults.map fun fault => (fault.problem, some fault.token)

theorem records_nil_iff {p : Piece α} : p.Records [] ↔ p.notes = [] := List.map_eq_nil_iff

theorem Records.head_place {p : Piece α} {faults : List Fault} (h : p.Records faults)
    (next : List Token) :
    ∀ note ∈ p.notes, (note.before next).place.head? = note.place.head? := by
  intro note known
  have found : (note.problem, note.place.head?) ∈
      faults.map fun fault => (fault.problem, some fault.token) := h ▸ List.mem_map_of_mem known
  obtain ⟨fault, -, same⟩ := List.mem_map.mp found
  have placed : some fault.token = note.place.head? := congrArg Prod.snd same
  rw [Report.before, List.head?_append, ← placed, Option.some_or]

theorem Records.bind {p : Piece α} {f : α → Piece β} {a b : List Fault} (h : p.Records a)
    (h' : (f p.value).Records b) : (p >>= f).Records (a ++ b) := by
  have moved : (p.notes.map (·.before (f p.value).tokens)).map
      (fun note => (note.problem, note.place.head?)) =
        p.notes.map fun note => (note.problem, note.place.head?) := by
    rw [List.map_map]
    exact List.map_congr_left fun note known => congrArg _ (h.head_place _ note known)
  rw [Records, notes_bind, List.map_append, List.map_append, moved, h, h']

theorem Records.bind_nil {p : Piece α} {f : α → Piece β} {faults : List Fault} (h : p.Records faults)
    (silent : (f p.value).Records []) : (p >>= f).Records faults :=
  List.append_nil faults ▸ h.bind silent

theorem Records.deeper {p : Piece α} {faults : List Fault} (h : p.Records faults) :
    p.deeper.Records faults := h

theorem records_pure (a : α) : (pure a : Piece α).Records [] := rfl

theorem records_token (t : Token) : (token t).Records [] := rfl

/-- What diagnostics the reports make, whatever follows. -/
theorem Records.diagnostics {p : Piece α} {faults : List Fault} (h : p.Records faults) (last : Token) :
    p.notes.map (fun note => Diagnostic.ofToken (note.place.head?.getD last) note.problem.message) =
      faults.map Fault.diagnostic := by
  have := congrArg (List.map fun blamed : Problem × Option Token =>
    Diagnostic.ofToken (blamed.2.getD last) blamed.1.message) h
  rwa [List.map_map, List.map_map] at this

/-! ### Contents -/

structure Has (p : Piece α) (contents : Contents α) : Prop where
  value : p.value = contents.value
  tokens : p.tokens = contents.tokens
  nesting : p.nesting = contents.nesting
  records : p.Records contents.faults

theorem Has.deeper {p : Piece α} {contents : Contents α} (h : p.Has contents) :
    p.deeper.Has contents.deeper :=
  ⟨h.value, h.tokens, congrArg (· + 1) h.nesting, h.records.deeper⟩

section List

variable (tooMany : Problem)

theorem records_listRound {item : Piece α} {contents : Contents α} (h : item.Has contents)
    (some : contents.tokens ≠ []) (items : List α) : (listRound tooMany items item).Records
      (excessFaults tooMany items.length contents ++ contents.faults) := by
  have rest : (item >>= fun next => pure (items ++ [next])).Records contents.faults :=
    h.records.bind_nil (records_pure _)
  unfold listRound excess excessFaults
  split
  · obtain ⟨first, more, tokens⟩ := List.exists_cons_of_ne_nil some
    rw [Records, notes_bind, List.map_append, List.map_append, rest]
    simp [Report.before, h.tokens, tokens]
  · exact rest

theorem records_moreItems {ι : Type} {piece : ι → Piece α} {contents : ι → Contents α}
    {more : List (Token × ι)}
    (each : ∀ round ∈ more, (piece round.2).Has (contents round.2) ∧ (contents round.2).tokens ≠ [])
    (items : List α) : (moreItems tooMany (more.map fun (comma, i) => (comma, piece i)) items).Records
      (listFaults tooMany items.length (more.map fun round => contents round.2)) := by
  induction more generalizing items with
  | nil => rfl
  | cons round more ih =>
    obtain ⟨⟨has, some⟩, later⟩ := List.forall_mem_cons.mp each
    have length : (listRound tooMany items (piece round.2)).value.length = items.length + 1 := by
      simp [listRound]
    rw [List.map_cons, moreItems_cons, List.map_cons, listFaults]
    refine (records_token round.1).bind ((records_listRound tooMany has some items).bind ?_)
    exact length ▸ ih later _

theorem has_list {ι : Type} {piece : ι → Piece α} {contents : ι → Contents α} {args : Listing ι}
    (each : ∀ i ∈ args.items, (piece i).Has (contents i) ∧ (contents i).tokens ≠ []) :
    (list tooMany (args.map piece)).Has (.list tooMany (args.map contents)) := by
  refine ⟨?_, ?_, ?_, ?_⟩
  · show _ = (args.map contents).items.map Contents.value
    rw [value_list, Listing.items_map, List.map_map, Listing.items_map, List.map_map]
    exact List.map_congr_left fun i known => (each i known).1.value
  · show _ = (args.map contents).tokens Contents.tokens
    rw [tokens_list, Listing.tokens_map, Listing.tokens_map]
    exact Listing.tokens_congr fun i known => (each i known).1.tokens
  · show _ = ((args.map contents).items.map Contents.nesting).foldr max 0
    rw [nesting_list, deepest, Listing.items_map, List.map_map, Listing.items_map, List.map_map]
    exact congrArg (List.foldr max 0) (List.map_congr_left fun i known => (each i known).1.nesting)
  · cases args with
    | none => rfl
    | some first more =>
      obtain ⟨⟨has, some⟩, later⟩ := List.forall_mem_cons.mp each
      rw [List.forall_mem_map] at later
      have rest := records_moreItems tooMany later [(piece first).value]
      have faults : (Contents.list tooMany ((Listing.some first more).map contents)).faults =
          (contents first).faults ++ listFaults tooMany 1 (more.map fun round => contents round.2) := by
        simp [Contents.list, Listing.items, Listing.map, listFaults, excessFaults, maxListLength,
          Function.comp_def]
      rw [faults]
      exact has.records.bind rest

end List

end Piece

/-- Is there a piece of this kind with such contents? -/
def Makes (piece : Piece α → Prop) (contents : Contents α) : Prop := ∃ p, piece p ∧ p.Has contents

end LispReader.Grammar
