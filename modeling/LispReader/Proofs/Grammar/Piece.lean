import LispReader.Grammar.Nested
import LispReader.Proofs.Syntax.Listing

/-!
# Pieces of the input

A `Piece` is what a rule should make of some tokens: the value, the reports made on the way and the
levels of nesting that it takes. Pieces are put together like rules, in a monad of their own. For
each way to put them together there are lemmas for the four fields.
-/

namespace LispReader.Grammar

open Syntax (Listing)

/-- The same report where more input follows. -/
def Report.before (next : List Token) (report : Report) : Report :=
  { report with place := report.place ++ next }

@[simp] theorem Report.problem_before (next : List Token) (report : Report) :
    (report.before next).problem = report.problem := rfl

@[simp] theorem Report.before_nil (report : Report) : report.before [] = report := by
  simp [before]

@[simp] theorem Report.before_before (a b : List Token) (report : Report) :
    (report.before a).before b = report.before (a ++ b) := by
  simp [before]

structure Piece (α : Type) where
  tokens : List Token
  value : α
  /-- The reports, their places as if the input ended with the piece. -/
  notes : List Report
  nesting : Nat

namespace Piece

variable {α β γ : Type}

theorem ext {p q : Piece α} (tokens : p.tokens = q.tokens) (value : p.value = q.value)
    (notes : p.notes = q.notes) (nesting : p.nesting = q.nesting) : p = q := by
  cases p
  cases q
  simp_all

instance : Monad Piece where
  pure a := ⟨[], a, [], 0⟩
  bind p f :=
    let q := f p.value
    ⟨p.tokens ++ q.tokens, q.value, p.notes.map (·.before q.tokens) ++ q.notes,
      max p.nesting q.nesting⟩

@[simp] theorem tokens_pure (a : α) : (pure a : Piece α).tokens = [] := rfl
@[simp] theorem value_pure (a : α) : (pure a : Piece α).value = a := rfl
@[simp] theorem notes_pure (a : α) : (pure a : Piece α).notes = [] := rfl
@[simp] theorem nesting_pure (a : α) : (pure a : Piece α).nesting = 0 := rfl

@[simp] theorem tokens_bind (p : Piece α) (f : α → Piece β) :
    (p >>= f).tokens = p.tokens ++ (f p.value).tokens := rfl

@[simp] theorem value_bind (p : Piece α) (f : α → Piece β) :
    (p >>= f).value = (f p.value).value := rfl

@[simp] theorem notes_bind (p : Piece α) (f : α → Piece β) : (p >>= f).notes =
    p.notes.map (·.before (f p.value).tokens) ++ (f p.value).notes := rfl

@[simp] theorem nesting_bind (p : Piece α) (f : α → Piece β) :
    (p >>= f).nesting = max p.nesting (f p.value).nesting := rfl

instance : LawfulMonad Piece := LawfulMonad.mk' Piece
  (fun p => ext (List.append_nil _) rfl
    (show p.notes.map (·.before []) ++ [] = p.notes by simp) (Nat.max_zero _))
  (fun a f => ext rfl rfl rfl (Nat.zero_max _))
  (fun p f g => ext (by simp only [tokens_bind, List.append_assoc, value_bind]) rfl
    (by simp [Function.comp_def]) (by simp only [nesting_bind, Nat.max_assoc, value_bind]))

@[simp] theorem tokens_map (f : α → β) (p : Piece α) : (f <$> p).tokens = p.tokens :=
  List.append_nil _

@[simp] theorem value_map (f : α → β) (p : Piece α) : (f <$> p).value = f p.value := rfl

@[simp] theorem notes_map (f : α → β) (p : Piece α) : (f <$> p).notes = p.notes :=
  show p.notes.map (·.before []) ++ [] = p.notes by simp

@[simp] theorem nesting_map (f : α → β) (p : Piece α) : (f <$> p).nesting = p.nesting :=
  Nat.max_zero _

def token (token : Token) : Piece Token := ⟨[token], token, [], 0⟩

/-- Reports a problem at `back`, which has been read already. -/
def note (problem : Problem) (back : List Token) : Piece Unit := ⟨[], (), [⟨problem, back⟩], 0⟩

def deeper (p : Piece α) : Piece α := { p with nesting := p.nesting + 1 }

@[simp] theorem tokens_token (t : Token) : (token t).tokens = [t] := rfl
@[simp] theorem value_token (t : Token) : (token t).value = t := rfl
@[simp] theorem notes_token (t : Token) : (token t).notes = [] := rfl
@[simp] theorem nesting_token (t : Token) : (token t).nesting = 0 := rfl

@[simp] theorem tokens_note (problem : Problem) (back : List Token) :
    (note problem back).tokens = [] := rfl

@[simp] theorem notes_note (problem : Problem) (back : List Token) :
    (note problem back).notes = [⟨problem, back⟩] := rfl

@[simp] theorem nesting_note (problem : Problem) (back : List Token) :
    (note problem back).nesting = 0 := rfl

@[simp] theorem tokens_deeper (p : Piece α) : p.deeper.tokens = p.tokens := rfl
@[simp] theorem value_deeper (p : Piece α) : p.deeper.value = p.value := rfl
@[simp] theorem notes_deeper (p : Piece α) : p.deeper.notes = p.notes := rfl
@[simp] theorem nesting_deeper (p : Piece α) : p.deeper.nesting = p.nesting + 1 := rfl

/-! ### Lists and rows of pieces -/

/-- Reports an item that the limit leaves no room for, `count` others standing before it. -/
def excess (tooMany : Problem) (count : Nat) : Piece Unit :=
  if count = maxListLength then note tooMany [] else pure ()

def listRound (tooMany : Problem) (items : List α) (item : Piece α) : Piece (List α) := do
  excess tooMany items.length
  let next ← item
  pure (items ++ [next])

def moreItems (tooMany : Problem) (more : List (Token × Piece α)) (items : List α) : Piece (List α) :=
  more.foldlM (fun items round => token round.1 >>= fun _ => listRound tooMany items round.2) items

def list (tooMany : Problem) : Listing (Piece α) → Piece (List α)
  | .none => pure []
  | .some first more => do
    let first ← first
    moreItems tooMany more [first]

def deepest (parts : List (Piece α)) : Nat := (parts.map nesting).foldr max 0

theorem tokens_foldlM (write : β → List Token) {step : α → β → Piece α}
    (h : ∀ acc round, (step acc round).tokens = write round) (rounds : List β) (acc : α) :
    (rounds.foldlM step acc).tokens = rounds.flatMap write := by
  induction rounds generalizing acc with
  | nil => rfl
  | cons round rounds ih => rw [List.foldlM_cons, tokens_bind, h, ih, List.flatMap_cons]

theorem notes_bind_eq_nil_iff {p : Piece α} {f : α → Piece β} :
    (p >>= f).notes = [] ↔ p.notes = [] ∧ (f p.value).notes = [] := by
  simp

@[simp] theorem tokens_excess (tooMany : Problem) (count : Nat) : (excess tooMany count).tokens = [] := by
  unfold excess
  split <;> rfl

@[simp] theorem nesting_excess (tooMany : Problem) (count : Nat) : (excess tooMany count).nesting = 0 := by
  unfold excess
  split <;> rfl

theorem notes_excess_eq_nil_iff {tooMany : Problem} {count : Nat} :
    (excess tooMany count).notes = [] ↔ count ≠ maxListLength := by
  unfold excess
  split <;> simp_all

section List

variable (tooMany : Problem)

theorem moreItems_cons (round : Token × Piece α) (more : List (Token × Piece α)) (items : List α) :
    moreItems tooMany (round :: more) items = token round.1 >>= fun _ =>
      listRound tooMany items round.2 >>= moreItems tooMany more := by
  rw [moreItems, List.foldlM_cons, bind_assoc]
  rfl

theorem value_moreItems (more : List (Token × Piece α)) (items : List α) :
    (moreItems tooMany more items).value = items ++ more.map fun round => round.2.value := by
  induction more generalizing items with
  | nil => simp [moreItems]
  | cons round more ih => simp [moreItems_cons, listRound, ih]

theorem nesting_moreItems (more : List (Token × Piece α)) (items : List α) :
    (moreItems tooMany more items).nesting = deepest (more.map Prod.snd) := by
  induction more generalizing items with
  | nil => rfl
  | cons round more ih => simp [moreItems_cons, listRound, ih, deepest]

theorem notes_moreItems_eq_nil_iff {more : List (Token × Piece α)} {items : List α}
    (room : items.length ≤ maxListLength) : (moreItems tooMany more items).notes = [] ↔
      items.length + more.length ≤ maxListLength ∧ ∀ round ∈ more, round.2.notes = [] := by
  induction more generalizing items with
  | nil => simp [moreItems, room]
  | cons round more ih =>
    have head : (listRound tooMany items round.2).notes = [] ↔
        items.length ≠ maxListLength ∧ round.2.notes = [] := by
      simp [listRound, notes_excess_eq_nil_iff]
    have length : (listRound tooMany items round.2).value.length = items.length + 1 := by
      simp [listRound]
    have notes : (moreItems tooMany (round :: more) items).notes = [] ↔
        (items.length ≠ maxListLength ∧ round.2.notes = []) ∧
          (moreItems tooMany more (listRound tooMany items round.2).value).notes = [] := by
      simp only [moreItems_cons, notes_bind_eq_nil_iff, head, notes_token, true_and]
    rw [notes, List.forall_mem_cons, List.length_cons]
    constructor
    · rintro ⟨⟨space, first⟩, rest⟩
      obtain ⟨fits, clean⟩ := (ih (by omega)).mp rest
      exact ⟨by omega, first, clean⟩
    · rintro ⟨fits, first, clean⟩
      exact ⟨⟨by omega, first⟩, (ih (by omega)).mpr ⟨by omega, clean⟩⟩

@[simp] theorem tokens_list (list : Listing (Piece α)) :
    (Piece.list tooMany list).tokens = list.tokens tokens := by
  cases list with
  | none => rfl
  | some first more =>
    rw [Piece.list, tokens_bind, moreItems, tokens_foldlM fun round => round.1 :: round.2.tokens]
    · rfl
    · simp [listRound]

theorem value_list (list : Listing (Piece α)) :
    (Piece.list tooMany list).value = list.items.map value := by
  cases list with
  | none => rfl
  | some first more => simp [Piece.list, value_moreItems, Listing.items]

theorem nesting_list (list : Listing (Piece α)) :
    (Piece.list tooMany list).nesting = deepest list.items := by
  cases list with
  | none => rfl
  | some first more =>
    rw [Piece.list, nesting_bind, nesting_moreItems]
    rfl

theorem notes_list_eq_nil_iff (list : Listing (Piece α)) : (Piece.list tooMany list).notes = [] ↔
    list.items.length ≤ maxListLength ∧ ∀ p ∈ list.items, p.notes = [] := by
  cases list with
  | none => simp [Piece.list, Listing.items]
  | some first more =>
    rw [Piece.list, notes_bind_eq_nil_iff, notes_moreItems_eq_nil_iff tooMany (by simp [maxListLength]),
      and_left_comm, Listing.items, List.forall_mem_cons, List.forall_mem_map]
    simp [Nat.add_comm]

end List

@[simp] theorem tokens_mapM_id (parts : List (Piece α)) :
    (parts.mapM id).tokens = parts.flatMap tokens := by
  induction parts with
  | nil => rfl
  | cons p parts ih => simp [List.mapM_cons, ih]

theorem value_mapM_id (parts : List (Piece α)) : (parts.mapM id).value = parts.map value := by
  induction parts with
  | nil => rfl
  | cons p parts ih => simp [List.mapM_cons, ih]

theorem nesting_mapM_id (parts : List (Piece α)) : (parts.mapM id).nesting = deepest parts := by
  induction parts with
  | nil => rfl
  | cons p parts ih => simp [List.mapM_cons, ih, deepest]

theorem notes_mapM_id_eq_nil_iff (parts : List (Piece α)) :
    (parts.mapM id).notes = [] ↔ ∀ p ∈ parts, p.notes = [] := by
  induction parts with
  | nil => simp
  | cons p parts ih => simp [List.mapM_cons, ih]

end Piece

end LispReader.Grammar
