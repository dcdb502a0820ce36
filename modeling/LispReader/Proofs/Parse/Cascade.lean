import LispReader.Proofs.Cursor.Ends
import LispReader.Proofs.Grammar.Blames
import Mathlib.Data.List.Forall2

/-!
# How many faults one text can have

Each diagnostic of a parse blames a token of the input or its end, and the fatal ones go through the
input from front to back: none of its tokens is blamed twice. Only the end can be, as often as
declarations can be open there. `Parse.fatal_diagnostics_climb` counts them.
-/

namespace LispReader

open Grammar Cursor

/-- Has the declaration that this is reported for come to nothing? -/
def Diagnostic.isFatal (d : Diagnostic) : Bool :=
  d.message ∉ ["Invalid assignment target.", "Can't have more than 255 parameters.",
    "Can't have more than 255 arguments."]

namespace Parse

theorem isFatal_diagnose (last : Token) (report : Report) :
    (diagnose last report).isFatal = report.problem.isFatal := by
  obtain ⟨problem, place⟩ := report
  cases problem <;> rfl

theorem blames_input (tokens : List Token) : (program.run (input tokens)).Blames (input tokens)
    (firstEnd tokens) (maxNesting + 1) :=
  firstEnd_eq tokens ▸ blames_program (input tokens)

theorem diagnostics_eq (tokens : List Token) : (ofTokens tokens).diagnostics =
    (program.run (input tokens)).reports.map (diagnose (endToken tokens)) := by
  obtain ⟨stmts, result⟩ := result_program (input tokens)
  rw [ofTokens_eq result]

/-- A place in the input is told by how many tokens stand before it. -/
theorem exists_token_of_placed {tokens : List Token} {report : Report}
    (placed : report.place <:+ input tokens) :
    ∃ token, (complete tokens)[firstEnd tokens - report.place.length]? = some token ∧
      diagnose (endToken tokens) report = .ofToken token report.problem.message := by
  obtain ⟨before, whole⟩ := placed
  obtain ⟨more, complete⟩ := complete_eq tokens
  have index : firstEnd tokens - report.place.length = before.length := by
    rw [firstEnd_eq, ← whole, List.length_append, Nat.add_sub_cancel]
  rw [complete, ← whole, index, List.append_assoc, List.getElem?_append_right (Nat.le_refl _),
    Nat.sub_self]
  unfold diagnose
  cases report.place with
  | nil => exact ⟨endToken tokens, rfl, rfl⟩
  | cons token _ => exact ⟨token, rfl, rfl⟩

theorem exists_token_of_mem {tokens : List Token} {d : Diagnostic}
    (known : d ∈ (ofTokens tokens).diagnostics) :
    ∃ token ∈ complete tokens, d = .ofToken token d.message := by
  rw [diagnostics_eq] at known
  obtain ⟨report, made, rfl⟩ := List.mem_map.mp known
  obtain ⟨token, found, blames⟩ := exists_token_of_placed ((blames_input tokens).placed report made)
  refine ⟨token, List.mem_of_getElem? found, ?_⟩
  rw [blames]
  rfl

/-- The indices of the tokens that are fatally blamed, in the order of the reports. -/
def blamed (tokens : List Token) : List Nat :=
  (program.run (input tokens)).heights.map (firstEnd tokens - ·)

theorem fatal_diagnostics_eq (tokens : List Token) :
    (ofTokens tokens).diagnostics.filter (·.isFatal) =
      ((program.run (input tokens)).reports.filter (·.problem.isFatal)).map
        (diagnose (endToken tokens)) := by
  rw [diagnostics_eq, List.filter_map]
  congr 2
  funext report
  exact isFatal_diagnose _ report

theorem forall₂_blamed (tokens : List Token) :
    List.Forall₂ (fun d i => ∃ token, (complete tokens)[i]? = some token ∧ d = .ofToken token d.message)
      ((ofTokens tokens).diagnostics.filter (·.isFatal)) (blamed tokens) := by
  rw [fatal_diagnostics_eq, blamed, Reply.heights, List.map_map, List.forall₂_map_left_iff,
    List.forall₂_map_right_iff, List.forall₂_same]
  intro report known
  have placed := (blames_input tokens).placed report (List.mem_of_mem_filter known)
  obtain ⟨token, found, blames⟩ := exists_token_of_placed placed
  refine ⟨token, found, ?_⟩
  rw [blames]
  rfl

theorem pairwise_blamed (tokens : List Token) :
    (blamed tokens).Pairwise fun i j => i < j ∨ i = firstEnd tokens ∧ j = firstEnd tokens := by
  have falls := (blames_input tokens).falls
  refine List.pairwise_map.mpr (falls.pairwise.imp_of_mem fun {n m} first second lower => ?_)
  have := falls.le_high n first
  omega

theorem count_blamed_le (tokens : List Token) :
    (blamed tokens).count (firstEnd tokens) ≤ maxNesting + 1 := by
  refine Nat.le_trans ?_ (blames_input tokens).few
  rw [blamed, List.count, List.countP_map]
  refine List.countP_mono_left fun n known same => ?_
  have := (blames_input tokens).falls.le_high n known
  simp only [Function.comp_apply, beq_iff_eq] at same ⊢
  omega

theorem length_blamed_le (tokens : List Token) :
    (blamed tokens).length ≤ tokens.length + (maxNesting + 1) := by
  have length := (blames_input tokens).falls.length_le
  have few := (blames_input tokens).few
  have input : firstEnd tokens ≤ tokens.length := by
    rw [firstEnd_eq]
    exact (List.takeWhile_sublist _).length_le
  rw [blamed, List.length_map]
  omega

/-- The fatal diagnostics blame tokens from front to back, none of them twice but the first end, which
is blamed no more often than once for every level and once for the program. -/
theorem fatal_diagnostics_climb (tokens : List Token) : ∃ indices : List Nat,
    List.Forall₂ (fun d i => ∃ token, (complete tokens)[i]? = some token ∧ d = .ofToken token d.message)
      ((ofTokens tokens).diagnostics.filter (·.isFatal)) indices ∧
    (∀ i ∈ indices, i ≤ firstEnd tokens) ∧
    indices.Pairwise (fun i j => i < j ∨ i = firstEnd tokens ∧ j = firstEnd tokens) ∧
    indices.count (firstEnd tokens) ≤ maxNesting + 1 ∧
    ((ofTokens tokens).diagnostics.filter (·.isFatal)).length ≤ tokens.length + (maxNesting + 1) := by
  refine ⟨blamed tokens, forall₂_blamed tokens, ?_, pairwise_blamed tokens, count_blamed_le tokens, ?_⟩
  · intro i known
    obtain ⟨n, -, rfl⟩ := List.mem_map.mp known
    exact Nat.sub_le _ _
  · rw [(forall₂_blamed tokens).length_eq]
    exact length_blamed_le tokens

end Parse

end LispReader
