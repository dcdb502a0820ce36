import LispReader.Grammar.Repetition

/-!
# Recovery

After a fault the input is skipped up to the next place where a declaration is likely to begin. As
at least one token is skipped, a recovering rule advances, by `advances_recovering`.
-/

namespace LispReader.Grammar.Rule

variable {α : Type}

/-- May a declaration begin here whatever came before? -/
def opensDeclaration : List Token → Bool
  | a :: b :: _ =>
    a.kind = .keyword .cond || (a.kind = .leftParen && b.kind = .keyword .define)
  | [a] => a.kind = .keyword .cond
  | [] => false

/-- Skips at least one token, up to behind a semicolon or before the opening of a declaration. -/
def resume : List Token → List Token
  | [] => []
  | token :: rest =>
    if token.kind = .semicolon || opensDeclaration rest then rest else resume rest

theorem resume_suffix (input : List Token) : resume input <:+ input := by
  induction input with
  | nil => exact List.suffix_rfl
  | cons token rest ih =>
    unfold resume
    split
    · exact List.suffix_cons _ _
    · exact ih.trans (List.suffix_cons _ _)

theorem length_resume_cons (token : Token) (rest : List Token) :
    (resume (token :: rest)).length ≤ rest.length := by
  unfold resume
  split
  · exact Nat.le_refl _
  · exact (resume_suffix rest).length_le

/-- Like `r`, but where `r` stops, its report is recorded, the input is resumed, and no value comes
back. -/
def recovering (r : Rule α) : Rule (Option α) where
  run input :=
    let reply := r.run input
    match reply.result with
    | .ok a => ⟨.ok (some a), reply.reports, reply.rest⟩
    | .error report => ⟨.ok none, reply.reports ++ [report], resume reply.rest⟩
  rest_suffix input := by
    dsimp only
    split
    · exact r.rest_suffix input
    · exact (resume_suffix _).trans (r.rest_suffix input)

theorem advances_recovering {r : Rule α} (h : r.Consumes) : (recovering r).Advances := by
  intro token rest
  dsimp only [recovering]
  split
  · rename_i a ok
    exact Nat.le_of_lt_succ (h _ a ok)
  · have suffix := r.rest_suffix (token :: rest)
    cases left : (r.run (token :: rest)).rest with
    | nil => exact Nat.zero_le _
    | cons token' rest' =>
      have := suffix.length_le
      rw [left] at this
      exact Nat.le_trans (length_resume_cons token' rest') (Nat.le_of_succ_le_succ this)

end LispReader.Grammar.Rule
