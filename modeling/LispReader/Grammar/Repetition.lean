import LispReader.Grammar.Rule

/-!
# Repeated rules

`Rule.foldWhile` reads a token itself in each round, so it may repeat any rule. `Rule.manyUntil`
repeats a rule that advances: one that reads a token even where it gives no value.
-/

namespace LispReader.Grammar.Rule

variable {α σ : Type}

/-- The rounds of `foldWhile` on an input. -/
def foldWhile.run (select : Token → Option σ) (step : α → σ → Rule α) (acc : α) :
    List Token → Reply α
  | [] => ⟨.ok acc, [], []⟩
  | token :: rest =>
    match select token with
    | none => ⟨.ok acc, [], token :: rest⟩
    | some s =>
      let round := (step acc s).run rest
      match round.result with
      | .error report => ⟨.error report, round.reports, round.rest⟩
      | .ok next =>
        let more := foldWhile.run select step next round.rest
        { more with reports := round.reports ++ more.reports }
termination_by input => input.length
decreasing_by exact Nat.lt_succ_of_le ((step acc s).rest_length rest)

/-- Reads a token that `select` takes and then what `step` says, as long as there is such a token;
each step makes a new value of the last one. -/
def foldWhile (select : Token → Option σ) (step : α → σ → Rule α) (acc : α) : Rule α where
  run := foldWhile.run select step acc
  rest_suffix input := by
    fun_induction foldWhile.run select step acc input with
    | case1 => exact List.suffix_rfl
    | case2 => exact List.suffix_rfl
    | case3 acc token rest s _ round => exact (rest_suffix _ _).trans (List.suffix_cons _ _)
    | case4 acc token rest s _ round next _ more ih =>
      exact ih.trans ((rest_suffix _ _).trans (List.suffix_cons _ _))

/-- A rule that always leaves less than a nonempty input. -/
def Advances (r : Rule α) : Prop :=
  ∀ token rest, (r.run (token :: rest)).rest.length ≤ rest.length

/-- The rounds of `manyUntil` on an input. -/
def manyUntil.run (closes : Token → Bool) (r : Rule (Option α)) (advances : r.Advances) :
    List Token → Reply (List α)
  | [] => ⟨.ok [], [], []⟩
  | token :: rest =>
    if closes token then ⟨.ok [], [], token :: rest⟩
    else
      let round := r.run (token :: rest)
      match round.result with
      | .error report => ⟨.error report, round.reports, round.rest⟩
      | .ok found =>
        let more := manyUntil.run closes r advances round.rest
        { more with
          result := more.result.map (found.toList ++ ·)
          reports := round.reports ++ more.reports }
termination_by input => input.length
decreasing_by exact Nat.lt_succ_of_le (advances token rest)

/-- Repeats `r` and keeps the values it gives, until the input ends or `closes` holds of the next
token. -/
def manyUntil (closes : Token → Bool) (r : Rule (Option α)) (advances : r.Advances) :
    Rule (List α) where
  run := manyUntil.run closes r advances
  rest_suffix input := by
    fun_induction manyUntil.run closes r advances input with
    | case1 => exact List.suffix_rfl
    | case2 => exact List.suffix_rfl
    | case3 => exact rest_suffix _ _
    | case4 token rest _ round found _ more ih => exact ih.trans (rest_suffix _ _)

end LispReader.Grammar.Rule
