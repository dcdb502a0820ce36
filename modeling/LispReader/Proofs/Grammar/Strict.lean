import LispReader.Grammar.Program

/-!
# Strict reading

`Rule.strict` reads like `Rule.run` but gives up at the first fatal report, so what comes after a
fault plays no part in it. By `strict_bind` it goes step by step, and by `strict_recovering` recovery
is invisible to it.
-/

namespace LispReader.Grammar

/-- Does the declaration that has this problem come to nothing? -/
def Problem.isFatal : Problem → Bool
  | .targetInvalid => false
  | .parametersTooMany => false
  | .argumentsTooMany => false
  | _ => true

/-- The first fatal report, or the value and the rest of the input. -/
def Reply.strict {α : Type} (reply : Reply α) : Except Report (α × List Token) :=
  match reply.reports.find? (·.problem.isFatal) with
  | some report => .error report
  | none => reply.result.map (·, reply.rest)

theorem Reply.strict_andThen {α β : Type} (first : Reply α) (f : α → List Token → Reply β) :
    (first.andThen f).strict = first.strict >>= fun (a, rest) => (f a rest).strict := by
  unfold andThen strict
  cases result : first.result <;> cases found : first.reports.find? (·.problem.isFatal) <;>
    simp [List.find?_append, found, bind, Except.bind, Except.map]

namespace Rule

variable {α β σ : Type}

theorem ext {r s : Rule α} (h : ∀ input, r.run input = s.run input) : r = s := by
  obtain ⟨f, _⟩ := r
  obtain ⟨g, _⟩ := s
  obtain rfl : f = g := funext h
  rfl

/-! ### Repetition, unrolled -/

theorem foldWhile_eq (select : Token → Option σ) (step : α → σ → Rule α) (acc : α) :
    foldWhile select step acc = accept select >>= fun
      | none => pure acc
      | some s => step acc s >>= foldWhile select step := by
  refine ext fun input => ?_
  rw [run_bind]
  show foldWhile.run select step acc input = _
  rw [foldWhile.run.eq_def]
  rcases run_accept select input with same | ⟨token, s, rest, rfl, found, same⟩
  · rw [same]
    cases input with
    | nil => rfl
    | cons token rest =>
      have none : select token = none := by
        cases found : select token with
        | none => rfl
        | some s => simp [accept, found] at same
      simp [none, Reply.andThen]
  · rw [same]
    cases result : ((step acc s).run rest).result <;> simp [found, Reply.andThen, result, foldWhile]

theorem manyUntil_eq (closes : Token → Bool) (r : Rule (Option α)) (advances : r.Advances) :
    manyUntil closes r advances = ahead >>= fun input =>
      if input.head?.all closes then pure []
      else r >>= fun found => manyUntil closes r advances >>= fun more =>
        pure (found.toList ++ more) := by
  refine ext fun input => ?_
  show manyUntil.run closes r advances input = _
  rw [manyUntil.run.eq_def]
  cases input with
  | nil => simp [ahead, Reply.andThen]
  | cons token rest =>
    by_cases closed : closes token
    · simp [ahead, Reply.andThen, closed]
    · cases result : (r.run (token :: rest)).result with
      | error => simp [ahead, Reply.andThen, closed, result]
      | ok found =>
        cases more : (manyUntil.run closes r advances (r.run (token :: rest)).rest).result <;>
          simp [ahead, Reply.andThen, closed, result, manyUntil, more, Except.map]

instance : LawfulMonad Rule := LawfulMonad.mk' Rule
  (fun r => ext fun input => by
    show (r.run input).andThen _ = r.run input
    unfold Reply.andThen
    split <;> rename_i result <;> simp [← result])
  (fun a f => rfl)
  (fun r f g => ext fun input => by
    simp only [run_bind, Reply.andThen]
    cases (r.run input).result with
    | error report => rfl
    | ok a => cases result : ((f a).run (r.run input).rest).result <;> simp [result])

/-! ### Reading up to the first fatal report -/

def strict (r : Rule α) (input : List Token) : Except Report (α × List Token) := (r.run input).strict

@[simp] theorem strict_pure (a : α) (input : List Token) :
    (pure a : Rule α).strict input = .ok (a, input) := rfl

@[simp] theorem strict_ahead (input : List Token) : ahead.strict input = .ok (input, input) := rfl

theorem strict_note {problem : Problem} (mild : problem.isFatal = false) (place input : List Token) :
    (note problem place).strict input = .ok ((), input) := by
  simp [strict, note, Reply.strict, mild, Except.map]

theorem strict_bind (r : Rule α) (f : α → Rule β) (input : List Token) :
    (r >>= f).strict input = r.strict input >>= fun (a, rest) => (f a).strict rest :=
  Reply.strict_andThen _ _

theorem strict_bind_of_ok {r : Rule α} {input rest : List Token} {a : α}
    (h : r.strict input = .ok (a, rest)) (f : α → Rule β) :
    (r >>= f).strict input = (f a).strict rest := by
  rw [strict_bind, h]
  rfl

theorem strict_bind_of_error {r : Rule α} {input : List Token} {report : Report}
    (h : r.strict input = .error report) (f : α → Rule β) :
    (r >>= f).strict input = .error report := by
  rw [strict_bind, h]
  rfl

theorem strict_bind_ok {r : Rule α} {f : α → Rule β} {input rest : List Token} {b : β}
    (h : (r >>= f).strict input = .ok (b, rest)) :
    ∃ a mid, r.strict input = .ok (a, mid) ∧ (f a).strict mid = .ok (b, rest) := by
  cases first : r.strict input with
  | error report => rw [strict_bind_of_error first] at h; cases h
  | ok found => exact ⟨found.1, found.2, rfl, by rwa [strict_bind_of_ok first] at h⟩

theorem strict_bind_error {r : Rule α} {f : α → Rule β} {input : List Token} {report : Report}
    (h : (r >>= f).strict input = .error report) :
    r.strict input = .error report ∨
      ∃ a mid, r.strict input = .ok (a, mid) ∧ (f a).strict mid = .error report := by
  cases first : r.strict input with
  | error report' =>
    rw [strict_bind_of_error first] at h
    obtain rfl := Except.error.inj h
    exact .inl rfl
  | ok found => exact .inr ⟨found.1, found.2, rfl, by rwa [strict_bind_of_ok first] at h⟩

theorem strict_accept_nil (select : Token → Option σ) : (accept select).strict [] = .ok (none, []) :=
  rfl

theorem strict_accept_none {select : Token → Option σ} {token : Token} (h : select token = none)
    (rest : List Token) : (accept select).strict (token :: rest) = .ok (none, token :: rest) := by
  simp [strict, accept, h, Reply.strict, Except.map]

theorem strict_accept_some {select : Token → Option σ} {token : Token} {s : σ}
    (h : select token = some s) (rest : List Token) :
    (accept select).strict (token :: rest) = .ok (some s, rest) := by
  simp [strict, accept, h, Reply.strict, Except.map]

theorem strict_accept_shorter {select : Token → Option σ} {input rest : List Token} {s : σ}
    (h : (accept select).strict input = .ok (some s, rest)) : rest.length < input.length := by
  cases input with
  | nil => cases h
  | cons token tail =>
    cases found : select token with
    | none => rw [strict_accept_none found] at h; cases h
    | some t => rw [strict_accept_some found] at h; cases h; exact Nat.lt_succ_self _

theorem strict_expect_nil (kind : Token.Kind) (problem : Problem) :
    (expect kind problem).strict [] = .error ⟨problem, []⟩ := rfl

theorem strict_expect_cons (kind : Token.Kind) (problem : Problem) (token : Token)
    (rest : List Token) :
    (expect kind problem).strict (token :: rest) =
      if token.kind = kind then .ok (token, rest) else .error ⟨problem, token :: rest⟩ := by
  unfold expect
  split
  · rename_i same
    rw [strict_bind_of_ok (strict_accept_some (s := token) (by simp [ofKind, same]) rest)]
    rfl
  · rename_i other
    rw [strict_bind_of_ok (strict_accept_none (by simp [ofKind, other]) rest)]
    rfl

theorem strict_ok {r : Rule α} {input rest : List Token} {a : α}
    (h : r.strict input = .ok (a, rest)) :
    (r.run input).result = .ok a ∧ (r.run input).rest = rest := by
  unfold strict Reply.strict at h
  split at h
  · cases h
  · cases result : (r.run input).result <;> rw [result] at h
    · cases h
    · obtain ⟨rfl, rfl⟩ := Prod.mk.inj (Except.ok.inj h)
      exact ⟨rfl, rfl⟩

theorem strict_rest {r : Rule α} {input rest : List Token} {a : α}
    (h : r.strict input = .ok (a, rest)) : rest <:+ input := (strict_ok h).2 ▸ r.rest_suffix input

theorem strict_of_run {r : Rule α} {input rest : List Token} {a : α} {reports : List Report}
    (h : r.run input = ⟨.ok a, reports, rest⟩)
    (mild : ∀ report ∈ reports, report.problem.isFatal = false) :
    r.strict input = .ok (a, rest) := by
  have none : reports.find? (·.problem.isFatal) = none := List.find?_eq_none.mpr (by simpa using mild)
  simp [strict, Reply.strict, h, none, Except.map]

/-- Whatever stops a rule, recovery has it reported. -/
theorem strict_recovering {r : Rule α} {input : List Token}
    (fatal : ∀ report, r.strict input = .error report → report.problem.isFatal = true) :
    (recovering r).strict input = (r.strict input).map fun (a, rest) => (some a, rest) := by
  unfold strict at fatal ⊢
  simp only [recovering]
  cases result : (r.run input).result with
  | ok a => cases found : (r.run input).reports.find? (·.problem.isFatal) <;>
      simp [Reply.strict, result, found, Except.map]
  | error report => cases found : (r.run input).reports.find? (·.problem.isFatal) with
    | some first => simp [Reply.strict, found, List.find?_append, Except.map]
    | none =>
      have stops := fatal report (by simp [Reply.strict, result, found, Except.map])
      simp [Reply.strict, result, found, List.find?_append, Except.map, stops]

end Rule

end LispReader.Grammar
