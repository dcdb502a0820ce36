import LispReader.Proofs.Cursor.Basic
import LispReader.Proofs.Grammar.Parts

/-!
# Where readings in place end

A reading that comes to an end without a slip ends in another cursor, with an outcome: `Ends` says so
of one reading, `Finishes` of a reading with enough fuel. `Cursor.Ahead` ties a cursor to the input of
the rules, and `Cursor.Passes` says what a reading has done to it.
-/

namespace LispReader

open Grammar

/-! ### Where a reading ends -/

def Machine.Ends {α : Type} (m : Machine α) (c : Cursor) (a : α) (c' : Cursor) : Prop :=
  (m.run c).run = some (.ok (a, c'))

/-- The reading comes to an end without a slip, in `c'` and with this outcome. -/
def Reading.Ends {α : Type} (m : Reading α) (c : Cursor) (outcome : Except Blame α) (c' : Cursor) :
    Prop := Machine.Ends m.run c outcome c'

namespace Machine

variable {α β : Type} {c c₁ c₂ : Cursor}

theorem ends_pure (a : α) (c : Cursor) : (pure a : Machine α).Ends c a c := rfl

theorem ends_bind {m : Machine α} {k : α → Machine β} {a : α} {b : β} (first : m.Ends c a c₁)
    (second : (k a).Ends c₁ b c₂) : (m >>= k).Ends c b c₂ := by
  unfold Ends at first second ⊢
  rw [StateT.run_bind, ExceptT.run_bind, first]
  exact second

theorem Ends.unique {m : Machine α} {a b : α} (first : m.Ends c a c₁) (second : m.Ends c b c₂) :
    a = b ∧ c₁ = c₂ := by
  unfold Ends at first second
  rw [first] at second
  exact Prod.mk.inj (Except.ok.inj (Option.some.inj second))

theorem ends_ofStep {step : Cursor → Except Cursor.Slip (α × Cursor)} {a : α}
    (h : step c = .ok (a, c₁)) : (ofStep step).Ends c a c₁ := congrArg some h

end Machine

namespace Reading

variable {α β : Type} {c c₁ c₂ : Cursor}

theorem ends_pure (a : α) (c : Cursor) : (pure a : Reading α).Ends c (.ok a) c := rfl

theorem ends_bind_ok {m : Reading α} {k : α → Reading β} {a : α} {outcome : Except Blame β}
    (first : m.Ends c (.ok a) c₁) (second : (k a).Ends c₁ outcome c₂) :
    (m >>= k).Ends c outcome c₂ := by
  unfold Ends at first second ⊢
  rw [ExceptT.run_bind]
  exact Machine.ends_bind first second

theorem ends_bind_error {m : Reading α} {k : α → Reading β} {blame : Blame}
    (first : m.Ends c (.error blame) c₁) : (m >>= k).Ends c (.error blame) c₁ := by
  unfold Ends at first ⊢
  rw [ExceptT.run_bind]
  exact Machine.ends_bind first (Machine.ends_pure _ _)

theorem ends_lift {m : Machine α} {a : α} (h : m.Ends c a c₁) :
    (liftM m : Reading α).Ends c (.ok a) c₁ := by
  show Machine.Ends (Except.ok <$> m) c (.ok a) c₁
  rw [map_eq_pure_bind]
  exact Machine.ends_bind h (Machine.ends_pure _ _)

theorem ends_throw (blame : Blame) (c : Cursor) :
    (throw blame : Reading α).Ends c (.error blame) c := rfl

end Reading

/-! ### With enough fuel -/

/-- From some amount of fuel on, the outcome and the cursor are these. -/
def Machine.Finishes {α : Type} (m : Nat → Machine α) (c : Cursor) (a : α) (c' : Cursor) : Prop :=
  ∃ enough, ∀ fuel, enough ≤ fuel → (m fuel).Ends c a c'

def Reading.Finishes {α : Type} (m : Nat → Reading α) (c : Cursor) (outcome : Except Blame α)
    (c' : Cursor) : Prop := Machine.Finishes (fun fuel => (m fuel).run) c outcome c'

namespace Machine

variable {α β : Type} {c c₁ c₂ : Cursor}

theorem finishes_of_ends {m : Machine α} {a : α} (h : m.Ends c a c₁) :
    Finishes (fun _ => m) c a c₁ := ⟨0, fun _ _ => h⟩

theorem finishes_unique {m : Nat → Machine α} {a b : α} (first : Finishes m c a c₁)
    (second : Finishes m c b c₂) : a = b ∧ c₁ = c₂ := by
  obtain ⟨enough, ends⟩ := first
  obtain ⟨enough', ends'⟩ := second
  have run := ends (max enough enough') (Nat.le_max_left _ _)
  have run' := ends' (max enough enough') (Nat.le_max_right _ _)
  exact Ends.unique run run'

theorem finishes_bind {m : Nat → Machine α} {k : α → Nat → Machine β} {a : α} {b : β}
    (first : Finishes m c a c₁) (second : Finishes (k a) c₁ b c₂) :
    Finishes (fun fuel => m fuel >>= fun a => k a fuel) c b c₂ := by
  obtain ⟨enough, ends⟩ := first
  obtain ⟨enough', ends'⟩ := second
  refine ⟨max enough enough', fun fuel le => ?_⟩
  have first := ends fuel (by omega)
  have second := ends' fuel (by omega)
  exact ends_bind first second

theorem finishes_succ {m body : Nat → Machine α} {a : α} (step : ∀ fuel, m (fuel + 1) = body fuel)
    (h : Finishes body c a c₁) : Finishes m c a c₁ := by
  obtain ⟨enough, ends⟩ := h
  refine ⟨enough + 1, fun fuel le => ?_⟩
  cases fuel with
  | zero => omega
  | succ fuel =>
    rw [step]
    exact ends fuel (by omega)

end Machine

namespace Reading

variable {α β : Type} {c c₁ c₂ : Cursor}

theorem finishes_of_ends {m : Reading α} {outcome : Except Blame α} (h : m.Ends c outcome c₁) :
    Finishes (fun _ => m) c outcome c₁ := Machine.finishes_of_ends h

theorem finishes_bind_ok {m : Nat → Reading α} {k : α → Nat → Reading β} {a : α}
    {outcome : Except Blame β} (first : Finishes m c (.ok a) c₁)
    (second : Finishes (k a) c₁ outcome c₂) :
    Finishes (fun fuel => m fuel >>= fun a => k a fuel) c outcome c₂ := by
  unfold Finishes
  simp only [ExceptT.run_bind]
  exact Machine.finishes_bind first second

theorem finishes_bind_error {m : Nat → Reading α} {k : α → Nat → Reading β} {blame : Blame}
    (first : Finishes m c (.error blame) c₁) :
    Finishes (fun fuel => m fuel >>= fun a => k a fuel) c (.error blame) c₁ := by
  unfold Finishes
  simp only [ExceptT.run_bind]
  exact Machine.finishes_bind first (Machine.finishes_of_ends (Machine.ends_pure _ c₁))

end Reading

/-! ### What lies ahead -/

namespace Cursor

/-- The first end, `last`, stands behind `input`. -/
structure Ahead (c : Cursor) (input : List Token) (last : Token) : Prop where
  drop : ∃ more, c.tokens.drop c.index = input ++ last :: more
  ends : last.kind = .eof
  before : ∀ token ∈ input, token.kind ≠ .eof

variable {c c' c₁ c₂ : Cursor} {input rest : List Token} {last token : Token}

theorem Ahead.of_eq (h : c.Ahead input last) (tokens : c₁.tokens = c.tokens)
    (index : c₁.index = c.index) : c₁.Ahead input last := by
  obtain ⟨drop, ends, before⟩ := h
  rw [← tokens, ← index] at drop
  exact ⟨drop, ends, before⟩

theorem Ahead.current (h : c.Ahead input last) :
    c.tokens[c.index]? = some (input.head?.getD last) := by
  obtain ⟨more, drop⟩ := h.drop
  rw [← List.head?_drop, drop]
  cases input <;> rfl

theorem Ahead.forward (h : c.Ahead (token :: rest) last) : c.forward.Ahead rest last := by
  obtain ⟨more, drop⟩ := h.drop
  refine ⟨⟨more, ?_⟩, h.ends, fun token known => h.before token (List.mem_cons_of_mem _ known)⟩
  show c.tokens.drop (c.index + 1) = _
  rw [← List.drop_drop, drop]
  rfl

theorem Ahead.second (h : c.Ahead (token :: rest) last) :
    c.tokens[c.index + 1]? = some (rest.head?.getD last) := h.forward.current

/-- Steps that lead from index `i` to index `j`, never back, and never below the depth `low` or
beyond the limit. -/
inductive Climbs (low : Nat) : Nat → List (Nat × Nat) → Nat → Prop where
  | nil (i : Nat) : Climbs low i [] i
  | cons {i j k depth : Nat} {steps : List (Nat × Nat)} :
    i ≤ j → low ≤ depth → depth ≤ maxNesting → Climbs low j steps k →
    Climbs low i ((j, depth) :: steps) k

theorem Climbs.append {low i j k : Nat} {steps more : List (Nat × Nat)}
    (first : Climbs low i steps j) (second : Climbs low j more k) :
    Climbs low i (steps ++ more) k := by
  induction first with
  | nil => exact second
  | cons le least most _ ih => exact .cons le least most (ih second)

theorem Climbs.lower {low low' i j : Nat} {steps : List (Nat × Nat)} (h : Climbs low i steps j)
    (le : low' ≤ low) : Climbs low' i steps j := by
  induction h with
  | nil i => exact .nil i
  | cons step least most _ ih => exact .cons step (Nat.le_trans le least) most ih

/-- `c'` is `c` after a reading that took `input` to `rest` with these reports. -/
structure Passes (c : Cursor) (last : Token) (input rest : List Token) (reports : List Report)
    (c' : Cursor) : Prop where
  ahead : c'.Ahead rest last
  tokens : c'.tokens = c.tokens
  index : c'.index + rest.length = c.index + input.length
  depth : c'.depth = c.depth
  diagnostics : c'.diagnostics = c.diagnostics ++ reports.map (Parse.diagnose last)
  trail : ∃ steps, c'.trail = c.trail ++ steps ∧ Climbs c.depth c.index steps c'.index

theorem Passes.refl (h : c.Ahead input last) : c.Passes last input input [] c :=
  ⟨h, rfl, rfl, rfl, (List.append_nil _).symm, [], (List.append_nil _).symm, .nil _⟩

theorem Passes.trans {mid : List Token} {reports more : List Report}
    (first : c.Passes last input mid reports c₁) (second : c₁.Passes last mid rest more c₂) :
    c.Passes last input rest (reports ++ more) c₂ := by
  obtain ⟨steps, trail, climbs⟩ := first.trail
  obtain ⟨steps', trail', climbs'⟩ := second.trail
  rw [first.depth] at climbs'
  refine ⟨second.ahead, second.tokens.trans first.tokens, second.index.trans first.index,
    second.depth.trans first.depth, ?_, steps ++ steps', ?_, climbs.append climbs'⟩
  · rw [second.diagnostics, first.diagnostics, List.map_append, List.append_assoc]
  · rw [trail', trail, List.append_assoc]

theorem Ahead.passes_forward (h : c.Ahead (token :: rest) last) (shallow : c.depth ≤ maxNesting) :
    c.Passes last (token :: rest) rest [] c.forward := by
  refine ⟨h.forward, rfl, ?_, rfl, (List.append_nil _).symm, [(c.index + 1, c.depth)], rfl, ?_⟩
  · show c.index + 1 + rest.length = c.index + (rest.length + 1)
    omega
  · exact .cons (Nat.le_succ _) (Nat.le_refl _) shallow (.nil _)

theorem Passes.report {reports : List Report} (h : c.Passes last input rest reports c')
    (report : Report) : c.Passes last input rest (reports ++ [report])
      (c'.addDiagnostic (Parse.diagnose last report)) := by
  refine ⟨h.ahead.of_eq rfl rfl, h.tokens, h.index, h.depth, ?_, h.trail⟩
  show c'.diagnostics ++ [Parse.diagnose last report] = _
  rw [h.diagnostics, List.map_append, List.append_assoc]
  rfl

/-- What is read one level deeper is read on this level as well. -/
theorem Passes.closed {reports : List Report}
    (h : (c.setDepth (c.depth + 1)).Passes last input rest reports c') (room : c.depth < maxNesting) :
    c.Passes last input rest reports (c'.setDepth c.depth) := by
  obtain ⟨steps, trail, climbs⟩ := h.trail
  have down : Climbs c.depth c'.index [(c'.index, c.depth)] c'.index :=
    .cons (Nat.le_refl _) (Nat.le_refl _) (Nat.le_of_lt room) (.nil _)
  have within : Climbs c.depth c.index steps c'.index := climbs.lower (Nat.le_succ _)
  refine ⟨h.ahead.of_eq rfl rfl, h.tokens, h.index, rfl, h.diagnostics,
    (c.index, c.depth + 1) :: (steps ++ [(c'.index, c.depth)]), ?_, ?_⟩
  · show c'.trail ++ [(c'.index, c.depth)] = _
    rw [trail]
    simp [setDepth]
  · exact .cons (Nat.le_refl _) (Nat.le_succ _) room (within.append down)

end Cursor

/-! ### Single steps -/

namespace Machine

variable {c : Cursor} {input rest : List Token} {last token : Token}

theorem ends_peek (h : c.Ahead input last) : peek.Ends c (input.head?.getD last) c :=
  ends_ofStep (by rw [h.current])

theorem ends_isAtEnd (h : c.Ahead input last) : isAtEnd.Ends c input.isEmpty c := by
  have same : decide ((input.head?.getD last).kind = .eof) = input.isEmpty := by
    cases input with
    | nil => exact decide_eq_true h.ends
    | cons token rest => exact decide_eq_false (h.before token List.mem_cons_self)
  rw [← same]
  exact ends_bind (ends_peek h) (ends_pure _ c)

theorem ends_check (h : c.Ahead input last) (kind : Token.Kind) :
    (check kind).Ends c (input.head?.any (·.kind = kind)) c := by
  apply ends_bind (ends_isAtEnd h)
  cases input with
  | nil => exact ends_pure _ c
  | cons token rest => exact ends_bind (ends_peek h) (ends_pure _ c)

theorem ends_isAtClose (h : c.Ahead input last) :
    isAtClose.Ends c (input.head?.all (·.kind = .rightParen)) c := by
  apply ends_bind (ends_check h .rightParen)
  cases input with
  | nil => exact ends_isAtEnd h
  | cons token rest =>
    by_cases closes : token.kind = .rightParen
    · simpa [closes] using ends_pure true c
    · simpa [closes] using ends_isAtEnd h

theorem ends_startsDefinition (h : c.Ahead input last) :
    startsDefinition.Ends c (opensDefinition input) c := by
  apply ends_bind (ends_check h .leftParen)
  match input with
  | [] => exact ends_pure false c
  | [token] =>
    by_cases opening : token.kind = .leftParen
    · have second : c.tokens[c.index + 1]? = some last := h.second
      simp only [List.head?_cons, Option.any_some, opening, decide_true, if_true]
      apply ends_ofStep
      rw [second, Option.any_some, h.ends]
      rfl
    · simpa [opensDefinition, opening] using ends_pure false c
  | token :: next :: rest =>
    have second : c.tokens[c.index + 1]? = some next := h.second
    by_cases opening : token.kind = .leftParen
    · simp only [List.head?_cons, Option.any_some, opening, decide_true, if_true]
      apply ends_ofStep
      rw [second, Option.any_some]
      simp [opensDefinition, opening]
    · simpa [opensDefinition, opening] using ends_pure false c

theorem ends_forward (c : Cursor) : forward.Ends c () c.forward := rfl

theorem ends_previous (h : c.Ahead input last) (moved : 0 < c.index) :
    ∃ token, previous.Ends c token c := by
  obtain ⟨more, drop⟩ := h.drop
  have inside : c.index < c.tokens.length := by
    have length := congrArg List.length drop
    rw [List.length_drop, List.length_append, List.length_cons] at length
    omega
  cases index : c.index with
  | zero => omega
  | succ before =>
    have known : before < c.tokens.length := by omega
    exact ⟨c.tokens[before], ends_ofStep (by simp [index, List.getElem?_eq_getElem known])⟩

theorem ends_previous_forward (h : c.Ahead (token :: rest) last) :
    previous.Ends c.forward token c.forward := by
  have current : c.tokens[c.index]? = some token := h.current
  exact ends_ofStep (by simp [Cursor.forward, current])

theorem ends_advance (h : c.Ahead (token :: rest) last) : advance.Ends c token c.forward := by
  apply ends_bind (ends_isAtEnd h)
  exact ends_bind (ends_forward c) (ends_previous_forward h)

end Machine

end LispReader
