import LispReader.Proofs.Cursor.Steps

/-!
# Reading in place by rule

A reading in place imitates a rule where, with enough fuel, it ends like the rule on the input ahead,
with the same reports, and passes what the rule reads. `Reading.Refines` asks for it wherever a number
of levels is left; each way to build a rule has one lemma.
-/

namespace LispReader

open Grammar

/-- The token to blame; at the end of the input, that is `last`. -/
def Grammar.Report.blame (last : Token) (report : Report) : Blame :=
  ⟨report.problem, report.place.head?.getD last⟩

namespace Reading

variable {α β σ : Type} {c c₁ : Cursor} {input rest : List Token} {last token : Token}

/-- On `c`, the reading does what the rule does on the input ahead. -/
def Imitates (m : Nat → Reading α) (r : Rule α) (c : Cursor) (input : List Token) (last : Token) :
    Prop :=
  ∃ c', Finishes m c ((r.run input).result.mapError (·.blame last)) c' ∧
    c.Passes last input (r.run input).rest (r.run input).reports c'

/-- The reading imitates the rule wherever `levels` more levels may be opened. -/
def Refines (levels : Nat) (m : Nat → Reading α) (r : Rule α) : Prop :=
  ∀ ⦃c input last⦄, c.Ahead input last → c.depth + levels = maxNesting → Imitates m r c input last

theorem imitates_succ {m body : Nat → Reading α} {r : Rule α} (step : ∀ fuel, m (fuel + 1) = body fuel)
    (h : Imitates body r c input last) : Imitates m r c input last := by
  obtain ⟨c', finishes, passes⟩ := h
  exact ⟨c', Machine.finishes_succ step finishes, passes⟩

theorem refines_succ {levels : Nat} {m body : Nat → Reading α} {r : Rule α}
    (step : ∀ fuel, m (fuel + 1) = body fuel) (h : Refines levels body r) : Refines levels m r :=
  fun _ _ _ ahead room => imitates_succ step (h ahead room)

/-! ### Steps in sequence -/

theorem imitates_pure (h : c.Ahead input last) (a : α) :
    Imitates (fun _ => pure a) (pure a) c input last := ⟨c, finishes_of_ends (ends_pure a c), .refl h⟩

theorem imitates_bind {m : Nat → Reading α} {r : Rule α} {k : α → Nat → Reading β} {f : α → Rule β}
    (first : Imitates m r c input last)
    (second : ∀ a c₁, (r.run input).result = .ok a →
      c.Passes last input (r.run input).rest (r.run input).reports c₁ →
      Imitates (k a) (f a) c₁ (r.run input).rest last) :
    Imitates (fun fuel => m fuel >>= fun a => k a fuel) (r >>= f) c input last := by
  obtain ⟨c₁, finishes, passes⟩ := first
  unfold Imitates
  rw [Rule.run_bind, Reply.andThen]
  cases result : (r.run input).result with
  | error report =>
    rw [result] at finishes
    exact ⟨c₁, finishes_bind_error finishes, passes⟩
  | ok a =>
    rw [result] at finishes
    obtain ⟨c₂, finishes', passes'⟩ := second a c₁ result passes
    exact ⟨c₂, finishes_bind_ok finishes finishes', passes.trans passes'⟩

theorem imitates_lift_bind {m : Machine α} {a : α} {k : α → Nat → Reading β} {r : Rule β}
    (first : m.Ends c a c) (second : Imitates (k a) r c input last) :
    Imitates (fun fuel => liftM m >>= fun a => k a fuel) r c input last := by
  obtain ⟨c', finishes, passes⟩ := second
  exact ⟨c', finishes_bind_ok (finishes_of_ends (ends_lift first)) finishes, passes⟩

theorem imitates_ahead_bind {m : Nat → Reading β} {f : List Token → Rule β}
    (h : Imitates m (f input) c input last) : Imitates m (Rule.ahead >>= f) c input last := h

theorem refines_pure (levels : Nat) (a : α) : Refines levels (fun _ => pure a) (pure a) :=
  fun _ _ _ h _ => imitates_pure h a

theorem refines_bind {levels : Nat} {m : Nat → Reading α} {r : Rule α} {k : α → Nat → Reading β}
    {f : α → Rule β} (first : Refines levels m r) (second : ∀ a, Refines levels (k a) (f a)) :
    Refines levels (fun fuel => m fuel >>= fun a => k a fuel) (r >>= f) := by
  intro c input last h room
  apply imitates_bind (first h room)
  intro a c₁ _ passes
  exact second a passes.ahead (passes.depth ▸ room)

/-! ### Single tokens -/

theorem refines_blame (levels : Nat) (problem : Problem) :
    Refines levels (fun _ => (blame problem : Reading α)) (Rule.ahead >>= Rule.stop problem) := by
  intro c input last h _
  apply imitates_lift_bind (Machine.ends_peek h)
  exact ⟨c, finishes_of_ends (ends_throw _ c), .refl h⟩

theorem imitates_report (h : c.Ahead input last) (problem : Problem) (place : List Token) :
    Imitates (fun _ => liftM (Machine.report (place.head?.getD last) problem))
      (Rule.note problem place) c input last := by
  refine ⟨_, finishes_of_ends (ends_lift (Machine.ends_ofStep rfl)), ?_⟩
  exact ⟨h.of_eq rfl rfl, rfl, rfl, rfl, rfl, [], (List.append_nil _).symm, .nil _⟩

theorem ends_accept_none {select : Token → Option σ} (h : c.Ahead input last)
    (skips : input.head?.bind select = none) : (accept select).Ends c (.ok none) c := by
  apply ends_bind_ok (ends_lift (Machine.ends_isAtEnd h))
  cases input with
  | nil => exact ends_pure none c
  | cons token rest =>
    apply ends_bind_ok (ends_lift (Machine.ends_peek h))
    rw [List.head?_cons, Option.getD_some, show select token = none from skips]
    exact ends_pure none c

theorem ends_accept_some {select : Token → Option σ} {s : σ} (h : c.Ahead (token :: rest) last)
    (takes : select token = some s) : (accept select).Ends c (.ok (some s)) c.forward := by
  apply ends_bind_ok (ends_lift (Machine.ends_isAtEnd h))
  apply ends_bind_ok (ends_lift (Machine.ends_peek h))
  rw [List.head?_cons, Option.getD_some, takes]
  apply ends_bind_ok (ends_lift (Machine.ends_advance h))
  rw [takes]
  exact ends_pure (some s) c.forward

theorem run_accept_bind_none {select : Token → Option σ} (skips : input.head?.bind select = none)
    (f : Option σ → Rule β) : (Rule.accept select >>= f).run input = (f none).run input := by
  cases input with
  | nil => rfl
  | cons token rest =>
    have skips : select token = none := skips
    simp [Rule.accept, skips, Reply.andThen]

theorem run_accept_bind_some {select : Token → Option σ} {s : σ} (takes : select token = some s)
    (f : Option σ → Rule β) :
    (Rule.accept select >>= f).run (token :: rest) = (f (some s)).run rest := by
  simp [Rule.accept, takes, Reply.andThen]

theorem imitates_accept_bind {select : Token → Option σ} {k : Option σ → Nat → Reading β}
    {f : Option σ → Rule β} (h : c.Ahead input last) (shallow : c.depth ≤ maxNesting)
    (skipped : Imitates (k none) (f none) c input last)
    (taken : ∀ token rest s, input = token :: rest → select token = some s →
      c.forward.Ahead rest last → Imitates (k (some s)) (f (some s)) c.forward rest last) :
    Imitates (fun fuel => accept select >>= fun found => k found fuel) (Rule.accept select >>= f) c
      input last := by
  unfold Imitates
  cases takes : input.head?.bind select with
  | none =>
    obtain ⟨c', finishes, passes⟩ := skipped
    rw [run_accept_bind_none takes]
    exact ⟨c', finishes_bind_ok (finishes_of_ends (ends_accept_none h takes)) finishes, passes⟩
  | some s =>
    obtain ⟨token, head, takes⟩ := Option.bind_eq_some_iff.mp takes
    obtain ⟨rest, rfl⟩ := List.head?_eq_some_iff.mp head
    obtain ⟨c', finishes, passes⟩ := taken token rest s rfl takes h.forward
    rw [run_accept_bind_some takes]
    exact ⟨c', finishes_bind_ok (finishes_of_ends (ends_accept_some h takes)) finishes,
      (h.passes_forward shallow).trans passes⟩

theorem refines_accept_bind {levels : Nat} {select : Token → Option σ}
    {k : Option σ → Nat → Reading β} {f : Option σ → Rule β}
    (skipped : Refines levels (k none) (f none))
    (taken : ∀ s, Refines levels (k (some s)) (f (some s))) :
    Refines levels (fun fuel => accept select >>= fun found => k found fuel)
      (Rule.accept select >>= f) := by
  intro c input last h room
  apply imitates_accept_bind h (Nat.le.intro room) (skipped h room)
  intro _ _ s _ _ ahead
  exact taken s ahead room

theorem refines_expect (levels : Nat) (kind : Token.Kind) (problem : Problem) :
    Refines levels (fun _ => expect kind problem) (Rule.expect kind problem) := by
  apply refines_accept_bind
  · exact refines_blame levels problem
  · exact refines_pure levels

/-! ### Repetition -/

theorem refines_foldWhile {levels : Nat} {loop : Nat → α → Reading α} {select : Token → Option σ}
    {turn : Nat → α → Option σ → Reading α} {round : α → σ → Nat → Reading α} {step : α → σ → Rule α}
    (unroll : ∀ acc fuel, loop (fuel + 1) acc = accept select >>= turn fuel acc)
    (stops : ∀ fuel acc, turn fuel acc none = pure acc)
    (goes : ∀ fuel acc s, turn fuel acc (some s) = round acc s fuel >>= loop fuel)
    (refines : ∀ acc s, Refines levels (round acc s) (step acc s)) (acc : α) :
    Refines levels (fun fuel => loop fuel acc) (Rule.foldWhile select step acc) := by
  intro c input
  induction length : input.length using Nat.strongRecOn generalizing c input acc with
  | ind size ih =>
    intro last h room
    rw [Rule.foldWhile_eq]
    apply imitates_succ (unroll acc)
    apply imitates_accept_bind h (Nat.le.intro room)
    · simp only [stops]
      exact imitates_pure h acc
    · intro token rest s eq _ ahead
      simp only [goes]
      apply imitates_bind (refines acc s ahead room)
      intro next c₁ _ passes
      have shorter : ((step acc s).run rest).rest.length < size := by
        have := (step acc s).rest_length rest
        rw [← length, eq, List.length_cons]
        omega
      exact ih _ shorter next rfl passes.ahead (passes.depth ▸ room)

theorem refines_noteExcess (levels : Nat) (tooMany : Problem) (count : Nat) :
    Refines levels (fun _ => noteExcess tooMany count) (Grammar.noteExcess tooMany count) := by
  unfold noteExcess Grammar.noteExcess
  intro c input last h room
  by_cases full : count = maxListLength
  · simp only [if_pos full]
    apply imitates_lift_bind (Machine.ends_peek h)
    exact imitates_report h tooMany input
  · simp only [if_neg full]
    exact imitates_pure h ()

theorem refines_listOf {levels : Nat} {item : Nat → Reading α} {r : Rule α} {tooMany : Problem}
    {more : Nat → List α → Reading (List α)} {turn : Nat → List α → Option Token → Reading (List α)}
    (unroll : ∀ items fuel, more (fuel + 1) items = accept (Rule.ofKind .comma) >>= turn fuel items)
    (stops : ∀ fuel items, turn fuel items none = pure items)
    (goes : ∀ fuel items comma, turn fuel items (some comma) = do
      noteExcess tooMany items.length
      more fuel (items ++ [← item fuel]))
    (refines : Refines levels item r) :
    Refines levels
      (fun fuel => do
        if ← Machine.check .rightParen then return []
        more fuel [← item fuel]) (listOf r tooMany) := by
  have round (items : List α) : Refines levels
      (fun fuel => do
        noteExcess tooMany items.length
        return items ++ [← item fuel]) (listRound r tooMany items) := by
    apply refines_bind (refines_noteExcess levels tooMany items.length)
    intro _
    apply refines_bind refines
    intro next
    exact refines_pure levels _
  have loop (first : α) : Refines levels (fun fuel => more fuel [first])
      (Rule.foldWhile (Rule.ofKind .comma) (fun items _ => listRound r tooMany items) [first]) := by
    apply refines_foldWhile unroll stops _ fun items _ => round items
    intro fuel items comma
    rw [goes]
    simp only [bind_assoc, pure_bind]
  rw [listOf_eq]
  intro c input last h room
  apply imitates_lift_bind (Machine.ends_check h .rightParen)
  apply imitates_ahead_bind
  by_cases closes : input.head?.any (·.kind = .rightParen)
  · simp only [if_pos closes]
    exact imitates_pure h []
  · simp only [if_neg closes]
    exact refines_bind refines loop h room

theorem refines_manyUntil {levels : Nat} {loop : Nat → Reading (List α)} {stop : Machine Bool}
    {m : Nat → Reading (Option α)} {closes : Token → Bool} {r : Rule (Option α)}
    {advances : r.Advances}
    (unroll : ∀ fuel, loop (fuel + 1) = do
      if ← stop then return []
      let found ← m fuel
      return found.toList ++ (← loop fuel))
    (stops : ∀ ⦃c input last⦄, c.Ahead input last → stop.Ends c (input.head?.all closes) c)
    (imitates : ∀ ⦃c token rest last⦄, c.Ahead (token :: rest) last →
      c.depth + levels = maxNesting → Imitates m r c (token :: rest) last) :
    Refines levels loop (Rule.manyUntil closes r advances) := by
  intro c input
  induction length : input.length using Nat.strongRecOn generalizing c input with
  | ind size ih =>
    intro last h room
    rw [Rule.manyUntil_eq]
    apply imitates_succ unroll
    apply imitates_lift_bind (stops h)
    apply imitates_ahead_bind
    by_cases closed : input.head?.all closes
    · simp only [if_pos closed]
      exact imitates_pure h []
    · simp only [if_neg closed]
      cases input with
      | nil => exact absurd rfl closed
      | cons token rest =>
        apply imitates_bind (imitates h room)
        intro found c₁ _ passes
        have shorter : (r.run (token :: rest)).rest.length < size :=
          length ▸ Nat.lt_succ_of_le (advances token rest)
        apply imitates_bind (ih _ shorter rfl passes.ahead (passes.depth ▸ room))
        intro more c₂ _ passes
        exact imitates_pure passes.ahead _

/-! ### Nesting -/

theorem ends_enter (room : c.depth ≠ maxNesting) :
    enter.Ends c (.ok ()) (c.setDepth (c.depth + 1)) := by
  apply ends_bind_ok (ends_lift (Machine.ends_ofStep rfl))
  rw [if_neg room]
  exact ends_lift (Machine.ends_ofStep rfl)

theorem ends_enter_full (h : c.Ahead input last) (full : c.depth = maxNesting) :
    enter.Ends c (.error ⟨.nestingTooDeep, input.head?.getD last⟩) c := by
  apply ends_bind_ok (ends_lift (Machine.ends_ofStep rfl))
  rw [if_pos full]
  apply ends_bind_error
  apply ends_bind_ok (ends_lift (Machine.ends_peek h))
  exact ends_throw _ c

theorem ends_closing {m : Reading α} {outcome : Except Blame α} {below : Nat}
    (ends : m.Ends c outcome c₁) (opened : c₁.depth = below + 1) :
    (closing m).Ends c outcome (c₁.setDepth below) := by
  have closed : Machine.closeLevel.Ends c₁ () (c₁.setDepth below) :=
    Machine.ends_ofStep (by rw [opened])
  exact Machine.ends_bind ends (Machine.ends_bind closed (Machine.ends_pure outcome _))

theorem refines_nested_none (m : Nat → Reading α) :
    Refines 0 (fun fuel => nested (m fuel)) Rule.tooDeep := by
  intro c input last h full
  refine ⟨c, ?_, .refl h⟩
  exact finishes_bind_error (finishes_of_ends (ends_enter_full h full))

theorem refines_nested {levels : Nat} {m : Nat → Reading α} {r : Rule α}
    (refines : Refines levels m r) : Refines (levels + 1) (fun fuel => nested (m fuel)) r := by
  intro c input last h room
  have inner : (c.setDepth (c.depth + 1)).Ahead input last := h.of_eq rfl rfl
  have innerRoom : (c.setDepth (c.depth + 1)).depth + levels = maxNesting := by
    show c.depth + 1 + levels = maxNesting
    omega
  obtain ⟨c', ⟨enough, ends⟩, passes⟩ := refines inner innerRoom
  have entered : enter.Ends c (.ok ()) (c.setDepth (c.depth + 1)) := ends_enter (by omega)
  refine ⟨c'.setDepth c.depth, ?_, passes.closed (by omega)⟩
  exact ⟨enough, fun fuel le => ends_bind_ok entered (ends_closing (ends fuel le) passes.depth)⟩

/-! ### Recovery -/

theorem opensDeclaration_cons (token : Token) (rest : List Token) :
    Rule.opensDeclaration (token :: rest) =
      (token.kind = .keyword .cond || opensDefinition (token :: rest)) := by
  cases rest with
  | nil => simp [Rule.opensDeclaration, opensDefinition]
  | cons next rest => rfl

theorem ends_mayResume {next : Token} (h : c.Ahead (token :: next :: rest) last) :
    Machine.mayResume.Ends c.forward
      (token.kind = .semicolon || Rule.opensDeclaration (next :: rest)) c.forward := by
  apply Machine.ends_bind (Machine.ends_previous_forward h)
  by_cases semicolon : token.kind = .semicolon
  · simpa [semicolon] using Machine.ends_pure true c.forward
  rw [if_neg semicolon, opensDeclaration_cons]
  apply Machine.ends_bind (Machine.ends_check h.forward (.keyword .cond))
  by_cases cond : next.kind = .keyword .cond
  · simpa [cond] using Machine.ends_pure true c.forward
  · simpa [semicolon, cond] using Machine.ends_startsDefinition h.forward

theorem finishes_resume_end (h : c.Ahead [] last) : Machine.Finishes Machine.resume c () c := by
  refine Machine.finishes_succ (fun _ => rfl) ⟨0, fun fuel _ => ?_⟩
  exact Machine.ends_bind (Machine.ends_isAtEnd h) (Machine.ends_pure () c)

/-- Skipping, behind its first token. -/
theorem finishes_resume (h : c.Ahead (token :: rest) last) (shallow : c.depth ≤ maxNesting) :
    ∃ c', Machine.Finishes Machine.resume c.forward () c' ∧
      c.Passes last (token :: rest) (Rule.resume (token :: rest)) [] c' := by
  have passes := h.passes_forward shallow
  induction rest generalizing c token with
  | nil =>
    have stopped : Rule.resume [token] = [] := by simp [Rule.resume]
    rw [stopped]
    exact ⟨c.forward, finishes_resume_end h.forward, passes⟩
  | cons next rest ih =>
    have going := Machine.ends_isAtEnd h.forward
    have decided := ends_mayResume h
    rw [Rule.resume]
    by_cases stops : (token.kind = .semicolon || Rule.opensDeclaration (next :: rest)) = true
    · rw [stops] at decided
      rw [if_pos stops]
      refine ⟨c.forward, Machine.finishes_succ (fun _ => rfl) ⟨0, fun fuel _ => ?_⟩, passes⟩
      exact Machine.ends_bind going (Machine.ends_bind decided (Machine.ends_pure () _))
    · obtain ⟨c', ⟨enough, ends⟩, later⟩ := ih h.forward shallow (h.forward.passes_forward shallow)
      rw [Bool.eq_false_iff.mpr stops] at decided
      rw [if_neg stops]
      refine ⟨c', Machine.finishes_succ (fun _ => rfl) ⟨enough, fun fuel le => ?_⟩,
        passes.trans later⟩
      apply Machine.ends_bind going
      apply Machine.ends_bind decided
      exact Machine.ends_bind (Machine.ends_advance h.forward) (ends fuel le)

/-- Where a rule stopped, one token is skipped before the rest; at the end there is none to skip. -/
theorem finishes_skip (h : c.Ahead rest last) (moved : rest = [] → 0 < c.index)
    (shallow : c.depth ≤ maxNesting) :
    ∃ skipped c₁ c', Machine.advance.Ends c skipped c₁ ∧
      Machine.Finishes Machine.resume c₁ () c' ∧ c.Passes last rest (Rule.resume rest) [] c' := by
  cases rest with
  | nil =>
    obtain ⟨before, back⟩ := Machine.ends_previous h (moved rfl)
    have stays : Machine.advance.Ends c before c := Machine.ends_bind (Machine.ends_isAtEnd h) back
    exact ⟨before, c, c, stays, finishes_resume_end h, .refl h⟩
  | cons token rest =>
    obtain ⟨c', finishes, passes⟩ := finishes_resume h shallow
    exact ⟨token, c.forward, c', Machine.ends_advance h, finishes, passes⟩

theorem imitates_recovering {m : Nat → Reading α} {r : Rule α} (shallow : c.depth ≤ maxNesting)
    (h : Imitates m r c (token :: rest) last) :
    Imitates (fun fuel => recovering fuel (m fuel)) (Rule.recovering r) c (token :: rest) last := by
  obtain ⟨c₁, finishes, passes⟩ := h
  unfold Imitates Rule.recovering
  cases result : (r.run (token :: rest)).result with
  | ok a =>
    rw [result] at finishes
    simp only [result]
    refine ⟨c₁, Machine.finishes_bind finishes ?_, passes⟩
    exact Machine.finishes_of_ends (Machine.ends_pure _ c₁)
  | error report =>
    rw [result] at finishes
    simp only [result]
    have noted : (Machine.report (report.blame last).token (report.blame last).problem).Ends c₁ ()
        (c₁.addDiagnostic (Parse.diagnose last report)) := Machine.ends_ofStep rfl
    have reported := passes.report report
    have moved : (r.run (token :: rest)).rest = [] →
        0 < (c₁.addDiagnostic (Parse.diagnose last report)).index := by
      intro none
      have index := reported.index
      rw [none, List.length_nil, List.length_cons] at index
      omega
    obtain ⟨skipped, c₂, c', advance, resume, passes'⟩ :=
      finishes_skip reported.ahead moved (reported.depth ▸ shallow)
    refine ⟨c', ?_, ?_⟩
    · apply Machine.finishes_bind finishes
      apply Machine.finishes_bind (Machine.finishes_of_ends noted)
      apply Machine.finishes_bind (Machine.finishes_of_ends advance)
      apply Machine.finishes_bind resume
      exact Machine.finishes_of_ends (Machine.ends_pure _ c')
    · simpa using reported.trans passes'

end Reading

end LispReader
