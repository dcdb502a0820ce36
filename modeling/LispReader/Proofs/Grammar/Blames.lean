import LispReader.Proofs.Grammar.Parts

/-!
# What rules blame

The place of a fatal report never lies behind the input that is left when the rule stops, and recovery
skips a token of that input. So from one fatal report to the next there is less input from the blamed
token on, until the end is blamed; then nothing is left to read, and only the declarations that are
still open can blame the end again. The levels that the rules have left bound their number.
-/

namespace LispReader.Grammar

/-- From `high` down to `low`, each number less than the one before it, except that 0 may repeat. -/
inductive Falls : Nat → List Nat → Nat → Prop where
  | stays {high low : Nat} : low ≤ high → Falls high [] low
  | drops {high n low : Nat} {more : List Nat} :
    n ≤ high → Falls (n - 1) more low → Falls high (n :: more) low

namespace Falls

variable {high mid low : Nat} {ns ms : List Nat}

theorem of_le (h : Falls mid ns low) (le : mid ≤ high) : Falls high ns low := by
  cases h with
  | stays below => exact .stays (Nat.le_trans below le)
  | drops below more => exact .drops (Nat.le_trans below le) more

theorem append (h : Falls high ns mid) (h' : Falls mid ms low) : Falls high (ns ++ ms) low := by
  induction h with
  | stays le => exact h'.of_le le
  | drops le _ ih => exact .drops le (ih h')

theorem low_le (h : Falls high ns low) : low ≤ high := by
  induction h with
  | stays le => exact le
  | drops le _ ih => omega

theorem le_high (h : Falls high ns low) : ∀ n ∈ ns, n ≤ high := by
  induction h with
  | stays => simp
  | drops le _ ih => exact List.forall_mem_cons.mpr ⟨le, fun n known => by have := ih n known; omega⟩

/-- There is nothing below 0. -/
theorem low_eq_zero (h : Falls high ns low) (known : 0 ∈ ns) : low = 0 := by
  induction h with
  | stays => simp at known
  | drops _ more ih =>
    rcases List.mem_cons.mp known with rfl | known
    · exact Nat.le_zero.mp more.low_le
    · exact ih known

theorem pairwise (h : Falls high ns low) : ns.Pairwise fun n m => m < n ∨ n = 0 ∧ m = 0 := by
  induction h with
  | stays => exact .nil
  | drops _ more ih =>
    refine ih.cons fun m known => ?_
    have := more.le_high m known
    omega

theorem length_le (h : Falls high ns low) : ns.length ≤ high + ns.count 0 := by
  induction h with
  | stays => exact Nat.zero_le _
  | @drops _ n _ _ _ _ ih =>
    rw [List.length_cons, List.count_cons]
    cases n with
    | zero => simp only [BEq.rfl, ↓reduceIte]; omega
    | succ n => simp only [Nat.succ_ne_zero, beq_iff_eq, ↓reduceIte]; omega

end Falls

/-! ### Replies -/

namespace Reply

variable {α β : Type}

/-- How much input there is from each fatally blamed token on. -/
def heights (reply : Reply α) : List Nat :=
  (reply.reports.filter (·.problem.isFatal)).map (·.place.length)

/-- How much input there is from where the reply leaves off: from what it blames on, or what is left. -/
def height (reply : Reply α) : Nat :=
  match reply.result with
  | .ok _ => reply.rest.length
  | .error report => report.place.length

theorem height_of_ok {reply : Reply α} {a : α} (ok : reply.result = .ok a) :
    reply.height = reply.rest.length := by
  rw [height, ok]

theorem height_of_error {reply : Reply α} {report : Report} (error : reply.result = .error report) :
    reply.height = report.place.length := by
  rw [height, error]

/-- All reports of the reply blame a token or the end of `whole`, the fatal ones fall from `high` on,
and at most `ends` of them blame the end. -/
structure Blames (reply : Reply α) (whole : List Token) (high ends : Nat) : Prop where
  placed : ∀ report ∈ reply.reports, report.place <:+ whole
  falls : Falls high reply.heights reply.height
  few : reply.heights.count 0 ≤ ends
  stops : ∀ report, reply.result = .error report → report.problem.isFatal = true ∧
    report.place <:+ whole ∧ reply.rest.length ≤ report.place.length

variable {whole : List Token} {high ends : Nat}

theorem Blames.mono {reply : Reply α} (h : reply.Blames whole high ends) {whole' : List Token}
    (suffix : whole <:+ whole') {high' : Nat} (le : high ≤ high') : reply.Blames whole' high' ends where
  placed report known := (h.placed report known).trans suffix
  falls := h.falls.of_le le
  few := h.few
  stops report error := by
    obtain ⟨fatal, placed, most⟩ := h.stops report error
    exact ⟨fatal, placed.trans suffix, most⟩

theorem blames_ok (a : α) {rest : List Token} (le : rest.length ≤ high) :
    (Reply.mk (.ok a) [] rest).Blames whole high ends where
  placed := by simp
  falls := .stays le
  few := Nat.zero_le _
  stops _ error := by cases error

theorem blames_map {first : Reply α} (h : first.Blames whole high ends) (f : α → β) :
    (Reply.mk (first.result.map f) first.reports first.rest).Blames whole high ends := by
  obtain ⟨result, reports, rest⟩ := first
  cases result with
  | ok a => exact ⟨h.placed, h.falls, h.few, fun _ error => by cases error⟩
  | error report =>
    refine ⟨h.placed, h.falls, h.few, fun _ error => ?_⟩
    obtain rfl := Except.error.inj error
    exact h.stops report rfl

/-- What is read on from a reply with a value adds its own reports. -/
theorem Blames.after {first : Reply α} {a : α} (h : first.Blames whole high ends)
    (ok : first.result = .ok a) {second : Reply β} {ends' : Nat}
    (h' : second.Blames whole first.rest.length ends') {total : Nat}
    (few : first.heights.count 0 + second.heights.count 0 ≤ total) :
    (Reply.mk second.result (first.reports ++ second.reports) second.rest).Blames whole high total := by
  have heights : (Reply.mk second.result (first.reports ++ second.reports) second.rest).heights =
      first.heights ++ second.heights := by
    simp only [Reply.heights, List.filter_append, List.map_append]
  refine ⟨List.forall_mem_append.mpr ⟨h.placed, h'.placed⟩, ?_, ?_, h'.stops⟩
  · rw [heights]
    have falls := h.falls
    rw [height_of_ok ok] at falls
    exact falls.append h'.falls
  · rw [heights, List.count_append]
    exact few

theorem Blames.fails {first : Reply α} {report : Report} (h : first.Blames whole high ends)
    (error : first.result = .error report) {total : Nat} (le : ends ≤ total) :
    (Reply.mk (.error report) first.reports first.rest : Reply β).Blames whole high total := by
  refine ⟨h.placed, ?_, Nat.le_trans h.few le, ?_⟩
  · have falls := h.falls
    rwa [height_of_error error] at falls
  · rintro _ ⟨⟩
    exact h.stops report error

theorem Blames.andThen {first : Reply α} {f : α → List Token → Reply β} {ends' : Nat}
    (h : first.Blames whole high ends)
    (h' : ∀ a, first.result = .ok a → (f a first.rest).Blames whole first.rest.length ends') :
    (first.andThen f).Blames whole high (ends + ends') := by
  unfold Reply.andThen
  split
  · rename_i a ok
    exact h.after ok (h' a ok) (Nat.add_le_add h.few (h' a ok).few)
  · rename_i report error
    exact h.fails error (Nat.le_add_right ends ends')

end Reply

namespace Rule

variable {α β σ : Type} {ends : Nat}

/-- Whatever the input, the reports blame a token or the end of it, and at most `ends` of the fatal
ones blame the end. -/
def Blames (r : Rule α) (ends : Nat) : Prop :=
  ∀ input, (r.run input).Blames input input.length ends

theorem Blames.mono {r : Rule α} (h : r.Blames ends) {most : Nat} (le : ends ≤ most) : r.Blames most :=
  fun input => { h input with few := Nat.le_trans (h input).few le }

/-! ### Steps in sequence -/

theorem blames_pure (a : α) : (pure a : Rule α).Blames ends :=
  fun _ => Reply.blames_ok a (Nat.le_refl _)

theorem blames_bind_add {r : Rule α} {f : α → Rule β} {ends' : Nat} (first : r.Blames ends)
    (second : ∀ a, (f a).Blames ends') : (r >>= f).Blames (ends + ends') := by
  intro input
  refine (first input).andThen fun a _ => ?_
  exact (second a _).mono (r.rest_suffix input) (Nat.le_refl _)

/-- A rule without recovery in it comes first. -/
theorem blames_bind {r : Rule α} {f : α → Rule β} (first : r.Blames 0)
    (second : ∀ a, (f a).Blames ends) : (r >>= f).Blames ends :=
  Nat.zero_add ends ▸ blames_bind_add first second

/-- A rule without recovery in it comes last. -/
theorem blames_bind_last {r : Rule α} {f : α → Rule β} (first : r.Blames ends)
    (second : ∀ a, (f a).Blames 0) : (r >>= f).Blames ends :=
  blames_bind_add first second

theorem blames_ahead_bind {f : List Token → Rule α}
    (h : ∀ input, ((f input).run input).Blames input input.length ends) : (ahead >>= f).Blames ends :=
  h

/-- Reading a token makes no report, so what `f` may blame is not bounded by it. -/
theorem blames_run_accept_bind {select : Token → Option σ} {f : Option σ → Rule α}
    {input whole : List Token} {high : Nat}
    (taken : ∀ token s rest, input = token :: rest → select token = some s →
      ((f (some s)).run rest).Blames whole high ends)
    (left : ((f none).run input).Blames whole high ends) :
    ((accept select >>= f).run input).Blames whole high ends := by
  rw [run_bind]
  rcases run_accept select input with same | ⟨token, s, rest, cons, found, same⟩
  · rw [same]
    exact left
  · rw [same]
    exact taken token s rest cons found

theorem blames_accept_bind {select : Token → Option σ} {f : Option σ → Rule α}
    (h : ∀ found, (f found).Blames ends) : (accept select >>= f).Blames ends := by
  intro input
  refine blames_run_accept_bind (fun token s rest cons _ => ?_) (h none input)
  subst cons
  exact (h (some s) rest).mono (List.suffix_cons _ _) (Nat.le_succ _)

theorem blames_acceptPair_bind {first second : Token.Kind} {f : Bool → Rule α}
    (h : ∀ found, (f found).Blames ends) : (acceptPair first second >>= f).Blames ends := by
  intro input
  rw [run_bind]
  rcases run_acceptPair first second input with same | ⟨a, b, rest, rfl, -, -, same⟩
  · rw [same]
    exact h false input
  · rw [same]
    have suffix : rest <:+ a :: b :: rest := (List.suffix_cons _ _).trans (List.suffix_cons _ _)
    exact (h true rest).mono suffix suffix.length_le

/-! ### Reports -/

theorem blames_run_stop {problem : Problem} (fatal : problem.isFatal = true)
    {place input whole : List Token} (placed : place <:+ whole) (before : input <:+ place) {high : Nat}
    (le : place.length ≤ high) :
    ((stop problem place : Rule α).run input).Blames whole high ends where
  placed := by simp [stop]
  falls := .stays le
  few := Nat.zero_le _
  stops _ error := by
    obtain rfl := Except.error.inj error
    exact ⟨fatal, placed, before.length_le⟩

/-- A report that does not stop the rule blames nothing fatally. -/
theorem blames_run_note_bind {problem : Problem} (mild : problem.isFatal = false)
    {place input whole : List Token} (placed : place <:+ whole) {high : Nat} {r : Rule α}
    (h : (r.run input).Blames whole high ends) :
    ((note problem place >>= fun _ => r).run input).Blames whole high ends := by
  have heights : ((note problem place >>= fun _ => r).run input).heights = (r.run input).heights := by
    show ((⟨problem, place⟩ :: (r.run input).reports).filter _).map _ = _
    rw [List.filter_cons_of_neg (by simp [mild]), Reply.heights]
  refine ⟨List.forall_mem_cons.mpr ⟨placed, h.placed⟩, ?_, ?_, h.stops⟩
  · rw [heights]
    exact h.falls
  · rw [heights]
    exact h.few

theorem blames_expect (kind : Token.Kind) {problem : Problem} (fatal : problem.isFatal = true) :
    (expect kind problem).Blames 0 := by
  apply blames_accept_bind
  rintro (_ | token)
  · exact blames_ahead_bind fun input =>
      blames_run_stop fatal List.suffix_rfl List.suffix_rfl (Nat.le_refl _)
  · exact blames_pure token

theorem blames_tooDeep : (tooDeep : Rule α).Blames 0 :=
  blames_ahead_bind fun _ => blames_run_stop rfl List.suffix_rfl List.suffix_rfl (Nat.le_refl _)

/-! ### Repetition -/

theorem blames_foldWhile {select : Token → Option σ} {step : α → σ → Rule α}
    (round : ∀ acc s, (step acc s).Blames 0) (acc : α) : (foldWhile select step acc).Blames 0 := by
  intro input
  show (foldWhile.run select step acc input).Blames input input.length 0
  fun_induction foldWhile.run select step acc input with
  | case1 acc => exact Reply.blames_ok acc (Nat.le_refl _)
  | case2 acc => exact Reply.blames_ok acc (Nat.le_refl _)
  | case3 acc token rest s same round' report error =>
    have blames : round'.Blames rest rest.length 0 := round acc s rest
    have whole := blames.mono (List.suffix_cons token rest) (Nat.le_succ _)
    exact whole.fails error (Nat.le_refl 0)
  | case4 acc token rest s same round' next ok more ih =>
    have blames : round'.Blames rest rest.length 0 := round acc s rest
    have suffix : round'.rest <:+ token :: rest :=
      ((step acc s).rest_suffix rest).trans (List.suffix_cons token rest)
    have whole := blames.mono (List.suffix_cons token rest) (Nat.le_succ _)
    exact whole.after ok (ih.mono suffix (Nat.le_refl _)) (Nat.add_le_add whole.few ih.few)

theorem blames_noteExcess_bind {tooMany : Problem} (mild : tooMany.isFatal = false) (count : Nat)
    {r : Rule α} (h : r.Blames ends) : (noteExcess tooMany count >>= fun _ => r).Blames ends := by
  unfold noteExcess
  split
  · rw [bind_assoc]
    exact blames_ahead_bind fun input => blames_run_note_bind mild List.suffix_rfl (h input)
  · rw [pure_bind]
    exact h

theorem blames_listOf {item : Rule α} (h : item.Blames 0) {tooMany : Problem}
    (mild : tooMany.isFatal = false) : (listOf item tooMany).Blames 0 := by
  rw [listOf_eq]
  refine blames_ahead_bind fun input => ?_
  split
  · exact blames_pure [] input
  · refine blames_bind h (fun first => ?_) input
    refine blames_foldWhile (fun items _ => ?_) [first]
    apply blames_noteExcess_bind mild
    exact blames_bind h fun next => blames_pure _

theorem length_resume (input : List Token) : (resume input).length ≤ input.length - 1 := by
  cases input with
  | nil => exact Nat.le_refl 0
  | cons token rest => exact length_resume_cons token rest

theorem blames_recovering {r : Rule α} (h : r.Blames ends) : (recovering r).Blames (ends + 1) := by
  intro input
  have blames := h input
  unfold recovering
  dsimp only
  split
  · rename_i a ok
    refine ⟨blames.placed, ?_, Nat.le_succ_of_le blames.few, fun _ error => by cases error⟩
    have falls := blames.falls
    rwa [Reply.height_of_ok ok] at falls
  · rename_i report error
    obtain ⟨fatal, placed, most⟩ := blames.stops report error
    have heights : (Reply.mk (.ok none) ((r.run input).reports ++ [report])
        (resume (r.run input).rest) : Reply (Option α)).heights =
        (r.run input).heights ++ [report.place.length] := by
      simp [Reply.heights, fatal]
    refine ⟨?_, ?_, ?_, fun _ error => by cases error⟩
    · exact List.forall_mem_append.mpr ⟨blames.placed, by simpa using placed⟩
    · have falls := blames.falls
      rw [Reply.height_of_error error] at falls
      rw [heights]
      have skipped := length_resume (r.run input).rest
      refine falls.append (.drops (Nat.le_refl _) (.stays ?_))
      show (resume (r.run input).rest).length ≤ _
      omega
    · rw [heights, List.count_append]
      exact Nat.add_le_add blames.few List.count_le_length

/-- Where a round blames the end there is no further one. -/
theorem blames_manyUntil {closes : Token → Bool} {r : Rule (Option α)} {advances : r.Advances}
    (h : r.Blames ends) : (manyUntil closes r advances).Blames ends := by
  intro input
  show (manyUntil.run closes r advances input).Blames input input.length ends
  fun_induction manyUntil.run closes r advances input with
  | case1 => exact Reply.blames_ok [] (Nat.le_refl _)
  | case2 => exact Reply.blames_ok [] (Nat.le_refl _)
  | case3 token rest _ round report error =>
    have blames : round.Blames (token :: rest) (rest.length + 1) ends := h (token :: rest)
    exact blames.fails error (Nat.le_refl ends)
  | case4 token rest _ round found ok more ih =>
    have blames : round.Blames (token :: rest) (rest.length + 1) ends := h (token :: rest)
    have suffix : round.rest <:+ token :: rest := r.rest_suffix (token :: rest)
    refine blames.after ok (Reply.blames_map (ih.mono suffix (Nat.le_refl _)) _) ?_
    show round.heights.count 0 + more.heights.count 0 ≤ ends
    by_cases ended : 0 ∈ round.heights
    · have none : round.rest = [] := by
        have low := blames.falls.low_eq_zero ended
        rw [Reply.height_of_ok ok] at low
        exact List.eq_nil_of_length_eq_zero low
      have silent : more.heights = [] := by
        show (manyUntil.run closes r advances round.rest).heights = []
        rw [none, manyUntil.run]
        rfl
      rw [silent]
      exact blames.few
    · rw [List.count_eq_zero_of_not_mem ended, Nat.zero_add]
      exact ih.few

end Rule

/-! ### The rules -/

open Rule

/-- What the rules below blame. A function counts the declarations around it. -/
structure Nested.Blames (nested : Nested) (ends : Nat) : Prop where
  unary : nested.unary.Blames 0
  expr : nested.expr.Blames 0
  stmt : nested.stmt.Blames 0
  function (symbol : Symbol) : (nested.function symbol).Blames ends

section Rules

variable {nested : Nested} {ends : Nat} (h : nested.Blames ends)

include h

/-- A token without a fitting value is blamed though it is read already. -/
theorem blames_primary : (primary nested).Blames 0 := by
  refine blames_ahead_bind fun input => ?_
  have stops {rest : List Token} (suffix : rest <:+ input) :
      ((stop .expressionMissing input : Rule Expr).run rest).Blames input input.length 0 :=
    blames_run_stop rfl List.suffix_rfl suffix (Nat.le_refl _)
  refine blames_run_accept_bind (fun token start rest cons _ => ?_) (stops List.suffix_rfl)
  have suffix : rest <:+ input := cons ▸ List.suffix_cons token rest
  have here {r : Rule Expr} (h : r.Blames 0) : (r.run rest).Blames input input.length 0 :=
    (h rest).mono suffix suffix.length_le
  cases start with
  | constant value => exact here (blames_pure _)
  | name symbol => exact here (blames_pure _)
  | misfit => exact stops suffix
  | group =>
    apply here
    exact blames_bind h.expr fun _ => blames_bind (blames_expect _ rfl) fun _ => blames_pure _

theorem blames_call : (call nested).Blames 0 := by
  apply blames_bind (blames_primary h)
  intro callee
  refine blames_foldWhile (fun callee _ => ?_) callee
  apply blames_bind (blames_listOf h.expr rfl)
  intro args
  exact blames_bind (blames_expect _ rfl) fun _ => blames_pure _

theorem blames_unary : (unary nested).Blames 0 := by
  apply blames_accept_bind
  rintro (_ | sign)
  · exact blames_call h
  · exact blames_bind h.unary fun _ => blames_pure _

theorem blames_binary (rank : Nat) : (binary (unary nested) rank).Blames 0 := by
  induction rank with
  | zero => exact blames_unary h
  | succ rank ih =>
    apply blames_bind ih
    intro left
    exact blames_foldWhile (fun _ _ => blames_bind ih fun _ => blames_pure _) left

theorem blames_expression : (expression nested).Blames 0 := by
  apply blames_bind (blames_binary h Operator.ranks)
  intro left
  refine blames_ahead_bind fun input => ?_
  refine blames_run_accept_bind (fun token _ rest cons _ => ?_) (blames_pure left input)
  have suffix : rest <:+ input := cons ▸ List.suffix_cons token rest
  have first := (h.expr rest).mono suffix suffix.length_le
  -- The equals sign may be blamed when the value behind it is read already.
  have second (value : Expr) (rest : List Token) :
      ((assign left value input).run rest).Blames input rest.length 0 := by
    cases left with
    | name _ | get _ _ => exact Reply.blames_ok _ (Nat.le_refl _)
    | _ => exact blames_run_note_bind rfl List.suffix_rfl (Reply.blames_ok _ (Nat.le_refl _))
  show ((nested.expr.run rest).andThen fun value => (assign left value input).run).Blames _ _ 0
  exact first.andThen fun value _ => second value _

theorem blames_statement : (statement nested).Blames 0 := by
  apply blames_accept_bind
  rintro (_ | _)
  · exact blames_bind (blames_expression h) fun _ => blames_bind (blames_expect _ rfl) fun _ =>
      blames_pure _
  · apply blames_bind (blames_expect _ rfl)
    intro _
    apply blames_bind (blames_expression h)
    intro test
    apply blames_bind (blames_expect _ rfl)
    intro _
    apply blames_bind h.stmt
    intro yes
    apply blames_accept_bind
    rintro (_ | _)
    · exact blames_pure _
    · exact blames_bind h.stmt fun _ => blames_pure _

theorem blames_definition : (definition nested).Blames ends := by
  rw [definition_eq]
  have close (symbol : Symbol) (value : Option Expr) : (closeDefinition symbol value).Blames ends :=
    blames_bind (blames_expect _ rfl) fun _ => blames_pure _
  apply blames_bind (blames_expect _ rfl)
  intro name
  apply blames_accept_bind
  rintro (_ | _)
  · apply blames_accept_bind
    rintro (_ | _)
    · exact close _ none
    · exact blames_bind (blames_expression h) fun value => close _ (some value)
  · exact h.function _

theorem blames_declarations (closes : Token → Bool) :
    (declarations nested closes).Blames (ends + 1) := by
  apply blames_manyUntil
  apply blames_recovering
  apply blames_acceptPair_bind
  rintro (_ | _)
  · exact (blames_statement h).mono (Nat.zero_le ends)
  · exact blames_definition h

theorem blames_function (symbol : Symbol) : (function nested symbol).Blames (ends + 1) := by
  apply blames_bind
  · apply blames_listOf _ rfl
    exact blames_bind (blames_expect _ rfl) fun _ => blames_pure _
  intro params
  apply blames_bind (blames_expect _ rfl)
  intro _
  apply blames_bind_last (blames_declarations h _)
  intro body
  exact blames_bind (blames_expect _ rfl) fun _ => blames_pure _

end Rules

theorem blames_nestedWithin (levels : Nat) : (nestedWithin levels).Blames levels := by
  induction levels with
  | zero => exact ⟨blames_tooDeep, blames_tooDeep, blames_tooDeep, fun _ => blames_tooDeep⟩
  | succ levels ih =>
    exact ⟨blames_unary ih, blames_expression ih, blames_statement ih, blames_function ih⟩

theorem blames_program : program.Blames (maxNesting + 1) :=
  blames_declarations (blames_nestedWithin maxNesting) _

end LispReader.Grammar
