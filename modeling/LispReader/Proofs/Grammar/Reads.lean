import LispReader.Proofs.Grammar.Parts
import LispReader.Proofs.Grammar.Piece

/-!
# Reading a piece

`Rule.Reads` says that a rule reads a piece, value and reports alike, if its levels of nesting
suffice, and that it finds the nesting too deep if they do not. Each way to build a rule has a lemma
for the piece that is built in the same way.
-/

namespace LispReader.Grammar

namespace Rule

variable {α β σ ρ : Type}

structure Reads (r : Rule α) (levels : Nat) (p : Piece α) (next : List Token) : Prop where
  within : p.nesting ≤ levels →
    r.run (p.tokens ++ next) = ⟨.ok p.value, p.notes.map (·.before next), next⟩
  beyond : levels < p.nesting → ∃ place, r.strict (p.tokens ++ next) = .error ⟨.nestingTooDeep, place⟩
  mild : ∀ note ∈ p.notes, note.problem.isFatal = false

theorem Reads.strict {r : Rule α} {levels : Nat} {p : Piece α} {next : List Token}
    (h : r.Reads levels p next) (within : p.nesting ≤ levels) :
    r.strict (p.tokens ++ next) = .ok (p.value, next) :=
  strict_of_run (h.within within) (by simpa using h.mild)

variable {levels : Nat} {next : List Token}

theorem reads_pure (a : α) : (pure a : Rule α).Reads levels (pure a) next :=
  ⟨fun _ => rfl, fun h => absurd h (Nat.not_lt_zero _), by simp⟩

theorem reads_bind {r : Rule α} {f : α → Rule β} {p : Piece α} {g : α → Piece β}
    (first : r.Reads levels p ((g p.value).tokens ++ next))
    (second : (f p.value).Reads levels (g p.value) next) :
    (r >>= f).Reads levels (p >>= g) next := by
  refine ⟨?_, ?_, ?_⟩
  · intro h
    rw [Piece.nesting_bind, Nat.max_le] at h
    rw [run_bind, Piece.tokens_bind, List.append_assoc, first.within h.1]
    simp [Reply.andThen, second.within h.2, Function.comp_def]
  · intro h
    rw [Piece.nesting_bind] at h
    rw [Piece.tokens_bind, List.append_assoc]
    by_cases fits : p.nesting ≤ levels
    · have deep : levels < (g p.value).nesting := by omega
      obtain ⟨place, error⟩ := second.beyond deep
      exact ⟨place, by rw [strict_bind_of_ok (first.strict fits), error]⟩
    · have deep : levels < p.nesting := by omega
      obtain ⟨place, error⟩ := first.beyond deep
      exact ⟨place, strict_bind_of_error error f⟩
  · intro note h
    rcases List.mem_append.mp h with h | h
    · obtain ⟨earlier, known, rfl⟩ := List.mem_map.mp h
      exact first.mild earlier known
    · exact second.mild note h

theorem reads_ahead_bind {f : List Token → Rule α} {p : Piece α}
    (h : (f (p.tokens ++ next)).Reads levels p next) : (ahead >>= f).Reads levels p next := by
  refine ⟨?_, ?_, h.mild⟩
  · intro within
    simp [ahead, Reply.andThen, h.within within]
  · intro beyond
    obtain ⟨place, h⟩ := h.beyond beyond
    exact ⟨place, by rw [strict_bind_of_ok (strict_ahead _), h]⟩

theorem reads_note {problem : Problem} (mild : problem.isFatal = false) (back : List Token) :
    (note problem (back ++ next)).Reads levels (Piece.note problem back) next :=
  ⟨fun _ => rfl, fun h => absurd h (Nat.not_lt_zero _), by simpa using mild⟩

/-! ### Single tokens -/

theorem reads_accept_bind_some {select : Token → Option σ} {f : Option σ → Rule α} {token : Token}
    {s : σ} {p : Piece α} (found : select token = some s) (h : (f (some s)).Reads levels p next) :
    (accept select >>= f).Reads levels (Piece.token token >>= fun _ => p) next := by
  have run (rest : List Token) : (accept select).run (token :: rest) = ⟨.ok (some s), [], rest⟩ := by
    simp [accept, found]
  have nesting : (Piece.token token >>= fun _ => p).nesting = p.nesting := Nat.zero_max _
  refine ⟨?_, ?_, by simpa using h.mild⟩
  · intro within
    rw [nesting] at within
    simp [run, Reply.andThen, h.within within]
  · intro beyond
    rw [nesting] at beyond
    obtain ⟨place, h⟩ := h.beyond beyond
    exact ⟨place, (strict_bind_of_ok (strict_accept_some found _) f).trans h⟩

theorem reads_accept_bind_none {select : Token → Option σ} {f : Option σ → Rule α} {p : Piece α}
    (refused : ∀ token ∈ (p.tokens ++ next).head?, select token = none)
    (h : (f none).Reads levels p next) : (accept select >>= f).Reads levels p next := by
  have run : (accept select).run (p.tokens ++ next) = ⟨.ok none, [], p.tokens ++ next⟩ := by
    cases input : p.tokens ++ next with
    | nil => rfl
    | cons token rest => simp [accept, refused token (by simp [input])]
  refine ⟨?_, ?_, h.mild⟩
  · intro within
    simp [run, Reply.andThen, h.within within]
  · intro beyond
    obtain ⟨place, h⟩ := h.beyond beyond
    exact ⟨place, (strict_bind_of_ok (strict_of_run run (by simp)) f).trans h⟩

theorem reads_expect {token : Token} {kind : Token.Kind} (same : token.kind = kind)
    (problem : Problem) : (expect kind problem).Reads levels (Piece.token token) next := by
  refine ⟨fun _ => ?_, fun h => absurd h (Nat.not_lt_zero _), by simp⟩
  simp [expect, accept, ofKind, same, Reply.andThen]

/-! ### Repetition -/

/-- A round has a token of its own and something behind it, which `body` makes a new value from. What
stands behind a round has to satisfy `follow`. -/
theorem reads_foldWhile (follow : List Token → Prop) {select : Token → Option σ}
    {step : α → σ → Rule α} {body : α → Token × β → Piece α} {rounds : List (Token × β)}
    (each : ∀ round ∈ rounds, ∃ s, select round.1 = some s ∧
      ∀ acc next, follow next → (step acc s).Reads levels (body acc round) next)
    (between : ∀ round ∈ rounds, ∀ next, follow (round.1 :: next))
    (last : follow next) (stops : ∀ token ∈ next.head?, select token = none) (acc : α) :
    (foldWhile select step acc).Reads levels
      (rounds.foldlM (fun acc round => Piece.token round.1 >>= fun _ => body acc round) acc) next := by
  induction rounds generalizing acc with
  | nil =>
    rw [foldWhile_eq]
    exact reads_accept_bind_none stops (reads_pure acc)
  | cons round rounds ih =>
    obtain ⟨s, found, reads⟩ := each round (List.mem_cons_self ..)
    have rest := ih (fun r h => each r (List.mem_cons_of_mem _ h))
      (fun r h => between r (List.mem_cons_of_mem _ h))
    rw [foldWhile_eq, List.foldlM_cons, bind_assoc]
    refine reads_accept_bind_some found (reads_bind (reads acc _ ?_) (rest _))
    cases rounds with
    | nil => exact last
    | cons other rounds => exact between other (by simp) _

theorem follow_foldlM (follow : List Token → Prop) (body : α → Token × β → Piece α)
    {rounds : List (Token × β)} (between : ∀ round ∈ rounds, ∀ next, follow (round.1 :: next))
    (last : follow next) (acc : α) :
    follow ((rounds.foldlM (fun acc round => Piece.token round.1 >>= fun _ => body acc round)
      acc).tokens ++ next) := by
  cases rounds with
  | nil => exact last
  | cons round rounds => exact between round (List.mem_cons_self ..) _

theorem reads_recovering {r : Rule α} {p : Piece α} (h : r.Reads levels p next) :
    (recovering r).Reads levels (some <$> p) next := by
  refine ⟨?_, ?_, by simpa using h.mild⟩
  · intro within
    rw [Piece.nesting_map] at within
    simp [recovering, h.within within]
  · intro beyond
    rw [Piece.nesting_map] at beyond
    rw [Piece.tokens_map]
    obtain ⟨place, deep⟩ := h.beyond beyond
    refine ⟨place, ?_⟩
    rw [strict_recovering, deep]
    · rfl
    · intro report error
      rw [deep] at error
      cases error
      rfl

theorem reads_manyUntil {closes : Token → Bool} {r : Rule (Option α)} {advances : r.Advances}
    {follow : List Token → Prop} {parts : List (Piece α)}
    (each : ∀ p ∈ parts, ∀ next, follow next → r.Reads levels (some <$> p) next)
    (opens : ∀ p ∈ parts, ∃ token rest, p.tokens = token :: rest ∧ closes token = false ∧
      ∀ next, follow (token :: next))
    (last : follow next) (closed : ∀ token ∈ next.head?, closes token = true) :
    (manyUntil closes r advances).Reads levels (parts.mapM id) next := by
  induction parts with
  | nil =>
    rw [manyUntil_eq]
    refine reads_ahead_bind ?_
    rw [if_pos (by simpa [Option.all_eq_true] using closed)]
    exact reads_pure []
  | cons p parts ih =>
    obtain ⟨token, rest, tokens, open_, -⟩ := opens p (List.mem_cons_self ..)
    have more := ih (fun q h => each q (List.mem_cons_of_mem _ h))
      (fun q h => opens q (List.mem_cons_of_mem _ h))
    have same : (p :: parts).mapM id = some <$> p >>= fun found => parts.mapM id >>= fun more =>
        pure (found.toList ++ more) := by
      simp [List.mapM_cons]
    rw [manyUntil_eq, same]
    refine reads_ahead_bind ?_
    rw [if_neg (by simp [tokens, open_])]
    refine reads_bind (each p (List.mem_cons_self ..) _ ?_) (reads_bind (by simpa using more) (reads_pure _))
    cases parts with
    | nil => exact last
    | cons q parts =>
      obtain ⟨token, rest, tokens, -, follows⟩ := opens q (by simp)
      simpa [List.mapM_cons, tokens] using follows _

/-! ### Lists -/

theorem reads_excess {tooMany : Problem} (mild : tooMany.isFatal = false) (count : Nat) :
    (noteExcess tooMany count).Reads levels (Piece.excess tooMany count) next := by
  unfold noteExcess Piece.excess
  split
  · exact reads_ahead_bind (reads_note mild [])
  · exact reads_pure ()

/-- An item stands before a comma or a closing parenthesis, and none begins with the latter. -/
theorem reads_listOf {item : Rule α} {tooMany : Problem} (mild : tooMany.isFatal = false)
    {list : Syntax.Listing (Piece α)} (separated : list.Separated)
    (each : ∀ p ∈ list.items, (∃ token rest, p.tokens = token :: rest ∧ token.kind ≠ .rightParen) ∧
      ∀ token rest, token.kind = .comma ∨ token.kind = .rightParen →
        item.Reads levels p (token :: rest))
    {close : Token} (closing : close.kind = .rightParen) (rest : List Token) :
    (listOf item tooMany).Reads levels (Piece.list tooMany list) (close :: rest) := by
  rw [listOf_eq]
  refine reads_ahead_bind ?_
  cases list with
  | none =>
    rw [if_pos (by simp [Piece.list, closing])]
    exact reads_pure []
  | some first more =>
    obtain ⟨⟨token, others, tokens, opens⟩, reads⟩ := each first (List.mem_cons_self ..)
    rw [if_neg (by simp [Piece.list, tokens, opens])]
    let follow (next : List Token) : Prop :=
      ∃ token rest, next = token :: rest ∧ (token.kind = .comma ∨ token.kind = .rightParen)
    have between (round : Token × Piece α) (known : round ∈ more) (next : List Token) :
        follow (round.1 :: next) := ⟨_, _, rfl, .inl (separated round known)⟩
    have last : follow (close :: rest) := ⟨_, _, rfl, .inr closing⟩
    refine reads_bind ?_ (reads_foldWhile follow (fun round known => ?_) between last ?_ _)
    · obtain ⟨token, rest, same, kind⟩ := follow_foldlM follow
        (fun items round => Piece.listRound tooMany items round.2) between last [first.value]
      exact same ▸ reads token rest kind
    · refine ⟨round.1, by simp [ofKind, separated round known], fun items next h => ?_⟩
      obtain ⟨token, rest, rfl, kind⟩ := h
      refine reads_bind (reads_excess mild _) (reads_bind ?_ (reads_pure _))
      simpa using (each round.2 (Syntax.Listing.mem_items_some known)).2 token rest kind
    · simp [ofKind, closing]

/-! ### Nesting -/

theorem reads_deeper (nested : Nat → Rule α) {rule : Nat → Rule α} {p : Piece α}
    (h : ∀ levels, (rule levels).Reads levels p next) (none : nested 0 = tooDeep)
    (some : ∀ levels, nested (levels + 1) = rule levels) : (nested levels).Reads levels p.deeper next := by
  cases levels with
  | zero =>
    rw [none]
    exact ⟨fun within => absurd within (Nat.not_succ_le_zero _), fun _ => ⟨_, rfl⟩, (h 0).mild⟩
  | succ levels =>
    rw [some]
    exact ⟨fun within => (h levels).within (Nat.le_of_succ_le_succ within),
      fun beyond => (h levels).beyond (Nat.lt_of_succ_lt_succ beyond), (h levels).mild⟩

theorem reads_nested_unary {p : Piece Expr}
    (h : ∀ levels, (unary (nestedWithin levels)).Reads levels p next) :
    (nestedWithin levels).unary.Reads levels p.deeper next :=
  reads_deeper (fun levels => (nestedWithin levels).unary) h rfl fun _ => rfl

theorem reads_nested_expr {p : Piece Expr}
    (h : ∀ levels, (expression (nestedWithin levels)).Reads levels p next) :
    (nestedWithin levels).expr.Reads levels p.deeper next :=
  reads_deeper (fun levels => (nestedWithin levels).expr) h rfl fun _ => rfl

theorem reads_nested_stmt {p : Piece Stmt}
    (h : ∀ levels, (statement (nestedWithin levels)).Reads levels p next) :
    (nestedWithin levels).stmt.Reads levels p.deeper next :=
  reads_deeper (fun levels => (nestedWithin levels).stmt) h rfl fun _ => rfl

theorem reads_nested_function {symbol : Symbol} {p : Piece Stmt}
    (h : ∀ levels, (function (nestedWithin levels) symbol).Reads levels p next) :
    ((nestedWithin levels).function symbol).Reads levels p.deeper next :=
  reads_deeper (fun levels => (nestedWithin levels).function symbol) h rfl fun _ => rfl

end Rule

end LispReader.Grammar
