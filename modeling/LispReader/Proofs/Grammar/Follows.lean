import LispReader.Proofs.Grammar.Strict
import LispReader.Proofs.Syntax.Sentence

/-!
# Rules that follow a phrase

`Rule.Follows r phrase` says that what `r` reads is a phrase, and that what it has read when it fails
begins one, unless the nesting is to blame. Phrases are put together as the rules are, so each way to
build a rule has one lemma here.
-/

namespace LispReader.Grammar

open Syntax

def Begins (phrase : Phrase) (read : List Token) : Prop := ∃ more, Derives phrase (read ++ more)

theorem begins_nil {phrase : Phrase} (proper : phrase.proper = true) : Begins phrase [] :=
  phrase.exists_derives proper

theorem Begins.mono {a b : Phrase} (sub : ∀ tokens, Derives a tokens → Derives b tokens)
    {read : List Token} : Begins a read → Begins b read
  | ⟨more, h⟩ => ⟨more, sub _ h⟩

theorem Begins.seq_left {a b : Phrase} (proper : b.proper = true) {read : List Token} :
    Begins a read → Begins (.seq a b) read
  | ⟨more, h⟩ => by
    obtain ⟨rest, hrest⟩ := b.exists_derives proper
    exact ⟨more ++ rest, by simpa using h.seq hrest⟩

theorem Begins.seq_right {a b : Phrase} {front read : List Token} (done : Derives a front) :
    Begins b read → Begins (.seq a b) (front ++ read)
  | ⟨more, h⟩ => ⟨more, by simpa using done.seq h⟩

namespace Rule

variable {α β σ : Type}

def FollowsOn (r : Rule α) (phrase : Phrase) (input : List Token) : Prop :=
  match r.strict input with
  | .ok (_, rest) => ∃ read, input = read ++ rest ∧ Derives phrase read
  | .error report => report.problem.isFatal = true ∧ ∃ read, input = read ++ report.place ∧
      (report.problem ≠ .nestingTooDeep → Begins phrase read)

def Follows (r : Rule α) (phrase : Phrase) : Prop := ∀ input, r.FollowsOn phrase input

theorem FollowsOn.ok {r : Rule α} {phrase : Phrase} {input rest : List Token} {a : α}
    (h : r.FollowsOn phrase input) (ok : r.strict input = .ok (a, rest)) :
    ∃ read, input = read ++ rest ∧ Derives phrase read := by
  unfold FollowsOn at h
  rwa [ok] at h

theorem FollowsOn.error {r : Rule α} {phrase : Phrase} {input : List Token} {report : Report}
    (h : r.FollowsOn phrase input) (error : r.strict input = .error report) :
    report.problem.isFatal = true ∧ ∃ read, input = read ++ report.place ∧
      (report.problem ≠ .nestingTooDeep → Begins phrase read) := by
  unfold FollowsOn at h
  rwa [error] at h

theorem FollowsOn.mono {r : Rule α} {a b : Phrase} {input : List Token}
    (h : r.FollowsOn a input) (sub : ∀ tokens, Derives a tokens → Derives b tokens) :
    r.FollowsOn b input := by
  unfold FollowsOn at h ⊢
  split at h
  · obtain ⟨read, same, derives⟩ := h
    exact ⟨read, same, sub _ derives⟩
  · obtain ⟨fatal, read, same, begins⟩ := h
    exact ⟨fatal, read, same, fun deep => (begins deep).mono sub⟩

theorem Follows.mono {r : Rule α} {a b : Phrase} (h : r.Follows a)
    (sub : ∀ tokens, Derives a tokens → Derives b tokens) : r.Follows b :=
  fun input => (h input).mono sub

theorem Follows.rule {r : Rule α} (name : Nonterminal) (h : r.Follows name.phrase) :
    r.Follows (.rule name) := h.mono fun _ => .rule

/-! ### Steps in sequence -/

theorem followsOn_of_ok {r : Rule α} {phrase : Phrase} {rest : List Token} {a : α}
    (read : List Token) (h : r.strict (read ++ rest) = .ok (a, rest)) (derives : Derives phrase read) :
    r.FollowsOn phrase (read ++ rest) := by
  unfold FollowsOn
  rw [h]
  exact ⟨read, rfl, derives⟩

theorem followsOn_of_error {r : Rule α} {phrase : Phrase} {input : List Token} {problem : Problem}
    (h : r.strict input = .error ⟨problem, input⟩) (fatal : problem.isFatal = true)
    (proper : phrase.proper = true) : r.FollowsOn phrase input := by
  unfold FollowsOn
  rw [h]
  exact ⟨fatal, [], rfl, fun _ => begins_nil proper⟩

/-- What `r` makes of a phrase that stands behind `front`. -/
theorem FollowsOn.behind {r s : Rule α} {a b : Phrase} {front rest : List Token}
    (h : s.FollowsOn a rest) (same : r.strict (front ++ rest) = s.strict rest)
    (whole : ∀ tokens, Derives a tokens → Derives b (front ++ tokens)) :
    r.FollowsOn b (front ++ rest) := by
  unfold FollowsOn at h ⊢
  rw [same]
  split at h
  · obtain ⟨read, rfl, done⟩ := h
    exact ⟨front ++ read, by rw [List.append_assoc], whole read done⟩
  · obtain ⟨fatal, read, place, begins⟩ := h
    refine ⟨fatal, front ++ read, by rw [List.append_assoc, ← place], fun deep => ?_⟩
    obtain ⟨more, done⟩ := begins deep
    exact ⟨more, by simpa using whole _ done⟩

theorem follows_pure (a : α) : (pure a : Rule α).Follows .empty :=
  fun _ => followsOn_of_ok [] rfl .empty

theorem followsOn_bind {r : Rule α} {f : α → Rule β} {a b : Phrase} {input : List Token}
    (proper : b.proper = true) (first : r.FollowsOn a input)
    (second : ∀ x mid, r.strict input = .ok (x, mid) → (f x).FollowsOn b mid) :
    (r >>= f).FollowsOn (.seq a b) input := by
  unfold FollowsOn
  split
  · rename_i c rest ok
    obtain ⟨x, mid, ok₁, ok₂⟩ := strict_bind_ok ok
    obtain ⟨front, rfl, done⟩ := first.ok ok₁
    obtain ⟨back, rfl, more⟩ := (second x mid ok₁).ok ok₂
    exact ⟨front ++ back, by simp, done.seq more⟩
  · rename_i report error
    rcases strict_bind_error error with failed | ⟨x, mid, ok, failed⟩
    · obtain ⟨fatal, read, same, begins⟩ := first.error failed
      exact ⟨fatal, read, same, fun deep => (begins deep).seq_left proper⟩
    · obtain ⟨front, rfl, done⟩ := first.ok ok
      obtain ⟨fatal, read, rfl, begins⟩ := (second x mid ok).error failed
      exact ⟨fatal, front ++ read, by simp, fun deep => (begins deep).seq_right done⟩

theorem follows_bind {r : Rule α} {f : α → Rule β} {a b : Phrase} (proper : b.proper = true)
    (first : r.Follows a) (second : ∀ x, (f x).Follows b) : (r >>= f).Follows (.seq a b) :=
  fun input => followsOn_bind proper (first input) fun x mid _ => second x mid

theorem follows_bind_pure {r : Rule α} {a : Phrase} (first : r.Follows a) (f : α → β) :
    (r >>= fun x => pure (f x)).Follows a := by
  refine (follows_bind rfl first fun x => follows_pure (f x)).mono ?_
  intro tokens h
  obtain ⟨read, rest, rfl, done, nothing⟩ := derives_seq_iff.mp h
  obtain rfl := derives_empty_iff.mp nothing
  simpa using done

theorem followsOn_ahead_bind {f : List Token → Rule β} {phrase : Phrase} {input : List Token}
    (h : (f input).FollowsOn phrase input) : (ahead >>= f).FollowsOn phrase input := by
  unfold FollowsOn at h ⊢
  rwa [strict_bind_of_ok (strict_ahead input)]

theorem followsOn_silent_bind {r : Rule α} {f : α → Rule β} {phrase : Phrase} {input : List Token}
    {a : α} (silent : r.strict input = .ok (a, input)) (h : (f a).FollowsOn phrase input) :
    (r >>= f).FollowsOn phrase input := by
  unfold FollowsOn at h ⊢
  rwa [strict_bind_of_ok silent]

/-! ### Single tokens -/

theorem follows_expect {kind : Token.Kind} {problem : Problem} (bare : kind.isBare = true)
    (fatal : problem.isFatal = true) : (expect kind problem).Follows (.token [kind]) := by
  have proper : (Phrase.token [kind]).proper = true := by simp [Phrase.proper, bare]
  intro input
  cases input with
  | nil => exact followsOn_of_error (strict_expect_nil kind problem) fatal proper
  | cons token rest =>
    by_cases same : token.kind = kind
    · exact followsOn_of_ok (a := token) [token]
        (by simp [strict_expect_cons, same]) (.one bare same)
    · exact followsOn_of_error (by simp [strict_expect_cons, same]) fatal proper

theorem followsOn_accept_bind {select : Token → Option σ} {f : Option σ → Rule β} {t b c : Phrase}
    {input : List Token} (derives : ∀ token s, select token = some s → Derives t [token])
    (taken : ∀ token s rest, input = token :: rest → select token = some s →
      (f (some s)).FollowsOn b rest)
    (left : (f none).FollowsOn c input) :
    (accept select >>= f).FollowsOn (.alt (.seq t b) c) input := by
  cases input with
  | nil => exact followsOn_silent_bind (strict_accept_nil select) (left.mono fun _ => .right)
  | cons token rest =>
    cases found : select token with
    | none => exact followsOn_silent_bind (strict_accept_none found rest) (left.mono fun _ => .right)
    | some s =>
      show (accept select >>= f).FollowsOn _ ([token] ++ rest)
      refine (taken token s rest rfl found).behind ?_ fun tokens done => ?_
      · exact strict_bind_of_ok (strict_accept_some found rest) f
      · exact .left ((derives token s found).seq done)

theorem follows_accept_bind {select : Token → Option σ} {f : Option σ → Rule β} {t b c : Phrase}
    (derives : ∀ token s, select token = some s → Derives t [token])
    (taken : ∀ s, (f (some s)).Follows b) (left : (f none).Follows c) :
    (accept select >>= f).Follows (.alt (.seq t b) c) :=
  fun input => followsOn_accept_bind derives (fun _ s rest _ _ => taken s rest) (left input)

theorem derives_ofKind {kind : Token.Kind} (bare : kind.isBare = true) (token s : Token)
    (h : ofKind kind token = some s) : Derives (.token [kind]) [token] := by
  unfold ofKind at h
  split at h
  · rename_i same
    exact .one bare same
  · cases h

/-! ### Repetition -/

theorem follows_foldWhile {select : Token → Option σ} {step : α → σ → Rule α} {t b : Phrase}
    (derives : ∀ token s, select token = some s → Derives t [token])
    (round : ∀ acc s, (step acc s).Follows b) (acc : α) :
    (foldWhile select step acc).Follows (.many (.seq t b)) := by
  intro input
  induction length : input.length using Nat.strongRecOn generalizing input acc with
  | ind n ih =>
    rw [foldWhile_eq]
    have taken : ∀ token s rest, input = token :: rest → select token = some s →
        (step acc s >>= foldWhile select step).FollowsOn (.seq b (.many (.seq t b))) rest := by
      rintro token s rest rfl -
      refine followsOn_bind rfl (round acc s rest) (fun next mid ok => ih mid.length ?_ next mid rfl)
      have := (strict_rest ok).length_le
      simp only [List.length_cons] at length
      omega
    refine (followsOn_accept_bind derives taken (follows_pure acc input)).mono fun tokens h => ?_
    rcases derives_alt_iff.mp h with h | nothing
    · obtain ⟨head, _, rfl, ht, h⟩ := derives_seq_iff.mp h
      obtain ⟨first, rest, rfl, hb, more⟩ := derives_seq_iff.mp h
      simpa using (ht.seq hb).manyCons more
    · obtain rfl := derives_empty_iff.mp nothing
      exact .manyNil

theorem follows_recovering {r : Rule α} {phrase : Phrase} (h : r.Follows phrase) :
    (recovering r).Follows phrase := by
  intro input
  have here := h input
  have same := strict_recovering fun report error => ((h input).error error).1
  unfold FollowsOn at here ⊢
  rw [same]
  cases found : r.strict input <;> rw [found] at here <;> exact here

theorem follows_manyUntil {closes : Token → Bool} {r : Rule (Option α)} {advances : r.Advances}
    {phrase : Phrase} (h : r.Follows phrase) :
    (manyUntil closes r advances).Follows (.many phrase) := by
  intro input
  induction length : input.length using Nat.strongRecOn generalizing input with
  | ind n ih =>
    rw [manyUntil_eq]
    refine followsOn_ahead_bind ?_
    split
    · exact (follows_pure [] input).mono fun _ nothing => derives_empty_iff.mp nothing ▸ .manyNil
    · rename_i closed
      obtain ⟨token, rest, rfl⟩ : ∃ token rest, input = token :: rest := by
        cases input with
        | nil => exact absurd rfl closed
        | cons token rest => exact ⟨token, rest, rfl⟩
      have rounds : ∀ found mid, r.strict (token :: rest) = .ok (found, mid) →
          (manyUntil closes r advances >>= fun more => pure (found.toList ++ more)).FollowsOn
            (.seq (.many phrase) .empty) mid := by
        intro found mid ok
        have shorter := (strict_ok ok).2 ▸ advances token rest
        exact followsOn_bind rfl (ih mid.length (by simp only [List.length_cons] at length; omega) mid rfl)
          fun _ _ _ => follows_pure _ _
      refine (followsOn_bind rfl (h _) rounds).mono ?_
      intro tokens h
      obtain ⟨head, _, rfl, first, h⟩ := derives_seq_iff.mp h
      obtain ⟨tail, _, rfl, more, nothing⟩ := derives_seq_iff.mp h
      obtain rfl := derives_empty_iff.mp nothing
      simpa using first.manyCons more

end Rule

end LispReader.Grammar
