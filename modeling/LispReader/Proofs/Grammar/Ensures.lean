import LispReader.Proofs.Grammar.Strict

/-!
# What rules give

`Rule.Gives` says what is true of every value that a rule gives, whatever was reported on the way.
`Rule.EnsuresOn` also speaks of what is left of the input. Each way to build a rule has one lemma.
-/

namespace LispReader.Grammar.Rule

variable {α β σ : Type}

/-- If there is a value, `post` holds of it and of what is left. -/
def EnsuresOn (r : Rule α) (input : List Token) (post : α → List Token → Prop) : Prop :=
  ∀ a, (r.run input).result = .ok a → post a (r.run input).rest

def Gives (r : Rule α) (post : α → Prop) : Prop := ∀ input, r.EnsuresOn input fun a _ => post a

theorem Gives.mono {r : Rule α} {p q : α → Prop} (h : r.Gives p) (sub : ∀ a, p a → q a) : r.Gives q :=
  fun input a ok => sub a (h input a ok)

theorem gives_trivial (r : Rule α) : r.Gives fun _ => True := fun _ _ _ => trivial

/-! ### Steps in sequence -/

theorem ensuresOn_pure {a : α} {input : List Token} {post : α → List Token → Prop}
    (h : post a input) : (pure a : Rule α).EnsuresOn input post := by
  rintro _ ⟨⟩
  exact h

theorem gives_pure {a : α} {post : α → Prop} (h : post a) : (pure a : Rule α).Gives post :=
  fun _ => ensuresOn_pure h

theorem ensuresOn_bind {r : Rule α} {f : α → Rule β} {input : List Token}
    {mid : α → List Token → Prop} {post : β → List Token → Prop} (first : r.EnsuresOn input mid)
    (second : ∀ a rest, mid a rest → (f a).EnsuresOn rest post) : (r >>= f).EnsuresOn input post := by
  intro b ok
  obtain ⟨a, found, given, rest⟩ := Reply.result_andThen_eq_ok ok
  rw [run_bind, rest]
  exact second a _ (first a found) b given

theorem gives_bind {r : Rule α} {f : α → Rule β} {mid : α → Prop} {post : β → Prop}
    (first : r.Gives mid) (second : ∀ a, mid a → (f a).Gives post) : (r >>= f).Gives post :=
  fun input => ensuresOn_bind (first input) fun a rest h => second a h rest

theorem gives_bind_of_forall {r : Rule α} {f : α → Rule β} {post : β → Prop}
    (h : ∀ a, (f a).Gives post) : (r >>= f).Gives post :=
  gives_bind (gives_trivial r) fun a _ => h a

theorem gives_stop (problem : Problem) (place : List Token) (post : α → Prop) :
    (stop problem place : Rule α).Gives post := by
  intro input a ok
  cases ok

theorem gives_tooDeep (post : α → Prop) : (tooDeep : Rule α).Gives post :=
  gives_bind_of_forall fun _ => gives_stop _ _ _

/-! ### Single tokens -/

/-- What there is after an attempt to read a token. -/
inductive Accepted (select : Token → Option σ) : List Token → Option σ → List Token → Prop where
  | taken {token : Token} {s : σ} {rest : List Token} :
    select token = some s → Accepted select (token :: rest) (some s) rest
  | left {input : List Token} :
    (∀ token ∈ input.head?, select token = none) → Accepted select input none input

theorem ensuresOn_accept (select : Token → Option σ) (input : List Token) :
    (accept select).EnsuresOn input (Accepted select input) := by
  intro found ok
  cases input with
  | nil =>
    cases ok
    exact .left (by simp)
  | cons token rest =>
    cases taken : select token with
    | none =>
      simp only [accept, taken, Except.ok.injEq] at ok ⊢
      subst ok
      exact .left (by simpa using taken)
    | some s =>
      simp only [accept, taken, Except.ok.injEq] at ok ⊢
      subst ok
      exact .taken taken

theorem gives_accept_bind {select : Token → Option σ} {f : Option σ → Rule α} {post : α → Prop}
    (taken : ∀ token s, select token = some s → (f (some s)).Gives post) (left : (f none).Gives post) :
    (accept select >>= f).Gives post := by
  intro input
  refine ensuresOn_bind (ensuresOn_accept select input) fun found rest accepted => ?_
  cases accepted with
  | taken same => exact taken _ _ same _
  | left => exact left _

/-! ### Repetition -/

/-- What holds of the first value and is kept by each round holds of the last one. -/
theorem gives_foldWhile {select : Token → Option σ} {step : α → σ → Rule α} {inv : α → Prop}
    (round : ∀ acc token s, inv acc → select token = some s → (step acc s).Gives inv) {acc : α}
    (h : inv acc) : (foldWhile select step acc).Gives inv := by
  intro input a ok
  change (foldWhile.run select step acc input).result = _ at ok
  fun_induction foldWhile.run select step acc input with
  | case1 => cases ok; exact h
  | case2 => cases ok; exact h
  | case3 acc token rest s same round' error failed =>
    simp_all
  | case4 acc token rest s same round' next ok' more ih =>
    exact ih (round acc token s h same rest next ok') ok

theorem gives_recovering {r : Rule α} {post : α → Prop} (h : r.Gives post) :
    (recovering r).Gives fun found => ∀ a ∈ found, post a := by
  intro input found ok
  simp only [recovering] at ok
  cases result : (r.run input).result with
  | error report =>
    simp only [result, Except.ok.injEq] at ok
    simp [← ok]
  | ok a =>
    simp only [result, Except.ok.injEq] at ok
    subst ok
    simpa using h input a result

theorem gives_manyUntil {closes : Token → Bool} {r : Rule (Option α)} {advances : r.Advances}
    {post : α → Prop} (h : r.Gives fun found => ∀ a ∈ found, post a) :
    (manyUntil closes r advances).Gives fun all => ∀ a ∈ all, post a := by
  intro input all ok
  change (manyUntil.run closes r advances input).result = _ at ok
  fun_induction manyUntil.run closes r advances input generalizing all with
  | case1 => cases ok; simp
  | case2 => cases ok; simp
  | case3 token rest continues round error failed => simp_all
  | case4 token rest continues round found ok' more ih =>
    change more.result.map (found.toList ++ ·) = _ at ok
    cases later : more.result with
    | error report =>
      rw [later] at ok
      cases ok
    | ok others =>
      rw [later] at ok
      obtain rfl := Except.ok.inj ok
      have here : ∀ a ∈ found, post a := h _ found ok'
      refine List.forall_mem_append.mpr ⟨fun a known => here a (Option.mem_toList.mp known), ?_⟩
      exact ih others later

theorem gives_listOf {item : Rule α} {tooMany : Problem} {post : α → Prop} (h : item.Gives post) :
    (listOf item tooMany).Gives fun items => ∀ a ∈ items, post a := by
  refine gives_bind_of_forall fun input => ?_
  split
  · exact gives_pure (by simp)
  · refine gives_bind h fun first known => ?_
    refine gives_foldWhile (fun items token s each _ => ?_) (by simpa using known)
    refine gives_bind_of_forall fun _ => gives_bind h fun next known => gives_pure ?_
    simpa [or_imp, forall_and] using ⟨each, known⟩

end LispReader.Grammar.Rule
