import LispReader.Token.Basic

/-!
# Sentences of the grammar

The grammar as data: a phrase is the right-hand side of a rule, `Nonterminal.phrase` lists the rules,
and `Derives` says which tokens a phrase stands for. The grammar is context-free: it knows no limit
on nesting and on the length of lists, and takes every operand for a target of an assignment.
`Derives.least` is the induction principle: a family of languages that is closed under the rules
holds all that they derive.
-/

namespace LispReader

/-- Does a token of this kind need no value? -/
def Token.Kind.isBare : Token.Kind → Bool
  | .number | .string => false
  | _ => true

/-- A number or a string has to carry a value of its kind. -/
def Token.fits (token : Token) : Bool :=
  match token.kind, token.literal with
  | .number, some (.number _) => true
  | .string, some (.text _) => true
  | .number, _ => false
  | .string, _ => false
  | _, _ => true

namespace Syntax

inductive Nonterminal where
  | program | declaration | definition | parameters | block
  | statement | condStmt | exprStmt
  | expression | assignment | logicOr | logicAnd
  | equality | comparison | addition | multiplication
  | unary | call | arguments | primary
deriving DecidableEq

inductive Phrase where
  | token (kinds : List Token.Kind)
  | rule (name : Nonterminal)
  | empty
  | seq (first second : Phrase)
  | alt (first second : Phrase)
  | many (part : Phrase)

namespace Phrase

def optional (phrase : Phrase) : Phrase := .alt phrase .empty

/-- One or more parts with a token of one of these kinds between any two. -/
def separated (kinds : List Token.Kind) (part : Phrase) : Phrase :=
  .seq part (.many (.seq (.token kinds) part))

def after (kind : Token.Kind) (rest : Phrase) : Phrase := .seq (.token [kind]) rest

end Phrase

/-- The kinds of token that are expressions by themselves. -/
def atomKinds : List Token.Kind :=
  [.keyword .truth, .keyword .falsity, .keyword .nil, .number, .string, .identifier]

open Phrase in
/-- The rules. That a program ends with the input is left to `Sentence`. -/
def Nonterminal.phrase : Nonterminal → Phrase
  | .program => many (rule .declaration)
  | .declaration =>
    alt (after .leftParen (after (.keyword .define) (rule .definition))) (rule .statement)
  | .definition =>
    alt
      (after .identifier (after .leftParen
        (seq (optional (rule .parameters)) (after .rightParen (rule .block)))))
      (after .identifier
        (seq (optional (after .equal (rule .expression))) (token [.rightParen])))
  | .parameters => separated [.comma] (token [.identifier])
  | .block => seq (many (rule .declaration)) (token [.rightParen])
  | .statement => alt (rule .condStmt) (rule .exprStmt)
  | .condStmt =>
    after (.keyword .cond) (after .leftParen (seq (rule .expression) (after .rightParen
      (seq (rule .statement) (optional (after (.keyword .otherwise) (rule .statement)))))))
  | .exprStmt => seq (rule .expression) (token [.semicolon])
  | .expression => rule .assignment
  | .assignment => seq (rule .logicOr) (optional (after .equal (rule .assignment)))
  | .logicOr => separated [.keyword .or] (rule .logicAnd)
  | .logicAnd => separated [.keyword .and] (rule .equality)
  | .equality => separated [.equalEqual] (rule .comparison)
  | .comparison => separated [.greater, .greaterEqual, .less, .lessEqual] (rule .addition)
  | .addition => separated [.minus, .plus] (rule .multiplication)
  | .multiplication => separated [.slash, .star] (rule .unary)
  | .unary => alt (after .minus (rule .unary)) (rule .call)
  | .call =>
    seq (rule .primary)
      (many (after .leftParen (seq (optional (rule .arguments)) (token [.rightParen]))))
  | .arguments => separated [.comma] (rule .expression)
  | .primary =>
    alt (token atomKinds)
      (after .leftParen (seq (rule .expression) (token [.rightParen])))

inductive Derives : Phrase → List Token → Prop where
  | token {kinds : List Token.Kind} {token : Token} :
    token.kind ∈ kinds → token.fits = true → Derives (.token kinds) [token]
  | rule {name : Nonterminal} {tokens : List Token} :
    Derives name.phrase tokens → Derives (.rule name) tokens
  | empty : Derives .empty []
  | seq {first second : Phrase} {a b : List Token} :
    Derives first a → Derives second b → Derives (.seq first second) (a ++ b)
  | left {first second : Phrase} {tokens : List Token} :
    Derives first tokens → Derives (.alt first second) tokens
  | right {first second : Phrase} {tokens : List Token} :
    Derives second tokens → Derives (.alt first second) tokens
  | manyNil {part : Phrase} : Derives (.many part) []
  | manyCons {part : Phrase} {a b : List Token} :
    Derives part a → Derives (.many part) b → Derives (.many part) (a ++ b)

/-- Tokens up to the end of the input that make a program. -/
def Sentence (tokens : List Token) : Prop := Derives (.rule .program) tokens

def Phrase.Holds (language : Nonterminal → List Token → Prop) : Phrase → List Token → Prop
  | .token kinds, tokens => ∃ token, tokens = [token] ∧ token.kind ∈ kinds ∧ token.fits = true
  | .rule name, tokens => language name tokens
  | .empty, tokens => tokens = []
  | .seq first second, tokens =>
    ∃ a b, tokens = a ++ b ∧ first.Holds language a ∧ second.Holds language b
  | .alt first second, tokens => first.Holds language tokens ∨ second.Holds language tokens
  | .many part, tokens =>
    ∃ parts : List (List Token), tokens = parts.flatten ∧ ∀ a ∈ parts, part.Holds language a

theorem Derives.least {language : Nonterminal → List Token → Prop}
    (closed : ∀ name tokens, name.phrase.Holds language tokens → language name tokens)
    {phrase : Phrase} {tokens : List Token} (h : Derives phrase tokens) :
    phrase.Holds language tokens := by
  induction h with
  | token known fits => exact ⟨_, rfl, known, fits⟩
  | rule _ ih => exact closed _ _ ih
  | empty => rfl
  | seq _ _ first second => exact ⟨_, _, rfl, first, second⟩
  | left _ ih => exact .inl ih
  | right _ ih => exact .inr ih
  | manyNil => exact ⟨[], rfl, by simp⟩
  | manyCons _ _ head tail =>
    obtain ⟨parts, rfl, all⟩ := tail
    exact ⟨_ :: parts, rfl, List.forall_mem_cons.mpr ⟨head, all⟩⟩

/-! ### Taking derivations apart and putting them together -/

theorem derives_empty_iff {tokens : List Token} : Derives .empty tokens ↔ tokens = [] := by
  constructor
  · rintro ⟨⟩
    rfl
  · rintro rfl
    exact .empty

theorem derives_seq_iff {first second : Phrase} {tokens : List Token} :
    Derives (.seq first second) tokens ↔
      ∃ a b, tokens = a ++ b ∧ Derives first a ∧ Derives second b := by
  constructor
  · rintro (_ | _ | _ | ⟨ha, hb⟩)
    exact ⟨_, _, rfl, ha, hb⟩
  · rintro ⟨a, b, rfl, ha, hb⟩
    exact .seq ha hb

theorem derives_alt_iff {first second : Phrase} {tokens : List Token} :
    Derives (.alt first second) tokens ↔ Derives first tokens ∨ Derives second tokens := by
  constructor
  · intro h
    cases h with
    | left h => exact .inl h
    | right h => exact .inr h
  · rintro (h | h)
    · exact .left h
    · exact .right h

theorem fits_of_kind {token : Token} (bare : token.kind.isBare = true) : token.fits = true := by
  unfold Token.fits
  split <;> simp_all [Token.Kind.isBare]

namespace Derives

variable {kind : Token.Kind} {token : Token} {phrase rest : Phrase} {tokens : List Token}

theorem one (bare : kind.isBare = true) (same : token.kind = kind) :
    Derives (.token [kind]) [token] :=
  .token (by simp [same]) (fits_of_kind (same ▸ bare))

theorem cons (bare : kind.isBare = true) (same : token.kind = kind) (h : Derives rest tokens) :
    Derives (.after kind rest) (token :: tokens) := .seq (.one bare same) h

theorem absent : Derives phrase.optional [] := .right .empty

theorem present (h : Derives phrase tokens) : Derives phrase.optional tokens := .left h

theorem alone (h : Derives phrase tokens) : Derives (.seq phrase (.many rest)) tokens := by
  have none : Derives (.many rest) [] := .manyNil
  simpa using h.seq none

end Derives

/-! ### Every rule stands for something -/

theorem Nonterminal.exists_derives (name : Nonterminal) : ∃ tokens, Derives (.rule name) tokens := by
  let token (kind : Token.Kind) : Token := ⟨kind, "", none, .start⟩
  have primary : Derives (.rule .primary) [token .identifier] := .rule (.left (.token (by decide) rfl))
  have call : Derives (.rule .call) [token .identifier] := .rule primary.alone
  have unary : Derives (.rule .unary) [token .identifier] := .rule (.right call)
  have multiplication : Derives (.rule .multiplication) [token .identifier] := .rule unary.alone
  have addition : Derives (.rule .addition) [token .identifier] := .rule multiplication.alone
  have comparison : Derives (.rule .comparison) [token .identifier] := .rule addition.alone
  have equality : Derives (.rule .equality) [token .identifier] := .rule comparison.alone
  have logicAnd : Derives (.rule .logicAnd) [token .identifier] := .rule equality.alone
  have logicOr : Derives (.rule .logicOr) [token .identifier] := .rule logicAnd.alone
  have assignment : Derives (.rule .assignment) [token .identifier] := .rule (.seq logicOr .absent)
  have expression : Derives (.rule .expression) [token .identifier] := .rule assignment
  have exprStmt : Derives (.rule .exprStmt) [token .identifier, token .semicolon] :=
    .rule (.seq expression (.one rfl rfl))
  have statement : Derives (.rule .statement) [token .identifier, token .semicolon] :=
    .rule (.right exprStmt)
  have condStmt : Derives (.rule .condStmt) [token (.keyword .cond), token .leftParen,
      token .identifier, token .rightParen, token .identifier, token .semicolon] :=
    .rule (.cons rfl rfl (.cons rfl rfl (.seq expression (.cons rfl rfl (.seq statement .absent)))))
  have definition : Derives (.rule .definition) [token .identifier, token .rightParen] :=
    .rule (.right (.cons rfl rfl (.seq .absent (.one rfl rfl))))
  cases name with
  | program => exact ⟨[], .rule .manyNil⟩
  | declaration => exact ⟨_, .rule (.right statement)⟩
  | definition => exact ⟨_, definition⟩
  | parameters => exact ⟨[token .identifier], .rule (.alone (.one rfl rfl))⟩
  | block => exact ⟨[token .rightParen], .rule (.seq .manyNil (.one rfl rfl))⟩
  | statement => exact ⟨_, statement⟩
  | condStmt => exact ⟨_, condStmt⟩
  | exprStmt => exact ⟨_, exprStmt⟩
  | expression => exact ⟨_, expression⟩
  | assignment => exact ⟨_, assignment⟩
  | logicOr => exact ⟨_, logicOr⟩
  | logicAnd => exact ⟨_, logicAnd⟩
  | equality => exact ⟨_, equality⟩
  | comparison => exact ⟨_, comparison⟩
  | addition => exact ⟨_, addition⟩
  | multiplication => exact ⟨_, multiplication⟩
  | unary => exact ⟨_, unary⟩
  | call => exact ⟨_, call⟩
  | arguments => exact ⟨_, .rule expression.alone⟩
  | primary => exact ⟨_, primary⟩

/-- Is there a kind to choose for each token? -/
def Phrase.proper : Phrase → Bool
  | .token kinds => kinds.any Token.Kind.isBare
  | .rule _ | .empty | .many _ => true
  | .seq first second => first.proper && second.proper
  | .alt first second => first.proper || second.proper

theorem Phrase.exists_derives {phrase : Phrase} (h : phrase.proper = true) :
    ∃ tokens, Derives phrase tokens := by
  induction phrase with
  | token kinds =>
    simp only [proper, List.any_eq_true] at h
    obtain ⟨kind, known, bare⟩ := h
    exact ⟨[⟨kind, "", none, .start⟩], .token known (fits_of_kind bare)⟩
  | rule name => exact name.exists_derives
  | empty => exact ⟨[], .empty⟩
  | many part => exact ⟨[], .manyNil⟩
  | seq first second ih₁ ih₂ =>
    simp only [proper, Bool.and_eq_true] at h
    obtain ⟨a, ha⟩ := ih₁ h.1
    obtain ⟨b, hb⟩ := ih₂ h.2
    exact ⟨a ++ b, .seq ha hb⟩
  | alt first second ih₁ ih₂ =>
    simp only [proper, Bool.or_eq_true] at h
    rcases h with h | h
    · obtain ⟨a, ha⟩ := ih₁ h
      exact ⟨a, .left ha⟩
    · obtain ⟨b, hb⟩ := ih₂ h
      exact ⟨b, .right hb⟩

end Syntax

end LispReader
