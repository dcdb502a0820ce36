import LispReader.Proofs.Cursor.Depth
import LispReader.Proofs.Parse.Cascade
import LispReader.Proofs.Scanner.Agrees

/-!
# What reading depends on

A rule that is read in place depends on the depth and on what lies ahead up to the first end, and on
nothing else: not on what stands behind that end, nor on what has been reported before
(`IsRule.depends`). So whatever follows the end of a program leaves its parse alone
(`nothing_after_end`), and scanning and parsing may share a log, to which they only add
(`log_only_grows`).
-/

namespace LispReader

open Grammar

namespace Reading

/-! ### Readings of the same input -/

/-- Wherever the same input lies ahead at the same depth, a rule has the same outcome, moves on as far
and adds the same reports. -/
theorem IsRule.depends {α : Type} {m : Nat → Reading α} (rule : IsRule m) {depth : Nat}
    (shallow : depth ≤ maxNesting) (input : List Token) (last : Token) :
    ∃ outcome length found, ∀ c : Cursor, c.Ahead input last → c.depth = depth →
      ∃ c', Finishes m c outcome c' ∧ c'.index = c.index + length ∧ c'.depth = depth ∧
        c'.diagnostics = c.diagnostics ++ found := by
  obtain ⟨r, refines⟩ := rule.ruled (maxNesting - depth)
  refine ⟨(r.run input).result.mapError (·.blame last), input.length - (r.run input).rest.length,
    (r.run input).reports.map (Parse.diagnose last), ?_⟩
  rintro c ahead rfl
  obtain ⟨c', finishes, passes⟩ := refines ahead (by omega)
  have index := passes.index
  have shorter := r.rest_length input
  exact ⟨c', finishes, by omega, passes.depth, passes.diagnostics⟩

theorem program_depends (tokens : List Token) : ∃ length, ∀ c : Cursor,
    c.Ahead (Parse.input tokens) (Parse.endToken tokens) → c.depth = 0 →
      ∃ c', Finishes program c (.ok (Parse.ofTokens tokens).statements) c' ∧
        c'.index = c.index + length ∧ c'.depth = 0 ∧
        c'.diagnostics = c.diagnostics ++ (Parse.ofTokens tokens).diagnostics := by
  obtain ⟨outcome, length, found, depends⟩ :=
    IsRule.program.depends (Nat.zero_le _) (Parse.input tokens) (Parse.endToken tokens)
  -- The cursor at the start tells which outcome and which reports these are.
  obtain ⟨stmts, final, finishes, parse, -⟩ := program_keepsDepth tokens
  obtain ⟨c', finishes', -, -, diagnostics⟩ :=
    depends (.start tokens) (Cursor.ahead_start _) rfl
  obtain ⟨rfl, rfl⟩ := Machine.finishes_unique finishes finishes'
  have found_eq : found = final.diagnostics := diagnostics.symm
  rw [parse, ← found_eq]
  exact ⟨length, depends⟩

/-- What stands behind the first end is neither read nor looked at, on whatever way a program comes to
that end. -/
theorem nothing_after_end {front : List Token} {last : Token}
    (noEnd : ∀ token ∈ front, token.kind ≠ .eof) (ends : last.kind = .eof)
    (rest rest' : List Token) :
    ∃ stmts final final',
      Finishes program (.start (front ++ last :: rest)) (.ok stmts) final ∧
      Finishes program (.start (front ++ last :: rest')) (.ok stmts) final' ∧
      final.index = final'.index ∧ final.diagnostics = final'.diagnostics ∧
      Parse.ofTokens (front ++ last :: rest) = ⟨stmts, final.diagnostics⟩ ∧
      Parse.ofTokens (front ++ last :: rest') = ⟨stmts, final'.diagnostics⟩ := by
  have input : Parse.input (front ++ last :: rest) = Parse.input (front ++ last :: rest') := by
    rw [Parse.input_ended noEnd ends, Parse.input_ended noEnd ends]
  have end_eq : Parse.endToken (front ++ last :: rest) = Parse.endToken (front ++ last :: rest') := by
    rw [Parse.endToken_ended noEnd ends, Parse.endToken_ended noEnd ends]
  have parse := Parse.ofTokens_congr input end_eq
  obtain ⟨length, depends⟩ := program_depends (front ++ last :: rest)
  obtain ⟨final, finishes, index, -, diagnostics⟩ :=
    depends (.start _) (Cursor.ahead_start _) rfl
  rw [input, end_eq] at depends
  obtain ⟨final', finishes', index', -, diagnostics'⟩ :=
    depends (.start _) (Cursor.ahead_start _) rfl
  refine ⟨_, final, final', finishes, finishes', index.trans index'.symm,
    diagnostics.trans diagnostics'.symm, ?_, ?_⟩
  · rw [diagnostics]
    rfl
  · rw [diagnostics', ← parse]
    rfl

/-- Behind an opening parenthesis and the end stands what would make a definition of them. -/
theorem nothing_after_end_define :
    let opening : Token := ⟨.leftParen, "(", none, ⟨1, 0⟩⟩
    let last : Token := .atEnd ⟨1, 1⟩
    let define : Token := ⟨.keyword .define, "Define", none, ⟨1, 1⟩⟩
    last.kind = .eof ∧ ∃ stmts final final',
      Finishes program (.start [opening, last, define]) (.ok stmts) final ∧
      Finishes program (.start [opening, last]) (.ok stmts) final' ∧
      final.index = final'.index ∧ final.diagnostics = final'.diagnostics ∧
      Parse.ofTokens [opening, last, define] = ⟨stmts, final.diagnostics⟩ ∧
      Parse.ofTokens [opening, last] = ⟨stmts, final'.diagnostics⟩ := by
  intro opening last define
  exact ⟨rfl, @nothing_after_end [opening] last (by decide) rfl [define] []⟩

end Reading

/-! ### A log for scanning and parsing -/

theorem Scan.lexical_of_mem {text : String} {d : Diagnostic}
    (known : d ∈ (Scan.ofText text).diagnostics) : d.kind = .lexical ∧ d.place = .line := by
  obtain ⟨_, -, rfl⟩ := List.mem_map.mp known
  exact ⟨rfl, rfl⟩

/-- The end that is put behind tokens without one is no token of theirs, but it is an end. -/
theorem Cursor.mem_of_mem_complete {tokens : List Token} {token : Token}
    (known : token ∈ complete tokens) (other : token.kind ≠ .eof) : token ∈ tokens := by
  unfold complete at known
  split at known
  · exact known
  · rcases List.mem_append.mp known with known | added
    · exact known
    · rw [List.mem_singleton] at added
      exact absurd (by rw [added]; rfl) other

/-- A syntactic diagnostic names the lexeme of the token it blames, unless that is an end. -/
theorem Parse.syntactic_of_mem {tokens : List Token} {d : Diagnostic}
    (known : d ∈ (ofTokens tokens).diagnostics) :
    d.kind = .syntactic ∧ ∃ token ∈ Cursor.complete tokens, d = .ofToken token d.message ∧
      (d.place = .atEnd ↔ token.kind = .eof) ∧
      (token.kind ≠ .eof → token ∈ tokens ∧ d.place = .atLexeme token.lexeme) := by
  obtain ⟨token, placed, same⟩ := exists_token_of_mem known
  have place : d.place = if token.kind = .eof then .atEnd else .atLexeme token.lexeme := by
    rw [same]
    rfl
  refine ⟨by rw [same]; rfl, token, placed, same, ?_, fun other => ⟨?_, ?_⟩⟩
  · rw [place]
    split <;> simp [*]
  · exact Cursor.mem_of_mem_complete placed other
  · rw [place, if_neg other]

/-- Scanning and parsing in place find the same whatever the log holds, and put it behind that: lexical
faults of a line, and syntactic ones that blame an end or the lexeme of a token. -/
theorem Diagnostic.log_only_grows (log : Log) (text : String) (tokens : List Token) :
    (∃ s s₀,
      Scanning.Runs Scanning.scanTokens { Scanner.before text with diagnostics := log.entries } ⟨⟩ s ∧
      Scanning.Runs Scanning.scanTokens (.before text) ⟨⟩ s₀ ∧
      log.scan text = (s.tokens, ⟨s.diagnostics⟩) ∧
      s.tokens = s₀.tokens ∧ s.diagnostics = log.entries ++ s₀.diagnostics ∧
      ∀ d ∈ s₀.diagnostics, d.kind = .lexical ∧ d.place = .line) ∧
    ∃ stmts c c₀,
      Reading.Finishes Reading.program { Cursor.start tokens with diagnostics := log.entries }
        (.ok stmts) c ∧
      Reading.Finishes Reading.program (.start tokens) (.ok stmts) c₀ ∧
      log.parse tokens = (stmts, ⟨c.diagnostics⟩) ∧
      c.diagnostics = log.entries ++ c₀.diagnostics ∧
      ∀ d ∈ c₀.diagnostics, d.kind = .syntactic ∧
        ∃ token ∈ Cursor.complete tokens, d = .ofToken token d.message ∧
          (d.place = .atEnd ↔ token.kind = .eof) ∧
          (token.kind ≠ .eof → token ∈ tokens ∧ d.place = .atLexeme token.lexeme) := by
  constructor
  · obtain ⟨s, runs, -, found, reported⟩ := Scanning.runs_scanTokens_behind text log.entries
    obtain ⟨s₀, runs₀, -, found₀, reported₀⟩ := Scanning.runs_scanTokens_behind text []
    rw [List.nil_append] at reported₀
    refine ⟨s, s₀, runs, runs₀, ?_, found.trans found₀.symm, reported₀ ▸ reported, ?_⟩
    · rw [found, reported]
      rfl
    · rw [reported₀]
      exact fun d known => Scan.lexical_of_mem known
  · obtain ⟨_, depends⟩ := Reading.program_depends tokens
    have ahead := Cursor.ahead_start tokens
    obtain ⟨c₀, finishes₀, -, -, reported₀⟩ := depends (.start tokens) ahead rfl
    obtain ⟨c, finishes, -, -, reported⟩ :=
      depends { Cursor.start tokens with diagnostics := log.entries } (ahead.of_eq rfl rfl) rfl
    have reported₀ : c₀.diagnostics = (Parse.ofTokens tokens).diagnostics := reported₀
    refine ⟨_, c, c₀, finishes, finishes₀, ?_, reported₀ ▸ reported, ?_⟩
    · rw [reported]
      rfl
    · rw [reported₀]
      exact fun d known => Parse.syntactic_of_mem known

end LispReader
