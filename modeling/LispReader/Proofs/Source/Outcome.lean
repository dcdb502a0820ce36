import LispReader.CommandLine
import LispReader.Proofs.Cursor.Dependence
import LispReader.Proofs.Parse.Append
import LispReader.Proofs.Source.Listing

/-!
# What becomes of a run

A run fails just if scanning finds a fault, or parsing where it comes to that, and then nothing but the
faults comes back: the lexical ones first, the syntactic ones behind them. Otherwise all the tokens come
back, or all the statements (`Source.RunAgrees`). The answer of the command line goes by that alone, with
its exit status and with what it writes on which channel (`CommandLine.Answer.Agrees`).
-/

namespace LispReader

theorem Diagnostic.Log.hasErrors_iff (log : Log) : log.hasErrors = true ↔ log.entries ≠ [] := by
  simp [hasErrors]

theorem Outcome.succeeded_iff {outcome : Outcome} :
    outcome.succeeded = true ↔ ¬ ∃ log, outcome = .failed log := by
  cases outcome <;> simp [succeeded]

namespace Source

variable {options : Options} {source : Source}

def lexicalFaults (source : Source) : List Diagnostic := (Scan.ofText source.text).diagnostics

/-- There are none where parsing is not asked for. -/
def syntacticFaults (options : Options) (source : Source) : List Diagnostic :=
  if options.showTokens then [] else (Parse.ofTokens (Scan.ofText source.text).tokens).diagnostics

def faults (options : Options) (source : Source) : List Diagnostic :=
  source.lexicalFaults ++ source.syntacticFaults options

/-- What is asked for. -/
def result (options : Options) (source : Source) : Outcome :=
  if options.showTokens then .tokens (Scan.ofText source.text).tokens
  else .parsed (Parse.ofTokens (Scan.ofText source.text).tokens).statements

theorem result_ne_failed (log : Diagnostic.Log) : source.result options ≠ .failed log := by
  unfold result
  split <;> simp

theorem run_eq (options : Options) (source : Source) : source.run options =
    if Diagnostic.Log.hasErrors ⟨source.faults options⟩ then .failed ⟨source.faults options⟩
    else source.result options := by
  unfold run faults result syntacticFaults
  cases options.showTokens with
  | true =>
    rw [if_pos rfl, List.append_nil]
    rfl
  | false => rfl

theorem run_of_faults (faulty : source.faults options ≠ []) :
    source.run options = .failed ⟨source.faults options⟩ := by
  rw [run_eq, if_pos ((Diagnostic.Log.hasErrors_iff ⟨source.faults options⟩).mpr faulty)]

theorem run_of_clean (clean : source.faults options = []) :
    source.run options = source.result options := by
  rw [run_eq, if_neg (mt (Diagnostic.Log.hasErrors_iff ⟨source.faults options⟩).mp (not_not.mpr clean))]

theorem run_eq_failed_iff {log : Diagnostic.Log} :
    source.run options = .failed log ↔ source.faults options ≠ [] ∧ log = ⟨source.faults options⟩ := by
  by_cases clean : source.faults options = []
  · simp [run_of_clean clean, result_ne_failed, clean]
  · simp [run_of_faults clean, clean, eq_comm]

theorem failed_iff : (∃ log, source.run options = .failed log) ↔ source.faults options ≠ [] := by
  simp [run_eq_failed_iff]

/-- What a run has to do with the faults of its source. -/
structure RunAgrees (options : Options) (source : Source) : Prop where
  failed_iff : (∃ log, source.run options = .failed log) ↔
    source.lexicalFaults ≠ [] ∨ source.syntacticFaults options ≠ []
  entries : ∀ log, source.run options = .failed log →
    log.entries = source.lexicalFaults ++ source.syntacticFaults options
  lexical : ∀ d ∈ source.lexicalFaults, d.kind = .lexical
  syntactic : ∀ d ∈ source.syntacticFaults options, d.kind = .syntactic
  tokens : options.showTokens = true → (¬ ∃ log, source.run options = .failed log) →
    source.run options = .tokens (Scan.ofText source.text).tokens
  statements : options.showTokens = false → (¬ ∃ log, source.run options = .failed log) →
    ∃ stmts tokens last, source.run options = .parsed stmts ∧
      stmts = (Parse.ofTokens (Scan.ofText source.text).tokens).statements ∧
      (Scan.ofText source.text).tokens = tokens ++ [.atEnd last] ∧ Stmt.AllWritten stmts tokens
  tokens_of_ok : (¬ ∃ log, source.run options = .failed log) →
    ∀ showTree, ¬ ∃ log, source.run ⟨true, showTree⟩ = .failed log

theorem kind_syntactic {d : Diagnostic} (known : d ∈ source.syntacticFaults options) :
    d.kind = .syntactic := by
  unfold syntacticFaults at known
  split at known
  · cases known
  · exact (Parse.syntactic_of_mem known).1

theorem runAgrees (options : Options) (source : Source) : source.RunAgrees options where
  failed_iff := by
    rw [failed_iff, faults, Ne, List.append_eq_nil_iff]
    tauto
  entries log failed := by
    obtain ⟨-, rfl⟩ := run_eq_failed_iff.mp failed
    rfl
  lexical _ known := (Scan.lexical_of_mem known).1
  syntactic _ known := kind_syntactic known
  tokens asked ok := by
    rw [failed_iff, not_not] at ok
    rw [run_of_clean ok, result, if_pos asked]
  statements asked ok := by
    rw [failed_iff, not_not] at ok
    have clean : (Parse.ofTokens (Scan.ofText source.text).tokens).diagnostics = [] := by
      have none := (List.append_eq_nil_iff.mp ok).2
      rwa [syntacticFaults, if_neg (by simp [asked])] at none
    obtain ⟨last, same⟩ := Scan.exists_input source.text
    refine ⟨_, _, last, ?_, rfl, same, Parse.written_of_clean clean⟩
    rw [run_of_clean ok, result, if_neg (by simp [asked])]
  tokens_of_ok ok showTree := by
    rw [failed_iff, not_not] at ok ⊢
    obtain ⟨none, -⟩ := List.append_eq_nil_iff.mp ok
    rw [faults, none]
    rfl

end Source

namespace CommandLine

/-- What an answer has to do with the outcome that it is about. Without colour the faults are listed in
plain text. -/
structure Answer.Agrees (color : Bool) (source : Source) (outcome : Outcome) (answer : Answer) :
    Prop where
  exit_faulty : answer.exit = 65 ↔ ∃ log, outcome = .failed log
  exit_zero : answer.exit = 0 ↔ ¬ ∃ log, outcome = .failed log
  stdout : ∀ log, outcome = .failed log → answer.output.stdout = ""
  listed : ∀ log, outcome = .failed log →
    Diagnostic.IsListing (fun style => style.paint color) source log.entries answer.output.stderr
  plain : color = false → ∀ log, outcome = .failed log →
    Diagnostic.IsListing (fun _ text => text) source log.entries answer.output.stderr
  stderr : (¬ ∃ log, outcome = .failed log) → answer.output.stderr = ""

theorem answerSource_agrees (color : Bool) (options : Options) (source : Source) :
    (answerSource color options source).Agrees color source (source.run options) := by
  have exit : (answerSource color options source).exit =
    if (source.run options).succeeded then 0 else 65 := rfl
  have output : (answerSource color options source).output =
    (source.run options).output color options source := rfl
  have listed (log : Diagnostic.Log) (failed : source.run options = .failed log) :
      Diagnostic.IsListing (fun style => style.paint color) source log.entries
        (answerSource color options source).output.stderr := by
    rw [output, failed]
    exact Diagnostic.isListing_listing color source log
  constructor
  case exit_faulty =>
    rw [exit, ← not_iff_not, ← Outcome.succeeded_iff]
    split <;> simp [*]
  case exit_zero =>
    rw [exit, ← Outcome.succeeded_iff]
    split <;> simp [*]
  case stdout =>
    intro log failed
    rw [output, failed]
    rfl
  case listed => exact listed
  case plain =>
    rintro rfl
    exact listed
  case stderr =>
    intro ok
    rw [output]
    cases outcome : source.run options with
    | tokens found => rfl
    | parsed statements =>
      unfold Outcome.output
      dsimp only
      split <;> rfl
    | failed log => exact absurd ⟨log, outcome⟩ ok

/-- What is found in a source decides what a run comes to, and that alone decides the answer. -/
theorem answer_agrees (color : Bool) (options : Options) (source : Source) :
    source.RunAgrees options ∧
      ∀ {read : String → Except ReadError Source} (input : String) {path : String},
        read path = .ok source →
          (answerRun color read input options (some path)).Agrees color source
            (source.run options) := by
  refine ⟨source.runAgrees options, fun input path readable => ?_⟩
  unfold answerRun
  dsimp only
  rw [readable]
  exact answerSource_agrees color options source

/-- Faults of both kinds in one source. -/
def mixedFaults : Source := ⟨"prog.lisp", "1 @ 2;\n3 +;"⟩

theorem answer_agrees_mixedFaults :
    let read : String → Except ReadError Source := fun path => .ok ⟨path, mixedFaults.text⟩
    let answer := answerRun false read "" ⟨false, true⟩ (some "prog.lisp")
    read "prog.lisp" = .ok mixedFaults ∧ answer.exit = 65 ∧ answer.output.stdout = "" ∧
      ∃ log, mixedFaults.run ⟨false, true⟩ = .failed log ∧
        Diagnostic.IsListing (fun _ text => text) mixedFaults log.entries answer.output.stderr ∧
        log.entries.map Diagnostic.text =
          ["[line 1] Error: Unexpected character.",
            "[line 1] Error at '2': Expect ';' after expression.",
            "[line 2] Error at ';': Expect expression."] := by
  intro read answer
  have readable : read "prog.lisp" = .ok mixedFaults := rfl
  obtain ⟨run, agrees⟩ := answer_agrees false ⟨false, true⟩ mixedFaults
  have agrees : answer.Agrees false mixedFaults _ := agrees "" readable
  obtain ⟨log, failed⟩ := run.failed_iff.mpr (.inl (by decide +kernel))
  refine ⟨readable, agrees.exit_faulty.mpr ⟨log, failed⟩, agrees.stdout log failed, log, failed,
    agrees.plain rfl log failed, ?_⟩
  rw [run.entries log failed]
  decide +kernel

end CommandLine

end LispReader
