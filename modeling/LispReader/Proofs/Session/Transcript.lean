import LispReader.Proofs.Entry.Reader
import LispReader.Proofs.Text.Lines
import LispReader.Session

/-!
# Sessions put together

A session shows the banner and then answers one entry after the other, each on its own. So the session
over an input shows what the session over a first part of it shows, followed by what the rest of the
input is answered with, unless the last entry of the first part is cut off (`Session.transcript_append`).
-/

namespace LispReader

namespace Output

theorem empty_append (a : Output) : empty ++ a = a := by
  show Output.mk ("" ++ a.stdout) ("" ++ a.stderr) = a
  rw [String.empty_append, String.empty_append]

theorem append_assoc (a b c : Output) : a ++ b ++ c = a ++ (b ++ c) := by
  show Output.mk (a.stdout ++ b.stdout ++ c.stdout) (a.stderr ++ b.stderr ++ c.stderr) = _
  rw [String.append_assoc, String.append_assoc]
  rfl

theorem concat_append (a b : List Output) : concat (a ++ b) = concat a ++ concat b := by
  induction a with
  | nil => exact (empty_append _).symm
  | cons first a ih =>
    show first ++ concat (a ++ b) = first ++ concat a ++ concat b
    rw [ih, append_assoc]

end Output

namespace Session

/-- What is shown after an entry was read. -/
def answer (color showTokens : Bool) : Entry.Status → Output
  | .entry text => respond color showTokens text
  | .interrupted => ⟨"^C\n", ""⟩
  | .done => .empty

/-- A session reads entries until the end and answers each as soon as it is read. -/
theorem transcript_of_repeats (color showTokens : Bool) {input : String} {statuses : List Entry.Status}
    (h : Entry.Repeats (Entry.read ((Text.lines input.toList).map .line)) statuses) :
    transcript color showTokens input =
      ⟨banner, ""⟩ ++ .concat (statuses.map (answer color showTokens)) := by
  rw [h.unique (Entry.repeats_ofLines _), List.map_map]
  rfl

/-- Behind an input that is not cut off, the rest is answered as if nothing stood before it. -/
theorem transcript_append (color showTokens : Bool) {a : String} (b : String)
    (ended : a = "" ∨ ∃ body, a = body ++ "\n")
    (closed : ∀ entry ∈ (Entry.ofText a.toList).getLast?, ∀ line ∈ (Text.lines a.toList).getLast?,
      Text.isBlank line = true ∨ Entry.isOpen entry = false) :
    Entry.ofText (a ++ b).toList = Entry.ofText a.toList ++ Entry.ofText b.toList ∧
      ∃ shown, (transcript color showTokens b).stdout = banner ++ shown ∧
        (transcript color showTokens (a ++ b)).stdout =
          (transcript color showTokens a).stdout ++ shown ∧
        (transcript color showTokens (a ++ b)).stderr =
          (transcript color showTokens a).stderr ++ (transcript color showTokens b).stderr := by
  have ends : a.toList = [] ∨ ∃ body, a.toList = body ++ ['\n'] := by
    rcases ended with rfl | ⟨body, rfl⟩
    · exact .inl rfl
    · exact .inr ⟨body.toList, String.toList_append ..⟩
  have entries : Entry.ofText (a ++ b).toList = Entry.ofText a.toList ++ Entry.ofText b.toList := by
    rw [String.toList_append, Entry.ofText, Text.lines_append ends]
    exact Entry.ofLines_append closed
  have whole : transcript color showTokens (a ++ b) = transcript color showTokens a ++
      .concat ((Entry.ofText b.toList).map (respond color showTokens)) := by
    rw [transcript, entries, List.map_append, Output.concat_append, ← Output.append_assoc]
    rfl
  refine ⟨entries, _, rfl, congrArg Output.stdout whole, ?_⟩
  have second : (transcript color showTokens b).stderr =
      (Output.concat ((Entry.ofText b.toList).map (respond color showTokens))).stderr :=
    String.empty_append
  rw [second]
  exact congrArg Output.stderr whole

/-- The first part has an entry with a fault, and one of two lines. -/
def firstPart : String := "+;\n(Define x =\n 1)\n"

theorem transcript_append_firstPart :
    (∃ body, firstPart = body ++ "\n") ∧
      ∃ shown, (transcript false false "\"open").stdout = banner ++ shown ∧
        (transcript false false (firstPart ++ "\"open")).stdout =
          (transcript false false firstPart).stdout ++ shown := by
  have ended : ∃ body, firstPart = body ++ "\n" := ⟨"+;\n(Define x =\n 1)", by decide⟩
  have closed : ∀ entry ∈ (Entry.ofText firstPart.toList).getLast?,
      ∀ line ∈ (Text.lines firstPart.toList).getLast?,
        Text.isBlank line = true ∨ Entry.isOpen entry = false := by decide +kernel
  obtain ⟨-, shown, alone, after, -⟩ :=
    transcript_append false false "\"open" (.inr ended) closed
  exact ⟨ended, shown, alone, after⟩

end Session

end LispReader
