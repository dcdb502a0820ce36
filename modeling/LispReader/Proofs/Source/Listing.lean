import LispReader.Proofs.Text.Lines
import LispReader.Source.Listing
import Mathlib.Data.List.Forall2

/-!
# What a listing consists of

A listing has a block for each diagnostic and the number of them at the end. Both are described here
without the functions that write them (`Diagnostic.IsBlock`, `Diagnostic.IsListing`): a block is headed
by the kind of fault, names the place that is blamed, and shows the line that counting newlines leads to,
where there is such a line. The description is open to any way of colouring text.
-/

namespace LispReader

theorem Source.line?_eq_some_iff {source : Source} {number : Nat} {line : List Char} :
    source.line? number = some line ↔ Text.IsLine source.text.toList number line := by
  cases number with
  | zero =>
    constructor
    · intro h
      cases h
    · rintro ⟨front, _, -, -, number, -⟩
      cases number
  | succ number => exact Text.getElem?_lines_eq_some_iff

namespace Diagnostic

/-- How a block about a fault of this kind is headed. -/
inductive IsHeader : Kind → String → Prop where
  | lexical : IsHeader .lexical "lexical error"
  | syntactic : IsHeader .syntactic "parse error"

/-- What stands behind the header: the line, what is blamed in it, and the message. -/
inductive IsSummary (number : Nat) (message : String) : Place → String → Prop where
  | line : IsSummary number message .line ("[line " ++ toString number ++ "] Error: " ++ message)
  | atEnd :
    IsSummary number message .atEnd ("[line " ++ toString number ++ "] Error at end: " ++ message)
  | atLexeme (lexeme : String) :
    IsSummary number message (.atLexeme lexeme)
      ("[line " ++ toString number ++ "] Error at '" ++ lexeme ++ "': " ++ message)

/-- The line of the position and below it a caret, with as many tildes before it as the column says. Where
the text has no such line, nothing is shown. -/
inductive IsExcerpt (paint : Style → String → String) (text : List Char) (pos : Position) :
    String → Prop where
  | shown {line : List Char} : Text.IsLine text pos.line line →
    IsExcerpt paint text pos
      (String.ofList line ++ "\n" ++
        paint .boldBlue (String.ofList (List.replicate pos.col.toNat '~')) ++
        paint .boldBlue "^" ++ "\n")
  | absent : (∀ line, ¬ Text.IsLine text pos.line line) → IsExcerpt paint text pos ""

inductive IsBlock (paint : Style → String → String) (source : Source) (d : Diagnostic) :
    String → Prop where
  | intro {header summary excerpt : String} :
    IsHeader d.kind header → IsSummary d.pos.line d.message d.place summary →
    IsExcerpt paint source.text.toList d.pos excerpt →
    IsBlock paint source d
      ("lispi: " ++ paint .boldRed header ++ ": " ++ paint .boldWhite summary ++ "\n" ++
        "in " ++ source.name ++ ", at line " ++ toString d.pos.line ++ ", column " ++
        toString d.pos.col ++ ":\n" ++ excerpt)

/-- The blocks of the diagnostics in order, and how many there are. -/
inductive IsListing (paint : Style → String → String) (source : Source) (found : List Diagnostic) :
    String → Prop where
  | intro {blocks : List String} {noun : String} :
    List.Forall₂ (IsBlock paint source) found blocks →
    noun = (if found.length = 1 then "error" else "errors") →
    IsListing paint source found
      (String.join blocks ++ "lispi: " ++
        paint .red (toString found.length ++ " " ++ noun ++ " in " ++ source.name) ++ "\n")

variable (color : Bool) (source : Source)

theorem isHeader_header (kind : Kind) : IsHeader kind kind.header := by
  cases kind
  · exact .lexical
  · exact .syntactic

theorem isSummary_text (d : Diagnostic) : IsSummary d.pos.line d.message d.place d.text := by
  unfold text
  cases d.place with
  | line => simpa [Place.text, String.append_assoc] using IsSummary.line
  | atEnd => simpa [Place.text, String.append_assoc] using IsSummary.atEnd
  | atLexeme lexeme =>
    have before : "] Error at '" = "] Error" ++ " at '" := rfl
    have behind : "': " = "'" ++ ": " := rfl
    have summary := @IsSummary.atLexeme d.pos.line d.message lexeme
    rw [before, behind] at summary
    simpa only [Place.text, String.append_assoc] using summary

theorem isExcerpt_excerpt (pos : Position) : IsExcerpt (fun style => style.paint color)
    source.text.toList pos (excerpt color source pos) := by
  unfold excerpt
  cases found : source.line? pos.line with
  | none =>
    refine .absent fun line isLine => ?_
    rw [Source.line?_eq_some_iff.mpr isLine] at found
    cases found
  | some line => exact .shown (Source.line?_eq_some_iff.mp found)

theorem isBlock_listing (d : Diagnostic) :
    IsBlock (fun style => style.paint color) source d (d.listing color source) :=
  .intro (isHeader_header d.kind) (isSummary_text d) (isExcerpt_excerpt color source d.pos)

theorem isListing_listing (log : Log) :
    IsListing (fun style => style.paint color) source log.entries (log.listing color source) := by
  have blocks : List.Forall₂ (IsBlock (fun style => style.paint color) source) log.entries
      (log.entries.map (listing color source)) := by
    rw [List.forall₂_map_right_iff, List.forall₂_same]
    exact fun d _ => isBlock_listing color source d
  have count : countText log.entries.length source = toString log.entries.length ++ " " ++
      (if log.entries.length = 1 then "error" else "errors") ++ " in " ++ source.name := by
    unfold countText
    split <;> simp [String.append_assoc]
  have listing := IsListing.intro blocks rfl
  rwa [← count] at listing

end Diagnostic

end LispReader
