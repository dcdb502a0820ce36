import LispReader.Text.Lines

/-!
# Sources

A text to read, and the name that messages give it.
-/

namespace LispReader

structure Source where
  name : String
  text : String

namespace Source

/-- A text that was typed in. -/
def prompt (text : String) : Source := ⟨"<prompt>", text⟩

/-- The line with this number, without its end. -/
def line? (source : Source) (number : Nat) : Option (List Char) :=
  if number = 0 then none else (Text.lines source.text.toList)[number - 1]?.map Text.chomp

end Source

end LispReader
