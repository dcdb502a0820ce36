/-!
# Lines of a text

`lines` cuts a text after every newline. By `flatten_lines` no character is lost: every line keeps
its end, and only the last one may lack it. `chomp` takes the end off.
-/

namespace LispReader.Text

/-- The lines of a text, each with its newline. After a last newline there is no further line. -/
def lines : List Char → List (List Char)
  | [] => []
  | c :: text =>
    if c = '\n' then [c] :: lines text
    else match lines text with
      | [] => [[c]]
      | line :: more => (c :: line) :: more

theorem flatten_lines (text : List Char) : (lines text).flatten = text := by
  induction text with
  | nil => rfl
  | cons c text ih =>
    unfold lines
    split
    · simp [ih]
    · split
      · rename_i h; simpa [h] using ih
      · rename_i h; simpa [h] using ih

/-- A line without its newline and without the one carriage return before that. A line that no
newline ends stays as it is. -/
def chomp (line : List Char) : List Char :=
  if line.getLast? = some '\n' then
    let body := line.dropLast
    if body.getLast? = some '\r' then body.dropLast else body
  else line

end LispReader.Text
