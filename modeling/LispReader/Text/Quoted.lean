import LispReader.Text.Combining
import LispReader.Text.Ignorable
import LispReader.Text.Unprintable

/-!
# Quoted text

A text between double quotes, with an escape for each character that would end the text, show
nothing or merge with its neighbour.
-/

namespace LispReader.Text

/-- `c` as its code point in lower-case hexadecimal, `\u` before it and braces around it. -/
def codePointEscape (c : Char) : List Char :=
  '\\' :: 'u' :: '\x7b' :: Nat.toDigits 16 c.toNat ++ ['\x7d']

/-- How `c` is written between double quotes. -/
def escape : Char → List Char
  | '"' => ['\\', '"']
  | '\\' => ['\\', '\\']
  | '\n' => ['\\', 'n']
  | '\r' => ['\\', 'r']
  | '\t' => ['\\', 't']
  | '\x00' => ['\\', '0']
  | c =>
    if ' ' ≤ c ∧ c ≤ '~' then [c]
    else if isCombining c || isIgnorable c || isUnprintable c then codePointEscape c
    else [c]

def quoted (text : String) : String :=
  String.ofList ('"' :: text.toList.flatMap escape ++ ['"'])

end LispReader.Text
