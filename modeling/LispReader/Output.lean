/-!
# Output

What is written on the two output channels, and coloured text.
-/

namespace LispReader

structure Output where
  stdout : String
  stderr : String
deriving DecidableEq

namespace Output

def empty : Output := ⟨"", ""⟩

/-- First `a`, then `b`, on each channel. -/
def append (a b : Output) : Output := ⟨a.stdout ++ b.stdout, a.stderr ++ b.stderr⟩

instance : Append Output := ⟨append⟩

def concat (outputs : List Output) : Output := outputs.foldr append empty

end Output

inductive Style where
  | red
  | boldRed
  | boldWhite
  | boldBlue

/-- The parameters of the escape sequence that turns a style on. -/
def Style.code : Style → String
  | .red => "31"
  | .boldRed => "1;31"
  | .boldWhite => "1;37"
  | .boldBlue => "1;34"

/-- The escape sequence that turns a style on. -/
def Style.start (style : Style) : List Char := ['\x1b', '['] ++ style.code.toList ++ ['m']

/-- The escape sequence that turns every style off. -/
def Style.reset : List Char := ['\x1b', '[', '0', 'm']

/-- A text that stays in the style throughout: each reset in it is followed by the style's start. -/
def Style.sustain (style : Style) : List Char → List Char
  | '\x1b' :: '[' :: '0' :: 'm' :: text => Style.reset ++ style.start ++ style.sustain text
  | c :: text => c :: style.sustain text
  | [] => []

/-- `text` in this style if `color` is on. An empty text is wrapped like any other. -/
def Style.paint (style : Style) (color : Bool) (text : String) : String :=
  if color then String.ofList (style.start ++ style.sustain text.toList ++ Style.reset) else text

end LispReader
