import LispReader.Text.Ranges

/-!
# White space

The characters with the Unicode property White_Space. `isBlank` holds of a text that has no others.
-/

namespace LispReader.Text

def spaceRanges : List (Nat × Nat) :=
  [(0x09, 0x0D), (0x20, 0x20), (0x85, 0x85), (0xA0, 0xA0), (0x1680, 0x1680), (0x2000, 0x200A),
    (0x2028, 0x2029), (0x202F, 0x202F), (0x205F, 0x205F), (0x3000, 0x3000)]

def isSpace (c : Char) : Bool := inRanges spaceRanges c

/-- Nothing but white space. -/
def isBlank (text : List Char) : Bool := text.all isSpace

end LispReader.Text
