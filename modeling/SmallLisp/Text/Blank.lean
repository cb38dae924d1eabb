import SmallLisp.Text.CodeRange

/-!
# Blank characters

The `White_Space` property: what may stand between two tokens, and what is cut from both ends
of a line before it is read.
-/

namespace SmallLisp.Text

/-- The ranges of code points with the `White_Space` property, in increasing order. -/
def blankRanges : List CodeRange :=
  [⟨0x9, 0xD⟩, ⟨0x20, 0x20⟩, ⟨0x85, 0x85⟩, ⟨0xA0, 0xA0⟩, ⟨0x1680, 0x1680⟩, ⟨0x2000, 0x200A⟩,
   ⟨0x2028, 0x2029⟩, ⟨0x202F, 0x202F⟩, ⟨0x205F, 0x205F⟩, ⟨0x3000, 0x3000⟩]

/-- The character separates tokens and stands for nothing itself. -/
def isBlank (c : Char) : Bool :=
  blankRanges.any (·.contains c)

/-- The text without its leading blanks. -/
def dropBlanks (cs : List Char) : List Char :=
  cs.dropWhile isBlank

/-- The text without the blanks at either end. -/
def trim (text : String) : String :=
  String.ofList (dropBlanks (dropBlanks text.toList).reverse).reverse

end SmallLisp.Text
