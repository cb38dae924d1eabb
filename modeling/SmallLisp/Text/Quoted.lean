import SmallLisp.Text.ExtendingMark
import SmallLisp.Text.Unprintable

/-!
# A character quoted in a message

A message that refuses a character names it twice: in a form that can be read on a terminal,
and by its code point.
-/

namespace SmallLisp.Text

/-- The code point in hexadecimal with small letters and no leading zeros. -/
def hex (c : Char) : String :=
  String.ofList (Nat.toDigits 16 c.toNat)

/-- The code point as `U+` and at least four capital hexadecimal digits. -/
def codePoint (c : Char) : String :=
  let digits := (Nat.toDigits 16 c.toNat).map Char.toUpper
  "U+" ++ String.ofList (List.replicate (4 - digits.length) '0' ++ digits)

/-- The character in readable form. The usual control characters, quotes and the backslash have
short escapes. A character that would merge with its neighbour or has no visible form is given
by its code point, and every other character stands for itself. -/
def quoted (c : Char) : String :=
  match c with
  | '\x00' => "\\0"
  | '\t' => "\\t"
  | '\r' => "\\r"
  | '\n' => "\\n"
  | '\'' => "\\'"
  | '"' => "\\\""
  | '\\' => "\\\\"
  | c =>
      if isExtendingMark c || isUnprintable c then "\\u\x7b" ++ hex c ++ "\x7d"
      else c.toString

end SmallLisp.Text
