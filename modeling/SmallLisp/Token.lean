import SmallLisp.Text.Blank
import SmallLisp.Text.Decimal
import SmallLisp.Text.Quoted
import SmallLisp.Symbol

/-!
# Tokens

A text is scanned into tokens, each with the number of characters before it. Blanks and
comments stand between tokens and leave no trace; a comment runs from a semicolon through the
end of its line. The last token always marks the end of the text.

The scanner takes a token's kind from its first characters: a single mark, the rest marker, an
integer when a digit or a sign with a digit comes first, and a symbol otherwise. The first
place where no token can start ends the scan with the reason.

## Main results

* `length_skipGap_le` — skipping a gap never lengthens the text, so the scan ends.
-/

namespace SmallLisp

open Text

/-- What a token is. A symbol keeps its spelling as written. -/
inductive TokenKind where
  | openParen
  | closeParen
  | quote
  | quasiquote
  | unquote
  | unquoteSplicing
  | dot
  | rest
  | integer (value : Int64)
  | symbol (name : String)
  | eof
  deriving DecidableEq

/-- A token and the number of characters before it. -/
structure Token where
  kind : TokenKind
  offset : Nat
  deriving DecidableEq

/-- Why a text has no tokens. -/
inductive ScanError where
  /-- An ampersand that does not begin the rest marker. -/
  | invalidMarker (name : String) (offset : Nat)
  /-- A number that runs into a symbol. -/
  | malformedInteger (text : String) (offset : Nat)
  /-- A number that does not fit a signed 64-bit word. -/
  | integerOutOfRange (text : String) (offset : Nat)
  /-- A character that starts no token. -/
  | invalidCharacter (char : Char) (offset : Nat)
  /-- A token was asked for after the last one. -/
  | pastEnd (index : Nat)
  deriving DecidableEq

/-- The wording of a scan error. -/
def ScanError.message : ScanError → String
  | .invalidMarker name offset => "invalid marker &" ++ name ++ atOffset offset
  | .malformedInteger text offset => "malformed integer literal " ++ text ++ atOffset offset
  | .integerOutOfRange text offset => text ++ " is not a valid integer" ++ atOffset offset
  | .invalidCharacter char offset =>
      "invalid character '" ++ quoted char ++ "' (code point " ++ codePoint char ++ ")"
        ++ atOffset offset
  | .pastEnd index => "read past end of input (token " ++ Decimal.ofNat index ++ ")"
where
  atOffset (offset : Nat) : String := " at offset " ++ Decimal.ofNat offset

namespace Token

/-! ### Character classes -/

/-- The marks that may stand in a symbol besides letters and digits. -/
def symbolMarks : List Char :=
  ['-', '>', '<', '=', '$', '?', '!', '*', '+', '/', '_', '%']

/-- The character is one of the ASCII letters. -/
def isLetter (c : Char) : Bool :=
  ('a' ≤ c && c ≤ 'z') || ('A' ≤ c && c ≤ 'Z')

/-- The character may begin a symbol. -/
def isSymbolStart (c : Char) : Bool :=
  isLetter c || symbolMarks.contains c

/-- The character may continue a symbol. -/
def isSymbolChar (c : Char) : Bool :=
  isSymbolStart c || Decimal.isDigit c

/-- The character is a plus or minus sign. -/
def isSign (c : Char) : Bool :=
  c = '+' || c = '-'

/-! ### Gaps -/

/-- Skip blanks and comments, counting the characters that are passed. With `comment` set the
text starts inside a comment. -/
def skipGap (comment : Bool) (offset : Nat) : List Char → Nat × List Char
  | [] => (offset, [])
  | c :: cs =>
      if comment then skipGap (c ≠ '\n') (offset + 1) cs
      else if c = ';' then skipGap true (offset + 1) cs
      else if isBlank c then skipGap false (offset + 1) cs
      else (offset, c :: cs)

theorem length_skipGap_le (comment : Bool) (offset : Nat) (cs : List Char) :
    (skipGap comment offset cs).2.length ≤ cs.length := by
  induction cs generalizing comment offset with
  | nil => simp [skipGap]
  | cons c cs ih =>
      simp only [skipGap]
      split
      · exact Nat.le_succ_of_le (ih _ _)
      · split
        · exact Nat.le_succ_of_le (ih _ _)
        · split
          · exact Nat.le_succ_of_le (ih _ _)
          · exact Nat.le_refl _

/-! ### Lexemes -/

/-- The signed value of a run of digits, if it fits a 64-bit word. -/
def integerValue? (negative : Bool) (digits : List Char) : Option Int64 :=
  let magnitude : Int := Decimal.ofDigits digits
  let value := if negative then -magnitude else magnitude
  if Int64.minValue.toInt ≤ value ∧ value ≤ Int64.maxValue.toInt then some (Int64.ofInt value)
  else none

/-- The integer written as `sign` and `digits`, with `rest` behind it. -/
def integer (offset : Nat) (sign digits rest : List Char) : Except ScanError TokenKind :=
  let tail := rest.takeWhile isSymbolChar
  if tail.isEmpty then
    match integerValue? (sign = ['-']) digits with
    | some value => .ok (.integer value)
    | none => .error (.integerOutOfRange (String.ofList (sign ++ digits)) offset)
  else .error (.malformedInteger (String.ofList (sign ++ digits ++ tail)) offset)

/-- The kind of the token that begins with `c`, and how many characters of `cs` belong to it. -/
def lexeme (offset : Nat) (c : Char) (cs : List Char) : Except ScanError (TokenKind × Nat) :=
  match c with
  | '(' => .ok (.openParen, 0)
  | ')' => .ok (.closeParen, 0)
  | '\'' => .ok (.quote, 0)
  | '\x60' => .ok (.quasiquote, 0)
  | '.' => .ok (.dot, 0)
  | ',' => if cs.head? = some '@' then .ok (.unquoteSplicing, 1) else .ok (.unquote, 0)
  | '&' =>
      let name := cs.takeWhile isSymbolChar
      if upper (String.ofList name) = "REST" then .ok (.rest, name.length)
      else .error (.invalidMarker (String.ofList name) offset)
  | c =>
      let digits := cs.takeWhile Decimal.isDigit
      if Decimal.isDigit c then
        (integer offset [] (c :: digits) (cs.drop digits.length)).map (·, digits.length)
      else if isSign c ∧ digits ≠ [] then
        (integer offset [c] digits (cs.drop digits.length)).map (·, digits.length)
      else if isSymbolStart c then
        let name := cs.takeWhile isSymbolChar
        .ok (.symbol (String.ofList (c :: name)), name.length)
      else .error (.invalidCharacter c offset)

/-- Scan the rest of a text, `offset` characters into it, behind the tokens found so far (the
last one first). -/
def scanFrom (found : List Token) (offset : Nat) (text : List Char) :
    Except ScanError (List Token) :=
  match _h : skipGap false offset text with
  | (start, []) => .ok (⟨.eof, start⟩ :: found).reverse
  | (start, c :: cs) =>
      match lexeme start c cs with
      | .error e => .error e
      | .ok (kind, more) =>
          scanFrom (⟨kind, start⟩ :: found) (start + 1 + more) (cs.drop more)
termination_by text.length
decreasing_by
  have hgap := length_skipGap_le false offset text
  simp only [_h, List.length_cons, List.length_drop] at hgap ⊢
  omega

/-- The tokens of a text, ending in the one that marks its end. -/
def scan (text : String) : Except ScanError (List Token) :=
  scanFrom [] 0 text.toList

end Token

/-! ### Handing out tokens -/

/-- Tokens that are handed out one at a time. -/
structure TokenStream where
  upcoming : List Token
  /-- How many tokens were handed out. -/
  taken : Nat := 0

namespace TokenStream

/-- The tokens of a text, none of them handed out yet. -/
def ofText (text : String) : Except ScanError TokenStream :=
  (Token.scan text).map fun tokens => ⟨tokens, 0⟩

/-- Hand out the next token. Behind the last one there is nothing to hand out. -/
def next (stream : TokenStream) : Except ScanError (Token × TokenStream) :=
  match stream.upcoming with
  | [] => .error (.pastEnd stream.taken)
  | token :: upcoming => .ok (token, ⟨upcoming, stream.taken + 1⟩)

end TokenStream

end SmallLisp
