import SmallLisp.Datum
import SmallLisp.Token

/-!
# Reading data from tokens

A reader looks at one token at a time and keeps the constructs that are still open on a stack,
the innermost first. Each token either goes into the innermost open construct or shows that
the text is malformed; the table `Reader.action` says which. A datum that is complete is handed
to the construct around it, which may complete in turn.

The number of open constructs is limited. A reader that has refused a token stays at the place
where it stopped, with nothing open, and can be asked again.

## Main results

* `Reader.length_upcoming_lt` — a form that is read takes at least one token, so reading all
  forms of a text ends.
-/

namespace SmallLisp

/-! ### Why a text cannot be read -/

/-- The marks that are written in front of a form. -/
inductive QuoteMark where
  | quote
  | quasiquote
  | unquote
  | unquoteSplicing
  deriving DecidableEq

namespace QuoteMark

/-- The mark as it is written. -/
def text : QuoteMark → String
  | quote => "'"
  | quasiquote => "`"
  | unquote => ","
  | unquoteSplicing => ",@"

/-- The head of the two-element list that a marked form stands for. -/
def head : QuoteMark → Symbol
  | quote => .quote
  | quasiquote => .quasiquote
  | unquote => .unquote
  | unquoteSplicing => .unquoteSplicing

/-- The meaning of a marked form. -/
def apply (mark : QuoteMark) (form : Datum) : Datum :=
  .list [.symbol mark.head, form]

end QuoteMark

/-- A construct that has begun and is not complete. Items are kept last one first. -/
inductive OpenForm where
  /-- A list whose parenthesis stands at `start`. -/
  | list (start : Nat) (items : List Datum)
  /-- A list behind its dot. -/
  | dotted (items : List Datum)
  /-- A list whose last part is read and that must be closed. -/
  | closing (items : List Datum) (tail : Datum)
  /-- A quote mark. -/
  | marked (mark : QuoteMark)
  /-- A rest marker at `start`. -/
  | rest (start : Nat)
  deriving DecidableEq

/-- Why a sequence of tokens is no sequence of forms. -/
inductive ReadError where
  | unexpectedClose (offset : Nat)
  | missingClose (start : Nat)
  | strayDot (offset : Nat)
  | dotWithoutCar (offset : Nat)
  | formsAfterCdr
  | endAfterMark (mark : QuoteMark)
  | endAfterRest
  | endAfterDot
  | endAfterOpen
  | restNotSymbol (start : Nat) (got : Datum)
  | tooDeep (limit : Nat) (offset : Nat)
  | noForm
  | severalForms (count : Nat)
  deriving DecidableEq

/-- The wording of a read error. -/
def ReadError.message : ReadError → String
  | unexpectedClose offset =>
      "unmatched parenthesis: unexpected ')' at offset " ++ Decimal.ofNat offset
  | missingClose start =>
      "unmatched parenthesis: missing ')' for '(' at offset " ++ Decimal.ofNat start
  | strayDot offset => "unexpected '.' outside of a list at offset " ++ Decimal.ofNat offset
  | dotWithoutCar offset =>
      "illegal dotted pair: no car element before '.' at offset " ++ Decimal.ofNat offset
  | formsAfterCdr => "illegal dotted pair: more forms after cdr element"
  | endAfterMark mark => "unexpected end of input after " ++ mark.text
  | endAfterRest => "unexpected end of input after &rest"
  | endAfterDot => "unexpected end of input after '.'"
  | endAfterOpen => "unexpected end of input after '('"
  | restNotSymbol start got =>
      "&rest at offset " ++ Decimal.ofNat start ++ " must be followed by a symbol, got "
        ++ got.print
  | tooDeep limit offset =>
      "nesting too deep: more than " ++ Decimal.ofNat limit ++ " levels at offset "
        ++ Decimal.ofNat offset
  | noForm => "expected a form, got end of input"
  | severalForms count => "expected a single form, got " ++ Decimal.ofNat count

/-- Why a text has no meaning: it has no tokens, or its tokens are no forms. -/
inductive TextError where
  | scan (cause : ScanError)
  | read (cause : ReadError)
  deriving DecidableEq

/-! ### The reader -/

/-- A reader: the token it looks at, the tokens behind that one, the number of tokens it was
handed, and the number of constructs that may be open at once. -/
structure Reader where
  current : Token
  upcoming : List Token
  taken : Nat
  limit : Nat

namespace Reader

/-- What a reader does next after taking a token: hand out a form, or go on with these open
constructs. -/
inductive Progress where
  | form (datum : Datum)
  | within (stack : List OpenForm)

/-- What a reader does with the token it looks at. -/
inductive Action where
  /-- Leave the token and stop, at the end of the text or with an error. -/
  | stop (reason : Option ReadError)
  /-- Take the token, then go on or stop with an error. -/
  | take (next : Except ReadError Progress)

/-- Hand a complete datum to the construct around it. -/
def complete : List OpenForm → Datum → Except ReadError Progress
  | [], datum => .ok (.form datum)
  | .list start items :: stack, datum => .ok (.within (.list start (datum :: items) :: stack))
  | .dotted items :: stack, datum => .ok (.within (.closing items datum :: stack))
  | .closing _ _ :: _, _ => .error .formsAfterCdr
  | .marked mark :: stack, datum => complete stack (mark.apply datum)
  | .rest start :: stack, datum =>
      match datum with
      | .symbol _ => complete stack (.list [.symbol .restMarker, datum])
      | _ => .error (.restNotSymbol start datum)

/-- Open one more construct, unless the limit is reached. -/
def enter (limit offset : Nat) (stack : List OpenForm) (opened : OpenForm) :
    Except ReadError Progress :=
  if limit ≤ stack.length then .error (.tooDeep limit offset)
  else .ok (.within (opened :: stack))

/-- A quote mark is taken only if the limit allows what it opens. -/
def enterMark (limit offset : Nat) (stack : List OpenForm) (mark : QuoteMark) : Action :=
  match enter limit offset stack (.marked mark) with
  | .error e => .stop (some e)
  | .ok next => .take (.ok next)

/-- What the end of the text means for the innermost open construct. -/
def endWithin : List OpenForm → Option ReadError
  | [] => none
  | .list start _ :: _ => some (.missingClose start)
  | .dotted _ :: _ => some .endAfterDot
  | .closing _ _ :: _ => some .formsAfterCdr
  | .marked mark :: _ => some (.endAfterMark mark)
  | .rest _ :: _ => some .endAfterRest

/-- What a reader with the given open constructs does with a token. -/
def action (limit : Nat) (stack : List OpenForm) (token : Token) : Action :=
  match stack, token.kind with
  | .closing items tail :: outer, .closeParen =>
      .take (complete outer (.listWithTail items.reverse tail))
  | .closing _ _ :: _, _ => .stop (some .formsAfterCdr)
  | .list _ items :: outer, .closeParen => .take (complete outer (.list items.reverse))
  | .list _ [] :: _, .dot => .stop (some (.dotWithoutCar token.offset))
  | .list _ items :: outer, .dot => .take (.ok (.within (.dotted items :: outer)))
  | _, .closeParen => .stop (some (.unexpectedClose token.offset))
  | _, .dot => .stop (some (.strayDot token.offset))
  | stack, .eof => .stop (endWithin stack)
  | stack, .integer value => .take (complete stack (.integer value))
  | stack, .symbol name => .take (complete stack (.ofName name))
  | stack, .quote => enterMark limit token.offset stack .quote
  | stack, .quasiquote => enterMark limit token.offset stack .quasiquote
  | stack, .unquote => enterMark limit token.offset stack .unquote
  | stack, .unquoteSplicing => enterMark limit token.offset stack .unquoteSplicing
  | stack, .rest => .take (enter limit token.offset stack (.rest token.offset))
  | stack, .openParen => .take (enter limit token.offset stack (.list token.offset []))

/-- The answer of a reader that stops: nothing at the end of the text, otherwise the error. -/
def stopped : Option ReadError → Except TextError (Option Datum)
  | none => .ok none
  | some e => .error (.read e)

/-- Read on with the given open constructs until a form is complete. The second component is
the reader where it stopped. -/
def readWithin (limit : Nat) (stack : List OpenForm) (current : Token) (taken : Nat) :
    List Token → Except TextError (Option Datum) × Reader
  | [] =>
      match action limit stack current with
      | .stop reason => (stopped reason, ⟨current, [], taken, limit⟩)
      | .take _ => (.error (.scan (.pastEnd taken)), ⟨current, [], taken, limit⟩)
  | token :: upcoming =>
      match action limit stack current with
      | .stop reason => (stopped reason, ⟨current, token :: upcoming, taken, limit⟩)
      | .take (.error e) => (.error (.read e), ⟨token, upcoming, taken + 1, limit⟩)
      | .take (.ok (.form datum)) => (.ok (some datum), ⟨token, upcoming, taken + 1, limit⟩)
      | .take (.ok (.within stack)) => readWithin limit stack token (taken + 1) upcoming

/-- Read the next form, or nothing at the end of the text. -/
def readForm (reader : Reader) : Except TextError (Option Datum) × Reader :=
  readWithin reader.limit [] reader.current reader.taken reader.upcoming

theorem stopped_ne_some (reason : Option ReadError) (datum : Datum) :
    stopped reason ≠ .ok (some datum) := by
  cases reason <;> simp [stopped]

theorem length_upcoming_lt_of_readWithin {limit taken : Nat} {stack : List OpenForm}
    {current : Token} {upcoming : List Token} {datum : Datum} {reader : Reader}
    (h : readWithin limit stack current taken upcoming = (.ok (some datum), reader)) :
    reader.upcoming.length < upcoming.length := by
  induction upcoming generalizing stack current taken with
  | nil =>
      unfold readWithin at h
      split at h <;> simp [stopped_ne_some] at h
  | cons token upcoming ih =>
      unfold readWithin at h
      split at h
      · simp [stopped_ne_some] at h
      · simp at h
      · simp only [Prod.mk.injEq] at h
        simp [← h.2]
      · exact Nat.lt_succ_of_lt (ih h)

/-- A form that is read takes at least one token. -/
theorem length_upcoming_lt {before after : Reader} {datum : Datum}
    (h : before.readForm = (.ok (some datum), after)) :
    after.upcoming.length < before.upcoming.length :=
  length_upcoming_lt_of_readWithin h

/-- Read the forms up to the end of the text, behind those read so far (the last one first). -/
def readAllFrom (found : List Datum) (reader : Reader) : Except TextError (List Datum) :=
  match _h : reader.readForm with
  | (.error e, _) => .error e
  | (.ok none, _) => .ok found.reverse
  | (.ok (some datum), next) => readAllFrom (datum :: found) next
termination_by reader.upcoming.length
decreasing_by exact length_upcoming_lt _h

/-- All forms up to the end of the text. -/
def readAll (reader : Reader) : Except TextError (List Datum) :=
  readAllFrom [] reader

/-- How many constructs may be open at once unless something else is asked for. -/
def defaultLimit : Nat := 1000

/-- A reader at the first token of a stream. -/
def ofStream (stream : TokenStream) (limit : Nat) : Except TextError Reader :=
  match stream.next with
  | .error e => .error (.scan e)
  | .ok (token, rest) => .ok ⟨token, rest.upcoming, rest.taken, limit⟩

/-- A reader at the beginning of a text. -/
def ofText (text : String) (limit : Nat) : Except TextError Reader :=
  match TokenStream.ofText text with
  | .error e => .error (.scan e)
  | .ok stream => ofStream stream limit

end Reader

namespace Datum

/-- The forms that a text denotes, with at most `limit` constructs open at once. -/
def readWith (limit : Nat) (text : String) : Except TextError (List Datum) :=
  (Reader.ofText text limit).bind Reader.readAll

/-- The forms that a text denotes. -/
def read (text : String) : Except TextError (List Datum) :=
  readWith Reader.defaultLimit text

/-- The one form that a text denotes. -/
def readOne (text : String) : Except TextError Datum :=
  match read text with
  | .error e => .error e
  | .ok [datum] => .ok datum
  | .ok [] => .error (.read .noForm)
  | .ok forms => .error (.read (.severalForms forms.length))

end Datum

end SmallLisp
