import SmallLisp.Symbol
import SmallLisp.Text.Decimal

/-!
# Data

A datum is what a piece of text denotes: one of the two constants, an integer, a symbol, or a
pair of data. A proper list is a chain of pairs that ends in `NIL`.

The printed form writes a chain of pairs as one parenthesised list and puts a dot in front of
a last part that is not `NIL`.
-/

namespace SmallLisp

/-- A tree of constants, integers and symbols. -/
inductive Datum where
  | nil
  | t
  | integer (value : Int64)
  | symbol (name : Symbol)
  | pair (car cdr : Datum)
  deriving DecidableEq

/-- Where a value stands when it is printed: on its own, or as what remains of a list behind
an element. -/
inductive Position where
  | element
  | remainder
  deriving DecidableEq

/-- The text of something that is not a pair, at its position. -/
def Position.atom (text : String) : Position → String
  | .element => text
  | .remainder => " . " ++ text

/-- The text of a pair at its position, given the text of its two parts. -/
def Position.list (parts : String) : Position → String
  | .element => "(" ++ parts ++ ")"
  | .remainder => " " ++ parts

/-- The text of `NIL`, which closes a list without being written. -/
def Position.nil : Position → String
  | .element => "NIL"
  | .remainder => ""

namespace Datum

/-- The list of the given data with `tail` behind them. -/
def listWithTail (items : List Datum) (tail : Datum) : Datum :=
  items.foldr pair tail

/-- The proper list of the given data. -/
def list (items : List Datum) : Datum :=
  listWithTail items nil

/-- What a name stands for: the two constants, and a symbol for any other name. -/
def ofName (name : String) : Datum :=
  if upper name = "NIL" then nil
  else if upper name = "T" then t
  else symbol (.ofString name)

/-- The printed form at a position. -/
def printAt (position : Position) : Datum → String
  | nil => position.nil
  | t => position.atom "T"
  | integer value => position.atom (Decimal.ofInt value.toInt)
  | symbol name => position.atom name.spelling
  | pair car cdr => position.list (car.printAt .element ++ cdr.printAt .remainder)

/-- The printed form of a datum. -/
def print (datum : Datum) : String :=
  datum.printAt .element

/-- The word for the kind of a datum. -/
def typeName : Datum → String
  | nil => "nil"
  | t => "t"
  | integer _ => "integer"
  | symbol _ => "symbol"
  | pair _ _ => "pair"

end Datum

end SmallLisp
