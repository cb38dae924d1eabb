import SmallLisp.Symbol

/-!
# Values

A value is a constant, an integer, a symbol, or a reference to something kept in a store: a
pair, or the lambda behind a closure or a macro. Two values are identical exactly when they are
equal here, since references are compared and not what they lead to.
-/

namespace SmallLisp

/-- The sorts of things that a store keeps. -/
inductive Kept where
  | cell
  | lambda
  | frame
  deriving DecidableEq

/-- A place in a store: the arena and the index within it. -/
structure Ref (sort : Kept) where
  arena : Nat
  index : Nat
  deriving DecidableEq, Hashable

/-- The place of a pair. -/
abbrev CellRef := Ref .cell

/-- The place of a lambda. -/
abbrev LambdaRef := Ref .lambda

/-- The place of a frame. -/
abbrev FrameRef := Ref .frame

/-- A value of the language. -/
inductive Value where
  | nil
  | t
  | integer (value : Int64)
  | symbol (name : Symbol)
  | pair (cell : CellRef)
  /-- A function over evaluated arguments. -/
  | closure (lambda : LambdaRef)
  /-- A macro: a function over argument forms, whose result is evaluated again. -/
  | expander (lambda : LambdaRef)
  /-- A native function, by its name. -/
  | builtin (name : Symbol)
  deriving DecidableEq

namespace Value

/-- The constant for a truth value. -/
def ofBool (b : Bool) : Value :=
  if b then t else nil

/-- Everything except `NIL` counts as true. -/
def isTruthy (value : Value) : Bool :=
  value ≠ nil

/-- The symbol that the value is. -/
def symbol? : Value → Option Symbol
  | symbol name => some name
  | _ => none

/-- The integer that the value is. -/
def integer? : Value → Option Int64
  | integer value => some value
  | _ => none

/-- The lambda behind a closure or macro. -/
def lambda? : Value → Option LambdaRef
  | closure lambda => some lambda
  | expander lambda => some lambda
  | _ => none

/-- The value is a pair. -/
def isPair : Value → Bool
  | pair _ => true
  | _ => false

/-- The word for the kind of a value. -/
def typeName : Value → String
  | nil => "nil"
  | t => "t"
  | integer _ => "integer"
  | symbol _ => "symbol"
  | pair _ => "pair"
  | closure _ => "closure"
  | expander _ => "macro"
  | builtin _ => "builtin"

end Value

end SmallLisp
