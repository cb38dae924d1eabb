import SmallLisp.Error
import SmallLisp.Store

/-!
# Native functions

The functions that a session has from the start are primitives. A host may register further
ones: each is given the depth of evaluation, the store and its arguments, and answers with a
value or an error.

A host function changes nothing, neither the store nor the session, and it does not call the
evaluator. Code of a host could do all this. That it does not is a hypothesis about the code
(`HostCode.Quiet`), and quiet code is what the host functions here stand for.
-/

namespace SmallLisp

/-- The functions every session has. -/
inductive Primitive where
  | cons
  | car
  | cdr
  | list
  | setCar
  | setCdr
  | isEq
  | isPair
  | isNull
  | isAtom
  | isSymbol
  | isInteger
  | not
  | add
  | subtract
  | multiply
  | divide
  | less
  | greater
  | numEqual
  | apply
  | eval
  | expandOnce
  deriving DecidableEq

namespace Primitive

/-- The name of a primitive, as its messages give it. -/
def name : Primitive → String
  | cons => "cons"
  | car => "car"
  | cdr => "cdr"
  | list => "list"
  | setCar => "set-car!"
  | setCdr => "set-cdr!"
  | isEq => "eq?"
  | isPair => "pair?"
  | isNull => "null?"
  | isAtom => "atom?"
  | isSymbol => "symbol?"
  | isInteger => "integer?"
  | not => "not"
  | add => "+"
  | subtract => "-"
  | multiply => "*"
  | divide => "/"
  | less => "<"
  | greater => ">"
  | numEqual => "="
  | apply => "apply"
  | eval => "eval"
  | expandOnce => "macroexpand-1"

/-- All primitives. -/
def all : List Primitive :=
  [cons, car, cdr, list, setCar, setCdr, isEq, isPair, isNull, isAtom, isSymbol, isInteger, not,
   add, subtract, multiply, divide, less, greater, numEqual, apply, eval, expandOnce]

/-- The symbol that a primitive is bound to. -/
def symbol (primitive : Primitive) : Symbol :=
  .ofString primitive.name

/-- How many arguments a primitive takes. -/
def expected : Primitive → Expected
  | cons | setCar | setCdr | isEq | less | greater | numEqual => .exactly 2
  | car | cdr | isPair | isNull | isAtom | isSymbol | isInteger | not | eval | expandOnce =>
      .exactly 1
  | list | add | multiply => .atLeast 0
  | subtract | divide => .atLeast 1
  | apply => .atLeast 2

end Primitive

/-- A function that the host of a session supplies. Its code is quiet. -/
structure HostFunction where
  /-- The answer at a depth of evaluation, in a store, to arguments. -/
  call : Nat → Store → List Value → Except Error Value

/-- A native function. -/
inductive Native where
  | primitive (primitive : Primitive)
  | host (function : HostFunction)

end SmallLisp
