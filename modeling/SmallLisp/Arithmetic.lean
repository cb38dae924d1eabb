/-!
# Integer arithmetic

Integers are signed 64-bit words. A sum, product, difference or quotient is computed from the
left, one argument at a time, and refused as soon as an intermediate value does not fit a word.
Division cuts off toward zero.
-/

namespace SmallLisp.Arithmetic

/-- Why a calculation has no result. -/
inductive Fault where
  | overflow
  | divisionByZero
  deriving DecidableEq

/-- The word that holds an integer, if there is one. -/
def fit (value : Int) : Except Fault Int64 :=
  if Int64.minValue.toInt ≤ value ∧ value ≤ Int64.maxValue.toInt then .ok (Int64.ofInt value)
  else .error .overflow

/-- The sum of all arguments. -/
def sum (args : List Int64) : Except Fault Int64 :=
  args.foldlM (fun acc n => fit (acc.toInt + n.toInt)) 0

/-- The product of all arguments. -/
def product (args : List Int64) : Except Fault Int64 :=
  args.foldlM (fun acc n => fit (acc.toInt * n.toInt)) 1

/-- The first argument less all others. -/
def subtract (first : Int64) (others : List Int64) : Except Fault Int64 :=
  others.foldlM (fun acc n => fit (acc.toInt - n.toInt)) first

/-- The first argument divided by all others in turn. -/
def divide (first : Int64) (others : List Int64) : Except Fault Int64 :=
  others.foldlM
    (fun acc n => if n = 0 then .error .divisionByZero else fit (acc.toInt.tdiv n.toInt)) first

/-- The difference of a list of arguments; a single one is negated. -/
def difference : List Int64 → Except Fault Int64
  | [n] => fit (-n.toInt)
  | first :: others => subtract first others
  | [] => .ok 0

/-- The quotient of a list of arguments; a single one divides one. -/
def quotient : List Int64 → Except Fault Int64
  | [n] => divide 1 [n]
  | first :: others => divide first others
  | [] => .ok 1

end SmallLisp.Arithmetic
