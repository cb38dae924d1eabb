import SmallLisp.Error
import SmallLisp.Store.Print

/-!
# The elements of a list

Following the second parts of pairs from a value either reaches `NIL`, and the value is a
proper list, or reaches something else that is no pair, or never ends. A walk along the pairs
finds this out without keeping the pairs it has passed. It watches for a single one of them, its
marker, and moves the marker up to where it is at distances that double each time: sooner or later
the marker is on the circle of an endless chain and stays long enough to be met again.
-/

namespace SmallLisp

/-- Why a value is no proper list. -/
inductive ListFault where
  /-- The chain of pairs never ends. -/
  | circular
  /-- The chain of pairs ends in something other than `NIL`. -/
  | endsIn (value : Value)
  deriving DecidableEq

/-- Where a walk along a chain of pairs stands. -/
structure Walk where
  /-- The first parts of the pairs that were passed, the last one first. -/
  found : List Value := []
  /-- The pair that is watched for. -/
  marker : Option CellRef := none
  /-- How many pairs were passed since the marker was moved. -/
  steps : Nat := 0
  /-- How many pairs are passed before the marker is moved. -/
  limit : Nat := 2

/-- Pass a pair. When it is time to move the marker, it is moved up to this pair. -/
def Walk.pass (walk : Walk) (ref : CellRef) (item : Value) : Walk :=
  if walk.steps + 1 = walk.limit then
    { found := item :: walk.found, marker := some ref, limit := 2 * walk.limit }
  else { walk with found := item :: walk.found, steps := walk.steps + 1 }

namespace Store

/-- The outcome of a walk, if it passes at most `bound` more pairs. -/
def elementsWithin (store : Store) : Nat → Walk → Value → Option (Except ListFault (List Value))
  | _, walk, .nil => some (.ok walk.found.reverse)
  | 0, _, .pair _ => none
  | bound + 1, walk, .pair ref =>
      if walk.marker = some ref then some (.error .circular)
      else store.elementsWithin bound (walk.pass ref (store.car ref)) (store.cdr ref)
  | _, _, value => some (.error (.endsIn value))

/-- A number of pairs that no walk passes completely: the marker is on the circle of an endless
chain after twice as many pairs as there are cells, and the circle is no longer than that. -/
def walkBound (store : Store) : Nat :=
  3 * store.cellCount + 4

/-- The elements of a proper list. -/
def elements (store : Store) (value : Value) : Except ListFault (List Value) :=
  (store.elementsWithin store.walkBound {} value).getD (.error .circular)

/-- The elements of a value that must be a proper list, or the error that it is none. What its pairs
end in is quoted. -/
def properElements (store : Store) (value : Value) : Except Error (List Value) :=
  match store.elements value with
  | .ok items => .ok items
  | .error .circular => .error (.type .circularList)
  | .error (.endsIn last) => .error (.type (.improperList (store.print last)))

end Store

end SmallLisp
