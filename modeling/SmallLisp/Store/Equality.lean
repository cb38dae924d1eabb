import SmallLisp.Store

/-!
# Structural equality

Two values are structurally equal when they are identical, or are pairs with structurally equal
parts. First parts are compared before second parts, and the first difference decides. On
circular data the comparison may have no end; it has none exactly when it comes to compare the
same two pairs again while it is still comparing them.
-/

namespace SmallLisp.Store

/-- Compare two values, going down through at most `bound` pairs. -/
def equalWithin (store : Store) : Nat → Value → Value → Option Bool
  | 0, left, right =>
      if left = right then some true
      else if left.isPair && right.isPair then none else some false
  | bound + 1, left, right =>
      if left = right then some true
      else
        match left, right with
        | .pair a, .pair b =>
            match store.equalWithin bound (store.car a) (store.car b) with
            | some true => store.equalWithin bound (store.cdr a) (store.cdr b)
            | other => other
        | _, _ => some false

/-- Compare two values. There is no answer when the comparison has no end: a descent through
more pairs of pairs than the store can form meets one of them twice. -/
def equal? (store : Store) (left right : Value) : Option Bool :=
  store.equalWithin ((store.cellCount + 2) * (store.cellCount + 2)) left right

end SmallLisp.Store
