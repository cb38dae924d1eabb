import SmallLisp.Environment

/-!
# What refers to what

Cells, lambdas and frames are the items of a store. A pair refers to its two parts, a lambda to
its frame and to the values in its body, a frame to the frame next around it and to its
bindings.
-/

namespace SmallLisp

/-- Something a store keeps. -/
inductive Item where
  | cell (ref : CellRef)
  | lambda (ref : LambdaRef)
  | frame (ref : FrameRef)
  deriving DecidableEq, Hashable

/-- What a value refers to. -/
def Value.items : Value → List Item
  | pair ref => [.cell ref]
  | closure ref => [.lambda ref]
  | expander ref => [.lambda ref]
  | _ => []

/-- What someone outside a store holds. -/
inductive Hold where
  | values (held : List Value)
  | frames (held : List FrameRef)

/-- What a hold refers to, once for each reference. -/
def Hold.items : Hold → List Item
  | values held => held.flatMap Value.items
  | frames held => held.map .frame

/-- How many things of each sort an arena keeps. -/
structure Extent where
  cells : Nat := 0
  lambdas : Nat := 0
  frames : Nat := 0
  deriving DecidableEq

namespace Arena

/-- How far an arena is filled. -/
def extent (arena : Arena) : Extent :=
  ⟨arena.cells.size, arena.lambdas.size, arena.frames.size⟩

/-- What an arena keeps beyond an earlier extent. -/
def itemsSince (arena : Arena) (index : Nat) (earlier : Extent) : List Item :=
  (List.range' earlier.cells (arena.cells.size - earlier.cells)).map (.cell ⟨index, ·⟩)
    ++ (List.range' earlier.lambdas (arena.lambdas.size - earlier.lambdas)).map
      (.lambda ⟨index, ·⟩)
    ++ (List.range' earlier.frames (arena.frames.size - earlier.frames)).map (.frame ⟨index, ·⟩)

end Arena

namespace Store

/-- How far each arena is filled. -/
def extents (store : Store) : Array Extent :=
  store.arenas.map Arena.extent

/-- What a store keeps beyond the earlier extents of its arenas. -/
def itemsSince (store : Store) (earlier : Array Extent) : List Item :=
  store.arenas.toList.zipIdx.flatMap fun (arena, index) =>
    arena.itemsSince index (earlier[index]?.getD {})

/-- What an item refers to, once for each reference. -/
def references (store : Store) : Item → List Item
  | .cell ref => (store.car ref).items ++ (store.cdr ref).items
  | .lambda ref =>
      .frame (store.lambda ref).scope :: (store.lambda ref).body.flatMap Value.items
  | .frame ref =>
      ((store.frame ref).ancestors.head?.map Item.frame).toList
        ++ (store.table ref).values.flatMap Value.items

end Store

end SmallLisp
