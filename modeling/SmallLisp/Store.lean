import SmallLisp.Datum
import SmallLisp.Table
import SmallLisp.Value

/-!
# The store

A store keeps everything that has an identity: the cells of pairs, which can be changed in
place, lambdas, and frames of bindings. Things are grouped in arenas. A session allocates in
an arena of its own, so what one session allocates never shifts the places that another one
hands out. No more than this depends on arenas: a session whose things are at other places, in
whatever arena, has the same results (`Session.Matches.evalText`), and a workspace gives the same
replies (`Workspace.Matches.answerAll`).

Nothing is ever taken out of a store. A place that was never handed out reads as a pair of
`NIL`s, a lambda without parameters or body, or an empty frame.
-/

namespace SmallLisp

/-- The two parts of a pair. -/
structure Cell where
  car : Value := .nil
  cdr : Value := .nil

/-- The names of the parameters of a lambda: the required ones in order, and the one that
receives the list of all further arguments. -/
structure Params where
  required : List Symbol := []
  rest : Option Symbol := none
  deriving DecidableEq

/-- The body of a closure or macro together with the frame it was made in. -/
structure Lambda where
  name : Option Symbol := none
  params : Params := {}
  body : List Value := []
  scope : FrameRef

/-- A frame of bindings and the frames around it, the nearest first. The frames around a frame
never change. -/
structure Frame where
  table : Table Value := .empty
  ancestors : List FrameRef := []

/-- Cells, lambdas and frames, each sort in the order of allocation. -/
structure Arena where
  cells : Array Cell := #[]
  lambdas : Array Lambda := #[]
  frames : Array Frame := #[]

/-- All arenas. -/
structure Store where
  arenas : Array Arena := #[]

namespace Store

/-! ### Reading -/

/-- The cell at a place. -/
def cell? (store : Store) (ref : CellRef) : Option Cell :=
  store.arenas[ref.arena]?.bind (·.cells[ref.index]?)

/-- The lambda at a place. -/
def lambda? (store : Store) (ref : LambdaRef) : Option Lambda :=
  store.arenas[ref.arena]?.bind (·.lambdas[ref.index]?)

/-- The frame at a place. -/
def frame? (store : Store) (ref : FrameRef) : Option Frame :=
  store.arenas[ref.arena]?.bind (·.frames[ref.index]?)

/-- The two parts of the pair at a place. -/
def cell (store : Store) (ref : CellRef) : Cell :=
  (store.cell? ref).getD {}

/-- The lambda at a place. -/
def lambda (store : Store) (ref : LambdaRef) : Lambda :=
  (store.lambda? ref).getD { scope := ⟨ref.arena, 0⟩ }

/-- The frame at a place. -/
def frame (store : Store) (ref : FrameRef) : Frame :=
  (store.frame? ref).getD {}

/-- The first part of the pair at a place. -/
def car (store : Store) (ref : CellRef) : Value :=
  (store.cell ref).car

/-- The second part of the pair at a place. -/
def cdr (store : Store) (ref : CellRef) : Value :=
  (store.cell ref).cdr

/-- The bindings of the frame at a place. -/
def table (store : Store) (ref : FrameRef) : Table Value :=
  (store.frame ref).table

/-- The number of cells in all arenas. -/
def cellCount (store : Store) : Nat :=
  store.arenas.foldl (fun count arena => count + arena.cells.size) 0

/-! ### Changing -/

/-- Change one arena. -/
def modifyArena (store : Store) (index : Nat) (change : Arena → Arena) : Store :=
  { store with arenas := store.arenas.modify index change }

/-- Change the cell at a place. -/
def modifyCell (store : Store) (ref : CellRef) (change : Cell → Cell) : Store :=
  store.modifyArena ref.arena fun arena =>
    { arena with cells := arena.cells.modify ref.index change }

/-- Change the table of the frame at a place. -/
def modifyTable (store : Store) (ref : FrameRef) (change : Table Value → Table Value) : Store :=
  store.modifyArena ref.arena fun arena =>
    { arena with frames := arena.frames.modify ref.index fun frame =>
        { frame with table := change frame.table } }

/-- Replace the first part of a pair. -/
def setCar (store : Store) (ref : CellRef) (value : Value) : Store :=
  store.modifyCell ref ({ · with car := value })

/-- Replace the second part of a pair. -/
def setCdr (store : Store) (ref : CellRef) (value : Value) : Store :=
  store.modifyCell ref ({ · with cdr := value })

/-- Bind a symbol in a frame. -/
def bind (store : Store) (ref : FrameRef) (name : Symbol) (value : Value) : Store :=
  store.modifyTable ref (·.insert name value)

/-- Take every binding out of a frame. -/
def clear (store : Store) (ref : FrameRef) : Store :=
  store.modifyTable ref fun _ => .empty

/-! ### Allocating -/

/-- Begin a new arena; the first component is its index. -/
def addArena (store : Store) : Nat × Store :=
  (store.arenas.size, { store with arenas := store.arenas.push {} })

/-- A new pair. -/
def cons (store : Store) (arena : Nat) (car cdr : Value) : Value × Store :=
  let index := (store.arenas[arena]?.map (·.cells.size)).getD 0
  (.pair ⟨arena, index⟩,
   store.modifyArena arena fun arena => { arena with cells := arena.cells.push ⟨car, cdr⟩ })

/-- A new lambda. -/
def addLambda (store : Store) (arena : Nat) (lambda : Lambda) : LambdaRef × Store :=
  let index := (store.arenas[arena]?.map (·.lambdas.size)).getD 0
  (⟨arena, index⟩,
   store.modifyArena arena fun arena => { arena with lambdas := arena.lambdas.push lambda })

/-- A new frame. -/
def addFrame (store : Store) (arena : Nat) (frame : Frame) : FrameRef × Store :=
  let index := (store.arenas[arena]?.map (·.frames.size)).getD 0
  (⟨arena, index⟩,
   store.modifyArena arena fun arena => { arena with frames := arena.frames.push frame })

/-- A list of new pairs that hold the items, with `tail` behind them. -/
def listWithTail (store : Store) (arena : Nat) (items : List Value) (tail : Value) :
    Value × Store :=
  items.foldr (fun item (rest, store) => store.cons arena item rest) (tail, store)

/-- A proper list of new pairs that hold the items. -/
def list (store : Store) (arena : Nat) (items : List Value) : Value × Store :=
  store.listWithTail arena items .nil

/-- The value that a datum denotes, made of new pairs. -/
def ofDatum (store : Store) (arena : Nat) : Datum → Value × Store
  | .nil => (.nil, store)
  | .t => (.t, store)
  | .integer value => (.integer value, store)
  | .symbol name => (.symbol name, store)
  | .pair car cdr =>
      let (rest, store) := store.ofDatum arena cdr
      let (first, store) := store.ofDatum arena car
      store.cons arena first rest

/-- The values that data denote, made one after the other. -/
def ofData (store : Store) (arena : Nat) : List Datum → List Value × Store
  | [] => ([], store)
  | datum :: rest =>
      let (form, store) := store.ofDatum arena datum
      let (others, store) := store.ofData arena rest
      (form :: others, store)

end Store

end SmallLisp
