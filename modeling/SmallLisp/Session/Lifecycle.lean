import SmallLisp.Session.Text

/-!
# Starting and forking sessions

A session starts with the two constants and all primitives bound in a global frame of its own,
and may then load files. A fork starts with the bindings that its origin has at that moment;
from then on the two define names independently.
-/

namespace SmallLisp.Session

/-- The native functions of a new session. -/
def primitives : Table Native :=
  Primitive.all.foldl (fun table primitive => table.insert primitive.symbol (.primitive primitive))
    .empty

/-- The global bindings of a new session. -/
def initialGlobals : Table Value :=
  Primitive.all.foldl
    (fun table primitive => table.insert primitive.symbol (.builtin primitive.symbol))
    ((Table.empty.insert (.ofString "NIL") .nil).insert (.ofString "T") .t)

/-- A new session with nothing loaded, in an arena of its own. -/
def create (store : Store) (maxDepth : Nat) : Session × Store :=
  let (arena, store) := store.addArena
  let (globals, store) := store.addFrame arena { table := initialGlobals }
  ({ globals, natives := primitives, maxDepth }, store)

/-- Run an evaluation in a session while its host holds something: the outcome, and the session,
the store and the census afterwards. -/
def execute {α : Type} (session : Session) (held : List Hold) (store : Store)
    (census : Option Census) (evaluation : EvalM α) :
    Except Halt α × Session × Store × Option Census :=
  let (result, ⟨store, census, depth⟩) :=
    (evaluation (.frames session.keeps :: held)).run ⟨store, census, session.depth⟩
  (result, { session with depth }, store, census)

/-- A new session that has loaded the given files in order. -/
def start (fuel : Nat) (files : Files) (maxDepth : Nat) (preload : List String)
    (held : List Hold) (store : Store) (census : Option Census) :
    Except Halt Unit × Session × Store × Option Census :=
  let (session, store) := create store maxDepth
  session.execute held store census
    (preload.forM fun path => do discard (session.load fuel files path))

/-- Register a native function and bind its name in the global frame. -/
def register (session : Session) (store : Store) (name : Symbol) (native : Native) :
    Session × Store :=
  ({ session with natives := session.natives.insert name native },
   store.bind session.globals name (.builtin name))

/-- A new session whose global bindings start as a copy of those of this one. -/
def fork (session : Session) (store : Store) : Session × Store :=
  let (arena, store) := store.addArena
  let (globals, store) := store.snapshot arena session.globals
  ({ session with globals, origins := session.keeps, depth := 0 }, store)

end SmallLisp.Session
