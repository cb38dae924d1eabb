import SmallLisp.Native

/-!
# Sessions

A session is what a program runs in: a frame of global bindings, the native functions it knows
by name, and a limit on nested evaluations. Everything that evaluation allocates goes into the
arena of the global frame. A forked session also keeps the global frames of the sessions it
comes from, since functions it has copied still run there.
-/

namespace SmallLisp

/-- A handle on the globals of a program, with its own native functions and limit. -/
structure Session where
  globals : FrameRef
  /-- The global frames of the sessions it was forked from, the nearest first. -/
  origins : List FrameRef := []
  natives : Table Native := .empty
  maxDepth : Nat := 1000
  /-- The number of evaluations in progress. -/
  depth : Nat := 0

/-- The arena in which a session allocates. -/
def Session.arena (session : Session) : Nat :=
  session.globals.arena

/-- The global frames that a handle on the session keeps in use. -/
def Session.keeps (session : Session) : List FrameRef :=
  session.globals :: session.origins

end SmallLisp
