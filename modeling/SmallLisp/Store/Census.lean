import SmallLisp.Store.Tally

/-!
# What is still in use

A store never takes anything out, but what nothing refers to any more is gone for good. A census
lists what is not known to be gone, so that references can be counted without the remains of
everything that ever was.

A lambda that is bound in the frame it was made in and that frame refer to each other. Such a
frame can be released if these lambdas and one handle are all that refers to it: its bindings are
taken out, and then nothing refers to the lambdas any more. When a call is over, its frame is
released if that is possible then; later on it is too late, and what is in the circle stays.

Each binding counts, also if its table is a copy of another one. Where copies share what is bound in
them until one of them changes, a lambda that is bound in both may count once. Then a frame whose
table has been copied may be found to be releasable that is not releasable here. What is said about
the release of a frame is said of frames whose table has not been copied. The frame of a call is
such a frame when the call is over: no one but the call has had a handle on it.
-/

namespace SmallLisp

/-- What was not known to be gone at the last count, and how far the arenas were filled then. -/
structure Census where
  known : List Item := []
  filled : Array Extent := #[]

namespace Store

/-- The lambdas bound in a frame that were made in it, once for each binding. -/
def ownLambdas (store : Store) (frame : FrameRef) : List LambdaRef :=
  ((store.table frame).values.filterMap Value.lambda?).filter fun ref =>
    (store.lambda ref).scope = frame

/-- Beside one handle on the frame, nothing refers to it but lambdas that are bound in it once
and held nowhere else. -/
def isReleasable (store : Store) (tally : Tally) (frame : FrameRef) : Bool :=
  let confined := (store.ownLambdas frame).countP fun ref => tally.count (.lambda ref) = 1
  confined ≠ 0 && tally.count (.frame frame) = confined + 1

end Store

namespace Census

/-- Everything that is not known to be gone. -/
def items (census : Census) (store : Store) : List Item :=
  store.itemsSince census.filled ++ census.known

/-- Count the references to everything that is in use, given what is held; the census is brought
up to date. -/
def count (census : Census) (store : Store) (held : List Hold) : Tally × Census :=
  let items := census.items store
  let tally := store.tally (held.flatMap Hold.items) items
  let tally := store.settle items.length (items.filter (tally.count · = 0)) tally
  (tally, ⟨items.filter (tally.count · ≠ 0), store.extents⟩)

/-- Take the bindings out of a frame if it can be released, given all that is held. The table of the
frame is supposed not to have been copied. -/
def release (census : Census) (store : Store) (held : List Hold) (frame : FrameRef) :
    Bool × Store × Census :=
  let (tally, census) := census.count store held
  if store.isReleasable tally frame then (true, store.clear frame, census)
  else (false, store, census)

/-- The store and the census at the end of a call that ran in a frame, given what is held beside
the handle on the frame: the frame is released if it can be. -/
def leave (census : Census) (store : Store) (held : List Hold) (frame : FrameRef) :
    Store × Census :=
  if (store.ownLambdas frame).isEmpty then (store, census)
  else (census.release store (.frames [frame] :: held) frame).2

end Census

end SmallLisp
