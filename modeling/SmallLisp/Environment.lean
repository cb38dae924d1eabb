import SmallLisp.Store

/-!
# Environments

A frame and the frames around it form an environment: a name means what the nearest of these
frames that binds it says. The outermost frame is the root that all environments of a chain
share.
-/

namespace SmallLisp.Store

/-- The frame and the frames around it, the nearest first. -/
def scope (store : Store) (ref : FrameRef) : List FrameRef :=
  ref :: (store.frame ref).ancestors

/-- The meaning of a name: its value in the nearest frame that binds it. -/
def lookup (store : Store) (ref : FrameRef) (name : Symbol) : Option Value :=
  (store.scope ref).findSome? fun frame => (store.table frame).lookup name

/-- A new frame that no frame is around. -/
def newRoot (store : Store) (arena : Nat) : FrameRef × Store :=
  store.addFrame arena {}

/-- A new frame without bindings inside the given one. -/
def extend (store : Store) (arena : Nat) (ref : FrameRef) : FrameRef × Store :=
  store.addFrame arena { ancestors := store.scope ref }

/-- A new frame that starts with the bindings of the given one and has the same frames around
it. Later bindings in either are not seen in the other. -/
def snapshot (store : Store) (arena : Nat) (ref : FrameRef) : FrameRef × Store :=
  store.addFrame arena (store.frame ref)

/-- The outermost frame of the environment. -/
def root (store : Store) (ref : FrameRef) : FrameRef :=
  (store.frame ref).ancestors.getLastD ref

/-- A frame is around this one. -/
def hasParent (store : Store) (ref : FrameRef) : Bool :=
  (store.frame ref).ancestors ≠ []

end SmallLisp.Store
