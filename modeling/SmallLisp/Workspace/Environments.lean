import SmallLisp.Workspace.Reply

/-!
# Commands on environments

Frames can be made, copied, looked into and changed without any session.
-/

namespace SmallLisp

/-- What can be done with environments. They are named by their slots, and `target` names the slot
for the result. -/
inductive EnvironmentCommand where
  /-- A new frame that no frame is around. -/
  | newRoot (target : String)
  /-- A new frame inside another one. -/
  | extend (env target : String)
  /-- A copy of a frame. -/
  | snapshot (env target : String)
  /-- Another handle on a frame. -/
  | handle (env target : String)
  /-- The outermost frame around a frame. -/
  | root (env target : String)
  /-- Empty a slot. -/
  | forget (env : String)
  /-- Bind a name to the value in a slot. -/
  | bind (env name value : String)
  /-- The meaning of a name. -/
  | lookup (env name : String) (target : Option String)
  /-- Whether a name has a meaning. -/
  | contains (env name : String)
  /-- The bindings of a frame. -/
  | bindings (env : String)
  /-- Whether two environments are one. -/
  | same (left right : String)
  /-- Take all bindings out of a frame. -/
  | clear (env : String)
  /-- Take all bindings out of a frame if nothing else needs it. The frame is supposed not to have
  been copied. -/
  | release (env : String)

namespace EnvironmentCommand

open WorkM

/-- Carry out a command on environments. -/
def perform : EnvironmentCommand → WorkM Reply
  | newRoot target => do giveEnvironment target (← update (·.newRoot Workspace.arena))
  | extend env target => do
      let frame ← environment env
      giveEnvironment target (← update (·.extend Workspace.arena frame))
  | snapshot env target => do
      let frame ← environment env
      giveEnvironment target (← update (·.snapshot Workspace.arena frame))
  | handle env target => do giveEnvironment target (← environment env)
  | root env target => do
      let frame ← environment env
      giveEnvironment target (← inspect (·.root frame))
  | forget env => do
      modify fun workspace =>
        { workspace with environments := workspace.environments.remove env }
      return .done
  | bind env name slot => do
      let frame ← environment env
      let bound ← value slot
      update fun store => ((), store.bind frame (.ofString name) bound)
      return .environment (← inspect (·.summary frame))
  | lookup env name target => do
      let frame ← environment env
      match ← inspect (·.lookup frame (.ofString name)) with
      | some found => giveValue target found
      | none => return .nothing
  | contains env name => do
      let frame ← environment env
      return .contains (← inspect (·.lookup frame (.ofString name))).isSome
  | bindings env => do
      let frame ← environment env
      return .bindings (← inspect (·.listing frame))
  | same left right => do
      let a ← environment left
      let b ← environment right
      return .same (a = b)
  | clear env => do
      let frame ← environment env
      update fun store => ((), store.clear frame)
      return .environment (← inspect (·.summary frame))
  | release env => do
      let frame ← environment env
      let released ← modifyGet (·.release frame)
      return .released released (← inspect (·.summary frame))

end EnvironmentCommand

end SmallLisp
