import SmallLisp.Session.Lifecycle
import SmallLisp.Store.Equality

/-!
# Workspaces

A workspace is a store together with what its user holds: sessions, values and environments,
each in a slot with a name, and a source of files. What the user makes outside of any session is
allocated in an arena of the workspace's own.

A session stays in use as long as a slot holds a handle on it or on a session forked from it.
When the last of these is gone, the session's global frame is cleared.
-/

namespace SmallLisp

/-- Things in slots, the most recently filled slot first. -/
abbrev Slots (α : Type) := List (String × α)

namespace Slots

variable {α : Type}

/-- Empty a slot. -/
def remove (slots : Slots α) (name : String) : Slots α :=
  slots.filter (·.1 ≠ name)

/-- Fill a slot, over what it held. -/
def put (slots : Slots α) (name : String) (content : α) : Slots α :=
  (name, content) :: remove slots name

/-- What a slot holds. -/
def get? (slots : Slots α) (name : String) : Option α :=
  slots.lookup name

/-- What all slots hold. -/
def contents (slots : Slots α) : List α :=
  slots.map (·.2)

end Slots

/-- A store and everything its user holds. -/
structure Workspace where
  store : Store := { arenas := #[{}] }
  /-- What is in use, if a frame may be released. -/
  census : Option Census := some {}
  sessions : Slots Session := []
  values : Slots Value := []
  environments : Slots FrameRef := []
  files : Files := fun _ => .error .missing
  /-- The bound on nested steps of each evaluation. -/
  fuel : Nat := Session.defaultFuel

/-- Why a command has no answer. -/
inductive Refusal where
  | error (cause : Error)
  | exhausted
  | emptySlot (name : String)
  | notPair (name : String)

/-- Work on a workspace that may be refused. -/
abbrev WorkM := ExceptT Refusal (StateM Workspace)

namespace Workspace

/-- The arena of what is made outside of any session. -/
def arena : Nat := 0

/-- The global frames that are kept in use, each once. -/
def liveGlobals (workspace : Workspace) : List FrameRef :=
  (workspace.sessions.contents.flatMap Session.keeps).eraseDups

/-- Clear the global frames that a session kept and that no slot keeps any more. A count of the
references to the owners of global frames would find the same ones. -/
def retire (workspace : Workspace) (session : Session) : Workspace :=
  let gone := session.keeps.filter (!workspace.liveGlobals.contains ·)
  { workspace with store := gone.foldl Store.clear workspace.store }

/-- Take the handle out of a session slot. -/
def dropSession (workspace : Workspace) (name : String) : Workspace :=
  match workspace.sessions.get? name with
  | some session => { workspace with sessions := workspace.sessions.remove name }.retire session
  | none => workspace

/-- Put a handle in a session slot; a handle that was there is dropped. -/
def putSession (workspace : Workspace) (name : String) (session : Session) : Workspace :=
  let filled := { workspace with sessions := workspace.sessions.put name session }
  match workspace.sessions.get? name with
  | some old => filled.retire old
  | none => filled

/-- What the user holds: the environments and values in slots, and the global frames of the
sessions in use. -/
def held (workspace : Workspace) : List Hold :=
  [.frames workspace.environments.contents, .values workspace.values.contents,
   .frames workspace.liveGlobals]

/-- Release a frame if only its own lambdas and one handle refer to it. The table of the frame is
supposed not to have been copied. In a workspace without a
census nothing is known to be gone, and everything that was ever made is counted. -/
def release (workspace : Workspace) (frame : FrameRef) : Bool × Workspace :=
  let (released, store, census) :=
    (workspace.census.getD {}).release workspace.store workspace.held frame
  (released, { workspace with store, census := workspace.census.map fun _ => census })

end Workspace

namespace WorkM

variable {α : Type}

/-- What a slot holds, if it holds anything. -/
def slot (name : String) (slots : Workspace → Slots α) : WorkM α := do
  match (slots (← get)).get? name with
  | some content => pure content
  | none => throw (.emptySlot name)

/-- The session in a slot. -/
def session (name : String) : WorkM Session :=
  slot name (·.sessions)

/-- The value in a slot. -/
def value (name : String) : WorkM Value :=
  slot name (·.values)

/-- The environment in a slot. -/
def environment (name : String) : WorkM FrameRef :=
  slot name (·.environments)

/-- Look at the store. -/
def inspect (view : Store → α) : WorkM α := do
  return view (← get).store

/-- Change the store. -/
def update (change : Store → α × Store) : WorkM α :=
  modifyGet fun ⟨store, census, sessions, values, environments, files, fuel⟩ =>
    let (result, store) := change store
    (result, ⟨store, census, sessions, values, environments, files, fuel⟩)

/-- Stop with the error, if there is one. -/
def orError {ε : Type} (wrap : ε → Error) : Except ε α → WorkM α
  | .ok result => pure result
  | .error cause => throw (.error (wrap cause))

/-- Put a value in the slot that was asked for. -/
def keep (target : Option String) (value : Value) : WorkM Unit := do
  match target with
  | some name => modify fun workspace =>
      { workspace with values := workspace.values.put name value }
  | none => pure ()

/-- Put an environment in a slot. -/
def keepEnvironment (target : String) (frame : FrameRef) : WorkM Unit :=
  modify fun workspace => { workspace with environments := workspace.environments.put target frame }

/-- Run an evaluation in the session in a slot. -/
def evaluate (name : String) (evaluation : Session → EvalM α) : WorkM α := do
  let session ← session name
  let held := (← get).held
  let result ← modifyGet fun ⟨store, census, sessions, values, environments, files, fuel⟩ =>
    let (result, session, store, census) :=
      session.execute held store census (evaluation session)
    (result, ⟨store, census, sessions.put name session, values, environments, files, fuel⟩)
  match result with
  | .ok result => pure result
  | .error (.error cause) => throw (.error cause)
  | .error .exhausted => throw .exhausted

/-- The value of a text that holds one form, made in an arena. -/
def readOne (arena : Nat) (text : String) : WorkM Value := do
  let datum ← orError .text (Datum.readOne text)
  update (·.ofDatum arena datum)

end WorkM

end SmallLisp
