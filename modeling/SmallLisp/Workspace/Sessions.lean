import SmallLisp.Workspace.Reply

/-!
# Commands on sessions

Each command is addressed to the session in a slot.
-/

namespace SmallLisp

/-- What can be done with a session. Values and environments are named by their slots, and `target`
names the slot for a result. -/
inductive SessionCommand where
  /-- A new session in the slot. -/
  | start (maxDepth : Nat) (preload : List String)
  /-- A session that begins as a copy of this one, in the slot `target`. -/
  | fork (target : String)
  /-- Another handle on this session, in the slot `target`. -/
  | clone (target : String)
  /-- Drop the handle. -/
  | drop
  /-- Evaluate all forms of a text. -/
  | eval (text : String)
  /-- Evaluate all forms of a text for the last value. -/
  | evalLast (text : String) (target : Option String)
  /-- Evaluate the forms on a line. -/
  | evalLine (line : String)
  /-- Evaluate a file. -/
  | load (path : String) (target : Option String)
  /-- Evaluate a value as a form. -/
  | evalValue (form : String) (target : Option String)
  /-- Evaluate one form in an environment. -/
  | evalIn (env text : String) (target : Option String)
  /-- Apply a function to values. -/
  | apply (function : String) (args : List String) (target : Option String)
  /-- Expand one form once. -/
  | expand (text : String) (target : Option String)
  /-- The global frame. -/
  | globals (target : String)
  /-- The names bound in the global frame. -/
  | symbols
  /-- The number of evaluations in progress. -/
  | depth
  /-- Whether a name announces a special form. -/
  | isSpecial (name : String)
  /-- Register a native function. -/
  | register (name : String) (native : Native)

namespace WorkM

/-- A new session in a slot. Nothing changes if a file cannot be loaded. -/
def startSession (slot : String) (maxDepth : Nat) (preload : List String) : WorkM Unit := do
  let workspace ← get
  match Session.start workspace.fuel workspace.files maxDepth preload workspace.held
      workspace.store workspace.census with
  | (.ok _, session, store, census) =>
      set ({ workspace with store, census }.putSession slot session)
  | (.error (.error cause), _) => throw (.error cause)
  | (.error .exhausted, _) => throw .exhausted

end WorkM

namespace SessionCommand

open WorkM

/-- Carry out a command on the session in a slot. -/
def perform (slot : String) (command : SessionCommand) : WorkM Reply := do
  let fuel := (← get).fuel
  match command with
  | start maxDepth preload =>
      startSession slot maxDepth preload
      return .done
  | fork target =>
      let origin ← session slot
      let forked ← update origin.fork
      modify (·.putSession target forked)
      return .done
  | clone target =>
      let handle ← session slot
      modify (·.putSession target handle)
      return .done
  | drop =>
      discard (session slot)
      modify (·.dropSession slot)
      return .done
  | eval text =>
      let values ← evaluate slot (·.evalText fuel text)
      return .values (← inspect fun store => values.map store.shown)
  | evalLast text target => giveValue target (← evaluate slot (·.evalTextLast fuel text))
  | evalLine line =>
      let outcomes ← evaluate slot (·.evalLine fuel line)
      return .outcomes (← inspect fun store => outcomes.map (·.map store.shown))
  | load path target =>
      let files := (← get).files
      giveValue target (← evaluate slot (·.load fuel files path))
  | evalValue form target =>
      let subject ← value form
      giveValue target (← evaluate slot (·.evalGlobal fuel subject))
  | evalIn env text target =>
      let frame ← environment env
      let form ← readOne (← session slot).arena text
      giveValue target (← evaluate slot (·.evalIn fuel form frame))
  | apply function args target =>
      let callee ← value function
      let values ← args.mapM value
      giveValue target (← evaluate slot (·.apply fuel callee values))
  | expand text target =>
      let form ← readOne (← session slot).arena text
      giveValue target (← evaluate slot (·.expandOnce fuel form))
  | globals target => giveEnvironment target (← session slot).globals
  | symbols =>
      let globals := (← session slot).globals
      return .symbols (← inspect fun store => (store.table globals).symbols.map (·.spelling))
  | depth => return .depth (← session slot).depth
  | isSpecial name =>
      discard (session slot)
      return .special (SpecialForm.ofSymbol? (.ofString name)).isSome
  | register name native =>
      let before ← session slot
      let after ← update fun store => before.register store (.ofString name) native
      modify fun workspace => { workspace with sessions := workspace.sessions.put slot after }
      return .done

end SessionCommand

end SmallLisp
