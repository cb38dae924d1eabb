import SmallLisp.Workspace.Basic

/-!
# Replies

What a workspace answers is text and numbers: values and frames are shown as they are at the
moment of the answer.
-/

namespace SmallLisp

/-- A value as it is shown: its printed form and the word for its kind. -/
structure Shown where
  text : String
  typeName : String
  deriving DecidableEq

/-- A frame as it is shown: how many bindings it has, and whether a frame is around it. -/
structure FrameSummary where
  size : Nat
  hasParent : Bool
  deriving DecidableEq

/-- What can be said about a value by itself. -/
structure Description where
  shown : Shown
  isTruthy : Bool
  isNil : Bool
  symbol : Option String
  integer : Option String
  deriving DecidableEq

/-- The answer to a command. -/
inductive Reply where
  | done
  | nothing
  | refused (reason : Refusal)
  | value (shown : Shown)
  | values (shown : List Shown)
  | items (shown : List Shown)
  | outcomes (outcomes : List (Except Error Shown))
  | description (description : Description)
  | comparison (identical : Bool) (equal : Option Bool)
  | environment (summary : FrameSummary)
  | released (wasReleased : Bool) (summary : FrameSummary)
  | bindings (entries : List (String × String))
  | symbols (names : List String)
  | contains (answer : Bool)
  | same (answer : Bool)
  | special (answer : Bool)
  | depth (count : Nat)

namespace Store

/-- How a value is shown. -/
def shown (store : Store) (value : Value) : Shown :=
  ⟨store.print value, value.typeName⟩

/-- How a frame is shown. -/
def summary (store : Store) (frame : FrameRef) : FrameSummary :=
  ⟨(store.table frame).size, store.hasParent frame⟩

/-- The names bound in a frame with the printed forms of their values, in order. -/
def listing (store : Store) (frame : FrameRef) : List (String × String) :=
  (store.table frame).entries.map fun (name, value) => (name.spelling, store.print value)

/-- What can be said about a value by itself. -/
def describe (store : Store) (value : Value) : Description :=
  { shown := store.shown value
    isTruthy := value.isTruthy
    isNil := value = .nil
    symbol := value.symbol?.map (·.spelling)
    integer := value.integer?.map fun n => Decimal.ofInt n.toInt }

end Store

namespace WorkM

/-- Show a value and put it in the slot that was asked for. -/
def giveValue (target : Option String) (value : Value) : WorkM Reply := do
  keep target value
  return .value (← inspect (·.shown value))

/-- Show an environment and put it in a slot. -/
def giveEnvironment (target : String) (frame : FrameRef) : WorkM Reply := do
  keepEnvironment target frame
  return .environment (← inspect (·.summary frame))

end WorkM

end SmallLisp
