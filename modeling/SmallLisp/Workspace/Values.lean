import SmallLisp.Workspace.Reply

/-!
# Commands on values

Values can be made and looked into without any session. What is made here is allocated in the
workspace's own arena.
-/

namespace SmallLisp

/-- What can be done with values. Values are named by their slots, and `target` names the slot for
a result that is to be kept. -/
inductive ValueCommand where
  /-- Read one form. -/
  | read (text : String) (target : Option String)
  /-- The symbol of any spelling. -/
  | symbol (name : String) (target : Option String)
  /-- The native function of any name, known or not. -/
  | builtin (name : String) (target : Option String)
  /-- A new pair. -/
  | cons (car cdr : String) (target : Option String)
  /-- A list of new pairs. -/
  | list (items : List String) (tail : Option String) (target : Option String)
  /-- Replace the first part of a pair. -/
  | setCar (pair part : String)
  /-- Replace the second part of a pair. -/
  | setCdr (pair part : String)
  /-- Everything that can be said about a value by itself. -/
  | describe (value : String)
  /-- The elements of a proper list. -/
  | elements (value : String)
  /-- Identity and structural equality. -/
  | compare (left right : String)
  /-- Empty a slot. -/
  | forget (value : String)
  /-- A new closure or macro in an environment. -/
  | lambda (scope spec body : String) (name : Option String) (isMacro : Bool)
      (target : Option String)

namespace WorkM

/-- Change a pair in a slot and show it. -/
def changePair (pair part : String) (change : Store → CellRef → Value → Store) :
    WorkM Reply := do
  let newPart ← value part
  match ← value pair with
  | .pair ref =>
      update fun store => ((), change store ref newPart)
      return .value (← inspect (·.shown (.pair ref)))
  | _ => throw (.notPair pair)

/-- A new lambda over texts for its parameters and its body. -/
def makeLambda (scope spec body : String) (name : Option String) : WorkM LambdaRef := do
  let frame ← environment scope
  let specValue ← readOne Workspace.arena spec
  let params ← orError .eval (← inspect (·.params specValue))
  let forms ← orError .text (Datum.read body)
  let body ← update (·.ofData Workspace.arena forms)
  update (·.addLambda Workspace.arena
    { name := name.map Symbol.ofString, params, body, scope := frame })

/-- The elements of a value that must be a proper list. -/
def elementsOf (subject : Value) : WorkM (List Value) := do
  orError id (← inspect (·.properElements subject))

end WorkM

namespace ValueCommand

open WorkM

/-- Carry out a command on values. -/
def perform : ValueCommand → WorkM Reply
  | read text target => do giveValue target (← readOne Workspace.arena text)
  | symbol name target => giveValue target (.symbol (.ofString name))
  | builtin name target => giveValue target (.builtin (.ofString name))
  | cons car cdr target => do
      let first ← value car
      let second ← value cdr
      giveValue target (← update (·.cons Workspace.arena first second))
  | list items tail target => do
      let values ← items.mapM value
      let last ← match tail with
        | some name => value name
        | none => pure .nil
      giveValue target (← update (·.listWithTail Workspace.arena values last))
  | setCar pair part => changePair pair part Store.setCar
  | setCdr pair part => changePair pair part Store.setCdr
  | describe name => do
      let subject ← value name
      return .description (← inspect (·.describe subject))
  | elements name => do
      let items ← elementsOf (← value name)
      return .items (← inspect fun store => items.map store.shown)
  | compare left right => do
      let a ← value left
      let b ← value right
      return .comparison (a = b) (← inspect (·.equal? a b))
  | forget name => do
      modify fun workspace => { workspace with values := workspace.values.remove name }
      return .done
  | lambda scope spec body name isMacro target => do
      let ref ← makeLambda scope spec body name
      giveValue target (if isMacro then .expander ref else .closure ref)

end ValueCommand

end SmallLisp
