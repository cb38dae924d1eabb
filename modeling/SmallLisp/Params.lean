import SmallLisp.Error
import SmallLisp.Environment
import SmallLisp.Store.Elements
import SmallLisp.Store.Print

/-!
# Parameter lists

A parameter list is a proper list of distinct symbols. Its last item may instead be the
two-element list that the reader makes of a rest marker and a symbol.

Arguments are bound in order; a rest parameter receives a new list of the arguments that are
left over.
-/

namespace SmallLisp

namespace Params

/-- The names bound by the parameters. -/
def names (params : Params) : List Symbol :=
  params.required ++ params.rest.toList

/-- One more name at the end. -/
def add (params : Params) (name : Symbol) (isRest : Bool) : Params :=
  if isRest then { params with rest := some name }
  else { params with required := params.required ++ [name] }

/-- How many arguments the parameters take. -/
def expected (params : Params) : Expected :=
  match params.rest with
  | some _ => .atLeast params.required.length
  | none => .exactly params.required.length

/-- What is wrong with the number of arguments of a call. -/
def arityFault? (params : Params) (who : String) (count : Nat) : Option ArityFault :=
  if params.expected.admits count then none else some ⟨who, params.expected, count⟩

end Params

namespace Store

/-- The name in an item of a parameter list, and whether it is the rest parameter. -/
def paramName (store : Store) (position : Nat) (item : Value) :
    Except EvalFault (Symbol × Bool) :=
  match item with
  | .symbol name => .ok (name, false)
  | .pair ref =>
      if store.car ref = .symbol .restMarker then
        match store.elements (store.cdr ref) with
        | .ok [.symbol name] => .ok (name, true)
        | _ => .error (.malformedRest (store.print item))
      else .error (.paramNotSymbol position (store.print item))
  | _ => .error (.paramNotSymbol position (store.print item))

/-- Add the items of a parameter list, the first of them at `position`. -/
def addParams (store : Store) (spec : Value) (params : Params) (position : Nat) :
    List Value → Except EvalFault Params
  | [] => .ok params
  | item :: items =>
      if params.rest.isSome then .error (.restNotLast (store.print spec))
      else
        match store.paramName position item with
        | .error fault => .error fault
        | .ok (name, isRest) =>
            if params.names.contains name then
              .error (.duplicateParam name (store.print spec))
            else store.addParams spec (params.add name isRest) (position + 1) items

/-- The parameters that a value describes. -/
def params (store : Store) (spec : Value) : Except EvalFault Params :=
  match store.elements spec with
  | .error _ => .error (.paramsNotList (store.print spec))
  | .ok items => store.addParams spec {} 1 items

/-- Bind names to values in a frame, pair by pair. -/
def bindAll (store : Store) (frame : FrameRef) (names : List Symbol) (values : List Value) :
    Store :=
  (names.zip values).foldl (fun store (name, value) => store.bind frame name value) store

/-- Bind as many arguments as the parameters ask for; a rest parameter takes the others. -/
def bindArgs (store : Store) (arena : Nat) (params : Params) (frame : FrameRef)
    (args : List Value) : Store :=
  let bound := store.bindAll frame params.required args
  match params.rest with
  | none => bound
  | some name =>
      let (rest, bound) := bound.list arena (args.drop params.required.length)
      bound.bind frame name rest

/-- Bind arguments to parameters in a frame. Nothing is bound when their number is wrong. -/
def bindParams (store : Store) (arena : Nat) (who : String) (params : Params)
    (frame : FrameRef) (args : List Value) : Except ArityFault Store :=
  match params.arityFault? who args.length with
  | some fault => .error fault
  | none => .ok (store.bindArgs arena params frame args)

end Store

end SmallLisp
