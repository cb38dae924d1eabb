import SmallLisp.Machine
import SmallLisp.Session.Basic

/-!
# Tasks of evaluation

Evaluation is described one step at a time. A step receives the means to carry out further
tasks and says how its own task is carried out in terms of these. This module holds the parts
that several steps share: taking the arguments of a call, running a body, and calling a lambda.
-/

namespace SmallLisp

/-- A unit of evaluation. -/
inductive Task where
  /-- Evaluate a form. -/
  | eval (form : Value) (scope : FrameRef)
  /-- Apply a function to evaluated arguments. -/
  | apply (callee : Value) (args : List Value)
  /-- Fill in a template under `level` quasiquotes. -/
  | fill (template : Value) (level : Nat) (scope : FrameRef)
  /-- Fill in the rest of a list template, behind the items made so far (the last one first). -/
  | fillRest (made : List Value) (rest : Value) (level : Nat) (scope : FrameRef)

namespace Eval

open EvalM

variable (session : Session) (perform : Task → EvalM Value)

/-- Stop because of the number of arguments. -/
def failArity {α : Type} (who : String) (expected : Expected) (args : List Value) : EvalM α :=
  fail (.arity ⟨who, expected, args.length⟩)

/-- The argument forms of a call, which must be a proper list. -/
def argumentForms (rest : Value) : EvalM (List Value) := do
  match ← inspect (·.elements rest) with
  | .ok forms => pure forms
  | .error _ => fail (.eval (.improperArguments (← printed rest)))

/-- The values of forms, from left to right. A value is held while the later ones are found. -/
def evalEach (scope : FrameRef) : List Value → EvalM (List Value)
  | [] => pure []
  | form :: rest => do
      let value ← perform (.eval form scope)
      let others ← holding [value] (evalEach scope rest)
      return value :: others

/-- The values of the argument forms of a call. -/
def evalArguments (rest : Value) (scope : FrameRef) : EvalM (List Value) := do
  let forms ← argumentForms rest
  holding forms (evalEach perform scope forms)

/-- The value of the last form of a body, all of which are evaluated in order. A value is held
until the next one is there. -/
def evalBody (body : List Value) (scope : FrameRef) : EvalM Value :=
  body.foldlM (fun value form => holding [value] (perform (.eval form scope))) .nil

/-- Run the body of a lambda in a new frame that binds its parameters. A lambda without a name
is called `anonymous` in messages. -/
def invoke (ref : LambdaRef) (anonymous : String) (args : List Value) : EvalM Value := do
  let lambda ← inspect (·.lambda ref)
  let who := (lambda.name.map (·.spelling)).getD anonymous
  let frame ← update (·.extend session.arena lambda.scope)
  match lambda.params.arityFault? who args.length with
  | some fault => fail (.arity fault)
  | none =>
      update fun store => ((), store.bindArgs session.arena lambda.params frame args)
      within frame (evalBody perform lambda.body frame)

/-- Run a closure on evaluated arguments. -/
def callClosure (ref : LambdaRef) (args : List Value) : EvalM Value :=
  invoke session perform ref "lambda" args

/-- Run a macro on argument forms; the result is the expansion. -/
def expand (ref : LambdaRef) (forms : List Value) : EvalM Value :=
  invoke session perform ref "macro" forms

end Eval

end SmallLisp
