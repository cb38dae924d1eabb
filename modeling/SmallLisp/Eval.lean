import SmallLisp.Eval.Primitive
import SmallLisp.Eval.Template

/-!
# Evaluation

`Eval.step` says how each task is carried out, given the means to carry out further ones, and
`Eval.run` gives it these means down to a bound on nested steps. The bound belongs to the host:
a program that reaches it ends as exhausted, which is neither a result nor an error of the
language. The language's own limit is on the number of evaluations in progress.
-/

namespace SmallLisp.Eval

open EvalM

variable (session : Session) (perform : Task → EvalM Value)

/-- Call a function found at the head of a form on the values of the argument forms. -/
def callWith (callee rest : Value) (scope : FrameRef) : EvalM Value :=
  holding [callee, rest] do
    perform (.apply callee (← evalArguments perform rest scope))

/-- Expand a call of a macro and evaluate the expansion. -/
def evalExpansion (lambda : LambdaRef) (rest : Value) (scope : FrameRef) : EvalM Value :=
  holding [.expander lambda, rest] do
    let expansion ← expand session perform lambda (← argumentForms rest)
    holding [expansion] (perform (.eval expansion scope))

/-- Evaluate a form whose head is a symbol. -/
def evalNamed (form : Value) (name : Symbol) (rest : Value) (scope : FrameRef) :
    EvalM Value := do
  match SpecialForm.ofSymbol? name with
  | some special =>
      match ← inspect (·.elements rest) with
      | .ok args => holding (rest :: args) (evalSpecial session perform special args scope)
      | .error _ => fail (.eval (.malformedSpecial name (← printed form)))
  | none =>
      match ← inspect (·.lookup scope name) with
      | none => fail (.call (.unboundOperator name))
      | some (.expander lambda) => evalExpansion session perform lambda rest scope
      | some (.closure lambda) => callWith perform (.closure lambda) rest scope
      | some (.builtin native) => callWith perform (.builtin native) rest scope
      | some other => fail (.call (.boundTo name (← printed other)))

/-- Evaluate a form that is a pair. -/
def evalPair (form : Value) (ref : CellRef) (scope : FrameRef) : EvalM Value := do
  let head ← inspect (·.car ref)
  let rest ← inspect (·.cdr ref)
  match head with
  | .symbol name => evalNamed session perform form name rest scope
  | .pair _ =>
      match ← holding [head, rest] (perform (.eval head scope)) with
      | .closure lambda => holding [head] (callWith perform (.closure lambda) rest scope)
      | .builtin native => holding [head] (callWith perform (.builtin native) rest scope)
      | other => fail (.call (.evaluatedTo (← printed head) (← printed other)))
  | other => fail (.eval (.notOperator (← printed other) (← printed form)))

/-- Evaluate a form. -/
def evalForm (form : Value) (scope : FrameRef) : EvalM Value := do
  match form with
  | .nil | .t | .integer _ => pure form
  | .symbol name =>
      match ← inspect (·.lookup scope name) with
      | some value => pure value
      | none => fail (.unboundSymbol name)
  | .pair ref => evalPair session perform form ref scope
  | .closure _ | .expander _ | .builtin _ => fail (.eval (.notEvaluable (← printed form)))

/-- Evaluate a form unless too many evaluations are in progress. -/
def evalLimited (form : Value) (scope : FrameRef) : EvalM Value := do
  if session.maxDepth ≤ (← get).depth then fail (.recursionLimit session.maxDepth)
  else deeper (evalForm session perform form scope)

/-- Apply a function to evaluated arguments. -/
def apply (callee : Value) (args : List Value) : EvalM Value := do
  match callee with
  | .closure ref => callClosure session perform ref args
  | .builtin name =>
      match session.natives.lookup name with
      | some native => holding args (applyNative session perform native args)
      | none => fail (.call (.unknownBuiltin name))
  | .expander _ => fail (.call (.isMacro (← printed callee)))
  | other => fail (.call (.notFunction (← printed other)))

/-- Carry out a task by way of further tasks. -/
def step : Task → EvalM Value
  | .eval form scope => evalLimited session perform form scope
  | .apply callee args => apply session perform callee args
  | .fill template level scope => fill session perform template level scope
  | .fillRest made rest level scope => fillRest session perform made rest level scope

/-- Carry out a task with at most `fuel` steps nested in each other. -/
def run (session : Session) : Nat → Task → EvalM Value
  | 0, _ => throw .exhausted
  | fuel + 1, task => step session (run session fuel) task

end SmallLisp.Eval
