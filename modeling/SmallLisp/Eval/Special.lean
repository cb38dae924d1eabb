import SmallLisp.Eval.Task

/-!
# Special forms

A special form receives its argument forms as they are written. Its name cannot be rebound: the
forms are recognised by their heads before anything is looked up.
-/

namespace SmallLisp

/-- The special forms. -/
inductive SpecialForm where
  | quote
  | quasiquote
  | unquote
  | unquoteSplicing
  | define
  | defineFunction
  | defineExpander
  | lambda
  | conditional
  | progn
  deriving DecidableEq

namespace SpecialForm

/-- The special forms with the symbols that announce them. -/
def all : List (Symbol × SpecialForm) :=
  [(.quote, quote), (.quasiquote, quasiquote), (.unquote, unquote),
   (.unquoteSplicing, unquoteSplicing), (.ofString "DEF", define),
   (.ofString "DEFUN", defineFunction), (.ofString "DEFMACRO", defineExpander),
   (.ofString "LAMBDA", lambda), (.ofString "IF", conditional), (.ofString "PROGN", progn)]

/-- The special form that a symbol announces. -/
def ofSymbol? (symbol : Symbol) : Option SpecialForm :=
  Table.find symbol all

end SpecialForm

namespace Eval

open EvalM

variable (session : Session) (perform : Task → EvalM Value)

/-- The symbol given as a name to be defined. -/
def definedName (who : String) (form : Value) : EvalM Symbol := do
  match form with
  | .symbol name => pure name
  | _ => fail (.type (.notName who (← printed form)))

/-- A new lambda made in `scope`. -/
def makeLambda (name : Option Symbol) (spec : Value) (body : List Value) (scope : FrameRef) :
    EvalM LambdaRef := do
  match ← inspect (·.params spec) with
  | .ok params => update (·.addLambda session.arena { name, params, body, scope })
  | .error fault => fail (.eval fault)

/-- Define a name as a closure or macro: the arguments are the name, the parameters, and a body
of at least one form. -/
def defineLambda (who : String) (wrap : LambdaRef → Value) (args : List Value)
    (scope : FrameRef) : EvalM Value := do
  match args with
  | nameForm :: spec :: first :: others =>
      let name ← definedName who nameForm
      let ref ← makeLambda session (some name) spec (first :: others) scope
      update fun store => ((), store.bind scope name (wrap ref))
      pure (.symbol name)
  | args => failArity who (.atLeast 3) args

/-- Evaluate a special form. -/
def evalSpecial (special : SpecialForm) (args : List Value) (scope : FrameRef) :
    EvalM Value := do
  match special with
  | .quote =>
      match args with
      | [form] => pure form
      | args => failArity "quote" (.exactly 1) args
  | .quasiquote =>
      match args with
      | [template] => perform (.fill template 1 scope)
      | args => failArity "quasiquote" (.exactly 1) args
  | .unquote | .unquoteSplicing => fail (.eval .strayUnquote)
  | .define =>
      match args with
      | [nameForm, form] =>
          let name ← definedName "def" nameForm
          let value ← perform (.eval form scope)
          update fun store => ((), store.bind scope name value)
          pure (.symbol name)
      | args => failArity "def" (.exactly 2) args
  | .defineFunction => defineLambda session "defun" .closure args scope
  | .defineExpander => defineLambda session "defmacro" .expander args scope
  | .lambda =>
      match args with
      | spec :: first :: others =>
          return .closure (← makeLambda session none spec (first :: others) scope)
      | args => failArity "lambda" (.atLeast 2) args
  | .conditional =>
      match args with
      | [test, consequent] =>
          if (← perform (.eval test scope)).isTruthy then perform (.eval consequent scope)
          else pure .nil
      | [test, consequent, alternative] =>
          if (← perform (.eval test scope)).isTruthy then perform (.eval consequent scope)
          else perform (.eval alternative scope)
      | args => failArity "if" .twoOrThree args
  | .progn => evalBody perform args scope

end Eval

end SmallLisp
