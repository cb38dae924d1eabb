import SmallLisp.Arithmetic
import SmallLisp.Eval.Special

/-!
# Applying native functions

A primitive checks the number of its arguments first and their kinds second, from left to
right.
-/

namespace SmallLisp.Eval

open EvalM

variable (session : Session) (perform : Task → EvalM Value)

/-- An argument that must be an integer. -/
def integerArgument (who : Primitive) (arg : Value) : EvalM Int64 := do
  match arg with
  | .integer value => pure value
  | _ => fail (.type (.notInteger who.name arg.typeName (← printed arg)))

/-- The result of a calculation as a value. -/
def calculated (who : Primitive) : Except Arithmetic.Fault Int64 → EvalM Value
  | .ok value => pure (.integer value)
  | .error .overflow => fail (.eval (.overflow who.name))
  | .error .divisionByZero => fail (.eval .divisionByZero)

/-- Calculate with arguments that must all be integers. -/
def calculate (who : Primitive) (operation : List Int64 → Except Arithmetic.Fault Int64)
    (args : List Value) : EvalM Value := do
  calculated who (operation (← args.mapM (integerArgument who)))

/-- Compare two integers. -/
def compareIntegers (who : Primitive) (holds : Int64 → Int64 → Bool) (left right : Value) :
    EvalM Value := do
  let a ← integerArgument who left
  let b ← integerArgument who right
  pure (.ofBool (holds a b))

/-- Expand a form once if it is a call of a macro bound in the global frame; any other form is
its own expansion. -/
def expandOnce (form : Value) : EvalM Value := do
  match form with
  | .pair ref =>
      match ← inspect (·.car ref) with
      | .symbol name =>
          if (SpecialForm.ofSymbol? name).isSome then pure form
          else
            match ← inspect (·.lookup session.globals name) with
            | some (.expander lambda) =>
                let forms ← argumentForms (← inspect (·.cdr ref))
                holding [.expander lambda] (expand session perform lambda forms)
            | _ => pure form
      | _ => pure form
  | _ => pure form

/-- Apply a function to some arguments and the elements of a list. -/
def spread (callee : Value) (leading : List Value) (last : Value) : EvalM Value := do
  match ← inspect (·.elements last) with
  | .ok items => perform (.apply callee (leading ++ items))
  | .error _ => fail (.type (.notArgumentList (← printed last)))

/-- Replace a part of a pair; the pair is the result. -/
def mutate (who : Primitive) (change : Store → CellRef → Store) (target : Value) :
    EvalM Value := do
  match target with
  | .pair ref =>
      update fun store => ((), change store ref)
      pure target
  | _ => fail (.type (.notMutablePair who.name (← printed target)))

/-- A part of a pair; `NIL` has `NIL` for both. -/
def part (who : Primitive) (view : Store → CellRef → Value) (target : Value) : EvalM Value := do
  match target with
  | .pair ref => inspect (view · ref)
  | .nil => pure .nil
  | _ => fail (.type (.notPair who.name target.typeName (← printed target)))

/-- Apply a primitive to evaluated arguments. -/
def applyPrimitive (primitive : Primitive) (args : List Value) : EvalM Value :=
  match primitive, args with
  | .cons, [a, b] => update (·.cons session.arena a b)
  | .car, [a] => part .car Store.car a
  | .cdr, [a] => part .cdr Store.cdr a
  | .list, args => update (·.list session.arena args)
  | .setCar, [a, b] => mutate .setCar (·.setCar · b) a
  | .setCdr, [a, b] => mutate .setCdr (·.setCdr · b) a
  | .isEq, [a, b] => pure (.ofBool (a = b))
  | .isPair, [a] => pure (.ofBool a.isPair)
  | .isNull, [a] => pure (.ofBool (a = .nil))
  | .isAtom, [a] => pure (.ofBool !a.isPair)
  | .isSymbol, [a] => pure (.ofBool a.symbol?.isSome)
  | .isInteger, [a] => pure (.ofBool a.integer?.isSome)
  | .not, [a] => pure (.ofBool !a.isTruthy)
  | .add, args => calculate .add Arithmetic.sum args
  | .subtract, first :: others => calculate .subtract Arithmetic.difference (first :: others)
  | .multiply, args => calculate .multiply Arithmetic.product args
  | .divide, first :: others => calculate .divide Arithmetic.quotient (first :: others)
  | .less, [a, b] => compareIntegers .less (· < ·) a b
  | .greater, [a, b] => compareIntegers .greater (· > ·) a b
  | .numEqual, [a, b] => compareIntegers .numEqual (· = ·) a b
  | .apply, callee :: second :: others =>
      spread perform callee (second :: others).dropLast ((second :: others).getLastD second)
  | .eval, [form] => perform (.eval form session.globals)
  | .expandOnce, [form] => expandOnce session perform form
  | primitive, args => failArity primitive.name primitive.expected args

/-- Apply a function of the host. -/
def applyHost (function : HostFunction) (args : List Value) : EvalM Value := do
  let machine ← get
  match function.call machine.depth machine.store args with
  | .ok value => pure value
  | .error cause => fail cause

/-- Apply a native function to evaluated arguments. -/
def applyNative (native : Native) (args : List Value) : EvalM Value :=
  match native with
  | .primitive primitive => applyPrimitive session perform primitive args
  | .host function => applyHost function args

end SmallLisp.Eval
