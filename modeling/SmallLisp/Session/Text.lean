import SmallLisp.Eval
import SmallLisp.FileTree
import SmallLisp.Text.Blank

/-!
# Running text in a session

A text is read as a whole before anything in it is evaluated, so a text that cannot be read
changes nothing. All its forms are made then. After that they are evaluated in order in the global
frame, up to the first one that fails; what the earlier ones did stays.
-/

namespace SmallLisp.Session

open EvalM

/-- The bound on nested steps that a host sets unless it has reasons for another one. -/
def defaultFuel : Nat := 1000000000

variable (fuel : Nat) (session : Session)

/-- Evaluate a form in a frame. -/
def evalIn (form : Value) (scope : FrameRef) : EvalM Value :=
  holding [form] (Eval.run session fuel (.eval form scope))

/-- Evaluate a form in the global frame. -/
def evalGlobal (form : Value) : EvalM Value :=
  session.evalIn fuel form session.globals

/-- Apply a function to arguments. -/
def apply (callee : Value) (args : List Value) : EvalM Value :=
  holding [callee] (Eval.run session fuel (.apply callee args))

/-- Expand a form once if it calls a macro of the global frame. -/
def expandOnce (form : Value) : EvalM Value :=
  holding [form] (Eval.expandOnce session (Eval.run session fuel) form)

/-- The values of forms evaluated in order. All forms are there before the first one is evaluated,
and they are held until the last value is there. -/
def evalForms (data : List Datum) : EvalM (List Value) := do
  let forms ← update (·.ofData session.arena data)
  holding forms (Eval.evalEach (Eval.run session fuel) session.globals forms)

/-- The values of all forms of a text. -/
def evalText (text : String) : EvalM (List Value) :=
  match Datum.read text with
  | .error cause => fail (.text cause)
  | .ok forms => session.evalForms fuel forms

theorem evalText_eq {text : String} {forms : List Datum} (h : Datum.read text = .ok forms) :
    session.evalText fuel text = session.evalForms fuel forms := by
  rw [evalText, h]

/-- The value of the last form of a text, or `NIL` if there is none. -/
def evalTextLast (text : String) : EvalM Value := do
  return (← session.evalText fuel text).getLastD .nil

/-- The outcomes of forms, from left to right, the last of which is the first that fails. A value is
held while the later ones are found. -/
def attemptEach : List Value → EvalM (List (Except Error Value))
  | [] => pure []
  | form :: rest => do
      match ← attempt (Eval.run session fuel (.eval form session.globals)) with
      | .error cause => pure [.error cause]
      | .ok value =>
          let others ← holding [value] (attemptEach rest)
          return .ok value :: others

/-- The outcomes of forms evaluated in order up to the first that fails. As for a text, all forms
are made first. -/
def evalUntilError (data : List Datum) : EvalM (List (Except Error Value)) := do
  let forms ← update (·.ofData session.arena data)
  holding forms (session.attemptEach fuel forms)

/-- The outcomes of the forms on one line. Blanks at either end of the line are ignored. -/
def evalLine (line : String) : EvalM (List (Except Error Value)) :=
  match Datum.read (Text.trim line) with
  | .error cause => pure [.error (.text cause)]
  | .ok forms => session.evalUntilError fuel forms

/-- The value of the last form of a file. -/
def load (files : Files) (path : String) : EvalM Value :=
  match files path with
  | .error fault => fail (.eval (.unreadableFile path fault.message))
  | .ok text => session.evalTextLast fuel text

end SmallLisp.Session
