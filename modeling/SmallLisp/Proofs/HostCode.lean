import SmallLisp.Proofs.Running

/-!
# Code of the host

A host writes its functions in a language of its own. When one is called, it has the evaluator at
hand: it may carry out tasks, and it may do to the machine whatever an evaluation can do. Evaluation
with such code is defined here.

A host function of a session is less than that. It is given the depth, the store and its arguments,
and all that it does is to answer. Code is *quiet* if it keeps to this: it carries out no task,
leaves the machine as it is, looks at nothing of it but the depth and the store, and always answers.
This is what every result about sessions with host functions supposes of them. If the code of all
host functions is quiet, evaluation with it is evaluation with host functions.

## Main results

* `HostCode.quiet_iff` — quiet code is the code of a host function.
* `Eval.runWith_eq` — evaluation with quiet code is evaluation.
-/

namespace SmallLisp

open EvalM

/-- Code of the host, given the means to carry out tasks. -/
abbrev HostCode := (Task → EvalM Value) → List Value → EvalM Value

/-- The code of a host function. -/
def HostFunction.code (function : HostFunction) : HostCode :=
  fun _ args => Eval.applyHost function args

namespace HostCode

/-- The code does nothing but answer, given the depth, the store and its arguments. -/
structure Quiet (code : HostCode) : Prop where
  /-- It carries out no task. -/
  alone (perform perform' : Task → EvalM Value) (args : List Value) :
    code perform args = code perform' args
  /-- It leaves the machine as it is. -/
  still (perform : Task → EvalM Value) (args : List Value) (held : List Hold) (machine : Machine) :
    ((code perform args).outcome held machine).2 = machine
  /-- It sees neither what is held nor the census. -/
  blind (perform : Task → EvalM Value) (args : List Value) (held held' : List Hold) (store : Store)
    (census census' : Option Census) (depth : Nat) :
    ((code perform args).outcome held ⟨store, census, depth⟩).1 =
      ((code perform args).outcome held' ⟨store, census', depth⟩).1
  /-- It answers with a value or an error. -/
  answers (perform : Task → EvalM Value) (args : List Value) (held : List Hold)
      (machine : Machine) :
    ((code perform args).outcome held machine).1 ≠ .error .exhausted

/-- The function that answers as the code does. -/
def function (code : HostCode) : HostFunction :=
  ⟨fun depth store args =>
    match ((code (fun _ => pure .nil) args).outcome [] ⟨store, none, depth⟩).1 with
    | .ok value => .ok value
    | .error (.error cause) => .error cause
    | .error .exhausted => .ok .nil⟩

theorem quiet_code (function : HostFunction) : Quiet function.code where
  alone _ _ _ := rfl
  still _ args held machine := by
    rw [HostFunction.code, outcome_applyHost]
  blind _ _ _ _ _ _ _ _ := by
    simp only [HostFunction.code, outcome_applyHost]
  answers _ args held machine := by
    rw [HostFunction.code, outcome_applyHost]
    intro h
    cases hcall : function.call machine.depth machine.store args with
    | ok value =>
        rw [hcall] at h
        cases h
    | error cause =>
        rw [hcall] at h
        cases h

theorem Quiet.code_function {code : HostCode} (h : code.Quiet) : code.function.code = code := by
  funext perform args held machine
  show (Eval.applyHost code.function args).outcome held machine =
    (code perform args).outcome held machine
  obtain ⟨store, census, depth⟩ := machine
  rw [outcome_applyHost]
  refine Prod.ext ?_ (h.still perform args held _).symm
  -- the answer is the one that is given without anything held, without a census, and alone
  have hanswers := h.answers (fun _ => pure .nil) args [] ⟨store, none, depth⟩
  rw [h.alone perform (fun _ => pure .nil), h.blind _ args held [] store census none depth]
  simp only [function]
  generalize ((code (fun _ => pure .nil) args).outcome [] ⟨store, none, depth⟩).1 = answer
    at hanswers ⊢
  rcases answer with (cause | _) | value
  · rfl
  · exact absurd rfl hanswers
  · rfl

/-- **Quiet code** is the code of a host function. -/
theorem quiet_iff {code : HostCode} :
    code.Quiet ↔ ∃ function : HostFunction, function.code = code := by
  constructor
  · exact fun h => ⟨code.function, h.code_function⟩
  · rintro ⟨function, rfl⟩
    exact quiet_code function

end HostCode

namespace Eval

variable (code : Symbol → Option HostCode) (session : Session)

/-- Carry out a task by way of further tasks, where some builtins have code of the host. -/
def stepWith (perform : Task → EvalM Value) : Task → EvalM Value
  | .apply (.builtin name) args =>
      match code name with
      | some body => holding args (body perform args)
      | none => step session perform (.apply (.builtin name) args)
  | task => step session perform task

/-- Carry out a task with at most `fuel` steps nested in each other, where some builtins have code
of the host. -/
def runWith : Nat → Task → EvalM Value
  | 0, _ => throw .exhausted
  | fuel + 1, task => stepWith code session (runWith fuel) task

variable {code session}

theorem stepWith_eq (h : ∀ name body, code name = some body →
      body.Quiet ∧ session.natives.lookup name = some (.host body.function))
    (perform : Task → EvalM Value) (task : Task) :
    stepWith code session perform task = step session perform task := by
  unfold stepWith
  split
  · next name args =>
      split
      · next body hbody =>
          obtain ⟨hquiet, hlookup⟩ := h name body hbody
          rw [step, apply, hlookup]
          exact congrArg (holding args) (congrFun (congrFun hquiet.code_function perform) args).symm
      · rfl
  · rfl

/-- **Evaluation with quiet code** is evaluation with host functions. -/
theorem runWith_eq (h : ∀ name body, code name = some body →
      body.Quiet ∧ session.natives.lookup name = some (.host body.function)) (fuel : Nat) :
    runWith code session fuel = run session fuel := by
  induction fuel with
  | zero => rfl
  | succ fuel ih =>
      funext task
      rw [runWith, ih]
      exact stepWith_eq h (run session fuel) task

end Eval

end SmallLisp
