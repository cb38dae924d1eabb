import SmallLisp.Proofs.LineResults

/-!
# Errors about texts

A text is read as a whole before any of its forms is evaluated, and what is evaluated then is no
text any more: no form, in whatever frame, ends with the error of a text that cannot be read. So
whoever sees such an error knows that nothing has run. A function of the host might raise one by
itself, even one that is quiet (`HostCode.Quiet`); the primitives do not.

## Main results

* `Session.evalIn_raisesNoText` — evaluation raises no such error, whatever the form is.
* `Session.text_errors_iff_unread` — such an error means that the text cannot be read, and that
  nothing has happened.
-/

namespace SmallLisp

/-- No host function among these raises the error of a text that cannot be read. -/
def Table.RaisesNoText (natives : Table Native) : Prop :=
  ∀ name function, natives.lookup name = some (.host function) →
    ∀ depth store args cause, function.call depth store args = .error cause → cause.isText = false

theorem Session.primitives_raisesNoText : primitives.RaisesNoText :=
  primitives_hosts _

namespace Eval

open EvalM

variable {α β : Type} {post : α → Prop}

/-- An evaluation with a result as stated that does not end with the error of a text. -/
def RaisesNoText (post : α → Prop) (evaluation : EvalM α) : Prop :=
  ∀ held machine, (∀ a, (evaluation.outcome held machine).1 = .ok a → post a) ∧
    ∀ cause, (evaluation.outcome held machine).1 = .error (.error cause) → cause.isText = false

namespace RaisesNoText

theorem of_ok {evaluation : EvalM α}
    (h : ∀ held machine, ∃ a, (evaluation.outcome held machine).1 = .ok a ∧ post a) :
    RaisesNoText post evaluation := by
  intro held machine
  obtain ⟨a, hout, ha⟩ := h held machine
  rw [hout]
  exact ⟨fun _ heq => Except.ok.inj heq ▸ ha, fun _ heq => by cases heq⟩

theorem pure {a : α} (h : post a) : RaisesNoText post (pure a) :=
  .of_ok fun _ _ => ⟨a, rfl, h⟩

theorem inspect {view : Store → α} (h : ∀ store, post (view store)) :
    RaisesNoText post (inspect view) :=
  .of_ok fun _ machine => ⟨view machine.store, rfl, h machine.store⟩

theorem update {change : Store → α × Store} (h : ∀ store, post (change store).1) :
    RaisesNoText post (update change) :=
  .of_ok fun _ machine => ⟨(change machine.store).1, rfl, h machine.store⟩

theorem fail {cause : Error} (h : cause.isText = false) :
    RaisesNoText post (fail cause : EvalM α) :=
  fun _ _ => ⟨(fun _ heq => by cases heq),
    fun _ heq => Halt.error.inj (Except.error.inj heq) ▸ h⟩

theorem exhausted : RaisesNoText post (throw .exhausted : EvalM α) :=
  fun _ _ => ⟨(fun _ heq => by cases heq), fun _ heq => by cases heq⟩

theorem bind {P : α → Prop} {post : β → Prop} {f : EvalM α} {k : α → EvalM β}
    (h : RaisesNoText P f) (hk : ∀ a, P a → RaisesNoText post (k a)) :
    RaisesNoText post (f >>= k) := by
  intro held machine
  obtain ⟨hresult, herror⟩ := h held machine
  rcases hout : f.outcome held machine with ⟨halt | a, after⟩
  · rw [hout] at herror
    rw [outcome_bind_error hout]
    exact ⟨(fun _ heq => by cases heq),
      fun cause heq => herror cause (congrArg _ (Except.error.inj heq))⟩
  · rw [hout] at hresult
    rw [outcome_bind_ok hout]
    exact hk a (hresult a rfl) held after

theorem holding (values : List Value) {f : EvalM α} (h : RaisesNoText post f) :
    RaisesNoText post (holding values f) :=
  fun held => h (.values values :: held)

theorem limited (limit : Nat) {f : EvalM α} (h : RaisesNoText post f) :
    RaisesNoText post (limited limit f) := by
  intro held machine
  rw [outcome_limited]
  split
  · exact fail rfl held machine
  · exact h held { machine with depth := machine.depth + 1 }

theorem within (frame : FrameRef) {body : EvalM Value} {post : Value → Prop}
    (h : RaisesNoText post body) : RaisesNoText post (within frame body) := by
  intro held machine
  rw [outcome_within]
  exact h (.frames [frame] :: held) machine

theorem applyHost {natives : Table Native} (hnatives : natives.RaisesNoText) {name : Symbol}
    {function : HostFunction} (h : natives.lookup name = some (.host function))
    (args : List Value) : RaisesNoText (fun _ => True) (applyHost function args) := by
  intro held machine
  rw [outcome_applyHost]
  cases hcall : function.call machine.depth machine.store args with
  | error found => exact fail (hnatives name function h _ _ _ found hcall) held machine
  | ok found => exact pure trivial held machine

/-- A call of a lambda raises no error of a text if its body raises none. -/
theorem invoke {session : Session} {p : Task → EvalM Value} (ref : LambdaRef)
    (anonymous : String) (args : List Value)
    (hbody : ∀ body frame, RaisesNoText (fun _ => True) (evalBody p body frame)) :
    RaisesNoText (fun _ => True) (Eval.invoke session p ref anonymous args) := by
  unfold Eval.invoke
  refine .bind (P := fun _ => True) (.inspect fun _ => trivial) fun lambda _ => ?_
  refine .bind (P := fun _ => True) (.update fun _ => trivial) fun frame _ => ?_
  split
  · exact .fail rfl
  · refine .bind (P := fun _ => True) (.update fun _ => trivial) fun _ _ => ?_
    exact .within frame (hbody lambda.body frame)

end RaisesNoText

/-- The logic of evaluations that raise no error of a text. -/
def textlessLogic {session : Session} (hnatives : session.natives.RaisesNoText) :
    PlainLogic fun _ : Unit => session where
  World := Unit
  deeper := id
  globals := session.globals
  natives := session.natives
  holds := fun _ _ post f => RaisesNoText post (f ())
  globals_eq := session.globals_const
  natives_eq := session.natives_const
  pure := .pure
  bind := .bind
  fail := fun _ h => .fail h
  holding := fun values h => .holding values h
  limited := .limited session.maxDepth
  anywhere := id
  inGlobals := id
  inspect := .inspect
  listWithTail := fun _ _ => .update fun _ => trivial
  ofData := fun _ => .update fun _ => trivial
  addLambda := fun _ => .update fun _ => trivial
  define := fun _ _ _ => .update fun _ => trivial
  modifyCell := fun _ _ => .update fun _ => trivial
  host := fun args h => .applyHost hnatives h args
  invoke := fun ref anonymous args hbody => .invoke ref anonymous args hbody

theorem textlessLogic_performs {session : Session} (hnatives : session.natives.RaisesNoText)
    (fuel : Nat) : (textlessLogic hnatives).toLogic.Performs () fun _ => run session fuel :=
  fun _ w _ task _ => (textlessLogic hnatives).run (fun _ _ => .exhausted) fuel w task

end Eval

/-- The evaluation ends with the error of a text for these reasons exactly, and then before it has
done anything. -/
def EvalM.RefusesFor {α : Type} (reason : TextError → Prop) (evaluation : EvalM α) : Prop :=
  ∀ held machine cause,
    ((evaluation.outcome held machine).1 = .error (.error (.text cause)) ↔ reason cause) ∧
      (reason cause → (evaluation.outcome held machine).2 = machine)

namespace EvalM.RefusesFor

variable {α β : Type}

/-- What raises no error of a text has no reason to. -/
theorem of_raisesNoText {post : α → Prop} {reason : TextError → Prop} {f : EvalM α}
    (h : Eval.RaisesNoText post f) (hreason : ∀ cause, ¬reason cause) : f.RefusesFor reason := by
  intro held machine cause
  refine ⟨iff_of_false (fun heq => ?_) (hreason cause), fun hcause => absurd hcause (hreason cause)⟩
  cases (h held machine).2 (.text cause) heq

theorem fail {reason : TextError → Prop} (fault : TextError)
    (hreason : ∀ cause, reason cause ↔ fault = cause) :
    (EvalM.fail (.text fault) : EvalM α).RefusesFor reason := by
  intro held machine cause
  rw [outcome_fail, hreason]
  simp

theorem bind_pure {reason : TextError → Prop} {f : EvalM α} (h : f.RefusesFor reason)
    (g : α → β) : (f >>= fun a => pure (g a)).RefusesFor reason := by
  intro held machine cause
  obtain ⟨hiff, hafter⟩ := h held machine cause
  rw [outcome_bind_pure]
  refine ⟨?_, hafter⟩
  rw [← hiff]
  cases (f.outcome held machine).1 <;> simp [Except.map]

end EvalM.RefusesFor

namespace Session

open EvalM Eval

section

variable {session : Session} (hnatives : session.natives.RaisesNoText) (fuel : Nat)
include hnatives

/-- **Evaluation raises no error of a text**, whatever the form is and wherever it is evaluated. -/
theorem evalIn_raisesNoText (form : Value) (scope : FrameRef) :
    RaisesNoText (fun _ => True) (session.evalIn fuel form scope) :=
  .holding [form] (textlessLogic_performs hnatives fuel () () rfl (.eval form scope)
    ((textlessLogic hnatives).admits_toLogic () _))

theorem evalForms_raisesNoText (forms : List Datum) :
    RaisesNoText (fun _ => True) (session.evalForms fuel forms) :=
  Logic.imp (L := (textlessLogic hnatives).toLogic) (c := ())
    (Logic.evalForms (textlessLogic_performs hnatives fuel).evaluates forms) fun _ _ _ => trivial

theorem evalText_refusesFor (text : String) :
    (session.evalText fuel text).RefusesFor (Datum.read text = .error ·) := by
  cases hread : Datum.read text with
  | error fault =>
      rw [evalText, hread]
      exact .fail fault fun cause => Except.error.injEq fault cause ▸ Iff.rfl
  | ok forms =>
      rw [session.evalText_eq fuel hread]
      exact .of_raisesNoText (evalForms_raisesNoText hnatives fuel forms) fun _ heq => by cases heq

theorem evalTextLast_refusesFor (text : String) :
    (session.evalTextLast fuel text).RefusesFor (Datum.read text = .error ·) :=
  (evalText_refusesFor hnatives fuel text).bind_pure _

theorem load_refusesFor (files : Files) (path : String) :
    (session.load fuel files path).RefusesFor fun cause =>
      ∃ text, files path = .ok text ∧ Datum.read text = .error cause := by
  unfold load
  cases hfile : files path with
  | error fault =>
      have hfails : RaisesNoText (fun _ => True)
          (EvalM.fail (.eval (.unreadableFile path fault.message)) : EvalM Value) := .fail rfl
      refine .of_raisesNoText hfails ?_
      rintro cause ⟨text, heq, -⟩
      cases heq
  | ok text =>
      have hreason (cause : TextError) :
          (∃ text', (.ok text : Except FileFault String) = .ok text' ∧
            Datum.read text' = .error cause) ↔ Datum.read text = .error cause := by simp
      simpa only [hreason] using evalTextLast_refusesFor hnatives fuel text

/-- **A line reports an error of a text** only if it cannot be read, and then nothing else. -/
theorem evalLine_refuses (line : String) (held : List Hold) (machine : Machine) :
    let out := (session.evalLine fuel line).outcome held machine
    ((∃ results cause, out.1 = .ok results ∧ .error (.text cause) ∈ results) ↔
        ∃ cause, Datum.read line = .error cause) ∧
      ∀ cause, Datum.read line = .error cause → ∃ fault : TextError,
        cause = fault.shift (Token.leadingBlanks line) ∧
          out = (.ok [.error (.text fault)], machine) := by
  intro out
  rcases Datum.read_trim line with ⟨forms, htrim, hforms⟩ | ⟨fault, htrim, hfault⟩
  · have hunread (cause : TextError) : Datum.read line ≠ .error cause := by
      rw [hforms]
      intro heq
      cases heq
    refine ⟨iff_of_false ?_ (fun hread => hread.elim hunread),
      fun cause hcause => absurd hcause (hunread cause)⟩
    rintro ⟨results, cause, hresults, hmem⟩
    have hreports := (session.evalLine_reports fuel line held machine).1
    have herror := (hreports.mem_error_iff (.text cause)).1 ⟨results, hresults, hmem⟩
    have hrefused := (evalText_refusesFor hnatives fuel (Text.trim line) held machine cause).1.1
      herror
    rw [htrim] at hrefused
    cases hrefused
  · have hout : out = (.ok [.error (.text fault)], machine) := by
      show (session.evalLine fuel line).outcome held machine = _
      rw [evalLine, htrim, outcome_pure]
    refine ⟨iff_of_true ⟨_, fault, by rw [hout], List.mem_singleton_self _⟩ ⟨_, hfault⟩, ?_⟩
    intro cause hcause
    exact ⟨fault, Except.error.inj (hcause.symm.trans hfault), hout⟩

/-- **An error of a text means that nothing has run.** A text, a line or a file ends with such an
error exactly if it cannot be read, and then the store, the census and the depth are as before. No
form ends with one, wherever it is evaluated. -/
theorem text_errors_iff_unread :
    (∀ text, (session.evalText fuel text).RefusesFor (Datum.read text = .error ·)) ∧
      (∀ text, (session.evalTextLast fuel text).RefusesFor (Datum.read text = .error ·)) ∧
      (∀ files path, (session.load fuel files path).RefusesFor fun cause =>
        ∃ text, files path = .ok text ∧ Datum.read text = .error cause) ∧
      (∀ line held machine,
        let out := (session.evalLine fuel line).outcome held machine
        ((∃ results cause, out.1 = .ok results ∧ .error (.text cause) ∈ results) ↔
            ∃ cause, Datum.read line = .error cause) ∧
          ∀ cause, Datum.read line = .error cause → ∃ fault : TextError,
            cause = fault.shift (Token.leadingBlanks line) ∧
              out = (.ok [.error (.text fault)], machine)) ∧
      ∀ form scope, (session.evalIn fuel form scope).RefusesFor fun _ => False :=
  ⟨evalText_refusesFor hnatives fuel, evalTextLast_refusesFor hnatives fuel,
    load_refusesFor hnatives fuel, evalLine_refuses hnatives fuel, fun form scope =>
      .of_raisesNoText (evalIn_raisesNoText hnatives fuel form scope) fun _ => id⟩

end

/-- A definition in front of a list that is not closed is not carried out. -/
theorem text_errors_iff_unread_after_definition :
    let session := (create {} 10).1
    let text := "(def x 1) (car x"
    session.natives.RaisesNoText ∧ ∃ cause, Datum.read text = .error cause ∧
      ∀ held machine, (session.evalText 100 text).outcome held machine
        = (.error (.error (.text cause)), machine) := by
  intro session text
  have hnatives : session.natives.RaisesNoText := primitives_raisesNoText
  have hunread : (Datum.read text).isOk = false := by decide +kernel
  cases hread : Datum.read text with
  | ok forms =>
      rw [hread] at hunread
      cases hunread
  | error cause =>
      refine ⟨hnatives, cause, rfl, fun held machine => ?_⟩
      obtain ⟨hrefused, hafter⟩ := (text_errors_iff_unread hnatives 100).1 text held machine cause
      exact Prod.ext (hrefused.2 hread) (hafter hread)

end Session

end SmallLisp
