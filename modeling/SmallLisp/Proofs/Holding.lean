import SmallLisp.Proofs.Running

/-!
# What is held without a census

What an evaluation holds is there for the census alone: it says which frames are in use when the
frame of a call is left. Where no census is kept, an evaluation ends the same way and leaves the
same machine whatever is held meanwhile.

## Main results

* `Eval.unheldLogic` — the logic of evaluations for which it does not matter what is held.
* `Eval.unheld_performs` — all tasks are among them.
* `Session.evalIn_unheld` — and so is what a host runs in a session.
-/

namespace SmallLisp

namespace EvalM

variable {α β : Type}

/-- Without a census it does not matter what is held, and none is kept afterwards. What the
evaluation results in is as stated. -/
def Unheld (post : α → Prop) (f : EvalM α) : Prop :=
  ∀ held held' machine, machine.census = none →
    f.outcome held machine = f.outcome held' machine ∧
      (f.outcome held machine).2.census = none ∧
      ∀ a, (f.outcome held machine).1 = .ok a → post a

namespace Unheld

theorem pure {post : α → Prop} {a : α} (h : post a) : Unheld post (pure a) :=
  fun _ _ _ hcensus => ⟨rfl, hcensus, fun _ heq => Except.ok.inj heq ▸ h⟩

theorem fail {post : α → Prop} (e : Error) : Unheld post (EvalM.fail e) :=
  fun _ _ _ hcensus => ⟨rfl, hcensus, fun _ heq => by cases heq⟩

theorem inspect {post : α → Prop} {view : Store → α} (h : ∀ store, post (view store)) :
    Unheld post (EvalM.inspect view) :=
  fun _ _ machine hcensus => ⟨rfl, hcensus, fun _ heq => Except.ok.inj heq ▸ h machine.store⟩

theorem update (change : Store → α × Store) : Unheld (fun _ => True) (EvalM.update change) :=
  fun _ _ _ hcensus => ⟨rfl, hcensus, fun _ _ => trivial⟩

theorem holding {post : α → Prop} {f : EvalM α} (values : List Value) (h : Unheld post f) :
    Unheld post (EvalM.holding values f) :=
  fun held held' => h (.values values :: held) (.values values :: held')

theorem bind {P : α → Prop} {post : β → Prop} {f : EvalM α} {k : α → EvalM β} (h : Unheld P f)
    (hk : ∀ a, P a → Unheld post (k a)) : Unheld post (f >>= k) := by
  intro held held' machine hcensus
  obtain ⟨hsame, hnone, hresult⟩ := h held held' machine hcensus
  rcases hout : f.outcome held machine with ⟨halt | a, after⟩
  · rw [hout] at hsame hnone
    rw [outcome_bind_error hout, outcome_bind_error hsame.symm]
    exact ⟨rfl, hnone, fun _ heq => by cases heq⟩
  · rw [hout] at hsame hnone hresult
    rw [outcome_bind_ok hout, outcome_bind_ok hsame.symm]
    exact hk a (hresult a rfl) held held' after hnone

theorem limited {post : Value → Prop} {f : EvalM Value} (limit : Nat) (h : Unheld post f) :
    Unheld post (EvalM.limited limit f) := by
  intro held held' machine hcensus
  rw [outcome_limited, outcome_limited]
  split
  · exact ⟨rfl, hcensus, fun _ heq => by cases heq⟩
  · obtain ⟨hsame, hnone, hresult⟩ :=
      h held held' { machine with depth := machine.depth + 1 } hcensus
    rw [outcome_deeper, outcome_deeper, ← hsame]
    exact ⟨rfl, hnone, hresult⟩

theorem within {post : Value → Prop} {f : EvalM Value} (frame : FrameRef) (h : Unheld post f) :
    Unheld post (EvalM.within frame f) := by
  intro held held' machine hcensus
  obtain ⟨hsame, hnone, hresult⟩ := h (.frames [frame] :: held) (.frames [frame] :: held') machine
    hcensus
  rw [outcome_within, outcome_within, ← hsame, Machine.leave_of_none hnone,
    Machine.leave_of_none hnone]
  exact ⟨rfl, hnone, hresult⟩

theorem applyHost (function : HostFunction) (args : List Value) :
    Unheld (fun _ => True) (Eval.applyHost function args) := by
  intro held held' machine hcensus
  rw [outcome_applyHost, outcome_applyHost]
  exact ⟨rfl, hcensus, fun _ _ => trivial⟩

theorem invoke (session : Session) {perform : Task → EvalM Value} (ref : LambdaRef)
    (anonymous : String) (args : List Value)
    (hbody : ∀ body frame, Unheld (fun _ => True) (Eval.evalBody perform body frame)) :
    Unheld (fun _ => True) (Eval.invoke session perform ref anonymous args) := by
  unfold Eval.invoke
  refine .bind (P := fun _ => True) (.inspect fun _ => trivial) fun lambda _ => ?_
  refine .bind (.update _) fun frame _ => ?_
  split
  · exact .fail _
  · exact .bind (.update _) fun _ _ => .within frame (hbody lambda.body frame)

/-- What is held on the way into an evaluation makes no difference. -/
theorem outcome_eq {post : α → Prop} {f : EvalM α} (h : Unheld post f) {machine : Machine}
    (hcensus : machine.census = none) (held held' : List Hold) :
    f.outcome held machine = f.outcome held' machine :=
  (h held held' machine hcensus).1

theorem census_eq_none {post : α → Prop} {f : EvalM α} (h : Unheld post f) {held : List Hold}
    {machine after : Machine} {result : Except Halt α} (hcensus : machine.census = none)
    (hout : f.outcome held machine = (result, after)) : after.census = none := by
  have hnone := (h held held machine hcensus).2.1
  rwa [hout] at hnone

end Unheld

end EvalM

namespace Eval

open EvalM

/-- The logic of evaluations for which it does not matter what is held. -/
def unheldLogic (session : Session) : PlainLogic fun _ : Unit => session where
  World := Unit
  deeper := id
  globals := session.globals
  natives := session.natives
  holds := fun _ _ post f => Unheld post (f ())
  globals_eq := session.globals_const
  natives_eq := session.natives_const
  pure := .pure
  bind := .bind
  fail := fun e _ => .fail e
  holding := .holding
  limited := .limited session.maxDepth
  anywhere := id
  inGlobals := id
  inspect := .inspect
  listWithTail := fun _ _ => .update _
  ofData := fun _ => .update _
  addLambda := fun _ => .update _
  define := fun _ _ _ => .update _
  modifyCell := fun _ _ => .update _
  host := fun args _ => .applyHost _ args
  invoke := .invoke session

theorem unheld_performs (session : Session) (fuel : Nat) :
    (unheldLogic session).toLogic.Performs () fun _ => run session fuel :=
  fun _ _ _ task _ => (unheldLogic session).run
    (fun _ _ _ _ _ hcensus => ⟨rfl, hcensus, fun _ _ => trivial⟩) fuel () task

end Eval

/-! ### What a host runs in a session -/

namespace Session

open EvalM Eval

variable (session : Session) (fuel : Nat)

theorem evalIn_unheld (form : Value) (scope : FrameRef) :
    Unheld (fun _ => True) (session.evalIn fuel form scope) :=
  .holding [form] (unheld_performs session fuel () () rfl (.eval form scope)
    ((unheldLogic session).admits_toLogic () _))

end Session

end SmallLisp
