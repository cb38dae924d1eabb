import SmallLisp.Proofs.Running

/-!
# Two runs side by side

A coupling compares an evaluation on one machine with an evaluation on another one. As long as
neither has stopped, both have had the same results and their machines are related. The left one
may *abandon* the comparison: it stops for a reason after which nothing more is said about the
right one. Otherwise both stop together, with errors that are alike, or end with the same result.

## Main results

* `Coupling.Lawful.logic` — a coupling whose machines stay related under the operations of the
  store is a logic of evaluations.
* `Coupling.Lawful.run` — so two runs with the same bound on nested steps compare.
-/

namespace SmallLisp.Eval

open EvalM

/-- A way to compare two runs. -/
structure Coupling where
  /-- What is fixed during an evaluation. -/
  World : Type
  /-- What is fixed one level deeper. -/
  deeper : World → World
  machines : World → Machine → Machine → Prop
  /-- The left run may stop for this reason while the right one goes on. -/
  abandons : Halt → Prop
  /-- The runs may stop together for these two reasons. -/
  alike : Halt → Halt → Prop

namespace Coupling

variable {α β : Type} (c : Coupling)

/-- The outcomes of two runs, compared. -/
inductive Outcome (w : c.World) (post : α → Prop) :
    Except Halt α × Machine → Except Halt α × Machine → Prop
  | abandoned {halt : Halt} {left : Machine} {right : Except Halt α × Machine} :
      c.abandons halt → Outcome w post (.error halt, left) right
  | failed {halt halt' : Halt} {left right : Machine} :
      c.alike halt halt' → c.machines w left right →
      Outcome w post (.error halt, left) (.error halt', right)
  | ended {a : α} {left right : Machine} :
      post a → c.machines w left right → Outcome w post (.ok a, left) (.ok a, right)

/-- Two evaluations that compare on all related machines. -/
def Relates (w : c.World) (post : α → Prop) (f g : EvalM α) : Prop :=
  ∀ held left right, c.machines w left right →
    c.Outcome w post (f.outcome held left) (g.outcome held right)

/-- The machines stay related under all that evaluation does in the two sessions. -/
structure Lawful (session : Bool → Session) : Prop where
  globals_eq : (session true).globals = (session false).globals
  natives_eq : (session true).natives = (session false).natives
  store_eq {w : c.World} {left right : Machine} :
    c.machines w left right → left.store = right.store
  store_set {w : c.World} {left right : Machine} (store : Store) :
    c.machines w left right → c.machines w { left with store } { right with store }
  leave {w : c.World} {left right : Machine} (held : List Hold) (frame : FrameRef) :
    c.machines w left right → c.machines w (left.leave held frame) (right.leave held frame)
  alike_refl (halt : Halt) : c.alike halt halt
  limited {w : c.World} {post : Value → Prop} {f g : EvalM Value} :
    c.Relates (c.deeper w) post f g →
    c.Relates w post (limited (session false).maxDepth f) (limited (session true).maxDepth g)
  host {w : c.World} {name : Symbol} {function : HostFunction} {left right : Machine}
      (args : List Value) :
    (session false).natives.lookup name = some (.host function) → c.machines w left right →
    function.call left.depth left.store args = function.call right.depth right.store args

variable {c} {w : c.World} {session : Bool → Session}

theorem Relates.pure {post : α → Prop} {a : α} (h : post a) :
    c.Relates w post (pure a) (pure a) :=
  fun _ _ _ hm => .ended h hm

theorem Relates.bind {P : α → Prop} {post : β → Prop} {f g : EvalM α} {k l : α → EvalM β}
    (h : c.Relates w P f g) (hk : ∀ a, P a → c.Relates w post (k a) (l a)) :
    c.Relates w post (f >>= k) (g >>= l) := by
  intro held left right hm
  have hout := h held left right hm
  rw [outcome_bind, outcome_bind]
  generalize f.outcome held left = x at hout ⊢
  generalize g.outcome held right = y at hout ⊢
  cases hout with
  | abandoned hhalt => exact .abandoned hhalt
  | failed halike hm' => exact .failed halike hm'
  | ended ha hm' => exact hk _ ha held _ _ hm'

theorem Relates.holding {post : α → Prop} {f g : EvalM α} (values : List Value)
    (h : c.Relates w post f g) :
    c.Relates w post (EvalM.holding values f) (EvalM.holding values g) :=
  fun held => h (.values values :: held)

variable (hc : c.Lawful session)
include hc

theorem Relates.fail {post : α → Prop} (e : Error) :
    c.Relates w post (EvalM.fail e) (EvalM.fail e) :=
  fun _ _ _ hm => .failed (hc.alike_refl _) hm

theorem Relates.inspect {post : α → Prop} (view : Store → α) (h : ∀ store, post (view store)) :
    c.Relates w post (EvalM.inspect view) (EvalM.inspect view) := by
  intro held left right hm
  rw [outcome_inspect, outcome_inspect, hc.store_eq hm]
  exact .ended (h _) hm

theorem Relates.update {post : α → Prop} (change : Store → α × Store)
    (h : ∀ store, post (change store).1) :
    c.Relates w post (EvalM.update change) (EvalM.update change) := by
  intro held left right hm
  rw [outcome_update, outcome_update, hc.store_eq hm]
  exact .ended (h _) (hc.store_set _ hm)

theorem Relates.within {post : Value → Prop} (frame : FrameRef) {f g : EvalM Value}
    (h : c.Relates w post f g) :
    c.Relates w post (EvalM.within frame f) (EvalM.within frame g) := by
  intro held left right hm
  have hout := h (.frames [frame] :: held) left right hm
  rw [outcome_within, outcome_within]
  generalize f.outcome (.frames [frame] :: held) left = x at hout ⊢
  generalize g.outcome (.frames [frame] :: held) right = y at hout ⊢
  cases hout with
  | abandoned hhalt => exact .abandoned hhalt
  | failed halike hm' => exact .failed halike (hc.leave _ frame hm')
  | ended ha hm' => exact .ended ha (hc.leave _ frame hm')

theorem Lawful.arena_eq : (session true).arena = (session false).arena := by
  rw [Session.arena, hc.globals_eq, Session.arena]

/-- A call of a lambda compares if its body does. -/
theorem Relates.invoke {p q : Task → EvalM Value} (ref : LambdaRef) (anonymous : String)
    (args : List Value)
    (hbody : ∀ body frame, c.Relates w (fun _ => True) (evalBody p body frame)
      (evalBody q body frame)) :
    c.Relates w (fun _ => True) (Eval.invoke (session false) p ref anonymous args)
      (Eval.invoke (session true) q ref anonymous args) := by
  unfold Eval.invoke
  rw [hc.arena_eq]
  refine .bind (P := fun _ => True) (.inspect hc _ fun _ => trivial) fun lambda _ => ?_
  refine .bind (P := fun _ => True) (.update hc _ fun _ => trivial) fun frame _ => ?_
  split
  · exact .fail hc _
  · refine .bind (P := fun _ => True) (.update hc _ fun _ => trivial) fun _ _ => ?_
    exact .within hc frame (hbody lambda.body frame)

theorem Relates.applyHost {name : Symbol} {function : HostFunction}
    (h : (session false).natives.lookup name = some (.host function)) (args : List Value) :
    c.Relates w (fun _ => True) (Eval.applyHost function args) (Eval.applyHost function args) := by
  intro held left right hm
  rw [outcome_applyHost, outcome_applyHost, hc.host args h hm]
  cases function.call right.depth right.store args with
  | ok value => exact .ended trivial hm
  | error cause => exact .failed (hc.alike_refl _) hm

/-- A lawful coupling as a logic of evaluations. -/
def Lawful.logic : PlainLogic session where
  World := c.World
  deeper := c.deeper
  globals := (session false).globals
  natives := (session false).natives
  holds := fun w _ post f => c.Relates w post (f false) (f true)
  globals_eq := fun | false => rfl | true => hc.globals_eq
  natives_eq := fun | false => rfl | true => hc.natives_eq
  pure := .pure
  bind := .bind
  fail := fun e _ => .fail hc e
  holding := .holding
  limited := hc.limited
  anywhere := id
  inGlobals := id
  inspect := .inspect hc _
  listWithTail := fun _ _ => by
    simp only [hc.arena_eq]
    exact .update hc _ fun _ => trivial
  ofData := fun _ => by
    simp only [hc.arena_eq]
    exact .update hc _ fun _ => trivial
  addLambda := fun _ => by
    simp only [hc.arena_eq]
    exact .update hc _ fun _ => trivial
  define := fun _ _ _ => .update hc _ fun _ => trivial
  modifyCell := fun _ _ => .update hc _ fun _ => trivial
  host := fun args hname => .applyHost hc hname args
  invoke := .invoke hc

/-- The same task compares in the two sessions, whatever the bound on nested steps. -/
theorem Lawful.run (fuel : Nat) (w : c.World) (task : Task) :
    c.Relates w (fun _ => True) (Eval.run (session false) fuel task)
      (Eval.run (session true) fuel task) :=
  hc.logic.run (fun _ _ _ _ _ hm => .failed (hc.alike_refl _) hm) fuel w task

theorem Lawful.evalIn (fuel : Nat) (w : c.World) (form : Value) (scope : FrameRef) :
    c.Relates w (fun _ => True) ((session false).evalIn fuel form scope)
      ((session true).evalIn fuel form scope) :=
  (hc.run fuel w (.eval form scope)).holding [form]

end Coupling

end SmallLisp.Eval
