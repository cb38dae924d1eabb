import SmallLisp.Proofs.Uncounted

/-!
# The number of evaluations in progress

The depth of a machine is meant to be the number of evaluations in progress. It goes up when an
evaluation begins and down when it ends, and both happen in one place; but evaluations end in many
ways, inside of each other, and a level that is not left again would be missing for the rest of
the session. Here the depth is compared with a list of the calls in progress, which is kept beside
the machine and of which evaluation knows nothing.

## Main results

* `Eval.nested_iff_inProgress` — the calls inside a run are those made while something is in
  progress.
* `Eval.InProgress.depth_eq` — the depth has grown by the number of evaluations in progress.
* `Eval.InProgress.depth_le` — no call is made at a depth beyond the limit.
* `Session.depth_carryOut` — whatever a host asks for, it ends at the depth at which it began.
* `Site.depth_counts_evaluations` — so in a session that begins at rest the depth is the number of
  evaluations in progress, at every call that is ever made there.
-/

namespace SmallLisp

open EvalM

/-- The task is to evaluate a form. -/
def Task.isEval : Task → Bool
  | .eval _ _ => true
  | .apply _ _ => false
  | .fill _ _ _ => false
  | .fillRest _ _ _ _ => false

namespace Eval

/-! ### The calls in progress -/

/-- In the run of a call with a bound on nested steps, the call `inner` is carried out with what
is left of the bound there, while the calls `outer` are in progress. -/
inductive InProgress (session : Session) : Nat → Call → List Call → Nat → Call → Prop
  | self (fuel : Nat) (call : Call) : InProgress session fuel call [] fuel call
  | inner {fuel fuel' : Nat} {call middle inner : Call} {outer : List Call} :
      Asks session (run session fuel) call middle →
      InProgress session fuel middle outer fuel' inner →
      InProgress session (fuel + 1) call (call :: outer) fuel' inner

/-- Forgetting the calls in progress gives the calls inside a run. -/
theorem nested_iff_inProgress {session : Session} {fuel fuel' : Nat} {call inner : Call} :
    Nested session fuel call fuel' inner ↔
      ∃ outer, InProgress session fuel call outer fuel' inner := by
  constructor
  · intro h
    induction h with
    | self fuel call => exact ⟨[], .self fuel call⟩
    | inner hasks _ ih =>
        obtain ⟨outer, houter⟩ := ih
        exact ⟨_ :: outer, .inner hasks houter⟩
  · rintro ⟨outer, h⟩
    induction h with
    | self fuel call => exact .self fuel call
    | inner hasks _ ih => exact .inner hasks ih

section

variable {session : Session} {fuel fuel' : Nat} {call middle inner : Call} {outer : List Call}

theorem Call.isEvaluation_iff : call.IsEvaluation ↔ call.task.isEval = true := by
  obtain ⟨task, held, machine⟩ := call
  constructor
  · rintro ⟨form, scope, rfl⟩
    rfl
  · intro h
    cases task with
    | eval form scope => exact ⟨form, scope, rfl⟩
    | apply => cases h
    | fill => cases h
    | fillRest => cases h

/-- A step asks for calls one level deeper than it was asked for itself, if it is an evaluation,
and on the same level otherwise. -/
theorem depth_eq_of_asks (hasks : Asks session (run session fuel) call middle) :
    middle.machine.depth = call.machine.depth + if call.task.isEval then 1 else 0 := by
  by_cases heval : call.IsEvaluation
  · rw [if_pos (Call.isEvaluation_iff.1 heval)]
    exact heval.depth_of_asks hasks
  · rw [if_neg fun h => heval (Call.isEvaluation_iff.2 h)]
    exact depth_of_asks_of_not_isEvaluation heval hasks

/-- **The depth counts.** It has grown by the number of evaluations in progress. -/
theorem InProgress.depth_eq (h : InProgress session fuel call outer fuel' inner) :
    inner.machine.depth = call.machine.depth + outer.countP (·.task.isEval) := by
  induction h with
  | self fuel call => rfl
  | inner hasks _ ih =>
      rw [ih, depth_eq_of_asks hasks, List.countP_cons]
      omega

/-- **The limit holds.** An evaluation at the limit asks for nothing, so no call is made beyond
it. -/
theorem InProgress.depth_le (h : InProgress session fuel call outer fuel' inner)
    (hle : call.machine.depth ≤ session.maxDepth) : inner.machine.depth ≤ session.maxDepth := by
  induction h with
  | self fuel call => exact hle
  | inner hasks _ ih =>
      refine ih ?_
      rw [depth_eq_of_asks hasks]
      split
      · next heval => exact (Call.isEvaluation_iff.2 heval).depth_lt hasks
      · exact hle

/-- A call ends at the depth at which it was made, however it ends. -/
theorem depth_run (session : Session) (fuel : Nat) (call : Call) :
    (call.outcome (run session fuel)).2.depth = call.machine.depth :=
  (atDepth_outcome ((atDepth_lawful session).run fuel _ call.task call.held call.machine _
    ⟨rfl, rfl⟩)).2

/-- A native function of the host is given the depth of the call. -/
theorem outcome_run_host {name : Symbol} {function : HostFunction} {args : List Value}
    (htask : call.task = .apply (.builtin name) args)
    (hname : session.natives.lookup name = some (.host function)) :
    call.outcome (run session (fuel + 1)) =
      ((function.call call.machine.depth call.machine.store args).mapError .error,
        call.machine) := by
  rw [Call.outcome, htask]
  show (apply session (run session fuel) (.builtin name) args).outcome _ _ = _
  unfold apply
  simp only [hname]
  exact outcome_applyHost function args _ call.machine

end

end Eval

/-! ### What a host asks for -/

/-- What a host can ask of a session: to evaluate a form, to apply a function, to expand a form,
or to serve a request by way of text. -/
inductive HostCall where
  | eval (form : Value) (scope : FrameRef)
  | apply (callee : Value) (args : List Value)
  | expand (form : Value)
  | request (request : Request)

namespace Session

open Eval

/-- Carry out what the host asks for. -/
def carryOut (session : Session) (fuel : Nat) : HostCall → EvalM Unit
  | .eval form scope => do let _ ← session.evalIn fuel form scope
  | .apply callee args => do let _ ← session.apply fuel callee args
  | .expand form => do let _ ← session.expandOnce fuel form
  | .request request => session.serve fuel request

/-- When forms are evaluated one after the other, the call evaluates one of them. -/
inductive BeginsForm (session : Session) (fuel : Nat) :
    List Value → List Hold → Machine → Call → Prop
  | now (form : Value) (rest : List Value) (held : List Hold) (machine : Machine) :
      BeginsForm session fuel (form :: rest) held machine (session.formCall form held machine)
  | next {form : Value} {rest : List Value} {held : List Hold} {machine after : Machine}
      {value : Value} {call : Call} :
      (session.formCall form held machine).outcome (run session fuel) = (.ok value, after) →
      BeginsForm session fuel rest (.values [value] :: held) after call →
      BeginsForm session fuel (form :: rest) held machine call

/-- The calls that are made for a host itself, and not in the course of another call. For an
expansion these are the calls whose answers matter to it. -/
inductive Begins (session : Session) (fuel : Nat) (held : List Hold) (machine : Machine) :
    HostCall → Call → Prop
  | eval (form : Value) (scope : FrameRef) :
      Begins session fuel held machine (.eval form scope)
        ⟨.eval form scope, .values [form] :: held, machine⟩
  | apply (callee : Value) (args : List Value) :
      Begins session fuel held machine (.apply callee args)
        ⟨.apply callee args, .values [callee] :: held, machine⟩
  | expand {form : Value} {perform : Task → EvalM Value} {call : Call} :
      SameBut call (run session fuel) perform →
      (Eval.expandOnce session perform form).outcome (.values [form] :: held) machine ≠
        (session.expandOnce fuel form).outcome held machine →
      Begins session fuel held machine (.expand form) call
  | request {request : Request} {call : Call} :
      session.OnceMade request.forms (BeginsForm session fuel · · · call) held machine →
      Begins session fuel held machine (.request request) call

section

variable {session : Session} {fuel : Nat} {held : List Hold} {machine : Machine} {call : Call}

theorem BeginsForm.depth_eq {forms : List Value}
    (h : BeginsForm session fuel forms held machine call) :
    call.machine.depth = machine.depth := by
  induction h with
  | now form rest held machine => rfl
  | next hout _ ih =>
      rw [ih, ← congrArg (·.2.depth) hout]
      exact depth_run session fuel _

/-- What is made for the host itself is made at the depth at which the host finds the session. -/
theorem Begins.depth_eq {asked : HostCall} (h : Begins session fuel held machine asked call) :
    call.machine.depth = machine.depth := by
  cases h with
  | eval => rfl
  | apply => rfl
  | request hforms =>
      have hbegins : BeginsForm session fuel _ _ _ call := hforms
      exact hbegins.depth_eq
  | @expand form perform _ hbut hdiffer =>
      refine Classical.byContradiction fun hne => hdiffer ?_
      have hexpand : atDepth.Relates machine.depth (fun _ => True)
          (Eval.expandOnce session (run session fuel) form)
          (Eval.expandOnce session perform form) :=
        Logic.expandOnce (L := (atDepth_lawful session).logic.toLogic) (c := ())
          (p := fun i => bif i then perform else run session fuel)
          (fun _ _ hw form frame _ _ => hw ▸ SameBut.relates hbut hne (.eval form frame)) trivial
      exact (atDepth_outcome (hexpand _ machine _ ⟨rfl, rfl⟩)).1.symm

end

/-! ### The depth afterwards -/

section

variable (session : Session) (fuel depth : Nat)

theorem atDepth_performs :
    (atDepth_lawful session).logic.toLogic.Performs depth fun _ => run session fuel :=
  fun _ w _ task _ => (atDepth_lawful session).run fuel w task

/-- An error that is handed on leaves the depth what it is, as one that is not. -/
theorem atDepth_attempts :
    (atDepth_lawful session).logic.toLogic.Attempts fun _ => True := by
  rintro _ w post f h held machine _ ⟨rfl, hdepth⟩
  have hout := h held machine machine ⟨rfl, hdepth⟩
  rw [outcome_attempt, outcome_attempt]
  generalize (f false).outcome held machine = x at hout ⊢
  generalize (f true).outcome held machine = y at hout ⊢
  cases hout with
  | abandoned hhalt => exact hhalt.elim
  | @failed halt _ _ _ halike hm =>
      obtain rfl := halike
      cases halt with
      | error cause => exact .ended ⟨by rintro _ ⟨⟩, fun _ _ => trivial⟩ hm
      | exhausted => exact .failed rfl hm
  | ended hpost hm =>
      refine .ended ⟨?_, fun _ _ => trivial⟩ hm
      rintro _ ⟨⟩
      exact hpost

theorem serve_atDepth (request : Request) :
    atDepth.Relates depth (fun _ => True) (session.serve fuel request)
      (session.serve fuel request) := by
  have hruns := (atDepth_performs session fuel depth).evaluates
  have hrefuses : (atDepth_lawful session).logic.toLogic.Refuses :=
    fun _ _ _ => .fail (atDepth_lawful session) _
  cases request with
  | text source =>
      exact .bind (Logic.evalText (c := ()) hrefuses hruns source) fun _ _ => .pure trivial
  | lastOf source =>
      exact .bind (Logic.evalTextLast (c := ()) hrefuses hruns source) fun _ _ => .pure trivial
  | line source =>
      exact .bind (Logic.evalLine (c := ()) (atDepth_attempts session) (fun _ => trivial) hruns
        source) fun _ _ => .pure trivial
  | file files path =>
      exact .bind (Logic.load (c := ()) hrefuses hruns files path) fun _ _ => .pure trivial

theorem carryOut_atDepth (asked : HostCall) :
    atDepth.Relates depth (fun _ => True) (session.carryOut fuel asked)
      (session.carryOut fuel asked) := by
  have hruns := atDepth_performs session fuel depth
  cases asked with
  | eval form scope =>
      exact .bind ((atDepth_lawful session).evalIn fuel depth form scope) fun _ _ => .pure trivial
  | apply callee args =>
      exact .bind (Logic.applyTo (c := ()) hruns trivial fun _ _ => trivial) fun _ _ =>
        .pure trivial
  | expand form =>
      exact .bind (Logic.expandForm (c := ()) hruns.evaluates trivial) fun _ _ => .pure trivial
  | request request => exact serve_atDepth session fuel depth request

/-- **Every level is left again.** Whatever a host asks for, and however that ends, the depth is
afterwards what it was before. -/
theorem depth_carryOut (asked : HostCall) (held : List Hold) (machine : Machine) :
    ((session.carryOut fuel asked).outcome held machine).2.depth = machine.depth :=
  (atDepth_outcome (carryOut_atDepth session fuel machine.depth asked held machine machine
    ⟨rfl, rfl⟩)).2

end

end Session

/-! ### Sessions and their hosts -/

/-- A session with the store and the census that it is run on. -/
structure Site where
  session : Session
  store : Store
  census : Option Census

/-- Something that a host asks for, with its bound on nested steps and with what it holds
meanwhile. -/
structure Visit where
  fuel : Nat
  held : List Hold
  asked : HostCall

namespace Site

open Eval

/-- The machine that the next visit finds. -/
def machine (site : Site) : Machine :=
  ⟨site.store, site.census, site.session.depth⟩

/-- Carry out what a visit asks for. -/
def receive (site : Site) (visit : Visit) : Site :=
  let (_, session, store, census) := site.session.execute visit.held site.store site.census
    (site.session.carryOut visit.fuel visit.asked)
  ⟨session, store, census⟩

/-- In the course of a visit, the call `inner` is carried out with what is left there of the bound
on nested steps, while the calls `outer` are in progress. -/
def Makes (site : Site) (visit : Visit) (outer : List Call) (fuel : Nat) (inner : Call) : Prop :=
  ∃ call, site.session.Begins visit.fuel (.frames site.session.keeps :: visit.held) site.machine
      visit.asked call ∧
    InProgress site.session visit.fuel call outer fuel inner

theorem receive_session (site : Site) (visit : Visit) :
    (site.receive visit).session = site.session := by
  have hdepth := site.session.depth_carryOut visit.fuel visit.asked
    (.frames site.session.keeps :: visit.held) site.machine
  exact congrArg (fun depth => { site.session with depth }) hdepth

/-- A session is not changed by what it is asked for. -/
theorem session_foldl_receive (site : Site) (visits : List Visit) :
    (visits.foldl receive site).session = site.session := by
  induction visits generalizing site with
  | nil => rfl
  | cons visit rest ih => rw [List.foldl_cons, ih, receive_session]

section

variable {site : Site} {visit : Visit} {outer : List Call} {fuel : Nat} {inner : Call}

theorem Makes.depth_eq (h : site.Makes visit outer fuel inner) :
    inner.machine.depth = site.session.depth + outer.countP (·.task.isEval) := by
  obtain ⟨call, hbegins, hinner⟩ := h
  rw [hinner.depth_eq, hbegins.depth_eq]
  rfl

theorem Makes.depth_le (h : site.Makes visit outer fuel inner)
    (hle : site.session.depth ≤ site.session.maxDepth) :
    inner.machine.depth ≤ site.session.maxDepth := by
  obtain ⟨call, hbegins, hinner⟩ := h
  exact hinner.depth_le (hbegins.depth_eq ▸ hle)

end

/-- **The depth is the number of evaluations in progress.** Let a session begin at rest. After any
visits, whatever they ask for and however they end, it is at rest again. At every call that is
made in the course of the next one, the depth is the number of evaluations in progress, which is
never more than the limit, and it is the same when the call ends; it is what a native function of
the host is given as the depth. -/
theorem depth_counts_evaluations (site : Site) (hrest : site.session.depth = 0)
    (visits : List Visit) :
    let reached := visits.foldl receive site
    reached.session.depth = 0 ∧
    ∀ visit outer fuel inner, reached.Makes visit outer fuel inner →
      inner.machine.depth = outer.countP (·.task.isEval) ∧
      inner.machine.depth ≤ reached.session.maxDepth ∧
      (inner.outcome (run reached.session fuel)).2.depth = inner.machine.depth ∧
      ∀ name args function, inner.task = .apply (.builtin name) args →
        reached.session.natives.lookup name = some (.host function) → 0 < fuel →
        inner.outcome (run reached.session fuel) =
          ((function.call inner.machine.depth inner.machine.store args).mapError .error,
            inner.machine) := by
  intro reached
  have hreached : reached.session.depth = 0 := by
    rw [session_foldl_receive]
    exact hrest
  refine ⟨hreached, fun visit outer fuel inner hmakes => ⟨?_, ?_, ?_, ?_⟩⟩
  · rw [hmakes.depth_eq, hreached, Nat.zero_add]
  · exact hmakes.depth_le (hreached ▸ Nat.zero_le _)
  · exact depth_run reached.session fuel inner
  · intro name args function htask hname hfuel
    cases fuel with
    | zero => exact absurd hfuel (Nat.lt_irrefl 0)
    | succ fuel => exact outcome_run_host htask hname

/-- After a text whose only form fails, the evaluation of the same form `((1))` has the evaluation
of its operator inside, at a depth of one. -/
theorem depth_counts_evaluations_at_operator :
    let site : Site := ⟨(Session.create {} 1).1, (Session.create {} 1).2, none⟩
    let reached := [Visit.mk 9 [] (.request (.text "((1))"))].foldl receive site
    let form : Value := .pair ⟨0, 1⟩
    let visit : Visit := ⟨9, [], .eval form reached.session.globals⟩
    site.session.depth = 0 ∧ reached.session.depth = 0 ∧
    ∃ outer inner, reached.Makes visit [outer] 8 inner ∧ outer.task.isEval = true ∧
      inner.machine.depth = 1 ∧ inner.machine.depth ≤ reached.session.maxDepth ∧
      inner.outcome (run reached.session 8) =
        (.error (.error (.recursionLimit 1)), inner.machine) := by
  intro site reached form visit
  have hcounts := depth_counts_evaluations site rfl [Visit.mk 9 [] (.request (.text "((1))"))]
  let held : List Hold := [.values [form], .frames reached.session.keeps]
  let outer : Call := ⟨.eval form reached.session.globals, held, reached.machine⟩
  let inner : Call := ⟨.eval (.pair ⟨0, 0⟩) reached.session.globals,
    .values [.pair ⟨0, 0⟩, reached.store.cdr ⟨0, 1⟩] :: held,
    ⟨reached.store, reached.census, reached.session.depth + 1⟩⟩
  have hcar : reached.store.car ⟨0, 1⟩ = .pair ⟨0, 0⟩ := by decide +kernel
  have hmakes : reached.Makes visit [outer] 8 inner :=
    ⟨outer, .eval form _, .inner (asks_head (by decide +kernel) hcar) (.self 8 inner)⟩
  obtain ⟨hdepth, hlimit, -⟩ := hcounts.2 visit [outer] 8 inner hmakes
  exact ⟨rfl, hcounts.1, outer, inner, hmakes, rfl, hdepth, hlimit, rfl⟩

end Site

end SmallLisp
