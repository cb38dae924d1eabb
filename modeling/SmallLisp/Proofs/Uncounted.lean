import Mathlib.Data.List.Forall2
import Mathlib.Logic.Relation
import SmallLisp.Proofs.Coupling
import SmallLisp.Proofs.Driven

/-!
# What the limit does not count

The limit of a session is on the number of evaluations in progress. Applying a function is no
evaluation, and neither is filling in a template: the primitive `apply` hands on to the next
function without being counted, and a template hands on to its parts. With lists that contain
themselves, such a stretch of calls need not come to an end.

Nothing else can go on without end. Each evaluation that asks for further ones is one level below
them, so a run that is longer than any bound contains stretches of uncounted calls that are longer
than any bound.

## Main results

* `Call.Finishes.outcome_eq` — a run that has an outcome has it with every larger bound.
* `depth_of_asks` — the calls that an evaluation asks for are one level deeper, and all others ask
  on the same level.
* `exists_asks_exhausted` — a step that is cut short has asked for a call that is.
* `finishes_of_bounded` — a run ends if its uncounted stretches are bounded.
* `outcome_evalForm_call`, `outcome_run_spread` — how a call runs, and how `apply` hands on.
* `Session.serve_ends_iff` — a request is served in the end if and only if they are.
* `Session.apply_to_itself_never_ends` — with a list that contains itself, they need not be.
-/

namespace SmallLisp

/-- The value is a function: a closure or one of the native functions. -/
inductive Value.IsFunction : Value → Prop
  | closure (lambda : LambdaRef) : IsFunction (.closure lambda)
  | builtin (name : Symbol) : IsFunction (.builtin name)

namespace Eval

open EvalM

/-! ### Runs that have an outcome -/

/-- The call has an outcome with this bound on nested steps. -/
def Call.Finishes (session : Session) (fuel : Nat) (call : Call) : Prop :=
  (call.outcome (run session fuel)).1 ≠ .error .exhausted

section

variable {session : Session} {perform perform' : Task → EvalM Value}
  {call middle inner : Call} {fuel fuel' : Nat}

theorem Call.Finishes.of_asks (h : call.Finishes session (fuel + 1))
    (hasks : Asks session (run session fuel) call inner) : inner.Finishes session fuel :=
  fun hinner => h (result_of_asks hasks hinner)

/-- **A run that has an outcome has it with every larger bound.** -/
theorem Call.Finishes.outcome_eq (h : call.Finishes session fuel) (hle : fuel ≤ fuel') :
    call.outcome (run session fuel') = call.outcome (run session fuel) := by
  induction fuel generalizing call fuel' with
  | zero => exact absurd rfl h
  | succ fuel ih =>
      obtain ⟨fuel', rfl⟩ : ∃ steps, fuel' = steps + 1 := ⟨fuel' - 1, by omega⟩
      have hle : fuel ≤ fuel' := Nat.le_of_succ_le_succ hle
      have hcongr : call.outcome (step session (run session fuel)) =
          call.outcome (step session (run session fuel')) :=
        outcome_step_congr fun inner hasks => (ih (h.of_asks hasks) hle).symm
      exact hcongr.symm

theorem Call.Finishes.mono (h : call.Finishes session fuel) (hle : fuel ≤ fuel') :
    call.Finishes session fuel' := by
  rw [Call.Finishes, h.outcome_eq hle]
  exact h

/-- Two bounds with which a call has an outcome give the same one. -/
theorem Call.Finishes.unique (h : call.Finishes session fuel) (h' : call.Finishes session fuel') :
    call.outcome (run session fuel) = call.outcome (run session fuel') := by
  rcases Nat.le_total fuel fuel' with hle | hle
  · exact (h.outcome_eq hle).symm
  · exact h'.outcome_eq hle

/-- What a step asks for, it asks for too when calls that were cut short are not. -/
theorem Asks.of_exhausted
    (h : ∀ other : Call, other.outcome perform = other.outcome perform' ∨
      (other.outcome perform).1 = .error .exhausted)
    (hasks : Asks session perform call middle) : Asks session perform' call middle := by
  obtain ⟨halt, hresult, hhalt⟩ :=
    exists_other_halt (call.outcome (step session perform')).1 .exhausted
  let answer : Except Halt Value × Machine := (.error halt, middle.machine)
  have hstop := result_answering_of_asks hasks halt middle.machine
  have hsame : call.outcome (step session (answering perform middle answer)) =
      call.outcome (step session (answering perform' middle answer)) := by
    refine outcome_step_congr fun other hother => ?_
    by_cases hmiddle : other = middle
    · subst hmiddle
      rw [outcome_answering_self, outcome_answering_self]
    · have hleft := sameBut_answering perform middle answer other hmiddle
      have hright := sameBut_answering perform' middle answer other hmiddle
      rcases h other with heq | hexhausted
      · rw [hleft, hright, heq]
      · -- a step that waits for a call which is cut short does not get as far as `middle`
        have hcut := result_of_asks hother ((congrArg Prod.fst hleft).trans hexhausted)
        exact absurd (Except.error.inj (hstop.symm.trans hcut)) hhalt
  refine ⟨answering perform' middle answer, sameBut_answering _ _ _, fun heq => hresult ?_⟩
  rw [← heq, ← hsame]
  exact hstop

/-- Two ways of carrying out tasks that answer alike what a step asks for in the first one: it
asks for nothing else in the second one. -/
theorem Asks.of_congr (hasks : Asks session perform' call middle)
    (h : ∀ other, Asks session perform call other →
      other.outcome perform = other.outcome perform') :
    Asks session perform call middle := by
  obtain ⟨halt, hresult, -⟩ := exists_other_halt (call.outcome (step session perform)).1 .exhausted
  let answer : Except Halt Value × Machine := (.error halt, middle.machine)
  have hstop := result_answering_of_asks hasks halt middle.machine
  refine Classical.byContradiction fun hnot => hresult ?_
  have hsame : call.outcome (step session perform) =
      call.outcome (step session (answering perform' middle answer)) := by
    refine outcome_step_congr fun other hother => ?_
    have hne : other ≠ middle := fun heq => hnot (heq ▸ hother)
    rw [sameBut_answering perform' middle answer other hne, h other hother]
  rw [hsame]
  exact hstop

/-- In the course of a call another one is asked for, if the bound on nested steps allows it. -/
def Needs (session : Session) (call inner : Call) : Prop :=
  ∃ fuel, Asks session (run session fuel) call inner

theorem Asks.mono (hasks : Asks session (run session fuel) call middle) (hle : fuel ≤ fuel') :
    Asks session (run session fuel') call middle := by
  refine hasks.of_exhausted fun other => ?_
  by_cases hother : (other.outcome (run session fuel)).1 = .error .exhausted
  · exact .inr hother
  · have hfinishes : other.Finishes session fuel := hother
    exact .inl (hfinishes.outcome_eq hle).symm

/-- A call that is needed has an outcome if the one that needs it has. -/
theorem Call.Finishes.of_needs (h : call.Finishes session (fuel + 1))
    (hneeds : Needs session call inner) : inner.Finishes session fuel := by
  obtain ⟨fuel', hasks⟩ := hneeds
  rcases Nat.le_total fuel' fuel with hle | hle
  · exact h.of_asks (hasks.mono hle)
  · exact h.of_asks (hasks.of_congr fun other hother => ((h.of_asks hother).outcome_eq hle).symm)

theorem Nested.mono (h : Nested session fuel call fuel' inner) (more : Nat) :
    Nested session (fuel + more) call (fuel' + more) inner := by
  induction h with
  | self fuel call => exact .self _ call
  | @inner fuel fuel' call middle inner hasks _ ih =>
      rw [Nat.add_right_comm]
      exact .inner (hasks.mono (Nat.le_add_right fuel more)) ih

theorem Call.Finishes.of_nested {bound : Nat} (h : call.Finishes session bound)
    (hnested : Nested session fuel call fuel' inner) : inner.Finishes session bound := by
  induction hnested with
  | self fuel call => exact h
  | inner hasks _ ih =>
      cases bound with
      | zero => exact absurd rfl h
      | succ bound => exact ih ((h.of_needs ⟨_, hasks⟩).mono (Nat.le_succ bound))

/-- A call that is needed in the end is inside the run with some bound. -/
theorem exists_nested (h : Relation.ReflTransGen (Needs session) call inner) :
    ∃ fuel fuel', Nested session fuel call fuel' inner := by
  induction h using Relation.ReflTransGen.head_induction_on with
  | refl => exact ⟨0, 0, .self 0 inner⟩
  | @head call middle hneeds _ ih =>
      obtain ⟨first, hasks⟩ := hneeds
      obtain ⟨fuel, fuel', hnested⟩ := ih
      have hasks := hasks.mono (Nat.le_add_left first fuel)
      exact ⟨fuel + first + 1, fuel' + first, .inner hasks (hnested.mono first)⟩

end

/-! ### Steps that are cut short -/

section

variable {α β : Type}

/-- The evaluation is never cut short, and its results are as stated. -/
def Decides (post : α → Prop) (f : EvalM α) : Prop :=
  ∀ held machine, (f.outcome held machine).1 ≠ .error .exhausted ∧
    ∀ a, (f.outcome held machine).1 = .ok a → post a

theorem Decides.pure {post : α → Prop} {a : α} (h : post a) : Decides post (pure a) :=
  fun _ _ => ⟨nofun, fun _ heq => Except.ok.inj heq ▸ h⟩

theorem Decides.fail {post : α → Prop} (e : Error) : Decides post (EvalM.fail e) :=
  fun _ _ => ⟨(fun heq => by cases heq), fun _ heq => by cases heq⟩

theorem Decides.bind {P : α → Prop} {post : β → Prop} {f : EvalM α} {k : α → EvalM β}
    (h : Decides P f) (hk : ∀ a, P a → Decides post (k a)) : Decides post (f >>= k) := by
  intro held machine
  obtain ⟨hdecided, hresult⟩ := h held machine
  rcases hout : f.outcome held machine with ⟨halt | a, after⟩
  · rw [hout] at hdecided
    rw [outcome_bind_error hout]
    exact ⟨fun heq => hdecided (congrArg Except.error (Except.error.inj heq)),
      fun _ heq => nomatch heq⟩
  · rw [hout] at hresult
    rw [outcome_bind_ok hout]
    exact hk a (hresult a rfl) held after

theorem Decides.holding {post : α → Prop} {f : EvalM α} (values : List Value)
    (h : Decides post f) : Decides post (EvalM.holding values f) :=
  fun held => h (.values values :: held)

theorem Decides.inspect {post : α → Prop} {view : Store → α} (h : ∀ store, post (view store)) :
    Decides post (EvalM.inspect view) :=
  fun _ machine => ⟨nofun, fun _ heq => Except.ok.inj heq ▸ h machine.store⟩

theorem Decides.update (change : Store → α × Store) :
    Decides (fun _ => True) (EvalM.update change) :=
  fun _ _ => ⟨nofun, fun _ _ => trivial⟩

theorem Decides.limited {post : Value → Prop} {f : EvalM Value} (limit : Nat)
    (h : Decides post f) : Decides post (EvalM.limited limit f) := by
  intro held machine
  rw [outcome_limited]
  split
  · exact ⟨nofun, fun _ heq => nomatch heq⟩
  · exact h held _

theorem Decides.applyHost (function : HostFunction) (args : List Value) :
    Decides (fun _ => True) (Eval.applyHost function args) := by
  intro held machine
  rw [outcome_applyHost]
  cases function.call machine.depth machine.store args with
  | ok value => exact ⟨nofun, fun _ _ => trivial⟩
  | error cause => exact ⟨nofun, fun _ heq => nomatch heq⟩

theorem Decides.invoke (session : Session) {perform : Task → EvalM Value} (ref : LambdaRef)
    (anonymous : String) (args : List Value)
    (hbody : ∀ body frame, Decides (fun _ => True) (evalBody perform body frame)) :
    Decides (fun _ => True) (Eval.invoke session perform ref anonymous args) := by
  unfold Eval.invoke
  refine .bind (P := fun _ => True) (.inspect fun _ => trivial) fun lambda _ => ?_
  refine .bind (.update _) fun frame _ => ?_
  split
  · exact .fail _
  · exact .bind (.update _) fun _ _ held => hbody lambda.body frame (.frames [frame] :: held)

/-- The logic of evaluations that are never cut short. -/
def decidingLogic (session : Session) : PlainLogic fun _ : Unit => session where
  World := Unit
  deeper := id
  globals := session.globals
  natives := session.natives
  holds := fun _ _ post f => Decides post (f ())
  globals_eq := session.globals_const
  natives_eq := session.natives_const
  pure := .pure
  bind := .bind
  fail := fun e _ => .fail e
  holding := .holding
  limited := .limited session.maxDepth
  anywhere := id
  inGlobals := id
  inspect := .inspect
  listWithTail := fun _ _ => .update _
  ofData := fun _ => .update _
  addLambda := fun _ => .update _
  define := fun _ _ _ => .update _
  modifyCell := fun _ _ => .update _
  host := fun args _ => .applyHost _ args
  invoke := .invoke session

/-- A way of carrying out tasks that gives up with `NIL` what would be cut short. -/
def patient (perform : Task → EvalM Value) : Task → EvalM Value :=
  fun task held machine =>
    match (perform task).outcome held machine with
    | (.error .exhausted, after) => (.ok .nil, after)
    | outcome => outcome

variable {session : Session} {perform : Task → EvalM Value} {call inner : Call}

theorem patient_decides (perform : Task → EvalM Value) (task : Task) :
    Decides (fun _ => True) (patient perform task) := by
  intro held machine
  refine ⟨?_, fun _ _ => trivial⟩
  show (patient perform task held machine).1 ≠ _
  unfold patient
  split
  · exact nofun
  · next hne =>
      intro heq
      exact hne _ (Prod.ext heq rfl)

theorem outcome_patient (h : (inner.outcome perform).1 ≠ .error .exhausted) :
    inner.outcome (patient perform) = inner.outcome perform := by
  show patient perform inner.task inner.held inner.machine = _
  unfold patient
  split
  · next heq => exact absurd (congrArg Prod.fst heq) h
  · rfl

/-- **A step that is cut short has asked for a call that is.** -/
theorem exists_asks_exhausted (h : (call.outcome (step session perform)).1 = .error .exhausted) :
    ∃ inner, Asks session perform call inner ∧ (inner.outcome perform).1 = .error .exhausted := by
  refine Classical.byContradiction fun hnone => ?_
  have hsame : call.outcome (step session perform) =
      call.outcome (step session (patient perform)) :=
    outcome_step_congr fun inner hasks =>
      (outcome_patient fun hexhausted => hnone ⟨inner, hasks, hexhausted⟩).symm
  have hdecides : Decides (fun _ => True) (step session (patient perform) call.task) :=
    (decidingLogic session).step (w := ()) (p := fun _ => patient perform) (patient_decides perform)
  exact (hdecides call.held call.machine).1 ((congrArg Prod.fst hsame).symm.trans h)

/-- A run that is cut short goes down to the last step of its bound. -/
theorem exists_nested_zero {fuel : Nat} (h : ¬call.Finishes session fuel) :
    ∃ inner, Nested session fuel call 0 inner := by
  induction fuel generalizing call with
  | zero => exact ⟨call, .self 0 call⟩
  | succ fuel ih =>
      obtain ⟨middle, hasks, hexhausted⟩ := exists_asks_exhausted (Classical.not_not.1 h)
      have hmiddle : ¬middle.Finishes session fuel := fun hfinishes => hfinishes hexhausted
      obtain ⟨inner, hnested⟩ := ih hmiddle
      exact ⟨inner, .inner hasks hnested⟩

end

/-! ### How deep the calls of a step are -/

section

variable {session : Session} {call inner middle : Call} {fuel fuel' : Nat}

/-- The same run twice, at a depth that stays what it is. -/
def atDepth : Coupling where
  World := Nat
  deeper := (· + 1)
  machines := fun depth left right => left = right ∧ left.depth = depth
  abandons := fun _ => False
  alike := Eq

theorem atDepth_outcome {α : Type} {depth : Nat} {post : α → Prop}
    {left right : Except Halt α × Machine} (h : atDepth.Outcome depth post left right) :
    left = right ∧ left.2.depth = depth := by
  cases h with
  | abandoned hhalt => exact hhalt.elim
  | failed halike hm => exact ⟨Prod.ext (congrArg Except.error halike) hm.1, hm.2⟩
  | ended _ hm => exact ⟨Prod.ext rfl hm.1, hm.2⟩

theorem atDepth_limited {depth limit : Nat} {post : Value → Prop} {f g : EvalM Value}
    (h : atDepth.Relates (depth + 1) post f g) :
    atDepth.Relates depth post (limited limit f) (limited limit g) := by
  rintro held machine _ ⟨rfl, rfl⟩
  rw [outcome_limited, outcome_limited]
  split
  · exact .failed rfl ⟨rfl, rfl⟩
  · rw [outcome_deeper, outcome_deeper]
    have hout := h held { machine with depth := machine.depth + 1 } _ ⟨rfl, rfl⟩
    generalize f.outcome held { machine with depth := machine.depth + 1 } = x at hout ⊢
    generalize g.outcome held { machine with depth := machine.depth + 1 } = y at hout ⊢
    cases hout with
    | abandoned hhalt => exact hhalt.elim
    | failed halike hm =>
        obtain ⟨rfl, hdepth⟩ := hm
        exact .failed halike ⟨rfl, by simp [hdepth]⟩
    | ended ha hm =>
        obtain ⟨rfl, hdepth⟩ := hm
        exact .ended ha ⟨rfl, by simp [hdepth]⟩

theorem atDepth_lawful (session : Session) : atDepth.Lawful fun _ => session where
  globals_eq := rfl
  natives_eq := rfl
  store_eq := fun h => congrArg Machine.store h.1
  store_set := by
    rintro _ machine _ store ⟨rfl, hdepth⟩
    exact ⟨rfl, hdepth⟩
  leave := by
    rintro _ machine _ held frame ⟨rfl, rfl⟩
    exact ⟨rfl, Machine.depth_leave machine held frame⟩
  alike_refl := fun _ => rfl
  limited := atDepth_limited
  host := by
    rintro _ name function machine _ args _ ⟨rfl, -⟩
    rfl

/-- The call evaluates a form. -/
def Call.IsEvaluation (call : Call) : Prop :=
  ∃ form scope, call.task = .eval form scope

/-- Ways of carrying out tasks that differ on one call compare at every depth but that of the
call. -/
theorem SameBut.relates {perform' : Task → EvalM Value} {depth : Nat}
    (hbut : SameBut inner (run session fuel) perform') (hne : inner.machine.depth ≠ depth)
    (task : Task) :
    atDepth.Relates depth (fun _ => True) (run session fuel task) (perform' task) := by
  rintro held machine _ ⟨rfl, hdepth⟩
  have hsame : (perform' task).outcome held machine =
      (run session fuel task).outcome held machine := by
    refine hbut ⟨task, held, machine⟩ fun heq => hne ?_
    rw [← hdepth, ← heq]
  rw [hsame]
  exact (atDepth_lawful session).run fuel _ task held machine machine ⟨rfl, hdepth⟩

/-- The calls that a step asks for are all made at the depth at which it carries out its task. -/
theorem depth_of_asks (hasks : Asks session (run session fuel) call inner) :
    inner.machine.depth =
      (atDepth_lawful session).logic.toLogic.inside call.machine.depth call.task := by
  obtain ⟨perform', hbut, hdiffer⟩ := hasks
  refine Classical.byContradiction fun hne => hdiffer ?_
  have hstep : atDepth.Relates call.machine.depth (fun _ => True)
      (step session (run session fuel) call.task) (step session perform' call.task) :=
    (atDepth_lawful session).logic.step (p := fun i => bif i then perform' else run session fuel)
      (hbut.relates hne)
  exact (atDepth_outcome (hstep call.held call.machine _ ⟨rfl, rfl⟩)).1.symm

/-- An evaluation that asks for something is below the limit. -/
theorem Call.IsEvaluation.depth_lt (h : call.IsEvaluation)
    (hasks : Asks session (run session fuel) call inner) :
    call.machine.depth < session.maxDepth := by
  obtain ⟨form, scope, htask⟩ := h
  obtain ⟨perform', -, hdiffer⟩ := hasks
  refine Nat.lt_of_not_le fun hlimit => hdiffer ?_
  have hout : ∀ perform, call.outcome (step session perform) =
      (.error (.error (.recursionLimit session.maxDepth)), call.machine) := by
    intro perform
    rw [Call.outcome, htask]
    show (limited session.maxDepth (evalForm session perform form scope)).outcome _ _ = _
    rw [outcome_limited, if_pos hlimit]
  rw [hout, hout]

theorem Call.IsEvaluation.depth_of_asks (h : call.IsEvaluation)
    (hasks : Asks session (run session fuel) call inner) :
    inner.machine.depth = call.machine.depth + 1 := by
  have hdepth := Eval.depth_of_asks hasks
  obtain ⟨form, scope, htask⟩ := h
  rw [htask] at hdepth
  exact hdepth

theorem depth_of_asks_of_not_isEvaluation (h : ¬call.IsEvaluation)
    (hasks : Asks session (run session fuel) call inner) :
    inner.machine.depth = call.machine.depth := by
  have hdepth := depth_of_asks hasks
  rcases htask : call.task with ⟨form, scope⟩ | _ | _ | _
  · exact absurd ⟨form, scope, htask⟩ h
  · rw [htask] at hdepth
    exact hdepth
  · rw [htask] at hdepth
    exact hdepth
  · rw [htask] at hdepth
    exact hdepth

/-! ### Stretches of calls that are not counted -/

/-- A stretch of calls, each one asked for by the one before and none of them an evaluation, that
begins with this one. -/
inductive Uncounted (session : Session) : Call → Nat → Prop
  | none (call : Call) : Uncounted session call 0
  | more {call middle : Call} {length : Nat} :
      ¬call.IsEvaluation → Needs session call middle → Uncounted session middle length →
      Uncounted session call (length + 1)

/-- A run that has an outcome has no longer stretches than its bound on nested steps. -/
theorem Uncounted.le_of_finishes {length : Nat} (h : Uncounted session call length)
    (hfinishes : call.Finishes session fuel) : length ≤ fuel := by
  induction h generalizing fuel with
  | none call => exact Nat.zero_le fuel
  | more _ hneeds _ ih =>
      cases fuel with
      | zero => exact absurd rfl hfinishes
      | succ fuel => exact Nat.succ_le_succ (ih (hfinishes.of_needs hneeds))

/-- The calls inside each other are as many as the levels below the limit allow, with an uncounted
stretch on each level. -/
theorem Nested.length_le {bound : Nat} (hnested : Nested session fuel call fuel' inner)
    (hbound : ∀ other length, Relation.ReflTransGen (Needs session) call other →
      Uncounted session other length → length ≤ bound) :
    ∃ length, Uncounted session call length ∧
      fuel ≤ fuel' + length + (session.maxDepth - call.machine.depth) * (bound + 1) := by
  induction hnested with
  | self fuel call => exact ⟨0, .none call, Nat.le_add_right fuel _⟩
  | @inner fuel fuel' call middle inner hasks _ ih =>
      have hneeds : Needs session call middle := ⟨fuel, hasks⟩
      obtain ⟨length, huncounted, hle⟩ :=
        ih fun other length hreaches => hbound other length (.head hneeds hreaches)
      by_cases heval : call.IsEvaluation
      · have hlimit := heval.depth_lt hasks
        have hlength := hbound middle length (.single hneeds) huncounted
        obtain ⟨levels, hlevels⟩ : ∃ levels, session.maxDepth - call.machine.depth = levels + 1 :=
          ⟨session.maxDepth - call.machine.depth - 1, by omega⟩
        have hbelow : session.maxDepth - middle.machine.depth = levels := by
          have hdepth := heval.depth_of_asks hasks
          omega
        refine ⟨0, .none call, ?_⟩
        rw [hbelow] at hle
        rw [hlevels, Nat.succ_mul]
        omega
      · rw [depth_of_asks_of_not_isEvaluation heval hasks] at hle
        exact ⟨length + 1, .more heval hneeds huncounted, by omega⟩

/-- **A run ends if its uncounted stretches are bounded.** -/
theorem finishes_of_bounded (bound : Nat)
    (hbound : ∀ other length, Relation.ReflTransGen (Needs session) call other →
      Uncounted session other length → length ≤ bound) :
    ∃ fuel, call.Finishes session fuel := by
  let enough := bound + (session.maxDepth - call.machine.depth) * (bound + 1) + 1
  refine ⟨enough, Classical.byContradiction fun hcut => ?_⟩
  obtain ⟨inner, hnested⟩ := exists_nested_zero hcut
  obtain ⟨length, huncounted, hle⟩ := hnested.length_le hbound
  have hlength := hbound call length .refl huncounted
  omega

end

/-! ### How calls run -/

section

variable {session : Session} {perform : Task → EvalM Value} {scope : FrameRef} {machine : Machine}
  {store : Store} {census : Option Census} {depth : Nat}

/-- The values of forms that change nothing. -/
theorem outcome_evalEach {forms values : List Value}
    (h : List.Forall₂ (fun form value => ∀ held,
      (perform (.eval form scope)).outcome held machine = (.ok value, machine)) forms values)
    (held : List Hold) :
    (evalEach perform scope forms).outcome held machine = (.ok values, machine) := by
  induction h generalizing held with
  | nil => rfl
  | @cons form value forms values hvalue _ ih =>
      have hothers : (holding [value] (evalEach perform scope forms)).outcome held machine = _ :=
        ih (.values [value] :: held)
      rw [evalEach, outcome_bind_ok (hvalue held), outcome_bind_ok hothers]
      rfl

/-- A form with a name at its head is evaluated by what the name means. -/
theorem outcome_evalForm_named {ref : CellRef} {name : Symbol}
    (hcar : machine.store.car ref = .symbol name) (held : List Hold) :
    (evalForm session perform (.pair ref) scope).outcome held machine =
      (evalNamed session perform (.pair ref) name (machine.store.cdr ref) scope).outcome held
        machine := by
  rw [evalForm, evalPair, outcome_bind_ok (outcome_inspect _ _ _),
    outcome_bind_ok (outcome_inspect _ _ _), hcar]

/-- A function that a name means is called on the values of the argument forms. -/
theorem outcome_evalForm_call {ref : CellRef} {name : Symbol} {callee : Value}
    {forms values : List Value} (hcar : machine.store.car ref = .symbol name)
    (hspecial : SpecialForm.ofSymbol? name = none)
    (hcallee : machine.store.lookup scope name = some callee) (hfunction : callee.IsFunction)
    (hforms : machine.store.elements (machine.store.cdr ref) = .ok forms)
    (hvalues : List.Forall₂ (fun form value => ∀ held,
      (perform (.eval form scope)).outcome held machine = (.ok value, machine)) forms values)
    (held : List Hold) :
    (evalForm session perform (.pair ref) scope).outcome held machine =
      (perform (.apply callee values)).outcome
        (.values [callee, machine.store.cdr ref] :: held) machine := by
  have harguments : (evalArguments perform (machine.store.cdr ref) scope).outcome
      (.values [callee, machine.store.cdr ref] :: held) machine = (.ok values, machine) := by
    have hfound : (argumentForms (machine.store.cdr ref)).outcome
        (.values [callee, machine.store.cdr ref] :: held) machine = (.ok forms, machine) := by
      rw [argumentForms, outcome_bind_ok (outcome_inspect _ _ _), hforms]
      rfl
    rw [evalArguments, outcome_bind_ok hfound]
    exact outcome_evalEach hvalues _
  rw [outcome_evalForm_named hcar, evalNamed, hspecial]
  simp only
  rw [outcome_bind_ok (outcome_inspect _ _ _), hcallee]
  cases hfunction with
  | closure lambda => exact outcome_bind_ok harguments _
  | builtin native => exact outcome_bind_ok harguments _

/-- The function `apply` hands on to the function that it is called on. -/
theorem outcome_run_spread {name : Symbol} {callee list : Value} {args : List Value}
    (hname : session.natives.lookup name = some (.primitive .apply))
    (hlist : machine.store.elements list = .ok args) (fuel : Nat) (held : List Hold) :
    (run session (fuel + 1) (.apply (.builtin name) [callee, list])).outcome held machine =
      (run session fuel (.apply callee args)).outcome (.values [callee, list] :: held) machine := by
  show (Eval.apply session (run session fuel) (.builtin name) [callee, list]).outcome held machine
    = _
  rw [Eval.apply, hname]
  show (spread (run session fuel) callee [] list).outcome (.values [callee, list] :: held) machine
    = _
  rw [spread, outcome_bind_ok (outcome_inspect _ _ _), hlist]
  rfl

theorem outcome_run_name {name : Symbol} {value : Value} (hlimit : depth < session.maxDepth)
    (hname : store.lookup scope name = some value) (fuel : Nat) (held : List Hold) :
    (run session (fuel + 1) (.eval (.symbol name) scope)).outcome held ⟨store, census, depth⟩ =
      (.ok value, ⟨store, census, depth⟩) := by
  have hform : (evalForm session (run session fuel) (.symbol name) scope).outcome held
      ⟨store, census, depth + 1⟩ = (.ok value, ⟨store, census, depth + 1⟩) := by
    rw [evalForm, outcome_bind_ok (outcome_inspect _ _ _), hname]
    rfl
  show (limited session.maxDepth (evalForm session (run session fuel) _ scope)).outcome held _ = _
  rw [outcome_limited, if_neg (Nat.not_le.2 hlimit), outcome_deeper, hform]
  rfl

end

/-! ### A list that contains itself -/

section

variable {session : Session} {store : Store} {depth : Nat}

/-- A list of the function `apply` and of the list itself is handed on without end. -/
theorem apply_to_itself {name : Symbol} {list : Value} {machine : Machine}
    (hname : session.natives.lookup name = some (.primitive .apply))
    (hlist : machine.store.elements list = .ok [.builtin name, list]) (fuel : Nat)
    (held : List Hold) :
    ((run session fuel (.apply (.builtin name) [.builtin name, list])).outcome held machine).1 =
      .error .exhausted := by
  induction fuel generalizing held with
  | zero => rfl
  | succ fuel ih =>
      rw [outcome_run_spread hname hlist]
      exact ih _

/-- A call of a native function whose argument forms are all names. -/
theorem outcome_run_call {scope : FrameRef} {ref : CellRef} {name native : Symbol}
    {names : List Symbol} {values : List Value} (census : Option Census)
    (hlimit : depth + 1 < session.maxDepth) (hcar : store.car ref = .symbol name)
    (hspecial : SpecialForm.ofSymbol? name = none)
    (hcallee : store.lookup scope name = some (.builtin native))
    (hcdr : store.elements (store.cdr ref) = .ok (names.map .symbol))
    (hnames : List.Forall₂ (fun name value => store.lookup scope name = some value) names values)
    (fuel : Nat) (held : List Hold) :
    ((run session (fuel + 2) (.eval (.pair ref) scope)).outcome held ⟨store, census, depth⟩).1 =
      ((run session (fuel + 1) (.apply (.builtin native) values)).outcome
        (.values [.builtin native, store.cdr ref] :: held) ⟨store, census, depth + 1⟩).1 := by
  let inside : Machine := ⟨store, census, depth + 1⟩
  have hvalues : List.Forall₂ (fun form value => ∀ held,
      (run session (fuel + 1) (.eval form scope)).outcome held inside = (.ok value, inside))
      (names.map .symbol) values :=
    List.forall₂_map_left_iff.2
      (hnames.imp fun _ _ hname => outcome_run_name hlimit hname fuel)
  have hinside : (evalForm session (run session (fuel + 1)) (.pair ref) scope).outcome held inside =
      (run session (fuel + 1) (.apply (.builtin native) values)).outcome
        (.values [.builtin native, store.cdr ref] :: held) inside :=
    outcome_evalForm_call (show inside.store.car ref = _ from hcar) hspecial hcallee
      (.builtin native) hcdr hvalues held
  show ((limited session.maxDepth (evalForm session (run session (fuel + 1)) (.pair ref)
    scope)).outcome held ⟨store, census, depth⟩).1 = _
  rw [outcome_limited, if_neg (Nat.not_le.2 (Nat.lt_of_succ_lt hlimit)), outcome_deeper]
  show ((evalForm session (run session (fuel + 1)) (.pair ref) scope).outcome held inside).1 = _
  rw [hinside]

end

end Eval

namespace Session

open EvalM

variable {session : Session} {fuel fuel' : Nat} {held : List Hold} {machine : Machine}

/-! ### Requests that have an outcome -/

/-- The forms are evaluated one after the other without being cut short. -/
def Completes (session : Session) (fuel : Nat) : List Value → List Hold → Machine → Prop
  | [], _, _ => True
  | form :: rest, held, machine =>
      let call := session.formCall form held machine
      call.Finishes session fuel ∧
        ∀ value after, call.outcome (Eval.run session fuel) = (.ok value, after) →
          Completes session fuel rest (.values [value] :: held) after

theorem Completes.runsAlike {forms : List Value}
    (h : session.Completes fuel forms held machine) (hle : fuel ≤ fuel') :
    RunsAlike session session fuel fuel' forms held machine := by
  induction forms generalizing held machine with
  | nil => trivial
  | cons form rest ih =>
      exact ⟨h.1.outcome_eq hle, fun value after hvalue => ih (h.2 value after hvalue)⟩

theorem Completes.mono {forms : List Value} (h : session.Completes fuel forms held machine)
    (hle : fuel ≤ fuel') : session.Completes fuel' forms held machine := by
  induction forms generalizing held machine with
  | nil => trivial
  | cons form rest ih =>
      refine ⟨h.1.mono hle, fun value after hvalue => ih (h.2 value after ?_)⟩
      rw [← h.1.outcome_eq hle]
      exact hvalue

/-- A sequence is cut short if its first part is, or its second part behind it. -/
theorem exhausted_bind {α β : Type} (f : EvalM α) (k : α → EvalM β) :
    ((f >>= k).outcome held machine).1 = .error .exhausted ↔
      (f.outcome held machine).1 = .error .exhausted ∨
        ∃ a after, f.outcome held machine = (.ok a, after) ∧
          ((k a).outcome held after).1 = .error .exhausted := by
  rcases hout : f.outcome held machine with ⟨halt | a, after⟩
  · rw [outcome_bind_error hout]
    simp
  · rw [outcome_bind_ok hout]
    simp

theorem exhausted_bind_pure {α β : Type} (f : EvalM α) (g : α → β) :
    ((f >>= fun a => pure (g a)).outcome held machine).1 = .error .exhausted ↔
      (f.outcome held machine).1 = .error .exhausted := by
  rw [exhausted_bind]
  simp

theorem exhausted_attempt {α : Type} (f : EvalM α) :
    ((attempt f).outcome held machine).1 = .error .exhausted ↔
      (f.outcome held machine).1 = .error .exhausted := by
  rw [outcome_attempt]
  rcases f.outcome held machine with ⟨(_ | _) | _, _⟩ <;> simp

theorem not_completes_cons {form : Value} {rest : List Value} :
    ¬session.Completes fuel (form :: rest) held machine ↔
      ((session.formCall form held machine).outcome (Eval.run session fuel)).1 =
          .error .exhausted ∨
        ∃ value after, (session.formCall form held machine).outcome (Eval.run session fuel) =
            (.ok value, after) ∧
          ¬session.Completes fuel rest (.values [value] :: held) after := by
  rw [Completes, not_and_or]
  simp only [Eval.Call.Finishes, ne_eq, not_not, not_forall, exists_prop]

theorem evalEach_exhausted_iff (forms : List Value) :
    ((Eval.evalEach (Eval.run session fuel) session.globals forms).outcome held machine).1 =
        .error .exhausted ↔
      ¬session.Completes fuel forms held machine := by
  induction forms generalizing held machine with
  | nil => exact ⟨(fun h => by cases h), fun h => absurd trivial h⟩
  | cons form rest ih =>
      rw [Eval.evalEach, exhausted_bind, not_completes_cons]
      simp only [exhausted_bind_pure, outcome_holding, ih]
      rfl

theorem attemptEach_exhausted_iff (forms : List Value) :
    ((session.attemptEach fuel forms).outcome held machine).1 = .error .exhausted ↔
      ¬session.Completes fuel forms held machine := by
  induction forms generalizing held machine with
  | nil => exact ⟨(fun h => by cases h), fun h => absurd trivial h⟩
  | cons form rest ih =>
      rw [Session.attemptEach, exhausted_bind, exhausted_attempt, not_completes_cons]
      refine or_congr Iff.rfl ⟨?_, ?_⟩
      · rintro ⟨_ | value, after, hout, hrest⟩
        · cases hrest
        · exact ⟨value, after, outcome_of_attempt_ok hout,
            ih.1 ((exhausted_bind_pure _ _).1 hrest)⟩
      · rintro ⟨value, after, hout, hrest⟩
        have hform : (Eval.run session fuel (.eval form session.globals)).outcome held machine =
            (.ok value, after) := hout
        refine ⟨.ok value, after, ?_, (exhausted_bind_pure _ _).2 (ih.2 hrest)⟩
        rw [outcome_attempt, hform]

theorem evalForms_exhausted_iff (data : List Datum) :
    ((session.evalForms fuel data).outcome held machine).1 = .error .exhausted ↔
      ¬session.OnceMade data (session.Completes fuel) held machine := by
  rw [Session.evalForms, outcome_bind_ok (outcome_update _ _ _)]
  exact evalEach_exhausted_iff _

theorem evalUntilError_exhausted_iff (data : List Datum) :
    ((session.evalUntilError fuel data).outcome held machine).1 = .error .exhausted ↔
      ¬session.OnceMade data (session.Completes fuel) held machine := by
  rw [Session.evalUntilError, outcome_bind_ok (outcome_update _ _ _)]
  exact attemptEach_exhausted_iff _

theorem evalText_exhausted_iff (source : String) :
    ((session.evalText fuel source).outcome held machine).1 = .error .exhausted ↔
      ¬session.OnceMade (Request.formsOf source) (session.Completes fuel) held machine := by
  rw [Session.evalText, Request.formsOf]
  cases Datum.read source with
  | error cause => exact ⟨(fun h => by cases h), fun h => absurd trivial h⟩
  | ok forms => exact evalForms_exhausted_iff forms

theorem evalTextLast_exhausted_iff (source : String) :
    ((session.evalTextLast fuel source).outcome held machine).1 = .error .exhausted ↔
      ¬session.OnceMade (Request.formsOf source) (session.Completes fuel) held machine :=
  (exhausted_bind_pure _ _).trans (evalText_exhausted_iff source)

/-- A request is cut short if one of its forms is. -/
theorem serve_exhausted_iff (request : Request) :
    ((session.serve fuel request).outcome held machine).1 = .error .exhausted ↔
      ¬session.OnceMade request.forms (session.Completes fuel) held machine := by
  cases request with
  | text source => exact (exhausted_bind_pure _ _).trans (evalText_exhausted_iff source)
  | lastOf source => exact (exhausted_bind_pure _ _).trans (evalTextLast_exhausted_iff source)
  | line source =>
      refine (exhausted_bind_pure _ _).trans ?_
      rw [Session.evalLine, Request.forms, Request.formsOf]
      cases Datum.read (Text.trim source) with
      | error cause => exact ⟨(fun h => by cases h), fun h => absurd trivial h⟩
      | ok forms => exact evalUntilError_exhausted_iff forms
  | file files path =>
      refine (exhausted_bind_pure _ _).trans ?_
      rw [Session.load, Request.forms]
      cases files path with
      | error fault => exact ⟨(fun h => by cases h), fun h => absurd trivial h⟩
      | ok source => exact evalTextLast_exhausted_iff source

theorem execute_exhausted_iff (request : Request) (store : Store) (census : Option Census) :
    (session.execute held store census (session.serve fuel request)).1 = .error .exhausted ↔
      ¬session.OnceMade request.forms (session.Completes fuel) (.frames session.keeps :: held)
        ⟨store, census, session.depth⟩ :=
  serve_exhausted_iff request

/-! ### Requests that are served in the end -/

theorem MakesInTurn.mono {forms : List Value} {inner : Eval.Call}
    (h : MakesInTurn session fuel forms held machine inner) (more : Nat) :
    MakesInTurn session (fuel + more) forms held machine inner := by
  induction h with
  | now hnested => exact .now (hnested.mono more)
  | @next form rest held machine after value inner hout _ ih =>
      have hfinishes : (session.formCall form held machine).Finishes session fuel := by
        rw [Eval.Call.Finishes, hout]
        exact nofun
      exact .next ((hfinishes.outcome_eq (Nat.le_add_right fuel more)).trans hout) ih

/-- Every call on the way has an outcome if all forms are evaluated without being cut short. -/
theorem Completes.finishes {forms : List Value} {inner : Eval.Call} {bound : Nat}
    (h : session.Completes bound forms held machine)
    (hmakes : MakesInTurn session fuel forms held machine inner) :
    inner.Finishes session bound := by
  induction hmakes with
  | now hnested => exact h.1.of_nested hnested
  | @next form rest held machine after value inner hout _ ih =>
      have hfinishes : (session.formCall form held machine).Finishes session fuel := by
        rw [Eval.Call.Finishes, hout]
        exact nofun
      exact ih (h.2 value after ((h.1.unique hfinishes).trans hout))

/-- Forms are evaluated without being cut short if the uncounted stretches on the way are
bounded. -/
theorem completes_of_bounded {forms : List Value} {bound : Nat}
    (hbound : ∀ fuel inner length, MakesInTurn session fuel forms held machine inner →
      Eval.Uncounted session inner length → length ≤ bound) :
    ∃ fuel, session.Completes fuel forms held machine := by
  induction forms generalizing held machine with
  | nil => exact ⟨0, trivial⟩
  | cons form rest ih =>
      obtain ⟨first, hfirst⟩ : ∃ fuel,
          (session.formCall form held machine).Finishes session fuel := by
        refine Eval.finishes_of_bounded bound fun inner length hreaches => ?_
        obtain ⟨fuel, fuel', hnested⟩ := Eval.exists_nested hreaches
        exact hbound fuel inner length (.now hnested)
      rcases hout : (session.formCall form held machine).outcome (Eval.run session first) with
        ⟨halt | value, after⟩
      · refine ⟨first, hfirst, fun value after hvalue => ?_⟩
        rw [hout] at hvalue
        exact nomatch (Prod.mk.inj hvalue).1
      · have hrest : ∀ fuel inner length,
            MakesInTurn session fuel rest (.values [value] :: held) after inner →
            Eval.Uncounted session inner length → length ≤ bound := by
          intro fuel inner length hmakes
          have hlater := hfirst.outcome_eq (Nat.le_add_left first fuel)
          exact hbound (fuel + first) inner length (.next (hlater.trans hout) (hmakes.mono first))
        obtain ⟨others, hothers⟩ := ih hrest
        refine ⟨first + others, hfirst.mono (Nat.le_add_right first others), ?_⟩
        intro value' after' hvalue
        rw [hfirst.outcome_eq (Nat.le_add_right first others), hout] at hvalue
        obtain ⟨hresult, rfl⟩ := Prod.mk.inj hvalue
        obtain rfl := Except.ok.inj hresult
        exact hothers.mono (Nat.le_add_left others first)

/-- **What the limit does not count decides whether evaluation ends.** Take any session with any
limit, any store, cyclic or not, and any text that the session is given. The text is served with
a result or an error, the same for all larger bounds on nested steps, if and only if the stretches
of calls that are no evaluations, each asked for by the one before, do not get longer than some
bound. -/
theorem serve_ends_iff (session : Session) (request : Request) (held : List Hold) (store : Store)
    (census : Option Census) :
    (∃ bound result after, result ≠ .error .exhausted ∧ ∀ fuel, bound ≤ fuel →
      session.execute held store census (session.serve fuel request) = (result, after)) ↔
    ∃ bound, ∀ fuel inner length,
      Makes session fuel request.forms (.frames session.keeps :: held)
        ⟨store, census, session.depth⟩ inner →
      Eval.Uncounted session inner length → length ≤ bound := by
  constructor
  · rintro ⟨bound, result, after, hresult, hout⟩
    have hcompletes : session.OnceMade request.forms (session.Completes bound)
        (.frames session.keeps :: held) ⟨store, census, session.depth⟩ := by
      refine Classical.byContradiction fun hcut => hresult ?_
      have hexhausted := (execute_exhausted_iff request store census).2 hcut
      rw [hout bound (Nat.le_refl bound)] at hexhausted
      exact hexhausted
    exact ⟨bound, fun fuel inner length hmakes huncounted =>
      huncounted.le_of_finishes (Completes.finishes hcompletes hmakes)⟩
  · rintro ⟨bound, hbound⟩
    obtain ⟨enough, hcompletes⟩ := completes_of_bounded hbound
    let out := session.execute held store census (session.serve enough request)
    refine ⟨enough, out.1, out.2, fun hexhausted => ?_, fun fuel hle => ?_⟩
    · exact (execute_exhausted_iff request store census).1 hexhausted hcompletes
    · have hserve := RunsAlike.serve rfl (Completes.runsAlike hcompletes hle)
      exact congrArg (fun out : Except Halt Unit × Machine => (out.1,
        { session with depth := out.2.depth }, out.2.store, out.2.census)) hserve

/-! ### A session that never answers -/

/-- The forms behind some that have values are evaluated where these leave the machine. -/
theorem Completes.behind {forms rest : List Value} {few : Nat} {values : List Value}
    {after : Machine} (h : session.Completes fuel (forms ++ rest) held machine) (hle : few ≤ fuel)
    (hforms : (Eval.evalEach (Eval.run session few) session.globals forms).outcome held machine =
      (.ok values, after)) :
    ∃ held', session.Completes fuel rest held' after := by
  induction forms generalizing held machine values with
  | nil =>
      obtain ⟨-, rfl⟩ := Prod.mk.inj hforms
      exact ⟨held, h⟩
  | cons form forms ih =>
      rw [Eval.evalEach] at hforms
      obtain ⟨value, next, hcall, hrest⟩ := exists_of_outcome_bind hforms
      obtain ⟨others, last, hothers, hlast⟩ := exists_of_outcome_bind hrest
      obtain ⟨-, rfl⟩ := Prod.mk.inj hlast
      have hfinishes : (session.formCall form held machine).Finishes session few := by
        rw [Eval.Call.Finishes, Eval.Call.outcome, formCall, hcall]
        intro hexhausted
        cases hexhausted
      exact ih (h.2 value next ((hfinishes.outcome_eq hle).trans hcall)) hothers

/-- In the store the pair is a call of `apply` on itself and a list, both given by name, and the
list is one of `apply` and itself. -/
def AppliesToItself (session : Session) (store : Store) (apply name : Symbol) (ref : CellRef)
    (list : Value) : Prop :=
  store.car ref = .symbol apply ∧
    store.elements (store.cdr ref) = .ok ([apply, name].map .symbol) ∧
    store.lookup session.globals apply = some (.builtin apply) ∧
    store.lookup session.globals name = some list ∧
    store.elements list = .ok [.builtin apply, list]

instance (session : Session) (store : Store) (apply name : Symbol) (ref : CellRef) (list : Value) :
    Decidable (session.AppliesToItself store apply name ref list) :=
  inferInstanceAs (Decidable (_ ∧ _))

/-- Such a call is cut short whatever the bound on nested steps. -/
theorem AppliesToItself.not_completes {rest : List Value} {apply name : Symbol} {ref : CellRef}
    {list : Value} (h : session.AppliesToItself machine.store apply name ref list)
    (happly : session.natives.lookup apply = some (.primitive .apply))
    (hspecial : SpecialForm.ofSymbol? apply = none)
    (hlimit : machine.depth + 1 < session.maxDepth) :
    ¬session.Completes (fuel + 2) (.pair ref :: rest) held machine := by
  intro hcompletes
  obtain ⟨hcar, hcdr, hcallee, hname, hlist⟩ := h
  have hnames : List.Forall₂
      (fun name value => machine.store.lookup session.globals name = some value)
      [apply, name] [.builtin apply, list] := .cons hcallee (.cons hname .nil)
  have hout := Eval.outcome_run_call machine.census hlimit hcar hspecial hcallee hcdr hnames fuel
    held
  have hlist' : ({ machine with depth := machine.depth + 1 } : Machine).store.elements list =
      .ok [.builtin apply, list] := hlist
  exact hcompletes.1 (hout.trans (Eval.apply_to_itself happly hlist' (fuel + 1) _))

/-- The forms `(def x (list apply 0)) (set-car! (cdr x) x) (apply apply x)`. By the first two `X`
becomes a list of `apply` and itself, to which the third applies `apply`. -/
def knot : List Datum :=
  [.list [.symbol (.ofString "DEF"), .symbol (.ofString "X"),
    .list [.symbol (.ofString "LIST"), .symbol (.ofString "APPLY"), .integer 0]],
   .list [.symbol (.ofString "SET-CAR!"),
    .list [.symbol (.ofString "CDR"), .symbol (.ofString "X")], .symbol (.ofString "X")],
   .list [.symbol (.ofString "APPLY"), .symbol (.ofString "APPLY"), .symbol (.ofString "X")]]

/-- The forms of the knot, made in a new session. -/
def knotForms : List Value × Store :=
  (create {} 10).2.ofData 0 knot

/-- What becomes of the new session when the first two of them are evaluated. -/
def knotted : Except Halt (List Value) × Machine :=
  (Eval.evalEach (Eval.run (create {} 10).1 10) (create {} 10).1.globals
    (knotForms.1.take 2)).outcome [.values knotForms.1, .frames (create {} 10).1.keeps]
      ⟨knotForms.2, none, (create {} 10).1.depth⟩

/-- A list of `apply` and itself, in a session with a limit of ten: `apply` is applied to it
without end, whatever the bound on nested steps. -/
theorem apply_to_itself_never_ends :
    ¬∃ fuel, ((create {} 10).1.execute [] (create {} 10).2 none ((create {} 10).1.serve fuel
      (.text "(def x (list apply 0)) (set-car! (cdr x) x) (apply apply x)"))).1 ≠
        .error .exhausted := by
  rintro ⟨fuel, hfinishes⟩
  rw [Ne, execute_exhausted_iff, Classical.not_not] at hfinishes
  have hforms : (Request.text
      "(def x (list apply 0)) (set-car! (cdr x) x) (apply apply x)").forms = knot := by
    decide +kernel
  rw [hforms] at hfinishes
  have hcompletes : (create {} 10).1.Completes fuel (knotForms.1.take 2 ++ knotForms.1.drop 2)
      [.values knotForms.1, .frames (create {} 10).1.keeps]
      ⟨knotForms.2, none, (create {} 10).1.depth⟩ := by
    rw [List.take_append_drop]
    exact hfinishes
  have hknot : knotted.1 = .ok [.symbol (.ofString "X"), .pair ⟨0, 14⟩] ∧
      knotted.2.depth + 1 < 10 ∧ knotForms.1.drop 2 = [.pair ⟨0, 13⟩] ∧
      (create {} 10).1.AppliesToItself knotted.2.store (.ofString "APPLY") (.ofString "X")
        ⟨0, 13⟩ (.pair ⟨0, 15⟩) := by
    decide +kernel
  obtain ⟨hvalues, hdepth, hform, hself⟩ := hknot
  have hout : (Eval.evalEach (Eval.run (create {} 10).1 10) (create {} 10).1.globals
      (knotForms.1.take 2)).outcome [.values knotForms.1, .frames (create {} 10).1.keeps]
        ⟨knotForms.2, none, (create {} 10).1.depth⟩ = (knotted.1, knotted.2) := rfl
  rw [hvalues] at hout
  obtain ⟨held, hlast⟩ := (hcompletes.mono (Nat.le_add_right fuel 10)).behind
    (Nat.le_add_left 10 fuel) hout
  rw [hform] at hlast
  exact hself.not_completes rfl (by decide) hdepth hlast

end Session

end SmallLisp
