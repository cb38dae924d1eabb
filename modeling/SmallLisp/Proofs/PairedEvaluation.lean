import SmallLisp.Proofs.Running
import SmallLisp.Proofs.Start
import SmallLisp.Proofs.PairedStores

/-!
# Evaluation in step

An evaluation is run on both stores of a twin. It finds the same there, whatever else the stores
have, and so takes the same way to the same end; on the left, frames may be released meanwhile. The
steps in progress hold what they are going to need, and no release takes that away.

Functions of the host take part if they are discreet, that is, look at nothing but what can be
reached from their arguments.

## Main results

* `Agrees.within` — a call leaves its frame in step.
* `Agrees.invoke` — a call of a lambda is run in step if its body is.
* `tandem_performs` — all tasks are carried out in step, with any bound on nested steps.
* `Session.evalText_agrees`, … — so is all that a host runs in a session.
-/

namespace SmallLisp

/-- A function that looks at nothing but what can be reached from its arguments, and answers with
something that can be. As a function of a host it is quiet already (`HostCode.Quiet`). -/
def HostFunction.Discreet (function : HostFunction) : Prop :=
  ∀ (depth : Nat) (P : Item → Prop) (left right : Store) (args : List Value),
    left.AgreeOn P right → left.Closed P → (∀ arg ∈ args, arg.In P) →
      function.call depth left args = function.call depth right args ∧
        ∀ value, function.call depth left args = .ok value → value.In P

/-- All host functions among these are discreet. -/
def Table.Discreet (natives : Table Native) : Prop :=
  natives.Hosts HostFunction.Discreet

namespace Eval

open EvalM

variable {common : Nat → Prop} {globals : FrameRef} {α β : Type}

/-- A twin with the number of evaluations in progress. The global frame is intact. -/
structure Stage (common : Nat → Prop) (globals : FrameRef) where
  twin : Twin common
  depth : Nat
  globals_intact : twin.intact (.frame globals)

/-- What is held, with the global frame always. -/
structure Hands (globals : FrameRef) where
  held : List Hold
  globals_mem : .frame globals ∈ held.flatMap Hold.items

/-- All that is held. -/
def Hands.items (hands : Hands globals) : List Item :=
  hands.held.flatMap Hold.items

/-- Some more is held. -/
def Hands.add (hands : Hands globals) (more : Hold) : Hands globals :=
  ⟨more :: hands.held, List.mem_append_right _ hands.globals_mem⟩

theorem Hands.subset_add (hands : Hands globals) (more : Hold) :
    hands.items ⊆ (hands.add more).items :=
  List.subset_append_right _ _

namespace Stage

/-- The left machine. -/
def left (w : Stage common globals) : Machine :=
  ⟨w.twin.left, w.twin.census, w.depth⟩

/-- The right machine, which has no census. -/
def right (w : Stage common globals) : Machine :=
  ⟨w.twin.right, none, w.depth⟩

/-- The value can be looked at. -/
def Has (w : Stage common globals) (value : Value) : Prop :=
  value.In w.twin.intact

/-- What is held is intact. -/
def Rooted (w : Stage common globals) (c : Hands globals) : Prop :=
  ∀ item ∈ c.items, w.twin.intact item

end Stage

/-- Run on both machines, the evaluation comes to the same end, and the machines are a twin again.
On the left it is run while just this is held, if it is known there what is in use. -/
def Agrees (c : Hands globals) (w : Stage common globals) (post : Stage common globals → α → Prop)
    (f : EvalM α) : Prop :=
  w.Rooted c → ∀ heldLeft heldRight : List Hold,
    (w.twin.census.isSome = true → heldLeft = c.held) →
    ∃ result w', f.outcome heldLeft w.left = (result, w'.left) ∧
      f.outcome heldRight w.right = (result, w'.right) ∧
      w.twin.Leads c.items w'.twin ∧ w'.depth = w.depth ∧ ∀ a, result = .ok a → post w' a

section

variable {c : Hands globals} {w : Stage common globals} {post : Stage common globals → α → Prop}

/-- An evaluation that changes nothing and ends the same on both machines. -/
theorem Agrees.of_outcome {f : EvalM α} (result : Except Halt α)
    (hleft : ∀ held, f.outcome held w.left = (result, w.left))
    (hright : ∀ held, f.outcome held w.right = (result, w.right))
    (hpost : ∀ a, result = .ok a → post w a) : Agrees c w post f :=
  fun _ heldLeft heldRight _ =>
    ⟨result, w, hleft heldLeft, hright heldRight, .refl _ _, rfl, hpost⟩

theorem Agrees.pure {a : α} (h : post w a) : Agrees c w post (pure a) :=
  .of_outcome (.ok a) (fun _ => rfl) (fun _ => rfl) fun _ heq => Except.ok.inj heq ▸ h

theorem Agrees.fail (e : Error) : Agrees c w post (EvalM.fail e) :=
  .of_outcome (.error (.error e)) (fun _ => rfl) (fun _ => rfl) fun _ heq => nomatch heq

theorem Agrees.inspect {view : Store → α} (hview : view w.twin.left = view w.twin.right)
    (hpost : post w (view w.twin.left)) : Agrees c w post (EvalM.inspect view) := by
  refine .of_outcome (.ok (view w.twin.left)) (fun _ => rfl) (fun _ => ?_)
    fun _ heq => Except.ok.inj heq ▸ hpost
  rw [outcome_inspect, hview]
  rfl

theorem Agrees.update {change : Store → α × Store} {post' : Twin common → α → Prop}
    (h : w.twin.Alike change post')
    (hpost : ∀ w' : Stage common globals, w.twin.Grows w'.twin → ∀ a, post' w'.twin a → post w' a) :
    Agrees c w post (EvalM.update change) := by
  obtain ⟨a, twin, hleft, hright, hgrows, ha⟩ := h
  refine fun _ _ _ _ => ⟨.ok a, ⟨twin, w.depth, hgrows.intact w.globals_intact⟩, ?_, ?_,
    hgrows.leads _, rfl, fun _ heq => Except.ok.inj heq ▸ hpost _ hgrows a ha⟩
  · rw [outcome_update, Stage.left, hleft]
    exact congrArg (fun census => (_, Machine.mk _ census _)) hgrows.census_eq.symm
  · rw [outcome_update, Stage.right, hright]
    rfl

theorem Agrees.bind {P : Stage common globals → α → Prop} {post : Stage common globals → β → Prop}
    {f : EvalM α} {k : α → EvalM β} (h : Agrees c w P f)
    (hk : ∀ w' : Stage common globals, w.twin.Leads c.items w'.twin → ∀ a, P w' a →
      Agrees c w' post (k a)) : Agrees c w post (f >>= k) := by
  intro hrooted heldLeft heldRight hheld
  obtain ⟨result, w', hleft, hright, hleads, hdepth, hP⟩ := h hrooted heldLeft heldRight hheld
  cases result with
  | error halt =>
      exact ⟨.error halt, w', outcome_bind_error hleft k, outcome_bind_error hright k, hleads,
        hdepth, fun _ heq => nomatch heq⟩
  | ok a =>
      have hrooted' : w'.Rooted c := fun item hitem => hleads.rooted hitem (hrooted item hitem)
      have hheld' : w'.twin.census.isSome = true → heldLeft = c.held := by
        rw [hleads.counted]
        exact hheld
      obtain ⟨result', w'', hleft', hright', hleads', hdepth', hpost⟩ :=
        hk w' hleads a (hP a rfl) hrooted' heldLeft heldRight hheld'
      exact ⟨result', w'', (outcome_bind_ok hleft k).trans hleft',
        (outcome_bind_ok hright k).trans hright', hleads.trans hleads', hdepth'.trans hdepth, hpost⟩

theorem Agrees.holding {f : EvalM α} {values : List Value} (hvalues : ∀ v ∈ values, w.Has v)
    (h : Agrees (c.add (.values values)) w post f) :
    Agrees c w (fun w' a => post w' a ∧ w.twin.Leads (c.add (.values values)).items w'.twin)
      (EvalM.holding values f) := by
  intro hrooted heldLeft heldRight hheld
  have hrooted' : w.Rooted (c.add (.values values)) := by
    intro item hitem
    rcases List.mem_append.1 hitem with hitem | hitem
    · obtain ⟨value, hvalue, hitem⟩ := List.mem_flatMap.1 hitem
      exact hvalues value hvalue item hitem
    · exact hrooted item hitem
  obtain ⟨result, w', hleft, hright, hleads, hdepth, hpost⟩ :=
    h hrooted' (.values values :: heldLeft) (.values values :: heldRight)
      fun hsome => by rw [hheld hsome]; rfl
  exact ⟨result, w', hleft, hright, hleads.mono (c.subset_add _), hdepth,
    fun a ha => ⟨hpost a ha, hleads⟩⟩

/-- One level deeper. -/
def Stage.deeper (w : Stage common globals) : Stage common globals :=
  { w with depth := w.depth + 1 }

theorem Agrees.limited (limit : Nat) {f : EvalM Value}
    (h : Agrees c w.deeper Stage.Has f) :
    Agrees c w Stage.Has (EvalM.limited limit f) := by
  intro hrooted heldLeft heldRight hheld
  rcases Nat.lt_or_ge w.depth limit with hlimit | hlimit
  · obtain ⟨result, w', hleft, hright, hleads, hdepth, hpost⟩ := h hrooted heldLeft heldRight hheld
    refine ⟨result, ⟨w'.twin, w.depth, w'.globals_intact⟩,
      (outcome_limited_of_lt hlimit hleft).trans ?_,
      (outcome_limited_of_lt hlimit hright).trans ?_, hleads, rfl, hpost⟩
    · rw [Stage.left, Stage.left, hdepth]
      rfl
    · rw [Stage.right, Stage.right, hdepth]
      rfl
  · refine ⟨.error (.error (.recursionLimit limit)), w, ?_, ?_, .refl _ _, rfl,
      fun _ heq => nomatch heq⟩
    · exact (outcome_limited ..).trans (if_pos hlimit)
    · exact (outcome_limited ..).trans (if_pos hlimit)

/-- Handing on an error instead of stopping. -/
theorem Agrees.attempt {f : EvalM α} (h : Agrees c w post f) :
    Agrees c w (fun w' result => ∀ a, result = .ok a → post w' a) (EvalM.attempt f) := by
  intro hrooted heldLeft heldRight hheld
  obtain ⟨result, w', hleft, hright, hleads, hdepth, hpost⟩ := h hrooted heldLeft heldRight hheld
  rcases result with (cause | _) | a
  · refine ⟨.ok (.error cause), w', ?_, ?_, hleads, hdepth, ?_⟩
    · rw [outcome_attempt, hleft]
    · rw [outcome_attempt, hright]
    · rintro _ ⟨⟩ a heq
      exact nomatch heq
  · refine ⟨.error .exhausted, w', ?_, ?_, hleads, hdepth, fun _ heq => nomatch heq⟩
    · rw [outcome_attempt, hleft]
    · rw [outcome_attempt, hright]
  · refine ⟨.ok (.ok a), w', ?_, ?_, hleads, hdepth, ?_⟩
    · rw [outcome_attempt, hleft]
    · rw [outcome_attempt, hright]
    · rintro _ ⟨⟩ _ heq
      exact Except.ok.inj heq ▸ hpost a rfl

/-- **A call leaves its frame in step.** -/
theorem Agrees.within {frame : FrameRef} (hframe : w.twin.intact (.frame frame))
    {f : EvalM Value} (h : Agrees (c.add (.frames [frame])) w Stage.Has f) :
    Agrees c w Stage.Has (EvalM.within frame f) := by
  intro hrooted heldLeft heldRight hheld
  have hrooted' : w.Rooted (c.add (.frames [frame])) := List.forall_mem_cons.2 ⟨hframe, hrooted⟩
  obtain ⟨result, w', hleft, hright, hleads, hdepth, hpost⟩ :=
    h hrooted' (.frames [frame] :: heldLeft) (.frames [frame] :: heldRight)
      fun hsome => by rw [hheld hsome]; rfl
  have hresult : ∀ item ∈ (resultHold result).items, w'.twin.intact item := by
    cases result with
    | error _ => exact fun _ hitem => absurd hitem List.not_mem_nil
    | ok value =>
        intro item hitem
        refine hpost value rfl item ?_
        simpa [resultHold, Hold.items] using hitem
  have hkept : ∀ item ∈ (resultHold result :: c.held).flatMap Hold.items, w'.twin.intact item := by
    intro item hitem
    rcases List.mem_append.1 hitem with hitem | hitem
    · exact hresult item hitem
    · exact hleads.rooted (c.subset_add _ hitem) (hrooted item hitem)
  have hframe' := hleads.rooted List.mem_cons_self hframe
  obtain ⟨twin, hmachine, htwin, hleads'⟩ := w'.twin.leave w'.depth hkept hframe'
  have hleft' : w'.left.leave (resultHold result :: heldLeft) frame =
      ⟨twin.left, twin.census, w'.depth⟩ := by
    rcases hcensus : w.twin.census with _ | census
    · -- without a census nothing is released, whatever is held
      have hnone := hleads.toMoves.census_eq_none hcensus
      rw [← hmachine, Machine.leave_of_none hnone]
      exact (Machine.leave_of_none hnone _ _).symm
    · rw [hheld (by rw [hcensus]; rfl)]
      exact hmachine
  have hglobals := hleads'.rooted (List.mem_append_right _ c.globals_mem) w'.globals_intact
  refine ⟨result, ⟨twin, w'.depth, hglobals⟩, ?_, ?_,
    (hleads.mono (c.subset_add _)).trans (hleads'.mono (List.subset_append_right _ _)), hdepth,
    fun value heq item hitem => ?_⟩
  · rw [outcome_within, hleft, hleft']
    rfl
  · rw [outcome_within, hright, Machine.leave_of_none rfl]
    simp only [Stage.right, htwin]
  · subst heq
    refine hleads'.rooted (List.mem_append_left _ ?_) (hpost value rfl item hitem)
    simpa [resultHold, Hold.items] using hitem

/-- A function of the host gives the same answer. -/
theorem Agrees.applyHost {function : HostFunction} (hdiscreet : function.Discreet)
    {args : List Value} (hargs : ∀ arg ∈ args, w.Has arg) :
    Agrees c w Stage.Has (Eval.applyHost function args) := by
  obtain ⟨hcall, hanswer⟩ := hdiscreet w.depth w.twin.intact w.twin.left w.twin.right args
    w.twin.agree w.twin.closed hargs
  refine .of_outcome ((function.call w.depth w.twin.left args).mapError Halt.error)
    (fun _ => outcome_applyHost ..) (fun _ => ?_) fun value heq => ?_
  · rw [outcome_applyHost, hcall]
    rfl
  · refine hanswer value ?_
    cases hout : function.call w.depth w.twin.left args with
    | error cause => rw [hout] at heq; exact nomatch heq
    | ok found => rw [hout] at heq; exact congrArg Except.ok (Except.ok.inj heq)

end

/-! ### The logic of evaluation in step -/

section

variable {session : Session} {c : Hands session.globals} {w : Stage common session.globals}

/-- The value is there as long as something that is held. -/
def Stage.Keeps (c : Hands session.globals) (w : Stage common session.globals) (value : Value) :
    Prop :=
  ∀ item ∈ value.items, w.twin.Anchored c.items item

theorem Stage.isOpen (w : Stage common session.globals) : w.twin.Open session.arena :=
  Twin.open_of_intact w.globals_intact

/-- **A call of a lambda** is run in step if its body is. -/
theorem Agrees.invoke {p : Task → EvalM Value} {ref : LambdaRef} (anonymous : String)
    (href : w.twin.Anchored c.items (.lambda ref)) {args : List Value}
    (hargs : ∀ arg ∈ args, w.Has arg)
    (hbody : ∀ (c' : Hands session.globals) (w' : Stage common session.globals) body frame,
      (∀ form ∈ body, w'.Keeps c' form) → w'.twin.Anchored c'.items (.frame frame) →
      Agrees c' w' Stage.Has (evalBody p body frame)) :
    Agrees c w Stage.Has (Eval.invoke session p ref anonymous args) := by
  have hintact := href.intact
  have hcode := Store.exists_find?_lambda (w.twin.present hintact)
  have hscope := w.twin.closed.lambdaScope hintact
  refine .bind (P := fun w' lambda => w = w' ∧ lambda = w.twin.left.lambda ref)
    (.inspect (w.twin.agree.lambda hintact) ⟨rfl, rfl⟩) ?_
  rintro _ - _ ⟨rfl, rfl⟩
  refine .bind (P := fun w' frame => w.twin.Grows w'.twin ∧ w'.twin.intact (.frame frame))
    (.update (Twin.extend w.isOpen hscope) fun w' hw frame hframe => ⟨hw, hframe.1⟩) ?_
  rintro w₁ hleads₁ frame ⟨hgrows, hframe⟩
  split
  · exact .fail _
  · refine .bind (P := fun w' _ => w₁.twin.Grows w'.twin)
      (.update (Twin.bindArgs w₁.isOpen hframe _ fun arg harg => hgrows.isIn (hargs arg harg))
        fun w' hw _ _ => hw) fun w₂ hleads₂ _ hgrows₂ => ?_
    refine .within (hgrows₂.intact hframe) (hbody _ w₂ _ frame (fun form hform item hitem => ?_)
      (Twin.anchored_of_mem List.mem_cons_self (hgrows₂.intact hframe)))
    -- the body belongs to the lambda for good, so it is there as long as the lambda is
    have hfixed : item ∈ (Entry.lambda (w.twin.left.lambda ref)).fixed :=
      List.mem_cons_of_mem _ (List.mem_flatMap.2 ⟨form, hform, hitem⟩)
    exact ((href.step hcode hfixed).leads (hleads₁.trans hleads₂)).mono (c.subset_add _)

/-- The logic of evaluations that are run in step. -/
def tandem (common : Nat → Prop) (session : Session) (hdiscreet : session.natives.Discreet) :
    Logic fun _ : Unit => session where
  World := Stage common session.globals
  Context := Hands session.globals
  hold := fun values c => c.add (.values values)
  leads := fun c w w' => w.twin.Leads c.items w'.twin
  later := fun _ _ => True
  deeper := Stage.deeper
  value := Stage.Has
  kept := fun c w value => w.Keeps c value
  scope := fun c w frame => w.twin.Anchored c.items (.frame frame)
  part := fun _ _ => True
  spreads := fun _ _ => True
  globals := session.globals
  natives := session.natives
  holds := fun c w _ post f => Agrees c w post (f ())
  globals_eq := session.globals_const
  natives_eq := session.natives_const
  later_refl := fun _ => trivial
  later_trans := fun _ _ => trivial
  later_of_leads := fun _ => trivial
  leads_refl := fun c w => .refl c.items w.twin
  leads_trans := Twin.Leads.trans
  part_trans := fun _ _ => trivial
  value_of_kept := fun h item hitem => (h item hitem).intact
  kept_leads := fun hw h item hitem => (h item hitem).leads hw
  kept_held := fun hv h item hitem =>
    Twin.anchored_of_mem (List.mem_append_left _ (List.mem_flatMap.2 ⟨_, hv, hitem⟩)) (h item hitem)
  kept_hold := fun {c _ _} _ h item hitem => (h item hitem).mono (c.subset_add _)
  scope_leads := fun hw h => h.leads hw
  scope_hold := fun {c _ _} _ h => h.mono (c.subset_add _)
  scope_deeper := fun h => h
  scope_globals := fun c w => Twin.anchored_of_mem c.globals_mem w.globals_intact
  value_deeper := fun h => h
  value_nil := fun _ => Value.in_of_items_eq_nil rfl
  value_t := fun _ => Value.in_of_items_eq_nil rfl
  value_integer := fun _ _ => Value.in_of_items_eq_nil rfl
  value_symbol := fun _ _ => Value.in_of_items_eq_nil rfl
  pure := .pure
  bind := .bind
  fail := fun e _ => .fail e
  holding := .holding
  limited := .limited _
  anywhere := id
  inGlobals := id
  car := fun {_ w _ _} h => .inspect (w.twin.agree.car (Value.in_pair.1 h))
    ⟨rfl, w.twin.closed.car (Value.in_pair.1 h), trivial⟩
  cdr := fun {_ w _ _} h => .inspect (w.twin.agree.cdr (Value.in_pair.1 h))
    ⟨rfl, w.twin.closed.cdr (Value.in_pair.1 h), trivial⟩
  elements := fun {_ w _ _} h => .inspect (w.twin.agree.elements w.twin.closed h)
    ⟨rfl, fun _ hitems => ⟨w.twin.closed.elements h hitems, trivial⟩⟩
  marked := fun {_ w _ _} head h => .inspect (w.twin.agree.marked? w.twin.closed head h)
    ⟨rfl, fun _ hinner => ⟨w.twin.closed.marked? h hinner, trivial⟩⟩
  isMarked := fun {_ w _ _} h => .inspect (w.twin.agree.isMarked w.twin.closed h) rfl
  printed := fun {_ w _ _} h => .inspect (w.twin.agree.print w.twin.closed h) rfl
  params := fun {_ w _ _} h => .inspect (w.twin.agree.params w.twin.closed h) rfl
  lookup := fun {_ w _ _} name h =>
    .inspect (w.twin.agree.lookup w.twin.closed w.twin.chained h.intact name)
      ⟨rfl, fun _ hvalue => w.twin.closed.lookup w.twin.chained h.intact hvalue⟩
  listWithTail := fun {_ w _ _ _} hitems htail =>
    .update (Twin.listWithTail w.isOpen hitems htail) fun _ _ _ h => h
  ofData := fun {_ w _} data => .update (Twin.ofData w.isOpen data) fun _ _ _ h => h
  addLambda := fun {_ w _} _ _ {_ _} hbody hframe =>
    .update (Twin.addLambda w.isOpen hframe.intact hbody)
      fun _ _ _ h => ⟨Value.in_closure.2 h, Value.in_expander.2 h⟩
  define := fun name hframe hvalue =>
    .update (Twin.bind hframe.intact name hvalue) fun _ _ _ _ => trivial
  setCar := fun _ href hvalue =>
    .update (Twin.setCar (Value.in_pair.1 href) hvalue) fun _ _ _ _ => trivial
  setCdr := fun _ href hvalue =>
    .update (Twin.setCdr (Value.in_pair.1 href) hvalue) fun _ _ _ _ => trivial
  missing := fun _ _ => .fail _
  host := fun hname hargs => .applyHost (hdiscreet _ _ hname) hargs
  invoke := fun anonymous href hargs hbody => by
    refine .invoke anonymous ?_ hargs fun c' w' body frame => hbody c' w' trivial body frame
    rcases href with h | h
    · exact h _ List.mem_cons_self
    · exact h _ List.mem_cons_self

variable (hdiscreet : session.natives.Discreet)

/-- **All tasks are carried out in step**, with any bound on nested steps. -/
theorem tandem_performs (fuel : Nat) (w : Stage common session.globals) :
    (tandem common session hdiscreet).Performs w fun _ => run session fuel :=
  fun c w' _ task htask => Logic.run (L := tandem common session hdiscreet)
    (fun _ _ _ _ => .of_outcome (.error .exhausted) (fun _ => rfl) (fun _ => rfl)
      fun _ heq => nomatch heq) fuel c w' task htask

theorem tandem_refuses : (tandem common session hdiscreet).Refuses :=
  fun _ _ _ => .fail _

theorem tandem_attempts : (tandem common session hdiscreet).Attempts fun _ => True :=
  fun h => Logic.imp (L := tandem common session hdiscreet) (Agrees.attempt h)
    fun _ _ hresult => ⟨hresult, fun _ _ => trivial⟩

end

end Eval

/-! ### What a host runs in a session -/

namespace Session

open Eval

variable {common : Nat → Prop} {session : Session} (hdiscreet : session.natives.Discreet)
  {c : Hands session.globals} {w : Stage common session.globals} (fuel : Nat)
include hdiscreet

theorem evalText_agrees (text : String) :
    Agrees c w (fun w' values => ∀ value ∈ values, w'.Has value) (session.evalText fuel text) :=
  Logic.evalText (tandem_refuses hdiscreet)
    (tandem_performs hdiscreet fuel w).evaluates text

theorem evalTextLast_agrees (text : String) :
    Agrees c w Stage.Has (session.evalTextLast fuel text) :=
  Logic.evalTextLast (tandem_refuses hdiscreet)
    (tandem_performs hdiscreet fuel w).evaluates text

theorem evalLine_agrees (line : String) :
    Agrees c w (fun w' outcomes => ∀ value, .ok value ∈ outcomes → w'.Has value)
      (session.evalLine fuel line) :=
  Logic.imp (L := tandem common session hdiscreet) (Logic.evalLine (tandem_attempts hdiscreet)
      (fun _ => trivial) (tandem_performs hdiscreet fuel w).evaluates line)
    fun _ _ houtcomes value hmem => (houtcomes _ hmem).1 value rfl

theorem load_agrees (files : Files) (path : String) :
    Agrees c w Stage.Has (session.load fuel files path) :=
  Logic.load (tandem_refuses hdiscreet)
    (tandem_performs hdiscreet fuel w).evaluates files path

theorem loadAll_agrees (files : Files) (paths : List String) :
    Agrees c w (fun _ _ => True)
      (paths.forM fun path => do discard (session.load fuel files path)) := by
  induction paths generalizing w with
  | nil => exact .pure trivial
  | cons path rest ih =>
      refine .bind (P := fun _ _ => True) ?_ fun _ _ _ _ => ih
      exact .bind (load_agrees hdiscreet fuel files path) fun _ _ _ _ => .pure trivial

theorem evalIn_agrees {form : Value} (hform : w.Has form) {frame : FrameRef}
    (hframe : w.twin.Anchored c.items (.frame frame)) :
    Agrees c w Stage.Has (session.evalIn fuel form frame) :=
  Logic.imp (L := tandem common session hdiscreet) (E := some frame)
    (Logic.evalIn (tandem_performs hdiscreet fuel w).evaluates hform hframe) fun _ _ h => h.1

theorem evalGlobal_agrees {form : Value} (hform : w.Has form) :
    Agrees c w Stage.Has (session.evalGlobal fuel form) :=
  evalIn_agrees hdiscreet fuel hform (Twin.anchored_of_mem c.globals_mem w.globals_intact)

theorem apply_agrees {callee : Value} {args : List Value} (hcallee : w.Has callee)
    (hargs : ∀ arg ∈ args, w.Has arg) : Agrees c w Stage.Has (session.apply fuel callee args) :=
  Logic.applyTo (L := tandem common session hdiscreet) (tandem_performs hdiscreet fuel w) hcallee
    hargs

theorem expandOnce_agrees {form : Value} (hform : w.Has form) :
    Agrees c w Stage.Has (session.expandOnce fuel form) :=
  Logic.expandForm (L := tandem common session hdiscreet)
    (tandem_performs hdiscreet fuel w).evaluates hform

end Session

end SmallLisp
