import SmallLisp.Proofs.Sessions
import SmallLisp.Workspace.Command

/-!
# Work on workspaces

What the steps of a command do with a workspace, and what it takes to do them in two workspaces in
step.

## Main results

* `WorkM.outcome_evaluate`, `WorkM.outcome_startSession_ok`, … — the outcome of work and the
  workspace afterwards.
* `Pairing.InStep.bind`, … — what is made of work done in step is done in step.
-/

namespace SmallLisp

namespace Slots

variable {α : Type} {slots : Slots α} {name : String} {content other : α}

theorem mem_contents_of_get? (h : slots.get? name = some content) : content ∈ slots.contents := by
  induction slots with
  | nil => exact nomatch h
  | cons entry rest ih =>
      obtain ⟨key, found⟩ := entry
      rw [get?, List.lookup_cons] at h
      split at h
      · exact List.mem_cons.2 (.inl (Option.some.inj h).symm)
      · exact List.mem_cons_of_mem _ (ih h)

theorem get?_remove_of_ne {other : String} (hne : other ≠ name) :
    (slots.remove name).get? other = slots.get? other := by
  induction slots with
  | nil => rfl
  | cons entry rest ih =>
      obtain ⟨key, found⟩ := entry
      by_cases hkey : key = name
      · subst hkey
        simpa [remove, get?, List.lookup_cons, beq_eq_false_iff_ne.2 hne] using ih
      · simp only [remove, get?, List.filter_cons, ne_eq, hkey, not_false_eq_true, decide_true,
          if_true, List.lookup_cons] at ih ⊢
        rw [ih]

theorem get?_put_self (slots : Slots α) (name : String) (content : α) :
    (slots.put name content).get? name = some content := by
  simp [put, get?]

theorem get?_put_of_ne {other : String} (hne : other ≠ name) :
    (slots.put name content).get? other = slots.get? other := by
  rw [put, get?, List.lookup_cons, beq_eq_false_iff_ne.2 hne]
  exact get?_remove_of_ne hne

theorem mem_contents_remove (h : content ∈ (slots.remove name).contents) :
    content ∈ slots.contents := by
  obtain ⟨entry, hentry, rfl⟩ := List.mem_map.1 h
  exact List.mem_map.2 ⟨entry, (List.mem_filter.1 hentry).1, rfl⟩

theorem mem_contents_put (h : other ∈ (slots.put name content).contents) :
    other = content ∨ other ∈ slots.contents :=
  (List.mem_cons.1 h).imp_right mem_contents_remove

end Slots

/-! ### How work is done -/

/-- Why work on a workspace is refused if an evaluation has no result. -/
def Refusal.ofHalt : Halt → Refusal
  | .error cause => .error cause
  | .exhausted => .exhausted

namespace WorkM

variable {α β : Type}

/-- The outcome of work and the workspace afterwards. -/
def outcome (work : WorkM α) (workspace : Workspace) : Except Refusal α × Workspace :=
  work.run workspace

theorem outcome_bind (f : WorkM α) (k : α → WorkM β) (workspace : Workspace) :
    (f >>= k).outcome workspace =
      match f.outcome workspace with
      | (.ok a, after) => (k a).outcome after
      | (.error reason, after) => (.error reason, after) := by
  show (match f.run workspace with
    | (r, after) => ExceptT.bindCont k r after) = _
  rw [outcome]
  rcases f.run workspace with ⟨_ | _, after⟩ <;> rfl

theorem outcome_bind_ok {f : WorkM α} {workspace after : Workspace} {a : α}
    (h : f.outcome workspace = (.ok a, after)) (k : α → WorkM β) :
    (f >>= k).outcome workspace = (k a).outcome after := by
  rw [outcome_bind, h]

theorem outcome_bind_error {f : WorkM α} {workspace after : Workspace} {reason : Refusal}
    (h : f.outcome workspace = (.error reason, after)) (k : α → WorkM β) :
    (f >>= k).outcome workspace = (.error reason, after) := by
  rw [outcome_bind, h]

theorem outcome_slot {workspace : Workspace} {name : String} {slots : Workspace → Slots α}
    {content : α} (h : (slots workspace).get? name = some content) :
    (slot name slots).outcome workspace = (.ok content, workspace) := by
  have hget : (get : WorkM Workspace).outcome workspace = (.ok workspace, workspace) := rfl
  rw [slot, outcome_bind_ok hget, h]
  rfl

theorem outcome_slot_none {workspace : Workspace} {name : String} {slots : Workspace → Slots α}
    (h : (slots workspace).get? name = none) :
    (slot name slots).outcome workspace = (.error (.emptySlot name), workspace) := by
  have hget : (get : WorkM Workspace).outcome workspace = (.ok workspace, workspace) := rfl
  rw [slot, outcome_bind_ok hget, h]
  rfl

/-- **An evaluation in the session in a slot.** -/
theorem outcome_evaluate_of_run {workspace : Workspace} {name : String} {session : Session}
    (hsession : workspace.sessions.get? name = some session) {f : Session → EvalM α}
    {result : Except Halt α} {machine : Machine}
    (h : (f session).outcome (.frames session.keeps :: workspace.held)
      ⟨workspace.store, workspace.census, session.depth⟩ = (result, machine)) :
    (WorkM.evaluate name f).outcome workspace =
      (result.mapError Refusal.ofHalt,
        { workspace with
          store := machine.store
          census := machine.census
          sessions := workspace.sessions.put name { session with depth := machine.depth } }) := by
  have hget : (get : WorkM Workspace).outcome workspace = (.ok workspace, workspace) := rfl
  rw [WorkM.evaluate, WorkM.session, outcome_bind_ok (outcome_slot hsession), outcome_bind_ok hget]
  refine (outcome_bind_ok (?_ : _ = (Except.ok result, { workspace with
    store := machine.store
    census := machine.census
    sessions := workspace.sessions.put name { session with depth := machine.depth } })) _).trans ?_
  · show (Except.ok (session.execute workspace.held workspace.store workspace.census
      (f session)).1, Workspace.mk
        (session.execute workspace.held workspace.store workspace.census (f session)).2.2.1
        (session.execute workspace.held workspace.store workspace.census (f session)).2.2.2
        (workspace.sessions.put name
          (session.execute workspace.held workspace.store workspace.census (f session)).2.1)
        _ _ _ _) = _
    rw [Session.execute_of_outcome h]
  · rcases result with (cause | _) | a <;> rfl

/-- An evaluation that ends at the depth it began at leaves the session as it was. -/
theorem outcome_evaluate {workspace : Workspace} {name : String} {session : Session}
    (hsession : workspace.sessions.get? name = some session) {f : Session → EvalM α}
    {result : Except Halt α} {machine : Machine}
    (h : (f session).outcome (.frames session.keeps :: workspace.held)
      ⟨workspace.store, workspace.census, session.depth⟩ = (result, machine))
    (hdepth : machine.depth = session.depth) :
    (WorkM.evaluate name f).outcome workspace =
      (result.mapError Refusal.ofHalt,
        { workspace with
          store := machine.store
          census := machine.census
          sessions := workspace.sessions.put name session }) := by
  rw [outcome_evaluate_of_run hsession h, hdepth]

theorem outcome_evaluate_none {workspace : Workspace} {name : String}
    (h : workspace.sessions.get? name = none) (f : Session → EvalM α) :
    (WorkM.evaluate name f).outcome workspace = (.error (.emptySlot name), workspace) :=
  outcome_bind_error (outcome_slot_none h) _

theorem outcome_startSession_ok {workspace : Workspace} {maxDepth : Nat} {preload : List String}
    {session : Session} {store : Store} {census : Option Census}
    (h : Session.start workspace.fuel workspace.files maxDepth preload workspace.held
      workspace.store workspace.census = (.ok (), session, store, census)) (slot : String) :
    (startSession slot maxDepth preload).outcome workspace =
      (.ok (), { workspace with store, census }.putSession slot session) := by
  have hget : (get : WorkM Workspace).outcome workspace = (.ok workspace, workspace) := rfl
  rw [startSession, outcome_bind_ok hget, h]
  rfl

theorem outcome_startSession_error {workspace : Workspace} {maxDepth : Nat} {preload : List String}
    {halt : Halt} {rest : Session × Store × Option Census}
    (h : Session.start workspace.fuel workspace.files maxDepth preload workspace.held
      workspace.store workspace.census = (.error halt, rest)) (slot : String) :
    (startSession slot maxDepth preload).outcome workspace =
      (.error (.ofHalt halt), workspace) := by
  have hget : (get : WorkM Workspace).outcome workspace = (.ok workspace, workspace) := rfl
  rw [startSession, outcome_bind_ok hget, h]
  cases halt <;> rfl

end WorkM

/-- The answer to a command with this outcome. -/
def Reply.ofOutcome : Except Refusal Reply → Reply
  | .ok reply => reply
  | .error reason => .refused reason

theorem Workspace.answer_eq {workspace after : Workspace} {command : Command}
    {result : Except Refusal Reply} (h : command.perform.outcome workspace = (result, after)) :
    workspace.answer command = (.ofOutcome result, after) := by
  rw [WorkM.outcome] at h
  rw [answer, h]
  cases result <;> rfl

/-- All host functions in the command have the property. -/
def Command.Hosts (P : HostFunction → Prop) : Command → Prop
  | .session _ (.register _ (.host function)) => P function
  | _ => True

/-- All host functions in the command are discreet. -/
abbrev Command.Discreet (command : Command) : Prop :=
  command.Hosts HostFunction.Discreet

section

variable {P Q : HostFunction → Prop}

theorem Command.Hosts.native {slot name : String} {native : Native}
    (h : (Command.session slot (.register name native)).Hosts P) :
    ∀ function, native = .host function → P function := by
  rintro function rfl
  exact h

theorem Command.Hosts.imp {command : Command} (h : command.Hosts P)
    (himp : ∀ function, P function → Q function) : command.Hosts Q := by
  unfold Command.Hosts at h ⊢
  split
  · exact himp _ h
  · trivial

theorem Command.Hosts.and {command : Command} (h : command.Hosts P) (h' : command.Hosts Q) :
    command.Hosts fun function => P function ∧ Q function := by
  unfold Command.Hosts at h h' ⊢
  split
  · exact ⟨h, h'⟩
  · trivial

end

/-- The function that answers with its first argument. -/
def HostFunction.first : HostFunction :=
  ⟨fun _ _ args => .ok (args.headD .nil)⟩

theorem HostFunction.discreet_first : HostFunction.first.Discreet := by
  refine fun _ _ _ _ args _ _ hargs => ⟨rfl, fun value hvalue => ?_⟩
  obtain rfl := Except.ok.inj hvalue
  cases args with
  | nil => exact Value.in_of_items_eq_nil rfl
  | cons arg _ => exact hargs arg List.mem_cons_self

/-! ### What is shown -/

namespace Twin

variable {common : Nat → Prop} (w : Twin common)

theorem shown_eq {value : Value} (hvalue : value.In w.intact) :
    w.left.shown value = w.right.shown value := by
  rw [Store.shown, w.agree.print w.closed hvalue, Store.shown]

theorem shownAll_eq {values : List Value} (h : ∀ value ∈ values, value.In w.intact) :
    values.map w.left.shown = values.map w.right.shown :=
  List.map_congr_left fun value hvalue => w.shown_eq (h value hvalue)

theorem shownOutcomes_eq {outcomes : List (Except Error Value)}
    (h : ∀ value, .ok value ∈ outcomes → value.In w.intact) :
    outcomes.map (·.map w.left.shown) = outcomes.map (·.map w.right.shown) := by
  refine List.map_congr_left fun outcome houtcome => ?_
  cases outcome with
  | error cause => rfl
  | ok value => exact congrArg Except.ok (w.shown_eq (h value houtcome))

end Twin

/-! ### Two workspaces in step -/

/-- Pairs of workspaces of some kind, and how one may lead to another. -/
structure Pairing (σ : Type) where
  left : σ → Workspace
  right : σ → Workspace
  Leads : σ → σ → Prop
  refl (m : σ) : Leads m m
  trans {m₁ m₂ m₃ : σ} : Leads m₁ m₂ → Leads m₂ m₃ → Leads m₁ m₃

namespace Pairing

open WorkM

variable {σ α β : Type} {pairing : Pairing σ} {m : σ} {post : σ → α → Prop}

/-- Done in both workspaces, the work has the same outcome, and they are a pair again. -/
def InStep (pairing : Pairing σ) (m : σ) (post : σ → α → Prop) (work : WorkM α) : Prop :=
  ∃ result m', work.outcome (pairing.left m) = (result, pairing.left m') ∧
    work.outcome (pairing.right m) = (result, pairing.right m') ∧ pairing.Leads m m' ∧
    ∀ a, result = .ok a → post m' a

namespace InStep

theorem pure {a : α} (h : post m a) : pairing.InStep m post (pure a) :=
  ⟨.ok a, m, rfl, rfl, pairing.refl m, fun _ heq => Except.ok.inj heq ▸ h⟩

theorem throw (reason : Refusal) : pairing.InStep m post (throw reason) :=
  ⟨.error reason, m, rfl, rfl, pairing.refl m, fun _ heq => nomatch heq⟩

theorem bind {P : σ → α → Prop} {post : σ → β → Prop} {f : WorkM α} {k : α → WorkM β}
    (h : pairing.InStep m P f) (hk : ∀ m' a, P m' a → pairing.InStep m' post (k a)) :
    pairing.InStep m post (f >>= k) := by
  obtain ⟨result, m', hleft, hright, hleads, hP⟩ := h
  cases result with
  | error reason =>
      exact ⟨.error reason, m', outcome_bind_error hleft k, outcome_bind_error hright k, hleads,
        fun _ heq => nomatch heq⟩
  | ok a =>
      obtain ⟨result, m'', hleft', hright', hleads', hpost⟩ := hk m' a (hP a rfl)
      exact ⟨result, m'', (outcome_bind_ok hleft k).trans hleft',
        (outcome_bind_ok hright k).trans hright', pairing.trans hleads hleads', hpost⟩

/-- Work that leaves the pair as it is, and what is done with its result. -/
theorem look {P : α → Prop} {post : σ → β → Prop} {f : WorkM α} {k : α → WorkM β}
    (h : pairing.InStep m (fun m' a => m = m' ∧ P a) f)
    (hk : ∀ a, P a → pairing.InStep m post (k a)) : pairing.InStep m post (f >>= k) := by
  refine .bind h ?_
  rintro _ a ⟨rfl, ha⟩
  exact hk a ha

theorem imp {post' : σ → α → Prop} {f : WorkM α} (h : pairing.InStep m post f)
    (himp : ∀ m' a, post m' a → post' m' a) : pairing.InStep m post' f := by
  obtain ⟨result, m', hleft, hright, hleads, hpost⟩ := h
  exact ⟨result, m', hleft, hright, hleads, fun a ha => himp m' a (hpost a ha)⟩

/-- The workspaces are looked at, but only at what is the same in both. -/
theorem get {k : Workspace → WorkM α} (hsame : k (pairing.right m) = k (pairing.left m))
    (h : pairing.InStep m post (k (pairing.left m))) : pairing.InStep m post (get >>= k) := by
  obtain ⟨result, m', hleft, hright, hrest⟩ := h
  refine ⟨result, m', hleft, ?_, hrest⟩
  show (k (pairing.right m)).outcome (pairing.right m) = _
  rw [hsame]
  exact hright

theorem orError {ε : Type} {wrap : ε → Error} {outcome : Except ε α} :
    pairing.InStep m (fun m' a => m = m' ∧ outcome = .ok a) (WorkM.orError wrap outcome) := by
  cases outcome with
  | ok result => exact .pure ⟨rfl, rfl⟩
  | error cause => exact .throw _

theorem inspect {view : Store → α}
    (hview : view (pairing.left m).store = view (pairing.right m).store)
    (h : post m (view (pairing.left m).store)) : pairing.InStep m post (WorkM.inspect view) := by
  refine ⟨.ok (view (pairing.left m).store), m, rfl, ?_, pairing.refl m,
    fun _ heq => Except.ok.inj heq ▸ h⟩
  rw [hview]
  rfl

/-- Showing what is the same in both stores. -/
theorem view {view : Store → α} {f : α → β}
    (hview : view (pairing.left m).store = view (pairing.right m).store) :
    pairing.InStep m (fun _ _ => True) (do return f (← WorkM.inspect view)) :=
  .bind (P := fun _ _ => True) (.inspect hview trivial) fun _ _ _ => .pure trivial

theorem modified {f : Workspace → Workspace} {post : σ → Unit → Prop} (m' : σ)
    (hleft : f (pairing.left m) = pairing.left m')
    (hright : f (pairing.right m) = pairing.right m') (hleads : pairing.Leads m m')
    (h : post m' ()) : pairing.InStep m post (modify f) := by
  refine ⟨.ok (), m', ?_, ?_, hleads, fun _ _ => h⟩
  · show (Except.ok (), f (pairing.left m)) = _
    rw [hleft]
  · show (Except.ok (), f (pairing.right m)) = _
    rw [hright]

/-- A change of both workspaces that gives a pair again. -/
theorem modifyBoth {f : Workspace → Workspace}
    (h : ∃ m' : σ, f (pairing.left m) = pairing.left m' ∧
      f (pairing.right m) = pairing.right m' ∧ pairing.Leads m m') :
    pairing.InStep m (fun _ _ => True) (do modify f; return Reply.done) := by
  obtain ⟨m', hleft, hright, hleads⟩ := h
  exact .bind (P := fun _ _ => True) (.modified m' hleft hright hleads trivial)
    fun _ _ _ => .pure trivial

/-- A command done in step gets the same reply. -/
theorem answer {post : σ → Reply → Prop} {command : Command}
    (h : pairing.InStep m post command.perform) :
    ∃ reply m', (pairing.left m).answer command = (reply, pairing.left m') ∧
      (pairing.right m).answer command = (reply, pairing.right m') ∧ pairing.Leads m m' := by
  obtain ⟨result, m', hleft, hright, hleads, -⟩ := h
  exact ⟨_, m', Workspace.answer_eq hleft, Workspace.answer_eq hright, hleads⟩

end InStep

end Pairing

end SmallLisp
