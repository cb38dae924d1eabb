import SmallLisp.Proofs.Frames
import SmallLisp.Proofs.Working

/-!
# Work that leaves handles alone

A workspace holds handles on sessions in its slots. Most commands leave these where they are, and
all they do to the frames of the store is to define names. What is run in a session does so in the
global frame of that session only.

## Main results

* `WorkM.Steadily.bind`, … — what is made of work that leaves the handles alone does so too.
* `WorkM.Steadily.operation` — what is run in a session writes to its global frame only.
-/

namespace SmallLisp

namespace Slots

variable {α : Type} {slots : Slots α}

/-- No slot is filled twice. -/
def Distinct (slots : Slots α) : Prop :=
  (slots.map (·.1)).Nodup

theorem Distinct.remove (h : slots.Distinct) (name : String) : (slots.remove name).Distinct :=
  h.sublist (List.filter_sublist.map _)

theorem Distinct.put (h : slots.Distinct) (name : String) (content : α) :
    (slots.put name content).Distinct := by
  refine List.nodup_cons.2 ⟨fun hmem => ?_, h.remove name⟩
  obtain ⟨entry, hentry, heq⟩ := List.mem_map.1 hmem
  simpa [heq] using (List.mem_filter.1 hentry).2

end Slots

/-! ### Evaluations in a session -/

namespace Eval

variable {α : Type} {globals : FrameRef} {scope : Option FrameRef} {post : α → Prop}

theorem KeepsFrames.attempt {f : EvalM α} (h : KeepsFrames globals scope post f) :
    KeepsFrames globals scope (fun result => ∀ a, result = .ok a → post a) (EvalM.attempt f) := by
  intro held machine
  obtain ⟨hkept, hpost⟩ := h held machine
  rw [EvalM.outcome_attempt]
  rcases hout : f.outcome held machine with ⟨(cause | _) | a, after⟩
  · rw [hout] at hkept
    refine ⟨hkept, fun _ heq _ ha => ?_⟩
    cases (Except.ok.inj heq).trans ha
  · rw [hout] at hkept
    exact ⟨hkept, fun _ heq => by cases heq⟩
  · rw [hout] at hkept hpost
    refine ⟨hkept, fun _ heq b hb => ?_⟩
    obtain rfl := Except.ok.inj ((Except.ok.inj heq).trans hb)
    exact hpost a rfl

theorem framesLogic_attempts (session : Session) :
    (framesLogic session).toLogic.Attempts fun _ => True := by
  intro _ _ _ _ h held machine
  obtain ⟨hkept, hresult⟩ := KeepsFrames.attempt h held machine
  exact ⟨hkept, fun result heq => ⟨hresult result heq, fun _ _ => trivial⟩⟩

theorem framesLogic_refuses (session : Session) : (framesLogic session).toLogic.Refuses :=
  fun _ _ _ => .fail _

theorem framesLogic_performs (session : Session) (fuel : Nat) :
    (framesLogic session).toLogic.Performs () fun _ => run session fuel :=
  fun _ _ _ task _ => run_keepsFrames session fuel task

end Eval

/-! ### Work that leaves the handles alone -/

/-- The command runs something in a session or looks at it. It fills and empties no session slot,
and it names no frame to evaluate in. -/
def SessionCommand.isOperation : SessionCommand → Bool
  | start _ _ | fork _ | clone _ | drop | evalIn _ _ _ => false
  | _ => true

/-- The command may take all bindings out of a frame that an environment slot holds. -/
def Command.empties : Command → Bool
  | environment (.clear _) | environment (.release _) => true
  | _ => false

namespace Workspace

/-- The same sessions are in the slots, and a frame that may not be written to is the same. -/
structure Steady (writable : FrameRef → Prop) (before after : Workspace) : Prop where
  handles (slot : String) :
    (after.sessions.get? slot).map Session.keeps = (before.sessions.get? slot).map Session.keeps
  distinct : before.sessions.Distinct → after.sessions.Distinct
  frames : FramesKept writable before.store after.store

namespace Steady

variable {writable : FrameRef → Prop} {before middle after : Workspace}

theorem refl (writable : FrameRef → Prop) (workspace : Workspace) :
    Steady writable workspace workspace :=
  ⟨fun _ => rfl, id, .refl writable _⟩

theorem trans (h : Steady writable before middle) (h' : Steady writable middle after) :
    Steady writable before after :=
  ⟨fun slot => (h'.handles slot).trans (h.handles slot), h'.distinct ∘ h.distinct,
    h.frames.trans h'.frames⟩

/-- A session is still in its slot. -/
theorem exists_handle (h : Steady writable before after) {slot : String} {session : Session}
    (hsession : before.sessions.get? slot = some session) :
    ∃ session', after.sessions.get? slot = some session' ∧ session'.keeps = session.keeps := by
  have hkeeps := h.handles slot
  rw [hsession, Option.map_some] at hkeeps
  exact Option.map_eq_some_iff.1 hkeeps

/-- A session was in its slot before. -/
theorem exists_handle_before (h : Steady writable before after) {slot : String}
    {session : Session} (hsession : after.sessions.get? slot = some session) :
    ∃ session', before.sessions.get? slot = some session' ∧ session'.keeps = session.keeps := by
  have hkeeps := (h.handles slot).symm
  rw [hsession, Option.map_some] at hkeeps
  exact Option.map_eq_some_iff.1 hkeeps

end Steady

end Workspace

/-- The handles on a session keep the same frames just if they are on the same session. -/
theorem Session.globals_eq_of_keeps_eq {session session' : Session}
    (h : session'.keeps = session.keeps) : session'.globals = session.globals :=
  (List.cons.inj h).1

namespace SessionCommand

open WorkM

variable {workspace : Workspace} {slot : String} {session : Session}

section

variable {maxDepth : Nat} {preload : List String}

theorem outcome_start_ok {store : Store} {census : Option Census}
    (h : Session.start workspace.fuel workspace.files maxDepth preload workspace.held
      workspace.store workspace.census = (.ok (), session, store, census)) :
    ((start maxDepth preload).perform slot).outcome workspace =
      (.ok .done, { workspace with store, census }.putSession slot session) :=
  outcome_bind_ok (outcome_startSession_ok h slot) _

theorem outcome_start_error {halt : Halt} {rest : Session × Store × Option Census}
    (h : Session.start workspace.fuel workspace.files maxDepth preload workspace.held
      workspace.store workspace.census = (.error halt, rest)) :
    ((start maxDepth preload).perform slot).outcome workspace =
      (.error (.ofHalt halt), workspace) :=
  outcome_bind_error (outcome_startSession_error h slot) _

end

theorem outcome_register (h : workspace.sessions.get? slot = some session) (name : String)
    (native : Native) :
    ((register name native).perform slot).outcome workspace =
      (.ok .done, { workspace with
        store := (session.register workspace.store (.ofString name) native).2
        sessions := workspace.sessions.put slot
          (session.register workspace.store (.ofString name) native).1 }) :=
  outcome_bind_ok (outcome_slot h) _

theorem outcome_register_none (h : workspace.sessions.get? slot = none) (name : String)
    (native : Native) :
    ((register name native).perform slot).outcome workspace =
      (.error (.emptySlot slot), workspace) :=
  outcome_bind_error (outcome_slot_none h) _

theorem outcome_fork (h : workspace.sessions.get? slot = some session) (target : String) :
    ((fork target).perform slot).outcome workspace =
      (.ok .done, { workspace with store := (session.fork workspace.store).2 }.putSession target
        (session.fork workspace.store).1) :=
  outcome_bind_ok (outcome_slot h) _

theorem outcome_fork_none (h : workspace.sessions.get? slot = none) (target : String) :
    ((fork target).perform slot).outcome workspace = (.error (.emptySlot slot), workspace) :=
  outcome_bind_error (outcome_slot_none h) _

theorem outcome_clone (h : workspace.sessions.get? slot = some session) (target : String) :
    ((clone target).perform slot).outcome workspace =
      (.ok .done, workspace.putSession target session) :=
  outcome_bind_ok (outcome_slot h) _

theorem outcome_clone_none (h : workspace.sessions.get? slot = none) (target : String) :
    ((clone target).perform slot).outcome workspace = (.error (.emptySlot slot), workspace) :=
  outcome_bind_error (outcome_slot_none h) _

theorem outcome_drop (h : workspace.sessions.get? slot = some session) :
    (drop.perform slot).outcome workspace = (.ok .done, workspace.dropSession slot) := by
  have hlook : (discard (WorkM.session slot)).outcome workspace = (.ok (), workspace) :=
    outcome_bind_ok (outcome_slot h) _
  exact outcome_bind_ok hlook _

theorem outcome_drop_none (h : workspace.sessions.get? slot = none) :
    (drop.perform slot).outcome workspace = (.error (.emptySlot slot), workspace) := by
  have hlook : (discard (WorkM.session slot)).outcome workspace =
      (.error (.emptySlot slot), workspace) :=
    outcome_bind_error (outcome_slot_none h) _
  exact outcome_bind_error hlook _

end SessionCommand

namespace WorkM

open Workspace

variable {α β : Type} {writable : FrameRef → Prop} {slot : String}

/-- Work that leaves the handles alone and writes to the frames it may write to. The global frame
of the session in the slot must be one of them. -/
def Steadily (writable : FrameRef → Prop) (slot : String) (work : WorkM α) : Prop :=
  ∀ workspace : Workspace,
    (∀ session, workspace.sessions.get? slot = some session → writable session.globals) →
      workspace.Steady writable (work.outcome workspace).2

namespace Steadily

theorem pure (a : α) : Steadily writable slot (pure a) :=
  fun workspace _ => .refl writable workspace

theorem throw (reason : Refusal) : Steadily writable slot (throw reason : WorkM α) :=
  fun workspace _ => .refl writable workspace

theorem get : Steadily writable slot (get : WorkM Workspace) :=
  fun workspace _ => .refl writable workspace

theorem bind {f : WorkM α} {k : α → WorkM β} (h : Steadily writable slot f)
    (hk : ∀ a, Steadily writable slot (k a)) : Steadily writable slot (f >>= k) := by
  intro workspace hwritable
  have hfirst := h workspace hwritable
  rcases hout : f.outcome workspace with ⟨reason | a, after⟩
  · rw [outcome_bind_error hout]
    rwa [hout] at hfirst
  · rw [outcome_bind_ok hout]
    rw [hout] at hfirst
    refine hfirst.trans (hk a after fun session hsession => ?_)
    obtain ⟨old, hold, hkeeps⟩ := hfirst.exists_handle_before hsession
    exact Session.globals_eq_of_keeps_eq hkeeps ▸ hwritable old hold

theorem slotted {γ : Type} (name : String) (slots : Workspace → Slots γ) :
    Steadily writable slot (WorkM.slot name slots) :=
  .bind .get fun workspace => by
    cases (slots workspace).get? name with
    | none => exact .throw _
    | some content => exact .pure content

theorem inspect (view : Store → α) : Steadily writable slot (WorkM.inspect view) :=
  .bind .get fun _ => .pure _

theorem update {change : Store → α × Store}
    (h : ∀ store, FramesKept writable store (change store).2) :
    Steadily writable slot (WorkM.update change) :=
  fun workspace _ => ⟨fun _ => rfl, id, h workspace.store⟩

/-- A change of what else the user holds. -/
theorem modify {f : Workspace → Workspace}
    (h : ∀ workspace, (f workspace).sessions = workspace.sessions ∧
      (f workspace).store = workspace.store) : Steadily writable slot (modify f : WorkM Unit) := by
  intro workspace _
  obtain ⟨hsessions, hstore⟩ := h workspace
  refine ⟨fun other => ?_, fun hdistinct => ?_, ?_⟩
  · show ((f workspace).sessions.get? other).map Session.keeps = _
    rw [hsessions]
  · show (f workspace).sessions.Distinct
    rwa [hsessions]
  · show FramesKept writable _ (f workspace).store
    rw [hstore]
    exact .refl writable _

theorem orError {ε : Type} (wrap : ε → Error) (result : Except ε α) :
    Steadily writable slot (WorkM.orError wrap result) := by
  cases result with
  | ok a => exact .pure a
  | error cause => exact .throw _

theorem mapM {γ : Type} {f : γ → WorkM α} (h : ∀ c, Steadily writable slot (f c))
    (items : List γ) : Steadily writable slot (items.mapM f) := by
  induction items with
  | nil => exact .pure []
  | cons item rest ih =>
      rw [List.mapM_cons]
      exact .bind (h item) fun _ => .bind ih fun _ => .pure _

theorem keep (target : Option String) (value : Value) :
    Steadily writable slot (WorkM.keep target value) := by
  cases target with
  | none => exact .pure ()
  | some name => exact .modify fun _ => ⟨rfl, rfl⟩

theorem giveValue (target : Option String) (value : Value) :
    Steadily writable slot (WorkM.giveValue target value) :=
  .bind (.keep target value) fun _ => .bind (.inspect _) fun _ => .pure _

theorem giveEnvironment (target : String) (frame : FrameRef) :
    Steadily writable slot (WorkM.giveEnvironment target frame) :=
  .bind (.modify fun _ => ⟨rfl, rfl⟩) fun _ => .bind (.inspect _) fun _ => .pure _

theorem readOne (arena : Nat) (text : String) :
    Steadily writable slot (WorkM.readOne arena text) :=
  .bind (.orError _ _) fun datum => .update fun store => framesKept_ofDatum store arena datum

/-- Where the steps of an evaluation write, the evaluation in the slot does. -/
theorem evaluate {f : Session → EvalM α} {scope : Option FrameRef} {post : Session → α → Prop}
    (h : ∀ session, Eval.KeepsFrames session.globals scope (post session) (f session))
    (hscope : ∀ frame, scope = some frame → writable frame) :
    Steadily writable slot (WorkM.evaluate slot f) := by
  intro workspace hwritable
  cases hsession : workspace.sessions.get? slot with
  | none =>
      rw [outcome_evaluate_none hsession]
      exact .refl writable workspace
  | some session =>
      have hkept := (h session (.frames session.keeps :: workspace.held)
        ⟨workspace.store, workspace.census, session.depth⟩).1
      rw [outcome_evaluate_of_run hsession rfl]
      refine ⟨fun other => ?_, fun hdistinct => hdistinct.put slot _, hkept.mono fun ref href => ?_⟩
      · by_cases heq : other = slot
        · rw [heq, Slots.get?_put_self, hsession]
          rfl
        · rw [Slots.get?_put_of_ne heq]
      · rcases href with heq | heq
        · exact heq ▸ hwritable session hsession
        · exact hscope ref heq

/-- An evaluation in the session's own frame that results in a value. -/
theorem evaluateOne {f : Session → EvalM Value} {post : Session → Value → Prop}
    (target : Option String)
    (h : ∀ session, Eval.KeepsFrames session.globals none (post session) (f session)) :
    Steadily writable slot (do WorkM.giveValue target (← WorkM.evaluate slot f)) :=
  .bind (.evaluate h fun _ heq => by cases heq) fun _ => .giveValue target _

theorem changePair (pair part : String) {change : Store → CellRef → Value → Store}
    (h : ∀ store ref value, FramesKept writable store (change store ref value)) :
    Steadily writable slot (WorkM.changePair pair part change) := by
  refine .bind (.slotted _ _) fun newPart => .bind (.slotted _ _) fun subject => ?_
  cases subject with
  | pair ref =>
      exact .bind (.update fun store => h store ref newPart) fun _ => .bind (.inspect _) fun _ =>
        .pure _
  | _ => exact .throw _

theorem makeLambda (scope spec body : String) (name : Option String) :
    Steadily writable slot (WorkM.makeLambda scope spec body name) := by
  refine .bind (.slotted _ _) fun frame => .bind (.readOne _ _) fun _ => .bind (.inspect _)
    fun _ => .bind (.orError _ _) fun params => .bind (.orError _ _) fun forms => ?_
  exact .bind (.update fun store => framesKept_ofData store _ forms) fun body =>
    .update fun store => framesKept_modifyArena store _ fun _ => rfl

theorem elementsOf (subject : Value) : Steadily writable slot (WorkM.elementsOf subject) :=
  .bind (.inspect _) fun _ => .orError _ _

/-- Commands on values write to no frame. -/
theorem valueCommand (command : ValueCommand) : Steadily writable slot command.perform := by
  cases command with
  | read text target => exact .bind (.readOne _ _) fun _ => .giveValue target _
  | symbol name target => exact .giveValue target _
  | builtin name target => exact .giveValue target _
  | cons car cdr target =>
      exact .bind (.slotted _ _) fun _ => .bind (.slotted _ _) fun _ =>
        .bind (.update fun store => framesKept_modifyArena store _ fun _ => rfl) fun _ =>
          .giveValue target _
  | list items tail target =>
      refine .bind (.mapM (fun name => .slotted name _) items) fun values => ?_
      have hgive : ∀ last, Steadily writable slot (do
          WorkM.giveValue target
            (← WorkM.update (·.listWithTail Workspace.arena values last))) :=
        fun last => .bind (.update fun store => framesKept_listWithTail store _ values last)
          fun _ => .giveValue target _
      cases tail with
      | none => exact hgive .nil
      | some name => exact .bind (.slotted _ _) hgive
  | setCar pair part =>
      exact .changePair pair part fun store _ _ => framesKept_modifyArena store _ fun _ => rfl
  | setCdr pair part =>
      exact .changePair pair part fun store _ _ => framesKept_modifyArena store _ fun _ => rfl
  | describe name =>
      exact .bind (.slotted _ _) fun _ => .bind (.inspect _) fun _ => .pure _
  | elements name =>
      exact .bind (.slotted _ _) fun _ => .bind (.elementsOf _) fun _ => .bind (.inspect _)
        fun _ => .pure _
  | compare left right =>
      exact .bind (.slotted _ _) fun _ => .bind (.slotted _ _) fun _ => .bind (.inspect _)
        fun _ => .pure _
  | forget name => exact .bind (.modify fun _ => ⟨rfl, rfl⟩) fun _ => .pure _
  | lambda scope spec body name isMacro target =>
      exact .bind (.makeLambda scope spec body name) fun _ => .giveValue target _

/-- Commands on environments define names at most, unless they empty a frame. -/
theorem environmentCommand (command : EnvironmentCommand)
    (hempties : (Command.environment command).empties = false) :
    Steadily (fun _ => True) slot command.perform := by
  cases command with
  | newRoot target =>
      exact .bind (.update fun store => framesKept_addFrame store _ _) fun _ =>
        .giveEnvironment target _
  | extend env target =>
      exact .bind (.slotted _ _) fun _ => .bind (.update fun store =>
        framesKept_addFrame store _ _) fun _ => .giveEnvironment target _
  | snapshot env target =>
      exact .bind (.slotted _ _) fun _ => .bind (.update fun store =>
        framesKept_addFrame store _ _) fun _ => .giveEnvironment target _
  | handle env target => exact .bind (.slotted _ _) fun _ => .giveEnvironment target _
  | root env target =>
      exact .bind (.slotted _ _) fun _ => .bind (.inspect _) fun _ => .giveEnvironment target _
  | forget env => exact .bind (.modify fun _ => ⟨rfl, rfl⟩) fun _ => .pure _
  | bind env name slot =>
      exact .bind (.slotted _ _) fun _ => .bind (.slotted _ _) fun _ =>
        .bind (.update fun store => framesKept_bind store trivial _ _) fun _ =>
          .bind (.inspect _) fun _ => .pure _
  | lookup env name target =>
      refine .bind (.slotted _ _) fun _ => .bind (.inspect _) fun found => ?_
      cases found with
      | none => exact .pure _
      | some value => exact .giveValue target value
  | contains env name =>
      exact .bind (.slotted _ _) fun _ => .bind (.inspect _) fun _ => .pure _
  | bindings env => exact .bind (.slotted _ _) fun _ => .bind (.inspect _) fun _ => .pure _
  | same left right => exact .bind (.slotted _ _) fun _ => .bind (.slotted _ _) fun _ => .pure _
  | clear env => cases hempties
  | release env => cases hempties

theorem register (name : String) (native : Native) :
    Steadily writable slot ((SessionCommand.register name native).perform slot) := by
  intro workspace hwritable
  cases hsession : workspace.sessions.get? slot with
  | none =>
      rw [SessionCommand.outcome_register_none hsession]
      exact .refl writable workspace
  | some session =>
      rw [SessionCommand.outcome_register hsession]
      refine ⟨fun other => ?_, fun hdistinct => hdistinct.put slot _,
        framesKept_bind _ (hwritable session hsession) _ _⟩
      by_cases heq : other = slot
      · rw [heq, Slots.get?_put_self, hsession]
        rfl
      · rw [Slots.get?_put_of_ne heq]

/-- **What is run in a session** writes to its global frame only, and leaves all handles alone. -/
theorem operation {command : SessionCommand} (hoperation : command.isOperation = true) :
    Steadily writable slot (command.perform slot) := by
  have hruns (session : Session) (fuel : Nat) :=
    Eval.framesLogic_performs session fuel
  cases command with
  | start | fork | clone | drop | evalIn => cases hoperation
  | eval text =>
      exact .bind .get fun workspace => .bind (.evaluate (fun session =>
        Eval.Logic.evalText (c := ()) (Eval.framesLogic_refuses session)
          (hruns session _).evaluates text) fun _ heq => by cases heq)
          fun _ => .bind (.inspect _) fun _ => .pure _
  | evalLast text target =>
      exact .bind .get fun workspace => .evaluateOne target fun session =>
        Eval.Logic.evalTextLast (c := ()) (Eval.framesLogic_refuses session)
          (hruns session _).evaluates text
  | evalLine line =>
      exact .bind .get fun workspace => .bind (.evaluate (fun session =>
        Eval.Logic.evalLine (c := ()) (Eval.framesLogic_attempts session) (fun _ => trivial)
          (hruns session _).evaluates line) fun _ heq => by cases heq)
          fun _ => .bind (.inspect _) fun _ => .pure _
  | load path target =>
      exact .bind .get fun workspace => .bind .get fun _ => .evaluateOne target fun session =>
        Eval.Logic.load (c := ()) (Eval.framesLogic_refuses session)
          (hruns session _).evaluates _ path
  | evalValue form target =>
      exact .bind .get fun workspace => .bind (.slotted _ _) fun subject =>
        .evaluateOne target fun session =>
          Eval.Logic.evalGlobal (c := ()) (hruns session _).evaluates trivial
  | apply function args target =>
      exact .bind .get fun workspace => .bind (.slotted _ _) fun callee =>
        .bind (.mapM (fun name => .slotted name _) args) fun values =>
          .evaluateOne target fun session =>
            Eval.Logic.applyTo (c := ()) (hruns session _) trivial fun _ _ => trivial
  | expand text target =>
      exact .bind .get fun workspace => .bind (.slotted _ _) fun session =>
        .bind (.readOne _ _) fun form => .evaluateOne target fun session =>
          Eval.Logic.expandForm (c := ()) (hruns session _).evaluates trivial
  | globals target =>
      exact .bind .get fun _ => .bind (.slotted _ _) fun _ => .giveEnvironment target _
  | symbols =>
      exact .bind .get fun _ => .bind (.slotted _ _) fun _ => .bind (.inspect _) fun _ => .pure _
  | depth => exact .bind .get fun _ => .bind (.slotted _ _) fun _ => .pure _
  | isSpecial name =>
      exact .bind .get fun _ => .bind (.bind (.slotted _ _) fun _ => .pure _) fun _ => .pure _
  | register name native => exact .register name native

theorem evalIn (env text : String) (target : Option String) :
    Steadily (fun _ => True) slot ((SessionCommand.evalIn env text target).perform slot) :=
  .bind .get fun _ => .bind (.slotted _ _) fun _ => .bind (.slotted _ _) fun _ =>
    .bind (.readOne _ _) fun _ => .bind (.evaluate (fun session =>
      Eval.Logic.evalIn (L := (Eval.framesLogic session).toLogic) (c := ())
        (Eval.framesLogic_performs session _).evaluates trivial trivial) fun _ _ => trivial)
      fun _ => .giveValue target _

end Steadily

end WorkM

end SmallLisp
