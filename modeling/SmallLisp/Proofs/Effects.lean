import SmallLisp.Proofs.Handles

/-!
# All that commands do with handles and frames

A command leaves the handles of a workspace where they are, or it fills or empties one slot. In the
second case the global frames are cleared that the handle there kept and that no handle keeps any
more. Every invariant of handles and frames follows from this.

## Main results

* `Workspace.effect_answer` — all that a command can do.
* `Workspace.Grounded.answerAll` — the global frames that handles keep are in the store.
-/

namespace SmallLisp

namespace Store

theorem frame?_addArena (store : Store) (ref : FrameRef) :
    store.addArena.2.frame? ref = store.frame? ref := by
  simp only [frame?, addArena, Array.getElem?_push]
  split
  · next heq => simp [heq]
  · rfl

/-- A new frame in a new arena. -/
def addHome (store : Store) (frame : Frame) : FrameRef × Store :=
  store.addArena.2.addFrame store.addArena.1 frame

theorem frame?_addHome_fst (store : Store) (frame : Frame) :
    store.frame? (store.addHome frame).1 = none := by
  rw [← frame?_addArena]
  exact frame?_addFrame_self _ _ _

theorem frame?_addHome_self (store : Store) (frame : Frame) :
    (store.addHome frame).2.frame? (store.addHome frame).1 = some frame :=
  frame?_addFrame_new (by simp [addArena]) frame

theorem framesKept_addHome (writable : FrameRef → Prop) (store : Store) (frame : Frame) :
    FramesKept writable store (store.addHome frame).2 :=
  .of_frame? fun ref _ hframe =>
    frame?_addFrame_of_some ((store.frame?_addArena ref).trans hframe) _ frame

theorem frame?_clear (store : Store) (target ref : FrameRef) :
    (store.clear target).frame? ref =
      if ref = target then (store.frame? ref).map fun frame => { frame with table := .empty }
      else store.frame? ref :=
  store.frame?_modifyTable target _ ref

theorem frame?_clearAll (frames : List FrameRef) (store : Store) (ref : FrameRef) :
    (frames.foldl clear store).frame? ref =
      if ref ∈ frames then (store.frame? ref).map fun frame => { frame with table := .empty }
      else store.frame? ref := by
  induction frames generalizing store with
  | nil => rfl
  | cons first rest ih =>
      rw [List.foldl_cons, ih, frame?_clear]
      by_cases hfirst : ref = first
      · by_cases hrest : ref ∈ rest <;> simp [hfirst, Function.comp_def]
      · simp [hfirst]

end Store

namespace Slots

variable {α : Type} {slots : Slots α} {name : String} {content : α}

theorem get?_remove_self (slots : Slots α) (name : String) :
    (slots.remove name).get? name = none := by
  refine List.lookup_eq_none_iff.2 fun entry hentry => ?_
  simpa using Ne.symm (by simpa using (List.mem_filter.1 hentry).2)

/-- What the slots hold is found in them. -/
theorem Distinct.exists_get? (h : slots.Distinct) (hcontent : content ∈ slots.contents) :
    ∃ name, slots.get? name = some content := by
  obtain ⟨⟨name, found⟩, hentry, rfl⟩ := List.mem_map.1 hcontent
  refine ⟨name, ?_⟩
  induction slots with
  | nil => cases hentry
  | cons entry rest ih =>
      obtain ⟨hnot, hrest⟩ := List.nodup_cons.1 h
      rw [get?, List.lookup_cons]
      rcases List.mem_cons.1 hentry with heq | hmem
      · simp [← heq]
      · have hne : name ≠ entry.1 := fun heq =>
          hnot (List.mem_map.2 ⟨(name, found), hmem, heq⟩)
        rw [beq_eq_false_iff_ne.2 hne]
        exact ih hrest hmem (List.mem_map_of_mem hmem)

end Slots

namespace Eval

/-- Files are loaded by writing to the global frame only. -/
theorem keepsFrames_loadAll (session : Session) (fuel : Nat) (files : Files)
    (preload : List String) :
    KeepsFrames session.globals none (fun _ => True)
      (preload.forM fun path => do discard (session.load fuel files path)) := by
  induction preload with
  | nil => exact .pure trivial
  | cons path rest ih =>
      have hload : KeepsFrames session.globals none (fun _ => True)
          (session.load fuel files path) :=
        Logic.load (c := ()) (framesLogic_refuses session)
          (framesLogic_performs session fuel).evaluates files path
      have hpath : KeepsFrames session.globals none (fun _ => True)
          (discard (session.load fuel files path)) :=
        hload.bind fun _ _ => .pure trivial
      exact hpath.bind fun _ _ => ih

end Eval

/-! ### New sessions -/

namespace Session

theorem fork_eq (origin : Session) (store : Store) :
    origin.fork store = ({ origin with
      globals := (store.addHome (store.frame origin.globals)).1
      origins := origin.keeps
      depth := 0 }, (store.addHome (store.frame origin.globals)).2) := by
  have hframe : store.addArena.2.frame origin.globals = store.frame origin.globals := by
    rw [Store.frame, Store.frame?_addArena, Store.frame]
  simp only [fork, Store.snapshot, hframe]
  rfl

theorem framesKept_fork (origin : Session) (store : Store) (writable : FrameRef → Prop) :
    FramesKept writable store (origin.fork store).2 := by
  rw [fork_eq]
  exact store.framesKept_addHome writable (store.frame origin.globals)

/-- The global frame of a fork is a new one. -/
theorem frame?_globals_fork (origin : Session) (store : Store) :
    store.frame? (origin.fork store).1.globals = none := by
  rw [fork_eq]
  exact store.frame?_addHome_fst (store.frame origin.globals)

/-- The global frame of a fork is a copy. -/
theorem frame?_fork_globals (origin : Session) (store : Store) :
    (origin.fork store).2.frame? (origin.fork store).1.globals =
      some (store.frame origin.globals) := by
  rw [fork_eq]
  exact store.frame?_addHome_self (store.frame origin.globals)

theorem keeps_fork (origin : Session) (store : Store) :
    (origin.fork store).1.keeps = (origin.fork store).1.globals :: origin.keeps := rfl

/-- A session that was started, with all files loaded: its global frame is a new one, and binds
all that a new session binds. -/
theorem start_eq_ok {fuel : Nat} {files : Files} {maxDepth : Nat} {preload : List String}
    {held : List Hold} {store after : Store} {census census' : Option Census} {session : Session}
    (h : start fuel files maxDepth preload held store census = (.ok (), session, after, census')) :
    session.origins = [] ∧ store.frame? session.globals = none ∧
      FramesKept (fun _ => False) store after ∧
      ∃ definitions, after.frame? session.globals =
        some { table := initialGlobals.insertAll definitions } := by
  let home := store.addHome { table := initialGlobals }
  let created : Session := { globals := home.1, natives := primitives, maxDepth }
  have hkept := (Eval.keepsFrames_loadAll created fuel files preload
    (.frames created.keeps :: held) ⟨home.2, census, created.depth⟩).1
  rcases hrun : (preload.forM fun path => do discard (created.load fuel files path)).outcome
    (.frames created.keeps :: held) ⟨home.2, census, created.depth⟩ with ⟨result, machine⟩
  rw [hrun] at hkept
  cases (execute_of_outcome hrun).symm.trans h
  have hfresh : store.frame? home.1 = none := store.frame?_addHome_fst _
  refine ⟨rfl, hfresh, .of_fresh hfresh ?_, hkept.grown (store.frame?_addHome_self _)⟩
  refine (store.framesKept_addHome _ _).trans (hkept.mono fun ref href => ?_)
  rcases href with heq | heq
  · exact .inr heq
  · cases heq

end Session

namespace Workspace

variable {before after workspace : Workspace} {slot : String} {command : Command}

/-! ### Handles that are put in and taken away -/

/-- A handle in some slot keeps the frame in use. -/
def Keeps (workspace : Workspace) (ref : FrameRef) : Prop :=
  ∃ slot session, workspace.sessions.get? slot = some session ∧ ref ∈ session.keeps

theorem mem_liveGlobals (h : workspace.sessions.Distinct) {ref : FrameRef} :
    ref ∈ workspace.liveGlobals ↔ workspace.Keeps ref := by
  rw [liveGlobals, List.mem_eraseDups, List.mem_flatMap]
  constructor
  · rintro ⟨session, hsession, href⟩
    obtain ⟨slot, hslot⟩ := h.exists_get? hsession
    exact ⟨slot, session, hslot, href⟩
  · rintro ⟨slot, session, hslot, href⟩
    exact ⟨session, Slots.mem_contents_of_get? hslot, href⟩

/-- The slot holds this handle now, if any. Those frames of the store were cleared that the handle
before it kept and that no handle keeps any more. -/
structure Refills (slot : String) (handle : Option Session) (store : Store)
    (before after : Workspace) : Prop where
  filled : after.sessions.get? slot = handle
  others {other : String} : other ≠ slot →
    after.sessions.get? other = before.sessions.get? other
  distinct : after.sessions.Distinct
  cleared {old : Session} {ref : FrameRef} {frame : Frame} :
    before.sessions.get? slot = some old → ref ∈ old.keeps → ¬after.Keeps ref →
      store.frame? ref = some frame →
      after.store.frame? ref = some { frame with table := .empty }
  kept {ref : FrameRef} {frame : Frame} :
    (∀ old, before.sessions.get? slot = some old → ref ∈ old.keeps → after.Keeps ref) →
      store.frame? ref = some frame → after.store.frame? ref = some frame

theorem refills_of_retire {handle : Option Session} {store : Store} {sessions : Slots Session}
    (hdistinct : sessions.Distinct) (hfilled : sessions.get? slot = handle)
    (hothers : ∀ {other}, other ≠ slot → sessions.get? other = before.sessions.get? other)
    {old : Session} (hold : before.sessions.get? slot = some old) (census : Option Census) :
    Refills slot handle store before
      (retire { before with store, census, sessions } old) := by
  -- What is live does not depend on the store.
  have hlive : ∀ ref, ref ∈ liveGlobals { before with store, census, sessions } ↔
      Keeps (retire { before with store, census, sessions } old) ref :=
    fun ref => mem_liveGlobals hdistinct
  refine ⟨hfilled, hothers, hdistinct, fun hold' href hnot hframe => ?_, fun hkeeps hframe => ?_⟩
  · obtain rfl := Option.some.inj (hold.symm.trans hold')
    rw [retire, Store.frame?_clearAll, if_pos, hframe]
    · rfl
    · refine List.mem_filter.2 ⟨href, ?_⟩
      simpa using fun hmem => hnot ((hlive _).1 hmem)
  · rw [retire, Store.frame?_clearAll, if_neg, hframe]
    intro hmem
    obtain ⟨href, hnot⟩ := List.mem_filter.1 hmem
    exact absurd ((hlive _).2 (hkeeps old hold href)) (by simpa using hnot)

theorem refills_putSession (hdistinct : before.sessions.Distinct) (slot : String)
    (session : Session) (store : Store) (census : Option Census) :
    Refills slot (some session) store before
      ({ before with store, census }.putSession slot session) := by
  have hput := hdistinct.put slot session
  have hfilled := Slots.get?_put_self before.sessions slot session
  rw [putSession]
  cases hold : before.sessions.get? slot with
  | none =>
      refine ⟨hfilled, Slots.get?_put_of_ne, hput, fun hframe => ?_, fun _ hframe => hframe⟩
      cases hold.symm.trans hframe
  | some old => exact refills_of_retire hput hfilled Slots.get?_put_of_ne hold census

theorem refills_dropSession (hdistinct : before.sessions.Distinct) {session : Session}
    (hsession : before.sessions.get? slot = some session) :
    Refills slot none before.store before (before.dropSession slot) := by
  rw [dropSession, hsession]
  exact refills_of_retire (hdistinct.remove slot) (Slots.get?_remove_self _ _)
    Slots.get?_remove_of_ne hsession before.census

/-! ### All that a command can do -/

theorem release_cases (workspace : Workspace) (frame : FrameRef) :
    ∃ census, workspace.release frame =
        (true, { workspace with store := workspace.store.clear frame, census }) ∨
      workspace.release frame = (false, { workspace with census }) := by
  simp only [release, Census.release_eq]
  split
  · exact ⟨_, .inl rfl⟩
  · exact ⟨_, .inr rfl⟩

theorem store_release (workspace : Workspace) (frame : FrameRef) :
    (workspace.release frame).2.store = workspace.store ∨
      ∃ ref, (workspace.release frame).2.store = workspace.store.clear ref := by
  obtain ⟨census, hrelease | hrelease⟩ := workspace.release_cases frame
  · exact .inr ⟨frame, by rw [hrelease]⟩
  · exact .inl (by rw [hrelease])

/-- The global frames of a new session and of its origin, if the command forks a session. -/
def forked? (workspace : Workspace) : Command → Option (FrameRef × FrameRef)
  | .session slot (.fork _) => (workspace.sessions.get? slot).map fun origin =>
      ((origin.fork workspace.store).1.globals, origin.globals)
  | _ => none

/-- What a command has done with the handles and the frames of a workspace. -/
inductive Effect (before after : Workspace) : Command → Prop
  /-- All handles are where they were, and no name is lost. -/
  | steady {command : Command} (hsteady : before.Steady (fun _ => True) after)
      (hforked : before.forked? command = none) : Effect before after command
  /-- All handles are where they were, and a frame may have been emptied. -/
  | empties {command : Command} (hempties : command.empties = true)
      (hsessions : after.sessions = before.sessions)
      (hstore : after.store = before.store ∨ ∃ ref, after.store = before.store.clear ref) :
      Effect before after command
  /-- A session was started. -/
  | start {slot : String} {maxDepth : Nat} {preload : List String} {session : Session}
      {store : Store} {definitions : List (Symbol × Value)} (horigins : session.origins = [])
      (hfresh : before.store.frame? session.globals = none)
      (hkept : FramesKept (fun _ => False) before.store store)
      (hframe : store.frame? session.globals =
        some { table := Session.initialGlobals.insertAll definitions })
      (hrefills : Refills slot (some session) store before after) :
      Effect before after (.session slot (.start maxDepth preload))
  /-- A session was forked. -/
  | fork {slot target : String} {origin : Session}
      (horigin : before.sessions.get? slot = some origin)
      (hrefills : Refills target (some (origin.fork before.store).1)
        (origin.fork before.store).2 before after) :
      Effect before after (.session slot (.fork target))
  /-- A slot got another handle on a session. -/
  | clone {slot target : String} {session : Session}
      (hsession : before.sessions.get? slot = some session)
      (hrefills : Refills target (some session) before.store before after) :
      Effect before after (.session slot (.clone target))
  /-- A handle was dropped. -/
  | drop {slot : String} {session : Session}
      (hsession : before.sessions.get? slot = some session)
      (hrefills : Refills slot none before.store before after) :
      Effect before after (.session slot .drop)

theorem Effect.refl (hforked : workspace.forked? command = none) :
    Effect workspace workspace command :=
  .steady (.refl _ workspace) hforked

theorem effect_of_steadily (slot : String) {work : WorkM Reply}
    (h : WorkM.Steadily (fun _ => True) slot work)
    (hforked : before.forked? command = none) : Effect before (work.outcome before).2 command :=
  .steady (h before fun _ _ => trivial) hforked

/-- A command that empties the frame in a slot, if the slot holds one. -/
theorem effect_empties {command : EnvironmentCommand} {env : String} {rest : FrameRef → WorkM Reply}
    (hempties : (Command.environment command).empties = true)
    (hperform : command.perform = WorkM.environment env >>= rest)
    (h : ∀ frame,
      Effect before ((rest frame).outcome before).2 (.environment command)) :
    Effect before (command.perform.outcome before).2 (.environment command) := by
  rw [hperform, WorkM.environment]
  cases henv : before.environments.get? env with
  | none =>
      rw [WorkM.outcome_bind_error (WorkM.outcome_slot_none henv)]
      exact .empties hempties rfl (.inl rfl)
  | some frame =>
      rw [WorkM.outcome_bind_ok (WorkM.outcome_slot henv)]
      exact h frame

theorem effect_environment (before : Workspace) (command : EnvironmentCommand) :
    Effect before (command.perform.outcome before).2 (.environment command) := by
  by_cases hempties : (Command.environment command).empties = false
  · exact effect_of_steadily "" (.environmentCommand command hempties) rfl
  · have hempties' := (Bool.not_eq_false _).mp hempties
    cases command with
    | clear env =>
        exact effect_empties hempties' rfl fun frame => .empties hempties' rfl (.inr ⟨frame, rfl⟩)
    | release env =>
        exact effect_empties hempties' rfl fun frame =>
          .empties hempties' rfl (store_release before frame)
    | _ => exact absurd rfl hempties

theorem effect_session (hdistinct : before.sessions.Distinct) (slot : String)
    (command : SessionCommand) :
    Effect before ((command.perform slot).outcome before).2 (.session slot command) := by
  by_cases hoperation : command.isOperation = true
  · refine effect_of_steadily slot (.operation hoperation) ?_
    cases command <;> first | rfl | cases hoperation
  · cases command with
    | start maxDepth preload =>
        rcases hstart : Session.start before.fuel before.files maxDepth preload before.held
          before.store before.census with ⟨halt | ⟨⟩, session, store, census⟩
        · rw [SessionCommand.outcome_start_error hstart]
          exact .refl rfl
        · obtain ⟨horigins, hfresh, hkept, definitions, hframe⟩ := Session.start_eq_ok hstart
          rw [SessionCommand.outcome_start_ok hstart]
          exact .start horigins hfresh hkept hframe (refills_putSession hdistinct slot _ _ _)
    | fork target =>
        cases horigin : before.sessions.get? slot with
        | none =>
            rw [SessionCommand.outcome_fork_none horigin]
            exact .refl (by rw [forked?, horigin]; rfl)
        | some origin =>
            rw [SessionCommand.outcome_fork horigin]
            exact .fork horigin (refills_putSession hdistinct target _ _ _)
    | clone target =>
        cases hsession : before.sessions.get? slot with
        | none =>
            rw [SessionCommand.outcome_clone_none hsession]
            exact .refl rfl
        | some session =>
            rw [SessionCommand.outcome_clone hsession]
            exact .clone hsession (refills_putSession hdistinct target _ _ _)
    | drop =>
        cases hsession : before.sessions.get? slot with
        | none =>
            rw [SessionCommand.outcome_drop_none hsession]
            exact .refl rfl
        | some session =>
            rw [SessionCommand.outcome_drop hsession]
            exact .drop hsession (refills_dropSession hdistinct hsession)
    | evalIn env text target =>
        exact effect_of_steadily slot (.evalIn env text target) rfl
    | _ => exact absurd rfl hoperation

theorem snd_answer (workspace : Workspace) (command : Command) :
    (workspace.answer command).2 = (command.perform.outcome workspace).2 := by
  rcases houtcome : command.perform.outcome workspace with ⟨result, after⟩
  rw [answer_eq houtcome]

/-- **All that a command can do** with handles and frames. -/
theorem effect_answer (hdistinct : before.sessions.Distinct) (command : Command) :
    Effect before (before.answer command).2 command := by
  rw [snd_answer]
  cases command with
  | value command =>
      exact effect_of_steadily "" (.valueCommand command) rfl
  | environment command => exact effect_environment before command
  | session slot command => exact effect_session hdistinct slot command

/-! ### The frames that are kept -/

theorem Steady.keeps_iff {writable : FrameRef → Prop} (h : Steady writable before after)
    {ref : FrameRef} : after.Keeps ref ↔ before.Keeps ref := by
  constructor
  · rintro ⟨slot, session, hsession, href⟩
    obtain ⟨old, hold, hkeeps⟩ := h.exists_handle_before hsession
    exact ⟨slot, old, hold, hkeeps ▸ href⟩
  · rintro ⟨slot, session, hsession, href⟩
    obtain ⟨new, hnew, hkeeps⟩ := h.exists_handle hsession
    exact ⟨slot, new, hnew, hkeeps ▸ href⟩

namespace Refills

variable {handle : Option Session} {store : Store}

theorem keeps_of_handle (h : Refills slot handle store before after) {session : Session}
    (hhandle : handle = some session) {ref : FrameRef} (href : ref ∈ session.keeps) :
    after.Keeps ref :=
  ⟨slot, session, h.filled.trans hhandle, href⟩

theorem keeps_of_other (h : Refills slot handle store before after) {other : String}
    (hne : other ≠ slot) {session : Session}
    (hsession : before.sessions.get? other = some session) {ref : FrameRef}
    (href : ref ∈ session.keeps) : after.Keeps ref :=
  ⟨other, session, (h.others hne).trans hsession, href⟩

/-- A frame that is kept is kept by the new handle or was kept before. -/
theorem keeps (h : Refills slot handle store before after) {ref : FrameRef}
    (href : after.Keeps ref) :
    (∃ session, handle = some session ∧ ref ∈ session.keeps) ∨ before.Keeps ref := by
  obtain ⟨other, session, hsession, hmem⟩ := href
  by_cases heq : other = slot
  · exact .inl ⟨session, h.filled.symm.trans (heq ▸ hsession), hmem⟩
  · exact .inr ⟨other, session, (h.others heq).symm.trans hsession, hmem⟩

/-- A frame that is still kept is as it was. -/
theorem frame_of_keeps (h : Refills slot handle store before after) {ref : FrameRef}
    (href : after.Keeps ref) {frame : Frame} (hframe : store.frame? ref = some frame) :
    after.store.frame? ref = some frame :=
  h.kept (fun _ _ _ => href) hframe

/-- A frame that was not kept is as it was. -/
theorem frame_of_not_keeps (h : Refills slot handle store before after) {ref : FrameRef}
    (href : ¬before.Keeps ref) {frame : Frame} (hframe : store.frame? ref = some frame) :
    after.store.frame? ref = some frame :=
  h.kept (fun old hold hmem => absurd ⟨slot, old, hold, hmem⟩ href) hframe

/-- A frame that is no longer kept is cleared. -/
theorem frame_of_gone (h : Refills slot handle store before after) {ref : FrameRef}
    (hbefore : before.Keeps ref) (hafter : ¬after.Keeps ref) {frame : Frame}
    (hframe : store.frame? ref = some frame) :
    after.store.frame? ref = some { frame with table := .empty } := by
  obtain ⟨other, session, hsession, hmem⟩ := hbefore
  by_cases heq : other = slot
  · exact h.cleared (heq ▸ hsession) hmem hafter hframe
  · exact absurd (h.keeps_of_other heq hsession hmem) hafter

/-- No frame is lost. -/
theorem exists_frame (h : Refills slot handle store before after) {ref : FrameRef} {frame : Frame}
    (hframe : store.frame? ref = some frame) : ∃ frame', after.store.frame? ref = some frame' := by
  by_cases hafter : after.Keeps ref
  · exact ⟨frame, h.frame_of_keeps hafter hframe⟩
  · by_cases hbefore : before.Keeps ref
    · exact ⟨_, h.frame_of_gone hbefore hafter hframe⟩
    · exact ⟨frame, h.frame_of_not_keeps hbefore hframe⟩

end Refills

/-- No slot is filled twice, and the frames that handles keep are in the store. -/
structure Grounded (workspace : Workspace) : Prop where
  distinct : workspace.sessions.Distinct
  present {ref : FrameRef} : workspace.Keeps ref → ∃ frame, workspace.store.frame? ref = some frame

namespace Grounded

theorem of_sessions_eq_nil (h : workspace.sessions = []) : workspace.Grounded := by
  refine ⟨h ▸ List.nodup_nil, ?_⟩
  rintro ref ⟨slot, session, hsession, -⟩
  rw [h] at hsession
  cases hsession

theorem refills {handle : Option Session} {store : Store} (h : before.Grounded)
    (hkept : FramesKept (fun _ => False) before.store store)
    (hrefills : Refills slot handle store before after)
    (hhandle : ∀ session, handle = some session → ∀ ref ∈ session.keeps,
      ∃ frame, store.frame? ref = some frame) : after.Grounded := by
  refine ⟨hrefills.distinct, fun {ref} href => ?_⟩
  have hstore : ∃ frame, store.frame? ref = some frame := by
    rcases hrefills.keeps href with ⟨session, hsession, hmem⟩ | hbefore
    · exact hhandle session hsession ref hmem
    · obtain ⟨frame, hframe⟩ := h.present hbefore
      exact ⟨frame, hkept.frame hframe id⟩
  obtain ⟨frame, hframe⟩ := hstore
  exact ⟨frame, hrefills.frame_of_keeps href hframe⟩

/-- The frames that the fork of a session keeps are in the store. -/
theorem present_fork (h : before.Grounded) {origin : Session}
    (horigin : before.sessions.get? slot = some origin) :
    ∀ ref ∈ (origin.fork before.store).1.keeps,
      ∃ frame, (origin.fork before.store).2.frame? ref = some frame := by
  intro ref href
  rcases List.mem_cons.1 href with rfl | hmem
  · exact ⟨_, origin.frame?_fork_globals before.store⟩
  · obtain ⟨frame, hframe⟩ := h.present ⟨slot, origin, horigin, hmem⟩
    exact ⟨frame, (origin.framesKept_fork before.store fun _ => False).frame hframe id⟩

/-- The frames that handles keep stay in the store. -/
theorem answer (h : before.Grounded) (command : Command) :
    (before.answer command).2.Grounded := by
  have hrefl := FramesKept.refl (fun _ => False) before.store
  cases effect_answer h.distinct command with
  | steady hsteady =>
      refine ⟨hsteady.distinct h.distinct, fun href => ?_⟩
      obtain ⟨frame, hframe⟩ := h.present (hsteady.keeps_iff.1 href)
      obtain ⟨definitions, hgrown⟩ := hsteady.frames.grown hframe
      exact ⟨_, hgrown⟩
  | empties _ hsessions hstore =>
      refine ⟨hsessions ▸ h.distinct, fun {ref} href => ?_⟩
      have hbefore : before.Keeps ref := by
        rw [Keeps, hsessions] at href
        exact href
      obtain ⟨frame, hframe⟩ := h.present hbefore
      rcases hstore with heq | ⟨target, heq⟩
      · exact ⟨frame, heq ▸ hframe⟩
      · rw [heq, Store.frame?_clear, hframe]
        split
        · exact ⟨_, rfl⟩
        · exact ⟨_, rfl⟩
  | start horigins hfresh hkept hframe hrefills =>
      refine h.refills hkept hrefills fun session hsession ref href => ?_
      obtain rfl := Option.some.inj hsession
      rw [Session.keeps, horigins, List.mem_singleton] at href
      exact ⟨_, href ▸ hframe⟩
  | fork horigin hrefills =>
      refine h.refills (Session.framesKept_fork _ _ _) hrefills fun session hsession => ?_
      exact Option.some.inj hsession ▸ h.present_fork horigin
  | clone hclone hrefills =>
      refine h.refills hrefl hrefills fun session hsession ref href => ?_
      exact h.present ⟨_, _, hclone, Option.some.inj hsession ▸ href⟩
  | drop _ hrefills => exact h.refills hrefl hrefills fun _ hsession => by cases hsession

theorem answerAll (h : workspace.Grounded) (commands : List Command) :
    (workspace.answerAll commands).2.Grounded := by
  induction commands generalizing workspace with
  | nil => exact h
  | cons command rest ih => exact ih (h.answer command)

end Grounded

end Workspace

end SmallLisp
