import SmallLisp.Proofs.SharedSession
import SmallLisp.Proofs.Replies

/-!
# Sessions do not interfere

Sessions that were started independently share a store, but each has an arena of its own there. What
one of them does leaves all that another one has as it was. So a session cannot tell whether the
others are called: it answers the same if all calls but its own are left out.

The two runs are compared step by step. The session looked at is the same in both, with a twin of
stores in its arena; every session has such a twin of each store with itself, and therefore touches
nothing but its arena.

## Main results

* `Beside.call`, `Beside.start` — a session answers the same in both workspaces.
* `Beside.frame` — what another session does cannot be noticed.
* `Workspace.sessions_do_not_interfere` — a session answers the same without the calls of others.
-/

namespace SmallLisp

namespace Store

theorem find?_of_size_le {store : Store} {item : Item} (h : store.arenas.size ≤ item.arena) :
    store.find? item = none :=
  Option.not_isSome_iff_eq_none.1 fun hsome => Nat.not_lt.2 h (arena_lt_size hsome)

theorem size_clearAll (frames : List FrameRef) (store : Store) :
    (frames.foldl clear store).arenas.size = store.arenas.size := by
  induction frames generalizing store with
  | nil => rfl
  | cons frame rest ih => exact (ih _).trans Array.size_modify

theorem find?_clearAll {frames : List FrameRef} {item : Item}
    (h : ∀ frame ∈ frames, item.arena ≠ frame.arena) (store : Store) :
    (frames.foldl clear store).find? item = store.find? item := by
  induction frames generalizing store with
  | nil => rfl
  | cons frame rest ih =>
      obtain ⟨hframe, hrest⟩ := List.forall_mem_cons.1 h
      rw [List.foldl_cons, ih hrest, find?, find?, clear, modifyTable, modifyArena,
        Array.getElem?_modify, if_neg hframe.symm]

end Store

/-- Two stores in the arena that either will get next. -/
def Twin.ahead (left right : Store) (hsize : left.arenas.size = right.arenas.size) :
    Twin (· = left.arenas.size) where
  left := left
  right := right
  census := none
  intact _ := False
  agree _ h := h.elim
  closed _ h := h.elim
  chained _ h := h.elim
  present h := h.elim
  shared h := h.elim
  same h := by
    rw [Store.find?_of_size_le (Nat.le_of_eq h.symm),
      Store.find?_of_size_le (Nat.le_of_eq (hsize.symm.trans h.symm))]
  size_eq := hsize
  listed _ h := nomatch h

/-! ### Starting a session -/

namespace Workspace

variable {slot : String} {workspace left right : Workspace}

/-- What the session in a slot keeps is in one arena. -/
def Settled (workspace : Workspace) (slot : String) : Prop :=
  ∀ session, workspace.sessions.get? slot = some session →
    session.arena < workspace.store.arenas.size ∧ session.origins = []

theorem putSession_eq (workspace : Workspace) (slot : String) (session : Session) :
    ∃ store, workspace.putSession slot session =
        { workspace with store, sessions := workspace.sessions.put slot session } ∧
      store.arenas.size = workspace.store.arenas.size ∧
      ∀ item : Item, (∀ old, workspace.sessions.get? slot = some old →
        ∀ frame ∈ old.keeps, item.arena ≠ frame.arena) →
        store.find? item = workspace.store.find? item := by
  rw [putSession]
  cases hold : workspace.sessions.get? slot with
  | none => exact ⟨workspace.store, rfl, rfl, fun _ _ => rfl⟩
  | some old =>
      refine ⟨_, rfl, Store.size_clearAll _ _, fun item hitem => Store.find?_clearAll ?_ _⟩
      exact fun frame hframe => hitem old rfl frame (List.mem_filter.1 hframe).1

section

variable {maxDepth : Nat} {preload : List String} {session : Session} {store : Store}

theorem answer_start_ok (h : Session.start workspace.fuel workspace.files maxDepth preload
      workspace.held workspace.store workspace.census = (.ok (), session, store, workspace.census))
    (slot : String) :
    workspace.answer (.session slot (.start maxDepth preload)) =
      (.done, { workspace with store }.putSession slot session) := by
  have houtcome : (Command.session slot (.start maxDepth preload)).perform.outcome workspace =
      (.ok .done, { workspace with store }.putSession slot session) :=
    WorkM.outcome_bind_ok (WorkM.outcome_startSession_ok h slot) _
  exact answer_eq houtcome

theorem answer_start_error {halt : Halt} (h : Session.start workspace.fuel workspace.files maxDepth
      preload workspace.held workspace.store workspace.census =
      (.error halt, session, store, workspace.census)) (slot : String) :
    workspace.answer (.session slot (.start maxDepth preload)) =
      (.refused (.ofHalt halt), workspace) := by
  have houtcome : (Command.session slot (.start maxDepth preload)).perform.outcome workspace =
      (.error (.ofHalt halt), workspace) :=
    WorkM.outcome_bind_error (WorkM.outcome_startSession_error h slot) _
  exact answer_eq houtcome

end

/-- Neither workspace is ahead of the other: they have as many arenas, and the same files. -/
structure Level (left right : Workspace) : Prop where
  files_eq : right.files = left.files
  fuel_eq : right.fuel = left.fuel
  size_eq : left.store.arenas.size = right.store.arenas.size
  left_census : left.census = none
  right_census : right.census = none

/-- A session that has just been started in the next arena of both workspaces. -/
structure Starts (left right : Workspace) (session : Session)
    (w : Twin (· = left.store.arenas.size)) : Prop where
  uncounted : w.census = none
  size : w.left.arenas.size = left.store.arenas.size + 1
  elsewhere {item : Item} : item.arena ≠ left.store.arenas.size →
    w.left.find? item = left.store.find? item ∧ w.right.find? item = right.store.find? item
  arena_eq : session.arena = left.store.arenas.size
  globals : w.intact (.frame session.globals)
  origins : session.origins = []
  discreet : session.natives.Discreet

/-- **A session starts the same** in both workspaces, or in neither. -/
theorem Level.start (h : Level left right) (slot : String) (maxDepth : Nat)
    (preload : List String) :
    (∃ reply, left.answer (.session slot (.start maxDepth preload)) = (reply, left) ∧
      right.answer (.session slot (.start maxDepth preload)) = (reply, right)) ∨
    ∃ session w, left.Starts right session w ∧
      left.answer (.session slot (.start maxDepth preload)) =
        (.done, { left with store := w.left }.putSession slot session) ∧
      right.answer (.session slot (.start maxDepth preload)) =
        (.done, { right with store := w.right }.putSession slot session) := by
  obtain ⟨result, session, w₁, w, hleft, hright, hopens, hleads, hnatives, horigins⟩ :=
    Session.start_agrees (Twin.ahead left.store right.store h.size_eq) rfl left.fuel left.files
      maxDepth preload right.held (fun _ hitem => absurd hitem List.not_mem_nil)
      (fun hsome => nomatch hsome : _ → left.held = [])
  have hnone : w.census = none := hleads.toMoves.census_eq_none hopens.census_eq
  have hleft' : Session.start left.fuel left.files maxDepth preload left.held left.store
      left.census = (result, session, w.left, left.census) := by
    rw [h.left_census]
    rw [hnone] at hleft
    exact hleft
  have hright' : Session.start right.fuel right.files maxDepth preload right.held right.store
      right.census = (result, session, w.right, right.census) := by
    rw [h.fuel_eq, h.files_eq, h.right_census]
    exact hright
  cases result with
  | error halt =>
      exact .inl ⟨.refused (.ofHalt halt), answer_start_error hleft' slot,
        answer_start_error hright' slot⟩
  | ok =>
      refine .inr ⟨session, w, ⟨hnone, ?_, fun hne => ?_, hopens.arena_eq, ?_, horigins,
        hnatives ▸ Session.primitives_hosts _⟩, answer_start_ok hleft' slot,
        answer_start_ok hright' slot⟩
      · rw [hleads.size, hopens.size]
        rfl
      · exact ⟨(hleads.outside hne).1.trans (hopens.outside hne).1,
          (hleads.outside hne).2.trans (hopens.outside hne).2⟩
      · exact hleads.rooted List.mem_cons_self (hopens.keeps _ List.mem_cons_self)

theorem Settled.keeps_arena (h : workspace.Settled slot) {session : Session}
    (hsession : workspace.sessions.get? slot = some session) {frame : FrameRef}
    (hframe : frame ∈ session.keeps) : frame.arena = session.arena := by
  rw [Session.keeps, (h session hsession).2, List.mem_singleton] at hframe
  rw [hframe, Session.arena]

theorem Settled.keeps_ne (h : workspace.Settled slot) {item : Item}
    (hge : workspace.store.arenas.size ≤ item.arena) (old : Session)
    (hold : workspace.sessions.get? slot = some old) (frame : FrameRef)
    (hframe : frame ∈ old.keeps) : item.arena ≠ frame.arena := by
  have hlt := (h old hold).1
  rw [h.keeps_arena hold hframe]
  omega

/-- A session that starts in a new arena touches nothing but what the slot held before. -/
theorem Settled.touches_putSession (h : workspace.Settled slot) {session : Session} {store : Store}
    (hsize : workspace.store.arenas.size ≤ store.arenas.size)
    (helsewhere : ∀ {item : Item}, item.arena < workspace.store.arenas.size →
      store.find? item = workspace.store.find? item)
    (harena : workspace.store.arenas.size ≤ session.arena) :
    workspace.Touches slot ({ workspace with store }.putSession slot session) := by
  obtain ⟨store', heq, hsize', hfind⟩ := putSession_eq { workspace with store } slot session
  rw [heq]
  refine ⟨Slots.get?_put_of_ne, rfl, rfl, rfl, hsize'.symm ▸ hsize, fun {item} hlt hne => ?_,
    fun {other} hother => ?_⟩
  · refine (hfind item fun old hold frame hframe => ?_).trans (helsewhere hlt)
    rw [h.keeps_arena hold hframe]
    exact hne old hold
  · cases (Slots.get?_put_self _ _ _).symm.trans hother
    exact .inr harena

end Workspace

namespace SessionCommand

theorem eq_start {command : SessionCommand} (h : command.isStart = true) :
    ∃ maxDepth preload, command = .start maxDepth preload := by
  cases command with
  | start maxDepth preload => exact ⟨maxDepth, preload, rfl⟩
  | _ => exact nomatch h

theorem isStart_of_isCall {command : SessionCommand} (h : command.isCall = true) :
    command.isStart = false := by
  cases command with
  | start => exact nomatch h
  | _ => rfl

theorem outcome_of_empty {slot : String} {command : SessionCommand}
    (hcall : command.isCall = true) {workspace : Workspace}
    (h : workspace.sessions.get? slot = none) :
    (Command.session slot command).perform.outcome workspace =
      (.error (.emptySlot slot), workspace) := by
  have hget : (get : WorkM Workspace).outcome workspace = (.ok workspace, workspace) := rfl
  rw [Command.perform, perform, WorkM.outcome_bind_ok hget]
  cases command with
  | eval | evalLast | evalLine =>
      exact WorkM.outcome_bind_error (WorkM.outcome_evaluate_none h _) _
  | load =>
      exact (WorkM.outcome_bind_ok hget _).trans
        (WorkM.outcome_bind_error (WorkM.outcome_evaluate_none h _) _)
  | expand | symbols | depth | register =>
      exact WorkM.outcome_bind_error (WorkM.outcome_slot_none h) _
  | _ => exact nomatch hcall

end SessionCommand

/-! ### One session in two runs -/

open Workspace

/-- Two workspaces in which the session in a slot cannot tell one from the other. -/
structure Beside (slot : String) (left right : Workspace) : Prop extends Level left right where
  session_eq : right.sessions.get? slot = left.sessions.get? slot
  neighbours {session : Session} : left.sessions.get? slot = some session →
    ∃ n : Neighbours slot session.arena, n.left = left ∧ n.right = right

theorem Neighbours.beside {slot : String} {arena : Nat} (n : Neighbours slot arena) :
    Beside slot n.left n.right where
  files_eq := n.files_eq
  fuel_eq := n.fuel_eq
  size_eq := by rw [n.holdsLeft.store_eq, n.holdsRight.store_eq, n.twin.size_eq]
  left_census := n.holdsLeft.census_eq
  right_census := n.holdsRight.census_eq
  session_eq := n.holdsRight.session_eq.trans n.holdsLeft.session_eq.symm
  neighbours {session} hsession := by
    obtain rfl : n.session = session := Option.some.inj (n.holdsLeft.session_eq.symm.trans hsession)
    rw [n.arena_eq]
    exact ⟨n, rfl, rfl⟩

namespace Beside

variable {slot other : String} {left right left' right' : Workspace}

theorem settled_left (h : Beside slot left right) : left.Settled slot := by
  intro session hsession
  obtain ⟨n, rfl, rfl⟩ := h.neighbours hsession
  have heq : n.session = session := Option.some.inj (n.holdsLeft.session_eq.symm.trans hsession)
  have hlt := n.isOpen.2
  have horigins := n.origins
  rw [heq] at hlt horigins
  exact ⟨n.holdsLeft.store_eq.symm ▸ hlt, horigins⟩

theorem settled_right (h : Beside slot left right) : right.Settled slot := by
  intro session hsession
  rw [h.session_eq] at hsession
  obtain ⟨hlt, horigins⟩ := h.settled_left session hsession
  exact ⟨h.size_eq ▸ hlt, horigins⟩

/-- A session that has just been started. -/
theorem of_starts (h : Level left right) (hleft : left.Settled slot) (hright : right.Settled slot)
    {session : Session} {w : Twin (· = left.store.arenas.size)}
    (hstarts : left.Starts right session w) :
    Beside slot ({ left with store := w.left }.putSession slot session)
      ({ right with store := w.right }.putSession slot session) := by
  obtain ⟨store, heq, hsize, hfind⟩ := putSession_eq { left with store := w.left } slot session
  obtain ⟨store', heq', hsize', hfind'⟩ :=
    putSession_eq { right with store := w.right } slot session
  let n : Neighbours slot left.store.arenas.size := {
    left := { left with store, sessions := left.sessions.put slot session }
    right := { right with store := store', sessions := right.sessions.put slot session }
    session
    twin := w.transport
      (fun item hitem => hfind item (hleft.keeps_ne (Nat.le_of_eq hitem.symm)))
      (fun item hitem => hfind' item
        (hright.keeps_ne (Nat.le_of_eq (h.size_eq.symm.trans hitem.symm))))
      (hsize.trans (w.size_eq.trans hsize'.symm)) (.inl hstarts.uncounted)
    holdsLeft := ⟨Slots.get?_put_self _ _ _, rfl, h.left_census⟩
    holdsRight := ⟨Slots.get?_put_self _ _ _, rfl, h.right_census⟩
    uncounted := hstarts.uncounted
    files_eq := h.files_eq
    fuel_eq := h.fuel_eq
    arena_eq := hstarts.arena_eq
    globals := hstarts.globals
    origins := hstarts.origins
    discreet := hstarts.discreet }
  rw [heq, heq']
  exact n.beside

/-- **Starting a session** in two workspaces gets the same reply, touches nothing but the slot, and
leaves a session that cannot tell one from the other. -/
theorem start (h : Level left right) (hleft : left.Settled slot) (hright : right.Settled slot)
    (maxDepth : Nat) (preload : List String) :
    ∃ reply left' right',
      left.answer (.session slot (.start maxDepth preload)) = (reply, left') ∧
      right.answer (.session slot (.start maxDepth preload)) = (reply, right') ∧
      left.Touches slot left' ∧ right.Touches slot right' ∧ Level left' right' ∧
      (Beside slot left right → Beside slot left' right') := by
  rcases h.start slot maxDepth preload with ⟨reply, hl, hr⟩ | ⟨session, w, hstarts, hl, hr⟩
  · exact ⟨reply, left, right, hl, hr, .refl slot left, .refl slot right, h, id⟩
  · have hbeside := of_starts h hleft hright hstarts
    have hsize := hstarts.size
    have hsize' := h.size_eq
    have hsize'' := w.size_eq
    refine ⟨.done, _, _, hl, hr, ?_, ?_, hbeside.toLevel, fun _ => hbeside⟩
    · refine hleft.touches_putSession (by omega) (fun hlt => ?_) ?_
      · exact (hstarts.elsewhere (Nat.ne_of_lt hlt)).1
      · exact Nat.le_of_eq hstarts.arena_eq.symm
    · refine hright.touches_putSession (by omega) (fun hlt => ?_) ?_
      · exact (hstarts.elsewhere (Nat.ne_of_lt (hsize'.symm ▸ hlt))).2
      · exact Nat.le_of_eq (hsize'.symm.trans hstarts.arena_eq.symm)

/-- **A call of the session** gets the same reply in both workspaces and touches nothing else. -/
theorem call (h : Beside slot left right) {command : SessionCommand}
    (hcall : command.isCall = true) (hdiscreet : (Command.session slot command).Discreet) :
    ∃ reply left' right', left.answer (.session slot command) = (reply, left') ∧
      right.answer (.session slot command) = (reply, right') ∧
      left.Touches slot left' ∧ right.Touches slot right' ∧ Beside slot left' right' ∧
      left'.store.arenas.size = left.store.arenas.size := by
  cases hsession : left.sessions.get? slot with
  | none =>
      exact ⟨_, left, right, answer_eq (SessionCommand.outcome_of_empty hcall hsession),
        answer_eq (SessionCommand.outcome_of_empty hcall (h.session_eq.trans hsession)),
        .refl slot left, .refl slot right, h, rfl⟩
  | some session =>
      obtain ⟨n, rfl, rfl⟩ := h.neighbours hsession
      have hinStep : (neighbouring slot session.arena).InStep n (fun _ _ => True)
          (Command.session slot command).perform := n.call hcall hdiscreet
      obtain ⟨reply, n', hl, hr, hleft, hright, hsize⟩ := hinStep.answer
      exact ⟨reply, n'.left, n'.right, hl, hr, hleft, hright, n'.beside, hsize⟩

/-- **What another session does** cannot be noticed. -/
theorem frame (h : Beside slot left right) (hne : slot ≠ other) (hleft : left.Touches other left')
    (hright : right.Touches other right') (hlevel : Level left' right')
    (hapart : ∀ {own foreign}, left.sessions.get? slot = some own →
      left.sessions.get? other = some foreign → own.arena ≠ foreign.arena)
    (hapart' : ∀ {own foreign}, right.sessions.get? slot = some own →
      right.sessions.get? other = some foreign → own.arena ≠ foreign.arena) :
    Beside slot left' right' where
  toLevel := hlevel
  session_eq := by rw [hright.others hne, hleft.others hne, h.session_eq]
  neighbours {session} hsession := by
    rw [hleft.others hne] at hsession
    have hsession' := h.session_eq.trans hsession
    have hlt := (h.settled_left session hsession).1
    have hlt' := (h.settled_right session hsession').1
    obtain ⟨n, rfl, rfl⟩ := h.neighbours hsession
    have heq : n.session = session := Option.some.inj (n.holdsLeft.session_eq.symm.trans hsession)
    refine ⟨{ n with
      left := left'
      right := right'
      twin := n.twin.transport (fun item hitem => ?_) (fun item hitem => ?_) hlevel.size_eq
        (.inl n.uncounted)
      holdsLeft := ⟨(hleft.others hne).trans n.holdsLeft.session_eq, rfl, hlevel.left_census⟩
      holdsRight := ⟨(hright.others hne).trans n.holdsRight.session_eq, rfl, hlevel.right_census⟩
      files_eq := hlevel.files_eq
      fuel_eq := hlevel.fuel_eq }, rfl, rfl⟩
    · rw [← n.holdsLeft.store_eq]
      refine hleft.elsewhere (hitem.symm ▸ hlt) fun foreign hforeign => ?_
      exact hitem.symm ▸ hapart hsession hforeign
    · rw [← n.holdsRight.store_eq]
      refine hright.elsewhere (hitem.symm ▸ hlt') fun foreign hforeign => ?_
      exact hitem.symm ▸ hapart' hsession' hforeign

theorem step (h : Beside slot left right) {command : SessionCommand}
    (hkind : command.isStart = true ∨ command.isCall = true)
    (hdiscreet : (Command.session slot command).Discreet) :
    ∃ reply left' right', left.answer (.session slot command) = (reply, left') ∧
      right.answer (.session slot command) = (reply, right') ∧
      left.Touches slot left' ∧ Beside slot left' right' := by
  rcases hkind with hstart | hcall
  · obtain ⟨maxDepth, preload, rfl⟩ := SessionCommand.eq_start hstart
    obtain ⟨reply, left', right', hl, hr, htouches, -, -, hbeside⟩ :=
      Beside.start h.toLevel h.settled_left h.settled_right maxDepth preload
    exact ⟨reply, left', right', hl, hr, htouches, hbeside h⟩
  · obtain ⟨reply, left', right', hl, hr, htouches, -, hbeside, -⟩ := h.call hcall hdiscreet
    exact ⟨reply, left', right', hl, hr, htouches, hbeside⟩

end Beside

/-! ### All sessions of a workspace -/

/-- Each session has an arena of its own, and all that it reaches is in there. -/
structure Separate (workspace : Workspace) : Prop where
  beside (slot : String) : Beside slot workspace workspace
  apart {slot other : String} {own foreign : Session} : slot ≠ other →
    workspace.sessions.get? slot = some own → workspace.sessions.get? other = some foreign →
    own.arena ≠ foreign.arena

namespace Separate

variable {slot other : String} {workspace after : Workspace}

theorem step (h : Separate workspace) (htouches : workspace.Touches slot after)
    (hbeside : Beside slot after after) : Separate after := by
  -- The session in the slot is where it was or in a new arena; no other session is there.
  have hslot : ∀ {other : String} {own foreign : Session}, other ≠ slot →
      after.sessions.get? slot = some own → after.sessions.get? other = some foreign →
      own.arena ≠ foreign.arena := by
    intro other own foreign hne hown hforeign
    rw [htouches.others hne] at hforeign
    rcases htouches.arena hown with ⟨old, hold, heq⟩ | hge
    · exact heq.symm ▸ h.apart hne.symm hold hforeign
    · have hlt := ((h.beside other).settled_left foreign hforeign).1
      omega
  refine ⟨fun other => ?_, fun {first second own foreign} hne hown hforeign => ?_⟩
  · by_cases heq : other = slot
    · exact heq ▸ hbeside
    · exact (h.beside other).frame heq htouches htouches hbeside.toLevel (h.apart heq) (h.apart heq)
  · by_cases hfirst : first = slot
    · subst hfirst
      exact hslot hne.symm hown hforeign
    · by_cases hsecond : second = slot
      · subst hsecond
        exact (hslot hne hforeign hown).symm
      · rw [htouches.others hfirst] at hown
        rw [htouches.others hsecond] at hforeign
        exact h.apart hne hown hforeign

theorem answer (h : Separate workspace) {command : SessionCommand}
    (hkind : command.isStart = true ∨ command.isCall = true)
    (hdiscreet : (Command.session slot command).Discreet) {reply : Reply}
    (hanswer : workspace.answer (.session slot command) = (reply, after)) : Separate after := by
  obtain ⟨reply', first, second, hfirst, hsecond, htouches, hbeside⟩ :=
    (h.beside slot).step hkind hdiscreet
  cases hanswer.symm.trans hfirst
  cases hanswer.symm.trans hsecond
  exact h.step htouches hbeside

end Separate

/-! ### Two runs -/

/-- One session is the same in both workspaces, and both keep their sessions apart. -/
structure Apart (slot : String) (left right : Workspace) : Prop where
  separateLeft : Separate left
  separateRight : Separate right
  beside : Beside slot left right

namespace Apart

variable {slot other : String} {left right left' right' : Workspace} {command : SessionCommand}

/-- The session is addressed in both runs. -/
theorem own (h : Apart slot left right) (hkind : command.isStart = true ∨ command.isCall = true)
    (hdiscreet : (Command.session slot command).Discreet) :
    ∃ reply left' right', left.answer (.session slot command) = (reply, left') ∧
      right.answer (.session slot command) = (reply, right') ∧ Apart slot left' right' := by
  obtain ⟨reply, left', right', hl, hr, -, hbeside⟩ := h.beside.step hkind hdiscreet
  exact ⟨reply, left', right', hl, hr, h.separateLeft.answer hkind hdiscreet hl,
    h.separateRight.answer hkind hdiscreet hr, hbeside⟩

/-- Another session is started in both runs. -/
theorem start (h : Apart slot left right) (hne : slot ≠ other) (maxDepth : Nat)
    (preload : List String) :
    Apart slot (left.answer (.session other (.start maxDepth preload))).2
      (right.answer (.session other (.start maxDepth preload))).2 := by
  obtain ⟨reply, left', right', hl, hr, hleft, hright, hlevel, -⟩ :=
    Beside.start h.beside.toLevel (h.separateLeft.beside other).settled_left
      (h.separateRight.beside other).settled_left maxDepth preload
  have hdiscreet : (Command.session other (.start maxDepth preload)).Discreet := trivial
  refine ⟨h.separateLeft.answer (.inl rfl) hdiscreet rfl,
    h.separateRight.answer (.inl rfl) hdiscreet rfl, ?_⟩
  rw [hl, hr]
  exact h.beside.frame hne hleft hright hlevel (h.separateLeft.apart hne)
    (h.separateRight.apart hne)

/-- Another session is called in one run only. -/
theorem call (h : Apart slot left right) (hne : slot ≠ other) (hcall : command.isCall = true)
    (hdiscreet : (Command.session other command).Discreet) :
    Apart slot (left.answer (.session other command)).2 right := by
  obtain ⟨reply, left', _, hl, -, hleft, -, -, hsize⟩ :=
    (h.separateLeft.beside other).call hcall hdiscreet
  refine ⟨h.separateLeft.answer (.inr hcall) hdiscreet rfl, h.separateRight, ?_⟩
  rw [hl]
  refine h.beside.frame hne hleft (.refl other right) ⟨?_, ?_, ?_, ?_, h.beside.right_census⟩
    (h.separateLeft.apart hne) (h.separateRight.apart hne)
  · rw [hleft.files_eq, h.beside.files_eq]
  · rw [hleft.fuel_eq, h.beside.fuel_eq]
  · rw [hsize, h.beside.size_eq]
  · rw [hleft.census_eq, h.beside.left_census]

end Apart

namespace Workspace

/-- The replies to the commands for one slot, among commands given one after the other. -/
def repliesTo (workspace : Workspace) (slot : String)
    (commands : List (String × SessionCommand)) : List Reply :=
  let replies := (workspace.answerAll (commands.map fun entry => .session entry.1 entry.2)).1
  ((commands.zip replies).filter (·.1.1 = slot)).map (·.2)

theorem repliesTo_cons_self (workspace : Workspace) (slot : String) (command : SessionCommand)
    (rest : List (String × SessionCommand)) :
    workspace.repliesTo slot ((slot, command) :: rest) =
      (workspace.answer (.session slot command)).1 ::
        (workspace.answer (.session slot command)).2.repliesTo slot rest := by
  simp [repliesTo, answerAll]

theorem repliesTo_cons_of_ne (workspace : Workspace) {slot other : String} (hne : slot ≠ other)
    (command : SessionCommand) (rest : List (String × SessionCommand)) :
    workspace.repliesTo slot ((other, command) :: rest) =
      (workspace.answer (.session other command)).2.repliesTo slot rest := by
  simp [repliesTo, answerAll, hne.symm]

/-- Without the calls of the other sessions, a session answers the same. -/
theorem repliesTo_of_apart {slot : String} {left right : Workspace} (h : Apart slot left right)
    {commands : List (String × SessionCommand)}
    (hkinds : ∀ entry ∈ commands, entry.2.isStart = true ∨ entry.2.isCall = true)
    (hdiscreet : ∀ entry ∈ commands, (Command.session entry.1 entry.2).Discreet) :
    left.repliesTo slot commands = right.repliesTo slot
      (commands.filter fun entry => entry.1 = slot || entry.2.isStart) := by
  induction commands generalizing left right with
  | nil => rfl
  | cons entry rest ih =>
      obtain ⟨other, command⟩ := entry
      obtain ⟨hkind, hrest⟩ := List.forall_mem_cons.1 hkinds
      obtain ⟨hcommand, hrest'⟩ := List.forall_mem_cons.1 hdiscreet
      by_cases heq : other = slot
      · subst heq
        obtain ⟨reply, left', right', hl, hr, happart⟩ := h.own hkind hcommand
        rw [List.filter_cons_of_pos (by simp), repliesTo_cons_self, repliesTo_cons_self, hl, hr]
        exact congrArg (reply :: ·) (ih happart hrest hrest')
      · rw [repliesTo_cons_of_ne left (Ne.symm heq)]
        rcases hkind with hstart | hcall
        · obtain ⟨maxDepth, preload, rfl⟩ := SessionCommand.eq_start hstart
          rw [List.filter_cons_of_pos (by simp [hstart]), repliesTo_cons_of_ne right (Ne.symm heq)]
          exact ih (h.start (Ne.symm heq) maxDepth preload) hrest hrest'
        · have hnot : command.isStart = false := SessionCommand.isStart_of_isCall hcall
          rw [List.filter_cons_of_neg (by simp [heq, hnot])]
          exact ih (h.call (Ne.symm heq) hcall hcommand) hrest hrest'

/-- In a workspace in which no frame is released, a session answers the same. -/
theorem repliesTo_uncounted (files : Files) (slot : String)
    {commands : List (String × SessionCommand)}
    (hdiscreet : ∀ entry ∈ commands, (Command.session entry.1 entry.2).Discreet) :
    repliesTo { files } slot commands = repliesTo { files, census := none } slot commands := by
  have hreplies := (Mirror.start files HostFunction.Discreet fun _ h => h).answerAll
    (List.forall_mem_map.2 hdiscreet) (List.forall_mem_map.2 fun _ _ => rfl)
  exact congrArg (fun replies => ((commands.zip replies).filter (·.1.1 = slot)).map (·.2)) hreplies

theorem apart_start (files : Files) (slot : String) :
    Apart slot { files, census := none } { files, census := none } := by
  have hbeside : ∀ slot, Beside slot { files, census := none } { files, census := none } :=
    fun _ => ⟨⟨rfl, rfl, rfl, rfl, rfl⟩, rfl, fun h => nomatch h⟩
  have hseparate : Separate { files, census := none } := ⟨hbeside, fun _ h => nomatch h⟩
  exact ⟨hseparate, hseparate, hbeside slot⟩

/-- **Sessions do not interfere.** Sessions are started and called in any order, in any slots. In
each slot the replies are the same as if only the sessions in that slot were called, with the others
started but left alone. -/
theorem sessions_do_not_interfere (files : Files) (slot : String)
    (commands : List (String × SessionCommand))
    (hkinds : ∀ entry ∈ commands, entry.2.isStart = true ∨ entry.2.isCall = true)
    (hdiscreet : ∀ entry ∈ commands, (Command.session entry.1 entry.2).Discreet) :
    repliesTo { files } slot commands = repliesTo { files } slot
      (commands.filter fun entry => entry.1 = slot || entry.2.isStart) := by
  have hkept : ∀ {P : String × SessionCommand → Prop}, (∀ entry ∈ commands, P entry) →
      ∀ entry ∈ commands.filter (fun entry => entry.1 = slot || entry.2.isStart), P entry :=
    fun h entry hentry => h entry (List.mem_filter.1 hentry).1
  rw [repliesTo_uncounted files slot hdiscreet, repliesTo_uncounted files slot (hkept hdiscreet)]
  exact repliesTo_of_apart (apart_start files slot) hkinds hdiscreet

/-- Two sessions that define the same names. -/
def interleaved : List (String × SessionCommand) :=
  [("a", .start 10 []), ("b", .start 10 []), ("a", .evalLast "(def x 1)" none),
   ("b", .register "f" (.host .first)), ("b", .evalLast "(def x (f 2))" none),
   ("b", .evalLine "(set-car! x)"), ("a", .evalLast "x" none), ("a", .symbols)]

theorem sessions_do_not_interfere_interleaved :
    repliesTo {} "a" interleaved = repliesTo {} "a"
      [("a", .start 10 []), ("b", .start 10 []), ("a", .evalLast "(def x 1)" none),
       ("a", .evalLast "x" none), ("a", .symbols)] := by
  have hdiscreet : ∀ entry ∈ interleaved, (Command.session entry.1 entry.2).Discreet := by
    simpa [interleaved, Command.Hosts] using HostFunction.discreet_first
  exact sessions_do_not_interfere _ "a" interleaved (by decide) hdiscreet

end Workspace

end SmallLisp
