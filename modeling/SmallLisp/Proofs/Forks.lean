import SmallLisp.Proofs.Effects

/-!
# Forks define names on their own

A fork starts with the bindings of its origin. Functions that it has copied still run in frames of
the origin, but what is run in a session defines names in the global frame of that session only. So
the bindings of either session are those at the moment of the fork with what was defined through
its own handles.

## Main results

* `Workspace.globalTable?_operation` — what one operation does to the bindings of any session.
* `Workspace.exists_definitions` — what many operations do.
* `Workspace.fork_and_origin_define_independently` — a fork and its origin.
-/

namespace SmallLisp.Workspace

variable {workspace before : Workspace} {slot other : String}

/-- The global bindings of the session in a slot. -/
def globalTable? (workspace : Workspace) (slot : String) : Option (Table Value) :=
  (workspace.sessions.get? slot).map fun session => workspace.store.table session.globals

/-- The handles in two slots are on the same session. -/
def SameSession (workspace : Workspace) (slot other : String) : Prop :=
  (workspace.sessions.get? slot).map Session.globals =
    (workspace.sessions.get? other).map Session.globals

instance (workspace : Workspace) (slot other : String) :
    Decidable (workspace.SameSession slot other) :=
  inferInstanceAs (Decidable (_ = _))

/-- The workspace after operations, each of them in the session in a slot. -/
def operate (workspace : Workspace) (operations : List (String × SessionCommand)) : Workspace :=
  (workspace.answerAll (operations.map fun operation => .session operation.1 operation.2)).2

/-! ### One operation -/

theorem globalTable?_eq {session : Session} {frame : Frame}
    (hsession : workspace.sessions.get? slot = some session)
    (hframe : workspace.store.frame? session.globals = some frame) :
    workspace.globalTable? slot = some frame.table := by
  rw [globalTable?, hsession, Option.map_some, Store.table, Store.frame, hframe, Option.getD_some]

theorem Steady.sameSession_iff {writable : FrameRef → Prop} {after : Workspace}
    (h : Steady writable before after) (slot other : String) :
    after.SameSession slot other ↔ before.SameSession slot other := by
  have hglobals : ∀ slot, (after.sessions.get? slot).map Session.globals =
      (before.sessions.get? slot).map Session.globals := by
    intro slot
    have hheads := congrArg (Option.map fun frames => frames.headD ⟨0, 0⟩) (h.handles slot)
    simpa [Option.map_map, Function.comp_def, Session.keeps] using hheads
  rw [SameSession, hglobals slot, hglobals other, SameSession]

/-- An operation writes to the global frame of the session it is run in. -/
theorem steady_operation {command : SessionCommand} (hoperation : command.isOperation = true)
    (workspace : Workspace) (slot : String) :
    workspace.Steady (fun ref => ∃ session, workspace.sessions.get? slot = some session ∧
      session.globals = ref) (workspace.answer (.session slot command)).2 := by
  rw [snd_answer]
  exact WorkM.Steadily.operation hoperation workspace fun session hsession =>
    ⟨session, hsession, rfl⟩

/-- **One operation** makes definitions in the session it is run in, and in no other one. -/
theorem globalTable?_operation (h : workspace.Grounded) {command : SessionCommand}
    (hoperation : command.isOperation = true) (other slot : String) :
    ∃ definitions, (¬workspace.SameSession other slot → definitions = []) ∧
      (workspace.answer (.session other command)).2.globalTable? slot =
        (workspace.globalTable? slot).map (·.insertAll definitions) := by
  have hsteady := steady_operation hoperation workspace other
  cases hsession : workspace.sessions.get? slot with
  | none =>
      have hnone := hsteady.handles slot
      rw [hsession, Option.map_none, Option.map_eq_none_iff] at hnone
      exact ⟨[], fun _ => rfl, by simp [globalTable?, hnone, hsession]⟩
  | some session =>
      obtain ⟨frame, hframe⟩ := h.present ⟨slot, session, hsession, List.mem_cons_self⟩
      obtain ⟨session', hsession', hkeeps⟩ := hsteady.exists_handle hsession
      have hglobals := Session.globals_eq_of_keeps_eq hkeeps
      rw [globalTable?_eq hsession hframe]
      by_cases hsame : workspace.SameSession other slot
      · obtain ⟨definitions, hgrown⟩ := hsteady.frames.grown hframe
        rw [← hglobals] at hgrown
        exact ⟨definitions, fun hnot => absurd hsame hnot, globalTable?_eq hsession' hgrown⟩
      · have hkept := hsteady.frames.frame hframe (by
          rintro ⟨owner, howner, heq⟩
          rw [SameSession, howner, hsession, Option.map_some, Option.map_some, heq] at hsame
          exact hsame rfl)
        rw [← hglobals] at hkept
        exact ⟨[], fun _ => rfl, globalTable?_eq hsession' hkept⟩

/-! ### Many operations -/

/-- **Many operations.** The bindings of a session at any time are those at the beginning with
the definitions that were made by the operations run in it. -/
theorem exists_definitions (h : workspace.Grounded) {operations : List (String × SessionCommand)}
    (hoperations : ∀ operation ∈ operations, operation.2.isOperation = true) (slot : String) :
    ∃ made : List (List (Symbol × Value)),
      List.Forall₂ (fun operation definitions =>
        ¬workspace.SameSession operation.1 slot → definitions = []) operations made ∧
      ∀ n, (workspace.operate (operations.take n)).globalTable? slot =
        (workspace.globalTable? slot).map (·.insertAll (made.take n).flatten) := by
  induction operations generalizing workspace with
  | nil => exact ⟨[], .nil, fun n => by simp [operate, answerAll]⟩
  | cons operation rest ih =>
      obtain ⟨hoperation, hrest⟩ := List.forall_mem_cons.1 hoperations
      obtain ⟨definitions, hnone, htable⟩ :=
        globalTable?_operation h hoperation operation.1 slot
      obtain ⟨made, hmade, htables⟩ := ih (h.answer (.session operation.1 operation.2)) hrest
      have hsteady := steady_operation hoperation workspace operation.1
      refine ⟨definitions :: made, .cons hnone (hmade.imp fun _ _ himp hnot =>
        himp fun hsame => hnot ((hsteady.sameSession_iff _ _).1 hsame)), fun n => ?_⟩
      cases n with
      | zero => simp [operate, answerAll]
      | succ n =>
          have hlater := htables n
          rw [htable, Option.map_map] at hlater
          simpa [operate, answerAll, Table.insertAll_append, Function.comp_def] using hlater

/-! ### Forks -/

/-- At the moment of the fork, both sessions have the bindings of the origin. -/
theorem globalTable?_fork (h : before.Grounded) (hne : slot ≠ other) {origin : Session}
    (horigin : before.sessions.get? slot = some origin) :
    ¬(before.answer (.session slot (.fork other))).2.SameSession slot other ∧
      (before.answer (.session slot (.fork other))).2.globalTable? slot =
        before.globalTable? slot ∧
      (before.answer (.session slot (.fork other))).2.globalTable? other =
        before.globalTable? slot := by
  have hrefills : Refills other (some (origin.fork before.store).1) (origin.fork before.store).2
      before (before.answer (.session slot (.fork other))).2 := by
    rw [snd_answer]
    exact (congrArg (fun outcome => Refills other (some (origin.fork before.store).1)
      (origin.fork before.store).2 before outcome.2)
        (SessionCommand.outcome_fork horigin other)).mpr
          (refills_putSession h.distinct other _ _ _)
  have hslot := (hrefills.others hne).trans horigin
  obtain ⟨frame, hframe⟩ := h.present ⟨slot, origin, horigin, List.mem_cons_self⟩
  have hkeepsOrigin := hrefills.keeps_of_other hne horigin List.mem_cons_self
  have hkeepsFork := hrefills.keeps_of_handle rfl List.mem_cons_self
  have hfresh := origin.frame?_globals_fork before.store
  have hcopied := origin.frame?_fork_globals before.store
  rw [Store.frame, hframe, Option.getD_some] at hcopied
  have hstays := (origin.framesKept_fork before.store fun _ => False).frame hframe id
  rw [globalTable?_eq horigin hframe]
  refine ⟨fun hsame => ?_, globalTable?_eq hslot (hrefills.frame_of_keeps hkeepsOrigin hstays),
    globalTable?_eq hrefills.filled (hrefills.frame_of_keeps hkeepsFork hcopied)⟩
  rw [SameSession, hslot, hrefills.filled, Option.map_some, Option.map_some] at hsame
  rw [← Option.some.inj hsame, hframe] at hfresh
  cases hfresh

/-- **A fork and its origin define names independently.** Sessions have been started, used, cloned,
forked and dropped in any way when one is forked. From then on anything is run in the sessions, in
any order and through any handles: texts, lines, files, forms and functions made before or after
the fork, expansions and registrations. The two are different sessions that begin with the same
bindings. In each of them, and in every other session, the bindings at any time are those at the
moment of the fork with the definitions made by the operations run in that session itself. -/
theorem fork_and_origin_define_independently (start : Workspace) (hstart : start.sessions = [])
    (history : List Command) {origin copy : String} (hne : origin ≠ copy) {session : Session}
    (hsession : (start.answerAll history).2.sessions.get? origin = some session)
    (operations : List (String × SessionCommand))
    (hoperations : ∀ operation ∈ operations, operation.2.isOperation = true) :
    let before := (start.answerAll history).2
    let forked := (before.answer (.session origin (.fork copy))).2
    ¬forked.SameSession origin copy ∧
      forked.globalTable? origin = before.globalTable? origin ∧
      forked.globalTable? copy = before.globalTable? origin ∧
      ∀ slot, ∃ made : List (List (Symbol × Value)),
        List.Forall₂ (fun operation definitions =>
          ¬forked.SameSession operation.1 slot → definitions = []) operations made ∧
        ∀ n, (forked.operate (operations.take n)).globalTable? slot =
          (forked.globalTable? slot).map (·.insertAll (made.take n).flatten) := by
  intro before forked
  have hbefore : before.Grounded := (Grounded.of_sessions_eq_nil hstart).answerAll history
  obtain ⟨hapart, horigin, hcopy⟩ := globalTable?_fork hbefore hne hsession
  exact ⟨hapart, horigin, hcopy, exists_definitions (hbefore.answer _) hoperations⟩

/-- A session with a function that defines `x` by way of the native `eval`. -/
def settable : List Command :=
  [.session "a" (.start 50 []),
   .session "a" (.evalLast "(def x 1) (defun set-x (v) (eval (list 'def 'x v)))" none)]

/-- Operations in that session, in slot `a`, and in its fork, in slot `b`. -/
def divergence : List (String × SessionCommand) :=
  [("b", .evalLast "(set-x 2)" none), ("a", .register "f" (.host .first)),
   ("b", .evalLine "(def y x)")]

/-- The function of the origin is called in the fork, and `x` is defined there only. -/
theorem fork_and_origin_define_independently_settable :
    let before := (answerAll { census := none, fuel := 100 } settable).2
    let forked := (before.answer (.session "a" (.fork "b"))).2
    let meaning := fun slot name =>
      ((forked.operate divergence).globalTable? slot).bind (·.lookup (.ofString name))
    (meaning "a" "x" = some (.integer 1) ∧ meaning "b" "x" = some (.integer 2) ∧
      meaning "a" "y" = none ∧ meaning "b" "y" = some (.integer 2) ∧
      (meaning "a" "f").isSome = true ∧ meaning "b" "f" = none) ∧
      ¬forked.SameSession "a" "b" ∧
      ∃ made : List (List (Symbol × Value)),
        List.Forall₂ (fun operation definitions =>
          ¬forked.SameSession operation.1 "a" → definitions = []) divergence made ∧
        ∀ n, (forked.operate (divergence.take n)).globalTable? "a" =
          (forked.globalTable? "a").map (·.insertAll (made.take n).flatten) := by
  intro before forked meaning
  have hmeanings : meaning "a" "x" = some (.integer 1) ∧ meaning "b" "x" = some (.integer 2) ∧
      meaning "a" "y" = none ∧ meaning "b" "y" = some (.integer 2) ∧
      (meaning "a" "f").isSome = true ∧ meaning "b" "f" = none := by
    decide +kernel
  have hstarted : (before.sessions.get? "a").isSome = true := by decide +kernel
  obtain ⟨session, hsession⟩ := Option.isSome_iff_exists.1 hstarted
  obtain ⟨hapart, -, -, hmade⟩ := fork_and_origin_define_independently
    { census := none, fuel := 100 } rfl settable (by decide : "a" ≠ "b") hsession divergence
    (by decide)
  exact ⟨hmeanings, hapart, hmade "a"⟩

end SmallLisp.Workspace
