import Mathlib.Logic.Relation
import SmallLisp.Proofs.Effects

/-!
# How long globals live

A session descends from the sessions it was forked from, directly or over several forks. Its
globals are in use as long as a slot holds a handle on the session or on one that descends from it:
only then can anyone run in them. They are cleared by the command that ends this, by dropping a
handle or by putting another one in its slot, and by no other.

The frames that a handle keeps are recorded in the handle when a session is forked. That these are
the frames of the sessions it descends from is the invariant that carries the proof.

## Main results

* `Workspace.Traced.answer` — a handle keeps the frames of the sessions that its session descends
  from.
* `Workspace.fate_of_answer` — a frame is cleared just when the last handle that keeps it is gone.
* `Workspace.globals_live_as_long_as_in_use` — the same, told by what the commands were.
-/

namespace SmallLisp.Workspace

variable {workspace before after : Workspace} {command : Command}
  {lineage : List (FrameRef × FrameRef)} {ref other : FrameRef}

/-- The forks that commands make: the global frames of the new session and of its origin. -/
def forks (workspace : Workspace) : List Command → List (FrameRef × FrameRef)
  | [] => []
  | command :: rest =>
      (workspace.forked? command).toList ++ (workspace.answer command).2.forks rest

/-- The session with the one global frame is the session with the other one, or it was forked from
a session that descends from that one. -/
def Descends (lineage : List (FrameRef × FrameRef)) : FrameRef → FrameRef → Prop :=
  Relation.ReflTransGen fun child parent => (child, parent) ∈ lineage

/-- After the commands there is a handle on the session with this global frame, or on one that
descends from it. -/
def InUse (workspace : Workspace) (commands : List Command) (ref : FrameRef) : Prop :=
  ∃ slot session, (workspace.answerAll commands).2.sessions.get? slot = some session ∧
    Descends (workspace.forks commands) session.globals ref

/-! ### Descent -/

theorem Descends.mono {more : List (FrameRef × FrameRef)} (h : Descends lineage ref other) :
    Descends (lineage ++ more) ref other :=
  Relation.ReflTransGen.mono (fun _ _ hmem => List.mem_append_left _ hmem) _ _ h

/-- A session without an origin descends from itself only. -/
theorem descends_iff_of_not_forked (h : ∀ parent, (ref, parent) ∉ lineage) :
    Descends lineage ref other ↔ other = ref := by
  constructor
  · intro hdescends
    rcases hdescends.cases_head with heq | ⟨parent, hmem, -⟩
    · exact heq.symm
    · exact absurd hmem (h parent)
  · rintro rfl
    exact .refl

/-- A fork of a session that is not among those that a session descends from changes nothing
there. -/
theorem descends_append_iff {child parent : FrameRef}
    (h : ∀ origin, Descends lineage ref origin → origin ≠ child) :
    Descends (lineage ++ [(child, parent)]) ref other ↔ Descends lineage ref other := by
  refine ⟨fun hdescends => ?_, .mono⟩
  induction hdescends with
  | refl => exact .refl
  | tail _ hstep ih =>
      rcases List.mem_append.1 hstep with hold | hnew
      · exact ih.tail hold
      · obtain ⟨rfl, -⟩ := Prod.mk.inj (List.mem_singleton.1 hnew)
        exact absurd rfl (h _ ih)

/-- A new fork descends from itself and from what its origin descends from. -/
theorem descends_fork_iff {child parent : FrameRef} (hchild : ∀ origin, (child, origin) ∉ lineage)
    (hparent : ∀ origin, Descends lineage parent origin → origin ≠ child) :
    Descends (lineage ++ [(child, parent)]) child other ↔
      other = child ∨ Descends lineage parent other := by
  have hnew : (child, parent) ∈ lineage ++ [(child, parent)] := by simp
  constructor
  · intro hdescends
    rcases hdescends.cases_head with heq | ⟨origin, hstep, hrest⟩
    · exact .inl heq.symm
    · rcases List.mem_append.1 hstep with hold | hlast
      · exact absurd hold (hchild origin)
      · obtain ⟨-, rfl⟩ := Prod.mk.inj (List.mem_singleton.1 hlast)
        exact .inr ((descends_append_iff hparent).1 hrest)
  · rintro (rfl | hdescends)
    · exact .refl
    · exact .head hnew hdescends.mono

/-! ### What a handle keeps -/

/-- The frame binds all that a new session binds. -/
def Furnished (frame : Frame) : Prop :=
  ∀ name, (Session.initialGlobals.lookup name).isSome → (frame.table.lookup name).isSome

theorem Furnished.insertAll {frame : Frame} (h : Furnished frame)
    (definitions : List (Symbol × Value)) :
    Furnished { frame with table := frame.table.insertAll definitions } :=
  fun name hname => Table.isSome_lookup_insertAll (h name hname) definitions

/-- The frames that handles keep are those of the sessions that theirs descend from, and they are
furnished. -/
structure Traced (lineage : List (FrameRef × FrameRef)) (workspace : Workspace) : Prop
    extends Grounded workspace where
  keeps_iff {slot : String} {session : Session} :
    workspace.sessions.get? slot = some session →
      ∀ ref, ref ∈ session.keeps ↔ Descends lineage session.globals ref
  forked {child parent : FrameRef} : (child, parent) ∈ lineage →
    ∃ frame, workspace.store.frame? child = some frame
  furnished {ref : FrameRef} {frame : Frame} : workspace.Keeps ref →
    workspace.store.frame? ref = some frame → Furnished frame

namespace Traced

theorem of_sessions_eq_nil (h : workspace.sessions = []) : Traced [] workspace where
  toGrounded := .of_sessions_eq_nil h
  keeps_iff := by
    intro slot session hsession
    rw [h] at hsession
    cases hsession
  forked hmem := by cases hmem
  furnished := by
    rintro ref frame ⟨slot, session, hsession, -⟩
    rw [h] at hsession
    cases hsession

/-- A frame that was not there is not the one of a session that was forked. -/
theorem not_forked (h : Traced lineage before) (hfresh : before.store.frame? ref = none)
    (parent : FrameRef) : (ref, parent) ∉ lineage := by
  intro hmem
  obtain ⟨frame, hframe⟩ := h.forked hmem
  cases hfresh.symm.trans hframe

/-- A frame that was not there is not the one of a session that another one descends from. -/
theorem ne_of_descends (h : Traced lineage before) (hfresh : before.store.frame? ref = none)
    {slot : String} {session : Session} (hsession : before.sessions.get? slot = some session)
    (hdescends : Descends lineage session.globals other) : other ≠ ref := by
  rintro rfl
  obtain ⟨frame, hframe⟩ :=
    h.present ⟨slot, session, hsession, (h.keeps_iff hsession other).2 hdescends⟩
  cases hfresh.symm.trans hframe

theorem steady (h : Traced lineage before) (hsteady : before.Steady (fun _ => True) after) :
    Traced lineage after where
  distinct := hsteady.distinct h.distinct
  present href := by
    obtain ⟨frame, hframe⟩ := h.present (hsteady.keeps_iff.1 href)
    obtain ⟨definitions, hgrown⟩ := hsteady.frames.grown hframe
    exact ⟨_, hgrown⟩
  keeps_iff hsession ref := by
    obtain ⟨old, hold, hkeeps⟩ := hsteady.exists_handle_before hsession
    rw [← hkeeps, ← Session.globals_eq_of_keeps_eq hkeeps]
    exact h.keeps_iff hold ref
  forked hmem := by
    obtain ⟨frame, hframe⟩ := h.forked hmem
    obtain ⟨definitions, hgrown⟩ := hsteady.frames.grown hframe
    exact ⟨_, hgrown⟩
  furnished {ref frame} href hframe := by
    have hbefore := hsteady.keeps_iff.1 href
    obtain ⟨old, hold⟩ := h.present hbefore
    obtain ⟨definitions, hgrown⟩ := hsteady.frames.grown hold
    cases hframe.symm.trans hgrown
    exact (h.furnished hbefore hold).insertAll definitions

/-- A slot gets another handle. It must keep what it should, and the forks that are new must not
concern the sessions that were there. -/
theorem refills {lineage' : List (FrameRef × FrameRef)} {slot : String} {handle : Option Session}
    {store : Store} (h : Traced lineage before)
    (hkept : FramesKept (fun _ => False) before.store store)
    (hrefills : Refills slot handle store before after)
    (hold : ∀ {slot session}, before.sessions.get? slot = some session →
      ∀ ref, Descends lineage' session.globals ref ↔ Descends lineage session.globals ref)
    (hforked : ∀ {child parent}, (child, parent) ∈ lineage' →
      ∃ frame, store.frame? child = some frame)
    (hkeeps : ∀ session, handle = some session →
      ∀ ref, ref ∈ session.keeps ↔ Descends lineage' session.globals ref)
    (hframes : ∀ session, handle = some session → ∀ ref ∈ session.keeps,
      ∃ frame, store.frame? ref = some frame ∧ Furnished frame) : Traced lineage' after where
  toGrounded := h.toGrounded.refills hkept hrefills fun session hsession ref href => by
    obtain ⟨frame, hframe, -⟩ := hframes session hsession ref href
    exact ⟨frame, hframe⟩
  keeps_iff {other session} hsession ref := by
    by_cases heq : other = slot
    · exact hkeeps session (hrefills.filled.symm.trans (heq ▸ hsession)) ref
    · have hbefore := (hrefills.others heq).symm.trans hsession
      exact (h.keeps_iff hbefore ref).trans (hold hbefore ref).symm
  forked hmem := by
    obtain ⟨frame, hframe⟩ := hforked hmem
    exact hrefills.exists_frame hframe
  furnished {ref frame} href hframe := by
    have hstore : ∃ frame, store.frame? ref = some frame ∧ Furnished frame := by
      rcases hrefills.keeps href with ⟨session, hsession, hmem⟩ | hbefore
      · exact hframes session hsession ref hmem
      · obtain ⟨old, hold⟩ := h.present hbefore
        exact ⟨old, hkept.frame hold id, h.furnished hbefore hold⟩
    obtain ⟨found, hfound, hfurnished⟩ := hstore
    cases hframe.symm.trans (hrefills.frame_of_keeps href hfound)
    exact hfurnished

/-- What a handle keeps is there and furnished. -/
theorem exists_frame (h : Traced lineage before) {slot : String} {session : Session}
    (hsession : before.sessions.get? slot = some session) :
    ∀ ref ∈ session.keeps, ∃ frame, before.store.frame? ref = some frame ∧ Furnished frame := by
  intro ref href
  obtain ⟨frame, hframe⟩ := h.present ⟨slot, session, hsession, href⟩
  exact ⟨frame, hframe, h.furnished ⟨slot, session, hsession, href⟩ hframe⟩

/-- A session is started. It keeps nothing but its own globals. -/
theorem start {slot : String} {session : Session} {store : Store}
    {definitions : List (Symbol × Value)} (h : Traced lineage before)
    (horigins : session.origins = []) (hfresh : before.store.frame? session.globals = none)
    (hkept : FramesKept (fun _ => False) before.store store)
    (hframe : store.frame? session.globals =
      some { table := Session.initialGlobals.insertAll definitions })
    (hrefills : Refills slot (some session) store before after) : Traced lineage after := by
  have hkeeps : session.keeps = [session.globals] := by rw [Session.keeps, horigins]
  refine h.refills hkept hrefills (fun _ _ => .rfl) (fun hmem => ?_)
    (fun handle hhandle ref => ?_) fun handle hhandle ref href => ?_
  · obtain ⟨frame, hframe⟩ := h.forked hmem
    exact ⟨frame, hkept.frame hframe id⟩
  · obtain rfl := Option.some.inj hhandle
    rw [hkeeps, List.mem_singleton, descends_iff_of_not_forked (h.not_forked hfresh)]
  · obtain rfl := Option.some.inj hhandle
    rw [hkeeps, List.mem_singleton] at href
    refine ⟨_, href ▸ hframe, fun name hname => ?_⟩
    exact Table.isSome_lookup_insertAll hname definitions

/-- A session is forked. It keeps its own globals and what its origin keeps. -/
theorem fork {slot target : String} {origin : Session} (h : Traced lineage before)
    (horigin : before.sessions.get? slot = some origin)
    (hrefills : Refills target (some (origin.fork before.store).1) (origin.fork before.store).2
      before after) :
    Traced (lineage ++ [((origin.fork before.store).1.globals, origin.globals)]) after := by
  have hfresh := origin.frame?_globals_fork before.store
  have hkept := origin.framesKept_fork before.store fun _ => False
  have hparent : ∀ ref, Descends lineage origin.globals ref →
      ref ≠ (origin.fork before.store).1.globals :=
    fun ref => h.ne_of_descends hfresh horigin
  refine h.refills hkept hrefills (fun hsession ref =>
    descends_append_iff fun other => h.ne_of_descends hfresh hsession) (fun hmem => ?_)
    (fun handle hhandle ref => ?_) fun handle hhandle ref href => ?_
  · rcases List.mem_append.1 hmem with hold | hnew
    · obtain ⟨frame, hframe⟩ := h.forked hold
      exact ⟨frame, hkept.frame hframe id⟩
    · obtain ⟨rfl, -⟩ := Prod.mk.inj (List.mem_singleton.1 hnew)
      exact ⟨_, origin.frame?_fork_globals before.store⟩
  · obtain rfl := Option.some.inj hhandle
    rw [descends_fork_iff (h.not_forked hfresh) hparent, ← h.keeps_iff horigin,
      Session.keeps_fork, List.mem_cons]
  · obtain rfl := Option.some.inj hhandle
    rw [Session.keeps_fork, List.mem_cons] at href
    rcases href with rfl | hmem
    · -- the globals of the fork are a copy of those of its origin
      obtain ⟨frame, hframe, hfurnished⟩ := h.exists_frame horigin _ List.mem_cons_self
      refine ⟨_, origin.frame?_fork_globals before.store, ?_⟩
      rwa [Store.frame, hframe, Option.getD_some]
    · obtain ⟨frame, hframe, hfurnished⟩ := h.exists_frame horigin _ hmem
      exact ⟨frame, hkept.frame hframe id, hfurnished⟩

/-- **One command.** The handles still keep what they should, the new forks included. -/
theorem answer (h : Traced lineage before) (hempties : command.empties = false) :
    Traced (lineage ++ (before.forked? command).toList) (before.answer command).2 := by
  have hrefl := FramesKept.refl (fun _ => False) before.store
  have hnone : before.forked? command = none →
      lineage ++ (before.forked? command).toList = lineage := by
    intro hforked
    rw [hforked, Option.toList_none, List.append_nil]
  cases effect_answer h.distinct command with
  | steady hsteady hforked =>
      rw [hnone hforked]
      exact h.steady hsteady
  | empties htrue => cases hempties.symm.trans htrue
  | start horigins hfresh hkept hframe hrefills =>
      rw [hnone rfl]
      exact h.start horigins hfresh hkept hframe hrefills
  | @fork slot target origin horigin hrefills =>
      have hforked : (before.forked? (.session slot (.fork target))).toList =
          [((origin.fork before.store).1.globals, origin.globals)] := by
        rw [forked?, horigin]
        rfl
      rw [hforked]
      exact h.fork horigin hrefills
  | clone hsession hrefills =>
      rw [hnone rfl]
      refine h.refills hrefl hrefills (fun _ _ => .rfl) h.forked (fun handle hhandle => ?_)
        fun handle hhandle => ?_
      · exact Option.some.inj hhandle ▸ h.keeps_iff hsession
      · exact Option.some.inj hhandle ▸ h.exists_frame hsession
  | drop _ hrefills =>
      rw [hnone rfl]
      exact h.refills hrefl hrefills (fun _ _ => .rfl) h.forked (fun _ hhandle => by cases hhandle)
        fun _ hhandle => by cases hhandle

theorem answerAll (h : Traced lineage workspace) {commands : List Command}
    (hempties : ∀ command ∈ commands, command.empties = false) :
    Traced (lineage ++ workspace.forks commands) (workspace.answerAll commands).2 := by
  induction commands generalizing lineage workspace with
  | nil => simpa [forks, Workspace.answerAll] using h
  | cons command rest ih =>
      obtain ⟨hcommand, hrest⟩ := List.forall_mem_cons.1 hempties
      rw [forks, ← List.append_assoc]
      exact ih (h.answer hcommand) hrest

end Traced

/-! ### When a frame is cleared -/

/-- What has become of a frame: if a handle kept it and none does any more, it is cleared, and
otherwise names were defined there at most. A frame that no handle kept is not kept again. -/
structure Fate (ref : FrameRef) (frame : Frame) (before after : Workspace) : Prop where
  cleared : before.Keeps ref → ¬after.Keeps ref →
    after.store.frame? ref = some { frame with table := .empty }
  grown : (before.Keeps ref → after.Keeps ref) →
    ∃ definitions,
      after.store.frame? ref = some { frame with table := frame.table.insertAll definitions }
  kept : after.Keeps ref → before.Keeps ref

theorem Refills.fate {slot : String} {handle : Option Session} {store : Store} {frame : Frame}
    (h : Refills slot handle store before after) (hframe : store.frame? ref = some frame)
    (hhandle : ∀ session, handle = some session → ref ∈ session.keeps → before.Keeps ref) :
    Fate ref frame before after where
  cleared hbefore hafter := h.frame_of_gone hbefore hafter hframe
  grown hkeeps := ⟨[], h.kept (fun old hold hmem => hkeeps ⟨slot, old, hold, hmem⟩) hframe⟩
  kept hafter := by
    rcases h.keeps hafter with ⟨session, hsession, hmem⟩ | hbefore
    · exact hhandle session hsession hmem
    · exact hbefore

/-- **One command** and a frame that was there. -/
theorem fate_of_answer (h : before.Grounded) (hempties : command.empties = false) {frame : Frame}
    (hframe : before.store.frame? ref = some frame) :
    Fate ref frame before (before.answer command).2 := by
  cases effect_answer h.distinct command with
  | steady hsteady =>
      exact ⟨fun hbefore hafter => absurd (hsteady.keeps_iff.2 hbefore) hafter,
        fun _ => hsteady.frames.grown hframe, hsteady.keeps_iff.1⟩
  | empties htrue => cases hempties.symm.trans htrue
  | start horigins hfresh hkept _ hrefills =>
      refine hrefills.fate (hkept.frame hframe id) fun session hsession hmem => ?_
      obtain rfl := Option.some.inj hsession
      rw [Session.keeps, horigins, List.mem_singleton] at hmem
      cases (hmem ▸ hframe).symm.trans hfresh
  | @fork _ _ origin horigin hrefills =>
      have hkept := (origin.framesKept_fork before.store fun _ => False).frame hframe id
      refine hrefills.fate hkept fun session hsession hmem => ?_
      obtain rfl := Option.some.inj hsession
      rcases List.mem_cons.1 hmem with rfl | hmem
      · cases hframe.symm.trans (origin.frame?_globals_fork before.store)
      · exact ⟨_, _, horigin, hmem⟩
  | clone hclone hrefills =>
      exact hrefills.fate hframe fun session hsession hmem =>
        ⟨_, _, hclone, Option.some.inj hsession ▸ hmem⟩
  | drop _ hrefills => exact hrefills.fate hframe fun _ hsession => by cases hsession

/-! ### Told by the commands -/

theorem answerAll_append (workspace : Workspace) (first second : List Command) :
    (workspace.answerAll (first ++ second)).2 =
      ((workspace.answerAll first).2.answerAll second).2 := by
  induction first generalizing workspace with
  | nil => rfl
  | cons command rest ih => exact ih _

theorem Traced.inUse_iff {commands : List Command}
    (h : Traced (workspace.forks commands) (workspace.answerAll commands).2) :
    workspace.InUse commands ref ↔ (workspace.answerAll commands).2.Keeps ref := by
  constructor
  · rintro ⟨slot, session, hsession, hdescends⟩
    exact ⟨slot, session, hsession, (h.keeps_iff hsession ref).2 hdescends⟩
  · rintro ⟨slot, session, hsession, hmem⟩
    exact ⟨slot, session, hsession, (h.keeps_iff hsession ref).1 hmem⟩

/-- **Globals live as long as someone can run in them.** Sessions are started, cloned, forked and
dropped in any order, mixed with any use of them, and no frame is emptied by hand. While the
globals of a session are in use, they bind all that a new session binds. The next command clears
them just if they are not in use afterwards; otherwise it defines names there at most. A frame that
is not in use is never in use again, and no command clears it. -/
theorem globals_live_as_long_as_in_use (start : Workspace) (hstart : start.sessions = [])
    (history : List Command) (hhistory : ∀ command ∈ history, command.empties = false)
    (command : Command) (hcommand : command.empties = false) :
    let before := (start.answerAll history).2.store
    let after := (start.answerAll (history ++ [command])).2.store
    (∀ ref, start.InUse history ref → ∃ frame, before.frame? ref = some frame ∧
      (∀ name, (Session.initialGlobals.lookup name).isSome →
        (frame.table.lookup name).isSome) ∧
      (¬start.InUse (history ++ [command]) ref →
        after.frame? ref = some { frame with table := .empty }) ∧
      (start.InUse (history ++ [command]) ref → ∃ definitions,
        after.frame? ref = some { frame with table := frame.table.insertAll definitions })) ∧
    ∀ ref frame, before.frame? ref = some frame → ¬start.InUse history ref →
      ¬start.InUse (history ++ [command]) ref ∧ ∃ definitions,
        after.frame? ref = some { frame with table := frame.table.insertAll definitions } := by
  intro before after
  have hbefore : Traced (start.forks history) (start.answerAll history).2 :=
    (Traced.of_sessions_eq_nil hstart).answerAll hhistory
  have hall : ∀ each ∈ history ++ [command], each.empties = false :=
    List.forall_mem_append.2 ⟨hhistory, List.forall_mem_singleton.2 hcommand⟩
  have hafter : Traced (start.forks (history ++ [command]))
      (start.answerAll (history ++ [command])).2 :=
    (Traced.of_sessions_eq_nil hstart).answerAll hall
  have hfate : ∀ {ref frame}, before.frame? ref = some frame →
      Fate ref frame (start.answerAll history).2 (start.answerAll (history ++ [command])).2 := by
    intro ref frame hframe
    rw [answerAll_append]
    exact fate_of_answer hbefore.toGrounded hcommand hframe
  refine ⟨fun ref huse => ?_, fun ref frame hframe hnot => ?_⟩
  · have hkeeps := hbefore.inUse_iff.1 huse
    obtain ⟨frame, hframe⟩ := hbefore.present hkeeps
    refine ⟨frame, hframe, hbefore.furnished hkeeps hframe, fun hgone => ?_, fun hstill => ?_⟩
    · exact (hfate hframe).cleared hkeeps fun hkept => hgone (hafter.inUse_iff.2 hkept)
    · exact (hfate hframe).grown fun _ => hafter.inUse_iff.1 hstill
  · have hunkept : ¬(start.answerAll history).2.Keeps ref := fun hkept =>
      hnot (hbefore.inUse_iff.2 hkept)
    refine ⟨fun huse => ?_, (hfate hframe).grown fun hkept => absurd hkept hunkept⟩
    exact hunkept ((hfate hframe).kept (hafter.inUse_iff.1 huse))

/-- A fork of a fork, in slot `c`, whose origins have lost all handles of their own. -/
def orphan : List Command :=
  [.session "a" (.start 50 []), .session "a" (.evalLast "(def x 1)" none),
   .session "a" (.fork "b"), .session "b" (.fork "c"), .session "b" (.clone "d"),
   .session "a" .drop, .session "b" .drop, .session "d" .drop]

/-- A workspace in which nothing is counted. -/
def plain : Workspace :=
  { census := none, fuel := 100 }

/-- The handle on the fork of a fork keeps the globals of the first session in use. They are
cleared when it is dropped. -/
theorem globals_live_as_long_as_in_use_orphan :
    plain.InUse orphan ⟨1, 0⟩ ∧ ¬plain.InUse (orphan ++ [.session "c" .drop]) ⟨1, 0⟩ ∧
      ∃ frame, (plain.answerAll orphan).2.store.frame? ⟨1, 0⟩ = some frame ∧
        (frame.table.lookup (.ofString "car")).isSome = true ∧
        (plain.answerAll (orphan ++ [.session "c" .drop])).2.store.frame? ⟨1, 0⟩ =
          some { frame with table := .empty } := by
  have hhandle : ((plain.answerAll orphan).2.sessions.get? "c").map Session.globals =
      some ⟨3, 0⟩ := by
    decide +kernel
  have hforks : plain.forks orphan = [(⟨2, 0⟩, ⟨1, 0⟩), (⟨3, 0⟩, ⟨2, 0⟩)] := by decide +kernel
  have huse : plain.InUse orphan ⟨1, 0⟩ := by
    obtain ⟨session, hsession, hglobals⟩ := Option.map_eq_some_iff.1 hhandle
    refine ⟨"c", session, hsession, ?_⟩
    rw [hglobals, hforks]
    exact .head (b := ⟨2, 0⟩) (by simp) (.single (by simp))
  have hempty : (plain.answerAll (orphan ++ [.session "c" .drop])).2.sessions.map (·.1) = [] := by
    decide +kernel
  have hgone : ¬plain.InUse (orphan ++ [.session "c" .drop]) ⟨1, 0⟩ := by
    rintro ⟨slot, session, hsession, -⟩
    rw [List.map_eq_nil_iff.1 hempty] at hsession
    cases hsession
  obtain ⟨frame, hframe, hnames, hcleared, -⟩ := (globals_live_as_long_as_in_use plain rfl orphan
    (by decide) (.session "c" .drop) rfl).1 ⟨1, 0⟩ huse
  exact ⟨huse, hgone, frame, hframe, hnames _ (by decide +kernel), hcleared hgone⟩

end SmallLisp.Workspace
