import SmallLisp.Proofs.Working

/-!
# Two workspaces side by side

A mirror is a pair of workspaces with the same things in their slots, over a twin of stores. In the
left one frames are released at the end of calls, in the right one never. Work on a workspace is
mirrored if it has the same outcome in both, and they are a mirror again.

## Main results

* `Mirrored.slot`, `Mirrored.update`, … — the steps that commands are made of are mirrored.
* `Mirrored.evaluate` — evaluations in a session are mirrored.
* `Mirrored.startSession`, `Mirror.putSession`, `Mirror.dropSession` — so are sessions that come and
  go.
-/

namespace SmallLisp

/-- Two workspaces with the same things in their slots. All that is held is intact. The host
functions of their sessions have a property, and all that have it are discreet. -/
structure Mirror (hosts : HostFunction → Prop) where
  twin : Twin fun _ => True
  sessions : Slots Session
  values : Slots Value
  environments : Slots FrameRef
  files : Files
  fuel : Nat
  keeps {session : Session} : session ∈ sessions.contents →
    ∀ frame ∈ session.keeps, twin.intact (.frame frame)
  supplied {session : Session} : session ∈ sessions.contents → session.natives.Hosts hosts
  discreet {function : HostFunction} : hosts function → function.Discreet
  value {value : Value} : value ∈ values.contents → value.In twin.intact
  environment {frame : FrameRef} : frame ∈ environments.contents → twin.intact (.frame frame)
  isOpen : twin.Open Workspace.arena

variable {hosts : HostFunction → Prop}

namespace Mirror

/-- The workspace in which frames are released. -/
def left (m : Mirror hosts) : Workspace :=
  ⟨m.twin.left, m.twin.census, m.sessions, m.values, m.environments, m.files, m.fuel⟩

/-- The workspace in which no frame is released at the end of a call. -/
def right (m : Mirror hosts) : Workspace :=
  ⟨m.twin.right, none, m.sessions, m.values, m.environments, m.files, m.fuel⟩

theorem natives_discreet (m : Mirror hosts) {session : Session}
    (h : session ∈ m.sessions.contents) : session.natives.Discreet :=
  fun name function hname => m.discreet (m.supplied h name function hname)

theorem held_intact (m : Mirror hosts) :
    ∀ item ∈ m.left.held.flatMap Hold.items, m.twin.intact item := by
  intro item hitem
  simp only [Workspace.held, List.flatMap_cons, List.flatMap_nil, List.append_nil, List.mem_append,
    Hold.items, List.mem_map, List.mem_flatMap] at hitem
  rcases hitem with ⟨frame, hframe, rfl⟩ | ⟨value, hvalue, hitem⟩ | ⟨frame, hframe, rfl⟩
  · exact m.environment hframe
  · exact m.value hvalue item hitem
  · rw [Workspace.liveGlobals, List.mem_eraseDups] at hframe
    obtain ⟨session, hsession, hframe⟩ := List.mem_flatMap.1 hframe
    exact m.keeps hsession frame hframe

/-- A census is kept on the left if one was kept. -/
def Counts (m m' : Mirror hosts) : Prop :=
  m'.twin.census.isSome = m.twin.census.isSome

/-- Nothing is lost, and all is in its slot. -/
structure Grows (m m' : Mirror hosts) : Prop where
  intact {item : Item} : m.twin.intact item → m'.twin.intact item
  environments : m'.environments = m.environments

theorem Grows.refl (m : Mirror hosts) : m.Grows m :=
  ⟨fun h => h, rfl⟩

theorem Grows.trans {m₁ m₂ m₃ : Mirror hosts} (h : m₁.Grows m₂) (h' : m₂.Grows m₃) : m₁.Grows m₃ :=
  ⟨fun hitem => h'.intact (h.intact hitem), h'.environments.trans h.environments⟩

theorem Grows.isIn {m m' : Mirror hosts} (h : m.Grows m') {value : Value}
    (hvalue : value.In m.twin.intact) : value.In m'.twin.intact :=
  fun item hitem => h.intact (hvalue item hitem)

/-- The mirror over a twin in which all that is held is still intact. -/
def onto (m : Mirror hosts) (twin : Twin fun _ => True)
    (hheld : ∀ item ∈ m.left.held.flatMap Hold.items, twin.intact item)
    (hsize : m.twin.left.arenas.size ≤ twin.left.arenas.size) : Mirror hosts :=
  { m with
    twin
    keeps := fun hsession frame hframe => by
      refine hheld _ ?_
      simp only [Workspace.held, List.flatMap_cons, List.flatMap_nil, List.append_nil,
        List.mem_append, Hold.items, List.mem_map, Workspace.liveGlobals]
      refine .inr (.inr ⟨frame, List.mem_eraseDups.2 ?_, rfl⟩)
      exact List.mem_flatMap.2 ⟨_, hsession, hframe⟩
    value := fun hvalue item hitem => by
      refine hheld _ (List.mem_append_right _ (List.mem_append_left _ ?_))
      exact List.mem_flatMap.2 ⟨_, hvalue, hitem⟩
    environment := fun hframe =>
      hheld _ (List.mem_append_left _ (List.mem_map.2 ⟨_, hframe, rfl⟩))
    isOpen := ⟨trivial, Nat.lt_of_lt_of_le m.isOpen.2 hsize⟩ }

/-- The mirror with a handle put in a session slot. -/
def filled (m : Mirror hosts) (name : String) {session : Session}
    (hkeeps : ∀ frame ∈ session.keeps, m.twin.intact (.frame frame))
    (hsupplied : session.natives.Hosts hosts) : Mirror hosts :=
  { m with
    sessions := m.sessions.put name session
    keeps := fun hother =>
      (Slots.mem_contents_put hother).elim (fun heq => heq ▸ hkeeps) m.keeps
    supplied := fun hother =>
      (Slots.mem_contents_put hother).elim (fun heq => heq ▸ hsupplied) m.supplied }

/-- The mirror as a stage for an evaluation in one of its sessions. -/
def stage (m : Mirror hosts) {session : Session} (h : session ∈ m.sessions.contents) :
    Eval.Stage (fun _ => True) session.globals :=
  ⟨m.twin, session.depth, m.keeps h _ List.mem_cons_self⟩

/-- What is held while an evaluation in a session is in progress. -/
def hands (m : Mirror hosts) (session : Session) : Eval.Hands session.globals :=
  ⟨.frames session.keeps :: m.left.held, List.mem_cons_self⟩

theorem rooted (m : Mirror hosts) {session : Session} (h : session ∈ m.sessions.contents) :
    (m.stage h).Rooted (m.hands session) := by
  intro item hitem
  rcases List.mem_append.1 hitem with hitem | hitem
  · obtain ⟨frame, hframe, rfl⟩ := List.mem_map.1 hitem
    exact m.keeps h frame hframe
  · exact m.held_intact item hitem

/-- The mirror over the twin to which an evaluation in a session leads. -/
def after (m : Mirror hosts) (name : String) {session : Session} (h : session ∈ m.sessions.contents)
    {twin : Twin fun _ => True} (hleads : m.twin.Leads (m.hands session).items twin) :
    Mirror hosts :=
  let next := m.onto twin (fun item hitem =>
    hleads.rooted (List.mem_append_right _ hitem) (m.held_intact item hitem))
    (Nat.le_of_eq hleads.size.symm)
  next.filled name (next.keeps h) (next.supplied h)

end Mirror

/-- Mirrors go on as mirrors. -/
abbrev mirroring (hosts : HostFunction → Prop) : Pairing (Mirror hosts) where
  left := Mirror.left
  right := Mirror.right
  Leads := Mirror.Counts
  refl _ := rfl
  trans h h' := Eq.trans h' h

/-- Done in both workspaces, the work has the same outcome, and they are a mirror again. -/
abbrev Mirrored {α : Type} (m : Mirror hosts) (post : Mirror hosts → α → Prop)
    (work : WorkM α) : Prop :=
  (mirroring hosts).InStep m post work

namespace Mirrored

open WorkM

variable {α β : Type} {m : Mirror hosts} {post : Mirror hosts → α → Prop}

/-! ### Slots -/

theorem slot {slots : Workspace → Slots α} (name : String) (hsame : slots m.right = slots m.left) :
    Mirrored m (fun m' content => m = m' ∧ content ∈ (slots m.left).contents)
      (WorkM.slot name slots) := by
  refine .get (by rw [hsame]) ?_
  split
  · next content hcontent => exact .pure ⟨rfl, Slots.mem_contents_of_get? hcontent⟩
  · exact .throw _

theorem session (name : String) :
    Mirrored m (fun m' session => m = m' ∧ session ∈ m.sessions.contents) (WorkM.session name) :=
  Mirrored.slot name rfl

theorem value (name : String) :
    Mirrored m (fun m' value => m = m' ∧ value.In m.twin.intact) (WorkM.value name) :=
  (Mirrored.slot name rfl).imp fun _ _ h => ⟨h.1, m.value h.2⟩

/-- The value in a slot, as one of several. -/
theorem operand (name : String) :
    Mirrored m (fun m' value => m.Grows m' ∧ value.In m'.twin.intact) (WorkM.value name) := by
  refine (Mirrored.value name).imp fun _ _ h => ?_
  obtain ⟨rfl, hin⟩ := h
  exact ⟨.refl m, hin⟩

theorem environment (name : String) :
    Mirrored m (fun m' frame => m = m' ∧ m.twin.intact (.frame frame) ∧
      frame ∈ m.environments.contents) (WorkM.environment name) :=
  (Mirrored.slot name rfl).imp fun _ _ h => ⟨h.1, m.environment h.2, h.2⟩

/-! ### Changes of the stores -/

/-- Both stores are changed with the same result. -/
theorem change {change : Store → α × Store} {a : α} {twin : Twin fun _ => True}
    (hleft : change m.twin.left = (a, twin.left)) (hright : change m.twin.right = (a, twin.right))
    (hcensus : twin.census = m.twin.census)
    (hheld : ∀ item ∈ m.left.held.flatMap Hold.items, twin.intact item)
    (hsize : m.twin.left.arenas.size ≤ twin.left.arenas.size)
    (h : post (m.onto twin hheld hsize) a) : Mirrored m post (WorkM.update change) := by
  refine ⟨.ok a, m.onto twin hheld hsize, ?_, ?_, congrArg Option.isSome hcensus,
    fun _ heq => Except.ok.inj heq ▸ h⟩
  · show (Except.ok (change m.twin.left).1, Workspace.mk (change m.twin.left).2 _ _ _ _ _ _) = _
    rw [hleft, ← hcensus]
    rfl
  · show (Except.ok (change m.twin.right).1, Workspace.mk (change m.twin.right).2 _ _ _ _ _ _) = _
    rw [hright]
    rfl

theorem update {change : Store → α × Store} {P : Twin (fun _ => True) → α → Prop}
    (h : m.twin.Alike change P) :
    Mirrored m (fun m' a => m.Grows m' ∧ P m'.twin a) (WorkM.update change) := by
  obtain ⟨a, twin, hleft, hright, hgrows, ha⟩ := h
  exact Mirrored.change hleft hright hgrows.census_eq (fun item hitem =>
    hgrows.intact (m.held_intact item hitem)) (Nat.le_of_eq hgrows.size.symm)
    ⟨⟨hgrows.intact, rfl⟩, ha⟩

/-! ### What commands are made of -/

theorem readOne {arena : Nat} (hopen : m.twin.Open arena) (text : String) :
    Mirrored m (fun m' value => m.Grows m' ∧ value.In m'.twin.intact)
      (WorkM.readOne arena text) := by
  refine .look .orError fun datum _ => ?_
  exact Mirrored.update (Twin.ofDatum hopen datum)

theorem keep (target : Option String) {value : Value} (hvalue : value.In m.twin.intact) :
    Mirrored m (fun m' _ => m'.twin = m.twin) (WorkM.keep target value) := by
  cases target with
  | none => exact .pure rfl
  | some name =>
      exact .modified { m with
        values := m.values.put name value
        value := fun hother =>
          (Slots.mem_contents_put hother).elim (fun heq => heq ▸ hvalue) m.value }
        rfl rfl rfl rfl

theorem giveValue (target : Option String) {value : Value} (hvalue : value.In m.twin.intact) :
    Mirrored m (fun _ _ => True) (WorkM.giveValue target value) := by
  refine .bind (Mirrored.keep target hvalue) fun m' _ htwin => ?_
  rw [← htwin] at hvalue
  exact .view (m'.twin.shown_eq hvalue)

theorem summary_eq {frame : FrameRef} (hframe : m.twin.intact (.frame frame)) :
    m.twin.left.summary frame = m.twin.right.summary frame := by
  rw [Store.summary, Store.hasParent, Store.table, m.twin.agree.frame hframe]
  rfl

theorem giveEnvironment (target : String) {frame : FrameRef}
    (hframe : m.twin.intact (.frame frame)) :
    Mirrored m (fun _ _ => True) (WorkM.giveEnvironment target frame) := by
  refine .bind (P := fun m' _ => m'.twin = m.twin) (.modified { m with
    environments := m.environments.put target frame
    environment := fun hother =>
      (Slots.mem_contents_put hother).elim (fun heq => heq ▸ hframe) m.environment }
    rfl rfl rfl rfl) fun m' _ htwin => ?_
  rw [← htwin] at hframe
  exact .view (summary_eq hframe)

theorem mapM {f : β → WorkM Value}
    (h : ∀ (m' : Mirror hosts) x,
      Mirrored m' (fun m'' value => m'.Grows m'' ∧ value.In m''.twin.intact) (f x))
    (xs : List β) :
    Mirrored m (fun m' values => m.Grows m' ∧ ∀ value ∈ values, value.In m'.twin.intact)
      (xs.mapM f) := by
  induction xs generalizing m with
  | nil => exact .pure ⟨.refl m, fun _ hmem => absurd hmem List.not_mem_nil⟩
  | cons x rest ih =>
      rw [List.mapM_cons]
      refine .bind (h m x) fun m₁ value ⟨hm₁, hvalue⟩ => ?_
      refine .bind ih fun m₂ others ⟨hm₂, hothers⟩ => .pure ⟨hm₁.trans hm₂, ?_⟩
      exact List.forall_mem_cons.2 ⟨hm₂.isIn hvalue, hothers⟩

/-! ### Sessions -/

/-- **An evaluation in a session** has the same outcome in both workspaces. -/
theorem evaluate {f : Session → EvalM α} {Q : Twin (fun _ => True) → α → Prop} (name : String)
    (h : ∀ {session} (hsession : session ∈ m.sessions.contents),
      Eval.Agrees (m.hands session) (m.stage hsession) (fun w a => Q w.twin a) (f session)) :
    Mirrored m (fun m' a => Q m'.twin a) (WorkM.evaluate name f) := by
  cases hget : m.sessions.get? name with
  | none =>
      exact ⟨.error (.emptySlot name), m, outcome_evaluate_none hget f,
        outcome_evaluate_none hget f, rfl, fun _ heq => nomatch heq⟩
  | some session =>
      have hsession := Slots.mem_contents_of_get? hget
      obtain ⟨result, w', hleft, hright, hleads, hdepth, hpost⟩ := h hsession (m.rooted hsession)
        (.frames session.keeps :: m.left.held) (.frames session.keeps :: m.right.held) fun _ => rfl
      refine ⟨result.mapError Refusal.ofHalt, m.after name hsession hleads,
        outcome_evaluate hget hleft hdepth, outcome_evaluate hget hright hdepth, hleads.counted,
        fun a heq => ?_⟩
      cases result with
      | error halt => exact nomatch heq
      | ok found => exact Except.ok.inj heq ▸ hpost found rfl

/-- An evaluation that gives one value. -/
theorem evaluateOne {f : Session → EvalM Value} (slot : String) (target : Option String)
    (h : ∀ {session} (hsession : session ∈ m.sessions.contents),
      Eval.Agrees (m.hands session) (m.stage hsession) Eval.Stage.Has (f session)) :
    Mirrored m (fun _ _ => True) (do WorkM.giveValue target (← WorkM.evaluate slot f)) :=
  .bind (Mirrored.evaluate (Q := fun twin value => value.In twin.intact) slot h)
    fun _ _ hvalue => Mirrored.giveValue target hvalue

end Mirrored

namespace Twin

variable {common : Nat → Prop} {w : Twin common}

theorem clearAll {frames : List FrameRef} (h : ∀ frame ∈ frames, w.intact (.frame frame)) :
    w.Alike (fun store => ((), frames.foldl Store.clear store)) fun _ _ => True := by
  induction frames generalizing w with
  | nil => exact .pure trivial
  | cons frame rest ih =>
      obtain ⟨hframe, hrest⟩ := List.forall_mem_cons.1 h
      refine (clear hframe).bind (g := fun _ store => ((), rest.foldl Store.clear store))
        fun w' hw _ _ => ih fun other hother => hw.intact (hrest other hother)

end Twin

namespace Mirror

variable {m : Mirror hosts} {session : Session}

/-! ### Sessions that come and go -/

theorem retire (m : Mirror hosts) (h : ∀ frame ∈ session.keeps, m.twin.intact (.frame frame)) :
    ∃ m' : Mirror hosts, m.left.retire session = m'.left ∧ m.right.retire session = m'.right ∧
      m.Counts m' := by
  have hgone : ∀ frame ∈ session.keeps.filter (!m.left.liveGlobals.contains ·),
      m.twin.intact (.frame frame) := fun frame hframe => h frame (List.mem_filter.1 hframe).1
  obtain ⟨_, twin, hleft, hright, hgrows, -⟩ := Twin.clearAll hgone
  refine ⟨m.onto twin (fun item hitem => hgrows.intact (m.held_intact item hitem))
    (Nat.le_of_eq hgrows.size.symm), ?_, ?_, hgrows.counted⟩
  · show Workspace.mk _ m.twin.census _ _ _ _ _ = Workspace.mk _ twin.census _ _ _ _ _
    rw [hgrows.census_eq]
    exact congrArg (fun x : Unit × Store => Workspace.mk x.2 _ _ _ _ _ _) hleft
  · exact congrArg (fun x : Unit × Store => Workspace.mk x.2 _ _ _ _ _ _) hright

theorem putSession (m : Mirror hosts) (name : String)
    (hkeeps : ∀ frame ∈ session.keeps, m.twin.intact (.frame frame))
    (hsupplied : session.natives.Hosts hosts) :
    ∃ m' : Mirror hosts, m.left.putSession name session = m'.left ∧
      m.right.putSession name session = m'.right ∧ m.Counts m' := by
  simp only [Workspace.putSession]
  cases hold : m.sessions.get? name with
  | none =>
      refine ⟨m.filled name hkeeps hsupplied, ?_, ?_, rfl⟩
      · rw [show m.left.sessions.get? name = none from hold]
        rfl
      · rw [show m.right.sessions.get? name = none from hold]
        rfl
  | some old =>
      rw [show m.left.sessions.get? name = some old from hold,
        show m.right.sessions.get? name = some old from hold]
      exact (m.filled name hkeeps hsupplied).retire
        (m.keeps (Slots.mem_contents_of_get? hold))

theorem dropSession (m : Mirror hosts) (name : String) :
    ∃ m' : Mirror hosts, m.left.dropSession name = m'.left ∧ m.right.dropSession name = m'.right ∧
      m.Counts m' := by
  simp only [Workspace.dropSession]
  cases hold : m.sessions.get? name with
  | none =>
      exact ⟨m, by rw [show m.left.sessions.get? name = none from hold],
        by rw [show m.right.sessions.get? name = none from hold], rfl⟩
  | some old =>
      rw [show m.left.sessions.get? name = some old from hold,
        show m.right.sessions.get? name = some old from hold]
      exact Mirror.retire { m with
        sessions := m.sessions.remove name
        keeps := fun hother => m.keeps (Slots.mem_contents_remove hother)
        supplied := fun hother => m.supplied (Slots.mem_contents_remove hother) }
        (m.keeps (Slots.mem_contents_of_get? hold))

end Mirror

namespace Mirrored

open WorkM

variable {m : Mirror hosts}

theorem startSession (slot : String) (maxDepth : Nat) (preload : List String) :
    Mirrored m (fun _ _ => True) (WorkM.startSession slot maxDepth preload) := by
  obtain ⟨result, session, w₁, w', hleft, hright, hopens, hleads, hnatives, -⟩ :=
    Session.start_agrees m.twin trivial m.fuel m.files maxDepth preload m.right.held m.held_intact
      fun _ => rfl
  cases result with
  | error halt =>
      exact ⟨.error (.ofHalt halt), m, outcome_startSession_error hleft slot,
        outcome_startSession_error hright slot, rfl, fun _ heq => nomatch heq⟩
  | ok =>
      have hheld : ∀ item ∈ m.left.held.flatMap Hold.items, w'.intact item := fun item hitem =>
        hleads.rooted (List.mem_append_right _ hitem) (hopens.intact (m.held_intact item hitem))
      have hkeeps : ∀ frame ∈ session.keeps, w'.intact (.frame frame) := fun frame hframe =>
        hleads.rooted (List.mem_append_left _ (List.mem_map_of_mem hframe))
          (hopens.keeps frame hframe)
      have hsize : m.twin.left.arenas.size ≤ w'.left.arenas.size := by
        rw [hleads.size, hopens.size]
        exact Nat.le_succ _
      obtain ⟨m', hput, hput', hcounts⟩ := (m.onto w' hheld hsize).putSession slot hkeeps
        (hnatives ▸ Session.primitives_hosts hosts)
      refine ⟨.ok (), m', (outcome_startSession_ok hleft slot).trans ?_,
        (outcome_startSession_ok hright slot).trans ?_, ?_, fun _ _ => trivial⟩
      · exact congrArg (Prod.mk _) hput
      · exact congrArg (Prod.mk _) hput'
      · exact hcounts.trans (hleads.counted.trans (congrArg Option.isSome hopens.census_eq))

end Mirrored

end SmallLisp
