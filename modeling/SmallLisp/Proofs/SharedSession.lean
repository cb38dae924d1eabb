import SmallLisp.Proofs.Working

/-!
# One session in two workspaces

Two workspaces have the same session in a slot, and whatever else. All that the session has made is
in an arena of its own, where the two stores are a twin. A call of the session is done in step, and
touches nothing outside of that arena and that slot.

## Main results

* `Workspace.Touches` — what a call may have changed.
* `Neighbours.call` — calls are done in step.
-/

namespace SmallLisp

namespace SessionCommand

/-- The command starts a session. -/
def isStart : SessionCommand → Bool
  | start _ _ => true
  | _ => false

/-- The command is a call of a session that takes nothing from elsewhere: its text, the file or the
native function that it comes with is all it is given. -/
def isCall : SessionCommand → Bool
  | eval _ | evalLast _ _ | evalLine _ | load _ _ | expand _ _ | symbols | depth | register _ _ =>
      true
  | _ => false

end SessionCommand

namespace Workspace

variable {slot : String}

/-- The slot holds this session, over this store, and it is not known what is in use. -/
structure Holds (workspace : Workspace) (slot : String) (session : Session) (store : Store) :
    Prop where
  session_eq : workspace.sessions.get? slot = some session
  store_eq : workspace.store = store
  census_eq : workspace.census = none

/-- Nothing has changed but the session in a slot and what is in its arena. The session may have
moved to a new arena. -/
structure Touches (slot : String) (before after : Workspace) : Prop where
  others {other : String} : other ≠ slot →
    after.sessions.get? other = before.sessions.get? other
  files_eq : after.files = before.files
  fuel_eq : after.fuel = before.fuel
  census_eq : after.census = before.census
  size_le : before.store.arenas.size ≤ after.store.arenas.size
  elsewhere {item : Item} : item.arena < before.store.arenas.size →
    (∀ session, before.sessions.get? slot = some session → item.arena ≠ session.arena) →
    after.store.find? item = before.store.find? item
  arena {session : Session} : after.sessions.get? slot = some session →
    (∃ old, before.sessions.get? slot = some old ∧ session.arena = old.arena) ∨
      before.store.arenas.size ≤ session.arena

theorem Touches.refl (slot : String) (workspace : Workspace) :
    Touches slot workspace workspace where
  others _ := rfl
  files_eq := rfl
  fuel_eq := rfl
  census_eq := rfl
  size_le := Nat.le_refl _
  elsewhere _ _ := rfl
  arena h := .inl ⟨_, h, rfl⟩

theorem Touches.trans {first second third : Workspace} (h : Touches slot first second)
    (h' : Touches slot second third) : Touches slot first third where
  others hne := (h'.others hne).trans (h.others hne)
  files_eq := h'.files_eq.trans h.files_eq
  fuel_eq := h'.fuel_eq.trans h.fuel_eq
  census_eq := h'.census_eq.trans h.census_eq
  size_le := Nat.le_trans h.size_le h'.size_le
  elsewhere {item} hlt hne := by
    refine (h'.elsewhere (Nat.lt_of_lt_of_le hlt h.size_le) fun session hsession => ?_).trans
      (h.elsewhere hlt hne)
    rcases h.arena hsession with ⟨old, hold, heq⟩ | hge
    · exact heq ▸ hne old hold
    · omega
  arena {session} hsession := by
    rcases h'.arena hsession with ⟨middle, hmiddle, heq⟩ | hge
    · rcases h.arena hmiddle with ⟨old, hold, heq'⟩ | hge
      · exact .inl ⟨old, hold, heq.trans heq'⟩
      · exact .inr (heq.symm ▸ hge)
    · exact .inr (Nat.le_trans h.size_le hge)

/-- A session that stays in its arena touches nothing else if it changes nothing else. -/
theorem Holds.touches {before after : Workspace} {session session' : Session}
    {store store' : Store} (h : before.Holds slot session store)
    (h' : after.Holds slot session' store') (harena : session'.arena = session.arena)
    (hothers : ∀ {other}, other ≠ slot → after.sessions.get? other = before.sessions.get? other)
    (hfiles : after.files = before.files) (hfuel : after.fuel = before.fuel)
    (hsize : store'.arenas.size = store.arenas.size)
    (helsewhere : ∀ {item : Item}, item.arena ≠ session.arena →
      store'.find? item = store.find? item) : Touches slot before after where
  others := hothers
  files_eq := hfiles
  fuel_eq := hfuel
  census_eq := h'.census_eq.trans h.census_eq.symm
  size_le := by
    rw [h.store_eq, h'.store_eq]
    exact Nat.le_of_eq hsize.symm
  elsewhere _ hne := by
    rw [h.store_eq, h'.store_eq]
    exact helsewhere (hne session h.session_eq)
  arena hsession := by
    cases h'.session_eq.symm.trans hsession
    exact .inl ⟨session, h.session_eq, harena⟩

end Workspace

/-- Two workspaces with the same session in a slot. What it has made is in one arena, where the
stores are a twin. -/
structure Neighbours (slot : String) (arena : Nat) where
  left : Workspace
  right : Workspace
  session : Session
  twin : Twin (· = arena)
  holdsLeft : left.Holds slot session twin.left
  holdsRight : right.Holds slot session twin.right
  uncounted : twin.census = none
  files_eq : right.files = left.files
  fuel_eq : right.fuel = left.fuel
  arena_eq : session.arena = arena
  globals : twin.intact (.frame session.globals)
  origins : session.origins = []
  discreet : session.natives.Discreet

/-- Neighbours go on as neighbours, and touch nothing but the session. -/
abbrev neighbouring (slot : String) (arena : Nat) : Pairing (Neighbours slot arena) where
  left := Neighbours.left
  right := Neighbours.right
  Leads n n' := n.left.Touches slot n'.left ∧ n.right.Touches slot n'.right ∧
    n'.left.store.arenas.size = n.left.store.arenas.size
  refl n := ⟨.refl slot n.left, .refl slot n.right, rfl⟩
  trans h h' := ⟨h.1.trans h'.1, h.2.1.trans h'.2.1, h'.2.2.trans h.2.2⟩

namespace Neighbours

open WorkM

variable {slot : String} {arena : Nat} {α : Type} (n : Neighbours slot arena)

theorem isOpen : n.twin.Open n.session.arena :=
  Twin.open_of_intact n.globals

/-- The neighbours over a twin to which theirs has moved, with any handle on the same globals in
the slot. -/
theorem moves (n' : Neighbours slot arena) (hmoves : n.twin.Moves n'.twin)
    (hleft : ∀ {other}, other ≠ slot →
      n'.left.sessions.get? other = n.left.sessions.get? other)
    (hright : ∀ {other}, other ≠ slot →
      n'.right.sessions.get? other = n.right.sessions.get? other)
    (hfiles : n'.left.files = n.left.files) (hfuel : n'.left.fuel = n.left.fuel) :
    (neighbouring slot arena).Leads n n' := by
  have harena : n'.session.arena = n.session.arena := n'.arena_eq.trans n.arena_eq.symm
  have houtside : ∀ {item : Item}, item.arena ≠ n.session.arena → ¬item.arena = arena :=
    fun hne heq => hne (heq.trans n.arena_eq.symm)
  have hsize : n'.twin.right.arenas.size = n.twin.right.arenas.size := by
    rw [← n'.twin.size_eq, hmoves.size, n.twin.size_eq]
  refine ⟨?_, ?_, ?_⟩
  · exact n.holdsLeft.touches n'.holdsLeft harena hleft hfiles hfuel hmoves.size
      fun hne => (hmoves.outside (houtside hne)).1
  · refine n.holdsRight.touches n'.holdsRight harena hright ?_ ?_ hsize
      fun hne => (hmoves.outside (houtside hne)).2
    · rw [n'.files_eq, hfiles, n.files_eq]
    · rw [n'.fuel_eq, hfuel, n.fuel_eq]
  · rw [n.holdsLeft.store_eq, n'.holdsLeft.store_eq, hmoves.size]

/-! ### What calls are made of -/

theorem sessionIn : (neighbouring slot arena).InStep n (fun n' session => n = n' ∧
    session = n.session) (WorkM.session slot) :=
  ⟨.ok n.session, n, outcome_slot n.holdsLeft.session_eq, outcome_slot n.holdsRight.session_eq,
    (neighbouring slot arena).refl n, fun _ heq => ⟨rfl, (Except.ok.inj heq).symm⟩⟩

theorem update {change : Store → α × Store} {P : Twin (· = arena) → α → Prop}
    (h : n.twin.Alike change P) :
    (neighbouring slot arena).InStep n (fun n' a => P n'.twin a) (WorkM.update change) := by
  obtain ⟨a, twin, hleft, hright, hgrows, ha⟩ := h
  let n' : Neighbours slot arena := { n with
    left := { n.left with store := twin.left }
    right := { n.right with store := twin.right }
    twin
    holdsLeft := ⟨n.holdsLeft.session_eq, rfl, n.holdsLeft.census_eq⟩
    holdsRight := ⟨n.holdsRight.session_eq, rfl, n.holdsRight.census_eq⟩
    uncounted := hgrows.census_eq.trans n.uncounted
    globals := hgrows.intact n.globals }
  refine ⟨.ok a, n', ?_, ?_, n.moves n' hgrows.toMoves (fun _ => rfl) (fun _ => rfl) rfl rfl,
    fun _ heq => Except.ok.inj heq ▸ ha⟩
  · show (Except.ok (change n.left.store).1, Workspace.mk (change n.left.store).2 _ _ _ _ _ _) = _
    rw [n.holdsLeft.store_eq, hleft]
  · show (Except.ok (change n.right.store).1, Workspace.mk (change n.right.store).2 _ _ _ _ _ _) = _
    rw [n.holdsRight.store_eq, hright]

theorem readOne (text : String) :
    (neighbouring slot arena).InStep n (fun n' value => value.In n'.twin.intact)
      (WorkM.readOne n.session.arena text) := by
  refine .look .orError fun datum _ => ?_
  exact n.update (Twin.ofDatum n.isOpen datum)

/-- What is held while a call is in progress. -/
def hands : Eval.Hands n.session.globals :=
  ⟨[.frames n.session.keeps], List.mem_cons_self⟩

/-- The neighbours as a stage for an evaluation in their session. -/
def stage : Eval.Stage (· = arena) n.session.globals :=
  ⟨n.twin, n.session.depth, n.globals⟩

theorem rooted : n.stage.Rooted n.hands := by
  intro item hitem
  have hitem : item = .frame n.session.globals := by
    simpa [hands, Eval.Hands.items, Hold.items, Session.keeps, n.origins] using hitem
  exact hitem ▸ n.globals

/-- **An evaluation in the session** has the same outcome in both workspaces. -/
theorem evaluate {f : Session → EvalM α} {Q : Twin (· = arena) → α → Prop}
    (h : Eval.Agrees n.hands n.stage (fun w a => Q w.twin a) (f n.session)) :
    (neighbouring slot arena).InStep n (fun n' a => Q n'.twin a) (WorkM.evaluate slot f) := by
  obtain ⟨result, w', hleft, hright, hleads, hdepth, hpost⟩ := h n.rooted
    (.frames n.session.keeps :: n.left.held) (.frames n.session.keeps :: n.right.held)
    fun hsome => by cases (congrArg Option.isSome n.uncounted).symm.trans hsome
  have hnone : w'.twin.census = none := hleads.toMoves.census_eq_none n.uncounted
  have hmachine : n.stage.left = ⟨n.left.store, n.left.census, n.session.depth⟩ := by
    rw [Eval.Stage.left, n.holdsLeft.store_eq, n.holdsLeft.census_eq, ← n.uncounted]
    rfl
  have hmachine' : n.stage.right = ⟨n.right.store, n.right.census, n.session.depth⟩ := by
    rw [Eval.Stage.right, n.holdsRight.store_eq, n.holdsRight.census_eq]
    rfl
  let n' : Neighbours slot arena := { n with
    left := { n.left with
      store := w'.twin.left
      census := w'.twin.census
      sessions := n.left.sessions.put slot n.session }
    right := { n.right with
      store := w'.twin.right
      census := none
      sessions := n.right.sessions.put slot n.session }
    twin := w'.twin
    holdsLeft := ⟨Slots.get?_put_self _ _ _, rfl, hnone⟩
    holdsRight := ⟨Slots.get?_put_self _ _ _, rfl, rfl⟩
    uncounted := hnone
    globals := w'.globals_intact }
  refine ⟨result.mapError Refusal.ofHalt, n', outcome_evaluate n.holdsLeft.session_eq
      (hmachine ▸ hleft) hdepth, outcome_evaluate n.holdsRight.session_eq (hmachine' ▸ hright)
      hdepth, n.moves n' hleads.toMoves Slots.get?_put_of_ne Slots.get?_put_of_ne rfl rfl,
    fun a heq => ?_⟩
  cases result with
  | error halt => cases heq
  | ok found => exact Except.ok.inj heq ▸ hpost found rfl

theorem keep (target : Option String) (value : Value) :
    (neighbouring slot arena).InStep n (fun n' _ => n'.twin = n.twin)
      (WorkM.keep target value) := by
  cases target with
  | none => exact .pure rfl
  | some name =>
      let n' : Neighbours slot arena := { n with
        left := { n.left with values := n.left.values.put name value }
        right := { n.right with values := n.right.values.put name value }
        holdsLeft := { n.holdsLeft with }
        holdsRight := { n.holdsRight with } }
      exact .modified n' rfl rfl
        (n.moves n' (.refl _) (fun _ => rfl) (fun _ => rfl) rfl rfl) rfl

/-- Showing what is the same in both stores. -/
theorem view {β : Type} {view : Store → α} {f : α → β}
    (h : view n.twin.left = view n.twin.right) :
    (neighbouring slot arena).InStep n (fun _ _ => True)
      (do return f (← WorkM.inspect view)) := by
  refine .view ?_
  rw [n.holdsLeft.store_eq, n.holdsRight.store_eq, h]

theorem giveValue (target : Option String) {value : Value} (hvalue : value.In n.twin.intact) :
    (neighbouring slot arena).InStep n (fun _ _ => True) (WorkM.giveValue target value) := by
  refine .bind (n.keep target value) fun n' _ htwin => n'.view ?_
  rw [← htwin] at hvalue
  exact n'.twin.shown_eq hvalue

/-- An evaluation that gives one value. -/
theorem evaluateOne {f : Session → EvalM Value} (target : Option String)
    (h : Eval.Agrees n.hands n.stage Eval.Stage.Has (f n.session)) :
    (neighbouring slot arena).InStep n (fun _ _ => True)
      (do WorkM.giveValue target (← WorkM.evaluate slot f)) :=
  .bind (n.evaluate (Q := fun twin value => value.In twin.intact) h)
    fun n' _ hvalue => n'.giveValue target hvalue

theorem register (name : String) {native : Native}
    (hdiscreet : (Command.session slot (.register name native)).Discreet) :
    (neighbouring slot arena).InStep n (fun _ _ => True)
      ((SessionCommand.register name native).perform slot) := by
  refine .get rfl (.look n.sessionIn ?_)
  rintro _ rfl
  refine .bind (n.update (Session.register_agrees n.globals (.ofString name) native)) ?_
  rintro n' after ⟨hgrows, hafter⟩
  let n'' : Neighbours slot arena := { n' with
    left := { n'.left with sessions := n'.left.sessions.put slot after }
    right := { n'.right with sessions := n'.right.sessions.put slot after }
    session := after
    holdsLeft := ⟨Slots.get?_put_self _ _ _, n'.holdsLeft.store_eq, n'.holdsLeft.census_eq⟩
    holdsRight := ⟨Slots.get?_put_self _ _ _, n'.holdsRight.store_eq, n'.holdsRight.census_eq⟩
    arena_eq := hafter ▸ n.arena_eq
    globals := hafter ▸ hgrows.intact n.globals
    origins := hafter ▸ n.origins
    discreet := hafter ▸ n.discreet.insert _ hdiscreet.native }
  exact .modifyBoth ⟨n'', rfl, rfl,
    n'.moves n'' (.refl _) Slots.get?_put_of_ne Slots.get?_put_of_ne rfl rfl⟩

/-- **Calls are done in step.** -/
theorem call {command : SessionCommand} (hcall : command.isCall = true)
    (hdiscreet : (Command.session slot command).Discreet) :
    (neighbouring slot arena).InStep n (fun _ _ => True) (command.perform slot) := by
  cases command with
  | eval text =>
      exact .get (by simp only [n.fuel_eq]) (.bind (n.evaluate (Q := fun twin values =>
        ∀ value ∈ values, value.In twin.intact)
          (Session.evalText_agrees n.discreet n.left.fuel text))
        fun n' _ hvalues => n'.view (n'.twin.shownAll_eq hvalues))
  | evalLast text target =>
      exact .get (by simp only [n.fuel_eq]) (n.evaluateOne target
        (Session.evalTextLast_agrees n.discreet n.left.fuel text))
  | evalLine line =>
      exact .get (by simp only [n.fuel_eq]) (.bind (n.evaluate (Q := fun twin outcomes =>
        ∀ value, .ok value ∈ outcomes → value.In twin.intact)
          (Session.evalLine_agrees n.discreet n.left.fuel line))
        fun n' _ hvalues => n'.view (n'.twin.shownOutcomes_eq hvalues))
  | load path target =>
      exact .get (by simp only [n.fuel_eq]) (.get (by simp only [n.files_eq])
        (n.evaluateOne target (Session.load_agrees n.discreet n.left.fuel n.left.files path)))
  | expand text target =>
      refine .get (by simp only [n.fuel_eq]) (.look n.sessionIn ?_)
      rintro _ rfl
      refine .bind (n.readOne text) fun n' form hform => ?_
      exact n'.evaluateOne target (Session.expandOnce_agrees n'.discreet n.left.fuel hform)
  | symbols =>
      refine .get rfl (.look n.sessionIn ?_)
      rintro _ rfl
      exact n.view (congrArg (fun table => table.symbols.map (·.spelling))
        (n.twin.agree.table n.globals))
  | depth =>
      exact .get rfl (.look n.sessionIn fun _ _ => .pure trivial)
  | register name native => exact n.register name hdiscreet
  | _ => exact nomatch hcall

end Neighbours

end SmallLisp
