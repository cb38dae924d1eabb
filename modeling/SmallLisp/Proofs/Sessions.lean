import SmallLisp.Proofs.PairedEvaluation

/-!
# Sessions in step

A session is started, forked or made to run something on both stores of a twin. A new session gets
the same place in both, since both have as many arenas, and nothing else is there yet.

## Main results

* `Session.create_agrees`, `Session.fork_agrees` — a new session is the same one in both stores.
* `Session.register_agrees` — so is a handle through which a native function was registered.
* `Session.start_agrees` — so is one that has loaded files, or the reason why it has not.
-/

namespace SmallLisp

variable {common : Nat → Prop}

theorem Session.execute_of_outcome {α : Type} {session : Session} {held : List Hold}
    {store : Store} {census : Option Census} {evaluation : EvalM α} {result : Except Halt α}
    {machine : Machine}
    (h : evaluation.outcome (.frames session.keeps :: held) ⟨store, census, session.depth⟩ =
      (result, machine)) :
    session.execute held store census evaluation =
      (result, { session with depth := machine.depth }, machine.store, machine.census) := by
  rw [EvalM.outcome] at h
  rw [Session.execute, h]

theorem Session.execute_eq {α : Type} {session : Session} {held : List Hold} {store : Store}
    {census : Option Census} {evaluation : EvalM α} {result : Except Halt α} {machine : Machine}
    (h : evaluation.outcome (.frames session.keeps :: held) ⟨store, census, session.depth⟩ =
      (result, machine)) (hdepth : machine.depth = session.depth) :
    session.execute held store census evaluation =
      (result, session, machine.store, machine.census) := by
  rw [execute_of_outcome h, hdepth]

/-! ### New sessions -/

/-- What a new session binds refers to nothing in a store. -/
theorem Session.items_initialGlobals :
    ∀ value ∈ Session.initialGlobals.values, value.items = [] := by
  decide +kernel

/-- **Registering a native function** gives the same handle in both stores. -/
theorem Session.register_agrees {w : Twin common} {session : Session}
    (hglobals : w.intact (.frame session.globals)) (name : Symbol) (native : Native) :
    w.Alike (session.register · name native) fun w' after =>
      w.Grows w' ∧ after = { session with natives := session.natives.insert name native } :=
  (Twin.bind hglobals name (Value.in_of_items_eq_nil rfl)).bind
    (g := fun _ store => ({ session with natives := session.natives.insert name native }, store))
    fun _ hw _ _ => .pure ⟨hw, rfl⟩

namespace Twin

/-- A new arena in both stores. -/
def addArena (w : Twin common) : Twin common :=
  w.transport (fun item _ => w.left.find?_addArena item) (fun item _ => w.right.find?_addArena item)
    (by simp [Store.addArena, w.size_eq]) (.inr fun item => w.left.find?_addArena item)

theorem open_addArena (w : Twin common) (h : common w.left.arenas.size) :
    w.addArena.Open w.left.arenas.size :=
  ⟨h, by simp [addArena, transport, Store.addArena]⟩

/-- A session was opened in a new arena, and nothing else has changed. -/
structure Opens (w w' : Twin common) (session : Session) : Prop where
  census_eq : w'.census = w.census
  intact {item : Item} : w.intact item → w'.intact item
  keeps : ∀ frame ∈ session.keeps, w'.intact (.frame frame)
  arena_eq : session.arena = w.left.arenas.size
  size : w'.left.arenas.size = w.left.arenas.size + 1
  outside {item : Item} : ¬common item.arena →
    w'.left.find? item = w.left.find? item ∧ w'.right.find? item = w.right.find? item

/-- What is done in step in a new arena, and gives a frame there for the globals, opens a
session. -/
theorem opens_of_alike (w : Twin common) (session : FrameRef → Session)
    {change : Store → FrameRef × Store} {post : Twin common → FrameRef → Prop}
    (h : w.addArena.Alike change post) (hglobals : ∀ frame, (session frame).globals = frame)
    (hkeeps : ∀ w' frame, w.addArena.Grows w' → post w' frame →
      frame.arena = w.left.arenas.size ∧
        ∀ kept ∈ (session frame).keeps, w'.intact (.frame kept)) :
    ∃ frame w', change w.left.addArena.2 = (frame, w'.left) ∧
      change w.right.addArena.2 = (frame, w'.right) ∧ w.Opens w' (session frame) := by
  obtain ⟨frame, w', hleft, hright, hgrows, hpost⟩ := h
  obtain ⟨harena, hkeeps⟩ := hkeeps w' frame hgrows hpost
  refine ⟨frame, w', hleft, hright, ⟨hgrows.census_eq, hgrows.intact, hkeeps, ?_, ?_, ?_⟩⟩
  · rw [Session.arena, hglobals, harena]
  · rw [hgrows.size]
    simp [addArena, transport, Store.addArena]
  · intro item hitem
    obtain ⟨hl, hr⟩ := hgrows.outside hitem
    exact ⟨hl.trans (w.left.find?_addArena item), hr.trans (w.right.find?_addArena item)⟩

end Twin

namespace Session

variable (w : Twin common) (hcommon : common w.left.arenas.size)
include hcommon

/-- **A new session** is the same in both stores. -/
theorem create_agrees (maxDepth : Nat) :
    ∃ (session : Session) (w' : Twin common), create w.left maxDepth = (session, w'.left) ∧
      create w.right maxDepth = (session, w'.right) ∧ w.Opens w' session ∧
      session.natives = primitives ∧ session.origins = [] := by
  have hreferences : ∀ item ∈ (Entry.frame { table := initialGlobals }).references,
      w.addArena.intact item := by
    intro item hitem
    rcases List.mem_append.1 hitem with h | h
    · exact absurd h List.not_mem_nil
    · obtain ⟨value, hvalue, hitem⟩ := List.mem_flatMap.1 h
      rw [items_initialGlobals value hvalue] at hitem
      exact absurd hitem List.not_mem_nil
  obtain ⟨frame, w', hleft, hright, hopens⟩ := w.opens_of_alike
    (fun globals => { globals, natives := primitives, maxDepth })
    (Twin.addFrame (w.open_addArena hcommon) hreferences fun _ h => by simp at h) (fun _ => rfl)
    fun w' frame _ h => ⟨h.2.2, fun kept hkept => List.mem_singleton.1 hkept ▸ h.1⟩
  refine ⟨_, w', ?_, ?_, hopens, rfl, rfl⟩
  · exact congrArg (fun made : FrameRef × Store => (Session.mk made.1 [] _ _ 0, made.2)) hleft
  · rw [w.size_eq] at hright
    exact congrArg (fun made : FrameRef × Store => (Session.mk made.1 [] _ _ 0, made.2)) hright

/-- **A fork** is the same in both stores. -/
theorem fork_agrees {origin : Session}
    (hkeeps : ∀ frame ∈ origin.keeps, w.intact (.frame frame)) :
    ∃ (session : Session) (w' : Twin common), origin.fork w.left = (session, w'.left) ∧
      origin.fork w.right = (session, w'.right) ∧ w.Opens w' session ∧
      session.natives = origin.natives := by
  obtain ⟨frame, w', hleft, hright, hopens⟩ := w.opens_of_alike
    (fun globals => { origin with globals, origins := origin.keeps, depth := 0 })
    (Twin.snapshot (w.open_addArena hcommon) (hkeeps _ List.mem_cons_self)) (fun _ => rfl)
    fun w' frame hgrows h => ⟨h.2, List.forall_mem_cons.2
      ⟨h.1, fun kept hkept => hgrows.intact (hkeeps kept hkept)⟩⟩
  refine ⟨_, w', ?_, ?_, hopens, rfl⟩
  · exact congrArg (fun made : FrameRef × Store => (Session.mk made.1 _ _ _ 0, made.2)) hleft
  · rw [w.size_eq] at hright
    exact congrArg (fun made : FrameRef × Store => (Session.mk made.1 _ _ _ 0, made.2)) hright

/-- **A session that starts** has the same outcome in both stores, and is the same. On the left
nothing is lost that is held there, if it is known there what is in use. -/
theorem start_agrees (fuel : Nat) (files : Files) (maxDepth : Nat) (preload : List String)
    {kept heldLeft : List Hold} (heldRight : List Hold)
    (hkept : ∀ item ∈ kept.flatMap Hold.items, w.intact item)
    (hheld : w.census.isSome = true → heldLeft = kept) :
    ∃ (result : Except Halt Unit) (session : Session) (w₁ w' : Twin common),
      start fuel files maxDepth preload heldLeft w.left w.census =
        (result, session, w'.left, w'.census) ∧
      start fuel files maxDepth preload heldRight w.right none = (result, session, w'.right, none) ∧
      w.Opens w₁ session ∧
      w₁.Leads ((Hold.frames session.keeps :: kept).flatMap Hold.items) w' ∧
      session.natives = primitives ∧ session.origins = [] := by
  obtain ⟨session, w₁, hleft, hright, hopens, hnatives, horigins⟩ :=
    create_agrees w hcommon maxDepth
  have hdiscreet : session.natives.Discreet := hnatives ▸ primitives_hosts _
  have hglobals : w₁.intact (.frame session.globals) := hopens.keeps _ List.mem_cons_self
  have hrooted : ∀ item ∈ (Hold.frames session.keeps :: kept).flatMap Hold.items,
      w₁.intact item := by
    intro item hitem
    rcases List.mem_append.1 hitem with hitem | hitem
    · obtain ⟨frame, hframe, rfl⟩ := List.mem_map.1 hitem
      exact hopens.keeps frame hframe
    · exact hopens.intact (hkept item hitem)
  obtain ⟨result, w', hleft', hright', hleads, hdepth, -⟩ :=
    loadAll_agrees hdiscreet fuel files preload
      (c := ⟨.frames session.keeps :: kept, List.mem_append_left _ List.mem_cons_self⟩)
      (w := ⟨w₁, session.depth, hglobals⟩) hrooted (.frames session.keeps :: heldLeft)
      (.frames session.keeps :: heldRight) fun hsome => by rw [hheld (hopens.census_eq ▸ hsome)]
  refine ⟨result, session, w₁, w'.twin, ?_, ?_, hopens, hleads, hnatives, horigins⟩
  · rw [start, hleft, ← hopens.census_eq]
    exact execute_eq hleft' hdepth
  · rw [start, hright]
    exact execute_eq hright' hdepth

end Session

end SmallLisp
