import SmallLisp.Proofs.Effects

/-!
# Environments and their history

A frame is known by its handles and does not show how it came about. Still all that can be seen of
an environment is told by what has happened: which frames were made, out of which others, what was
bound in them and when they were cleared. This is written down as a history, and a store is compared
to it. The parents that a history gives to a frame form a chain with an end, since a frame is made
inside of one that was there before.

## Main results

* `Follows.addFrame`, `Follows.modifyTable` — a store follows its history when a frame is made and
  when bindings are changed.
* `Chronicled.answer`, `Chronicled.carryOut` — the same for one command and for many.
* `Workspace.environments_follow_history` — what names mean, by the history.
-/

namespace SmallLisp

/-- What happens to frames. -/
inductive Event where
  /-- A frame was made that no frame is around. -/
  | newRoot (made : FrameRef)
  /-- A frame was made inside another one. -/
  | extend (outer made : FrameRef)
  /-- A frame was made as a copy. -/
  | snapshot (source made : FrameRef)
  /-- A name was bound. -/
  | bind (target : FrameRef) (name : Symbol) (value : Value)
  /-- All bindings were taken out of a frame. -/
  | clear (target : FrameRef)
  deriving DecidableEq

namespace Event

/-- The frame that was made. -/
def made? : Event → Option FrameRef
  | newRoot made | extend _ made | snapshot _ made => some made
  | bind _ _ _ | clear _ => none

/-- The frame that a frame was made of. -/
def source? : Event → Option FrameRef
  | extend outer _ => some outer
  | snapshot source _ => some source
  | newRoot _ | bind _ _ _ | clear _ => none

/-- The frame whose bindings were changed. -/
def changed? : Event → Option FrameRef
  | bind target _ _ | clear target => some target
  | newRoot _ | extend _ _ | snapshot _ _ => none

theorem changed?_of_made? {event : Event} {ref : FrameRef} (h : event.made? = some ref) :
    event.changed? = none := by
  cases event <;> first | rfl | cases h

end Event

/-- What has happened, the latest event first. -/
abbrev History := List Event

namespace History

/-- The frames that were made. -/
def made (history : History) : List FrameRef :=
  history.filterMap Event.made?

/-- The value that a frame holds for a name: the one it was last bound to, unless the frame was
cleared since. A copy starts with what its source held. -/
def held : History → FrameRef → Symbol → Option Value
  | [], _, _ => none
  | .newRoot made :: past, ref, name | .extend _ made :: past, ref, name =>
      if ref = made then none else held past ref name
  | .snapshot source made :: past, ref, name => held past (if ref = made then source else ref) name
  | .bind target key value :: past, ref, name =>
      if ref = target ∧ name = key then some value else held past ref name
  | .clear target :: past, ref, name => if ref = target then none else held past ref name

/-- The frame that a frame was made in. A copy has the parent of its source. -/
def parent? : History → FrameRef → Option FrameRef
  | [], _ => none
  | .newRoot made :: past, ref => if ref = made then none else parent? past ref
  | .extend outer made :: past, ref => if ref = made then some outer else parent? past ref
  | .snapshot source made :: past, ref => parent? past (if ref = made then source else ref)
  | .bind _ _ _ :: past, ref | .clear _ :: past, ref => parent? past ref

/-- Frames are made of frames that were made before, and none is made twice. -/
inductive Sound : History → Prop
  | nil : Sound []
  | cons {event : Event} {past : History} :
      (∀ source, event.source? = some source → source ∈ made past) →
      (∀ new, event.made? = some new → new ∉ made past) → Sound past → Sound (event :: past)

/-- The parent of a frame, the parent of that one and so on, up to the root. -/
inductive Around (history : History) : FrameRef → List FrameRef → Prop
  | root {ref : FrameRef} : parent? history ref = none → Around history ref []
  | inside {ref outer : FrameRef} {frames : List FrameRef} : parent? history ref = some outer →
      Around history outer frames → Around history ref (outer :: frames)

/-! ### Frames that an event leaves alone -/

variable {history history' : History} {event : Event} {ref outer : FrameRef}
  {frames frames' : List FrameRef}

theorem held_cons_of_ne (hmade : event.made? ≠ some ref) (hchanged : event.changed? ≠ some ref)
    (name : Symbol) : held (event :: history) ref name = held history ref name := by
  cases event with
  | newRoot made | extend _ made | snapshot _ made =>
      have hne : ref ≠ made := fun heq => hmade (congrArg some heq.symm)
      simp only [held, if_neg hne]
  | bind target _ _ =>
      have hne : ref ≠ target := fun heq => hchanged (congrArg some heq.symm)
      simp only [held, hne, false_and, if_false]
  | clear target =>
      have hne : ref ≠ target := fun heq => hchanged (congrArg some heq.symm)
      simp only [held, if_neg hne]

theorem parent?_cons_of_ne (hmade : event.made? ≠ some ref) :
    parent? (event :: history) ref = parent? history ref := by
  cases event with
  | newRoot made | extend _ made | snapshot _ made =>
      have hne : ref ≠ made := fun heq => hmade (congrArg some heq.symm)
      simp only [parent?, if_neg hne]
  | bind | clear => rfl

theorem mem_made_cons :
    ref ∈ made (event :: history) ↔ event.made? = some ref ∨ ref ∈ made history := by
  simp only [made, List.mem_filterMap, List.mem_cons, exists_eq_or_imp]

theorem held_append_of_ne {recent : History} (hmade : ref ∉ made recent)
    (hchanged : ∀ event ∈ recent, event.changed? ≠ some ref) (name : Symbol) :
    held (recent ++ history) ref name = held history ref name := by
  induction recent with
  | nil => rfl
  | cons event recent ih =>
      rw [mem_made_cons, not_or] at hmade
      rw [List.cons_append, held_cons_of_ne hmade.1 (hchanged event List.mem_cons_self)]
      exact ih hmade.2 fun event hmem => hchanged event (List.mem_cons_of_mem _ hmem)

/-! ### Parents -/

namespace Sound

theorem nodup (h : Sound history) : (made history).Nodup := by
  induction h with
  | nil => exact .nil
  | @cons event past _ hnew _ ih =>
      cases hmade : event.made? with
      | none => rwa [made, List.filterMap_cons_none hmade]
      | some new =>
          rw [made, List.filterMap_cons_some hmade]
          exact List.nodup_cons.2 ⟨hnew new hmade, ih⟩

/-- A parent was made. -/
theorem parent (h : Sound history) (hparent : parent? history ref = some outer) :
    outer ∈ made history := by
  induction h generalizing ref with
  | nil => cases hparent
  | @cons event past hsource _ _ ih =>
      rw [mem_made_cons]
      refine .inr ?_
      cases event with
      | newRoot new =>
          rw [parent?] at hparent
          split at hparent
          · cases hparent
          · exact ih hparent
      | extend source new =>
          rw [parent?] at hparent
          split at hparent
          · exact Option.some.inj hparent ▸ hsource source rfl
          · exact ih hparent
      | snapshot | bind | clear => exact ih hparent

theorem parent?_cons (h : Sound (event :: history)) (hmade : ref ∈ made history) :
    parent? (event :: history) ref = parent? history ref := by
  cases h with
  | cons _ hnew _ => exact parent?_cons_of_ne fun heq => hnew ref heq hmade

/-- A copy is another frame than its source and has the same parent. -/
theorem snapshot {source copy : FrameRef} (h : Sound history)
    (hmem : .snapshot source copy ∈ history) : source ∈ made history ∧ copy ∈ made history ∧
      source ≠ copy ∧ parent? history copy = parent? history source := by
  induction h with
  | nil => cases hmem
  | @cons event past hsource hnew hpast ih =>
      have hsound : Sound (event :: past) := .cons hsource hnew hpast
      rcases List.mem_cons.1 hmem with rfl | hmem
      · have hold := hsource source rfl
        refine ⟨mem_made_cons.2 (.inr hold), mem_made_cons.2 (.inl rfl), fun heq => ?_, ?_⟩
        · exact hnew copy rfl (heq ▸ hold)
        · rw [hsound.parent?_cons hold, parent?, if_pos rfl]
      · obtain ⟨hfirst, hsecond, hne, hparent⟩ := ih hmem
        refine ⟨mem_made_cons.2 (.inr hfirst), mem_made_cons.2 (.inr hsecond), hne, ?_⟩
        rw [hsound.parent?_cons hfirst, hsound.parent?_cons hsecond, hparent]

theorem mem_made_of_around (h : Sound history) (hmade : ref ∈ made history)
    (haround : Around history ref frames) : ∀ frame ∈ ref :: frames, frame ∈ made history := by
  induction haround with
  | root => simpa using hmade
  | inside hsome _ ih =>
      intro frame hmem
      rcases List.mem_cons.1 hmem with rfl | hmem
      · exact hmade
      · exact ih (h.parent hsome) frame hmem

end Sound

namespace Around

theorem unique (h : Around history ref frames) (h' : Around history ref frames') :
    frames = frames' := by
  induction h generalizing frames' with
  | root hnone =>
      cases h' with
      | root => rfl
      | inside hsome => cases hnone.symm.trans hsome
  | inside hsome _ ih =>
      cases h' with
      | root hnone => cases hnone.symm.trans hsome
      | inside hsome' h' =>
          obtain rfl := Option.some.inj (hsome.symm.trans hsome')
          rw [ih h']

/-- Only the parents of the frames on the way matter. -/
theorem congr (h : Around history ref frames)
    (hsame : ∀ frame ∈ ref :: frames, parent? history' frame = parent? history frame) :
    Around history' ref frames := by
  induction h with
  | root hnone => exact .root ((hsame _ List.mem_cons_self).trans hnone)
  | inside hsome _ ih =>
      exact .inside ((hsame _ List.mem_cons_self).trans hsome)
        (ih fun frame hmem => hsame frame (List.mem_cons_of_mem _ hmem))

/-- What happens later does not change what is around a frame. -/
theorem later (h : Around history ref frames) (hsound : Sound (event :: history))
    (hmade : ref ∈ made history) : Around (event :: history) ref frames := by
  cases hsound with
  | cons hsource hnew hpast =>
      exact h.congr fun frame hmem => (Sound.cons hsource hnew hpast).parent?_cons
        (hpast.mem_made_of_around hmade h frame hmem)

/-- A copy has the frames of its source around it. -/
theorem snapshot {source copy : FrameRef} (h : Around history source frames)
    (hsound : Sound (.snapshot source copy :: history)) :
    Around (.snapshot source copy :: history) copy frames := by
  have hparent : parent? (.snapshot source copy :: history) copy = parent? history source := by
    rw [parent?, if_pos rfl]
  cases h with
  | root hnone => exact .root (hparent.trans hnone)
  | inside hsome haround =>
      cases hsound with
      | cons hsource hnew hpast =>
          exact .inside (hparent.trans hsome)
            (haround.later (.cons hsource hnew hpast) (hpast.parent hsome))

/-- The last frame on the way has no parent. -/
theorem parent?_getLastD (h : Around history ref frames) :
    parent? history (frames.getLastD ref) = none := by
  induction h with
  | root hnone => exact hnone
  | inside _ _ ih => rwa [List.getLastD_cons]

/-- All frames on the way have the same root. -/
theorem exists_of_mem (h : Around history ref frames) (hmem : outer ∈ frames) :
    ∃ further, Around history outer further ∧ further.getLastD outer = frames.getLastD ref := by
  induction h with
  | root => cases hmem
  | @inside ref next frames hsome hnext ih =>
      rw [List.getLastD_cons]
      rcases List.mem_cons.1 hmem with rfl | hmem
      · exact ⟨frames, hnext, rfl⟩
      · exact ih hmem

end Around

end History

open History

/-! ### Stores that follow a history -/

/-- The frame is as the history says. -/
structure Describes (history : History) (ref : FrameRef) (frame : Frame) : Prop where
  lookup_eq (name : Symbol) : frame.table.lookup name = held history ref name
  around : Around history ref frame.ancestors

/-- All frames that were made are in the store, as the history says. -/
structure Follows (history : History) (store : Store) : Prop where
  sound : Sound history
  stored {ref : FrameRef} : ref ∈ made history →
    ∃ frame, store.frame? ref = some frame ∧ Describes history ref frame

namespace Follows

variable {history : History} {store : Store} {event : Event} {ref outer : FrameRef}
  {frames : List FrameRef}

theorem describes (h : Follows history store) (hmade : ref ∈ made history) :
    Describes history ref (store.frame ref) := by
  obtain ⟨frame, hframe, hdescribes⟩ := h.stored hmade
  rwa [Store.frame, hframe]

/-- A frame that is not there was not made. -/
theorem not_mem_made (h : Follows history store) (hfresh : store.frame? ref = none) :
    ref ∉ made history := by
  intro hmade
  obtain ⟨frame, hframe, -⟩ := h.stored hmade
  cases hfresh.symm.trans hframe

/-- **A frame is made.** -/
theorem addFrame {arena : Nat} {frame : Frame} (h : Follows history store)
    (harena : arena < store.arenas.size)
    (hmade : event.made? = some (store.addFrame arena frame).1)
    (hsource : ∀ source, event.source? = some source → source ∈ made history)
    (hdescribes : Sound (event :: history) →
      Describes (event :: history) (store.addFrame arena frame).1 frame) :
    Follows (event :: history) (store.addFrame arena frame).2 := by
  have hnew := h.not_mem_made (store.frame?_addFrame_self arena frame)
  have hsound : Sound (event :: history) :=
    .cons hsource (fun new heq => Option.some.inj (hmade.symm.trans heq) ▸ hnew) h.sound
  refine ⟨hsound, fun {ref} href => ?_⟩
  rcases mem_made_cons.1 href with heq | href
  · obtain rfl := Option.some.inj (hmade.symm.trans heq)
    exact ⟨frame, Store.frame?_addFrame_new harena frame, hdescribes hsound⟩
  · obtain ⟨found, hfound, hold⟩ := h.stored href
    refine ⟨found, Store.frame?_addFrame_of_some hfound arena frame, fun name => ?_,
      hold.around.later hsound href⟩
    rw [hold.lookup_eq, held_cons_of_ne]
    · exact fun heq => hnew (Option.some.inj (hmade.symm.trans heq) ▸ href)
    · simp [Event.changed?_of_made? hmade]

theorem newRoot {arena : Nat} (h : Follows history store) (harena : arena < store.arenas.size) :
    Follows (.newRoot (store.newRoot arena).1 :: history) (store.newRoot arena).2 := by
  refine h.addFrame harena rfl (fun source heq => by cases heq) fun _ => ⟨fun name => ?_, .root ?_⟩
  · exact (if_pos rfl).symm
  · exact if_pos rfl

theorem extend {arena : Nat} (h : Follows history store) (harena : arena < store.arenas.size)
    (hmade : ref ∈ made history) :
    Follows (.extend ref (store.extend arena ref).1 :: history) (store.extend arena ref).2 := by
  refine h.addFrame harena rfl (fun source heq => Option.some.inj heq ▸ hmade) fun hsound =>
    ⟨fun name => ?_, .inside ?_ ((h.describes hmade).around.later hsound hmade)⟩
  · exact (if_pos rfl).symm
  · exact if_pos rfl

theorem snapshot {arena : Nat} (h : Follows history store) (harena : arena < store.arenas.size)
    (hmade : ref ∈ made history) :
    Follows (.snapshot ref (store.snapshot arena ref).1 :: history)
      (store.snapshot arena ref).2 := by
  refine h.addFrame harena rfl (fun source heq => Option.some.inj heq ▸ hmade) fun hsound =>
    ⟨fun name => ?_, (h.describes hmade).around.snapshot hsound⟩
  rw [(h.describes hmade).lookup_eq, held, if_pos]
  rfl

/-- **The bindings of a frame are changed.** -/
theorem modifyTable {change : Table Value → Table Value} (h : Follows history store)
    (hmade : event.made? = none) (hchanged : event.changed? = some ref)
    (hchange : ∀ table : Table Value, (∀ name, table.lookup name = held history ref name) →
      ∀ name, (change table).lookup name = held (event :: history) ref name) :
    Follows (event :: history) (store.modifyTable ref change) := by
  have hnone : ∀ other, event.made? ≠ some other := by simp [hmade]
  have hsource : event.source? = none := by
    cases event <;> first | rfl | cases hmade
  have hsound : Sound (event :: history) :=
    .cons (by simp [hsource]) (fun new heq => absurd heq (hnone new)) h.sound
  refine ⟨hsound, fun {other} hother => ?_⟩
  replace hother := (mem_made_cons.1 hother).resolve_left (hnone other)
  obtain ⟨frame, hframe, hold⟩ := h.stored hother
  have haround := hold.around.later hsound hother
  rw [store.frame?_modifyTable, hframe]
  by_cases heq : other = ref
  · subst heq
    rw [if_pos rfl]
    exact ⟨_, rfl, hchange frame.table hold.lookup_eq, haround⟩
  · rw [if_neg heq]
    refine ⟨frame, rfl, fun name => ?_, haround⟩
    rw [hold.lookup_eq, held_cons_of_ne (hnone other)]
    exact fun hsome => heq (Option.some.inj (hsome.symm.trans hchanged))

theorem bind (h : Follows history store) (ref : FrameRef) (name : Symbol) (value : Value) :
    Follows (.bind ref name value :: history) (store.bind ref name value) := by
  refine h.modifyTable rfl rfl fun table hlookup other => ?_
  by_cases heq : other = name
  · rw [heq, Table.lookup_insert_self, held, if_pos ⟨rfl, rfl⟩]
  · rw [Table.lookup_insert_of_ne heq, hlookup, held, if_neg fun hboth => heq hboth.2]

theorem clear (h : Follows history store) (ref : FrameRef) :
    Follows (.clear ref :: history) (store.clear ref) := by
  refine h.modifyTable rfl rfl fun table _ name => ?_
  rw [Table.lookup_empty, held, if_pos rfl]

/-! ### What is seen of them -/

theorem lookup_table (h : Follows history store) (hmade : ref ∈ made history) (name : Symbol) :
    (store.table ref).lookup name = held history ref name :=
  (h.describes hmade).lookup_eq name

/-- **What a name means** is what the nearest frame says that holds it. -/
theorem lookup (h : Follows history store) (hmade : ref ∈ made history)
    (haround : Around history ref frames) (name : Symbol) :
    store.lookup ref name = (ref :: frames).findSome? (held history · name) := by
  obtain rfl := haround.unique (h.describes hmade).around
  rw [← List.head?_filterMap, Store.lookup, ← List.head?_filterMap]
  exact congrArg List.head? (List.filterMap_congr fun frame hmem =>
    h.lookup_table (h.sound.mem_made_of_around hmade haround frame hmem) name)

/-- A frame that holds a name hides those further out only. -/
theorem lookup_bind {near far : List FrameRef} {name : Symbol} (h : Follows history store)
    (hmade : ref ∈ made history) (haround : Around history ref frames)
    (hframes : ref :: frames = near ++ outer :: far)
    (hnear : ∀ frame ∈ near, held history frame name = none) (value : Value) :
    (store.bind outer name value).lookup ref name = some value := by
  have hparents : Around (.bind outer name value :: history) ref frames :=
    haround.congr fun _ _ => rfl
  rw [(h.bind outer name value).lookup hmade hparents, hframes, List.findSome?_append]
  cases hfound : near.findSome? (held (.bind outer name value :: history) · name) with
  | none => simp [held]
  | some found =>
      obtain ⟨frame, hmem, hheld⟩ := List.exists_of_findSome?_eq_some hfound
      by_cases heq : frame = outer
      · simpa [held, heq, eq_comm] using hheld
      · simp [held, heq, hnear frame hmem] at hheld

theorem root_eq (h : Follows history store) (hmade : ref ∈ made history)
    (haround : Around history ref frames) : store.root ref = frames.getLastD ref := by
  obtain rfl := haround.unique (h.describes hmade).around
  rfl

/-- **The root** is the same for all frames of a chain. -/
theorem root_eq_of_mem (h : Follows history store) (hmade : ref ∈ made history)
    (haround : Around history ref frames) (hmem : outer ∈ frames) :
    store.root outer = store.root ref := by
  obtain ⟨further, hfurther, hlast⟩ := haround.exists_of_mem hmem
  have houter := h.sound.mem_made_of_around hmade haround outer (List.mem_cons_of_mem _ hmem)
  rw [h.root_eq houter hfurther, hlast, h.root_eq hmade haround]

end Follows

/-! ### The history of a workspace -/

namespace Workspace

/-- What a command on environments does to frames, told by the handles before and after it. -/
def event? (workspace : Workspace) (command : EnvironmentCommand) : Option Event :=
  let after := (workspace.answer (.environment command)).2
  match command with
  | .newRoot target => (after.environments.get? target).map .newRoot
  | .extend env target => do
      let outer ← workspace.environments.get? env
      (after.environments.get? target).map (.extend outer)
  | .snapshot env target => do
      let source ← workspace.environments.get? env
      (after.environments.get? target).map (.snapshot source)
  | .bind env name slot => do
      let frame ← workspace.environments.get? env
      (workspace.values.get? slot).map (.bind frame (.ofString name))
  | .clear env => (workspace.environments.get? env).map .clear
  | .release env => do
      let frame ← workspace.environments.get? env
      if (workspace.release frame).1 then some (.clear frame) else none
  | _ => none

/-- What commands on environments do to frames, the latest event first. -/
def history (workspace : Workspace) : List EnvironmentCommand → History
  | [] => []
  | command :: rest =>
      (workspace.answer (.environment command)).2.history rest ++ (workspace.event? command).toList

/-- The workspace after commands on environments. -/
def carryOut (workspace : Workspace) (commands : List EnvironmentCommand) : Workspace :=
  (workspace.answerAll (commands.map .environment)).2

/-- The workspace with a new frame and a handle on it. -/
def give (workspace : Workspace) (target : String) (new : FrameRef × Store) : Workspace :=
  { workspace with store := new.2, environments := workspace.environments.put target new.1 }

theorem snd_answer_environment {workspace : Workspace} {command : EnvironmentCommand}
    {env : String} {ref : FrameRef} {rest : FrameRef → WorkM Reply}
    (hperform : command.perform = WorkM.environment env >>= rest)
    (henv : workspace.environments.get? env = some ref) :
    (workspace.answer (.environment command)).2 = ((rest ref).outcome workspace).2 := by
  rw [snd_answer, Command.perform, hperform, WorkM.environment,
    WorkM.outcome_bind_ok (WorkM.outcome_slot henv)]

section

variable {workspace : Workspace} {env : String} {ref : FrameRef}

theorem event?_newRoot (target : String) :
    workspace.event? (.newRoot target) = some (.newRoot (workspace.store.newRoot arena).1) := by
  have hanswer : (workspace.answer (.environment (.newRoot target))).2 =
      workspace.give target (workspace.store.newRoot arena) := rfl
  simp [event?, hanswer, give, Slots.get?_put_self]

theorem event?_extend (henv : workspace.environments.get? env = some ref) (target : String) :
    workspace.event? (.extend env target) =
      some (.extend ref (workspace.store.extend arena ref).1) := by
  have hanswer : (workspace.answer (.environment (.extend env target))).2 =
      workspace.give target (workspace.store.extend arena ref) :=
    (snd_answer_environment rfl henv).trans rfl
  simp [event?, hanswer, henv, give, Slots.get?_put_self]

theorem event?_snapshot (henv : workspace.environments.get? env = some ref) (target : String) :
    workspace.event? (.snapshot env target) =
      some (.snapshot ref (workspace.store.snapshot arena ref).1) := by
  have hanswer : (workspace.answer (.environment (.snapshot env target))).2 =
      workspace.give target (workspace.store.snapshot arena ref) :=
    (snd_answer_environment rfl henv).trans rfl
  simp [event?, hanswer, henv, give, Slots.get?_put_self]

end

end Workspace

/-- The store follows the history, and every handle is on a frame that was made. -/
structure Chronicled (history : History) (workspace : Workspace) : Prop
    extends Follows history workspace.store where
  arena_lt : Workspace.arena < workspace.store.arenas.size
  handles {slot : String} {ref : FrameRef} : workspace.environments.get? slot = some ref →
    ref ∈ made history

namespace Chronicled

open Workspace

variable {history : History} {workspace : Workspace} {event : Event} {ref : FrameRef}

theorem of_environments_eq_nil (harena : arena < workspace.store.arenas.size)
    (hnil : workspace.environments = []) : Chronicled [] workspace where
  sound := .nil
  stored hmade := by cases hmade
  arena_lt := harena
  handles hslot := by
    rw [hnil] at hslot
    cases hslot

/-- A handle is put in a slot. -/
theorem give (h : Chronicled history workspace) {store : Store} {past : History} {new : FrameRef}
    (hfollows : Follows past store) (hmade : new ∈ made past)
    (hpast : ∀ ref ∈ made history, ref ∈ made past)
    (hsize : store.arenas.size = workspace.store.arenas.size) (target : String) :
    Chronicled past (workspace.give target (new, store)) where
  toFollows := hfollows
  arena_lt := hsize.symm ▸ h.arena_lt
  handles {slot ref} hslot := by
    by_cases heq : slot = target
    · rw [heq, Workspace.give, Slots.get?_put_self] at hslot
      exact Option.some.inj hslot ▸ hmade
    · rw [Workspace.give, Slots.get?_put_of_ne heq] at hslot
      exact hpast ref (h.handles hslot)

/-- A frame is made and its handle is put in a slot. -/
theorem giveNew (h : Chronicled history workspace) {frame : Frame}
    (hmade : event.made? = some (workspace.store.addFrame arena frame).1)
    (hfollows : Follows (event :: history) (workspace.store.addFrame arena frame).2)
    (target : String) :
    Chronicled (event :: history)
      (workspace.give target (workspace.store.addFrame arena frame)) := by
  refine h.give hfollows (mem_made_cons.2 (.inl hmade))
    (fun ref href => mem_made_cons.2 (.inr href)) ?_ target
  simp [Store.addFrame, Store.modifyArena]

/-- The bindings of a frame are changed. -/
theorem change (h : Chronicled history workspace) {change : Table Value → Table Value}
    (hfollows : Follows (event :: history) (workspace.store.modifyTable ref change)) :
    Chronicled (event :: history)
      { workspace with store := workspace.store.modifyTable ref change } where
  toFollows := hfollows
  arena_lt := by simpa [Store.modifyTable, Store.modifyArena] using h.arena_lt
  handles hslot := mem_made_cons.2 (.inr (h.handles hslot))

/-- The root of a frame that was made was made. -/
theorem root_mem_made (h : Chronicled history workspace) (href : ref ∈ made history) :
    workspace.store.root ref ∈ made history := by
  have haround := (h.describes href).around
  refine h.sound.mem_made_of_around href haround _ ?_
  rw [h.root_eq href haround]
  cases hlast : (workspace.store.frame ref).ancestors.getLast? with
  | none => simp [List.getLastD_eq_getLast?, hlast]
  | some last =>
      simpa [List.getLastD_eq_getLast?, hlast] using .inr (List.mem_of_getLast? hlast)

/-- A command that begins by looking into a slot. -/
theorem of_environment (h : Chronicled history workspace) {command : EnvironmentCommand}
    {env : String} {rest : FrameRef → WorkM Reply}
    (hperform : command.perform = WorkM.environment env >>= rest)
    (hnone : workspace.environments.get? env = none → workspace.event? command = none)
    (hsome : ∀ ref, workspace.environments.get? env = some ref →
      Chronicled ((workspace.event? command).toList ++ history) ((rest ref).outcome workspace).2) :
    Chronicled ((workspace.event? command).toList ++ history)
      (workspace.answer (.environment command)).2 := by
  cases henv : workspace.environments.get? env with
  | none =>
      rw [snd_answer, Command.perform, hperform, WorkM.environment,
        WorkM.outcome_bind_error (WorkM.outcome_slot_none henv), hnone henv]
      exact h
  | some ref =>
      rw [snd_answer_environment hperform henv]
      exact hsome ref henv

/-- **One command.** -/
theorem answer (h : Chronicled history workspace) (command : EnvironmentCommand) :
    Chronicled ((workspace.event? command).toList ++ history)
      (workspace.answer (.environment command)).2 := by
  cases command with
  | newRoot target =>
      rw [event?_newRoot]
      exact h.giveNew rfl (h.newRoot h.arena_lt) target
  | extend env target =>
      refine h.of_environment rfl (fun hnone => by simp [event?, hnone]) fun ref href => ?_
      rw [event?_extend href]
      exact h.giveNew rfl (h.extend h.arena_lt (h.handles href)) target
  | snapshot env target =>
      refine h.of_environment rfl (fun hnone => by simp [event?, hnone]) fun ref href => ?_
      rw [event?_snapshot href]
      exact h.giveNew rfl (h.snapshot h.arena_lt (h.handles href)) target
  | handle env target =>
      exact h.of_environment rfl (fun _ => rfl) fun ref href =>
        h.give h.toFollows (h.handles href) (fun _ hmem => hmem) rfl target
  | root env target =>
      exact h.of_environment rfl (fun _ => rfl) fun ref href =>
        h.give h.toFollows (h.root_mem_made (h.handles href)) (fun _ hmem => hmem) rfl target
  | forget env =>
      refine ⟨h.toFollows, h.arena_lt, fun {slot ref} hslot => ?_⟩
      by_cases heq : slot = env
      · cases (Slots.get?_remove_self workspace.environments env).symm.trans (heq ▸ hslot)
      · exact h.handles ((Slots.get?_remove_of_ne heq).symm.trans hslot)
  | bind env name slot =>
      refine h.of_environment rfl (fun hnone => by simp [event?, hnone]) fun ref href => ?_
      rw [WorkM.value]
      cases hvalue : workspace.values.get? slot with
      | none =>
          rw [WorkM.outcome_bind_error (WorkM.outcome_slot_none hvalue)]
          simpa [event?, href, hvalue] using h
      | some value =>
          have hevent : workspace.event? (.bind env name slot) =
              some (.bind ref (.ofString name) value) := by
            simp [event?, href, hvalue]
          rw [WorkM.outcome_bind_ok (WorkM.outcome_slot hvalue), hevent]
          exact h.change (h.bind ref (.ofString name) value)
  | clear env =>
      refine h.of_environment rfl (fun hnone => by simp [event?, hnone]) fun ref href => ?_
      have hevent : workspace.event? (.clear env) = some (.clear ref) := by simp [event?, href]
      rw [hevent]
      exact h.change (h.clear ref)
  | release env =>
      refine h.of_environment rfl (fun hnone => by simp [event?, hnone]) fun ref href => ?_
      show Chronicled _ (workspace.release ref).2
      obtain ⟨census, hrelease | hrelease⟩ := workspace.release_cases ref
      · have hevent : workspace.event? (.release env) = some (.clear ref) := by
          simp [event?, href, hrelease]
        rw [hevent, hrelease]
        have hclear := h.change (h.clear ref)
        exact ⟨hclear.toFollows, hclear.arena_lt, hclear.handles⟩
      · have hevent : workspace.event? (.release env) = none := by simp [event?, href, hrelease]
        rw [hevent, hrelease]
        exact ⟨h.toFollows, h.arena_lt, h.handles⟩
  | lookup env name target =>
      refine h.of_environment rfl (fun _ => rfl) fun ref href => ?_
      have hinspect : (WorkM.inspect (·.lookup ref (.ofString name))).outcome workspace =
          (.ok (workspace.store.lookup ref (.ofString name)), workspace) := rfl
      rw [WorkM.outcome_bind_ok hinspect]
      cases workspace.store.lookup ref (.ofString name) with
      | none => exact h
      | some found =>
          -- a value that is put in a slot is no handle
          cases target with
          | none => exact h
          | some slot => exact ⟨h.toFollows, h.arena_lt, h.handles⟩
  | same left right =>
      refine h.of_environment rfl (fun _ => rfl) fun ref href => ?_
      cases hright : workspace.environments.get? right with
      | none =>
          rw [WorkM.environment, WorkM.outcome_bind_error (WorkM.outcome_slot_none hright)]
          exact h
      | some other =>
          rw [WorkM.environment, WorkM.outcome_bind_ok (WorkM.outcome_slot hright)]
          exact h
  | contains env name => exact h.of_environment rfl (fun _ => rfl) fun _ _ => h
  | bindings env => exact h.of_environment rfl (fun _ => rfl) fun _ _ => h

/-- **Many commands.** -/
theorem carryOut (h : Chronicled history workspace) (commands : List EnvironmentCommand) :
    Chronicled (workspace.history commands ++ history) (workspace.carryOut commands) := by
  induction commands generalizing history workspace with
  | nil => exact h
  | cons command rest ih =>
      rw [Workspace.history, List.append_assoc]
      exact ih (h.answer command)

/-- Commands that change other frames leave the bindings of a frame alone. -/
theorem lookup_table_carryOut (h : Chronicled history workspace) (hmade : ref ∈ made history)
    {commands : List EnvironmentCommand}
    (hothers : ∀ event ∈ workspace.history commands, event.changed? ≠ some ref) (name : Symbol) :
    ((workspace.carryOut commands).store.table ref).lookup name =
      (workspace.store.table ref).lookup name := by
  have hafter := h.carryOut commands
  have hnodup := hafter.sound.nodup
  rw [made, List.filterMap_append] at hnodup
  have hrecent : ref ∉ made (workspace.history commands) := fun hmem =>
    (List.nodup_append.1 hnodup).2.2 ref hmem ref hmade rfl
  have hmade' : ref ∈ made (workspace.history commands ++ history) := by
    rw [made, List.filterMap_append]
    exact List.mem_append_right _ hmade
  rw [hafter.lookup_table hmade', held_append_of_ne hrecent hothers, h.lookup_table hmade]

end Chronicled

namespace Workspace

/-- **Environments are as their history says.** Every handle is on a frame that was made. Around it
are its parent, the parent of that one and so on, up to the root, which is the root of all of them.
A name means what the nearest of these frames holds for it, so a binding in any of them is seen by
all frames further in unless one between them holds the name. What a frame holds is not changed by
what happens to others, of which a copy of the frame is one. Another handle is on the same frame. -/
theorem environments_follow_history (start : Workspace)
    (harena : arena < start.store.arenas.size) (hnil : start.environments = [])
    (commands : List EnvironmentCommand) :
    let history := start.history commands
    let workspace := start.carryOut commands
    let store := workspace.store
    history.made.Nodup ∧
    (∀ env ref, workspace.environments.get? env = some ref → ref ∈ history.made) ∧
    (∀ ref ∈ history.made, ∃ frames, Around history ref frames ∧
      (∀ name, (store.table ref).lookup name = history.held ref name) ∧
      (∀ name, store.lookup ref name = (ref :: frames).findSome? (history.held · name)) ∧
      (∀ near outer far name value, ref :: frames = near ++ outer :: far →
        (∀ frame ∈ near, history.held frame name = none) →
        (store.bind outer name value).lookup ref name = some value) ∧
      store.root ref = frames.getLastD ref ∧ history.parent? (store.root ref) = none ∧
      (∀ outer ∈ frames, store.root outer = store.root ref)) ∧
    (∀ source copy, .snapshot source copy ∈ history →
      source ∈ history.made ∧ copy ∈ history.made ∧ source ≠ copy ∧
        history.parent? copy = history.parent? source) ∧
    (∀ ref ∈ history.made, ∀ more,
      (∀ event ∈ workspace.history more, event.changed? ≠ some ref) →
      ∀ name, ((workspace.carryOut more).store.table ref).lookup name =
        (store.table ref).lookup name) ∧
    (∀ env target ref, workspace.environments.get? env = some ref →
      (workspace.carryOut [.handle env target]).environments.get? target = some ref ∧
      (workspace.carryOut [.root env target]).environments.get? target =
        some (store.root ref)) := by
  intro history workspace store
  have h : Chronicled history workspace := by
    have hrun := (Chronicled.of_environments_eq_nil harena hnil).carryOut commands
    rwa [List.append_nil] at hrun
  refine ⟨h.sound.nodup, fun env ref => h.handles, fun ref hmade => ?_,
    fun source copy => h.sound.snapshot,
    fun ref hmade more hothers => h.lookup_table_carryOut hmade hothers,
    fun env target ref henv => ⟨?_, ?_⟩⟩
  · have haround := (h.describes hmade).around
    exact ⟨_, haround, h.lookup_table hmade, h.lookup hmade haround,
      fun _ _ _ _ value hframes hnear => h.lookup_bind hmade haround hframes hnear value,
      h.root_eq hmade haround, h.root_eq hmade haround ▸ haround.parent?_getLastD,
      fun _ => h.root_eq_of_mem hmade haround⟩
  · have hanswer : workspace.carryOut [.handle env target] =
        workspace.give target (ref, store) := (snd_answer_environment rfl henv).trans rfl
    rw [hanswer]
    exact Slots.get?_put_self _ _ _
  · have hanswer : workspace.carryOut [.root env target] =
        workspace.give target (store.root ref, store) :=
      (snd_answer_environment rfl henv).trans rfl
    rw [hanswer]
    exact Slots.get?_put_self _ _ _

/-- A copy, in slot `c`, of a frame that is cleared afterwards, both inside of one root. -/
def copying : List EnvironmentCommand :=
  [.newRoot "g", .bind "g" "x" "one", .extend "g" "e", .bind "e" "x" "two", .snapshot "e" "c",
   .handle "e" "h", .clear "h", .bind "g" "y" "two"]

/-- A workspace with two values. -/
def supplied : Workspace :=
  { census := none, values := [("one", .integer 1), ("two", .integer 2)] }

/-- The copy still holds what its source has lost, and both see what is bound in the root. -/
theorem environments_follow_history_copying :
    let history := supplied.history copying
    let store := (supplied.carryOut copying).store
    supplied.environments = [] ∧ .snapshot ⟨0, 1⟩ ⟨0, 2⟩ ∈ history ∧
    store.lookup ⟨0, 1⟩ (.ofString "x") = some (.integer 1) ∧
    store.lookup ⟨0, 2⟩ (.ofString "x") = some (.integer 2) ∧
    store.lookup ⟨0, 1⟩ (.ofString "y") = store.lookup ⟨0, 2⟩ (.ofString "y") ∧
    store.root ⟨0, 1⟩ = store.root ⟨0, 2⟩ := by
  intro history store
  have hsnapshot : .snapshot ⟨0, 1⟩ ⟨0, 2⟩ ∈ history := by decide +kernel
  have haround : ∀ ref ∈ [⟨0, 1⟩, ⟨0, 2⟩], Around history ref [⟨0, 0⟩] := by
    have hparents : ∀ ref ∈ [⟨0, 1⟩, ⟨0, 2⟩], history.parent? ref = some ⟨0, 0⟩ := by decide +kernel
    exact fun ref href => .inside (hparents ref href) (.root (by decide +kernel))
  obtain ⟨-, -, hframes, hcopies, -⟩ := environments_follow_history supplied (by decide) rfl copying
  obtain ⟨hsource, hcopy, -⟩ := hcopies ⟨0, 1⟩ ⟨0, 2⟩ hsnapshot
  obtain ⟨frames, hunique, -, hlookup, -, hroot, -⟩ := hframes ⟨0, 1⟩ hsource
  obtain rfl := hunique.unique (haround ⟨0, 1⟩ (by decide))
  obtain ⟨frames, hunique, -, hlookup', -, hroot', -⟩ := hframes ⟨0, 2⟩ hcopy
  obtain rfl := hunique.unique (haround ⟨0, 2⟩ (by decide))
  refine ⟨rfl, hsnapshot, (hlookup _).trans (by decide +kernel),
    (hlookup' _).trans (by decide +kernel), ?_, hroot.trans hroot'.symm⟩
  rw [hlookup, hlookup']
  decide +kernel

end Workspace

end SmallLisp
