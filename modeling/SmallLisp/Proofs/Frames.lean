import SmallLisp.Proofs.Running

/-!
# The frames that evaluation writes to

Definitions are made in the frame that a form is evaluated in, parameters are bound in the new
frame of a call, and the native `eval` goes back to the global frame. So an evaluation writes to
its own frame and to the global one, and all it does there is to define names; every other frame
that was there before is left alone, and none gets other frames around it.

## Main results

* `FramesKept.trans`, `FramesKept.of_fresh` — what is kept by one change after another, and that
  writing to a frame that was not there before is no writing at all.
* `framesLogic` — the logic of evaluations that keep the frames.
* `evalIn_writes_only_scope_and_globals` — what an evaluation, and a call, leave untouched.
-/

namespace SmallLisp

namespace Store

/-! ### Frames after a change of the store -/

theorem frame?_modifyArena (store : Store) (index : Nat) {change : Arena → Arena}
    (h : ∀ arena, (change arena).frames = arena.frames) (ref : FrameRef) :
    (store.modifyArena index change).frame? ref = store.frame? ref := by
  simp only [frame?, modifyArena, Array.getElem?_modify]
  split
  · cases store.arenas[ref.arena]? with
    | none => rfl
    | some arena => simp [h arena]
  · rfl

theorem frame?_cons (store : Store) (arena : Nat) (car cdr : Value) (ref : FrameRef) :
    (store.cons arena car cdr).2.frame? ref = store.frame? ref :=
  frame?_modifyArena store arena (by intro _; rfl) ref

theorem frame?_listWithTail (store : Store) (arena : Nat) (items : List Value) (tail : Value)
    (ref : FrameRef) : (store.listWithTail arena items tail).2.frame? ref = store.frame? ref := by
  induction items with
  | nil => rfl
  | cons item rest ih => exact (frame?_cons _ _ _ _ ref).trans ih

theorem frame?_ofDatum (store : Store) (arena : Nat) (datum : Datum) (ref : FrameRef) :
    (store.ofDatum arena datum).2.frame? ref = store.frame? ref := by
  induction datum generalizing store with
  | pair car cdr ihcar ihcdr =>
      simp only [ofDatum]
      rw [frame?_cons, ihcar, ihcdr]
  | _ => rfl

theorem frame?_ofData (store : Store) (arena : Nat) (data : List Datum) (ref : FrameRef) :
    (store.ofData arena data).2.frame? ref = store.frame? ref := by
  induction data generalizing store with
  | nil => rfl
  | cons datum rest ih => exact (ih _).trans (frame?_ofDatum store arena datum ref)

/-- The place of a new frame was free. -/
theorem frame?_addFrame_self (store : Store) (arena : Nat) (frame : Frame) :
    store.frame? (store.addFrame arena frame).1 = none := by
  simp only [frame?, addFrame]
  cases store.arenas[arena]? with
  | none => rfl
  | some arena => simp

theorem frame?_addFrame_new {store : Store} {arena : Nat} (harena : arena < store.arenas.size)
    (frame : Frame) :
    (store.addFrame arena frame).2.frame? (store.addFrame arena frame).1 = some frame := by
  simp [addFrame, frame?, modifyArena, Array.getElem_modify, harena]

theorem frame?_addFrame_of_some {store : Store} {ref : FrameRef} {frame : Frame}
    (h : store.frame? ref = some frame) (arena : Nat) (new : Frame) :
    (store.addFrame arena new).2.frame? ref = some frame := by
  obtain ⟨found, harena, hframe⟩ := Option.bind_eq_some_iff.1 h
  obtain ⟨hlt, -⟩ := Array.getElem?_eq_some_iff.1 hframe
  simp only [frame?, addFrame, modifyArena, Array.getElem?_modify, harena]
  split
  · simp [Array.getElem?_push, Nat.ne_of_lt hlt, hframe]
  · exact hframe

theorem frame?_modifyTable (store : Store) (target : FrameRef)
    (change : Table Value → Table Value) (ref : FrameRef) :
    (store.modifyTable target change).frame? ref =
      if ref = target then
        (store.frame? ref).map fun frame => { frame with table := change frame.table }
      else store.frame? ref := by
  obtain ⟨arena, index⟩ := ref
  obtain ⟨targetArena, targetIndex⟩ := target
  simp only [frame?, modifyTable, modifyArena, Array.getElem?_modify, Ref.mk.injEq]
  by_cases harena : targetArena = arena
  · subst harena
    cases store.arenas[targetArena]? with
    | none => simp
    | some found =>
        by_cases hindex : targetIndex = index
        · simp [hindex, Array.getElem?_modify]
        · simp [hindex, Ne.symm hindex, Array.getElem?_modify]
  · simp [harena, Ne.symm harena]

end Store

/-- The table after definitions made one after the other. -/
def Table.insertAll {α : Type} (table : Table α) (definitions : List (Symbol × α)) : Table α :=
  definitions.foldl (fun table definition => table.insert definition.1 definition.2) table

namespace Table

variable {α : Type}

@[simp] theorem insertAll_nil (table : Table α) : table.insertAll [] = table := rfl

theorem insertAll_append (table : Table α) (first second : List (Symbol × α)) :
    table.insertAll (first ++ second) = (table.insertAll first).insertAll second :=
  List.foldl_append

theorem isSome_lookup_insertAll {table : Table α} {name : Symbol}
    (h : (table.lookup name).isSome) (definitions : List (Symbol × α)) :
    ((table.insertAll definitions).lookup name).isSome := by
  induction definitions generalizing table with
  | nil => exact h
  | cons definition rest ih =>
      refine ih ?_
      by_cases heq : name = definition.1
      · simp [heq]
      · rwa [lookup_insert_of_ne heq]

end Table

/-- What is left of the frames of a store by changes that may write to some of them. -/
structure FramesKept (writable : FrameRef → Prop) (before after : Store) : Prop where
  /-- A frame that may not be written to is the same afterwards. -/
  frame {ref : FrameRef} {frame : Frame} :
    before.frame? ref = some frame → ¬writable ref → after.frame? ref = some frame
  /-- All that happens to a frame is that names are defined there. -/
  grown {ref : FrameRef} {frame : Frame} : before.frame? ref = some frame →
    ∃ definitions,
      after.frame? ref = some { frame with table := frame.table.insertAll definitions }

namespace FramesKept

variable {writable other : FrameRef → Prop} {before middle after : Store}

/-- The frames around a frame stay. -/
theorem ancestors (h : FramesKept writable before after) {ref : FrameRef} {frame : Frame}
    (hframe : before.frame? ref = some frame) :
    ∃ frame', after.frame? ref = some frame' ∧ frame'.ancestors = frame.ancestors := by
  obtain ⟨_, hgrown⟩ := h.grown hframe
  exact ⟨_, hgrown, rfl⟩

/-- A bound name stays bound. -/
theorem names (h : FramesKept writable before after) {ref : FrameRef} {name : Symbol}
    (hname : ((before.table ref).lookup name).isSome) :
    ((after.table ref).lookup name).isSome := by
  cases hframe : before.frame? ref with
  | none => simp [Store.table, Store.frame, hframe, Table.lookup, Table.find] at hname
  | some frame =>
      obtain ⟨definitions, hgrown⟩ := h.grown hframe
      simp only [Store.table, Store.frame, hframe, hgrown, Option.getD_some] at hname ⊢
      exact Table.isSome_lookup_insertAll hname definitions

theorem refl (writable : FrameRef → Prop) (store : Store) : FramesKept writable store store where
  frame := fun h _ => h
  grown := fun h => ⟨[], h⟩

theorem trans (h : FramesKept writable before middle) (h' : FramesKept writable middle after) :
    FramesKept writable before after where
  frame := fun hframe hnot => h'.frame (h.frame hframe hnot) hnot
  grown := fun hframe => by
    obtain ⟨first, hmiddle⟩ := h.grown hframe
    obtain ⟨second, hafter⟩ := h'.grown hmiddle
    exact ⟨first ++ second, by rw [hafter, Table.insertAll_append]⟩

theorem mono (h : FramesKept writable before after) (himp : ∀ ref, writable ref → other ref) :
    FramesKept other before after where
  frame := fun hframe hnot => h.frame hframe fun hwritable => hnot (himp _ hwritable)
  grown := h.grown

/-- Writing to a frame that was not there before leaves all frames alone that were. -/
theorem of_fresh {fresh : FrameRef} (hfresh : before.frame? fresh = none)
    (h : FramesKept (fun ref => writable ref ∨ ref = fresh) before after) :
    FramesKept writable before after where
  frame := fun hframe hnot => h.frame hframe fun
    | .inl hwritable => hnot hwritable
    | .inr heq => by simp [heq, hfresh] at hframe
  grown := h.grown

/-- Taking the bindings out of a frame that was not there before leaves all frames alone that
were. -/
theorem clear_fresh {fresh : FrameRef} (hfresh : before.frame? fresh = none)
    (h : FramesKept writable before after) : FramesKept writable before (after.clear fresh) := by
  have hother : ∀ {ref frame}, before.frame? ref = some frame →
      (after.clear fresh).frame? ref = after.frame? ref := by
    intro ref frame hframe
    have hne : ref ≠ fresh := by
      rintro rfl
      simp [hfresh] at hframe
    rw [Store.clear, Store.frame?_modifyTable, if_neg hne]
  constructor
  · intro ref frame hframe hnot
    rw [hother hframe]
    exact h.frame hframe hnot
  · intro ref frame hframe
    rw [hother hframe]
    exact h.grown hframe

/-- A change under which every frame is found again has kept them all. -/
theorem of_frame? (h : ∀ ref frame, before.frame? ref = some frame →
    after.frame? ref = some frame) : FramesKept writable before after where
  frame := fun hframe _ => h _ _ hframe
  grown := fun hframe => ⟨[], h _ _ hframe⟩

end FramesKept

/-! ### Frames after the operations of evaluation -/

section

variable {writable : FrameRef → Prop} (store : Store)

theorem framesKept_modifyArena (index : Nat) {change : Arena → Arena}
    (h : ∀ arena, (change arena).frames = arena.frames) :
    FramesKept writable store (store.modifyArena index change) :=
  .of_frame? fun ref _ hframe => (store.frame?_modifyArena index h ref).trans hframe

theorem framesKept_listWithTail (arena : Nat) (items : List Value) (tail : Value) :
    FramesKept writable store (store.listWithTail arena items tail).2 :=
  .of_frame? fun ref _ hframe => (store.frame?_listWithTail arena items tail ref).trans hframe

theorem framesKept_ofDatum (arena : Nat) (datum : Datum) :
    FramesKept writable store (store.ofDatum arena datum).2 :=
  .of_frame? fun ref _ hframe => (store.frame?_ofDatum arena datum ref).trans hframe

theorem framesKept_ofData (arena : Nat) (data : List Datum) :
    FramesKept writable store (store.ofData arena data).2 :=
  .of_frame? fun ref _ hframe => (store.frame?_ofData arena data ref).trans hframe

theorem framesKept_addFrame (arena : Nat) (frame : Frame) :
    FramesKept writable store (store.addFrame arena frame).2 :=
  .of_frame? fun _ _ hframe => Store.frame?_addFrame_of_some hframe arena frame

theorem framesKept_bind {target : FrameRef} (htarget : writable target) (name : Symbol)
    (value : Value) : FramesKept writable store (store.bind target name value) where
  frame {ref frame} hframe hnot := by
    have hne : ref ≠ target := fun heq => hnot (heq ▸ htarget)
    rw [Store.bind, Store.frame?_modifyTable, if_neg hne]
    exact hframe
  grown {ref frame} hframe := by
    rw [Store.bind, Store.frame?_modifyTable, hframe]
    split
    · exact ⟨[(name, value)], rfl⟩
    · exact ⟨[], rfl⟩

theorem framesKept_bindAll {target : FrameRef} (htarget : writable target)
    (names : List Symbol) (values : List Value) :
    FramesKept writable store (store.bindAll target names values) := by
  unfold Store.bindAll
  generalize names.zip values = pairs
  induction pairs generalizing store with
  | nil => exact .refl writable store
  | cons pair rest ih => exact (framesKept_bind store htarget pair.1 pair.2).trans (ih _)

theorem framesKept_bindArgs {target : FrameRef} (htarget : writable target) (arena : Nat)
    (params : Params) (args : List Value) :
    FramesKept writable store (store.bindArgs arena params target args) := by
  have hrequired := framesKept_bindAll store htarget params.required args
  unfold Store.bindArgs
  split
  · exact hrequired
  · exact (hrequired.trans (framesKept_listWithTail _ arena _ .nil)).trans
      (framesKept_bind _ htarget _ _)

end

namespace Eval

open EvalM

/-! ### The logic of kept frames -/

/-- The frames that may be written to: the global one and the one of the evaluation. -/
def Writable (globals : FrameRef) (scope : Option FrameRef) (ref : FrameRef) : Prop :=
  ref = globals ∨ scope = some ref

/-- An evaluation that keeps the frames it may not write to, and whose results are as stated. -/
def KeepsFrames {α : Type} (globals : FrameRef) (scope : Option FrameRef) (post : α → Prop)
    (evaluation : EvalM α) : Prop :=
  ∀ held machine,
    FramesKept (Writable globals scope) machine.store (evaluation.outcome held machine).2.store ∧
      ∀ a, (evaluation.outcome held machine).1 = .ok a → post a

section

variable {α β : Type} {globals : FrameRef} {scope : Option FrameRef} {post : α → Prop}

theorem KeepsFrames.pure {a : α} (h : post a) : KeepsFrames globals scope post (pure a) :=
  fun _ machine => ⟨.refl _ machine.store, fun _ heq => Except.ok.inj heq ▸ h⟩

theorem KeepsFrames.bind {P : β → Prop} {f : EvalM α} {k : α → EvalM β}
    (h : KeepsFrames globals scope post f) (hk : ∀ a, post a → KeepsFrames globals scope P (k a)) :
    KeepsFrames globals scope P (f >>= k) := by
  intro held machine
  obtain ⟨hkept, hpost⟩ := h held machine
  rw [outcome_bind]
  rcases hout : f.outcome held machine with ⟨halt | a, after⟩
  · rw [hout] at hkept
    exact ⟨hkept, fun _ heq => nomatch heq⟩
  · rw [hout] at hkept hpost
    obtain ⟨hkept', hpost'⟩ := hk a (hpost a rfl) held after
    exact ⟨hkept.trans hkept', hpost'⟩

theorem KeepsFrames.fail (e : Error) : KeepsFrames globals scope post (EvalM.fail e) :=
  fun _ machine => ⟨.refl _ machine.store, fun _ heq => nomatch heq⟩

theorem KeepsFrames.inspect {view : Store → α} (h : ∀ store, post (view store)) :
    KeepsFrames globals scope post (EvalM.inspect view) :=
  fun _ machine => ⟨.refl _ machine.store, fun _ heq => Except.ok.inj heq ▸ h machine.store⟩

theorem KeepsFrames.update {change : Store → α × Store}
    (h : ∀ store, FramesKept (Writable globals scope) store (change store).2)
    (hpost : ∀ store, post (change store).1) :
    KeepsFrames globals scope post (EvalM.update change) :=
  fun _ machine => ⟨h machine.store, fun _ heq => Except.ok.inj heq ▸ hpost machine.store⟩

theorem KeepsFrames.limited (limit : Nat) {f : EvalM α} (h : KeepsFrames globals scope post f) :
    KeepsFrames globals scope post (EvalM.limited limit f) := by
  intro held machine
  rw [outcome_limited]
  split
  · exact ⟨.refl _ _, fun _ heq => nomatch heq⟩
  · exact h held { machine with depth := machine.depth + 1 }

theorem KeepsFrames.mono {other : Option FrameRef} {f : EvalM α}
    (h : KeepsFrames globals scope post f)
    (himp : ∀ ref, Writable globals scope ref → Writable globals other ref) :
    KeepsFrames globals other post f :=
  fun held machine => ⟨(h held machine).1.mono himp, (h held machine).2⟩

theorem KeepsFrames.applyHost (function : HostFunction) (args : List Value) :
    KeepsFrames globals scope (fun _ => True) (Eval.applyHost function args) := by
  intro held machine
  rw [outcome_applyHost]
  exact ⟨.refl _ _, fun _ _ => trivial⟩

/-- At the end of a call its frame may lose its bindings again. -/
theorem framesKept_within {writable : FrameRef → Prop} {before : Store} {fresh : FrameRef}
    {body : EvalM Value} {held : List Hold} {machine : Machine}
    (hfresh : before.frame? fresh = none)
    (h : FramesKept writable before
      (body.outcome (.frames [fresh] :: held) machine).2.store) :
    FramesKept writable before ((EvalM.within fresh body).outcome held machine).2.store := by
  rw [outcome_within]
  rcases Machine.store_leave (body.outcome (.frames [fresh] :: held) machine).2 _ fresh with
    hleave | hleave
  · rw [hleave]
    exact h
  · rw [hleave]
    exact h.clear_fresh hfresh

/-- A call of a lambda writes to the global frame only: the frame in which its body runs was not
there before. -/
theorem KeepsFrames.invoke {session : Session} {p : Task → EvalM Value} (ref : LambdaRef)
    (anonymous : String) (args : List Value)
    (hbody : ∀ body frame,
      KeepsFrames session.globals (some frame) (fun _ => True) (evalBody p body frame)) :
    KeepsFrames session.globals none (fun _ => True)
      (Eval.invoke session p ref anonymous args) := by
  intro held machine
  refine ⟨?_, fun _ _ => trivial⟩
  let lambda := machine.store.lambda ref
  let frame := (machine.store.extend session.arena lambda.scope).1
  let extended := (machine.store.extend session.arena lambda.scope).2
  have hfresh : machine.store.frame? frame = none :=
    machine.store.frame?_addFrame_self session.arena _
  have hextend : FramesKept (fun other => Writable session.globals none other ∨ other = frame)
      machine.store extended :=
    framesKept_addFrame machine.store session.arena _
  refine .of_fresh hfresh ?_
  unfold Eval.invoke
  rw [outcome_bind_ok (outcome_inspect _ _ _), outcome_bind_ok (outcome_update _ _ _)]
  split
  · exact hextend
  · rw [outcome_bind_ok (outcome_update _ _ _)]
    have hbound := hextend.trans
      (framesKept_bindArgs extended (.inr rfl) session.arena lambda.params args)
    have hrun := (hbody lambda.body frame (.frames [frame] :: held)
      { machine with store := extended.bindArgs session.arena lambda.params frame args }).1
    have hcalled := hbound.trans (hrun.mono fun other hother => by
      rcases hother with hglobals | hframe
      · exact .inl (.inl hglobals)
      · exact .inr (Option.some.inj hframe).symm)
    exact framesKept_within hfresh hcalled

end

/-- The logic of evaluations that keep the frames of a session. -/
def framesLogic (session : Session) : PlainLogic fun _ : Unit => session where
  World := Unit
  deeper := id
  globals := session.globals
  natives := session.natives
  holds := fun _ scope post f => KeepsFrames session.globals scope post (f ())
  globals_eq := session.globals_const
  natives_eq := session.natives_const
  pure := .pure
  bind := .bind
  fail := fun e _ => .fail e
  holding := fun values h held => h (.values values :: held)
  limited := fun h => h.limited _
  anywhere := fun h => h.mono fun _ => Or.imp_right nofun
  inGlobals := fun h => h.mono fun _ => fun
    | .inl heq => .inl heq
    | .inr heq => .inl (Option.some.inj heq).symm
  inspect := .inspect
  listWithTail := fun _ _ =>
    .update (fun store => framesKept_listWithTail store _ _ _) fun _ => trivial
  ofData := fun _ => .update (fun store => framesKept_ofData store _ _) fun _ => trivial
  addLambda := fun _ =>
    .update (fun store => framesKept_modifyArena store _ fun _ => rfl) fun _ => trivial
  define := fun _ _ _ =>
    .update (fun store => framesKept_bind store (.inr rfl) _ _) fun _ => trivial
  modifyCell := fun _ _ =>
    .update (fun store => framesKept_modifyArena store _ fun _ => rfl) fun _ => trivial
  host := fun _ _ => .applyHost _ _
  invoke := .invoke

/-- Every run keeps the frames that its task may not write to. -/
theorem run_keepsFrames (session : Session) (fuel : Nat) (task : Task) :
    KeepsFrames session.globals task.scope? (fun _ => True) (run session fuel task) :=
  (framesLogic session).run
    (fun _ _ _ machine => ⟨.refl _ machine.store, fun _ _ => trivial⟩) fuel () task

end Eval

namespace Session

open Eval

/-- **Evaluation writes only where it may.** However the evaluation of a form ends, the frames
that were there before have the same bindings afterwards, except for the frame it was evaluated
in and the global frame. The frames around every frame stay, and all names bound in these two
stay bound. A call has no frame of its own among those that were there, so it can only change
the global frame: the frame of its caller, of another call or of the closure itself is left
alone. -/
theorem evalIn_writes_only_scope_and_globals (session : Session) (fuel : Nat)
    (held : List Hold) (machine : Machine) :
    (∀ form scope,
      let after := ((session.evalIn fuel form scope).outcome held machine).2.store
      (∀ ref frame, machine.store.frame? ref = some frame →
        (ref ≠ scope → ref ≠ session.globals → after.frame? ref = some frame) ∧
        ∃ frame', after.frame? ref = some frame' ∧ frame'.ancestors = frame.ancestors) ∧
      ∀ name,
        (((machine.store.table scope).lookup name).isSome →
          ((after.table scope).lookup name).isSome) ∧
        (((machine.store.table session.globals).lookup name).isSome →
          ((after.table session.globals).lookup name).isSome)) ∧
    ∀ callee args ref frame, machine.store.frame? ref = some frame → ref ≠ session.globals →
      ((session.apply fuel callee args).outcome held machine).2.store.frame? ref =
        some frame := by
  refine ⟨fun form scope => ?_, fun callee args ref frame hframe hglobals => ?_⟩
  · have hkept := (run_keepsFrames session fuel (.eval form scope) (.values [form] :: held)
      machine).1
    refine ⟨fun ref frame hframe => ⟨fun hscope hglobals => ?_, hkept.ancestors hframe⟩,
      fun name => ⟨hkept.names, hkept.names⟩⟩
    refine hkept.frame hframe fun hwritable => ?_
    rcases hwritable with heq | heq
    · exact hglobals heq
    · exact hscope (Option.some.inj heq).symm
  · have hkept := (run_keepsFrames session fuel (.apply callee args) (.values [callee] :: held)
      machine).1
    refine hkept.frame hframe fun hwritable => ?_
    rcases hwritable with heq | heq
    · exact hglobals heq
    · exact nomatch heq

/-- The form `(def x 1)` evaluated in one of two frames that both bind `x`: the other frame keeps
its binding. -/
theorem evalIn_def_writes_only_its_frame :
    let x := Symbol.ofString "x"
    let inner : Frame := { table := Table.empty.insert x .t, ancestors := [⟨0, 0⟩] }
    let form := Store.ofDatum ⟨#[{ frames := #[{}, inner, inner] }]⟩ 0
      (.list [.symbol (.ofString "def"), .symbol x, .integer 1])
    let session : Session := { globals := ⟨0, 0⟩ }
    let after := ((session.evalIn 2 form.1 ⟨0, 1⟩).outcome [] { store := form.2 }).2.store
    form.2.frame? ⟨0, 2⟩ = some inner ∧ (after.table ⟨0, 1⟩).lookup x = some (.integer 1) ∧
      after.frame? ⟨0, 2⟩ = some inner := by
  intro x inner form session after
  have hframe : form.2.frame? ⟨0, 2⟩ = some inner := rfl
  have hkept := (evalIn_writes_only_scope_and_globals session 2 [] { store := form.2 }).1 form.1
    ⟨0, 1⟩
  exact ⟨hframe, by decide, (hkept.1 _ _ hframe).1 (by decide) (by decide)⟩

end Session

end SmallLisp
