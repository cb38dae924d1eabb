import SmallLisp.Proofs.Running
import SmallLisp.Proofs.PairedStores

/-!
# The builtins that evaluation deals with

A builtin value is a name, and the function behind it is found in the table of a session when it is
called. Evaluation copies builtins from one place to another but makes none: if all builtins in a
store have names from some collection, this stays so. Hence a call that finds no function is one
under a name from that collection.

## Main results

* `Store.Named.contents` — nothing in a store is a builtin under any other name.
* `Eval.namedLogic` — evaluation makes no builtins, and misses functions only under these names.
-/

namespace SmallLisp

/-- The value is no builtin, or it has one of these names. -/
def Value.Named (known : Symbol → Prop) (value : Value) : Prop :=
  ∀ name, value = .builtin name → known name

theorem Value.named_nil {known : Symbol → Prop} : nil.Named known :=
  fun _ heq => by cases heq

theorem Value.named_pair {known : Symbol → Prop} (ref : CellRef) : (pair ref).Named known :=
  fun _ heq => by cases heq

/-- All builtins in the arena have one of these names. -/
structure Arena.Named (known : Symbol → Prop) (arena : Arena) : Prop where
  cells : ∀ cell ∈ arena.cells, cell.car.Named known ∧ cell.cdr.Named known
  lambdas : ∀ lambda ∈ arena.lambdas, ∀ form ∈ lambda.body, form.Named known
  frames : ∀ frame ∈ arena.frames, ∀ value ∈ frame.table.values, value.Named known

namespace Store

variable {store : Store} {known : Symbol → Prop}

/-- All builtins in the store have one of these names. -/
def Named (known : Symbol → Prop) (store : Store) : Prop :=
  ∀ arena ∈ store.arenas, arena.Named known

/-- The values that an item keeps. -/
def contents (store : Store) : Item → List Value
  | .cell ref => [store.car ref, store.cdr ref]
  | .lambda ref => (store.lambda ref).body
  | .frame ref => (store.table ref).values

namespace Named

/-! ### Looking at the store -/

theorem parts (h : store.Named known) (ref : CellRef) :
    (store.car ref).Named known ∧ (store.cdr ref).Named known := by
  rw [car, cdr, cell]
  cases hcell : store.cell? ref with
  | none => exact ⟨Value.named_nil, Value.named_nil⟩
  | some cell =>
      obtain ⟨arena, harena, hcell⟩ := Option.bind_eq_some_iff.1 hcell
      exact (h arena (Array.mem_of_getElem? harena)).cells cell (Array.mem_of_getElem? hcell)

theorem body (h : store.Named known) (ref : LambdaRef) :
    ∀ form ∈ (store.lambda ref).body, form.Named known := by
  rw [lambda]
  cases hlambda : store.lambda? ref with
  | none => exact fun _ hmem => absurd hmem List.not_mem_nil
  | some lambda =>
      obtain ⟨arena, harena, hlambda⟩ := Option.bind_eq_some_iff.1 hlambda
      exact (h arena (Array.mem_of_getElem? harena)).lambdas lambda (Array.mem_of_getElem? hlambda)

theorem bindings (h : store.Named known) (ref : FrameRef) :
    ∀ value ∈ (store.table ref).values, value.Named known := by
  rw [table, frame]
  cases hframe : store.frame? ref with
  | none => exact fun _ hmem => absurd hmem List.not_mem_nil
  | some frame =>
      obtain ⟨arena, harena, hframe⟩ := Option.bind_eq_some_iff.1 hframe
      exact (h arena (Array.mem_of_getElem? harena)).frames frame (Array.mem_of_getElem? hframe)

theorem contents (h : store.Named known) (item : Item) :
    ∀ value ∈ store.contents item, value.Named known := by
  cases item with
  | cell ref => simpa [Store.contents] using h.parts ref
  | lambda ref => exact h.body ref
  | frame ref => exact h.bindings ref

theorem chain (h : store.Named known) {value last : Value} {items : List Value}
    (hchain : store.Chain value items last) : ∀ item ∈ items, item.Named known := by
  induction hchain with
  | stop _ => exact fun _ hmem => absurd hmem List.not_mem_nil
  | link _ ih => exact List.forall_mem_cons.2 ⟨(h.parts _).1, ih⟩

theorem marked? (h : store.Named known) {head : Symbol} {value inner : Value}
    (hinner : store.marked? head value = some inner) : inner.Named known := by
  obtain ⟨-, rest, -, -, -, -, rfl⟩ := Store.marked?_eq_some hinner
  exact (h.parts rest).1

theorem lookup (h : store.Named known) {ref : FrameRef} {name : Symbol} {value : Value}
    (hvalue : store.lookup ref name = some value) : value.Named known := by
  obtain ⟨frame, -, hfound⟩ := List.exists_of_findSome?_eq_some hvalue
  exact h.bindings frame value (Table.mem_values_of_lookup hfound)

/-! ### Changing the store -/

theorem addArena (h : store.Named known) : store.addArena.2.Named known := by
  intro arena harena
  rcases Array.mem_push.1 harena with hold | rfl
  · exact h arena hold
  · exact ⟨fun _ hmem => absurd hmem (Array.not_mem_empty _),
      fun _ hmem => absurd hmem (Array.not_mem_empty _),
      fun _ hmem => absurd hmem (Array.not_mem_empty _)⟩

/-- What holds of all items of an array and of what a change makes of them holds afterwards. -/
theorem forall_mem_modify {α : Type} {P : α → Prop} {items : Array α} (h : ∀ item ∈ items, P item)
    (index : Nat) {change : α → α} (hchange : ∀ item, P item → P (change item)) :
    ∀ item ∈ items.modify index change, P item := by
  intro item hitem
  obtain ⟨i, hi⟩ := Array.mem_iff_getElem?.1 hitem
  rw [Array.getElem?_modify] at hi
  split at hi
  · obtain ⟨old, hold, rfl⟩ := Option.map_eq_some_iff.1 hi
    exact hchange old (h old (Array.mem_of_getElem? hold))
  · exact h item (Array.mem_of_getElem? hi)

theorem modifyArena (h : store.Named known) (index : Nat) {change : Arena → Arena}
    (hchange : ∀ arena, arena.Named known → (change arena).Named known) :
    (store.modifyArena index change).Named known :=
  forall_mem_modify h index hchange

theorem cons (h : store.Named known) (arena : Nat) {car cdr : Value} (hcar : car.Named known)
    (hcdr : cdr.Named known) : (store.cons arena car cdr).2.Named known := by
  refine h.modifyArena arena fun found hfound => { hfound with cells := fun cell hcell => ?_ }
  rcases Array.mem_push.1 hcell with hold | rfl
  · exact hfound.cells cell hold
  · exact ⟨hcar, hcdr⟩

theorem addLambda (h : store.Named known) (arena : Nat) {lambda : Lambda}
    (hbody : ∀ form ∈ lambda.body, form.Named known) :
    (store.addLambda arena lambda).2.Named known := by
  refine h.modifyArena arena fun found hfound => { hfound with lambdas := fun code hcode => ?_ }
  rcases Array.mem_push.1 hcode with hold | rfl
  · exact hfound.lambdas code hold
  · exact hbody

theorem addFrame (h : store.Named known) (arena : Nat) {frame : Frame}
    (htable : ∀ value ∈ frame.table.values, value.Named known) :
    (store.addFrame arena frame).2.Named known := by
  refine h.modifyArena arena fun found hfound => { hfound with frames := fun other hother => ?_ }
  rcases Array.mem_push.1 hother with hold | rfl
  · exact hfound.frames other hold
  · exact htable

theorem modifyCell (h : store.Named known) (ref : CellRef) {change : Cell → Cell}
    (hchange : ∀ cell, cell.car.Named known ∧ cell.cdr.Named known →
      (change cell).car.Named known ∧ (change cell).cdr.Named known) :
    (store.modifyCell ref change).Named known :=
  h.modifyArena ref.arena fun _ hfound =>
    { hfound with cells := forall_mem_modify hfound.cells ref.index hchange }

theorem modifyTable (h : store.Named known) (ref : FrameRef) {change : Table Value → Table Value}
    (hchange : ∀ table, (∀ value ∈ table.values, value.Named known) →
      ∀ value ∈ (change table).values, value.Named known) :
    (store.modifyTable ref change).Named known := by
  refine h.modifyArena ref.arena fun found hfound => ?_
  have hframes : ∀ frame ∈ found.frames.modify ref.index
      (fun frame => { frame with table := change frame.table }),
      ∀ value ∈ frame.table.values, value.Named known :=
    forall_mem_modify hfound.frames ref.index fun frame => hchange frame.table
  exact { hfound with frames := hframes }

theorem bind (h : store.Named known) (ref : FrameRef) (name : Symbol) {value : Value}
    (hvalue : value.Named known) : (store.bind ref name value).Named known := by
  refine h.modifyTable ref fun table htable other hother => ?_
  rcases Table.mem_values_insert hother with rfl | hold
  · exact hvalue
  · exact htable other hold

theorem clear (h : store.Named known) (ref : FrameRef) : (store.clear ref).Named known :=
  h.modifyTable ref fun _ _ _ hmem => absurd hmem List.not_mem_nil

theorem clearAll (h : store.Named known) (frames : List FrameRef) :
    (frames.foldl Store.clear store).Named known := by
  induction frames generalizing store with
  | nil => exact h
  | cons frame rest ih => exact ih (h.clear frame)

theorem listWithTail (h : store.Named known) (arena : Nat) {items : List Value} {tail : Value}
    (hitems : ∀ item ∈ items, item.Named known) (htail : tail.Named known) :
    (store.listWithTail arena items tail).1.Named known ∧
      (store.listWithTail arena items tail).2.Named known := by
  induction items with
  | nil => exact ⟨htail, h⟩
  | cons item rest ih =>
      obtain ⟨hitem, hrest⟩ := List.forall_mem_cons.1 hitems
      obtain ⟨hmade, hstore⟩ := ih hrest
      exact ⟨Value.named_pair _, hstore.cons arena hitem hmade⟩

theorem ofDatum (h : store.Named known) (arena : Nat) (datum : Datum) :
    (store.ofDatum arena datum).1.Named known ∧ (store.ofDatum arena datum).2.Named known := by
  induction datum generalizing store with
  | pair car cdr hcar hcdr =>
      obtain ⟨hrest, hstore⟩ := hcdr h
      obtain ⟨hfirst, hstore⟩ := hcar hstore
      rw [Store.ofDatum]
      exact ⟨Value.named_pair _, hstore.cons arena hfirst hrest⟩
  | _ =>
      rw [Store.ofDatum]
      exact ⟨(fun _ heq => by cases heq), h⟩

theorem ofData (h : store.Named known) (arena : Nat) (data : List Datum) :
    (∀ form ∈ (store.ofData arena data).1, form.Named known) ∧
      (store.ofData arena data).2.Named known := by
  induction data generalizing store with
  | nil => exact ⟨fun _ hmem => absurd hmem List.not_mem_nil, h⟩
  | cons datum rest ih =>
      obtain ⟨hform, hstore⟩ := h.ofDatum arena datum
      obtain ⟨hothers, hstore⟩ := ih hstore
      exact ⟨List.forall_mem_cons.2 ⟨hform, hothers⟩, hstore⟩

theorem bindAll (h : store.Named known) (frame : FrameRef) (names : List Symbol)
    {values : List Value} (hvalues : ∀ value ∈ values, value.Named known) :
    (store.bindAll frame names values).Named known := by
  induction names generalizing store values with
  | nil => exact h
  | cons name names ih =>
      cases values with
      | nil => exact h
      | cons value values =>
          obtain ⟨hvalue, hrest⟩ := List.forall_mem_cons.1 hvalues
          exact ih (h.bind frame name hvalue) hrest

theorem bindArgs (h : store.Named known) (arena : Nat) (params : Params) (frame : FrameRef)
    {args : List Value} (hargs : ∀ arg ∈ args, arg.Named known) :
    (store.bindArgs arena params frame args).Named known := by
  have hbound := h.bindAll frame params.required hargs
  unfold Store.bindArgs
  cases params.rest with
  | none => exact hbound
  | some name =>
      obtain ⟨hrest, hstore⟩ := hbound.listWithTail arena
        (fun arg harg => hargs arg (List.mem_of_mem_drop harg)) Value.named_nil
      exact hstore.bind frame name hrest

end Named

end Store

/-! ### Functions of the host -/

/-- A function that answers with a builtin only if it was given it or found it in the store, and
that does not itself report a missing function. -/
structure HostFunction.Honest (function : HostFunction) : Prop where
  answer {depth : Nat} {store : Store} {args : List Value} {name : Symbol} :
    function.call depth store args = .ok (.builtin name) →
      .builtin name ∈ args ∨ ∃ item, .builtin name ∈ store.contents item
  error {depth : Nat} {store : Store} {args : List Value} {name : Symbol} :
    function.call depth store args ≠ .error (.call (.unknownBuiltin name))

/-- All host functions among these are honest. -/
def Table.Honest (natives : Table Native) : Prop :=
  ∀ name function, natives.lookup name = some (.host function) → function.Honest

/-- Of the names that may occur, only some have no entry in the table. -/
def Table.LacksOnly (known missing : Symbol → Prop) (natives : Table Native) : Prop :=
  ∀ name, known name → natives.lookup name = none → missing name

/-- The error is not about a missing function, or it is about one of these. -/
def Error.MissesOnly (missing : Symbol → Prop) (cause : Error) : Prop :=
  ∀ name, cause = .call (.unknownBuiltin name) → missing name

theorem Error.missesOnly_of_isOrdinary {cause : Error} (h : cause.isOrdinary = true)
    (missing : Symbol → Prop) : cause.MissesOnly missing := by
  rintro name rfl
  cases h

theorem Error.missesOnly_text (cause : TextError) (missing : Symbol → Prop) :
    (Error.text cause).MissesOnly missing := by
  rintro name ⟨⟩

namespace Eval

open EvalM

variable {α β : Type} {known missing : Symbol → Prop} {post : α → Prop}

/-- An evaluation that makes no builtins, with a result as stated, and that misses functions under
some names only. -/
def KeepsNamed (known missing : Symbol → Prop) (post : α → Prop) (evaluation : EvalM α) : Prop :=
  ∀ held machine, machine.store.Named known →
    (evaluation.outcome held machine).2.store.Named known ∧
      (∀ a, (evaluation.outcome held machine).1 = .ok a → post a) ∧
      ∀ cause, (evaluation.outcome held machine).1 = .error (.error cause) →
        cause.MissesOnly missing

namespace KeepsNamed

theorem pure {a : α} (h : post a) : KeepsNamed known missing post (pure a) :=
  fun _ _ hstore => ⟨hstore, fun _ heq => Except.ok.inj heq ▸ h, fun _ heq => by cases heq⟩

theorem fail {e : Error} (h : e.MissesOnly missing) : KeepsNamed known missing post (fail e) :=
  fun _ _ hstore => ⟨hstore, (fun _ heq => by cases heq),
    fun _ heq => Halt.error.inj (Except.error.inj heq) ▸ h⟩

theorem exhausted : KeepsNamed known missing post (throw .exhausted : EvalM α) :=
  fun _ _ hstore => ⟨hstore, (fun _ heq => by cases heq), fun _ heq => by cases heq⟩

theorem bind {P : α → Prop} {post : β → Prop} {f : EvalM α} {k : α → EvalM β}
    (h : KeepsNamed known missing P f) (hk : ∀ a, P a → KeepsNamed known missing post (k a)) :
    KeepsNamed known missing post (f >>= k) := by
  intro held machine hstore
  obtain ⟨hafter, hresult, herror⟩ := h held machine hstore
  rcases hout : f.outcome held machine with ⟨halt | a, after⟩
  · rw [hout] at hafter herror
    rw [outcome_bind_error hout]
    exact ⟨hafter, (fun _ heq => by cases heq),
      fun cause heq => herror cause (congrArg _ (Except.error.inj heq))⟩
  · rw [hout] at hafter hresult
    rw [outcome_bind_ok hout]
    exact hk a (hresult a rfl) held after hafter

theorem imp {post' : α → Prop} {f : EvalM α} (h : KeepsNamed known missing post f)
    (himp : ∀ a, post a → post' a) : KeepsNamed known missing post' f :=
  fun held machine hstore =>
    ⟨(h held machine hstore).1, fun a heq => himp a ((h held machine hstore).2.1 a heq),
      (h held machine hstore).2.2⟩

theorem inspect {view : Store → α} (h : ∀ store, store.Named known → post (view store)) :
    KeepsNamed known missing post (inspect view) :=
  fun _ machine hstore =>
    ⟨hstore, fun _ heq => Except.ok.inj heq ▸ h machine.store hstore, fun _ heq => by cases heq⟩

theorem update {change : Store → α × Store}
    (h : ∀ store, store.Named known → post (change store).1 ∧ (change store).2.Named known) :
    KeepsNamed known missing post (update change) :=
  fun _ machine hstore => ⟨(h machine.store hstore).2,
    fun _ heq => Except.ok.inj heq ▸ (h machine.store hstore).1, fun _ heq => by cases heq⟩

theorem limited (limit : Nat) {f : EvalM α} (h : KeepsNamed known missing post f) :
    KeepsNamed known missing post (limited limit f) := by
  intro held machine hstore
  rw [outcome_limited]
  split
  · exact fail (Error.missesOnly_of_isOrdinary rfl missing) held machine hstore
  · exact h held { machine with depth := machine.depth + 1 } hstore

theorem within (frame : FrameRef) {body : EvalM Value} {post : Value → Prop}
    (h : KeepsNamed known missing post body) :
    KeepsNamed known missing post (within frame body) := by
  intro held machine hstore
  obtain ⟨hafter, hresult⟩ := h (.frames [frame] :: held) machine hstore
  rw [outcome_within]
  refine ⟨?_, hresult⟩
  rcases Machine.store_leave (body.outcome (.frames [frame] :: held) machine).2 _ frame with
    hleave | hleave
  · rw [hleave]
    exact hafter
  · rw [hleave]
    exact hafter.clear frame

theorem attempt {f : EvalM α} (h : KeepsNamed known missing post f) :
    KeepsNamed known missing (fun result => (∀ a, result = .ok a → post a) ∧
      ∀ cause, result = .error cause → cause.MissesOnly missing) (attempt f) := by
  intro held machine hstore
  obtain ⟨hafter, hresult, herror⟩ := h held machine hstore
  rw [outcome_attempt]
  rcases hout : f.outcome held machine with ⟨(cause | _) | a, after⟩
  · rw [hout] at hafter herror
    refine ⟨hafter, fun _ heq => ?_, fun _ heq => by cases heq⟩
    obtain rfl := Except.ok.inj heq
    exact ⟨(fun _ heq => by cases heq), fun _ heq => Except.error.inj heq ▸ herror cause rfl⟩
  · rw [hout] at hafter
    exact ⟨hafter, (fun _ heq => by cases heq), fun _ heq => by cases heq⟩
  · rw [hout] at hafter hresult
    refine ⟨hafter, fun _ heq => ?_, fun _ heq => by cases heq⟩
    obtain rfl := Except.ok.inj heq
    exact ⟨fun _ heq => Except.ok.inj heq ▸ hresult a rfl, fun _ heq => by cases heq⟩

theorem applyHost {function : HostFunction} (hhonest : function.Honest) {args : List Value}
    (hargs : ∀ arg ∈ args, arg.Named known) :
    KeepsNamed known missing (Value.Named known) (applyHost function args) := by
  intro held machine hstore
  rw [outcome_applyHost]
  cases hcall : function.call machine.depth machine.store args with
  | error found =>
      refine ⟨hstore, (fun _ heq => by cases heq), fun cause heq => ?_⟩
      obtain rfl := Halt.error.inj (Except.error.inj heq)
      rintro name rfl
      exact absurd hcall hhonest.error
  | ok found =>
      refine ⟨hstore, fun value heq => ?_, fun _ heq => by cases heq⟩
      obtain rfl := Except.ok.inj heq
      rintro name rfl
      rcases hhonest.answer hcall with hmem | ⟨item, hmem⟩
      · exact hargs _ hmem name rfl
      · exact hstore.contents item _ hmem name rfl

/-- A call of a lambda makes no builtins if its body makes none. -/
theorem invoke {session : Session} {p : Task → EvalM Value} (ref : LambdaRef)
    (anonymous : String) {args : List Value} (hargs : ∀ arg ∈ args, arg.Named known)
    (hbody : ∀ body frame, (∀ form ∈ body, form.Named known) →
      KeepsNamed known missing (Value.Named known) (evalBody p body frame)) :
    KeepsNamed known missing (Value.Named known) (Eval.invoke session p ref anonymous args) := by
  refine .bind (P := fun lambda => ∀ form ∈ lambda.body, form.Named known)
    (.inspect fun store hstore => hstore.body ref) fun lambda hlambda => ?_
  refine .bind (P := fun _ => True)
    (.update fun store hstore => ⟨trivial, hstore.addFrame _ fun _ hmem => by cases hmem⟩)
    fun frame _ => ?_
  split
  · exact .fail (Error.missesOnly_of_isOrdinary rfl missing)
  · refine .bind (P := fun _ => True)
      (.update fun store hstore => ⟨trivial, hstore.bindArgs _ _ frame hargs⟩) fun _ _ => ?_
    exact .within frame (hbody lambda.body frame hlambda)

end KeepsNamed

/-- The logic of evaluations that make no builtins. A function is missed under a name only if the
name may occur and has no entry among the native functions of the session. -/
def namedLogic (known : Symbol → Prop) {session : Session} (hhonest : session.natives.Honest)
    (hmissing : session.natives.LacksOnly known missing) :
    Logic fun _ : Unit => session where
  World := Unit
  Context := Unit
  hold := fun _ c => c
  leads := fun _ _ _ => True
  later := fun _ _ => True
  deeper := id
  value := fun _ => Value.Named known
  kept := fun _ _ => Value.Named known
  scope := fun _ _ _ => True
  part := fun _ _ => True
  spreads := fun _ _ => True
  globals := session.globals
  natives := session.natives
  holds := fun _ w _ post f => KeepsNamed known missing (post w) (f ())
  globals_eq := session.globals_const
  natives_eq := session.natives_const
  later_refl := fun _ => trivial
  later_trans := fun _ _ => trivial
  later_of_leads := id
  leads_refl := fun _ _ => trivial
  leads_trans := fun _ _ => trivial
  part_trans := fun _ _ => trivial
  value_of_kept := id
  kept_leads := fun _ h => h
  kept_held := fun _ h => h
  kept_hold := fun _ h => h
  scope_leads := fun _ _ => trivial
  scope_hold := fun _ _ => trivial
  scope_deeper := fun _ => trivial
  scope_globals := fun _ _ => trivial
  value_deeper := id
  value_nil := fun _ => Value.named_nil
  value_t := fun _ _ heq => by cases heq
  value_integer := fun _ _ _ heq => by cases heq
  value_symbol := fun _ _ _ heq => by cases heq
  pure := .pure
  bind := fun h hk => .bind h fun a ha => hk _ trivial a ha
  fail := fun e h => .fail (Error.missesOnly_of_isOrdinary h missing)
  holding := by
    intro _ _ _ _ _ _ values _ h held machine hstore
    obtain ⟨hafter, hresult, herror⟩ := h (.values values :: held) machine hstore
    exact ⟨hafter, fun a heq => ⟨hresult a heq, trivial⟩, herror⟩
  limited := fun h => h.limited _
  anywhere := id
  inGlobals := id
  car := fun _ => .inspect fun _ hstore => ⟨rfl, (hstore.parts _).1, trivial⟩
  cdr := fun _ => .inspect fun _ hstore => ⟨rfl, (hstore.parts _).2, trivial⟩
  elements := fun _ => .inspect fun _ hstore =>
    ⟨rfl, fun _ hitems => ⟨hstore.chain (Store.chain_of_elements hitems), trivial⟩⟩
  marked := fun _ _ => .inspect fun _ hstore =>
    ⟨rfl, fun _ hinner => ⟨hstore.marked? hinner, trivial⟩⟩
  isMarked := fun _ => .inspect fun _ _ => rfl
  printed := fun _ => .inspect fun _ _ => rfl
  params := fun _ => .inspect fun _ _ => rfl
  lookup := fun _ _ => .inspect fun _ hstore => ⟨rfl, fun _ hvalue => hstore.lookup hvalue⟩
  listWithTail := fun hitems htail =>
    .update fun _ hstore => hstore.listWithTail _ hitems htail
  ofData := fun data => .update fun _ hstore => hstore.ofData _ data
  addLambda := by
    intro _ _ _ _ _ _ _ hbody _
    exact .update fun _ hstore =>
      ⟨⟨(fun _ heq => by cases heq), fun _ heq => by cases heq⟩, hstore.addLambda _ hbody⟩
  define := fun name _ hvalue => .update fun _ hstore => ⟨trivial, hstore.bind _ name hvalue⟩
  setCar := fun _ _ hvalue => .update fun _ hstore =>
    ⟨trivial, hstore.modifyCell _ fun _ hcell => ⟨hvalue, hcell.2⟩⟩
  setCdr := fun _ _ hvalue => .update fun _ hstore =>
    ⟨trivial, hstore.modifyCell _ fun _ hcell => ⟨hcell.1, hvalue⟩⟩
  missing := by
    intro _ _ name hname hnone
    refine .fail fun other heq => ?_
    obtain rfl := CallFault.unknownBuiltin.inj (Error.call.inj heq)
    exact hmissing name (hname name rfl) hnone
  host := fun hname hargs => .applyHost (hhonest _ _ hname) hargs
  invoke := fun anonymous _ hargs hbody =>
    .invoke _ anonymous hargs fun body frame hforms => hbody () () trivial body frame hforms trivial

section

variable {session : Session} (hhonest : session.natives.Honest)
  (hmissing : session.natives.LacksOnly known missing)

/-- **No run makes builtins**, with any bound on nested steps. -/
theorem namedLogic_performs (fuel : Nat) :
    (namedLogic known hhonest hmissing).Performs () fun _ => run session fuel :=
  fun c w _ task htask =>
    Logic.run (L := namedLogic known hhonest hmissing) (fun _ _ _ _ => .exhausted) fuel c w task
      htask

theorem namedLogic_refuses : (namedLogic known hhonest hmissing).Refuses :=
  fun _ _ cause => .fail (Error.missesOnly_text cause missing)

theorem namedLogic_attempts :
    (namedLogic known hhonest hmissing).Attempts (Error.MissesOnly missing) :=
  fun h => KeepsNamed.attempt h

end

end Eval

end SmallLisp
