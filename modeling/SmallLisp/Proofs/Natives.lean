import SmallLisp.Proofs.Builtins
import SmallLisp.Proofs.Forks
import SmallLisp.Proofs.SharedSession

/-!
# Builtins and the native functions of a handle

To register a native function binds its name in the global frame, which all handles on the session
share, and enters the function in the table of one handle. A handle that is made from this one
later has the entry too, but one that was there before has not. So a handle may come upon a builtin
for which it has no function. This happens only if the name was registered through another handle.

## Main results

* `Workspace.Supplied.operate` — every builtin is a primitive or was registered, and the table of a
  handle has what was registered through it or came with it.
* `Workspace.Supplied.missing_of_reply` — what is reported missing is not in the table.
* `Workspace.builtins_have_functions` — both for all handles after any run.
-/

namespace SmallLisp

/-- The errors that a reply tells of. -/
def Reply.errors : Reply → List Error
  | refused (.error cause) => [cause]
  | outcomes found => found.filterMap fun
      | .error cause => some cause
      | .ok _ => none
  | _ => []

/-- The errors that a reply tells of are not about missing functions, or about these only. -/
def Reply.MissesOnly (missing : Symbol → Prop) (reply : Reply) : Prop :=
  ∀ cause ∈ reply.errors, cause.MissesOnly missing

theorem Reply.missesOnly_of_errors_eq_nil {reply : Reply} (h : reply.errors = [])
    (missing : Symbol → Prop) : reply.MissesOnly missing := by
  intro cause hcause
  rw [h] at hcause
  exact absurd hcause List.not_mem_nil

/-- A line is answered with the errors among its outcomes. -/
theorem Reply.missesOnly_outcomes {missing : Symbol → Prop} {results : List (Except Error Value)}
    (h : ∀ result ∈ results, ∀ cause, result = .error cause → cause.MissesOnly missing)
    (store : Store) : (outcomes (results.map (·.map store.shown))).MissesOnly missing := by
  intro cause hcause
  obtain ⟨shown, hshown, hfound⟩ := List.mem_filterMap.1 hcause
  obtain ⟨result, hresult, rfl⟩ := List.mem_map.1 hshown
  cases result with
  | error found => exact Option.some.inj hfound ▸ h _ hresult found rfl
  | ok value => cases hfound

/-- The reply says that a command was not carried out. -/
def Reply.isRefused : Reply → Bool
  | refused _ => true
  | _ => false

namespace SessionCommand

/-- All host functions in the command are honest. -/
def Honest : SessionCommand → Prop
  | register _ (.host function) => function.Honest
  | _ => True

/-- The command neither makes or drops a handle nor registers a function. -/
def leavesHandles : SessionCommand → Bool
  | start _ _ | fork _ | clone _ | drop | register _ _ => false
  | _ => true

/-- The name under which a command registers a function. -/
def registered? : SessionCommand → Option Symbol
  | register name _ => some (.ofString name)
  | _ => none

/-- The names that were registered through each handle or came with it, after one more command
that was carried out. A new handle has those of the one it was made from. -/
def enter (entered : String → List Symbol) (slot : String) :
    SessionCommand → String → List Symbol
  | start _ _ => Function.update entered slot []
  | fork target | clone target => Function.update entered target (entered slot)
  | register name _ => Function.update entered slot (.ofString name :: entered slot)
  | _ => entered

/-- All names under which functions were registered by these commands. -/
def registrations (commands : List (String × SessionCommand)) : List Symbol :=
  commands.filterMap (·.2.registered?)

/-- The names that were registered through the handle in each slot, or through the one that it was
made from before it was made. -/
def entries (commands : List (String × SessionCommand)) : String → List Symbol :=
  commands.foldl (fun entered command => enter entered command.1 command.2) fun _ => []

/-- After these commands the handle in the slot has a function under the name: a primitive, or one
that was registered through the handle or came with it. -/
def Provides (commands : List (String × SessionCommand)) (slot : String) (name : Symbol) : Prop :=
  (∃ primitive : Primitive, primitive.symbol = name) ∨ name ∈ entries commands slot

theorem enter_of_leavesHandles {command : SessionCommand} (h : command.leavesHandles = true)
    (entered : String → List Symbol) (slot : String) :
    enter entered slot command = entered := by
  cases command <;> first | rfl | cases h

end SessionCommand

/-- The function that answers with its first argument makes nothing up. -/
theorem HostFunction.honest_first : HostFunction.first.Honest := by
  refine ⟨fun {_ _ args name} hcall => .inl ?_, fun hcall => by cases hcall⟩
  cases args with
  | nil => cases hcall
  | cons arg rest => exact List.mem_cons.2 (.inl (Except.ok.inj hcall).symm)

/-! ### Handles and their tables -/

theorem Table.isSome_lookup_insert {α : Type} {table : Table α} {key name : Symbol} {value : α} :
    ((table.insert key value).lookup name).isSome = true ↔
      name = key ∨ (table.lookup name).isSome = true := by
  by_cases hname : name = key
  · simp [hname]
  · simp [Table.lookup_insert_of_ne hname, hname]

/-- A handle with honest functions of the host, whose table has the primitives and these names. -/
structure Session.Equipped (names : List Symbol) (session : Session) : Prop where
  honest : session.natives.Honest
  entries (name : Symbol) : (session.natives.lookup name).isSome = true ↔
    (∃ primitive : Primitive, primitive.symbol = name) ∨ name ∈ names

/-- Files are loaded without making builtins. -/
theorem Eval.keepsNamed_loadAll {known : Symbol → Prop} {session : Session}
    (hhonest : session.natives.Honest) (fuel : Nat) (files : Files) (preload : List String) :
    KeepsNamed known (fun _ => True) (fun _ => True)
      (preload.forM fun path => do discard (session.load fuel files path)) := by
  induction preload with
  | nil => exact .pure trivial
  | cons path rest ih =>
      have hload : KeepsNamed known (fun _ => True) (Value.Named known)
          (session.load fuel files path) :=
        Logic.load (c := ()) (namedLogic_refuses hhonest fun _ _ _ => trivial)
          (namedLogic_performs hhonest _ fuel).evaluates files path
      have hpath : KeepsNamed known (fun _ => True) (fun _ => True)
          (discard (session.load fuel files path)) :=
        hload.bind fun _ _ => .pure trivial
      exact hpath.bind fun _ _ => ih

namespace Session

theorem honest_primitives : primitives.Honest := by
  intro name function h
  obtain ⟨primitive, hprimitive⟩ := primitives_lookup h
  cases hprimitive

theorem isSome_lookup_primitives (name : Symbol) :
    (primitives.lookup name).isSome = true ↔ ∃ primitive : Primitive, primitive.symbol = name := by
  have hfold : ∀ (items : List Primitive) (table : Table Native),
      ((items.foldl (fun table primitive =>
        table.insert primitive.symbol (.primitive primitive)) table).lookup name).isSome = true ↔
        (∃ primitive ∈ items, primitive.symbol = name) ∨ (table.lookup name).isSome = true := by
    intro items
    induction items with
    | nil => simp
    | cons primitive rest ih =>
        intro table
        rw [List.foldl_cons, ih, Table.isSome_lookup_insert, List.exists_mem_cons_iff,
          eq_comm (a := name), ← or_assoc, or_comm (a := ∃ x ∈ rest, _)]
  rw [primitives, hfold]
  have hall : ∀ primitive : Primitive, primitive ∈ Primitive.all := fun primitive => by
    cases primitive <;> decide
  simp [hall]

theorem equipped_of_natives {session : Session} (h : session.natives = Session.primitives) :
    session.Equipped [] := by
  refine ⟨h ▸ honest_primitives, fun name => ?_⟩
  rw [h, isSome_lookup_primitives]
  simp

theorem Equipped.register {session : Session} {names : List Symbol} (h : session.Equipped names)
    (store : Store) (name : Symbol) {native : Native}
    (hnative : ∀ function, native = .host function → function.Honest) :
    (session.register store name native).1.Equipped (name :: names) := by
  refine ⟨fun other function hfunction => ?_, fun other => ?_⟩
  · rw [Session.register] at hfunction
    by_cases hname : other = name
    · rw [hname, Table.lookup_insert_self] at hfunction
      exact hnative function (Option.some.inj hfunction)
    · rw [Table.lookup_insert_of_ne hname] at hfunction
      exact h.honest other function hfunction
  · rw [Session.register, Table.isSome_lookup_insert, h.entries, List.mem_cons, or_left_comm]

variable {known : Symbol → Prop} {store : Store}

theorem named_initialGlobals (hprimitives : ∀ primitive : Primitive, known primitive.symbol) :
    ∀ value ∈ initialGlobals.values, value.Named known := by
  have hfold : ∀ (primitives : List Primitive) (table : Table Value),
      (∀ value ∈ table.values, value.Named known) →
      ∀ value ∈ (primitives.foldl (fun table primitive =>
        table.insert primitive.symbol (.builtin primitive.symbol)) table).values,
        value.Named known := by
    intro primitives
    induction primitives with
    | nil => exact fun _ htable => htable
    | cons primitive rest ih =>
        refine fun table htable => ih _ fun value hvalue => ?_
        rcases Table.mem_values_insert hvalue with rfl | hold
        · exact fun _ heq => Value.builtin.inj heq ▸ hprimitives primitive
        · exact htable value hold
  refine hfold Primitive.all _ fun value hvalue => ?_
  rcases Table.mem_values_insert hvalue with rfl | hvalue
  · exact fun _ heq => by cases heq
  · rcases Table.mem_values_insert hvalue with rfl | hvalue
    · exact fun _ heq => by cases heq
    · exact absurd hvalue List.not_mem_nil

theorem named_fork (h : store.Named known) (session : Session) :
    (session.fork store).2.Named known := by
  rw [fork_eq]
  exact h.addArena.addFrame _ (h.bindings session.globals)

/-- A new session makes no builtins but its primitives, whatever files it loads. -/
theorem named_start (h : store.Named known)
    (hprimitives : ∀ primitive : Primitive, known primitive.symbol) {fuel : Nat} {files : Files}
    {maxDepth : Nat} {preload : List String} {held : List Hold} {after : Store}
    {census census' : Option Census} {session : Session} {result : Except Halt Unit}
    (hstart : start fuel files maxDepth preload held store census =
      (result, session, after, census')) :
    after.Named known ∧ session.natives = primitives := by
  let home := store.addHome { table := initialGlobals }
  let created : Session := { globals := home.1, natives := primitives, maxDepth }
  have hhome : home.2.Named known := h.addArena.addFrame _ (named_initialGlobals hprimitives)
  have hloads : Eval.KeepsNamed known (fun _ => True) (fun _ => True)
      (preload.forM fun path => do discard (created.load fuel files path)) :=
    Eval.keepsNamed_loadAll honest_primitives fuel files preload
  have hafter := (hloads (.frames created.keeps :: held) ⟨home.2, census, created.depth⟩ hhome).1
  rcases hrun : (preload.forM fun path => do discard (created.load fuel files path)).outcome
    (.frames created.keeps :: held) ⟨home.2, census, created.depth⟩ with ⟨result, machine⟩
  rw [hrun] at hafter
  cases (execute_of_outcome hrun).symm.trans hstart
  exact ⟨hafter, rfl⟩

end Session

/-! ### Workspaces -/

namespace Workspace

variable {known : Symbol → Prop} {entered : String → List Symbol} {workspace : Workspace}
  {slot : String}

/-- All builtins in the workspace have one of these names, and the table of every handle has the
primitives and what was entered in it. -/
structure Supplied (known : Symbol → Prop) (entered : String → List Symbol)
    (workspace : Workspace) : Prop where
  store : workspace.store.Named known
  values {name : String} {value : Value} :
    workspace.values.get? name = some value → value.Named known
  sessions {slot : String} {session : Session} :
    workspace.sessions.get? slot = some session → session.Equipped (entered slot)

namespace Supplied

theorem withStore (h : workspace.Supplied known entered) {store : Store}
    (hstore : store.Named known) (census : Option Census) :
    Supplied known entered { workspace with store, census } :=
  ⟨hstore, h.values, h.sessions⟩

theorem put (h : workspace.Supplied known entered) (slot : String) {session : Session}
    {names : List Symbol} (hsession : session.Equipped names) :
    Supplied known (Function.update entered slot names)
      { workspace with sessions := workspace.sessions.put slot session } := by
  refine ⟨h.store, h.values, fun {other found} hfound => ?_⟩
  by_cases hother : other = slot
  · subst hother
    rw [Slots.get?_put_self] at hfound
    rw [Function.update_self]
    exact Option.some.inj hfound ▸ hsession
  · rw [Slots.get?_put_of_ne hother] at hfound
    rw [Function.update_of_ne hother]
    exact h.sessions hfound

theorem retire (h : workspace.Supplied known entered) (session : Session) :
    (workspace.retire session).Supplied known entered :=
  ⟨h.store.clearAll _, h.values, h.sessions⟩

theorem putSession (h : workspace.Supplied known entered) (slot : String) {session : Session}
    {names : List Symbol} (hsession : session.Equipped names) :
    (workspace.putSession slot session).Supplied known (Function.update entered slot names) := by
  have hput := h.put slot hsession
  rw [Workspace.putSession]
  cases workspace.sessions.get? slot with
  | none => exact hput
  | some old => exact hput.retire old

theorem dropSession (h : workspace.Supplied known entered) (slot : String) :
    (workspace.dropSession slot).Supplied known entered := by
  have hremoved :
      Supplied known entered { workspace with sessions := workspace.sessions.remove slot } := by
    refine ⟨h.store, h.values, fun {other found} hfound => ?_⟩
    by_cases hother : other = slot
    · rw [hother, Slots.get?_remove_self] at hfound
      cases hfound
    · rw [Slots.get?_remove_of_ne hother] at hfound
      exact h.sessions hfound
  rw [Workspace.dropSession]
  cases workspace.sessions.get? slot with
  | none => exact h
  | some old => exact hremoved.retire old

end Supplied

end Workspace

/-! ### Work that makes no builtins -/

namespace WorkM

open Workspace Eval

variable {α β : Type} {known missing : Symbol → Prop} {slot : String} {post : α → Prop}

/-- Work that makes no builtins and leaves the tables of all handles alone, with a result as
stated. The functions it misses are among those that the handle in the slot has not. -/
def Supplies (known missing : Symbol → Prop) (slot : String) (post : α → Prop) (work : WorkM α) :
    Prop :=
  ∀ (entered : String → List Symbol) (workspace : Workspace), workspace.Supplied known entered →
    (∀ session, workspace.sessions.get? slot = some session →
      session.natives.LacksOnly known missing) →
    (work.outcome workspace).2.Supplied known entered ∧
      (∀ other, ((work.outcome workspace).2.sessions.get? other).map Session.natives =
        (workspace.sessions.get? other).map Session.natives) ∧
      (∀ a, (work.outcome workspace).1 = .ok a → post a) ∧
      ∀ cause, (work.outcome workspace).1 = .error (.error cause) → cause.MissesOnly missing

namespace Supplies

theorem pure {a : α} (h : post a) : Supplies known missing slot post (pure a) :=
  fun _ _ hsupplied _ =>
    ⟨hsupplied, fun _ => rfl, fun _ heq => Except.ok.inj heq ▸ h, fun _ heq => by cases heq⟩

theorem throw {reason : Refusal}
    (h : ∀ cause, reason = .error cause → cause.MissesOnly missing) :
    Supplies known missing slot post (throw reason : WorkM α) :=
  fun _ _ hsupplied _ => ⟨hsupplied, fun _ => rfl, (fun _ heq => by cases heq),
    fun cause heq => h cause (Except.error.inj heq)⟩

theorem get : Supplies known missing slot (fun _ => True) (get : WorkM Workspace) :=
  fun _ _ hsupplied _ => ⟨hsupplied, fun _ => rfl, fun _ _ => trivial, fun _ heq => by cases heq⟩

theorem bind {P : α → Prop} {post : β → Prop} {f : WorkM α} {k : α → WorkM β}
    (h : Supplies known missing slot P f) (hk : ∀ a, P a → Supplies known missing slot post (k a)) :
    Supplies known missing slot post (f >>= k) := by
  intro entered workspace hsupplied hmissing
  obtain ⟨hafter, hnatives, hresult, herror⟩ := h entered workspace hsupplied hmissing
  rcases hout : f.outcome workspace with ⟨reason | a, after⟩
  · rw [hout] at hafter hnatives herror
    rw [outcome_bind_error hout]
    exact ⟨hafter, hnatives, (fun _ heq => by cases heq),
      fun cause heq => herror cause (congrArg _ (Except.error.inj heq))⟩
  · rw [hout] at hafter hnatives hresult
    rw [outcome_bind_ok hout]
    have hmissing' : ∀ session, after.sessions.get? slot = some session →
        session.natives.LacksOnly known missing := by
      intro session hsession
      have hslot := hnatives slot
      rw [hsession, Option.map_some] at hslot
      obtain ⟨old, hold, hsame⟩ := Option.map_eq_some_iff.1 hslot.symm
      exact hsame ▸ hmissing old hold
    obtain ⟨hlast, hsame, hposts⟩ := hk a (hresult a rfl) entered after hafter hmissing'
    exact ⟨hlast, fun other => (hsame other).trans (hnatives other), hposts⟩

theorem slotted {γ : Type} {post : γ → Prop} (name : String) {slots : Workspace → Slots γ}
    (h : ∀ entered workspace content, Workspace.Supplied known entered workspace →
      (slots workspace).get? name = some content → post content) :
    Supplies known missing slot post (WorkM.slot name slots) := by
  intro entered workspace hsupplied _
  cases hslot : (slots workspace).get? name with
  | none =>
      rw [outcome_slot_none hslot]
      exact ⟨hsupplied, fun _ => rfl, (fun _ heq => by cases heq), fun _ heq => by cases heq⟩
  | some content =>
      rw [outcome_slot hslot]
      refine ⟨hsupplied, fun _ => rfl, (fun _ heq => ?_), fun _ heq => by cases heq⟩
      exact Except.ok.inj heq ▸ h entered workspace content hsupplied hslot

theorem session (name : String) :
    Supplies known missing slot (fun _ => True) (WorkM.session name) :=
  .slotted name fun _ _ _ _ _ => trivial

theorem value (name : String) :
    Supplies known missing slot (Value.Named known) (WorkM.value name) :=
  .slotted name fun _ _ _ hsupplied hvalue => hsupplied.values hvalue

theorem environment (name : String) :
    Supplies known missing slot (fun _ => True) (WorkM.environment name) :=
  .slotted name fun _ _ _ _ _ => trivial

theorem inspect (view : Store → α) :
    Supplies known missing slot (fun _ => True) (WorkM.inspect view) :=
  .bind .get fun _ _ => .pure trivial

theorem mapM {γ : Type} {f : γ → WorkM Value}
    (h : ∀ c, Supplies known missing slot (Value.Named known) (f c)) (items : List γ) :
    Supplies known missing slot (fun values => ∀ value ∈ values, value.Named known)
      (items.mapM f) := by
  induction items with
  | nil => exact .pure fun _ hmem => absurd hmem List.not_mem_nil
  | cons item rest ih =>
      rw [List.mapM_cons]
      exact .bind (h item) fun value hvalue => .bind ih fun values hvalues =>
        .pure (List.forall_mem_cons.2 ⟨hvalue, hvalues⟩)

theorem readOne (arena : Nat) (text : String) :
    Supplies known missing slot (Value.Named known) (WorkM.readOne arena text) := by
  refine .bind (P := fun _ => True) ?_ fun datum _ entered workspace hsupplied _ => ?_
  · cases Datum.readOne text with
    | ok datum => exact .pure trivial
    | error cause =>
        refine .throw fun found heq => ?_
        obtain rfl := Refusal.error.inj heq
        exact Error.missesOnly_text cause missing
  · obtain ⟨hvalue, hstore⟩ := hsupplied.store.ofDatum arena datum
    refine ⟨hsupplied.withStore hstore _, fun _ => rfl, (fun _ heq => ?_),
      fun _ heq => by cases heq⟩
    exact Except.ok.inj heq ▸ hvalue

theorem keep (target : Option String) {value : Value} (h : value.Named known) :
    Supplies known missing slot (fun _ => True) (WorkM.keep target value) := by
  cases target with
  | none => exact .pure trivial
  | some name =>
      intro entered workspace hsupplied _
      refine ⟨⟨hsupplied.store, fun {other found} hfound => ?_, hsupplied.sessions⟩, fun _ => rfl,
        (fun _ _ => trivial), fun _ heq => by cases heq⟩
      have hput : (workspace.values.put name value).get? other = some found := hfound
      by_cases hother : other = name
      · rw [hother, Slots.get?_put_self] at hput
        exact Option.some.inj hput ▸ h
      · rw [Slots.get?_put_of_ne hother] at hput
        exact hsupplied.values hput

theorem giveValue (target : Option String) {value : Value} (h : value.Named known) :
    Supplies known missing slot (Reply.MissesOnly missing) (WorkM.giveValue target value) :=
  .bind (.keep target h) fun _ _ => .bind (.inspect _) fun _ _ =>
    .pure (Reply.missesOnly_of_errors_eq_nil rfl missing)

theorem giveEnvironment (target : String) (frame : FrameRef) :
    Supplies known missing slot (Reply.MissesOnly missing)
      (WorkM.giveEnvironment target frame) := by
  refine .bind (P := fun _ => True) (fun _ _ hsupplied _ => ?_) fun _ _ =>
    .bind (.inspect _) fun _ _ => .pure (Reply.missesOnly_of_errors_eq_nil rfl missing)
  exact ⟨⟨hsupplied.store, hsupplied.values, hsupplied.sessions⟩, fun _ => rfl,
    (fun _ _ => trivial), fun _ heq => by cases heq⟩

/-- An evaluation in the session in the slot. -/
theorem evaluate {f : Session → EvalM α}
    (h : ∀ session : Session, session.natives.Honest → session.natives.LacksOnly known missing →
      KeepsNamed known missing post (f session)) :
    Supplies known missing slot post (WorkM.evaluate slot f) := by
  intro entered workspace hsupplied hmissing
  cases hsession : workspace.sessions.get? slot with
  | none =>
      rw [outcome_evaluate_none hsession]
      exact ⟨hsupplied, fun _ => rfl, (fun _ heq => by cases heq), fun _ heq => by cases heq⟩
  | some session =>
      have hequipped := hsupplied.sessions hsession
      obtain ⟨hstore, hresult, herror⟩ := h session hequipped.honest (hmissing session hsession)
        (.frames session.keeps :: workspace.held)
        ⟨workspace.store, workspace.census, session.depth⟩ hsupplied.store
      rcases hrun : (f session).outcome (.frames session.keeps :: workspace.held)
        ⟨workspace.store, workspace.census, session.depth⟩ with ⟨result, machine⟩
      rw [hrun] at hstore hresult herror
      rw [outcome_evaluate_of_run hsession hrun]
      have hnext : Session.Equipped (entered slot) { session with depth := machine.depth } :=
        ⟨hequipped.honest, hequipped.entries⟩
      have hput := (hsupplied.withStore hstore machine.census).put slot hnext
      rw [Function.update_eq_self] at hput
      refine ⟨hput, fun other => ?_, ?_⟩
      · by_cases hother : other = slot
        · rw [hother, Slots.get?_put_self, hsession]
          rfl
        · rw [Slots.get?_put_of_ne hother]
      · rcases result with (cause | _) | a
        · refine ⟨(fun _ heq => by cases heq), fun found heq => ?_⟩
          obtain rfl := Refusal.error.inj (Except.error.inj heq)
          exact herror cause rfl
        · exact ⟨(fun _ heq => by cases heq), fun _ heq => by cases heq⟩
        · exact ⟨fun _ heq => Except.ok.inj heq ▸ hresult a rfl, fun _ heq => by cases heq⟩

/-- An evaluation that results in a value. -/
theorem evaluateOne {f : Session → EvalM Value} (target : Option String)
    (h : ∀ session : Session, session.natives.Honest → session.natives.LacksOnly known missing →
      KeepsNamed known missing (Value.Named known) (f session)) :
    Supplies known missing slot (Reply.MissesOnly missing)
      (do WorkM.giveValue target (← WorkM.evaluate slot f)) :=
  .bind (.evaluate h) fun _ hvalue => .giveValue target hvalue

/-- **A command that leaves the handles alone** makes no builtins, and reports a function missing
only if the handle has none. -/
theorem command {command : SessionCommand} (hcommand : command.leavesHandles = true) :
    Supplies known missing slot (Reply.MissesOnly missing) (command.perform slot) := by
  cases command with
  | eval text =>
      refine .bind .get fun _ _ =>
        .bind (P := fun values : List Value => ∀ value ∈ values, value.Named known)
        (.evaluate fun session hhonest hmissing =>
          Logic.evalText (c := ()) (namedLogic_refuses hhonest hmissing)
            (namedLogic_performs hhonest hmissing _).evaluates text) fun _ _ => ?_
      exact .bind (.inspect _) fun _ _ => .pure (Reply.missesOnly_of_errors_eq_nil rfl missing)
  | evalLast text target =>
      exact .bind .get fun _ _ => .evaluateOne target fun session hhonest hmissing =>
        Logic.evalTextLast (c := ()) (namedLogic_refuses hhonest hmissing)
          (namedLogic_performs hhonest hmissing _).evaluates text
  | evalLine line =>
      refine .bind .get fun _ _ => .bind
        (P := fun results : List (Except Error Value) => ∀ result ∈ results,
          (∀ value, result = .ok value → value.Named known) ∧
            ∀ cause, result = .error cause → cause.MissesOnly missing)
        (.evaluate fun session hhonest hmissing =>
          Logic.evalLine (L := namedLogic known hhonest hmissing) (c := ())
            (namedLogic_attempts hhonest hmissing)
            (fun cause => Error.missesOnly_text cause missing)
            (namedLogic_performs hhonest hmissing _).evaluates line) fun results hresults => ?_
      refine .bind (P := fun shown => (Reply.outcomes shown).MissesOnly missing) ?_
        fun _ hshown => .pure hshown
      exact .bind .get fun workspace _ =>
        .pure (Reply.missesOnly_outcomes (fun result hresult => (hresults result hresult).2) _)
  | load path target =>
      exact .bind .get fun _ _ => .bind .get fun _ _ =>
        .evaluateOne target fun session hhonest hmissing =>
          Logic.load (c := ()) (namedLogic_refuses hhonest hmissing)
            (namedLogic_performs hhonest hmissing _).evaluates _ path
  | evalValue form target =>
      exact .bind .get fun _ _ => .bind (.value form) fun subject hsubject =>
        .evaluateOne target fun session hhonest hmissing =>
          KeepsNamed.imp (Logic.evalGlobal (L := namedLogic known hhonest hmissing)
            (c := ()) (namedLogic_performs hhonest hmissing _).evaluates hsubject) fun _ h => h.1
  | evalIn env text target =>
      exact .bind .get fun _ _ => .bind (.environment env) fun _ _ => .bind (.session slot)
        fun _ _ => .bind (.readOne _ _) fun form hform =>
          .evaluateOne target fun session hhonest hmissing =>
            KeepsNamed.imp (Logic.evalIn (L := namedLogic known hhonest hmissing)
              (c := ()) (namedLogic_performs hhonest hmissing _).evaluates hform trivial)
              fun _ h => h.1
  | apply function args target =>
      exact .bind .get fun _ _ => .bind (.value function) fun callee hcallee =>
        .bind (.mapM .value args) fun values hvalues =>
          .evaluateOne target fun session hhonest hmissing =>
            Logic.applyTo (c := ()) (namedLogic_performs hhonest hmissing _) hcallee hvalues
  | expand text target =>
      exact .bind .get fun _ _ => .bind (.session slot) fun _ _ =>
        .bind (.readOne _ _) fun form hform =>
          .evaluateOne target fun session hhonest hmissing =>
            Logic.expandForm (c := ()) (namedLogic_performs hhonest hmissing _).evaluates hform
  | globals target =>
      exact .bind .get fun _ _ => .bind (.session slot) fun _ _ => .giveEnvironment target _
  | symbols =>
      exact .bind .get fun _ _ => .bind (.session slot) fun _ _ =>
        .bind (.inspect _) fun _ _ => .pure (Reply.missesOnly_of_errors_eq_nil rfl missing)
  | depth =>
      exact .bind .get fun _ _ => .bind (.session slot) fun _ _ =>
        .pure (Reply.missesOnly_of_errors_eq_nil rfl missing)
  | isSpecial name =>
      exact .bind .get fun _ _ => .bind (P := fun _ => True) (.bind (.session slot) fun _ _ =>
        .pure trivial) fun _ _ => .pure (Reply.missesOnly_of_errors_eq_nil rfl missing)
  | _ => cases hcommand

end Supplies

end WorkM

/-! ### Runs -/

namespace Workspace

open SessionCommand

variable {known : Symbol → Prop} {entered : String → List Symbol} {workspace : Workspace}
  {slot : String} {command : SessionCommand}

/-- Those of the operations that are carried out, and not refused. -/
def accepted (workspace : Workspace) :
    List (String × SessionCommand) → List (String × SessionCommand)
  | [] => []
  | (slot, command) :: rest =>
      let (reply, after) := workspace.answer (.session slot command)
      if reply.isRefused then after.accepted rest else (slot, command) :: after.accepted rest

theorem accepted_cons_of_refused
    (h : (workspace.answer (.session slot command)).1.isRefused = true)
    (rest : List (String × SessionCommand)) :
    workspace.accepted ((slot, command) :: rest) =
      (workspace.answer (.session slot command)).2.accepted rest :=
  if_pos h

theorem accepted_cons (h : (workspace.answer (.session slot command)).1.isRefused = false)
    (rest : List (String × SessionCommand)) :
    workspace.accepted ((slot, command) :: rest) =
      (slot, command) :: (workspace.answer (.session slot command)).2.accepted rest :=
  if_neg (Bool.eq_false_iff.1 h)

theorem answer_session {result : Except Refusal Reply} {after : Workspace}
    (h : (command.perform slot).outcome workspace = (result, after)) :
    workspace.answer (.session slot command) = (.ofOutcome result, after) :=
  answer_eq h

namespace Supplied

/-- **One command.** Builtins are made by registering a function or starting a session only, and
the table of each handle changes as it should. -/
theorem answer (h : workspace.Supplied known entered) (slot : String)
    (hprimitives : ∀ primitive : Primitive, known primitive.symbol) (hhonest : command.Honest)
    (hname : (workspace.answer (.session slot command)).1.isRefused = false →
      ∀ name, command.registered? = some name → known name) :
    (workspace.answer (.session slot command)).2.Supplied known
      (if (workspace.answer (.session slot command)).1.isRefused then entered
        else enter entered slot command) := by
  by_cases hleaves : command.leavesHandles = true
  · -- The store alone matters here, so any function may be missed.
    have hcommand : WorkM.Supplies known (fun _ => True) slot _ (command.perform slot) :=
      .command hleaves
    rw [enter_of_leavesHandles hleaves, ite_self, snd_answer]
    exact (hcommand entered workspace h fun _ _ _ _ _ => trivial).1
  · cases command with
    | start maxDepth preload =>
        rcases hstart : Session.start workspace.fuel workspace.files maxDepth preload workspace.held
          workspace.store workspace.census with ⟨halt | _, session, store, census⟩
        · rw [answer_session (outcome_start_error hstart)]
          exact h
        · obtain ⟨hstore, hnatives⟩ := Session.named_start h.store hprimitives hstart
          rw [answer_session (outcome_start_ok hstart)]
          exact (h.withStore hstore census).putSession slot (Session.equipped_of_natives hnatives)
    | fork target =>
        cases hsession : workspace.sessions.get? slot with
        | none =>
            rw [answer_session (outcome_fork_none hsession target)]
            exact h
        | some origin =>
            have hequipped := h.sessions hsession
            have hforked : (origin.fork workspace.store).1.Equipped (entered slot) :=
              ⟨hequipped.honest, hequipped.entries⟩
            rw [answer_session (outcome_fork hsession target)]
            exact (h.withStore (Session.named_fork h.store origin) _).putSession target hforked
    | clone target =>
        cases hsession : workspace.sessions.get? slot with
        | none =>
            rw [answer_session (outcome_clone_none hsession target)]
            exact h
        | some session =>
            rw [answer_session (outcome_clone hsession target)]
            exact h.putSession target (h.sessions hsession)
    | drop =>
        cases hsession : workspace.sessions.get? slot with
        | none =>
            rw [answer_session (outcome_drop_none hsession)]
            exact h
        | some session =>
            rw [answer_session (outcome_drop hsession)]
            exact h.dropSession slot
    | register name native =>
        cases hsession : workspace.sessions.get? slot with
        | none =>
            rw [answer_session (outcome_register_none hsession name native)]
            exact h
        | some session =>
            -- The one place where a builtin is made, and its name is entered in this table only.
            rw [answer_session (outcome_register hsession name native)] at hname ⊢
            have hnative : ∀ function, native = .host function → function.Honest := by
              rintro function rfl
              exact hhonest
            have hvalue : (Value.builtin (.ofString name)).Named known :=
              fun _ heq => Value.builtin.inj heq ▸ hname rfl _ rfl
            have hstore := h.store.bind session.globals (.ofString name) hvalue
            exact (h.withStore hstore _).put slot
              ((h.sessions hsession).register workspace.store (.ofString name) hnative)
    | _ => exact absurd rfl hleaves

/-- **Many commands**, where all names that were registered are known. -/
theorem operate (h : workspace.Supplied known entered)
    (hprimitives : ∀ primitive : Primitive, known primitive.symbol)
    {commands : List (String × SessionCommand)} (hhonest : ∀ command ∈ commands, command.2.Honest)
    (hnames : ∀ name ∈ registrations (workspace.accepted commands), known name) :
    (workspace.operate commands).Supplied known
      ((workspace.accepted commands).foldl
        (fun entered command => enter entered command.1 command.2) entered) := by
  induction commands generalizing workspace entered with
  | nil => exact h
  | cons first rest ih =>
      obtain ⟨slot, command⟩ := first
      obtain ⟨hfirst, hrest⟩ := List.forall_mem_cons.1 hhonest
      have hstep := h.answer slot hprimitives hfirst
      cases hrefused : (workspace.answer (.session slot command)).1.isRefused with
      | true =>
          -- What an evaluation did before it failed stays, but nothing is entered.
          rw [accepted_cons_of_refused hrefused] at hnames ⊢
          rw [hrefused] at hstep
          exact ih (hstep fun hnot => by cases hnot) hrest hnames
      | false =>
          rw [accepted_cons hrefused] at hnames ⊢
          rw [hrefused] at hstep
          refine ih (hstep fun _ name hname => hnames name ?_) hrest
            fun name hname => hnames name ?_
          · exact List.mem_filterMap.2 ⟨_, List.mem_cons_self, hname⟩
          · obtain ⟨found, hfound, hname⟩ := List.mem_filterMap.1 hname
            exact List.mem_filterMap.2 ⟨found, List.mem_cons_of_mem _ hfound, hname⟩

/-- A function that is reported missing has no entry in the table of the handle. -/
theorem missing_of_reply (h : workspace.Supplied known entered) {session : Session}
    (hsession : workspace.sessions.get? slot = some session) (hstart : command.isStart = false)
    {name : Symbol}
    (hname : .call (.unknownBuiltin name) ∈ (workspace.answer (.session slot command)).1.errors) :
    known name ∧ session.natives.lookup name = none := by
  by_cases hleaves : command.leavesHandles = true
  · have hcommand : WorkM.Supplies known
        (fun name => known name ∧ session.natives.lookup name = none) slot _
        (command.perform slot) := .command hleaves
    have hmissing : ∀ found, workspace.sessions.get? slot = some found → ∀ name, known name →
        found.natives.lookup name = none → known name ∧ session.natives.lookup name = none := by
      intro found hfound name hknown hnone
      obtain rfl := Option.some.inj (hsession.symm.trans hfound)
      exact ⟨hknown, hnone⟩
    obtain ⟨-, -, hresult, herror⟩ := hcommand entered workspace h hmissing
    rcases hout : (command.perform slot).outcome workspace with ⟨reason | reply, after⟩
    · rw [hout] at herror
      rw [answer_session hout] at hname
      cases reason with
      | error cause => exact herror cause rfl name (List.mem_singleton.1 hname).symm
      | _ => exact absurd hname List.not_mem_nil
    · rw [hout] at hresult
      rw [answer_session hout] at hname
      exact hresult reply rfl _ hname name rfl
  · have hdone : ∀ {after : Workspace},
        (command.perform slot).outcome workspace = (.ok .done, after) →
          known name ∧ session.natives.lookup name = none := by
      intro after hout
      rw [answer_session hout] at hname
      exact absurd hname List.not_mem_nil
    cases command with
    | start => cases hstart
    | fork target => exact hdone (outcome_fork hsession target)
    | clone target => exact hdone (outcome_clone hsession target)
    | drop => exact hdone (outcome_drop hsession)
    | register name native => exact hdone (outcome_register hsession name native)
    | _ => exact absurd rfl hleaves

end Supplied

/-- In a workspace without values and sessions there are no builtins. -/
theorem supplied_empty (known : Symbol → Prop) (files : Files) (census : Option Census)
    (fuel : Nat) : Supplied known (fun _ => []) { files, census, fuel } := by
  refine ⟨fun arena harena => ?_, (fun hvalue => by cases hvalue),
    fun hsession => by cases hsession⟩
  rw [List.mem_singleton.1 (Array.mem_toList_iff.2 harena)]
  exact ⟨fun _ hmem => absurd hmem (Array.not_mem_empty _),
    fun _ hmem => absurd hmem (Array.not_mem_empty _),
    fun _ hmem => absurd hmem (Array.not_mem_empty _)⟩

/-- **Builtins have functions** in every handle, after any run. The table of a handle has entries
for the primitives and for the names that were registered through the handle, or through the one
that it was made from before it was made, and for no others. Take any name that has such an entry
or was not registered at all. Wherever in the store a builtin under that name is found, the handle
has a function for it, and no command to the handle is answered with the error that there is
none. -/
theorem builtins_have_functions (files : Files) (census : Option Census) (fuel : Nat)
    {commands : List (String × SessionCommand)} (hhonest : ∀ command ∈ commands, command.2.Honest)
    {slot : String} {session : Session}
    (hsession : (operate { files, census, fuel } commands).sessions.get? slot = some session) :
    let start : Workspace := { files, census, fuel }
    let after := start.operate commands
    let carriedOut := start.accepted commands
    (∀ name, (session.natives.lookup name).isSome = true ↔ Provides carriedOut slot name) ∧
    ∀ name, (name ∈ registrations carriedOut → Provides carriedOut slot name) →
      (∀ item, .builtin name ∈ after.store.contents item →
        (session.natives.lookup name).isSome = true) ∧
      ∀ command : SessionCommand, command.isStart = false →
        .call (.unknownBuiltin name) ∉ (after.answer (.session slot command)).1.errors := by
  intro start after carriedOut
  -- These are all names that builtins in the store can have.
  let known : Symbol → Prop := fun name =>
    (∃ primitive : Primitive, primitive.symbol = name) ∨ name ∈ registrations carriedOut
  have hafter : after.Supplied known (entries carriedOut) :=
    (supplied_empty known files census fuel).operate (fun primitive => .inl ⟨primitive, rfl⟩)
      hhonest fun _ hname => .inr hname
  have hentries := (hafter.sessions hsession).entries
  refine ⟨hentries, fun name hprovided => ?_⟩
  have hfunction : known name → (session.natives.lookup name).isSome = true :=
    fun hknown => (hentries name).2 (hknown.elim .inl hprovided)
  refine ⟨fun item hmem => hfunction (hafter.store.contents item _ hmem name rfl), ?_⟩
  intro command hcommand hname
  obtain ⟨hknown, hnone⟩ := hafter.missing_of_reply hsession hcommand hname
  have hsome := hfunction hknown
  rw [hnone] at hsome
  cases hsome

/-- Functions are registered through a handle and through another one that was made from it, from
which a session is forked at last. -/
def handedOn : List (String × SessionCommand) :=
  [("a", .start 50 []), ("a", .register "one" (.host .first)), ("a", .clone "b"),
   ("b", .register "two" (.host .first)), ("b", .evalLast "(defun f (x) (one (two x)))" none),
   ("b", .fork "c")]

/-- The fork has both functions, and misses neither. -/
theorem builtins_have_functions_handed_on :
    (∀ command ∈ handedOn, command.2.Honest) ∧
    ∃ session, (operate { census := none, fuel := 100 } handedOn).sessions.get? "c" = some session ∧
      ∀ name ∈ [Symbol.ofString "one", Symbol.ofString "two"],
        (session.natives.lookup name).isSome = true ∧
        .call (.unknownBuiltin name) ∉ ((operate { census := none, fuel := 100 } handedOn).answer
          (.session "c" (.evalLast "(f 7)" none))).1.errors := by
  have hhonest : ∀ command ∈ handedOn, command.2.Honest := by
    simp [handedOn, SessionCommand.Honest, HostFunction.honest_first]
  have hfilled :
      ((operate { census := none, fuel := 100 } handedOn).sessions.get? "c").isSome = true ∧
      ∀ name ∈ [Symbol.ofString "one", Symbol.ofString "two"],
        name ∈ entries (accepted { census := none, fuel := 100 } handedOn) "c" := by
    decide +kernel
  obtain ⟨session, hsession⟩ := Option.isSome_iff_exists.1 hfilled.1
  obtain ⟨hentries, hfunctions⟩ := builtins_have_functions _ none 100 hhonest hsession
  refine ⟨hhonest, session, hsession, fun name hname => ?_⟩
  have hprovided : Provides (accepted { census := none, fuel := 100 } handedOn) "c" name :=
    .inr (hfilled.2 name hname)
  exact ⟨(hentries name).2 hprovided, (hfunctions name fun _ => hprovided).2 _ rfl⟩

/-- A function is registered through a handle after it was made from another one. -/
def keptBack : List (String × SessionCommand) :=
  [("a", .start 50 []), ("a", .clone "b"), ("b", .register "seven" (.host .first))]

/-- Both handles see the binding of the name, but the first one has no function for it. -/
theorem builtin_without_function :
    let name := Symbol.ofString "seven"
    let after := operate { census := none, fuel := 100 } keptBack
    let seen := fun slot => (after.sessions.get? slot).map fun session =>
      (after.store.lookup session.globals name, (session.natives.lookup name).isSome)
    seen "a" = some (some (.builtin name), false) ∧ seen "b" = some (some (.builtin name), true) ∧
      (after.answer (.session "a" (.evalLast "(seven)" none))).1.errors =
        [.call (.unknownBuiltin name)] := by
  decide +kernel

end Workspace

end SmallLisp
