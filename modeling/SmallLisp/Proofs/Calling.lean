import SmallLisp.Proofs.Expanding
import SmallLisp.Proofs.Scanning

/-!
# Ways of calling a function

A function that a name is bound to can be called in a form, on quoted arguments; through the
function `apply`, on a quoted list of the arguments; and by the host, on the arguments themselves.
The three come to the same, except for the evaluations that the forms take, which the limit is on,
and for what is held meanwhile.

## Main results

* `Eval.outcome_run_quoted` — a quoted value evaluates to that value.
* `Session.evalIn_yields_call`, `Session.evalIn_yields_spread` — a call in a form, and a call
  through `apply`, yield what a call by the host does.
* `Session.calls_agree` — the three end alike.
-/

namespace SmallLisp

namespace Store

variable {store : Store}

/-- The form is `(quote value)`. -/
def Quotes (store : Store) (form value : Value) : Prop :=
  store.elements form = .ok [.symbol .quote, value]

/-- The form calls a name on quoted arguments, as `(name (quote first) (quote second))` does. -/
def CallsOn (store : Store) (form : Value) (name : Symbol) (args : List Value) : Prop :=
  ∃ forms, store.elements form = .ok (.symbol name :: forms) ∧ List.Forall₂ store.Quotes forms args

/-- The form is `(apply name (quote list))`. -/
def AppliesTo (store : Store) (form : Value) (name : Symbol) (list : Value) : Prop :=
  ∃ quoted, store.elements form = .ok [.symbol Primitive.apply.symbol, .symbol name, quoted] ∧
    store.Quotes quoted list

/-- A list with elements is a pair of the first one and a list of the others. -/
theorem exists_pair_of_elements {value first : Value} {rest : List Value}
    (h : store.elements value = .ok (first :: rest)) :
    ∃ ref, value = .pair ref ∧ store.car ref = first ∧
      store.elements (store.cdr ref) = .ok rest := by
  cases chain_of_elements h with
  | @link ref _ _ hrest => exact ⟨ref, rfl, rfl, elements_of_chain hrest⟩

theorem Closed.appliesTo {P : Item → Prop} (h : store.Closed P) {form list : Value} {name : Symbol}
    (hform : form.In P) (happlies : store.AppliesTo form name list) : list.In P := by
  obtain ⟨quoted, hforms, hquote⟩ := happlies
  have hquoted := h.elements hform hforms quoted (by simp)
  exact h.elements hquoted hquote list (by simp)

end Store

namespace Eval

open EvalM

variable {session : Session} {machine : Machine} {scope : FrameRef}

/-- **A quoted value evaluates to that value**, and nothing is changed. -/
theorem outcome_run_quoted {form value : Value} (hform : machine.store.Quotes form value)
    (hlimit : machine.depth < session.maxDepth) (fuel : Nat) (held : List Hold) :
    (run session (fuel + 1) (.eval form scope)).outcome held machine = (.ok value, machine) := by
  obtain ⟨ref, rfl, hcar, hrest⟩ := Store.exists_pair_of_elements hform
  have hspecial : SpecialForm.ofSymbol? .quote = some .quote := by decide
  let inside : Machine := { machine with depth := machine.depth + 1 }
  have hinside : (evalForm session (run session fuel) (.pair ref) scope).outcome held inside =
      (.ok value, inside) := by
    rw [outcome_evalForm_named (show inside.store.car ref = _ from hcar), evalNamed, hspecial]
    dsimp only
    rw [outcome_bind_ok (outcome_inspect _ _ _), hrest]
    rfl
  exact outcome_limited_of_lt hlimit hinside

end Eval

namespace Session

open EvalM Eval

variable {session : Session} {machine : Machine} {scope : FrameRef} {name : Symbol}
  {callee : Value} {args : List Value}

/-- Without a census, a function applied while something more is held is applied by the host. -/
theorem outcome_apply (hcensus : machine.census = none) (fuel : Nat) (callee : Value)
    (args : List Value) (held held' : List Hold) :
    (run session fuel (.apply callee args)).outcome held' machine =
      (session.apply fuel callee args).outcome held machine :=
  (unheld_performs session fuel () () rfl (.apply callee args)
    ((unheldLogic session).admits_toLogic () _)).outcome_eq hcensus held' (.values [callee] :: held)

/-- An evaluation yields what its form is evaluated as, if this is known below the limit. -/
theorem evalIn_yields (hnatives : session.IgnoresDepth) {form : Value} {held : List Hold}
    (more : Nat) {outcomes : Nat → Except Halt Value × Machine}
    (h : machine.depth < session.maxDepth → ∀ fuel,
      (evalForm session (run session (fuel + more)) form scope).outcome (.values [form] :: held)
        machine = outcomes fuel) :
    Yields (fun fuel => session.evalIn fuel form scope) held machine outcomes := by
  refine ⟨more + 1, fun fuel => ?_⟩
  rcases Nat.lt_or_ge machine.depth session.maxDepth with hlimit | hlimit
  · exact (outcome_run_eval hnatives (fuel + more) form scope (.values [form] :: held)
      machine).imp id fun heval => heval.trans (h hlimit fuel)
  · refine .inl ⟨session.maxDepth, ?_⟩
    show ((limited session.maxDepth (evalForm session (run session (fuel + more)) form
      scope)).outcome (.values [form] :: held) machine).1 = _
    rw [outcome_limited, if_pos hlimit]

section

variable (hnatives : session.IgnoresDepth) (hcensus : machine.census = none)
  (hcallee : machine.store.lookup scope name = some callee)
include hnatives hcensus hcallee

/-- **A call in a form** yields what a call by the host does. -/
theorem evalIn_yields_call (hspecial : SpecialForm.ofSymbol? name = none)
    (hfunction : callee.IsFunction) {call : Value}
    (hcall : machine.store.CallsOn call name args) (held : List Hold) :
    Yields (fun fuel => session.evalIn fuel call scope) held machine fun fuel =>
      (session.apply (fuel + 1) callee args).outcome held machine := by
  obtain ⟨forms, hforms, hquotes⟩ := hcall
  obtain ⟨ref, rfl, hcar, hrest⟩ := Store.exists_pair_of_elements hforms
  refine evalIn_yields hnatives 1 fun hlimit fuel => ?_
  have hvalues : List.Forall₂ (fun form value => ∀ held,
      (run session (fuel + 1) (.eval form scope)).outcome held machine = (.ok value, machine))
      forms args :=
    hquotes.imp fun _ _ hquote => outcome_run_quoted hquote hlimit fuel
  rw [outcome_evalForm_call hcar hspecial hcallee hfunction hrest hvalues]
  exact outcome_apply hcensus (fuel + 1) callee args held _

/-- **A call through `apply`** yields what a call by the host does. -/
theorem evalIn_yields_spread {call list : Value} (hcall : machine.store.AppliesTo call name list)
    (hlist : machine.store.elements list = .ok args)
    (happly : machine.store.lookup scope Primitive.apply.symbol =
      some (.builtin Primitive.apply.symbol))
    (hnative : session.natives.lookup Primitive.apply.symbol = some (.primitive .apply))
    (held : List Hold) :
    Yields (fun fuel => session.evalIn fuel call scope) held machine fun fuel =>
      (session.apply (fuel + 1) callee args).outcome held machine := by
  obtain ⟨quoted, hforms, hquote⟩ := hcall
  obtain ⟨ref, rfl, hcar, hrest⟩ := Store.exists_pair_of_elements hforms
  refine evalIn_yields hnatives 2 fun hlimit fuel => ?_
  have hvalues : List.Forall₂ (fun form value => ∀ held,
      (run session (fuel + 2) (.eval form scope)).outcome held machine = (.ok value, machine))
      [.symbol name, quoted] [callee, list] :=
    .cons (outcome_run_name hlimit hcallee (fuel + 1))
      (.cons (outcome_run_quoted hquote hlimit (fuel + 1)) .nil)
  rw [outcome_evalForm_call hcar (by decide) happly (.builtin _) hrest hvalues,
    outcome_run_spread hnative hlist]
  exact outcome_apply hcensus (fuel + 1) callee args held _

end

/-- **All ways of calling a function agree.** Let a name be bound to a function in an environment,
and `apply` to the function of that name. For a session whose native functions take no notice of the
depth, a form that calls the name on quoted values, a form that applies it to a quoted list of these
values, and the host's own call of the function on them end alike: two of them have the same outcome
and leave the same machine, unless one of the two reaches the limit on nested evaluations, or
neither ends. If frames are released meanwhile, the machines look the same from the result and from
what is held. -/
theorem calls_agree (session : Session) (hnatives : session.IgnoresDepth) (scope : FrameRef)
    (held : List Hold) (machine : Machine) (name : Symbol)
    (hspecial : SpecialForm.ofSymbol? name = none) (callee : Value)
    (hcallee : machine.store.lookup scope name = some callee) (hfunction : callee.IsFunction)
    (happly : machine.store.lookup scope Primitive.apply.symbol =
      some (.builtin Primitive.apply.symbol))
    (hnative : session.natives.lookup Primitive.apply.symbol = some (.primitive .apply))
    (list : Value) (args : List Value) (hlist : machine.store.elements list = .ok args)
    (call spread : Value) (hcall : machine.store.CallsOn call name args)
    (hspread : machine.store.AppliesTo spread name list) :
    let ways := [fun fuel => session.evalIn fuel call scope,
      fun fuel => session.evalIn fuel spread scope, fun fuel => session.apply fuel callee args]
    (machine.census = none → ways.Pairwise fun f g => EndAlike Eq f g held machine) ∧
    (session.natives.Discreet → machine.Intact held →
      .frame session.globals ∈ held.flatMap Hold.items →
      .frame scope ∈ held.flatMap Hold.items →
      call.In (machine.store.Reaches (held.flatMap Hold.items)) →
      spread.In (machine.store.Reaches (held.flatMap Hold.items)) →
      ways.Pairwise fun f g => EndAlike (SeenAlike held) f g held machine) := by
  intro ways
  have hsteady : ∀ way ∈ ways, Steady (fun _ => True) way :=
    List.forall_mem_cons.2 ⟨session.evalIn_steady call scope, List.forall_mem_cons.2
      ⟨session.evalIn_steady spread scope, List.forall_mem_singleton.2
        (session.apply_steady callee args)⟩⟩
  have hyields : ∀ before : Machine, before.store = machine.store → before.census = none →
      ∀ way ∈ ways, Yields way held before fun fuel =>
        (session.apply (fuel + 1) callee args).outcome held before := by
    intro before hstore hcensus
    rw [← hstore] at hcallee happly hlist hcall hspread
    exact List.forall_mem_cons.2
      ⟨evalIn_yields_call hnatives hcensus hcallee hspecial hfunction hcall held,
        List.forall_mem_cons.2
          ⟨evalIn_yields_spread hnatives hcensus hcallee hspread hlist happly hnative held,
            List.forall_mem_singleton.2 (.refl _ 1 held before)⟩⟩
  refine ⟨fun hcensus => ?_, fun hdiscreet hintact hglobals hscope hcallIn hspreadIn => ?_⟩
  · refine List.pairwise_of_forall_mem_list fun f hf g hg => ?_
    exact .of_yields (hsteady f hf) (hsteady g hg) (hyields machine rfl hcensus f hf)
      (hyields machine rfl hcensus g hg)
  · have hagrees : ∀ way ∈ ways, ∀ fuel,
        Agrees ⟨held, hglobals⟩ (hintact.stage hglobals) Stage.Has (way fuel) := by
      have hanchored : (hintact.stage hglobals).twin.Anchored (held.flatMap Hold.items)
          (.frame scope) := Twin.anchored_of_mem hscope (Store.reaches_of_mem hscope)
      have hclosed := (hintact.stage hglobals).twin.closed
      have hfound := hclosed.lookup hintact.chained (Store.reaches_of_mem hscope) hcallee
      have hargs := hclosed.elements (hclosed.appliesTo hspreadIn hspread) hlist
      have hcallHas : (hintact.stage hglobals).Has call := hcallIn
      have hspreadHas : (hintact.stage hglobals).Has spread := hspreadIn
      exact List.forall_mem_cons.2 ⟨fun fuel => evalIn_agrees hdiscreet fuel hcallHas hanchored,
        List.forall_mem_cons.2 ⟨fun fuel => evalIn_agrees hdiscreet fuel hspreadHas hanchored,
          List.forall_mem_singleton.2 fun fuel => apply_agrees hdiscreet fuel hfound hargs⟩⟩
    refine List.pairwise_of_forall_mem_list fun f hf g hg => ?_
    exact hintact.endAlike hglobals (hsteady f hf) (hsteady g hg) (hagrees f hf) (hagrees g hg)
      (hyields { machine with census := none } rfl rfl f hf)
      (hyields { machine with census := none } rfl rfl g hg)

/-- A workspace with a session, a function that its global frame binds to `f`, and two calls of
it. -/
def definesFunction : List Command :=
  [.session "session" (.start 10 []), .session "session" (.globals "globals"),
   .value (.lambda "globals" "(x y)" "(cons y x)" (some "f") false (some "closure")),
   .environment (.bind "globals" "f" "closure"), .value (.read "(f '1 '2)" (some "call")),
   .value (.read "(apply f '(1 2))" (some "spread"))]

theorem calls_agree_in_workspace :
    let workspace := (Workspace.answerAll {} definesFunction).2
    ∃ session callee list call spread, workspace.sessions.get? "session" = some session ∧
      workspace.values.get? "closure" = some callee ∧
      workspace.values.get? "call" = some call ∧ workspace.values.get? "spread" = some spread ∧
      workspace.store.lookup session.globals (.ofString "f") = some callee ∧
      workspace.store.CallsOn call (.ofString "f") [.integer 1, .integer 2] ∧
      workspace.store.AppliesTo spread (.ofString "f") list ∧
      let held := .frames session.keeps :: workspace.held
      let ways := [fun fuel => session.evalIn fuel call session.globals,
        fun fuel => session.evalIn fuel spread session.globals,
        fun fuel => session.apply fuel callee [.integer 1, .integer 2]]
      (ways.Pairwise fun f g => EndAlike Eq f g held ⟨workspace.store, none, session.depth⟩) ∧
      ways.Pairwise fun f g => EndAlike (SeenAlike held) f g held
        ⟨workspace.store, workspace.census, session.depth⟩ := by
  intro workspace
  have hdiscreet : ∀ command ∈ definesFunction, command.Discreet := by
    simp [definesFunction, Command.Hosts]
  obtain ⟨m, hleft, -⟩ := (Mirror.start (fun _ => .error .missing) HostFunction.Discreet
    fun _ h => h).followAll rfl hdiscreet
  have hslots : (workspace.sessions.get? "session").map (·.globals) = some ⟨1, 0⟩ ∧
      (workspace.sessions.get? "session").all
        (·.natives.values.all (·.primitive?.isSome)) = true ∧
      (workspace.sessions.get? "session").bind (fun session =>
        (session.natives.lookup Primitive.apply.symbol).bind Native.primitive?) = some .apply ∧
      workspace.values.get? "closure" = some (.closure ⟨0, 0⟩) ∧
      workspace.values.get? "call" = some (.pair ⟨0, 11⟩) ∧
      workspace.values.get? "spread" = some (.pair ⟨0, 18⟩) := by decide +kernel
  have hstore : workspace.store.lookup ⟨1, 0⟩ (.ofString "f") = some (.closure ⟨0, 0⟩) ∧
      workspace.store.lookup ⟨1, 0⟩ Primitive.apply.symbol =
        some (.builtin Primitive.apply.symbol) ∧
      (workspace.store.elements (.pair ⟨0, 11⟩)).toOption =
        some [.symbol (.ofString "f"), .pair ⟨0, 9⟩, .pair ⟨0, 6⟩] ∧
      (workspace.store.elements (.pair ⟨0, 9⟩)).toOption =
        some [.symbol .quote, .integer 1] ∧
      (workspace.store.elements (.pair ⟨0, 6⟩)).toOption =
        some [.symbol .quote, .integer 2] ∧
      (workspace.store.elements (.pair ⟨0, 18⟩)).toOption =
        some [.symbol Primitive.apply.symbol, .symbol (.ofString "f"), .pair ⟨0, 15⟩] ∧
      (workspace.store.elements (.pair ⟨0, 15⟩)).toOption =
        some [.symbol .quote, .pair ⟨0, 13⟩] ∧
      (workspace.store.elements (.pair ⟨0, 13⟩)).toOption =
        some [.integer 1, .integer 2] := by decide +kernel
  obtain ⟨hfound, hprimitive, happly, hclosure, hcall, hspread⟩ := hslots
  obtain ⟨hlookup, hbound, hforms, hone, htwo, hparts, hquoted, hlist⟩ := hstore
  obtain ⟨session, hsession, hglobals⟩ := Option.map_eq_some_iff.1 hfound
  have hcallsOn : workspace.store.CallsOn (.pair ⟨0, 11⟩) (.ofString "f")
      [.integer 1, .integer 2] :=
    ⟨_, eq_ok_of_toOption hforms, .cons (eq_ok_of_toOption hone)
      (.cons (eq_ok_of_toOption htwo) .nil)⟩
  have happlies : workspace.store.AppliesTo (.pair ⟨0, 18⟩) (.ofString "f") (.pair ⟨0, 13⟩) :=
    ⟨_, eq_ok_of_toOption hparts, eq_ok_of_toOption hquoted⟩
  have hworkspace : workspace = m.left := hleft
  clear_value workspace
  subst hworkspace
  rw [hsession] at hprimitive
  rw [hsession, Option.bind_some] at happly
  rw [← hglobals] at hlookup hbound
  obtain ⟨native, hnative, hisApply⟩ := Option.bind_eq_some_iff.1 happly
  rw [Native.eq_of_primitive? hisApply] at hnative
  have hmem := Slots.mem_contents_of_get? hsession
  have hagree := fun census => calls_agree session (ignoresDepth_of_primitive? hprimitive)
    session.globals (.frames session.keeps :: m.left.held) ⟨m.left.store, census, session.depth⟩
    (.ofString "f") (by decide) (.closure ⟨0, 0⟩) hlookup (.closure _) hbound hnative
    (.pair ⟨0, 13⟩) [.integer 1, .integer 2] (eq_ok_of_toOption hlist) (.pair ⟨0, 11⟩)
    (.pair ⟨0, 18⟩) hcallsOn happlies
  exact ⟨session, _, _, _, _, hsession, hclosure, hcall, hspread, hlookup, hcallsOn, happlies,
    (hagree none).1 rfl, (hagree m.left.census).2 (m.natives_discreet hmem) (m.machine_intact hmem)
      List.mem_cons_self List.mem_cons_self
      (m.value_reached (Slots.mem_contents_of_get? hcall) session)
      (m.value_reached (Slots.mem_contents_of_get? hspread) session)⟩

end Session

end SmallLisp
