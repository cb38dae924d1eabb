import SmallLisp.Proofs.Holding
import SmallLisp.Proofs.VisibleOutcomes

/-!
# Expanding by hand

A form that calls a macro is evaluated by expanding it and evaluating the expansion. A host can do
the two one after the other. It comes to the same, except that the evaluation of the form is itself
one of the evaluations that the limit is on, and that more is held while it is in progress.

## Main results

* `Session.outcome_expandOnce_of_not` — a form that calls no macro is its own expansion.
* `Session.evalGlobal_yields_expansion` — evaluating a call of a macro yields what expanding it by
  hand does.
* `Session.macro_call_is_its_expansion` — they end alike.
-/

namespace SmallLisp

namespace Session

open EvalM Eval

/-- The form is a call of a macro: at its head stands a symbol that names no special form and is
bound to a macro in the global frame. -/
def CallsMacro (session : Session) (store : Store) (form : Value) : Prop :=
  ∃ ref name lambda, form = .pair ref ∧ store.car ref = .symbol name ∧
    SpecialForm.ofSymbol? name = none ∧
    store.lookup session.globals name = some (.expander lambda)

section

variable {session : Session} {form : Value} {held : List Hold} {machine : Machine}

/-- A form that calls no macro is its own expansion. -/
theorem outcome_expandOnce_of_not (h : ¬session.CallsMacro machine.store form) (fuel : Nat) :
    (session.expandOnce fuel form).outcome held machine = (.ok form, machine) := by
  cases form with
  | pair ref =>
      show (Eval.expandOnce session (run session fuel) (.pair ref)).outcome
        (.values [.pair ref] :: held) machine = _
      rw [Eval.expandOnce, outcome_bind_ok (outcome_inspect _ _ _)]
      cases hcar : machine.store.car ref with
      | symbol name =>
          dsimp only
          split
          · rfl
          · next hspecial =>
              rw [outcome_bind_ok (outcome_inspect _ _ _)]
              split
              · next lambda hlookup =>
                  exact absurd ⟨ref, name, lambda, rfl, hcar, by simpa using hspecial, hlookup⟩ h
              · rfl
      | _ => rfl
  | _ => rfl

/-- The expansion of a call, with nothing held. -/
def expansion (session : Session) (fuel : Nat) (lambda : LambdaRef) (rest : Value) :
    EvalM Value := do
  expand session (run session fuel) lambda (← argumentForms rest)

theorem expand_unheld (session : Session) (fuel : Nat) (lambda : LambdaRef) (forms : List Value) :
    Unheld (fun _ => True) (expand session (run session fuel) lambda forms) :=
  Logic.call (L := (unheldLogic session).toLogic) (c := ())
    (unheld_performs session fuel).evaluates "macro" (.inr trivial) fun _ _ => trivial

theorem argumentForms_unheld (rest : Value) : Unheld (fun _ => True) (argumentForms rest) := by
  refine .bind (P := fun _ => True) (.inspect fun _ => trivial) fun forms _ => ?_
  cases forms with
  | ok forms => exact .pure trivial
  | error fault => exact .bind (P := fun _ => True) (.inspect fun _ => trivial) fun _ _ => .fail _

theorem expansion_unheld (session : Session) (fuel : Nat) (lambda : LambdaRef) (rest : Value) :
    Unheld (fun _ => True) (session.expansion fuel lambda rest) :=
  .bind (argumentForms_unheld rest) fun forms _ => session.expand_unheld fuel lambda forms

variable {ref : CellRef} {name : Symbol} {lambda : LambdaRef}
  (hcar : machine.store.car ref = .symbol name) (hspecial : SpecialForm.ofSymbol? name = none)
include hcar hspecial

/-- Without a census, a call of a macro is expanded to its expansion. -/
theorem outcome_expandOnce (hcensus : machine.census = none)
    (hlookup : machine.store.lookup session.globals name = some (.expander lambda)) (fuel : Nat) :
    (session.expandOnce fuel (.pair ref)).outcome held machine =
      (session.expansion fuel lambda (machine.store.cdr ref)).outcome held machine := by
  have hbegin : (Eval.expandOnce session (run session fuel) (.pair ref)).outcome
      (.values [.pair ref] :: held) machine = (do
        let forms ← argumentForms (machine.store.cdr ref)
        holding [.expander lambda] (expand session (run session fuel) lambda forms)
        : EvalM Value).outcome (.values [.pair ref] :: held) machine := by
    rw [Eval.expandOnce, outcome_bind_ok (outcome_inspect _ _ _), hcar]
    simp only [hspecial, Option.isSome_none, Bool.false_eq_true, if_false]
    rw [outcome_bind_ok (outcome_inspect _ _ _), hlookup, outcome_bind_ok (outcome_inspect _ _ _)]
  have hcall : (Eval.expandOnce session (run session fuel) (.pair ref)).outcome
      (.values [.pair ref] :: held) machine =
        (session.expansion fuel lambda (machine.store.cdr ref)).outcome
          (.values [.pair ref] :: held) machine := by
    refine hbegin.trans (outcome_bind_congr rfl fun forms after hforms => ?_)
    have hafter := (argumentForms_unheld _).census_eq_none hcensus hforms
    exact (session.expand_unheld fuel lambda forms).outcome_eq hafter _ _
  exact hcall.trans ((session.expansion_unheld fuel lambda _).outcome_eq hcensus _ _)

/-- Without a census, a call of a macro is evaluated as its expansion, whatever is held. -/
theorem outcome_evalForm_expansion (hcensus : machine.census = none)
    (hlookup : machine.store.lookup session.globals name = some (.expander lambda)) (fuel : Nat)
    (held' : List Hold) :
    (evalForm session (run session fuel) (.pair ref) session.globals).outcome held' machine =
      (session.expandOnce fuel (.pair ref) >>= session.evalGlobal fuel).outcome held machine := by
  have hunheld : Unheld (fun _ => True)
      (session.expansion fuel lambda (machine.store.cdr ref) >>= session.evalGlobal fuel) :=
    .bind (session.expansion_unheld fuel lambda _) fun expanded _ =>
      session.evalIn_unheld fuel expanded session.globals
  have hnamed : (evalForm session (run session fuel) (.pair ref) session.globals).outcome held'
      machine = (session.expansion fuel lambda (machine.store.cdr ref) >>=
        session.evalGlobal fuel).outcome
          (.values [.expander lambda, machine.store.cdr ref] :: held') machine := by
    rw [outcome_evalForm_named hcar, evalNamed, hspecial]
    dsimp only
    rw [outcome_bind_ok (outcome_inspect _ _ _), hlookup, expansion, bind_assoc]
    rfl
  rw [hnamed, hunheld.outcome_eq hcensus _ held]
  exact outcome_bind_congr (outcome_expandOnce hcar hspecial hcensus hlookup fuel).symm
    fun _ _ _ => rfl

end

/-- **Evaluating a call of a macro yields** what expanding it by hand does. -/
theorem evalGlobal_yields_expansion {session : Session} (hnatives : session.IgnoresDepth)
    {form : Value} (machine : Machine) (hcensus : machine.census = none)
    (hcalls : session.CallsMacro machine.store form) (held : List Hold) :
    Yields (fun fuel => session.evalGlobal fuel form) held machine fun fuel =>
      (session.expandOnce fuel form >>= session.evalGlobal fuel).outcome held machine := by
  obtain ⟨ref, name, lambda, rfl, hcar, hspecial, hlookup⟩ := hcalls
  refine ⟨1, fun fuel => ?_⟩
  refine (outcome_run_eval hnatives fuel (.pair ref) session.globals (.values [.pair ref] :: held)
    machine).imp id fun heval => heval.trans ?_
  exact outcome_evalForm_expansion hcar hspecial hcensus hlookup fuel _

/-- **A call of a macro is its expansion.** For a session whose native functions take no notice of
the depth, a call of a macro in the global frame is evaluated as if a host expanded it and then
evaluated the expansion: both end with the same outcome and leave the same machine, unless one of
them reaches the limit on nested evaluations, or neither ends. If frames are released meanwhile, the
machines look the same from the result and from what is held. A form that calls no macro is its own
expansion, and nothing is changed. -/
theorem macro_call_is_its_expansion (session : Session) (hnatives : session.IgnoresDepth)
    (form : Value) (held : List Hold) (machine : Machine) :
    let evaluated := fun fuel => session.evalGlobal fuel form
    let expanded := fun fuel => session.expandOnce fuel form >>= session.evalGlobal fuel
    (session.CallsMacro machine.store form →
      (machine.census = none → EndAlike Eq evaluated expanded held machine) ∧
      (session.natives.Discreet → machine.Intact held →
        .frame session.globals ∈ held.flatMap Hold.items →
        form.In (machine.store.Reaches (held.flatMap Hold.items)) →
        EndAlike (SeenAlike held) evaluated expanded held machine)) ∧
    (¬session.CallsMacro machine.store form →
      ∀ fuel, (session.expandOnce fuel form).outcome held machine = (.ok form, machine)) := by
  intro evaluated expanded
  have hevaluated : Steady (fun _ => True) evaluated := session.evalIn_steady form session.globals
  have hexpanded : Steady (fun _ => True) expanded :=
    .bind (session.expandOnce_steady form) fun value _ =>
      session.evalIn_steady value session.globals
  refine ⟨fun hcalls => ⟨fun hcensus => ?_, fun hdiscreet hintact hglobals hform => ?_⟩,
    outcome_expandOnce_of_not⟩
  · exact .of_yields hevaluated hexpanded
      (evalGlobal_yields_expansion hnatives machine hcensus hcalls held)
      (.refl expanded 0 held machine)
  · have hagrees : ∀ fuel, Agrees ⟨held, hglobals⟩ (hintact.stage hglobals) Stage.Has
        (expanded fuel) := fun fuel =>
      .bind (expandOnce_agrees hdiscreet fuel hform) fun _ _ _ hvalue =>
        evalGlobal_agrees hdiscreet fuel hvalue
    exact hintact.endAlike hglobals hevaluated hexpanded
      (fun fuel => evalGlobal_agrees hdiscreet fuel hform) hagrees
      (evalGlobal_yields_expansion hnatives { machine with census := none } rfl hcalls held)
      (.refl expanded 0 held { machine with census := none })

/-- A workspace with a session, a macro that its global frame binds to `m`, and a call of it. -/
def definesMacro : List Command :=
  [.session "session" (.start 10 []), .session "session" (.globals "globals"),
   .value (.lambda "globals" "(x)" "(list 'car x)" (some "m") true (some "macro")),
   .environment (.bind "globals" "m" "macro"), .value (.read "(m '(1))" (some "form"))]

theorem macro_call_is_its_expansion_in_workspace :
    let workspace := (Workspace.answerAll {} definesMacro).2
    ∃ session form, workspace.sessions.get? "session" = some session ∧
      workspace.values.get? "form" = some form ∧
      session.CallsMacro workspace.store form ∧ ¬session.CallsMacro workspace.store .t ∧
      let held := .frames session.keeps :: workspace.held
      let evaluated := fun fuel => session.evalGlobal fuel form
      let expanded := fun fuel => session.expandOnce fuel form >>= session.evalGlobal fuel
      EndAlike Eq evaluated expanded held ⟨workspace.store, none, session.depth⟩ ∧
      EndAlike (SeenAlike held) evaluated expanded held
        ⟨workspace.store, workspace.census, session.depth⟩ ∧
      ∀ fuel, (session.expandOnce fuel .t).outcome held
        ⟨workspace.store, workspace.census, session.depth⟩ =
          (.ok .t, ⟨workspace.store, workspace.census, session.depth⟩) := by
  intro workspace
  have hdiscreet : ∀ command ∈ definesMacro, command.Discreet := by
    simp [definesMacro, Command.Hosts]
  obtain ⟨m, hleft, -⟩ := (Mirror.start (fun _ => .error .missing) HostFunction.Discreet
    fun _ h => h).followAll rfl hdiscreet
  have hcomputed : (workspace.sessions.get? "session").map (·.globals) = some ⟨1, 0⟩ ∧
      (workspace.sessions.get? "session").all
        (·.natives.values.all (·.primitive?.isSome)) = true ∧
      workspace.values.get? "form" = some (.pair ⟨0, 10⟩) ∧
      workspace.store.car ⟨0, 10⟩ = .symbol (.ofString "m") ∧
      workspace.store.lookup ⟨1, 0⟩ (.ofString "m") = some (.expander ⟨0, 0⟩) := by decide +kernel
  obtain ⟨hfound, hprimitive, hform, hcar, hlookup⟩ := hcomputed
  obtain ⟨session, hsession, hglobals⟩ := Option.map_eq_some_iff.1 hfound
  rw [hsession] at hprimitive
  have hnatives := ignoresDepth_of_primitive? hprimitive
  have hcalls : session.CallsMacro workspace.store (.pair ⟨0, 10⟩) :=
    ⟨⟨0, 10⟩, .ofString "m", ⟨0, 0⟩, rfl, hcar, by decide, hglobals ▸ hlookup⟩
  have hother : ¬session.CallsMacro workspace.store .t := by
    rintro ⟨_, _, _, hpair, -⟩
    cases hpair
  have hworkspace : workspace = m.left := hleft
  clear_value workspace
  subst hworkspace
  have hmem := Slots.mem_contents_of_get? hsession
  obtain ⟨hcall, -⟩ := macro_call_is_its_expansion session hnatives (.pair ⟨0, 10⟩)
    (.frames session.keeps :: m.left.held) ⟨m.left.store, none, session.depth⟩
  obtain ⟨hcounted, -⟩ := macro_call_is_its_expansion session hnatives (.pair ⟨0, 10⟩)
    (.frames session.keeps :: m.left.held) ⟨m.left.store, m.left.census, session.depth⟩
  obtain ⟨-, hself⟩ := macro_call_is_its_expansion session hnatives .t
    (.frames session.keeps :: m.left.held) ⟨m.left.store, m.left.census, session.depth⟩
  exact ⟨session, _, hsession, hform, hcalls, hother, (hcall hcalls).1 rfl,
    (hcounted hcalls).2 (m.natives_discreet hmem) (m.machine_intact hmem) List.mem_cons_self
      (m.value_reached (Slots.mem_contents_of_get? hform) session), hself hother⟩

end Session

end SmallLisp
