import SmallLisp.Proofs.Nested

/-!
# Runs without mutation

Two primitives replace a part of a pair in place. A session in which they refuse to do so is
*disarmed*. A run that never applies one of them cannot tell the difference, so what holds of
runs in the disarmed session holds of it.

## Main results

* `Spares.outcome_disarmed` — a run without mutation is the same run in the disarmed session.
* `Spares.nested_disarmed` — and so are the calls inside it.
-/

namespace SmallLisp

/-- The table with a function applied to all its values. -/
def Table.map {α β : Type} (f : α → β) (table : Table α) : Table β where
  entries := table.entries.map (Prod.map id f)
  ordered := List.Pairwise.map (Prod.map id f) (fun _ _ hlt => hlt) table.ordered

theorem Table.lookup_map {α β : Type} (f : α → β) (table : Table α) (key : Symbol) :
    (table.map f).lookup key = (table.lookup key).map f := by
  simp only [Table.map, Table.lookup]
  induction table.entries with
  | nil => rfl
  | cons entry rest ih =>
      simp only [List.map_cons, Prod.map, Table.find, id_eq]
      split
      · rfl
      · exact ih

/-- The native function replaces a part of a pair in place. -/
def Native.IsMutator (native : Native) : Prop :=
  native = .primitive .setCar ∨ native = .primitive .setCdr

/-- A function that refuses whatever it is applied to. -/
def HostFunction.refusing : HostFunction :=
  ⟨fun _ _ _ => .error (.eval .divisionByZero)⟩

/-- The native function, or one that refuses in place of one that mutates. -/
def Native.disarmed : Native → Native
  | .primitive .setCar => .host .refusing
  | .primitive .setCdr => .host .refusing
  | native => native

theorem Native.disarmed_of_not_isMutator {native : Native} (h : ¬native.IsMutator) :
    native.disarmed = native := by
  unfold Native.disarmed
  split
  · exact absurd (.inl rfl) h
  · exact absurd (.inr rfl) h
  · rfl

theorem Native.not_isMutator_disarmed (native : Native) : ¬native.disarmed.IsMutator := by
  by_cases h : native.IsMutator
  · rcases h with rfl | rfl
    · exact fun h => h.elim nofun nofun
    · exact fun h => h.elim nofun nofun
  · rwa [disarmed_of_not_isMutator h]

theorem Native.disarmed_eq_host {primitive : Primitive} {function : HostFunction}
    (h : (Native.primitive primitive).disarmed = .host function) : function = .refusing := by
  by_cases hmutator : (Native.primitive primitive).IsMutator
  · rcases hmutator with heq | heq
    · rw [heq] at h
      exact (Native.host.inj h).symm
    · rw [heq] at h
      exact (Native.host.inj h).symm
  · rw [disarmed_of_not_isMutator hmutator] at h
    exact nomatch h

/-- The session in which no native function mutates. -/
def Session.disarmed (session : Session) : Session :=
  { session with natives := session.natives.map Native.disarmed }

namespace Eval

open EvalM

/-- The call applies a native function that mutates. -/
def Call.Mutates (session : Session) (call : Call) : Prop :=
  ∃ name args native, call.task = .apply (.builtin name) args ∧
    session.natives.lookup name = some native ∧ native.IsMutator

variable {session : Session}

theorem step_disarmed (perform : Task → EvalM Value) {call : Call}
    (h : ¬call.Mutates session) :
    call.outcome (step session.disarmed perform) = call.outcome (step session perform) := by
  obtain ⟨task, held, machine⟩ := call
  cases task with
  | eval form scope => rfl
  | fill template level scope => rfl
  | fillRest made rest level scope => rfl
  | apply callee args =>
      cases callee with
      | builtin name =>
          simp only [Call.outcome, step, Eval.apply, Session.disarmed, Table.lookup_map]
          cases hname : session.natives.lookup name with
          | none => rfl
          | some native =>
              have hnot : ¬native.IsMutator := fun hmutator =>
                h ⟨name, args, native, rfl, hname, hmutator⟩
              simp only [Option.map_some, Native.disarmed_of_not_isMutator hnot]
              rfl
      | _ => rfl

/-- No call inside the run of a call applies a native function that mutates. -/
def Spares (session : Session) (fuel : Nat) (call : Call) : Prop :=
  ∀ fuel' inner, Nested session fuel call fuel' inner → ¬inner.Mutates session

theorem Spares.of_asks {fuel : Nat} {call inner : Call} (h : Spares session (fuel + 1) call)
    (hasks : Asks session (run session fuel) call inner) : Spares session fuel inner :=
  fun fuel' other hnested => h fuel' other (.inner hasks hnested)

/-- A call that asks for nothing has only itself inside. -/
theorem spares_of_not_asks {fuel : Nat} {call : Call} (hself : ¬call.Mutates session)
    (h : ∀ fuel middle, ¬Asks session (run session fuel) call middle) :
    Spares session fuel call := by
  intro fuel' inner hnested
  cases hnested with
  | self => exact hself
  | inner hasks _ => exact absurd hasks (h _ _)

/-- **A run without mutation does not need it.** It is the same run in the disarmed session. -/
theorem Spares.outcome_disarmed {fuel : Nat} {call : Call} (h : Spares session fuel call) :
    call.outcome (run session.disarmed fuel) = call.outcome (run session fuel) := by
  induction fuel generalizing call with
  | zero => rfl
  | succ fuel ih =>
      have hcongr : call.outcome (step session (run session fuel)) =
          call.outcome (step session (run session.disarmed fuel)) :=
        outcome_step_congr fun inner hasks => (ih (h.of_asks hasks)).symm
      calc call.outcome (step session.disarmed (run session.disarmed fuel))
          = call.outcome (step session (run session.disarmed fuel)) :=
            step_disarmed _ (h _ call (.self _ call))
        _ = call.outcome (step session (run session fuel)) := hcongr.symm

/-- The calls inside a run without mutation are made in the disarmed session too. -/
theorem Spares.nested_disarmed {fuel fuel' : Nat} {call inner : Call}
    (h : Spares session fuel call) (hnested : Nested session fuel call fuel' inner) :
    Nested session.disarmed fuel call fuel' inner := by
  induction hnested with
  | self fuel call => exact .self fuel call
  | @inner fuel fuel' call middle inner hasks _ ih =>
      obtain ⟨perform', hbut, hdiffer⟩ : Asks session (run session.disarmed fuel) call middle :=
        hasks.congr fun inner hasks => (h.of_asks hasks).outcome_disarmed.symm
      have hnot := h _ call (.self _ call)
      refine .inner ⟨perform', hbut, ?_⟩ (ih (h.of_asks hasks))
      rwa [step_disarmed _ hnot, step_disarmed _ hnot]

/-! ### Quoted forms -/

theorem evalNamed_quote (perform perform' : Task → EvalM Value) (form rest : Value)
    (scope : FrameRef) : evalNamed session perform form .quote rest scope =
      evalNamed session perform' form .quote rest scope := by
  have hspecial : SpecialForm.ofSymbol? .quote = some .quote := by decide
  unfold evalNamed
  simp only [hspecial]
  rfl

/-- The evaluation of a quoted form asks for nothing. -/
theorem not_asks_quote {perform : Task → EvalM Value} {call middle : Call} {ref : CellRef}
    {scope : FrameRef} (htask : call.task = .eval (.pair ref) scope)
    (hcar : call.machine.store.car ref = .symbol .quote) :
    ¬Asks session perform call middle := by
  rintro ⟨perform', -, hdiffer⟩
  obtain ⟨_, held, machine⟩ := call
  obtain rfl : _ = Task.eval (.pair ref) scope := htask
  have hpair : ∀ perform depth,
      (evalPair session perform (.pair ref) ref scope).outcome held { machine with depth } =
        (evalNamed session perform (.pair ref) .quote (machine.store.cdr ref) scope).outcome held
          { machine with depth } := by
    intro perform depth
    unfold evalPair
    rw [outcome_bind_ok (outcome_inspect _ _ _), outcome_bind_ok (outcome_inspect _ _ _),
      show Store.car _ ref = _ from hcar]
  refine hdiffer ?_
  show (limited session.maxDepth (evalPair session perform' (.pair ref) ref scope)).outcome held
      machine =
    (limited session.maxDepth (evalPair session perform (.pair ref) ref scope)).outcome held
      machine
  rw [outcome_limited, outcome_limited, outcome_deeper, outcome_deeper, hpair, hpair,
    evalNamed_quote perform' perform]

end Eval

end SmallLisp
