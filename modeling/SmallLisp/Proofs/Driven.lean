import SmallLisp.Proofs.Start
import SmallLisp.Proofs.Termination

/-!
# Sessions driven by text

A host drives a session by handing texts to it: as a text, as a line or as a file. The forms of a
text are evaluated one after the other, up to the first one that fails.

As long as nothing is mutated, a session that is driven in this way stays with what it has made
itself. No pair is ever part of itself then, and every evaluation comes to an end.

## Main results

* `serve_behaves` — without mutators, every request is served in the end.
* `Makes.layered` — the store is layered at every call that is made on the way.
* `Reached.ends_without_cycles` — without mutation every run ends, and no cycle is made.
-/

namespace SmallLisp

open EvalM

/-- What a host can ask of a session by way of text. -/
inductive Request where
  | text (source : String)
  | lastOf (source : String)
  | line (source : String)
  | file (files : Files) (path : String)

/-- The forms of a text, or none if it cannot be read. -/
def Request.formsOf (source : String) : List Datum :=
  match Datum.read source with
  | .ok forms => forms
  | .error _ => []

/-- The forms that a request has evaluated. -/
def Request.forms : Request → List Datum
  | .text source => formsOf source
  | .lastOf source => formsOf source
  | .line source => formsOf (Text.trim source)
  | .file files path =>
      match files path with
      | .ok source => formsOf source
      | .error _ => []

namespace Session

/-- Serve a request. -/
def serve (session : Session) (fuel : Nat) : Request → EvalM Unit
  | .text source => do let _ ← session.evalText fuel source
  | .lastOf source => do let _ ← session.evalTextLast fuel source
  | .line source => do let _ ← session.evalLine fuel source
  | .file files path => do let _ ← session.load fuel files path

/-- The call by which a form of a text is evaluated. -/
def formCall (session : Session) (form : Value) (held : List Hold) (machine : Machine) :
    Eval.Call :=
  ⟨.eval form session.globals, held, machine⟩

/-- What is said of forms, of what is held and of the machine holds of the forms of a text, all of
which are made before the first one is evaluated. They are held from then on. -/
def OnceMade (session : Session) (data : List Datum)
    (holds : List Value → List Hold → Machine → Prop) (held : List Hold) (machine : Machine) :
    Prop :=
  let made := machine.store.ofData session.arena data
  holds made.1 (.values made.1 :: held) { machine with store := made.2 }

/-- The call `inner` is made when the forms are evaluated one after the other. -/
inductive MakesInTurn (session : Session) (fuel : Nat) :
    List Value → List Hold → Machine → Eval.Call → Prop
  | now {form : Value} {rest : List Value} {held : List Hold} {machine : Machine}
      {fuel' : Nat} {inner : Eval.Call} :
      Eval.Nested session fuel (session.formCall form held machine) fuel' inner →
      MakesInTurn session fuel (form :: rest) held machine inner
  | next {form : Value} {rest : List Value} {held : List Hold} {machine after : Machine}
      {value : Value} {inner : Eval.Call} :
      (session.formCall form held machine).outcome (Eval.run session fuel) = (.ok value, after) →
      MakesInTurn session fuel rest (.values [value] :: held) after inner →
      MakesInTurn session fuel (form :: rest) held machine inner

/-- No call that is made when the forms are evaluated applies a native function that mutates. -/
def SparesInTurn (session : Session) (fuel : Nat) (forms : List Value) (held : List Hold)
    (machine : Machine) : Prop :=
  ∀ inner, MakesInTurn session fuel forms held machine inner → ¬inner.Mutates session

/-- The call `inner` is made when the forms of a text are evaluated. -/
def Makes (session : Session) (fuel : Nat) (data : List Datum) (held : List Hold)
    (machine : Machine) (inner : Eval.Call) : Prop :=
  session.OnceMade data (MakesInTurn session fuel · · · inner) held machine

/-- No call that is made when the forms of a text are evaluated applies a native function that
mutates. -/
def Spares (session : Session) (fuel : Nat) (data : List Datum) (held : List Hold)
    (machine : Machine) : Prop :=
  session.OnceMade data (session.SparesInTurn fuel) held machine

variable {session : Session} {fuel : Nat} {held : List Hold} {machine : Machine}

theorem SparesInTurn.formCall {form : Value} {rest : List Value}
    (h : session.SparesInTurn fuel (form :: rest) held machine) :
    Eval.Spares session fuel (session.formCall form held machine) :=
  fun _ _ hnested => h _ (.now hnested)

theorem SparesInTurn.rest {form : Value} {rest : List Value} {value : Value} {after : Machine}
    (h : session.SparesInTurn fuel (form :: rest) held machine)
    (hout : (session.formCall form held machine).outcome (Eval.run session fuel) =
      (.ok value, after)) :
    session.SparesInTurn fuel rest (.values [value] :: held) after :=
  fun inner hmakes => h inner (.next hout hmakes)

theorem spares_singleton {form : Value}
    (h : Eval.Spares session fuel (session.formCall form held machine)) :
    session.SparesInTurn fuel [form] held machine := by
  intro inner hmakes
  cases hmakes with
  | now hnested => exact h _ _ hnested
  | next _ hrest => cases hrest

/-! ### Driving two sessions alike -/

/-- When the forms are evaluated one after the other, each call has the same outcome in the second
session, with its own bound on nested steps, as in the first one. -/
def RunsAlike (session session' : Session) (fuel fuel' : Nat) :
    List Value → List Hold → Machine → Prop
  | [], _, _ => True
  | form :: rest, held, machine =>
      let call := session.formCall form held machine
      call.outcome (Eval.run session' fuel') = call.outcome (Eval.run session fuel) ∧
        ∀ value after, call.outcome (Eval.run session fuel) = (.ok value, after) →
          RunsAlike session session' fuel fuel' rest (.values [value] :: held) after

section

variable {session' : Session} {fuel' : Nat}

theorem RunsAlike.evalEach {forms : List Value}
    (h : RunsAlike session session' fuel fuel' forms held machine) :
    (Eval.evalEach (Eval.run session' fuel') session.globals forms).outcome held machine =
      (Eval.evalEach (Eval.run session fuel) session.globals forms).outcome held machine := by
  induction forms generalizing held machine with
  | nil => rw [Eval.evalEach, Eval.evalEach]
  | cons form rest ih =>
      rw [Eval.evalEach, Eval.evalEach]
      refine outcome_bind_congr h.1 fun value after hvalue => ?_
      exact outcome_bind_congr (ih (h.2 value after hvalue)) fun _ _ _ => rfl

variable (hglobals : session'.globals = session.globals)
include hglobals

theorem RunsAlike.attemptEach {forms : List Value}
    (h : RunsAlike session session' fuel fuel' forms held machine) :
    (session'.attemptEach fuel' forms).outcome held machine =
      (session.attemptEach fuel forms).outcome held machine := by
  induction forms generalizing held machine with
  | nil => rfl
  | cons form rest ih =>
      rw [Session.attemptEach, Session.attemptEach, hglobals]
      refine outcome_bind_congr (outcome_attempt_congr h.1) fun result after hresult => ?_
      cases result with
      | error cause => rfl
      | ok value =>
          have hvalue := outcome_of_attempt_ok hresult
          exact outcome_bind_congr (ih (h.2 value after hvalue)) fun _ _ _ => rfl

theorem RunsAlike.evalForms {data : List Datum}
    (h : session.OnceMade data (RunsAlike session session' fuel fuel') held machine) :
    (session'.evalForms fuel' data).outcome held machine =
      (session.evalForms fuel data).outcome held machine := by
  simp only [Session.evalForms, Session.arena, hglobals]
  rw [outcome_bind_ok (outcome_update _ _ _), outcome_bind_ok (outcome_update _ _ _)]
  exact RunsAlike.evalEach h

theorem RunsAlike.evalUntilError {data : List Datum}
    (h : session.OnceMade data (RunsAlike session session' fuel fuel') held machine) :
    (session'.evalUntilError fuel' data).outcome held machine =
      (session.evalUntilError fuel data).outcome held machine := by
  simp only [Session.evalUntilError, Session.arena, hglobals]
  rw [outcome_bind_ok (outcome_update _ _ _), outcome_bind_ok (outcome_update _ _ _)]
  exact RunsAlike.attemptEach hglobals h

/-- The forms of a text are evaluated if it can be read. -/
theorem RunsAlike.evalText {source : String}
    (h : session.OnceMade (Request.formsOf source) (RunsAlike session session' fuel fuel') held
      machine) :
    (session'.evalText fuel' source).outcome held machine =
      (session.evalText fuel source).outcome held machine := by
  unfold Session.evalText
  unfold Request.formsOf at h
  split
  · rfl
  · next forms hread =>
      rw [hread] at h
      exact RunsAlike.evalForms hglobals h

theorem RunsAlike.evalTextLast {source : String}
    (h : session.OnceMade (Request.formsOf source) (RunsAlike session session' fuel fuel') held
      machine) :
    (session'.evalTextLast fuel' source).outcome held machine =
      (session.evalTextLast fuel source).outcome held machine :=
  outcome_bind_congr (RunsAlike.evalText hglobals h) fun _ _ _ => rfl

/-- **A request is served by its forms.** If these run alike, it is served alike. -/
theorem RunsAlike.serve {request : Request}
    (h : session.OnceMade request.forms (RunsAlike session session' fuel fuel') held machine) :
    (session'.serve fuel' request).outcome held machine =
      (session.serve fuel request).outcome held machine := by
  cases request with
  | text source => exact outcome_bind_congr (RunsAlike.evalText hglobals h) fun _ _ _ => rfl
  | lastOf source => exact outcome_bind_congr (RunsAlike.evalTextLast hglobals h) fun _ _ _ => rfl
  | line source =>
      refine outcome_bind_congr ?_ fun _ _ _ => rfl
      unfold Session.evalLine
      unfold Request.forms Request.formsOf at h
      split
      · rfl
      · next forms hread =>
          simp only [hread] at h
          exact RunsAlike.evalUntilError hglobals h
  | file files path =>
      refine outcome_bind_congr ?_ fun _ _ _ => rfl
      unfold Session.load
      unfold Request.forms at h
      split
      · rfl
      · next source hfile =>
          simp only [hfile] at h
          exact RunsAlike.evalTextLast hglobals h

end

/-- **Forms that do not mutate run alike in the disarmed session.** -/
theorem SparesInTurn.runsAlike {forms : List Value}
    (h : session.SparesInTurn fuel forms held machine) :
    RunsAlike session session.disarmed fuel fuel forms held machine := by
  induction forms generalizing held machine with
  | nil => trivial
  | cons form rest ih =>
      exact ⟨h.formCall.outcome_disarmed, fun value after hvalue => ih (h.rest hvalue)⟩

/-- **A request without mutation does not need it.** -/
theorem Spares.serve {request : Request}
    (h : session.Spares fuel request.forms held machine) :
    (session.disarmed.serve fuel request).outcome held machine =
      (session.serve fuel request).outcome held machine := by
  have hglobals : session.disarmed.globals = session.globals := rfl
  exact RunsAlike.serve hglobals (SparesInTurn.runsAlike h)

theorem SparesInTurn.makes_disarmed {forms : List Value} {inner : Eval.Call}
    (h : session.SparesInTurn fuel forms held machine)
    (hmakes : MakesInTurn session fuel forms held machine inner) :
    MakesInTurn session.disarmed fuel forms held machine inner := by
  induction hmakes with
  | now hnested => exact .now (h.formCall.nested_disarmed hnested)
  | next hout hmakes ih =>
      exact .next (h.formCall.outcome_disarmed.trans hout) (ih (h.rest hout))

/-! ### Serving requests without mutators -/

section

variable {start : Store} (hsession : session.Harmless)
include hsession

/-- **Every request is served in the end**, and the store stays layered. -/
theorem serve_behaves (request : Request) (w : Eval.Situation start session.arena) :
    Eval.Behaves True w (fun _ _ => True) fun fuel => session.serve fuel request := by
  have heval := Eval.evaluates hsession w
  have hrefuses : (Eval.layeredLogic start hsession True).Refuses := fun _ _ _ => .fail _
  have hserved : ∀ {α : Type} {post : Eval.Situation start session.arena → α → Prop}
      {f : Nat → EvalM α}, Eval.Behaves True w post f →
        Eval.Behaves True w (fun _ _ => True) fun fuel => (do let _ ← f fuel) :=
    fun h => .bind h fun _ _ _ _ => .pure trivial
  cases request with
  | text source => exact hserved (Eval.Logic.evalText (c := ()) hrefuses heval source)
  | lastOf source => exact hserved (Eval.Logic.evalTextLast (c := ()) hrefuses heval source)
  | line source =>
      have hattempts : (Eval.layeredLogic start hsession True).Attempts fun _ => True :=
        fun h => Eval.Logic.imp (L := Eval.layeredLogic start hsession True) (c := ()) h.attempt
          fun _ _ hresult => ⟨hresult, fun _ _ => trivial⟩
      exact hserved (Eval.Logic.evalLine (c := ()) hattempts (fun _ => trivial) heval source)
  | file files path => exact hserved (Eval.Logic.load (c := ()) hrefuses heval files path)

/-- **The store is layered at every moment**: at each call that is made when forms are
evaluated. -/
theorem MakesInTurn.layered {forms : List Value} {w : Eval.Situation start session.arena}
    {census : Option Census} {inner : Eval.Call}
    (hmakes : MakesInTurn session fuel forms held machine inner)
    (hforms : ∀ form ∈ forms, w.Holds form) (hmachine : machine = w.machine census) :
    ∃ w' : Layered start session.arena, inner.machine.store = w'.store := by
  induction hmakes generalizing w census with
  | @now form _ held _ _ _ hnested =>
      have htask : (Eval.layeredLogic start hsession False).admits () w
          (.eval form session.globals) := ⟨hforms form List.mem_cons_self, rfl⟩
      exact Eval.nested_layered hsession hmachine htask hnested
  | @next form _ held _ _ _ _ hout _ ih =>
      subst hmachine
      have htask : (Eval.layeredLogic start hsession False).admits () w
          (.eval form session.globals) := ⟨hforms form List.mem_cons_self, rfl⟩
      obtain ⟨w', census', hw', hafter, _⟩ := Eval.run_keeps hsession fuel htask held census
      have hlast := congrArg Prod.snd hout
      refine ih (fun form hform => ?_) (hlast.symm.trans hafter)
      exact (hforms form (List.mem_cons_of_mem _ hform)).grows hw'.1

/-- So it is when the forms of a text are evaluated. -/
theorem Makes.layered {data : List Datum} {w : Eval.Situation start session.arena}
    {census : Option Census} {inner : Eval.Call}
    (hmakes : Makes session fuel data held (w.machine census) inner) :
    ∃ w' : Layered start session.arena, inner.machine.store = w'.store := by
  obtain ⟨layers, _, hstore, hforms⟩ := w.ofData data
  let w' : Eval.Situation start session.arena := ⟨layers, w.depth⟩
  have hmachine : { w.machine census with store := (w.store.ofData session.arena data).2 } =
      w'.machine census :=
    congrArg (fun store => (⟨store, census, w.depth⟩ : Machine)) hstore.symm
  exact MakesInTurn.layered hsession hmakes (w := w') hforms hmachine

end

/-! ### Driving a session from its start -/

/-- The state that a session driven by text has got into, without mutation since it was made in
the store `start`. -/
inductive Reached (start : Store) (limit : Nat) : Session → Store → Prop
  | new : Reached start limit (create start limit).1 (create start limit).2
  | served {session : Session} {store : Store} (fuel : Nat) (request : Request)
      (held : List Hold) (census : Option Census) :
      Reached start limit session store →
      session.Spares fuel request.forms (.frames session.keeps :: held)
        ⟨store, census, session.depth⟩ →
      Reached start limit
        (session.execute held store census (session.serve fuel request)).2.1
        (session.execute held store census (session.serve fuel request)).2.2.1

/-- A new session in its arena. -/
def created (start : Store) (limit : Nat) : Layered start (create start limit).1.arena where
  store := (create start limit).2
  arena := { frames := #[{ table := initialGlobals }] }
  found := by
    simp only [create, Session.arena, Store.addArena, Store.addFrame, Store.modifyArena,
      Array.getElem?_modify, Array.getElem?_push]
    rfl
  settled :=
    { cell := fun h => by simp at h
      lambda := fun h => by simp at h
      frame := by
        intro index frame hframe
        obtain rfl : frame = { table := initialGlobals } := by
          rw [Array.getElem?_singleton] at hframe
          split at hframe
          · exact (Option.some.inj hframe).symm
          · exact nomatch hframe
        refine ⟨fun _ h => absurd h List.not_mem_nil, fun name value hvalue => ?_⟩
        rcases initialGlobals_lookup hvalue with rfl | rfl | ⟨native, rfl⟩
        · trivial
        · trivial
        · trivial }
  elsewhere index hindex := by
    have hne : start.arenas.size ≠ index := fun heq => hindex heq.symm
    simp [create, Store.addArena, Store.addFrame, Store.modifyArena, Array.getElem?_modify,
      Array.getElem?_push, hne, hne.symm]

/-- A new session is harmless once it is disarmed. -/
theorem create_disarmed_harmless (start : Store) (limit : Nat) :
    (create start limit).1.disarmed.Harmless where
  not_isMutator hname := by
    obtain ⟨old, -, rfl⟩ := Option.map_eq_some_iff.1 ((Table.lookup_map _ _ _).symm.trans hname)
    exact old.not_isMutator_disarmed
  refusing hname := by
    obtain ⟨old, hold, heq⟩ := Option.map_eq_some_iff.1
      ((Table.lookup_map _ _ _).symm.trans hname)
    obtain ⟨primitive, rfl⟩ := primitives_lookup hold
    exact Native.disarmed_eq_host heq

/-- A session that is driven without mutation is the one that was made, in a layered store. -/
theorem Reached.layered {start store : Store} {limit : Nat} {session : Session}
    (h : Reached start limit session store) :
    session = (create start limit).1 ∧
      ∃ w : Layered start (create start limit).1.arena, w.store = store := by
  induction h with
  | new => exact ⟨rfl, created start limit, rfl⟩
  | served fuel request held census _ hspares ih =>
      obtain ⟨rfl, w, rfl⟩ := ih
      let w₀ : Eval.Situation start (create start limit).1.disarmed.arena := ⟨w, 0⟩
      obtain ⟨w', census', hw', hafter, -⟩ :=
        (serve_behaves (create_disarmed_harmless start limit) request w₀).keeps fuel
          (.frames (create start limit).1.keeps :: held) census
      rw [show w₀.machine census = ⟨w.store, census, (create start limit).1.depth⟩ from rfl,
        hspares.serve] at hafter
      have hdepth := (congrArg Machine.depth hafter).trans hw'.2
      refine ⟨?_, w'.toLayered, (congrArg Machine.store hafter).symm⟩
      exact congrArg (fun depth => { (create start limit).1 with depth }) hdepth

/-- **Without mutation every run ends.** Take any state that a session driven by text has got
into without mutation. A pair that is on a cycle there was on one when the session was made, so
a store without cycles stays without cycles; and this is so at every moment while a further
request is served without mutation. If the request does not mutate, whatever the bound on nested
steps, it is served with a result or an error as soon as the bound is large enough. -/
theorem Reached.ends_without_cycles {start store : Store} {limit : Nat} {session : Session}
    (h : Reached start limit session store) :
    (∀ ref, store.OnCycle ref → start.OnCycle ref) ∧
    ∀ (request : Request) (held : List Hold) (census : Option Census),
      let spares := fun fuel => session.Spares fuel request.forms
        (.frames session.keeps :: held) ⟨store, census, session.depth⟩
      (∀ fuel inner, spares fuel →
        Makes session fuel request.forms (.frames session.keeps :: held)
          ⟨store, census, session.depth⟩ inner →
        ∀ ref, inner.machine.store.OnCycle ref → start.OnCycle ref) ∧
      ((∀ fuel, spares fuel) → ∃ bound result after, result ≠ .error .exhausted ∧
        ∀ fuel, bound ≤ fuel →
          session.execute held store census (session.serve fuel request) = (result, after)) := by
  obtain ⟨rfl, w, rfl⟩ := h.layered
  have hsession := create_disarmed_harmless start limit
  let w₀ : Eval.Situation start (create start limit).1.disarmed.arena := ⟨w, 0⟩
  refine ⟨fun ref => w.onCycle_start, fun request held census => ⟨?_, fun hspares => ?_⟩⟩
  · intro fuel inner hspares hmakes ref hcycle
    have hdisarmed : Makes (create start limit).1.disarmed fuel request.forms
        (.frames (create start limit).1.keeps :: held) (w₀.machine census) inner :=
      SparesInTurn.makes_disarmed hspares hmakes
    obtain ⟨w', hstore⟩ := Makes.layered hsession hdisarmed
    rw [hstore] at hcycle
    exact w'.onCycle_start hcycle
  · obtain ⟨bound, result, after, hresult, hout⟩ :=
      (serve_behaves hsession request w₀).ends trivial
        (.frames (create start limit).1.keeps :: held) census
    refine ⟨bound, result, ({ (create start limit).1 with depth := after.depth }, after.store,
      after.census), hresult, fun fuel hfuel => ?_⟩
    have hserve := (hspares fuel).serve.symm.trans (hout fuel hfuel)
    exact congrArg (fun out : Except Halt Unit × Machine => (out.1,
      { (create start limit).1 with depth := out.2.depth }, out.2.store, out.2.census)) hserve

/-- The text `'(a . b)` in a new session: three pairs are made, none of them on a cycle, and the
text is served as soon as the bound on nested steps is large enough. -/
theorem Reached.ends_without_cycles_quoted :
    let session := (create {} 5).1
    let request := Request.text "'(a . b)"
    let after := session.execute [] (create {} 5).2 none (session.serve 1 request)
    Reached {} 5 after.2.1 after.2.2.1 ∧ after.2.2.1.cellCount = 3 ∧
      (∀ ref, ¬after.2.2.1.OnCycle ref) ∧
      ∃ bound result last, result ≠ .error .exhausted ∧ ∀ fuel, bound ≤ fuel →
        session.execute [] (create {} 5).2 none (session.serve fuel request) = (result, last) := by
  have hforms : (Request.text "'(a . b)").forms =
      [.list [.symbol .quote, .pair (.symbol (.ofString "A")) (.symbol (.ofString "B"))]] := by
    decide +kernel
  have hspares : ∀ fuel, (create {} 5).1.Spares fuel (Request.text "'(a . b)").forms
      [.frames (create {} 5).1.keeps] ⟨(create {} 5).2, none, 0⟩ := by
    intro fuel
    rw [hforms]
    refine spares_singleton (Eval.spares_of_not_asks ?_ fun _ _ => Eval.not_asks_quote rfl ?_)
    · rintro ⟨name, args, native, htask, -⟩
      exact nomatch htask
    · decide
  have hreached := Reached.served 1 (Request.text "'(a . b)") [] none .new (hspares 1)
  have hempty : ∀ ref, ¬({} : Store).OnCycle ref := by
    intro ref hcycle
    cases hcycle with
    | single hchild => exact hchild.elim nofun nofun
    | tail _ hchild => exact hchild.elim nofun nofun
  refine ⟨hreached, by decide +kernel, fun ref hcycle => hempty ref ?_, ?_⟩
  · exact (ends_without_cycles hreached).1 ref hcycle
  · exact ((ends_without_cycles .new).2 (.text "'(a . b)") [] none).2 hspares

end Session

end SmallLisp
