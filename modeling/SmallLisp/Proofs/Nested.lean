import SmallLisp.Proofs.Running

/-!
# Calls inside a run

A step carries out its task by asking for further tasks. It asks for a call if the answer to that
call matters, that is, if another answer to it and to nothing else would change the outcome. The
calls inside a run are those that its first step asks for, those that are asked for in the course
of these, and so on.

A step asks for one call after the other and waits for each answer. If a call stops, the step
stops too, for the same reason: no step catches an error. All that it still does is to leave the
frames of the calls that it is in, and where no census is kept that changes nothing.

## Main results

* `step_sequential` — every step waits for the calls that it asks for.
* `outcome_step_congr` — nothing matters to a step but the answers to what it asks for.
* `result_of_nested` — a run inside of which a call stops has stopped for the same reason.
-/

namespace SmallLisp.Eval

open EvalM

/-- A task and the circumstances in which it is carried out. -/
structure Call where
  task : Task
  held : List Hold
  machine : Machine

/-- What a way of carrying out tasks makes of a call. -/
def Call.outcome (call : Call) (perform : Task → EvalM Value) : Except Halt Value × Machine :=
  (perform call.task).outcome call.held call.machine

/-- Two ways of carrying out tasks that differ on one call at most. -/
def SameBut (inner : Call) (perform perform' : Task → EvalM Value) : Prop :=
  ∀ other : Call, other ≠ inner → other.outcome perform' = other.outcome perform

open Classical in
/-- A way of carrying out tasks with another answer to one call. -/
noncomputable def answering (perform : Task → EvalM Value) (inner : Call)
    (answer : Except Halt Value × Machine) : Task → EvalM Value :=
  fun task held machine =>
    if (⟨task, held, machine⟩ : Call) = inner then answer else perform task held machine

theorem outcome_answering_self (perform : Task → EvalM Value) (inner : Call)
    (answer : Except Halt Value × Machine) :
    inner.outcome (answering perform inner answer) = answer :=
  if_pos rfl

theorem sameBut_answering (perform : Task → EvalM Value) (inner : Call)
    (answer : Except Halt Value × Machine) :
    SameBut inner perform (answering perform inner answer) :=
  fun _ hne => if_neg hne

/-- The step for a call asks for another call: another answer to that one, and to no other, would
change its outcome. -/
def Asks (session : Session) (perform : Task → EvalM Value) (call inner : Call) : Prop :=
  ∃ perform', SameBut inner perform perform' ∧
    call.outcome (step session perform') ≠ call.outcome (step session perform)

/-- In the run of a call with a bound on nested steps, the call `inner` is carried out with what
is left of the bound there. -/
inductive Nested (session : Session) : Nat → Call → Nat → Call → Prop
  | self (fuel : Nat) (call : Call) : Nested session fuel call fuel call
  | inner {fuel fuel' : Nat} {call middle inner : Call} :
      Asks session (run session fuel) call middle → Nested session fuel middle fuel' inner →
      Nested session (fuel + 1) call fuel' inner

/-! ### Evaluations that wait for their calls -/

section

variable {α β : Type} {f : (Task → EvalM Value) → EvalM α} {perform : Task → EvalM Value}
  {held : List Hold} {machine : Machine} {inner : Call}

/-- The machine is one that keeps no census, with this store. -/
def Machine.IsPlain (store : Store) (machine : Machine) : Prop :=
  machine.store = store ∧ machine.census = none

/-- The evaluation waits for the answer to a call: if the call stops, so does the evaluation, for
the same reason and, where no census is kept, without touching the store any more. -/
def Awaits (f : (Task → EvalM Value) → EvalM α) (perform : Task → EvalM Value)
    (held : List Hold) (machine : Machine) (inner : Call) : Prop :=
  ∀ perform' halt stopped, SameBut inner perform perform' →
    inner.outcome perform' = (.error halt, stopped) →
    ((f perform').outcome held machine).1 = .error halt ∧
      (stopped.census = none →
        Machine.IsPlain stopped.store ((f perform').outcome held machine).2)

/-- An evaluation that waits for every call whose answer matters to it. -/
structure Sequential (post : α → Prop) (f : (Task → EvalM Value) → EvalM α) : Prop where
  same_or_awaits (perform perform' : Task → EvalM Value) (held : List Hold) (machine : Machine) :
    (f perform).outcome held machine = (f perform').outcome held machine ∨
      ∃ inner : Call, inner.outcome perform ≠ inner.outcome perform' ∧
        Awaits f perform held machine inner
  result {perform : Task → EvalM Value} {held : List Hold} {machine : Machine} {a : α} :
    ((f perform).outcome held machine).1 = .ok a → post a

theorem Awaits.bind (h : Awaits f perform held machine inner)
    (k : (Task → EvalM Value) → α → EvalM β) :
    Awaits (fun perform => f perform >>= k perform) perform held machine inner := by
  intro perform' halt stopped hsame hstop
  obtain ⟨hresult, hstore⟩ := h perform' halt stopped hsame hstop
  rcases hout : (f perform').outcome held machine with ⟨result, after⟩
  rw [hout] at hresult hstore
  obtain rfl : result = .error halt := hresult
  rw [outcome_bind_error hout]
  exact ⟨rfl, hstore⟩

variable {post : α → Prop}

/-- What does not ask for anything is sequential. -/
theorem Sequential.const {f : EvalM α}
    (h : ∀ held machine a, (f.outcome held machine).1 = .ok a → post a) :
    Sequential post fun _ => f where
  same_or_awaits := fun _ _ _ _ => .inl rfl
  result := h _ _ _

theorem Sequential.bind {P : α → Prop} {post : β → Prop}
    {k : (Task → EvalM Value) → α → EvalM β} (h : Sequential P f)
    (hk : ∀ a, P a → Sequential post fun perform => k perform a) :
    Sequential post fun perform => f perform >>= k perform where
  same_or_awaits perform perform' held machine := by
    rcases h.same_or_awaits perform perform' held machine with hsame | ⟨inner, hne, hawaits⟩
    · rcases hout : (f perform).outcome held machine with ⟨halt | a, after⟩
      · rw [outcome_bind_error hout, outcome_bind_error (hsame ▸ hout)]
        exact .inl rfl
      · rw [outcome_bind_ok hout, outcome_bind_ok (hsame ▸ hout)]
        have hnext := hk a (h.result (congrArg Prod.fst hout))
        refine (hnext.same_or_awaits perform perform' held after).imp_right ?_
        rintro ⟨inner, hne, hawaits⟩
        refine ⟨inner, hne, fun perform'' halt stopped hbut hstop => ?_⟩
        -- the first part may be waiting for the same call already
        rcases h.same_or_awaits perform perform'' held machine with hsame | ⟨other, hne, hfirst⟩
        · rw [outcome_bind_ok (hsame ▸ hout)]
          exact hawaits perform'' halt stopped hbut hstop
        · obtain rfl : other = inner := Classical.byContradiction fun hother =>
            hne (hbut other hother).symm
          exact hfirst.bind k perform'' halt stopped hbut hstop
    · exact .inr ⟨inner, hne, hawaits.bind k⟩
  result {perform held machine b} hb := by
    rcases hout : (f perform).outcome held machine with ⟨halt | a, after⟩
    · rw [outcome_bind_error hout] at hb
      exact nomatch hb
    · rw [outcome_bind_ok hout] at hb
      exact (hk a (h.result (congrArg Prod.fst hout))).result hb

theorem Sequential.holding (h : Sequential post f) (values : List Value) :
    Sequential post fun perform => EvalM.holding values (f perform) where
  same_or_awaits := fun perform perform' held => h.same_or_awaits perform perform'
    (.values values :: held)
  result := h.result

theorem Sequential.limited (h : Sequential post f) (limit : Nat) :
    Sequential post fun perform => EvalM.limited limit (f perform) where
  same_or_awaits perform perform' held machine := by
    by_cases hlimit : limit ≤ machine.depth
    · simp only [outcome_limited, if_pos hlimit, true_or]
    · simp only [Awaits, outcome_limited, if_neg hlimit]
      have hinside := h.same_or_awaits perform perform' held
        { machine with depth := machine.depth + 1 }
      refine hinside.imp (fun hsame => ?_) fun ⟨inner, hne, hawaits⟩ => ⟨inner, hne, hawaits⟩
      rw [outcome_deeper, outcome_deeper, hsame]
  result {perform held machine a} ha := by
    rw [outcome_limited] at ha
    split at ha
    · exact nomatch ha
    · exact h.result ha

theorem Sequential.within {post : Value → Prop} {f : (Task → EvalM Value) → EvalM Value}
    (h : Sequential post f) (frame : FrameRef) :
    Sequential post fun perform => EvalM.within frame (f perform) where
  same_or_awaits perform perform' held machine := by
    have hinside := h.same_or_awaits perform perform' (.frames [frame] :: held) machine
    refine hinside.imp (fun hsame => ?_) fun ⟨inner, hne, hawaits⟩ => ⟨inner, hne, ?_⟩
    · rw [outcome_within, outcome_within, hsame]
    · intro perform'' halt stopped hbut hstop
      obtain ⟨hresult, hplain⟩ := hawaits perform'' halt stopped hbut hstop
      rw [outcome_within]
      refine ⟨hresult, fun hnone => ?_⟩
      rw [Machine.leave_of_none (hplain hnone).2]
      exact hplain hnone
  result := h.result

theorem Sequential.invoke (session : Session) {p : (Task → EvalM Value) → Task → EvalM Value}
    (ref : LambdaRef) (anonymous : String) (args : List Value)
    (hbody : ∀ body frame,
      Sequential (fun _ => True) fun perform => evalBody (p perform) body frame) :
    Sequential (fun _ => True) fun perform =>
      Eval.invoke session (p perform) ref anonymous args := by
  unfold Eval.invoke
  refine .bind (P := fun _ => True) (.const fun _ _ _ _ => trivial) fun lambda _ => ?_
  refine .bind (P := fun _ => True) (.const fun _ _ _ _ => trivial) fun frame _ => ?_
  split
  · exact .const fun _ _ _ _ => trivial
  · refine .bind (P := fun _ => True) (.const fun _ _ _ _ => trivial) fun _ _ => ?_
    exact (hbody lambda.body frame).within frame

end

/-- The logic of sequential evaluations. -/
def sequentialLogic (session : Session) : PlainLogic fun _ : Task → EvalM Value => session where
  World := Unit
  deeper := id
  globals := session.globals
  natives := session.natives
  holds := fun _ _ post f => Sequential post f
  globals_eq := fun _ => rfl
  natives_eq := fun _ => rfl
  pure := fun h => .const fun _ _ _ heq => Except.ok.inj heq ▸ h
  bind := .bind
  fail := fun _ _ => .const fun _ _ _ heq => nomatch heq
  holding := fun values h => h.holding values
  limited := fun h => h.limited session.maxDepth
  anywhere := id
  inGlobals := id
  inspect := fun h => .const fun _ machine _ heq => Except.ok.inj heq ▸ h machine.store
  listWithTail := fun _ _ => .const fun _ _ _ _ => trivial
  ofData := fun _ => .const fun _ _ _ _ => trivial
  addLambda := fun _ => .const fun _ _ _ _ => trivial
  define := fun _ _ _ => .const fun _ _ _ _ => trivial
  modifyCell := fun _ _ => .const fun _ _ _ _ => trivial
  host := fun _ _ => .const fun _ _ _ _ => trivial
  invoke := .invoke session

/-- Every step waits for the calls whose answers matter to it. -/
theorem step_sequential (session : Session) (task : Task) :
    Sequential (fun _ => True) fun perform => step session perform task := by
  refine (sequentialLogic session).step (p := fun perform => perform) (w := ()) fun task => ?_
  refine ⟨fun perform perform' held machine => ?_, fun _ => trivial⟩
  by_cases hsame : (perform task).outcome held machine = (perform' task).outcome held machine
  · exact .inl hsame
  · refine .inr ⟨⟨task, held, machine⟩, hsame, fun perform'' halt stopped _ hstop => ?_⟩
    exact ⟨congrArg Prod.fst hstop, fun hnone =>
      ⟨congrArg (·.2.store) hstop, (congrArg (·.2.census) hstop).trans hnone⟩⟩

/-! ### The calls that a step asks for -/

section

variable {session : Session} {perform perform' : Task → EvalM Value}
  {call middle inner : Call}

/-- The limit that a halt quotes. -/
def quoted : Halt → Nat
  | .error (.recursionLimit limit) => limit
  | _ => 0

/-- There is always another reason to stop: one that quotes a larger limit. -/
theorem exists_other_halt (result : Except Halt Value) (halt : Halt) :
    ∃ other, result ≠ .error other ∧ other ≠ halt := by
  have hlarger : ∀ (halt : Halt) limit, quoted halt < limit →
      Halt.error (.recursionLimit limit) ≠ halt := by
    rintro _ limit hlt rfl
    exact Nat.lt_irrefl limit hlt
  cases result with
  | ok value => exact ⟨_, nofun, hlarger halt _ (Nat.lt_succ_self _)⟩
  | error first =>
      refine ⟨.error (.recursionLimit (quoted first + quoted halt + 1)), fun heq => ?_, ?_⟩
      · exact hlarger first _ (by omega) (Except.error.inj heq).symm
      · exact hlarger halt _ (by omega)

theorem awaits_of_asks (h : Asks session perform call inner) :
    Awaits (fun perform => step session perform call.task) perform call.held call.machine
      inner := by
  obtain ⟨perform', hbut, hdiffer⟩ := h
  rcases (step_sequential session call.task).same_or_awaits perform perform' call.held
    call.machine with hsame | ⟨other, hne, hawaits⟩
  · exact absurd hsame.symm hdiffer
  · obtain rfl : other = inner := Classical.byContradiction fun hother =>
      hne (hbut other hother).symm
    exact hawaits

theorem asks_of_awaits
    (h : Awaits (fun perform => step session perform call.task) perform call.held call.machine
      inner) : Asks session perform call inner := by
  -- an answer that is not the outcome of the step, so that the outcome is another one
  obtain ⟨halt, hhalt, -⟩ := exists_other_halt (call.outcome (step session perform)).1 .exhausted
  let answer : Except Halt Value × Machine := (.error halt, inner.machine)
  have hbut := sameBut_answering perform inner answer
  refine ⟨answering perform inner answer, hbut, fun hsame => hhalt ?_⟩
  rw [← hsame]
  exact (h _ halt inner.machine hbut (outcome_answering_self perform inner answer)).1

/-- What a step asks for stops it, if that is made to stop. -/
theorem result_answering_of_asks (hasks : Asks session perform call inner) (halt : Halt)
    (stopped : Machine) :
    (call.outcome (step session (answering perform inner (.error halt, stopped)))).1
      = .error halt :=
  (awaits_of_asks hasks _ halt stopped (sameBut_answering perform inner _)
    (outcome_answering_self perform inner _)).1

/-- A step that asks for a call which stops has stopped for the same reason. -/
theorem result_of_asks {halt : Halt} (hasks : Asks session perform call inner)
    (hinner : (inner.outcome perform).1 = .error halt) :
    (call.outcome (step session perform)).1 = .error halt :=
  (awaits_of_asks hasks perform halt (inner.outcome perform).2 (fun _ _ => rfl)
    (Prod.ext hinner rfl)).1

/-- What a step asks for when a call stops, it asks for before that call: no more than if the
call did not stop. -/
theorem asks_of_asks_answering {halt : Halt} {stopped : Machine}
    (hne : inner ≠ middle)
    (h : Asks session (answering perform middle (.error halt, stopped)) call inner) :
    Asks session perform call inner := by
  -- let `inner` stop too, for a reason of its own
  obtain ⟨other, hresult, hother⟩ :=
    exists_other_halt (call.outcome (step session perform)).1 halt
  let answer : Except Halt Value × Machine := (.error other, inner.machine)
  let one := answering perform inner answer
  let both := answering one middle (.error halt, stopped)
  have hinner : (call.outcome (step session both)).1 = .error other := by
    refine (awaits_of_asks h both other inner.machine (fun third hthird => ?_) ?_).1
    · by_cases hmiddle : third = middle
      · subst hmiddle
        exact (outcome_answering_self _ _ _).trans (outcome_answering_self _ _ _).symm
      · exact ((sameBut_answering one middle _ third hmiddle).trans
          (sameBut_answering perform inner answer third hthird)).trans
            (sameBut_answering perform middle _ third hmiddle).symm
    · exact (sameBut_answering one middle _ inner hne).trans
        (outcome_answering_self perform inner answer)
  refine ⟨one, sameBut_answering perform inner answer, fun hsame => hresult ?_⟩
  rcases (step_sequential session call.task).same_or_awaits one both call.held
    call.machine with heq | ⟨third, hthird, hawaits⟩
  · rw [← hsame, ← hinner]
    exact congrArg Prod.fst heq
  · have hmiddle : third = middle := Classical.byContradiction fun h =>
      hthird (sameBut_answering one middle _ third h).symm
    subst hmiddle
    have hstop := (hawaits both halt stopped (sameBut_answering _ _ _)
      (outcome_answering_self _ _ _)).1
    exact absurd (Except.error.inj (hinner.symm.trans hstop)) hother

/-- A step does the same in every way of carrying out tasks that answers alike what it asks
for. -/
theorem outcome_step_congr
    (h : ∀ inner, Asks session perform call inner →
      inner.outcome perform = inner.outcome perform') :
    call.outcome (step session perform) = call.outcome (step session perform') := by
  rcases (step_sequential session call.task).same_or_awaits perform perform' call.held
    call.machine with hsame | ⟨inner, hne, hawaits⟩
  · exact hsame
  · exact absurd (h inner (asks_of_awaits hawaits)) hne

/-- A step asks for the same calls in every way of carrying out tasks that answers them
alike. -/
theorem Asks.congr (hasks : Asks session perform call middle)
    (h : ∀ inner, Asks session perform call inner →
      inner.outcome perform = inner.outcome perform') :
    Asks session perform' call middle := by
  obtain ⟨halt, hresult, -⟩ :=
    exists_other_halt (call.outcome (step session perform)).1 .exhausted
  let answer : Except Halt Value × Machine := (.error halt, middle.machine)
  have hstop := result_answering_of_asks hasks halt middle.machine
  have hsame : call.outcome (step session (answering perform middle answer)) =
      call.outcome (step session (answering perform' middle answer)) := by
    refine outcome_step_congr fun inner hinner => ?_
    by_cases hmiddle : inner = middle
    · subst hmiddle
      exact (outcome_answering_self _ _ _).trans (outcome_answering_self _ _ _).symm
    · exact ((sameBut_answering perform middle answer inner hmiddle).trans
        (h inner (asks_of_asks_answering hmiddle hinner))).trans
          (sameBut_answering perform' middle answer inner hmiddle).symm
  refine ⟨answering perform' middle answer, sameBut_answering _ _ _, fun heq => hresult ?_⟩
  rw [outcome_step_congr h, ← heq, ← hsame]
  exact hstop

end

/-- **Nothing is caught.** If a call inside a run stops, the run has stopped for the same
reason. -/
theorem result_of_nested {session : Session} {fuel fuel' : Nat} {call inner : Call}
    {halt : Halt} (hnested : Nested session fuel call fuel' inner)
    (hinner : (inner.outcome (run session fuel')).1 = .error halt) :
    (call.outcome (run session fuel)).1 = .error halt := by
  induction hnested with
  | self fuel call => exact hinner
  | inner hasks _ ih => exact result_of_asks hasks (ih hinner)

/-! ### The operator of a form -/

section

variable {session : Session} {perform : Task → EvalM Value} {ref head : CellRef}
  {scope : FrameRef} {held : List Hold} {store : Store} {census : Option Census} {depth : Nat}
  {halt : Halt} {after : Machine}

/-- A form whose operator is itself a form stops if the evaluation of the operator does. -/
theorem outcome_step_of_head (hlimit : depth < session.maxDepth)
    (hcar : store.car ref = .pair head)
    (hhead : Call.outcome ⟨.eval (.pair head) scope,
      .values [.pair head, store.cdr ref] :: held, ⟨store, census, depth + 1⟩⟩ perform =
        (.error halt, after)) :
    Call.outcome ⟨.eval (.pair ref) scope, held, ⟨store, census, depth⟩⟩ (step session perform) =
      (.error halt, { after with depth := after.depth - 1 }) := by
  have hpair : (evalPair session perform (.pair ref) ref scope).outcome held
      ⟨store, census, depth + 1⟩ = (.error halt, after) := by
    unfold evalPair
    rw [outcome_bind_ok (outcome_inspect _ _ _), outcome_bind_ok (outcome_inspect _ _ _), hcar]
    have hhead : (holding [.pair head, store.cdr ref]
        (perform (.eval (.pair head) scope))).outcome held ⟨store, census, depth + 1⟩ =
          (.error halt, after) := hhead
    exact outcome_bind_error hhead _
  show (limited session.maxDepth (evalPair session perform (.pair ref) ref scope)).outcome held
    ⟨store, census, depth⟩ = _
  rw [outcome_limited, if_neg (Nat.not_le.2 hlimit), outcome_deeper, hpair]

/-- The evaluation of such a form asks for the evaluation of its operator. -/
theorem asks_head (hlimit : depth < session.maxDepth) (hcar : store.car ref = .pair head) :
    Asks session perform ⟨.eval (.pair ref) scope, held, ⟨store, census, depth⟩⟩
      ⟨.eval (.pair head) scope, .values [.pair head, store.cdr ref] :: held,
        ⟨store, census, depth + 1⟩⟩ := by
  refine asks_of_awaits fun perform' halt stopped _ hstop => ?_
  have hout := outcome_step_of_head hlimit hcar hstop
  exact ⟨congrArg Prod.fst hout, fun hnone =>
    ⟨congrArg (·.2.store) hout, (congrArg (·.2.census) hout).trans hnone⟩⟩

end

end SmallLisp.Eval
