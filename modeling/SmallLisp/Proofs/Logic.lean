import SmallLisp.Session.Text

/-!
# A logic of evaluations

What evaluation does to a machine is said in many ways: that it changes certain frames only,
that it runs alike under two limits, that it ends. Each of these is a judgement on evaluations
that is closed under sequencing, under the operations of the store and under the call of a
lambda. A `Logic` collects what such a judgement has to be closed under, and this module goes
through the evaluator once, for all of them.

A judgement is on a family of evaluations, one for each member of some index type: two runs side
by side, one run for each bound on nested steps, or a single run. It is made in a *world*, which
says what is known of the machine at that moment, with the frame that may be written to, if there
is one beside the global frame, and in a *context*, which says what the steps in progress hold. A
value that a world has need not be there any more when a further task is done; one that is held
meanwhile is.

## Main results

* `Logic.step` — a step is as a logic demands if the tasks are that it is carried out by.
* `Logic.run` — so is a run, with any bound on nested steps.
* `Logic.evalForms`, `Logic.evalUntilError` — so is the evaluation of the forms of a text, if runs
  are.
* `PlainLogic.step`, `PlainLogic.run` — the same for judgements that know nothing of values.
-/

namespace SmallLisp

/-- Run an evaluation one level deeper unless the limit is reached. -/
def EvalM.limited {α : Type} (limit : Nat) (evaluation : EvalM α) : EvalM α := do
  if limit ≤ (← get).depth then fail (.recursionLimit limit) else deeper evaluation

/-- The frame that a task is carried out in. Applying a function is not done in any frame. -/
def Task.scope? : Task → Option FrameRef
  | .eval _ scope => some scope
  | .apply _ _ => none
  | .fill _ _ scope => some scope
  | .fillRest _ _ _ scope => some scope

/-- The error says that a text cannot be read. -/
def Error.isText : Error → Bool
  | .text _ => true
  | _ => false

/-- The error says neither that a text cannot be read nor that a native function is missing. -/
def Error.isOrdinary : Error → Bool
  | .text _ => false
  | .call (.unknownBuiltin _) => false
  | _ => true

theorem Error.isText_of_isOrdinary {error : Error} (h : error.isOrdinary = true) :
    error.isText = false := by
  cases error with
  | text cause => cases h
  | _ => rfl

/-- Evaluations that run in one session have its global frame in common. -/
theorem Session.globals_const (session : Session) (i : Unit) :
    (Function.const Unit session i).globals = session.globals := rfl

/-- Evaluations that run in one session have its native functions in common. -/
theorem Session.natives_const (session : Session) (i : Unit) :
    (Function.const Unit session i).natives = session.natives := rfl

namespace Eval

open EvalM

/-- A judgement on families of evaluations, closed under everything that evaluation does. The
families are over the sessions that the evaluations run in. -/
structure Logic {ι : Type} (session : ι → Session) where
  /-- What may be known of a machine. -/
  World : Type
  /-- What the steps in progress hold. -/
  Context : Type
  /-- Some values are held too. -/
  hold : List Value → Context → Context
  /-- Evaluation may lead from a world to another one while this is held. -/
  leads : Context → World → World → Prop
  /-- Evaluation may lead from a world to another one. -/
  later : World → World → Prop
  /-- The world one level deeper. -/
  deeper : World → World
  /-- The values that may occur. -/
  value : World → Value → Prop
  /-- The values that may occur from now on while this is held. -/
  kept : Context → World → Value → Prop
  /-- The frames that forms may be evaluated in while this is held. -/
  scope : Context → World → FrameRef → Prop
  /-- The second value is found inside the first one. -/
  part : Value → Value → Prop
  /-- The items are the elements of the list. -/
  spreads : Value → List Value → Prop
  globals : FrameRef
  natives : Table Native
  /-- The judgement: in this world, while this is held and this frame may be written to, the
  evaluations are as demanded, and what they result in is as stated. -/
  holds {α : Type} :
    Context → World → Option FrameRef → (World → α → Prop) → (ι → EvalM α) → Prop
  globals_eq (i : ι) : (session i).globals = globals
  natives_eq (i : ι) : (session i).natives = natives
  later_refl (w : World) : later w w
  later_trans {w₁ w₂ w₃ : World} : later w₁ w₂ → later w₂ w₃ → later w₁ w₃
  later_of_leads {c : Context} {w w' : World} : leads c w w' → later w w'
  leads_refl (c : Context) (w : World) : leads c w w
  leads_trans {c : Context} {w₁ w₂ w₃ : World} : leads c w₁ w₂ → leads c w₂ w₃ → leads c w₁ w₃
  part_trans {a b c : Value} : part a b → part b c → part a c
  value_of_kept {c : Context} {w : World} {v : Value} : kept c w v → value w v
  kept_leads {c : Context} {w w' : World} {v : Value} : leads c w w' → kept c w v → kept c w' v
  kept_held {c : Context} {w : World} {v : Value} {values : List Value} :
    v ∈ values → value w v → kept (hold values c) w v
  kept_hold {c : Context} {w : World} {v : Value} (values : List Value) :
    kept c w v → kept (hold values c) w v
  scope_leads {c : Context} {w w' : World} {frame : FrameRef} :
    leads c w w' → scope c w frame → scope c w' frame
  scope_hold {c : Context} {w : World} {frame : FrameRef} (values : List Value) :
    scope c w frame → scope (hold values c) w frame
  scope_deeper {c : Context} {w : World} {frame : FrameRef} :
    scope c w frame → scope c (deeper w) frame
  scope_globals (c : Context) (w : World) : scope c w globals
  value_deeper {w : World} {v : Value} : value w v → value (deeper w) v
  value_nil (w : World) : value w .nil
  value_t (w : World) : value w .t
  value_integer (w : World) (n : Int64) : value w (.integer n)
  value_symbol (w : World) (name : Symbol) : value w (.symbol name)
  -- Sequences
  pure {α : Type} {c : Context} {w : World} {E : Option FrameRef} {post : World → α → Prop}
      {a : α} :
    post w a → holds c w E post fun _ => pure a
  bind {α β : Type} {c : Context} {w : World} {E : Option FrameRef} {mid : World → α → Prop}
      {post : World → β → Prop} {f : ι → EvalM α} {k : ι → α → EvalM β} :
    holds c w E mid f →
      (∀ w', leads c w w' → ∀ a, mid w' a → holds c w' E post fun i => k i a) →
      holds c w E post fun i => f i >>= k i
  fail {α : Type} {c : Context} {w : World} {E : Option FrameRef} {post : World → α → Prop}
      (e : Error) :
    e.isOrdinary = true → holds c w E post fun _ => fail e
  /-- What was held is still there afterwards. -/
  holding {α : Type} {c : Context} {w : World} {E : Option FrameRef} {post : World → α → Prop}
      {f : ι → EvalM α} {values : List Value} : (∀ v ∈ values, value w v) →
    holds (hold values c) w E post f →
      holds c w E (fun w' a => post w' a ∧ leads (hold values c) w w')
        fun i => holding values (f i)
  limited {c : Context} {w : World} {E : Option FrameRef} {f : ι → EvalM Value} :
    holds c (deeper w) E value f →
      holds c w E value fun i => limited (session i).maxDepth (f i)
  /-- Writing to no frame but the global one is in order everywhere. -/
  anywhere {α : Type} {c : Context} {w : World} {frame : FrameRef} {post : World → α → Prop}
      {f : ι → EvalM α} :
    holds c w none post f → holds c w (some frame) post f
  /-- The global frame may always be written to. -/
  inGlobals {α : Type} {c : Context} {w : World} {post : World → α → Prop} {f : ι → EvalM α} :
    holds c w (some globals) post f → holds c w none post f
  -- Looking at the store
  car {c : Context} {w : World} {E : Option FrameRef} {ref : CellRef} : value w (.pair ref) →
    holds c w E (fun w' v => w' = w ∧ value w v ∧ part (.pair ref) v)
      fun _ => inspect (·.car ref)
  cdr {c : Context} {w : World} {E : Option FrameRef} {ref : CellRef} : value w (.pair ref) →
    holds c w E (fun w' v => w' = w ∧ value w v ∧ part (.pair ref) v)
      fun _ => inspect (·.cdr ref)
  elements {c : Context} {w : World} {E : Option FrameRef} {v : Value} : value w v →
    holds c w E
      (fun w' r => w' = w ∧
        ∀ items, r = .ok items → (∀ item ∈ items, value w item) ∧ spreads v items)
      fun _ => inspect (·.elements v)
  marked {c : Context} {w : World} {E : Option FrameRef} {v : Value} (head : Symbol) :
    value w v →
    holds c w E (fun w' r => w' = w ∧ ∀ inner, r = some inner → value w inner ∧ part v inner)
      fun _ => inspect (·.marked? head v)
  isMarked {c : Context} {w : World} {E : Option FrameRef} {v : Value} : value w v →
    holds c w E (fun w' _ => w' = w) fun _ => inspect (·.isMarked v)
  printed {c : Context} {w : World} {E : Option FrameRef} {v : Value} : value w v →
    holds c w E (fun w' _ => w' = w) fun _ => printed v
  params {c : Context} {w : World} {E : Option FrameRef} {spec : Value} : value w spec →
    holds c w E (fun w' _ => w' = w) fun _ => inspect (·.params spec)
  lookup {c : Context} {w : World} {E : Option FrameRef} {frame : FrameRef} (name : Symbol) :
    scope c w frame →
    holds c w E (fun w' r => w' = w ∧ ∀ v, r = some v → value w v)
      fun _ => inspect (·.lookup frame name)
  -- Changing the store
  listWithTail {c : Context} {w : World} {E : Option FrameRef} {items : List Value}
      {tail : Value} :
    (∀ item ∈ items, value w item) → value w tail →
    holds c w E value fun i => update (·.listWithTail (session i).arena items tail)
  ofData {c : Context} {w : World} {E : Option FrameRef} (data : List Datum) :
    holds c w E (fun w' forms => ∀ form ∈ forms, value w' form)
      fun i => update (·.ofData (session i).arena data)
  addLambda {c : Context} {w : World} {E : Option FrameRef} (name : Option Symbol)
      (params : Params) {body : List Value} {frame : FrameRef} :
    (∀ form ∈ body, value w form) → scope c w frame →
    holds c w E (fun w' ref => value w' (.closure ref) ∧ value w' (.expander ref))
      fun i => update (·.addLambda (session i).arena ⟨name, params, body, frame⟩)
  define {c : Context} {w : World} {frame : FrameRef} {v : Value} (name : Symbol) :
    scope c w frame → value w v →
    holds c w (some frame) (fun _ _ => True)
      fun _ => update fun store => ((), store.bind frame name v)
  setCar {c : Context} {w : World} {E : Option FrameRef} {name : Symbol} {ref : CellRef}
      {v : Value} :
    natives.lookup name = some (.primitive .setCar) → value w (.pair ref) → value w v →
    holds c w E (fun _ _ => True) fun _ => update fun store => ((), store.setCar ref v)
  setCdr {c : Context} {w : World} {E : Option FrameRef} {name : Symbol} {ref : CellRef}
      {v : Value} :
    natives.lookup name = some (.primitive .setCdr) → value w (.pair ref) → value w v →
    holds c w E (fun _ _ => True) fun _ => update fun store => ((), store.setCdr ref v)
  -- Calls
  missing {c : Context} {w : World} {name : Symbol} :
    value w (.builtin name) → natives.lookup name = none →
    holds c w none value fun _ => EvalM.fail (.call (.unknownBuiltin name))
  host {c : Context} {w : World} {name : Symbol} {function : HostFunction} {args : List Value} :
    natives.lookup name = some (.host function) → (∀ arg ∈ args, value w arg) →
    holds c w none value fun _ => applyHost function args
  invoke {c : Context} {w : World} {p : ι → Task → EvalM Value} {ref : LambdaRef}
      {args : List Value} (anonymous : String) :
    kept c w (.closure ref) ∨ kept c w (.expander ref) → (∀ arg ∈ args, value w arg) →
    (∀ c' w', later w w' → ∀ body frame, (∀ form ∈ body, kept c' w' form) → scope c' w' frame →
      holds c' w' (some frame) value fun i => evalBody (p i) body frame) →
    holds c w none value fun i => invoke (session i) (p i) ref anonymous args

namespace Logic

variable {ι : Type} {session : ι → Session} (L : Logic session)

/-- All the values may occur. -/
def values (w : L.World) (items : List Value) : Prop :=
  ∀ item ∈ items, L.value w item

/-- All the values may occur from now on. -/
def keptAll (c : L.Context) (w : L.World) (items : List Value) : Prop :=
  ∀ item ∈ items, L.kept c w item

/-- Everything that the task mentions may occur. The function that is applied has to be held. -/
def admits (c : L.Context) (w : L.World) : Task → Prop
  | .eval form frame => L.value w form ∧ L.scope c w frame
  | .apply callee args => L.kept c w callee ∧ L.values w args
  | .fill template _ frame => L.value w template ∧ L.scope c w frame
  | .fillRest made rest _ frame => L.values w made ∧ L.value w rest ∧ L.scope c w frame

/-- The world in which the further tasks of a task are carried out. -/
def inside (w : L.World) : Task → L.World
  | .eval _ _ => L.deeper w
  | _ => w

/-- From this world on, forms are evaluated as demanded. -/
def Evaluates (w : L.World) (p : ι → Task → EvalM Value) : Prop :=
  ∀ c w', L.later w w' → ∀ form frame, L.value w' form → L.scope c w' frame →
    L.holds c w' (some frame) L.value fun i => p i (.eval form frame)

/-- From this world on, all tasks are carried out as demanded. -/
def Performs (w : L.World) (p : ι → Task → EvalM Value) : Prop :=
  ∀ c w', L.later w w' → ∀ task, L.admits c w' task →
    L.holds c w' task.scope? L.value fun i => p i task

variable {L} {p : ι → Task → EvalM Value} {c : L.Context} {w w' : L.World}
  {E : Option FrameRef} {frame : FrameRef}

theorem values_of_keptAll {items : List Value} (h : L.keptAll c w items) : L.values w items :=
  fun item hitem => L.value_of_kept (h item hitem)

theorem keptAll_leads {items : List Value} (hw : L.leads c w w') (h : L.keptAll c w items) :
    L.keptAll c w' items :=
  fun item hitem => L.kept_leads hw (h item hitem)

theorem keptAll_hold {items : List Value} (h : L.values w items) :
    L.keptAll (L.hold items c) w items :=
  fun item hitem => L.kept_held hitem (h item hitem)

/-- What was held is still there. -/
theorem value_held {v : Value} {items : List Value} (hw : L.leads (L.hold items c) w w')
    (hitem : v ∈ items) (h : L.value w v) : L.value w' v :=
  L.value_of_kept (L.kept_leads hw (L.kept_held hitem h))

theorem values_cons {v : Value} {items : List Value} (hv : L.value w v)
    (h : L.values w items) : L.values w (v :: items) :=
  List.forall_mem_cons.2 ⟨hv, h⟩

theorem values_singleton {v : Value} (hv : L.value w v) : L.values w [v] :=
  values_cons hv fun _ h => absurd h List.not_mem_nil

theorem values_pair {v v' : Value} (hv : L.value w v) (hv' : L.value w v') : L.values w [v, v'] :=
  values_cons hv (values_singleton hv')

theorem values_append {items others : List Value} (h : L.values w items)
    (ho : L.values w others) : L.values w (items ++ others) :=
  List.forall_mem_append.2 ⟨h, ho⟩

theorem values_reverse {items : List Value} (h : L.values w items) :
    L.values w items.reverse :=
  fun item hitem => h item (List.mem_reverse.1 hitem)

theorem value_ofBool (b : Bool) : L.value w (.ofBool b) := by
  cases b
  · exact L.value_nil w
  · exact L.value_t w

/-- What is known of the results may be weakened. -/
theorem imp {α : Type} {post post' : L.World → α → Prop} {f : ι → EvalM α}
    (h : L.holds c w E post f) (himp : ∀ w' a, post w' a → post' w' a) :
    L.holds c w E post' f := by
  have hbind := L.bind h fun w' _ a ha => L.pure (c := c) (E := E) (himp w' a ha)
  simpa only [bind_pure] using hbind

/-- Look at the store and go on in the same world. -/
theorem look {α β : Type} {P : α → Prop} {post : L.World → β → Prop} {f : ι → EvalM α}
    {k : ι → α → EvalM β} (h : L.holds c w E (fun w' a => w' = w ∧ P a) f)
    (hk : ∀ a, P a → L.holds c w E post fun i => k i a) :
    L.holds c w E post fun i => f i >>= k i := by
  refine L.bind h fun w' _ a ha => ?_
  obtain ⟨rfl, ha⟩ := ha
  exact hk a ha

/-- Stop with an error that quotes a value. -/
theorem failPrinted {α : Type} {post : L.World → α → Prop} {v : Value} (h : L.value w v)
    (e : String → Error) (hordinary : ∀ text, (e text).isOrdinary = true) :
    L.holds c w E post fun _ => (do EvalM.fail (e (← EvalM.printed v))) :=
  L.bind (L.printed h) fun _ _ text _ => L.fail (e text) (hordinary text)

theorem Evaluates.later (h : L.Evaluates w p) (hw : L.later w w') : L.Evaluates w' p :=
  fun c w'' hw' => h c w'' (L.later_trans hw hw')

theorem Evaluates.leads (h : L.Evaluates w p) (hw : L.leads c w w') : L.Evaluates w' p :=
  h.later (L.later_of_leads hw)

theorem Evaluates.eval (h : L.Evaluates w p) {form : Value} (hform : L.value w form)
    (hframe : L.scope c w frame) :
    L.holds c w (some frame) L.value fun i => p i (.eval form frame) :=
  h c w (L.later_refl w) form frame hform hframe

theorem Performs.leads (h : L.Performs w p) (hw : L.leads c w w') : L.Performs w' p :=
  fun c w'' hw' => h c w'' (L.later_trans (L.later_of_leads hw) hw')

theorem Performs.perform (h : L.Performs w p) (task : Task) (htask : L.admits c w task) :
    L.holds c w task.scope? L.value fun i => p i task :=
  h c w (L.later_refl w) task htask

theorem Performs.evaluates (h : L.Performs w p) : L.Evaluates w p :=
  fun c w' hw form frame hform hframe => h c w' hw (.eval form frame) ⟨hform, hframe⟩

/-! ### Arguments and bodies -/

theorem argumentForms {rest : Value} (h : L.value w rest) :
    L.holds c w E (fun w' forms => w' = w ∧ L.values w forms)
      fun _ => Eval.argumentForms rest := by
  refine look (L.elements h) fun r hr => ?_
  cases r with
  | ok items => exact L.pure ⟨rfl, (hr items rfl).1⟩
  | error e => exact failPrinted h _ fun _ => rfl

theorem evalEach (hp : L.Evaluates w p) (hframe : L.scope c w frame) {forms : List Value}
    (hforms : L.keptAll c w forms) :
    L.holds c w (some frame) L.values fun i => Eval.evalEach (p i) frame forms := by
  induction forms generalizing c w with
  | nil => exact L.pure fun _ h => absurd h List.not_mem_nil
  | cons form rest ih =>
      obtain ⟨hform, hrest⟩ := List.forall_mem_cons.1 hforms
      refine L.bind (hp.eval (L.value_of_kept hform) hframe) fun w' hw v hv => ?_
      have hothers := ih (c := L.hold [v] c) (hp.leads hw)
        (L.scope_hold [v] (L.scope_leads hw hframe))
        fun item hitem => L.kept_hold [v] (L.kept_leads hw (hrest item hitem))
      refine L.bind (L.holding (values_singleton hv) hothers) fun w'' _ others ⟨hothers, hw'⟩ => ?_
      exact L.pure (values_cons (value_held hw' List.mem_cons_self hv) hothers)

theorem evalArguments (hp : L.Evaluates w p) (hframe : L.scope c w frame) {rest : Value}
    (hrest : L.value w rest) :
    L.holds c w (some frame) L.values fun i => Eval.evalArguments (p i) rest frame := by
  refine look (argumentForms hrest) fun forms hforms => ?_
  exact imp (L.holding hforms (evalEach hp (L.scope_hold forms hframe) (keptAll_hold hforms)))
    fun _ _ h => h.1

/-- A body that has already given a value goes on as demanded. -/
theorem evalBodyFrom (hp : L.Evaluates w p) (hframe : L.scope c w frame) {body : List Value}
    (hbody : L.keptAll c w body) {v : Value} (hv : L.value w v) :
    L.holds c w (some frame) L.value fun i =>
      body.foldlM (fun value form => EvalM.holding [value] (p i (.eval form frame))) v := by
  induction body generalizing w v with
  | nil => exact L.pure hv
  | cons form rest ih =>
      obtain ⟨hform, hrest⟩ := List.forall_mem_cons.1 hbody
      simp only [List.foldlM_cons]
      have heval := hp.eval (L.value_of_kept hform) (L.scope_hold [v] hframe)
      refine L.bind (L.holding (values_singleton hv) heval) fun w' hw value ⟨hvalue, _⟩ => ?_
      exact ih (hp.leads hw) (L.scope_leads hw hframe) (keptAll_leads hw hrest) hvalue

theorem evalBody (hp : L.Evaluates w p) (hframe : L.scope c w frame) {body : List Value}
    (hbody : L.keptAll c w body) :
    L.holds c w (some frame) L.value fun i => Eval.evalBody (p i) body frame :=
  evalBodyFrom hp hframe hbody (L.value_nil w)

theorem call (hp : L.Evaluates w p) {ref : LambdaRef} {args : List Value} (anonymous : String)
    (href : L.kept c w (.closure ref) ∨ L.kept c w (.expander ref)) (hargs : L.values w args) :
    L.holds c w none L.value fun i => Eval.invoke (session i) (p i) ref anonymous args :=
  L.invoke anonymous href hargs fun _ _ hw _ _ hbody hframe =>
    evalBody (hp.later hw) hframe hbody

/-! ### Special forms -/

theorem definedName (who : String) {form : Value} (hform : L.value w form) :
    L.holds c w E (fun w' _ => w' = w ∧ True) fun _ => Eval.definedName who form := by
  cases form with
  | symbol name => exact L.pure ⟨rfl, trivial⟩
  | _ => exact failPrinted hform _ fun _ => rfl

theorem makeLambda (name : Option Symbol) {spec : Value} {body : List Value}
    (hspec : L.value w spec) (hbody : L.values w body) (hframe : L.scope c w frame) :
    L.holds c w E (fun w' ref => L.value w' (.closure ref) ∧ L.value w' (.expander ref))
      fun i => Eval.makeLambda (session i) name spec body frame := by
  refine L.bind (L.params hspec) fun w' _ r hw => ?_
  subst hw
  cases r with
  | ok params => exact L.addLambda name params hbody hframe
  | error fault => exact L.fail _ rfl

theorem defineLambda (who : String) {wrap : LambdaRef → Value} {args : List Value}
    (hwrap : ∀ ref, wrap ref = .closure ref ∨ wrap ref = .expander ref)
    (hargs : L.values w args) (hframe : L.scope c w frame) :
    L.holds c w (some frame) L.value
      fun i => Eval.defineLambda (session i) who wrap args frame := by
  match args, hargs with
  | [], _ => exact L.fail _ rfl
  | [_], _ => exact L.fail _ rfl
  | [_, _], _ => exact L.fail _ rfl
  | nameForm :: spec :: first :: others, hargs =>
      obtain ⟨hname, hargs⟩ := List.forall_mem_cons.1 hargs
      obtain ⟨hspec, hbody⟩ := List.forall_mem_cons.1 hargs
      refine look (definedName who hname) fun name _ => ?_
      refine L.bind (makeLambda (some name) hspec hbody hframe) fun w' hw ref href => ?_
      have hvalue : L.value w' (wrap ref) := by
        rcases hwrap ref with h | h
        · exact h ▸ href.1
        · exact h ▸ href.2
      refine L.bind (L.define name (L.scope_leads hw hframe) hvalue) fun w'' _ _ _ => ?_
      exact L.pure (L.value_symbol w'' name)

theorem evalSpecial (hp : L.Performs w p) (special : SpecialForm) {args : List Value}
    (hargs : L.keptAll c w args) (hframe : L.scope c w frame) :
    L.holds c w (some frame) L.value
      fun i => Eval.evalSpecial (session i) (p i) special args frame := by
  have hvalues := values_of_keptAll hargs
  have heval : ∀ w', L.leads c w w' → ∀ form ∈ args,
      L.holds c w' (some frame) L.value fun i => p i (.eval form frame) :=
    fun w' hw form hform => (hp.leads hw).evaluates.eval
      (L.value_of_kept (L.kept_leads hw (hargs form hform))) (L.scope_leads hw hframe)
  cases special with
  | quote =>
      match args, hvalues with
      | [form], hvalues => exact L.pure (hvalues form (by simp))
      | [], _ => exact L.fail _ rfl
      | _ :: _ :: _, _ => exact L.fail _ rfl
  | quasiquote =>
      match args, hvalues with
      | [template], hvalues =>
          exact hp.perform (.fill template 1 frame) ⟨hvalues template (by simp), hframe⟩
      | [], _ => exact L.fail _ rfl
      | _ :: _ :: _, _ => exact L.fail _ rfl
  | unquote => exact L.fail _ rfl
  | unquoteSplicing => exact L.fail _ rfl
  | define =>
      match args, hvalues with
      | [nameForm, form], hvalues =>
          refine look (definedName "def" (hvalues nameForm (by simp))) fun name _ => ?_
          refine L.bind (heval w (L.leads_refl c w) form (by simp)) fun w' hw v hv => ?_
          refine L.bind (L.define name (L.scope_leads hw hframe) hv) fun w'' _ _ _ => ?_
          exact L.pure (L.value_symbol w'' name)
      | [], _ => exact L.fail _ rfl
      | [_], _ => exact L.fail _ rfl
      | _ :: _ :: _ :: _, _ => exact L.fail _ rfl
  | defineFunction => exact defineLambda "defun" (fun _ => .inl rfl) hvalues hframe
  | defineExpander => exact defineLambda "defmacro" (fun _ => .inr rfl) hvalues hframe
  | lambda =>
      match args, hvalues with
      | spec :: first :: others, hvalues =>
          obtain ⟨hspec, hbody⟩ := List.forall_mem_cons.1 hvalues
          exact L.bind (makeLambda none hspec hbody hframe) fun _ _ _ href => L.pure href.1
      | [], _ => exact L.fail _ rfl
      | [_], _ => exact L.fail _ rfl
  | conditional =>
      match args, hargs with
      | [test, consequent], hargs =>
          refine L.bind (heval w (L.leads_refl c w) test (by simp)) fun w' hw v _ => ?_
          split
          · exact heval w' hw consequent (by simp)
          · exact L.pure (L.value_nil w')
      | [test, consequent, alternative], hargs =>
          refine L.bind (heval w (L.leads_refl c w) test (by simp)) fun w' hw v _ => ?_
          split
          · exact heval w' hw consequent (by simp)
          · exact heval w' hw alternative (by simp)
      | [], _ => exact L.fail _ rfl
      | [_], _ => exact L.fail _ rfl
      | _ :: _ :: _ :: _ :: _, _ => exact L.fail _ rfl
  | progn => exact evalBody hp.evaluates hframe hargs

/-! ### Templates -/

theorem keepMark (head : Symbol) {inner : Value} (hinner : L.value w inner) :
    L.holds c w E L.value fun i => Eval.keepMark (session i) head inner :=
  L.listWithTail
    (values_cons (L.value_symbol w head)
      (values_cons hinner fun _ h => absurd h List.not_mem_nil))
    (L.value_nil w)

/-- In this world, whatever is held, a template is filled in as demanded. -/
def Fills (L : Logic session) (w : L.World) (p : ι → Task → EvalM Value) (frame : FrameRef)
    (template : Value) (level : Nat) : Prop :=
  ∀ c, L.scope c w frame →
    L.holds c w (some frame) L.value fun i => p i (.fill template level frame)

theorem fill (hp : L.Evaluates w p) {template : Value} {level : Nat}
    (htemplate : L.value w template) (hframe : L.scope c w frame)
    (hpart : ∀ inner level, L.part template inner → L.value w inner →
      L.Fills w p frame inner level)
    (hlist : L.holds c w (some frame) L.value fun i => p i (.fillRest [] template level frame)) :
    L.holds c w (some frame) L.value
      fun i => Eval.fill (session i) (p i) template level frame := by
  refine look (L.marked .unquote htemplate) fun r hr => ?_
  cases r with
  | some inner =>
      obtain ⟨hinner, hin⟩ := hr inner rfl
      have hframe := L.scope_hold [inner] hframe
      dsimp only
      split
      · exact imp (L.holding (values_singleton hinner) (hp.eval hinner hframe)) fun _ _ h => h.1
      · refine L.bind (L.holding (values_singleton hinner)
          (hpart inner (level - 1) hin hinner _ hframe)) fun _ _ filled hfilled => ?_
        exact keepMark .unquote hfilled.1
  | none =>
      refine look (L.marked .quasiquote htemplate) fun r hr => ?_
      cases r with
      | some inner =>
          obtain ⟨hinner, hin⟩ := hr inner rfl
          refine L.bind (L.holding (values_singleton hinner) (hpart inner (level + 1) hin hinner _
            (L.scope_hold [inner] hframe))) fun _ _ filled hfilled => ?_
          exact keepMark .quasiquote hfilled.1
      | none =>
          cases template with
          | pair ref => exact hlist
          | _ => exact L.pure htemplate

theorem fillElement (hp : L.Evaluates w p) {element : Value} (level : Nat)
    (helement : L.value w element) (hframe : L.scope c w frame)
    (hfill : ∀ inner level, inner = element ∨ L.part element inner → L.value w inner →
      L.Fills w p frame inner level) :
    L.holds c w (some frame) L.values
      fun i => Eval.fillElement (session i) (p i) element level frame := by
  refine look (L.marked .unquoteSplicing helement) fun r hr => ?_
  cases r with
  | some inner =>
      obtain ⟨hinner, hin⟩ := hr inner rfl
      have hframe := L.scope_hold [inner] hframe
      dsimp only
      split
      · refine L.bind (L.holding (values_singleton hinner) (hp.eval hinner hframe))
          fun w' _ v ⟨hv, _⟩ => ?_
        refine look (L.elements hv) fun r hr => ?_
        cases r with
        | ok items => exact L.pure (hr items rfl).1
        | error e => exact failPrinted hv _ fun _ => rfl
      · refine L.bind (L.holding (values_singleton hinner)
          (hfill inner (level - 1) (.inr hin) hinner _ hframe)) fun _ _ filled hfilled => ?_
        exact L.bind (keepMark .unquoteSplicing hfilled.1)
          fun _ _ _ hv => L.pure (values_singleton hv)
  | none =>
      exact L.bind (hfill element level (.inl rfl) helement _ hframe)
        fun _ _ _ hv => L.pure (values_singleton hv)

theorem fillRest (hp : L.Evaluates w p) {made : List Value} {rest : Value} {level : Nat}
    (hmade : L.values w made) (hrest : L.value w rest) (hframe : L.scope c w frame)
    (hself : made ≠ [] → L.Fills w p frame rest level)
    (hpart : ∀ inner level, L.part rest inner → L.value w inner → L.Fills w p frame inner level)
    (hnext : ∀ w', L.leads c w w' → ∀ made' rest', L.part rest rest' → L.values w' made' →
      L.value w' rest' →
      L.holds c w' (some frame) L.value fun i => p i (.fillRest made' rest' level frame)) :
    L.holds c w (some frame) L.value
      fun i => Eval.fillRest (session i) (p i) made rest level frame := by
  refine L.bind (L.isMarked hrest) fun w' _ isMarked hw => ?_
  subst hw
  split
  · next hmarked =>
      have hne : made ≠ [] := by
        rintro rfl
        simp at hmarked
      refine L.bind (L.holding (values_cons hrest hmade) (hself hne _ (L.scope_hold _ hframe)))
        fun w' _ tail ⟨htail, hw⟩ => ?_
      refine L.listWithTail (values_reverse fun item hitem => ?_) htail
      exact value_held hw (List.mem_cons_of_mem _ hitem) (hmade item hitem)
  · cases rest with
    | pair ref =>
        refine look (L.car hrest) fun element helement => ?_
        have hitems := fillElement (c := L.hold (element :: .pair ref :: made) c) hp level
          helement.1 (L.scope_hold _ hframe) fun inner level hinner hvalue =>
            hpart inner level
              (hinner.elim (fun h => h ▸ helement.2) (L.part_trans helement.2)) hvalue
        refine L.bind (L.holding (values_cons helement.1 (values_cons hrest hmade)) hitems)
          fun w' hw items ⟨hitems, hheld⟩ => ?_
        have hpair := value_held hheld (by simp) hrest
        refine look (L.cdr hpair) fun next hnext' => ?_
        refine hnext w' hw _ next hnext'.2 (values_append (values_reverse hitems) ?_) hnext'.1
        exact fun item hitem => value_held hheld (by simp [hitem]) (hmade item hitem)
    | _ => exact L.listWithTail (values_reverse hmade) hrest

/-! ### Native functions -/

theorem integerArgument (who : Primitive) {arg : Value} (harg : L.value w arg) :
    L.holds c w E (fun w' _ => w' = w ∧ True) fun _ => Eval.integerArgument who arg := by
  cases arg with
  | integer n => exact L.pure ⟨rfl, trivial⟩
  | _ => exact failPrinted harg _ fun _ => rfl

theorem integerArguments (who : Primitive) {args : List Value} (hargs : L.values w args) :
    L.holds c w E (fun _ _ => True) fun _ => args.mapM (Eval.integerArgument who) := by
  induction args with
  | nil => exact L.pure trivial
  | cons arg rest ih =>
      obtain ⟨harg, hrest⟩ := List.forall_mem_cons.1 hargs
      simp only [List.mapM_cons]
      refine look (integerArgument who harg) fun n _ => ?_
      exact L.bind (ih hrest) fun _ _ _ _ => L.pure trivial

theorem calculate (who : Primitive) (operation : List Int64 → Except Arithmetic.Fault Int64)
    {args : List Value} (hargs : L.values w args) :
    L.holds c w E L.value fun _ => Eval.calculate who operation args := by
  refine L.bind (integerArguments who hargs) fun w' _ numbers _ => ?_
  cases operation numbers with
  | ok n => exact L.pure (L.value_integer w' n)
  | error fault =>
      cases fault with
      | overflow => exact L.fail _ rfl
      | divisionByZero => exact L.fail _ rfl

theorem compareIntegers (who : Primitive) (relation : Int64 → Int64 → Bool) {a b : Value}
    (ha : L.value w a) (hb : L.value w b) :
    L.holds c w E L.value fun _ => Eval.compareIntegers who relation a b := by
  refine look (integerArgument who ha) fun m _ => ?_
  exact look (integerArgument who hb) fun _ _ => L.pure (value_ofBool _)

theorem carOf {v : Value} (hv : L.value w v) :
    L.holds c w E L.value fun _ => Eval.part .car Store.car v := by
  cases v with
  | pair ref => exact imp (L.car hv) fun _ _ h => h.1 ▸ h.2.1
  | nil => exact L.pure hv
  | _ => exact failPrinted hv _ fun _ => rfl

theorem cdrOf {v : Value} (hv : L.value w v) :
    L.holds c w E L.value fun _ => Eval.part .cdr Store.cdr v := by
  cases v with
  | pair ref => exact imp (L.cdr hv) fun _ _ h => h.1 ▸ h.2.1
  | nil => exact L.pure hv
  | _ => exact failPrinted hv _ fun _ => rfl

theorem mutate (who : Primitive) {change : Store → CellRef → Store} {v : Value}
    (hv : L.kept c w v)
    (hchange : ∀ ref, v = .pair ref →
      L.holds c w E (fun _ _ => True) fun _ => update fun store => ((), change store ref)) :
    L.holds c w E L.value fun _ => Eval.mutate who change v := by
  cases v with
  | pair ref =>
      exact L.bind (hchange ref rfl) fun _ hw _ _ => L.pure (L.value_of_kept (L.kept_leads hw hv))
  | _ => exact failPrinted (L.value_of_kept hv) _ fun _ => rfl

theorem expandOnce (hp : L.Evaluates w p) {form : Value} (hform : L.value w form) :
    L.holds c w none L.value fun i => Eval.expandOnce (session i) (p i) form := by
  cases form with
  | pair ref =>
      refine look (L.car hform) fun head _ => ?_
      cases head with
      | symbol name =>
          dsimp only
          split
          · exact L.pure hform
          · simp only [L.globals_eq]
            refine look (L.lookup name (L.scope_globals c w)) fun r hr => ?_
            split
            · next lambda =>
                refine look (L.cdr hform) fun rest hrest => ?_
                refine look (argumentForms hrest.1) fun forms hforms => ?_
                have hlambda : L.kept (L.hold [.expander lambda] c) w (.expander lambda) :=
                  L.kept_held List.mem_cons_self (hr _ rfl)
                exact imp (L.holding (values_singleton (hr _ rfl))
                  (call hp "macro" (.inr hlambda) hforms)) fun _ _ h => h.1
            · exact L.pure hform
      | _ => exact L.pure hform
  | _ => exact L.pure hform

/-- The tasks that the primitive `apply` hands its arguments on to are carried out as demanded. -/
def Spreads (L : Logic session) (c : L.Context) (w : L.World) (p : ι → Task → EvalM Value)
    (args : List Value) : Prop :=
  ∀ callee leading last items, args = callee :: (leading ++ [last]) →
    L.spreads last items → L.values w items →
    L.holds c w none L.value fun i => p i (.apply callee (leading ++ items))

theorem spread {args leading : List Value} {callee last : Value} (hargs : L.values w args)
    (heq : args = callee :: (leading ++ [last])) (happly : L.Spreads c w p args) :
    L.holds c w none L.value fun i => Eval.spread (p i) callee leading last := by
  have hlast : L.value w last := hargs last (by simp [heq])
  refine look (L.elements hlast) fun r hr => ?_
  cases r with
  | ok items =>
      obtain ⟨hitems, hspread⟩ := hr items rfl
      exact happly callee leading last items heq hspread hitems
  | error e => exact failPrinted hlast _ fun _ => rfl

theorem applyPrimitive (hp : L.Evaluates w p) {name : Symbol} {primitive : Primitive}
    (hname : L.natives.lookup name = some (.primitive primitive)) {args : List Value}
    (hargs : L.keptAll c w args) (happly : L.Spreads c w p args) :
    L.holds c w none L.value
      fun i => Eval.applyPrimitive (session i) (p i) primitive args := by
  have hnil := L.value_nil w
  have hvalues := values_of_keptAll hargs
  unfold Eval.applyPrimitive
  split <;> simp only [List.forall_mem_cons, values, keptAll] at hvalues hargs
  · obtain ⟨ha, hb, -⟩ := hvalues
    exact L.listWithTail (values_cons ha fun _ h => absurd h List.not_mem_nil) hb
  · exact carOf hvalues.1
  · exact cdrOf hvalues.1
  · exact L.listWithTail hvalues hnil
  · obtain ⟨ha, hb, -⟩ := hvalues
    exact mutate .setCar hargs.1 fun ref heq => L.setCar hname (heq ▸ ha) hb
  · obtain ⟨ha, hb, -⟩ := hvalues
    exact mutate .setCdr hargs.1 fun ref heq => L.setCdr hname (heq ▸ ha) hb
  · exact L.pure (value_ofBool _)
  · exact L.pure (value_ofBool _)
  · exact L.pure (value_ofBool _)
  · exact L.pure (value_ofBool _)
  · exact L.pure (value_ofBool _)
  · exact L.pure (value_ofBool _)
  · exact L.pure (value_ofBool _)
  · exact calculate .add _ hvalues
  · exact calculate .subtract _ (values_cons hvalues.1 hvalues.2)
  · exact calculate .multiply _ hvalues
  · exact calculate .divide _ (values_cons hvalues.1 hvalues.2)
  · exact compareIntegers .less _ hvalues.1 hvalues.2.1
  · exact compareIntegers .greater _ hvalues.1 hvalues.2.1
  · exact compareIntegers .numEqual _ hvalues.1 hvalues.2.1
  · next callee second others =>
      refine spread (values_cons hvalues.1 (values_cons hvalues.2.1 hvalues.2.2)) ?_ happly
      rw [List.getLastD_cons, ← List.getLast_eq_getLastD (List.cons_ne_nil second others),
        List.dropLast_concat_getLast]
  · simp only [L.globals_eq]
    exact L.inGlobals (hp.eval hvalues.1 (L.scope_globals c w))
  · exact expandOnce hp hvalues.1
  · exact L.fail _ rfl

/-! ### Forms and calls -/

theorem apply (hp : L.Evaluates w p) {callee : Value} {args : List Value}
    (hcallee : L.kept c w callee) (hargs : L.values w args)
    (happly : L.Spreads (L.hold args c) w p args) :
    L.holds c w none L.value fun i => Eval.apply (session i) (p i) callee args := by
  cases callee with
  | closure ref => exact call hp "lambda" (.inl hcallee) hargs
  | builtin name =>
      unfold Eval.apply
      simp only [L.natives_eq]
      split
      · next native hname =>
          have hnative : L.holds (L.hold args c) w none L.value
              fun i => applyNative (session i) (p i) native args := by
            cases native with
            | primitive primitive => exact applyPrimitive hp hname (keptAll_hold hargs) happly
            | host function => exact L.host hname hargs
          exact imp (L.holding hargs hnative) fun _ _ h => h.1
      · next hname => exact L.missing (L.value_of_kept hcallee) hname
  | _ => exact failPrinted (L.value_of_kept hcallee) _ fun _ => rfl

theorem callWith (hp : L.Performs w p) {callee rest : Value} (hcallee : L.value w callee)
    (hrest : L.value w rest) (hframe : L.scope c w frame) :
    L.holds c w (some frame) L.value fun i => Eval.callWith (p i) callee rest frame := by
  refine imp (L.holding (values_pair hcallee hrest) (L.bind (evalArguments hp.evaluates
    (L.scope_hold _ hframe) hrest) fun w' hw args hargs => ?_)) fun _ _ h => h.1
  have hcallee := L.kept_leads hw (L.kept_held (by simp) hcallee)
  exact L.anywhere ((hp.leads hw).perform (.apply callee args) ⟨hcallee, hargs⟩)

theorem evalExpansion (hp : L.Performs w p) {lambda : LambdaRef} {rest : Value}
    (hlambda : L.value w (.expander lambda)) (hrest : L.value w rest)
    (hframe : L.scope c w frame) :
    L.holds c w (some frame) L.value
      fun i => Eval.evalExpansion (session i) (p i) lambda rest frame := by
  have hkept : L.kept (L.hold [.expander lambda, rest] c) w (.expander lambda) :=
    L.kept_held List.mem_cons_self hlambda
  refine imp (L.holding (values_pair hlambda hrest) (look (argumentForms hrest)
    fun forms hforms => ?_)) fun _ _ h => h.1
  have hexpand := call hp.evaluates "macro" (.inr hkept) hforms
  refine L.bind (L.anywhere hexpand) fun w' hw expansion hexpansion => ?_
  have heval := (hp.leads hw).evaluates.eval hexpansion
    (L.scope_hold [expansion] (L.scope_leads hw (L.scope_hold _ hframe)))
  exact imp (L.holding (values_singleton hexpansion) heval) fun _ _ h => h.1

theorem evalNamed (hp : L.Performs w p) {form rest : Value} (name : Symbol)
    (hform : L.value w form) (hrest : L.value w rest) (hframe : L.scope c w frame) :
    L.holds c w (some frame) L.value
      fun i => Eval.evalNamed (session i) (p i) form name rest frame := by
  unfold Eval.evalNamed
  split
  · next special _ =>
      refine look (L.elements hrest) fun r hr => ?_
      cases r with
      | ok args =>
          have hargs := (hr args rfl).1
          have hkept : L.keptAll (L.hold (rest :: args) c) w args := fun arg harg =>
            L.kept_held (List.mem_cons_of_mem _ harg) (hargs arg harg)
          exact imp (L.holding (values_cons hrest hargs)
            (evalSpecial hp special hkept (L.scope_hold _ hframe))) fun _ _ h => h.1
      | error e => exact failPrinted hform _ fun _ => rfl
  · refine look (L.lookup name hframe) fun r hr => ?_
    cases r with
    | none => exact L.fail _ rfl
    | some callee =>
        have hcallee := hr callee rfl
        cases callee with
        | expander lambda => exact evalExpansion hp hcallee hrest hframe
        | closure lambda => exact callWith hp hcallee hrest hframe
        | builtin native => exact callWith hp hcallee hrest hframe
        | _ => exact failPrinted hcallee _ fun _ => rfl

theorem evalPair (hp : L.Performs w p) {ref : CellRef} (hform : L.value w (.pair ref))
    (hframe : L.scope c w frame) :
    L.holds c w (some frame) L.value
      fun i => Eval.evalPair (session i) (p i) (.pair ref) ref frame := by
  refine look (L.car hform) fun head hhead => ?_
  refine look (L.cdr hform) fun rest hrest => ?_
  cases head with
  | symbol name => exact evalNamed hp name hform hrest.1 hframe
  | pair inner =>
      refine L.bind (L.holding (values_pair hhead.1 hrest.1) (hp.evaluates.eval hhead.1
        (L.scope_hold _ hframe))) fun w' hw callee ⟨hcallee, hheld⟩ => ?_
      have hhead := value_held hheld (by simp) hhead.1
      have hrest := value_held hheld (by simp) hrest.1
      have hframe := L.scope_leads hw hframe
      have hcall := callWith (c := L.hold [.pair inner] c) (hp.leads hw) hcallee hrest
        (L.scope_hold _ hframe)
      cases callee with
      | closure lambda => exact imp (L.holding (values_singleton hhead) hcall) fun _ _ h => h.1
      | builtin native => exact imp (L.holding (values_singleton hhead) hcall) fun _ _ h => h.1
      | _ =>
          refine L.bind (L.printed hhead) fun w'' _ _ hw'' => ?_
          subst hw''
          exact failPrinted hcallee _ fun _ => rfl
  | _ =>
      refine L.bind (L.printed hhead.1) fun w' _ _ hw' => ?_
      subst hw'
      exact failPrinted hform _ fun _ => rfl

theorem evalForm (hp : L.Performs w p) {form : Value} (hform : L.value w form)
    (hframe : L.scope c w frame) :
    L.holds c w (some frame) L.value fun i => Eval.evalForm (session i) (p i) form frame := by
  cases form with
  | symbol name =>
      refine look (L.lookup name hframe) fun r hr => ?_
      cases r with
      | some v => exact L.pure (hr v rfl)
      | none => exact L.fail _ rfl
  | pair ref => exact evalPair hp hform hframe
  | nil => exact L.pure hform
  | t => exact L.pure hform
  | integer n => exact L.pure hform
  | _ => exact failPrinted hform _ fun _ => rfl

theorem evalLimited (hp : L.Performs (L.deeper w) p) {form : Value} (hform : L.value w form)
    (hframe : L.scope c w frame) :
    L.holds c w (some frame) L.value fun i => Eval.evalLimited (session i) (p i) form frame :=
  L.limited (evalForm hp (L.value_deeper hform) (L.scope_deeper hframe))

/-! ### Steps and runs -/

/-- **One step.** A task is carried out as demanded if the further tasks are, in the world in
which that is done. -/
theorem step {task : Task} (hp : L.Performs (L.inside w task) p) (htask : L.admits c w task) :
    L.holds c w task.scope? L.value fun i => Eval.step (session i) (p i) task := by
  cases task with
  | eval form frame => exact evalLimited hp htask.1 htask.2
  | apply callee args =>
      refine apply hp.evaluates htask.1 htask.2 ?_
      intro callee' leading last items heq _ hitems
      have hargs := keptAll_hold (c := c) htask.2
      have hcallee := hargs callee' (by simp [heq])
      refine hp.perform (.apply callee' (leading ++ items)) ⟨hcallee, values_append ?_ hitems⟩
      exact fun arg harg => htask.2 arg (by simp [heq, harg])
  | fill template level frame =>
      obtain ⟨htemplate, hframe⟩ := htask
      refine fill hp.evaluates htemplate hframe (fun inner level _ hinner c hframe => ?_) ?_
      · exact hp.perform (.fill inner level frame) ⟨hinner, hframe⟩
      · exact hp.perform (.fillRest [] template level frame)
          ⟨fun _ h => absurd h List.not_mem_nil, htemplate, hframe⟩
  | fillRest made rest level frame =>
      obtain ⟨hmade, hrest, hframe⟩ := htask
      refine fillRest hp.evaluates hmade hrest hframe (fun _ c hframe => ?_)
        (fun inner level _ hinner c hframe => ?_) fun w' hw made' rest' _ hmade' hrest' => ?_
      · exact hp.perform (.fill rest level frame) ⟨hrest, hframe⟩
      · exact hp.perform (.fill inner level frame) ⟨hinner, hframe⟩
      · exact (hp.leads hw).perform (.fillRest made' rest' level frame)
          ⟨hmade', hrest', L.scope_leads hw hframe⟩

/-- **Whole runs.** Runs are as demanded with any bound on nested steps if they are with no step
at all. -/
theorem run (hbase : ∀ c w task, L.admits c w task →
      L.holds c w task.scope? L.value fun i => Eval.run (session i) 0 task)
    (fuel : Nat) (c : L.Context) (w : L.World) (task : Task) (htask : L.admits c w task) :
    L.holds c w task.scope? L.value fun i => Eval.run (session i) fuel task := by
  induction fuel generalizing c w task with
  | zero => exact hbase c w task htask
  | succ fuel ih =>
      exact step (p := fun i => Eval.run (session i) fuel) (fun c w' _ task => ih c w' task) htask

/-! ### Forms of a text -/

section

variable {fuel : ι → Nat}

theorem evalIn (hp : L.Evaluates w fun i => Eval.run (session i) (fuel i)) {form : Value}
    (hform : L.value w form) (hframe : L.scope c w frame) :
    L.holds c w (some frame) (fun w' v => L.value w' v ∧ L.leads (L.hold [form] c) w w')
      fun i => (session i).evalIn (fuel i) form frame :=
  L.holding (values_singleton hform) (hp.eval hform (L.scope_hold [form] hframe))

theorem evalGlobal (hp : L.Evaluates w fun i => Eval.run (session i) (fuel i))
    {form : Value} (hform : L.value w form) :
    L.holds c w none (fun w' v => L.value w' v ∧ L.leads (L.hold [form] c) w w')
      fun i => (session i).evalGlobal (fuel i) form := by
  refine L.inGlobals ?_
  simp only [Session.evalGlobal, L.globals_eq]
  exact evalIn hp hform (L.scope_globals c w)

/-- **A text.** Its forms are made and then evaluated in order as demanded. -/
theorem evalForms (hp : L.Evaluates w fun i => Eval.run (session i) (fuel i))
    (data : List Datum) :
    L.holds c w none L.values fun i => (session i).evalForms (fuel i) data := by
  refine L.bind (L.ofData data) fun w' hw forms hforms => ?_
  refine imp (L.holding hforms (L.inGlobals ?_)) fun _ _ h => h.1
  simp only [L.globals_eq]
  exact evalEach (hp.leads hw) (L.scope_globals _ _) (keptAll_hold hforms)

/-- Refusing a text is in order. No form does so: of all that a session runs, only what begins with
a text needs this. -/
def Refuses (L : Logic session) : Prop :=
  ∀ (c : L.Context) (w : L.World) (cause : TextError),
    L.holds c w none L.values fun _ => EvalM.fail (.text cause)

theorem evalText (hrefuses : L.Refuses) (hp : L.Evaluates w fun i => Eval.run (session i) (fuel i))
    (text : String) : L.holds c w none L.values fun i => (session i).evalText (fuel i) text := by
  unfold Session.evalText
  split
  · exact hrefuses c w _
  · exact evalForms hp _

theorem evalTextLast (hrefuses : L.Refuses)
    (hp : L.Evaluates w fun i => Eval.run (session i) (fuel i)) (text : String) :
    L.holds c w none L.value fun i => (session i).evalTextLast (fuel i) text := by
  refine L.bind (evalText hrefuses hp text) fun w' _ values hvalues => L.pure ?_
  cases values with
  | nil => exact L.value_nil w'
  | cons first others =>
      rw [List.getLastD_cons, ← List.getLast_eq_getLastD (List.cons_ne_nil first others)]
      exact hvalues _ (List.getLast_mem _)

theorem load (hrefuses : L.Refuses) (hp : L.Evaluates w fun i => Eval.run (session i) (fuel i))
    (files : Files) (path : String) :
    L.holds c w none L.value fun i => (session i).load (fuel i) files path := by
  unfold Session.load
  split
  · exact L.fail _ rfl
  · exact evalTextLast hrefuses hp _

/-- The values among the outcomes of forms may occur, and the errors among them are as stated. -/
def outcomes (L : Logic session) (reported : Error → Prop) (w : L.World)
    (results : List (Except Error Value)) : Prop :=
  ∀ result ∈ results, (∀ value, result = .ok value → L.value w value) ∧
    ∀ cause, result = .error cause → reported cause

/-- Handing on an error instead of stopping is in order, and the errors are as stated. -/
def Attempts (L : Logic session) (reported : Error → Prop) : Prop :=
  ∀ {c : L.Context} {w : L.World} {post : L.World → Value → Prop} {f : ι → EvalM Value},
    L.holds c w none post f →
      L.holds c w none (fun w' result => (∀ v, result = .ok v → post w' v) ∧
          ∀ cause, result = .error cause → reported cause)
        fun i => EvalM.attempt (f i)

variable {reported : Error → Prop}

theorem outcomes_error {w : L.World} {cause : Error} (h : reported cause) :
    L.outcomes reported w [.error cause] := by
  intro result hresult
  rw [List.mem_singleton.1 hresult]
  exact ⟨nofun, fun _ heq => Except.error.inj heq ▸ h⟩

theorem attemptEach (hattempts : L.Attempts reported)
    (hp : L.Evaluates w fun i => Eval.run (session i) (fuel i)) {forms : List Value}
    (hforms : L.keptAll c w forms) :
    L.holds c w none (L.outcomes reported)
      fun i => (session i).attemptEach (fuel i) forms := by
  induction forms generalizing c w with
  | nil => exact L.pure fun _ hmem => absurd hmem List.not_mem_nil
  | cons form rest ih =>
      obtain ⟨hform, hrest⟩ := List.forall_mem_cons.1 hforms
      have heval := L.inGlobals (hp.eval (L.value_of_kept hform) (L.scope_globals c w))
      unfold Session.attemptEach
      simp only [L.globals_eq]
      refine L.bind (hattempts heval) fun w' hw result hresult => ?_
      cases result with
      | error cause => exact L.pure (outcomes_error (hresult.2 cause rfl))
      | ok value =>
          have hvalue := hresult.1 value rfl
          have hothers := ih (c := L.hold [value] c) (hp.leads hw)
            fun item hitem => L.kept_hold [value] (L.kept_leads hw (hrest item hitem))
          refine L.bind (L.holding (values_singleton hvalue) hothers)
            fun w'' _ others ⟨hothers, hw'⟩ => ?_
          refine L.pure (List.forall_mem_cons.2 ⟨⟨fun other heq => ?_, nofun⟩, hothers⟩)
          obtain rfl := Except.ok.inj heq
          exact value_held hw' List.mem_cons_self hvalue

theorem evalUntilError (hattempts : L.Attempts reported)
    (hp : L.Evaluates w fun i => Eval.run (session i) (fuel i)) (data : List Datum) :
    L.holds c w none (L.outcomes reported)
      fun i => (session i).evalUntilError (fuel i) data := by
  refine L.bind (L.ofData data) fun w' hw forms hforms => ?_
  exact imp (L.holding hforms (attemptEach hattempts (hp.leads hw) (keptAll_hold hforms)))
    fun _ _ h => h.1

theorem evalLine (hattempts : L.Attempts reported) (htext : ∀ cause, reported (.text cause))
    (hp : L.Evaluates w fun i => Eval.run (session i) (fuel i)) (line : String) :
    L.holds c w none (L.outcomes reported) fun i => (session i).evalLine (fuel i) line := by
  unfold Session.evalLine
  split
  · exact L.pure (outcomes_error (htext _))
  · exact evalUntilError hattempts hp _

theorem applyTo (hp : L.Performs w fun i => Eval.run (session i) (fuel i)) {callee : Value}
    {args : List Value} (hcallee : L.value w callee) (hargs : L.values w args) :
    L.holds c w none L.value fun i => (session i).apply (fuel i) callee args := by
  have hkept : L.kept (L.hold [callee] c) w callee := L.kept_held List.mem_cons_self hcallee
  exact imp (L.holding (values_singleton hcallee)
    (hp.perform (.apply callee args) ⟨hkept, hargs⟩)) fun _ _ h => h.1

theorem expandForm (hp : L.Evaluates w fun i => Eval.run (session i) (fuel i)) {form : Value}
    (hform : L.value w form) :
    L.holds c w none L.value fun i => (session i).expandOnce (fuel i) form :=
  imp (L.holding (values_singleton hform) (expandOnce hp hform)) fun _ _ h => h.1

end

end Logic

/-! ### Judgements that know nothing of values -/

/-- A judgement on families of evaluations in which any value may occur anywhere. -/
structure PlainLogic {ι : Type} (session : ι → Session) where
  /-- What may be known of a machine. -/
  World : Type
  /-- The world one level deeper. -/
  deeper : World → World
  globals : FrameRef
  natives : Table Native
  /-- The judgement: in this world, while this frame may be written to, the evaluations are as
  demanded, and what they result in is as stated. -/
  holds {α : Type} : World → Option FrameRef → (α → Prop) → (ι → EvalM α) → Prop
  globals_eq (i : ι) : (session i).globals = globals
  natives_eq (i : ι) : (session i).natives = natives
  pure {α : Type} {w : World} {E : Option FrameRef} {post : α → Prop} {a : α} :
    post a → holds w E post fun _ => pure a
  bind {α β : Type} {w : World} {E : Option FrameRef} {mid : α → Prop} {post : β → Prop}
      {f : ι → EvalM α} {k : ι → α → EvalM β} :
    holds w E mid f → (∀ a, mid a → holds w E post fun i => k i a) →
      holds w E post fun i => f i >>= k i
  fail {α : Type} {w : World} {E : Option FrameRef} {post : α → Prop} (e : Error) :
    e.isText = false → holds w E post fun _ => fail e
  holding {α : Type} {w : World} {E : Option FrameRef} {post : α → Prop} {f : ι → EvalM α}
      (values : List Value) : holds w E post f → holds w E post fun i => holding values (f i)
  limited {w : World} {E : Option FrameRef} {f : ι → EvalM Value} :
    holds (deeper w) E (fun _ => True) f →
      holds w E (fun _ => True) fun i => limited (session i).maxDepth (f i)
  anywhere {α : Type} {w : World} {frame : FrameRef} {post : α → Prop} {f : ι → EvalM α} :
    holds w none post f → holds w (some frame) post f
  inGlobals {α : Type} {w : World} {post : α → Prop} {f : ι → EvalM α} :
    holds w (some globals) post f → holds w none post f
  inspect {α : Type} {w : World} {E : Option FrameRef} {post : α → Prop} {view : Store → α} :
    (∀ store, post (view store)) → holds w E post fun _ => inspect view
  listWithTail {w : World} {E : Option FrameRef} (items : List Value) (tail : Value) :
    holds w E (fun _ => True) fun i => update (·.listWithTail (session i).arena items tail)
  ofData {w : World} {E : Option FrameRef} (data : List Datum) :
    holds w E (fun _ => True) fun i => update (·.ofData (session i).arena data)
  addLambda {w : World} {E : Option FrameRef} (lambda : Lambda) :
    holds w E (fun _ => True) fun i => update (·.addLambda (session i).arena lambda)
  define {w : World} (frame : FrameRef) (name : Symbol) (v : Value) :
    holds w (some frame) (fun _ => True)
      fun _ => update fun store => ((), store.bind frame name v)
  modifyCell {w : World} {E : Option FrameRef} (ref : CellRef) (change : Cell → Cell) :
    holds w E (fun _ => True) fun _ => update fun store => ((), store.modifyCell ref change)
  host {w : World} {name : Symbol} {function : HostFunction} (args : List Value) :
    natives.lookup name = some (.host function) →
    holds w none (fun _ => True) fun _ => applyHost function args
  invoke {w : World} {p : ι → Task → EvalM Value} (ref : LambdaRef) (anonymous : String)
      (args : List Value) :
    (∀ body frame, holds w (some frame) (fun _ => True) fun i => evalBody (p i) body frame) →
    holds w none (fun _ => True) fun i => invoke (session i) (p i) ref anonymous args

namespace PlainLogic

variable {ι : Type} {session : ι → Session} (L : PlainLogic session)

/-- A judgement that knows nothing of values as a logic. -/
def toLogic : Logic session where
  World := L.World
  Context := Unit
  hold := fun _ c => c
  leads := fun _ => Eq
  later := Eq
  deeper := L.deeper
  value := fun _ _ => True
  kept := fun _ _ _ => True
  scope := fun _ _ _ => True
  part := fun _ _ => True
  spreads := fun _ _ => True
  globals := L.globals
  natives := L.natives
  holds := fun _ w E post f => L.holds w E (post w) f
  globals_eq := L.globals_eq
  natives_eq := L.natives_eq
  later_refl := fun _ => rfl
  later_trans := Eq.trans
  later_of_leads := id
  leads_refl := fun _ _ => rfl
  leads_trans := Eq.trans
  part_trans := fun _ _ => trivial
  value_of_kept := fun _ => trivial
  kept_leads := fun _ _ => trivial
  kept_held := fun _ _ => trivial
  kept_hold := fun _ _ => trivial
  scope_leads := fun _ _ => trivial
  scope_hold := fun _ _ => trivial
  scope_deeper := fun _ => trivial
  scope_globals := fun _ _ => trivial
  value_deeper := fun _ => trivial
  value_nil := fun _ => trivial
  value_t := fun _ => trivial
  value_integer := fun _ _ => trivial
  value_symbol := fun _ _ => trivial
  pure := L.pure
  bind := fun h hk => L.bind h fun a ha => hk _ rfl a ha
  fail := fun e h => L.fail e (Error.isText_of_isOrdinary h)
  holding := fun {_ _ _ _ _ _ values} _ h => by simpa only [and_true] using L.holding values h
  limited := L.limited
  anywhere := L.anywhere
  inGlobals := L.inGlobals
  car := fun _ => L.inspect fun _ => ⟨rfl, trivial, trivial⟩
  cdr := fun _ => L.inspect fun _ => ⟨rfl, trivial, trivial⟩
  elements := fun _ => L.inspect fun _ => ⟨rfl, fun _ _ => ⟨fun _ _ => trivial, trivial⟩⟩
  marked := fun _ _ => L.inspect fun _ => ⟨rfl, fun _ _ => ⟨trivial, trivial⟩⟩
  isMarked := fun _ => L.inspect fun _ => rfl
  printed := fun _ => L.inspect fun _ => rfl
  params := fun _ => L.inspect fun _ => rfl
  lookup := fun _ _ => L.inspect fun _ => ⟨rfl, fun _ _ => trivial⟩
  listWithTail := fun _ _ => L.listWithTail _ _
  ofData := fun data => by simpa using L.ofData data
  addLambda := by
    intro c w E name params body frame _ _
    simpa only [and_self] using L.addLambda ⟨name, params, body, frame⟩
  define := fun name _ _ => L.define _ name _
  setCar := fun _ _ _ => L.modifyCell _ _
  setCdr := fun _ _ _ => L.modifyCell _ _
  missing := fun _ _ => L.fail _ rfl
  host := fun hname _ => L.host _ hname
  invoke := fun anonymous _ _ hbody => L.invoke _ anonymous _ fun body frame =>
    hbody () _ rfl body frame (fun _ _ => trivial) trivial

theorem admits_toLogic (w : L.World) (task : Task) : L.toLogic.admits () w task := by
  cases task <;> simp [Logic.admits, Logic.values, toLogic]

/-- An element of a template is filled in as demanded if all further tasks are carried out so. -/
theorem fillElement {p : ι → Task → EvalM Value} {w : L.World}
    (hp : ∀ task, L.holds w task.scope? (fun _ => True) fun i => p i task) (element : Value)
    (level : Nat) (scope : FrameRef) :
    L.holds w (some scope) (fun _ => True)
      fun i => Eval.fillElement (session i) (p i) element level scope :=
  Logic.imp (L := L.toLogic) (c := ())
    (Logic.fillElement (L := L.toLogic) (fun _ _ hw form frame _ _ => hw ▸ hp (.eval form frame))
      level trivial trivial fun inner level' _ _ _ _ => hp (.fill inner level' scope))
    fun _ _ _ => trivial

/-- **One step.** A task is carried out as demanded if all further tasks are. -/
theorem step {p : ι → Task → EvalM Value} {w : L.World} {task : Task}
    (hp : ∀ task', L.holds (L.toLogic.inside w task) task'.scope? (fun _ => True)
      fun i => p i task') :
    L.holds w task.scope? (fun _ => True) fun i => Eval.step (session i) (p i) task :=
  Logic.step (L := L.toLogic) (c := ()) (fun _ _ hw task' _ => hw ▸ hp task')
    (L.admits_toLogic w task)

/-- **Whole runs.** Runs are as demanded with any bound on nested steps if they are with no step
at all. -/
theorem run (hbase : ∀ w task,
      L.holds w task.scope? (fun _ => True) fun i => Eval.run (session i) 0 task)
    (fuel : Nat) (w : L.World) (task : Task) :
    L.holds w task.scope? (fun _ => True) fun i => Eval.run (session i) fuel task :=
  Logic.run (L := L.toLogic) (fun _ w' task' _ => hbase w' task') fuel () w task
    (L.admits_toLogic w task)

end PlainLogic

end Eval

end SmallLisp
