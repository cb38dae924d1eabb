import SmallLisp.Proofs.Layered
import SmallLisp.Proofs.Mutation

/-!
# Termination

Evaluation is bounded by the limit on nested evaluations, but not everything that evaluation does
counts towards it: filling in a template goes from a list to its parts, and the primitive `apply`
hands on to another function what it finds in a list. Without mutation both come to an end. Parts
are older than the whole, and the elements of a list weigh less than the list.

So a run has an outcome once the bound on nested steps is large enough, by induction on what is
left of the limit, and for each level by induction on the height of templates and the weight of
arguments.

## Main results

* `layeredLogic` — the logic of evaluations that keep a store layered and, if so demanded, end.
* `evaluates` — every evaluation without mutation ends.
* `nested_layered` — the store is layered at every call inside of it.
-/

namespace SmallLisp

/-- No native function of the session mutates, and those of the host refuse. -/
structure Session.Harmless (session : Session) : Prop where
  not_isMutator {name : Symbol} {native : Native} :
    session.natives.lookup name = some native → ¬native.IsMutator
  refusing {name : Symbol} {function : HostFunction} :
    session.natives.lookup name = some (.host function) → function = .refusing

namespace Eval

open EvalM

/-- What is known of a machine: its store is layered. -/
structure Situation (start : Store) (here : Nat) extends Layered start here where
  depth : Nat

section

variable {start : Store} {here : Nat} {α β : Type}

/-- Pairs may have been added, at the same depth. -/
def Situation.Later (w w' : Situation start here) : Prop :=
  w.Grows w'.toLayered ∧ w'.depth = w.depth

/-- A machine in this situation. -/
def Situation.machine (w : Situation start here) (census : Option Census) : Machine :=
  ⟨w.store, census, w.depth⟩

/-- The evaluation leads to a situation, and to one in which its result is as stated. -/
def Keeps (w : Situation start here) (post : Situation start here → α → Prop)
    (evaluation : EvalM α) : Prop :=
  ∀ held census, ∃ w' census', w.Later w' ∧
    (evaluation.outcome held (w.machine census)).2 = w'.machine census' ∧
      ∀ a, (evaluation.outcome held (w.machine census)).1 = .ok a → post w' a

/-- With all sufficiently large bounds on nested steps the evaluation has the same outcome, and
one that is not for want of steps. -/
def Ends (w : Situation start here) (evaluation : Nat → EvalM α) : Prop :=
  ∀ held census, ∃ bound result after, result ≠ .error .exhausted ∧
    ∀ fuel, bound ≤ fuel → (evaluation fuel).outcome held (w.machine census) = (result, after)

/-- The evaluations lead to situations as stated, and end if that is demanded. -/
structure Behaves (total : Prop) (w : Situation start here)
    (post : Situation start here → α → Prop) (evaluation : Nat → EvalM α) : Prop where
  keeps (fuel : Nat) : Keeps w post (evaluation fuel)
  ends : total → Ends w evaluation

theorem Situation.Later.refl (w : Situation start here) : w.Later w :=
  ⟨Nat.le_refl _, rfl⟩

theorem Situation.Later.trans {w₁ w₂ w₃ : Situation start here} (h : w₁.Later w₂)
    (h' : w₂.Later w₃) : w₁.Later w₃ :=
  ⟨Nat.le_trans h.1 h'.1, h'.2.trans h.2⟩

variable {total : Prop} {w : Situation start here} {post : Situation start here → α → Prop}

/-! ### What behaves -/

/-- An evaluation that does not depend on the bound behaves if it keeps the store layered. -/
theorem Behaves.const {f : EvalM α} (hkeeps : Keeps w post f)
    (hends : ∀ held machine, (f.outcome held machine).1 ≠ .error .exhausted) :
    Behaves total w post fun _ => f where
  keeps := fun _ => hkeeps
  ends := fun _ held census => ⟨0, _, _, hends held (w.machine census), fun _ _ => rfl⟩

theorem Behaves.pure {a : α} (h : post w a) : Behaves total w post fun _ => pure a :=
  .const (fun _ census => ⟨w, census, .refl w, rfl, fun _ heq => Except.ok.inj heq ▸ h⟩)
    fun _ _ => nofun

theorem Behaves.fail (e : Error) : Behaves total w post fun _ => EvalM.fail e :=
  .const (fun _ census => ⟨w, census, .refl w, rfl, fun _ heq => nomatch heq⟩) fun _ _ => nofun

theorem Behaves.inspect {view : Store → α} (h : post w (view w.store)) :
    Behaves total w post fun _ => EvalM.inspect view :=
  .const (fun _ census => ⟨w, census, .refl w, rfl, fun _ heq => Except.ok.inj heq ▸ h⟩)
    fun _ _ => nofun

/-- A change of the store that keeps it layered behaves. -/
theorem Behaves.update {change : Store → α × Store} {P : Layered start here → α → Prop}
    (h : w.Yields P (change w.store)) (hpost : ∀ w' a, P w'.toLayered a → post w' a) :
    Behaves total w post fun _ => EvalM.update change := by
  obtain ⟨layers, hgrows, hstore, hresult⟩ := h
  refine .const (fun _ census => ⟨⟨layers, w.depth⟩, census, ⟨hgrows, rfl⟩, ?_, ?_⟩)
    fun _ _ => nofun
  · rw [outcome_update, Situation.machine, Situation.machine, hstore]
  · exact fun _ heq => Except.ok.inj heq ▸ hpost ⟨layers, w.depth⟩ _ hresult

theorem Behaves.holding {f : Nat → EvalM α} (values : List Value) (h : Behaves total w post f) :
    Behaves total w (fun w' a => post w' a ∧ w.Later w')
      fun fuel => EvalM.holding values (f fuel) where
  keeps fuel held census := by
    obtain ⟨w', census', hw', hafter, hresult⟩ := h.keeps fuel (.values values :: held) census
    exact ⟨w', census', hw', hafter, fun a ha => ⟨hresult a ha, hw'⟩⟩
  ends := fun htotal held => h.ends htotal (.values values :: held)

theorem Keeps.bind {P : Situation start here → α → Prop}
    {post : Situation start here → β → Prop} {f : EvalM α} {k : α → EvalM β} (h : Keeps w P f)
    (hk : ∀ w', w.Later w' → ∀ a, P w' a → Keeps w' post (k a)) : Keeps w post (f >>= k) := by
  intro held census
  obtain ⟨w₁, census₁, hw₁, hafter, hresult⟩ := h held census
  rcases hout : f.outcome held (w.machine census) with ⟨halt | a, after⟩
  · rw [hout] at hafter
    rw [outcome_bind_error hout]
    exact ⟨w₁, census₁, hw₁, hafter, fun _ heq => nomatch heq⟩
  · rw [hout] at hafter hresult
    rw [outcome_bind_ok hout, show after = w₁.machine census₁ from hafter]
    obtain ⟨w₂, census₂, hw₂, hnext⟩ := hk w₁ hw₁ a (hresult a rfl) held census₁
    exact ⟨w₂, census₂, hw₁.trans hw₂, hnext⟩

theorem Behaves.bind {P : Situation start here → α → Prop}
    {post : Situation start here → β → Prop} {f : Nat → EvalM α} {k : Nat → α → EvalM β}
    (h : Behaves total w P f)
    (hk : ∀ w', w.Later w' → ∀ a, P w' a → Behaves total w' post fun fuel => k fuel a) :
    Behaves total w post fun fuel => f fuel >>= k fuel where
  keeps := fun fuel => (h.keeps fuel).bind fun w' hw' a ha => (hk w' hw' a ha).keeps fuel
  ends htotal held census := by
    obtain ⟨bound, result, after, hresult, hout⟩ := h.ends htotal held census
    cases result with
    | error halt =>
        refine ⟨bound, .error halt, after, fun heq => hresult ?_, fun fuel hfuel =>
          outcome_bind_error (hout fuel hfuel) _⟩
        rw [Except.error.inj heq]
    | ok a =>
        -- the situation behind the first part is the one that it leads to at its own bound
        obtain ⟨w', census', hw', hafter, ha⟩ := h.keeps bound held census
        rw [hout bound (Nat.le_refl bound)] at hafter ha
        obtain ⟨bound', result, after', hresult, hout'⟩ :=
          (hk w' hw' a (ha a rfl)).ends htotal held census'
        refine ⟨max bound bound', result, after', hresult, fun fuel hfuel => ?_⟩
        rw [outcome_bind_ok (hout fuel (by omega)), show after = w'.machine census' from hafter]
        exact hout' fuel (by omega)

/-- The value is there. -/
def Situation.value (w : Situation start here) (v : Value) : Prop :=
  w.Holds v

/-- The situation one level deeper. -/
def Situation.deeper (w : Situation start here) : Situation start here :=
  { w with depth := w.depth + 1 }

/-- At the limit an evaluation ends at once, whatever is below. -/
theorem Behaves.limited_of_le {limit : Nat} {f : Nat → EvalM α} (hlimit : limit ≤ w.depth) :
    Behaves total w post fun fuel => EvalM.limited limit (f fuel) := by
  have hout : ∀ fuel held census, (EvalM.limited limit (f fuel)).outcome held (w.machine census) =
      (.error (.error (.recursionLimit limit)), w.machine census) := by
    intro fuel held census
    rw [outcome_limited]
    exact if_pos hlimit
  refine ⟨fun fuel held census => ⟨w, census, .refl w, ?_⟩, fun _ held census =>
    ⟨0, _, _, ?_, fun fuel _ => hout fuel held census⟩⟩
  · rw [hout]
    exact ⟨rfl, fun _ heq => nomatch heq⟩
  · exact nofun

theorem Behaves.limited {limit : Nat} {f : Nat → EvalM Value}
    (h : Behaves total w.deeper Situation.value f) :
    Behaves total w Situation.value fun fuel => EvalM.limited limit (f fuel) := by
  by_cases hlimit : limit ≤ w.depth
  · exact .limited_of_le hlimit
  · have hout : ∀ fuel held census,
        (EvalM.limited limit (f fuel)).outcome held (w.machine census) =
          (((f fuel).outcome held (w.deeper.machine census)).1,
            { ((f fuel).outcome held (w.deeper.machine census)).2 with
              depth := ((f fuel).outcome held (w.deeper.machine census)).2.depth - 1 }) := by
      intro fuel held census
      rw [outcome_limited]
      exact (if_neg hlimit).trans (outcome_deeper _ _ _)
    constructor
    · intro fuel held census
      obtain ⟨w', census', hw', hafter, hresult⟩ := h.keeps fuel held census
      refine ⟨{ w' with depth := w.depth }, census', ⟨hw'.1, rfl⟩, ?_, ?_⟩
      · rw [hout, hafter]
        have hdepth : w'.depth - 1 = w.depth := congrArg (· - 1) hw'.2
        simp only [Situation.machine, hdepth]
      · rw [hout]
        exact hresult
    · intro htotal held census
      obtain ⟨bound, result, after, hresult, hends⟩ := h.ends htotal held census
      refine ⟨bound, result, { after with depth := after.depth - 1 }, hresult, fun fuel hfuel => ?_⟩
      rw [hout, hends fuel hfuel]

theorem Situation.leave (w : Situation start here) (census : Option Census) (held : List Hold)
    {frame : FrameRef} (hframe : frame.arena = here) :
    ∃ w' census', w.Later w' ∧ (w.machine census).leave held frame = w'.machine census' := by
  have hdepth : ((w.machine census).leave held frame).depth = w.depth := Machine.depth_leave _ _ _
  have hstore := Machine.store_leave (w.machine census) held frame
  generalize (w.machine census).leave held frame = left at hdepth hstore
  obtain ⟨store, census', depth⟩ := left
  obtain rfl : depth = w.depth := hdepth
  rcases hstore with hsame | hclear
  · obtain rfl : store = w.store := hsame
    exact ⟨w, census', .refl w, rfl⟩
  · obtain ⟨layers, hgrows, hlayers⟩ := w.clear hframe
    obtain rfl : store = layers.store := hclear.trans hlayers.symm
    exact ⟨⟨layers, w.depth⟩, census', ⟨hgrows, rfl⟩, rfl⟩

theorem Behaves.within {f : Nat → EvalM Value} {frame : FrameRef} (hframe : frame.arena = here)
    (h : Behaves total w Situation.value f) :
    Behaves total w Situation.value fun fuel => EvalM.within frame (f fuel) where
  keeps fuel held census := by
    obtain ⟨w', census', hw', hafter, hresult⟩ := h.keeps fuel (.frames [frame] :: held) census
    rw [outcome_within]
    rcases hout : (f fuel).outcome (.frames [frame] :: held) (w.machine census) with
      ⟨result, after⟩
    rw [hout] at hafter hresult
    obtain rfl : after = w'.machine census' := hafter
    obtain ⟨w'', census'', hw'', hleave⟩ :=
      w'.leave census' (resultHold result :: held) hframe
    exact ⟨w'', census'', hw'.trans hw'', hleave, fun a ha => (hresult a ha).grows hw''.1⟩
  ends htotal held census := by
    obtain ⟨bound, result, after, hresult, hends⟩ :=
      h.ends htotal (.frames [frame] :: held) census
    refine ⟨bound, result, after.leave (resultHold result :: held) frame, hresult,
      fun fuel hfuel => ?_⟩
    rw [outcome_within, hends fuel hfuel]

/-- Handing on an error does not keep an evaluation from ending. -/
theorem Behaves.attempt {f : Nat → EvalM α} (h : Behaves total w post f) :
    Behaves total w (fun w' result => ∀ a, result = .ok a → post w' a)
      fun fuel => EvalM.attempt (f fuel) where
  keeps fuel held census := by
    obtain ⟨w', census', hw', hafter, hresult⟩ := h.keeps fuel held census
    refine ⟨w', census', hw', ?_⟩
    rw [outcome_attempt]
    rcases hout : (f fuel).outcome held (w.machine census) with ⟨(_ | _) | a, after⟩
    · rw [hout] at hafter
      exact ⟨hafter, fun _ heq _ hok => nomatch (Except.ok.inj heq).trans hok⟩
    · rw [hout] at hafter
      exact ⟨hafter, fun _ heq => nomatch heq⟩
    · rw [hout] at hafter hresult
      refine ⟨hafter, fun _ heq b hok => hresult b (congrArg Except.ok ?_)⟩
      exact Except.ok.inj ((Except.ok.inj heq).trans hok)
  ends htotal held census := by
    obtain ⟨bound, result, after, hresult, hends⟩ := h.ends htotal held census
    match result, hresult with
    | .ok a, _ =>
        refine ⟨bound, .ok (.ok a), after, nofun, fun fuel hfuel => ?_⟩
        rw [outcome_attempt, hends fuel hfuel]
    | .error (.error cause), _ =>
        refine ⟨bound, .ok (.error cause), after, nofun, fun fuel hfuel => ?_⟩
        rw [outcome_attempt, hends fuel hfuel]
    | .error .exhausted, hresult => exact absurd rfl hresult

/-- A call of a lambda behaves if its body does. -/
theorem Behaves.invoke {session : Session} {w : Situation start session.arena}
    {p : Nat → Task → EvalM Value} {ref : LambdaRef} {args : List Value} (anonymous : String)
    (href : ref.arena = session.arena) (hargs : ∀ arg ∈ args, w.value arg)
    (hbody : ∀ w', w.Later w' → ∀ body frame, (∀ form ∈ body, w'.value form) →
      frame.arena = session.arena →
      Behaves total w' Situation.value fun fuel => evalBody (p fuel) body frame) :
    Behaves total w Situation.value fun fuel =>
      Eval.invoke session (p fuel) ref anonymous args := by
  unfold Eval.invoke
  refine .bind (P := fun w' lambda => lambda.scope.arena = session.arena ∧
    ∀ form ∈ lambda.body, w'.value form) (.inspect (w.lambda_here href))
    fun w₁ hw₁ lambda hlambda => ?_
  refine .bind (P := fun _ frame => frame.arena = session.arena)
    (.update (w₁.extend hlambda.1) fun _ _ h => h) fun w₂ hw₂ frame hframe => ?_
  split
  · exact .fail _
  · have hw := hw₁.trans hw₂
    obtain ⟨layers, hgrows, hstore⟩ := Layered.bindArgs hframe lambda.params
      fun arg harg => (hargs arg harg).grows hw.1
    have hbound : w₂.Yields (fun _ _ => True)
        ((), w₂.store.bindArgs session.arena lambda.params frame args) :=
      ⟨layers, hgrows, hstore, trivial⟩
    refine .bind (P := fun _ _ => True) (.update hbound fun _ _ h => h) fun w₃ hw₃ _ _ => ?_
    refine .within hframe (hbody w₃ (hw.trans hw₃) lambda.body frame (fun form hform => ?_) hframe)
    exact (hlambda.2 form hform).grows (hw₂.trans hw₃).1

end

section

variable (start : Store) {session : Session}

/-- The logic of evaluations that keep the store of a session layered and, if so demanded,
end. -/
def layeredLogic (hsession : session.Harmless) (total : Prop) : Logic fun _ : Nat => session where
  World := Situation start session.arena
  Context := Unit
  hold := fun _ c => c
  leads := fun _ => Situation.Later
  later := Situation.Later
  deeper := Situation.deeper
  value := Situation.value
  kept := fun _ => Situation.value
  scope := fun _ _ frame => frame.arena = session.arena
  part := fun whole part => part.rank < whole.rank
  spreads := fun list items => weight items < list.weight
  globals := session.globals
  natives := session.natives
  holds := fun _ w _ post f => Behaves total w post f
  globals_eq := fun _ => rfl
  natives_eq := fun _ => rfl
  later_refl := .refl
  later_trans := .trans
  later_of_leads := id
  leads_refl := fun _ => .refl
  leads_trans := .trans
  part_trans := fun h h' => Nat.lt_trans h' h
  value_of_kept := id
  kept_leads := fun hw h => h.grows hw.1
  kept_held := fun _ h => h
  kept_hold := fun _ h => h
  scope_leads := fun _ h => h
  scope_hold := fun _ h => h
  value_deeper := fun h => h
  scope_deeper := fun h => h
  scope_globals := fun _ _ => rfl
  value_nil := fun _ => trivial
  value_t := fun _ => trivial
  value_integer := fun _ _ => trivial
  value_symbol := fun _ _ => trivial
  pure := .pure
  bind := .bind
  fail := fun e _ => .fail e
  holding := fun _ h => .holding _ h
  limited := .limited
  anywhere := id
  inGlobals := id
  car := fun h => .inspect ⟨rfl, h.parts.1⟩
  cdr := fun h => .inspect ⟨rfl, h.parts.2⟩
  elements := fun h => .inspect ⟨rfl, fun _ hitems => h.elements hitems⟩
  marked := fun _ h => .inspect ⟨rfl, fun _ hinner => h.marked? hinner⟩
  isMarked := fun _ => .inspect rfl
  printed := fun _ => .inspect rfl
  params := fun _ => .inspect rfl
  lookup := fun name h => .inspect ⟨rfl, fun _ hvalue => Layered.holds_of_lookup _ h hvalue⟩
  listWithTail := fun hitems htail =>
    .update (Layered.listWithTail hitems htail) fun _ _ h => h
  ofData := fun data => .update (Layered.ofData _ data) fun _ _ h => h
  addLambda := by
    intro _ w _ name params body frame hbody hframe
    exact .update (Layered.addLambda name params hbody hframe) fun _ _ h => h
  define := by
    intro _ w frame v name hframe hv
    obtain ⟨layers, hgrows, hstore⟩ := Layered.bind hframe name hv
    exact .update (P := fun _ _ => True) ⟨layers, hgrows, hstore, trivial⟩ fun _ _ h => h
  setCar := fun hname => absurd (.inl rfl) (hsession.not_isMutator hname)
  setCdr := fun hname => absurd (.inr rfl) (hsession.not_isMutator hname)
  missing := fun _ _ => .fail _
  host := by
    intro _ w name function args hname _
    rw [hsession.refusing hname]
    exact .fail _
  invoke := by
    intro _ w p ref args anonymous href hargs hbody
    exact .invoke anonymous (href.elim id id) hargs (hbody ())

variable {start} (hsession : session.Harmless) {w : Situation start session.arena}
  {frame : FrameRef}

/-- Every run keeps the store layered. -/
theorem run_keeps (fuel : Nat) {task : Task}
    (htask : (layeredLogic start hsession False).admits () w task) :
    Keeps w Situation.value (run session fuel task) := by
  have hbase : ∀ c w task, (layeredLogic start hsession False).admits c w task →
      (layeredLogic start hsession False).holds c w task.scope?
        (layeredLogic start hsession False).value fun _ => run session 0 task :=
    fun _ w _ _ => ⟨fun _ _ census => ⟨w, census, .refl w, rfl, fun _ heq => nomatch heq⟩, nofun⟩
  exact (Logic.run hbase fuel () w task htask).keeps 0

/-- A run ends if its first step does. -/
theorem behaves_run {task : Task} (htask : (layeredLogic start hsession True).admits () w task)
    (h : Behaves True w Situation.value fun fuel => step session (run session fuel) task) :
    Behaves True w Situation.value fun fuel => run session fuel task where
  keeps := fun fuel => run_keeps hsession fuel (by cases task <;> exact htask)
  ends htotal held census := by
    obtain ⟨bound, result, after, hresult, hout⟩ := h.ends htotal held census
    refine ⟨bound + 1, result, after, hresult, fun fuel hfuel => ?_⟩
    obtain ⟨fuel, rfl⟩ : ∃ steps, fuel = steps + 1 := ⟨fuel - 1, by omega⟩
    exact hout fuel (by omega)

/-- **Applying a function ends if evaluating forms does**: what `apply` hands on weighs less than
what it is given. -/
theorem apply_ends {callee : Value} {args : List Value}
    (heval : (layeredLogic start hsession True).Evaluates w fun fuel => run session fuel)
    (hcallee : w.value callee) (hargs : ∀ arg ∈ args, w.value arg) :
    Behaves True w Situation.value fun fuel => run session fuel (.apply callee args) := by
  induction hweight : weight args using Nat.strongRecOn generalizing w callee args with
  | ind n ih =>
      refine behaves_run hsession ⟨hcallee, hargs⟩ (Logic.apply (c := ()) heval hcallee hargs ?_)
      rintro callee' leading last items rfl hspread hitems
      obtain ⟨hcallee', hrest⟩ := List.forall_mem_cons.1 hargs
      have hless : weight (leading ++ items) < n := by
        have hlast : weight [last] = last.weight := rfl
        have hspread : weight items < last.weight := hspread
        have hpos := callee'.weight_pos
        rw [← hweight, weight_cons, weight_append, weight_append, hlast]
        omega
      refine ih _ hless heval hcallee' (fun arg harg => ?_) rfl
      rcases List.mem_append.1 harg with hleading | hitem
      · exact hrest arg (List.mem_append_left _ hleading)
      · exact hitems arg hitem

/-- **Filling in a template ends if evaluating forms does**: the parts of a template are older
than the template. Of the tasks for one template, the list from its first element comes first,
then the template as a whole, and then the template as the remainder of a list. -/
theorem fill_ends {template : Value}
    (heval : (layeredLogic start hsession True).Evaluates w fun fuel => run session fuel)
    (htemplate : w.value template) (hframe : frame.arena = session.arena) :
    (∀ level, Behaves True w Situation.value
      fun fuel => run session fuel (.fill template level frame)) ∧
    ∀ made level, (∀ item ∈ made, w.value item) → Behaves True w Situation.value
      fun fuel => run session fuel (.fillRest made template level frame) := by
  induction hrank : template.rank using Nat.strongRecOn generalizing w template with
  | ind n ih =>
      have hpart : ∀ w', w.Later w' → ∀ inner, inner.rank < template.rank → w'.value inner → _ :=
        fun w' hw' inner hless hinner => ih inner.rank (hrank ▸ hless) (heval.later hw') hinner rfl
      have hparts : ∀ inner level, inner.rank < template.rank → w.value inner →
          (layeredLogic start hsession True).Fills w (fun fuel => run session fuel) frame inner
            level :=
        fun inner level hless hinner _ _ => (hpart w (.refl w) inner hless hinner).1 level
      have hnil : ∀ level, Behaves True w Situation.value
          fun fuel => run session fuel (.fillRest [] template level frame) := by
        intro level
        refine behaves_run hsession ⟨nofun, htemplate, hframe⟩
          (Logic.fillRest (c := ()) heval nofun htemplate hframe (fun hne => absurd rfl hne)
            hparts ?_)
        exact fun w' hw' made' rest' hless hmade' hrest' =>
          (hpart w' hw' rest' hless hrest').2 made' level hmade'
      have hfill : ∀ level, Behaves True w Situation.value
          fun fuel => run session fuel (.fill template level frame) := fun level =>
        behaves_run hsession ⟨htemplate, hframe⟩
          (Logic.fill (c := ()) heval htemplate hframe hparts (hnil level))
      refine ⟨hfill, fun made level hmade => ?_⟩
      refine behaves_run hsession ⟨hmade, htemplate, hframe⟩
        (Logic.fillRest (c := ()) heval hmade htemplate hframe (fun _ _ _ => hfill level)
          hparts ?_)
      exact fun w' hw' made' rest' hless hmade' hrest' =>
        (hpart w' hw' rest' hless hrest').2 made' level hmade'

theorem performs_of_evaluates
    (heval : (layeredLogic start hsession True).Evaluates w fun fuel => run session fuel) :
    (layeredLogic start hsession True).Performs w fun fuel => run session fuel := by
  intro _ w' hw' task htask
  have heval := heval.later hw'
  cases task with
  | eval form frame => exact heval.eval htask.1 htask.2
  | apply callee args => exact apply_ends hsession heval htask.1 htask.2
  | fill template level frame => exact (fill_ends hsession heval htask.1 htask.2).1 level
  | fillRest made rest level frame =>
      exact (fill_ends hsession heval htask.2.1 htask.2.2).2 made level htask.1

/-- **Evaluating forms ends**, by induction on what is left of the limit. -/
theorem evaluates (w : Situation start session.arena) :
    (layeredLogic start hsession True).Evaluates w fun fuel => run session fuel := by
  induction hbudget : session.maxDepth - w.depth generalizing w with
  | zero =>
      intro _ w' hw' form frame hform hframe
      refine behaves_run hsession ⟨hform, hframe⟩ (.limited_of_le ?_)
      have hdepth := hw'.2
      omega
  | succ budget ih =>
      intro _ w' hw' form frame hform hframe
      have hdeep := ih w'.deeper (by
        have hdepth := hw'.2
        show session.maxDepth - (w'.depth + 1) = budget
        omega)
      exact behaves_run hsession ⟨hform, hframe⟩
        (Logic.evalLimited (c := ()) (performs_of_evaluates hsession hdeep) hform hframe)

/-! ### Inside of a run -/

/-- A call that a step asks for is made in a situation, and one in which its task makes sense.
Otherwise any answer to it would do, also one that does not keep the store layered. -/
theorem asked_in_situation {fuel : Nat} {call middle : Call} {census : Option Census}
    (hmachine : call.machine = w.machine census)
    (htask : (layeredLogic start hsession False).admits () w call.task)
    (hasks : Asks session (run session fuel) call middle) :
    ∃ (w' : Situation start session.arena) (census' : Option Census),
      middle.machine = w'.machine census' ∧
        (layeredLogic start hsession False).admits () w' middle.task := by
  by_cases hnone : ∃ (w' : Situation start session.arena) (census' : Option Census),
    middle.machine = w'.machine census' ∧
      (layeredLogic start hsession False).admits () w' middle.task
  · exact hnone
  let answer : Except Halt Value × Machine := (.error .exhausted, {})
  have hperforms : ∀ w, (layeredLogic start hsession False).Performs w
      fun _ => answering (run session fuel) middle answer := by
    intro w _ w' _ task htask
    refine ⟨fun _ held census => ?_, nofun⟩
    have hne : (⟨task, held, w'.machine census⟩ : Call) ≠ middle := fun heq =>
      hnone ⟨w', census, heq ▸ rfl, heq ▸ htask⟩
    have hout : (answering (run session fuel) middle answer task).outcome held
        (w'.machine census) = _ := sameBut_answering (run session fuel) middle answer _ hne
    rw [hout]
    exact run_keeps hsession fuel htask held census
  obtain ⟨w', census', -, hafter, -⟩ :=
    (Logic.step (hperforms _) htask).keeps 0 call.held census
  have hstore := ((awaits_of_asks hasks _ .exhausted {} (sameBut_answering _ middle answer)
    (outcome_answering_self _ middle answer)).2 rfl).1
  have hempty : w'.store = {} := by
    rw [hmachine] at hstore
    exact (congrArg Machine.store hafter).symm.trans hstore
  have hfound := w'.found
  rw [hempty] at hfound
  exact nomatch hfound

/-- **The store is layered at every moment**: at each call inside of a run. -/
theorem nested_layered {fuel fuel' : Nat} {call inner : Call} {census : Option Census}
    (hmachine : call.machine = w.machine census)
    (htask : (layeredLogic start hsession False).admits () w call.task)
    (hnested : Nested session fuel call fuel' inner) :
    ∃ w' : Layered start session.arena, inner.machine.store = w'.store := by
  induction hnested generalizing w census with
  | self fuel call => exact ⟨w.toLayered, congrArg Machine.store hmachine⟩
  | inner hasks _ ih =>
      obtain ⟨w', census', hmachine', htask'⟩ := asked_in_situation hsession hmachine htask hasks
      exact ih hmachine' htask'

end

end Eval

end SmallLisp
