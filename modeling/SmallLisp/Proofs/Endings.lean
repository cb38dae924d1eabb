import SmallLisp.Proofs.Budget
import SmallLisp.Proofs.Uncounted

/-!
# How runs end

The bound on nested steps belongs to the host, so what a program does is what it does with every
bound that is large enough. An evaluation that is given with each bound is *steady* if a larger
bound changes nothing once it has an outcome, and it *ends* with an outcome if it has that one from
some bound on.

The other bound is the language's own, on the number of evaluations in progress. Two evaluations end
alike up to that limit if each of them, where it ends without having reached the limit, ends as the
other one does, unless this one reaches it.

## Main results

* `Eval.steadyLogic` — the logic of steady evaluations.
* `EvalM.ends_bind_iff` — how one evaluation after another ends.
* `Session.evalIn_steady`, `Session.apply_steady`, `Session.expandOnce_steady` — what a host runs in
  a session is steady.
* `EvalM.EndAlike.of_steps` — steady evaluations end alike if they compare with each bound.
* `EvalM.EndAlike.of_yields` — so they do if they yield the same outcomes.
* `Session.outcome_run_eval` — being counted as an evaluation makes no difference to a form, unless
  the limit is reached.
-/

namespace SmallLisp

namespace EvalM

variable {α β : Type}

/-! ### Evaluations that are steady -/

/-- With a larger bound the evaluation has the same outcome, if it has one. What it results in is as
stated. -/
def Steady (post : α → Prop) (f : Nat → EvalM α) : Prop :=
  ∀ fuel fuel', fuel ≤ fuel' → ∀ held machine,
    ((f fuel).outcome held machine).1 ≠ .error .exhausted →
      (f fuel').outcome held machine = (f fuel).outcome held machine ∧
        ∀ a, ((f fuel).outcome held machine).1 = .ok a → post a

namespace Steady

/-- What does not depend on the bound is steady. -/
theorem const {post : α → Prop} {f : EvalM α}
    (h : ∀ held machine a, (f.outcome held machine).1 = .ok a → post a) :
    Steady post fun _ => f :=
  fun _ _ _ held machine _ => ⟨rfl, h held machine⟩

theorem pure {post : α → Prop} {a : α} (h : post a) : Steady post fun _ => pure a :=
  const fun _ _ _ heq => Except.ok.inj heq ▸ h

theorem fail {post : α → Prop} (e : Error) : Steady post fun _ => EvalM.fail e :=
  const fun _ _ _ heq => by cases heq

theorem inspect {post : α → Prop} {view : Store → α} (h : ∀ store, post (view store)) :
    Steady post fun _ => EvalM.inspect view :=
  const fun _ machine _ heq => Except.ok.inj heq ▸ h machine.store

theorem update (change : Store → α × Store) :
    Steady (fun _ => True) fun _ => EvalM.update change :=
  const fun _ _ _ _ => trivial

theorem holding {post : α → Prop} {f : Nat → EvalM α} (values : List Value) (h : Steady post f) :
    Steady post fun fuel => EvalM.holding values (f fuel) :=
  fun fuel fuel' hle held => h fuel fuel' hle (.values values :: held)

theorem bind {P : α → Prop} {post : β → Prop} {f : Nat → EvalM α} {k : Nat → α → EvalM β}
    (h : Steady P f) (hk : ∀ a, P a → Steady post fun fuel => k fuel a) :
    Steady post fun fuel => f fuel >>= k fuel := by
  intro fuel fuel' hle held machine hfinished
  have hfirst := h fuel fuel' hle held machine
  rcases hout : (f fuel).outcome held machine with ⟨halt | a, after⟩
  · rw [outcome_bind_error hout] at hfinished
    rw [hout] at hfirst
    obtain ⟨hsame, -⟩ := hfirst fun heq => hfinished (congrArg Except.error (Except.error.inj heq))
    rw [outcome_bind_error hout, outcome_bind_error hsame]
    exact ⟨rfl, fun _ heq => by cases heq⟩
  · rw [outcome_bind_ok hout] at hfinished
    rw [hout] at hfirst
    obtain ⟨hsame, hresult⟩ := hfirst fun heq => by cases heq
    rw [outcome_bind_ok hout, outcome_bind_ok hsame]
    exact hk a (hresult a rfl) fuel fuel' hle held after hfinished

theorem limited {post : Value → Prop} {f : Nat → EvalM Value} (limit : Nat) (h : Steady post f) :
    Steady post fun fuel => EvalM.limited limit (f fuel) := by
  intro fuel fuel' hle held machine hfinished
  rw [outcome_limited] at hfinished ⊢
  rw [outcome_limited]
  split
  · exact ⟨rfl, fun _ heq => by cases heq⟩
  · next hlimit =>
      rw [if_neg hlimit] at hfinished
      rw [outcome_deeper] at hfinished ⊢
      obtain ⟨hsame, hresult⟩ :=
        h fuel fuel' hle held { machine with depth := machine.depth + 1 } hfinished
      rw [outcome_deeper, hsame]
      exact ⟨rfl, hresult⟩

theorem within {post : Value → Prop} {f : Nat → EvalM Value} (frame : FrameRef)
    (h : Steady post f) : Steady post fun fuel => EvalM.within frame (f fuel) := by
  intro fuel fuel' hle held machine hfinished
  obtain ⟨hsame, hresult⟩ := h fuel fuel' hle (.frames [frame] :: held) machine hfinished
  rw [outcome_within, outcome_within, hsame]
  exact ⟨rfl, hresult⟩

theorem invoke (session : Session) {perform : Nat → Task → EvalM Value} (ref : LambdaRef)
    (anonymous : String) (args : List Value)
    (hbody : ∀ body frame,
      Steady (fun _ => True) fun fuel => Eval.evalBody (perform fuel) body frame) :
    Steady (fun _ => True) fun fuel => Eval.invoke session (perform fuel) ref anonymous args := by
  unfold Eval.invoke
  refine .bind (P := fun _ => True) (.inspect fun _ => trivial) fun lambda _ => ?_
  refine .bind (.update _) fun frame _ => ?_
  split
  · exact .fail _
  · exact .bind (.update _) fun _ _ => .within frame (hbody lambda.body frame)

end Steady

/-! ### Evaluations that end -/

/-- From some bound on, the evaluation has this outcome. -/
structure Ends (f : Nat → EvalM α) (held : List Hold) (machine : Machine)
    (outcome : Except Halt α × Machine) : Prop where
  finished : outcome.1 ≠ .error .exhausted
  eventually : ∃ bound, ∀ fuel, bound ≤ fuel → (f fuel).outcome held machine = outcome

theorem Steady.ends {post : α → Prop} {f : Nat → EvalM α} (h : Steady post f) {fuel : Nat}
    {held : List Hold} {machine : Machine}
    (hfinished : ((f fuel).outcome held machine).1 ≠ .error .exhausted) :
    Ends f held machine ((f fuel).outcome held machine) :=
  ⟨hfinished, fuel, fun fuel' hle => (h fuel fuel' hle held machine hfinished).1⟩

theorem Steady.ends_ok {post : α → Prop} {f : Nat → EvalM α} (h : Steady post f) {fuel : Nat}
    {held : List Hold} {machine : Machine} {a : α}
    (hok : ((f fuel).outcome held machine).1 = .ok a) :
    Ends f held machine (.ok a, ((f fuel).outcome held machine).2) := by
  have hends := h.ends (show ((f fuel).outcome held machine).1 ≠ _ by
    rw [hok]
    exact fun heq => by cases heq)
  rwa [← hok]

theorem Ends.unique {f : Nat → EvalM α} {held : List Hold} {machine : Machine}
    {outcome other : Except Halt α × Machine} (h : Ends f held machine outcome)
    (hother : Ends f held machine other) : outcome = other := by
  obtain ⟨-, bound, hbound⟩ := h
  obtain ⟨-, bound', hbound'⟩ := hother
  exact (hbound (max bound bound') (by omega)).symm.trans (hbound' _ (by omega))

/-- How an evaluation ends does not depend on the first bounds. -/
theorem ends_succ_iff {f : Nat → EvalM α} {held : List Hold} {machine : Machine}
    {outcome : Except Halt α × Machine} :
    Ends (fun fuel => f (fuel + 1)) held machine outcome ↔ Ends f held machine outcome := by
  constructor
  · rintro ⟨hfinished, bound, hbound⟩
    refine ⟨hfinished, bound + 1, fun fuel hfuel => ?_⟩
    obtain ⟨less, rfl⟩ : ∃ less, fuel = less + 1 := ⟨fuel - 1, by omega⟩
    exact hbound less (by omega)
  · rintro ⟨hfinished, bound, hbound⟩
    exact ⟨hfinished, bound, fun fuel hfuel => hbound (fuel + 1) (by omega)⟩

/-- **One evaluation after another ends** as the second one does where the first one has left off,
or as the first one does if that fails. -/
theorem ends_bind_iff {P : α → Prop} {f : Nat → EvalM α} (hf : Steady P f)
    {k : Nat → α → EvalM β} {held : List Hold} {machine : Machine}
    {outcome : Except Halt β × Machine} :
    Ends (fun fuel => f fuel >>= k fuel) held machine outcome ↔
      (∃ a after, Ends f held machine (.ok a, after) ∧
        Ends (fun fuel => k fuel a) held after outcome) ∨
      ∃ halt after, Ends f held machine (.error halt, after) ∧ outcome = (.error halt, after) := by
  constructor
  · rintro ⟨hfinished, bound, hbound⟩
    have hout := hbound bound (Nat.le_refl bound)
    have hends : ((f bound).outcome held machine).1 ≠ .error .exhausted →
        Ends f held machine ((f bound).outcome held machine) := hf.ends
    rcases hfirst : (f bound).outcome held machine with ⟨halt | a, after⟩
    · rw [outcome_bind_error hfirst] at hout
      subst hout
      refine .inr ⟨halt, after, ?_, rfl⟩
      rw [hfirst] at hends
      exact hends fun heq => hfinished (congrArg Except.error (Except.error.inj heq))
    · rw [hfirst] at hends
      obtain ⟨hok, other, hother⟩ := hends fun heq => by cases heq
      refine .inl ⟨a, after, ⟨hok, other, hother⟩, hfinished, max bound other, fun fuel hfuel => ?_⟩
      rw [← hbound fuel (by omega), outcome_bind_ok (hother fuel (by omega))]
  · rintro (⟨a, after, ⟨-, bound, hbound⟩, hfinished, bound', hbound'⟩ |
      ⟨halt, after, ⟨hfinished, bound, hbound⟩, rfl⟩)
    · refine ⟨hfinished, max bound bound', fun fuel hfuel => ?_⟩
      rw [outcome_bind_ok (hbound fuel (by omega))]
      exact hbound' fuel (by omega)
    · refine ⟨fun heq => hfinished (congrArg Except.error (Except.error.inj heq)), bound,
        fun fuel hfuel => ?_⟩
      exact outcome_bind_error (hbound fuel hfuel) _

theorem ends_bind_ok_iff {P : α → Prop} {f : Nat → EvalM α} (hf : Steady P f)
    {k : Nat → α → EvalM β} {held : List Hold} {machine last : Machine} {b : β} :
    Ends (fun fuel => f fuel >>= k fuel) held machine (.ok b, last) ↔
      ∃ a after, Ends f held machine (.ok a, after) ∧
        Ends (fun fuel => k fuel a) held after (.ok b, last) := by
  rw [ends_bind_iff hf, or_iff_left]
  rintro ⟨halt, after, -, heq⟩
  cases heq

/-- The evaluations end with the same outcome, or neither of them ends. -/
def SameEnds (f g : Nat → EvalM α) (held : List Hold) (machine : Machine) : Prop :=
  ∀ outcome, Ends f held machine outcome ↔ Ends g held machine outcome

namespace SameEnds

variable {f g h : Nat → EvalM α} {held : List Hold} {machine : Machine}

theorem refl (f : Nat → EvalM α) (held : List Hold) (machine : Machine) :
    SameEnds f f held machine :=
  fun _ => Iff.rfl

theorem trans (hfg : SameEnds f g held machine) (hgh : SameEnds g h held machine) :
    SameEnds f h held machine :=
  fun outcome => (hfg outcome).trans (hgh outcome)

theorem of_outcome
    (heq : ∀ fuel, (f fuel).outcome held machine = (g fuel).outcome held machine) :
    SameEnds f g held machine := by
  intro outcome
  constructor
  · rintro ⟨hfinished, bound, hbound⟩
    exact ⟨hfinished, bound, fun fuel hfuel => (heq fuel).symm.trans (hbound fuel hfuel)⟩
  · rintro ⟨hfinished, bound, hbound⟩
    exact ⟨hfinished, bound, fun fuel hfuel => (heq fuel).trans (hbound fuel hfuel)⟩

/-- It is enough to compare the outcomes from the second bound on. -/
theorem of_succ (heq : ∀ fuel, (f (fuel + 1)).outcome held machine =
    (g fuel).outcome held machine) : SameEnds f g held machine :=
  fun outcome => ends_succ_iff.symm.trans (of_outcome heq outcome)

/-- What follows need only end alike where the first evaluation leaves off. -/
theorem bind {P Q : α → Prop} {k l : Nat → α → EvalM β} (hf : Steady P f) (hg : Steady Q g)
    (hfg : SameEnds f g held machine)
    (hk : ∀ a after, Ends f held machine (.ok a, after) →
      SameEnds (fun fuel => k fuel a) (fun fuel => l fuel a) held after) :
    SameEnds (fun fuel => f fuel >>= k fuel) (fun fuel => g fuel >>= l fuel) held machine := by
  intro outcome
  rw [ends_bind_iff hf, ends_bind_iff hg]
  refine or_congr ⟨?_, ?_⟩ ⟨?_, ?_⟩
  · rintro ⟨a, after, hends, hrest⟩
    exact ⟨a, after, (hfg _).1 hends, (hk a after hends outcome).1 hrest⟩
  · rintro ⟨a, after, hends, hrest⟩
    have hends := (hfg _).2 hends
    exact ⟨a, after, hends, (hk a after hends outcome).2 hrest⟩
  · rintro ⟨halt, after, hends, heq⟩
    exact ⟨halt, after, (hfg _).1 hends, heq⟩
  · rintro ⟨halt, after, hends, heq⟩
    exact ⟨halt, after, (hfg _).2 hends, heq⟩

end SameEnds

/-- What reaches the limit on nested evaluations is not cut short. -/
theorem finished_of_reachedLimit {result : Except Halt α} (h : ReachedLimit result) :
    result ≠ .error .exhausted := by
  obtain ⟨limit, rfl⟩ := h
  exact fun heq => by cases heq

/-- Unless one of them reaches the limit on nested evaluations, the evaluations both end, with
outcomes that are alike, or neither of them ends. -/
structure EndAlike (alike : Except Halt α × Machine → Except Halt α × Machine → Prop)
    (f g : Nat → EvalM α) (held : List Hold) (machine : Machine) : Prop where
  right {outcome : Except Halt α × Machine} : Ends f held machine outcome →
    ¬ReachedLimit outcome.1 →
      ∃ other, Ends g held machine other ∧ (ReachedLimit other.1 ∨ alike outcome other)
  left {other : Except Halt α × Machine} : Ends g held machine other →
    ¬ReachedLimit other.1 →
      ∃ outcome, Ends f held machine outcome ∧ (ReachedLimit outcome.1 ∨ alike outcome other)

/-- Outcomes are alike unless one of them is that the limit was reached. -/
def Compare (alike : Except Halt α × Machine → Except Halt α × Machine → Prop)
    (outcome other : Except Halt α × Machine) : Prop :=
  ReachedLimit outcome.1 ∨ ReachedLimit other.1 ∨ alike outcome other

/-- **Steady evaluations end alike** if their outcomes compare with each bound, with a number of
nested steps to spare for each of them. -/
theorem EndAlike.of_steps {alike : Except Halt α × Machine → Except Halt α × Machine → Prop}
    (hresult : ∀ outcome other, alike outcome other → outcome.1 = other.1) {P Q : α → Prop}
    {f g : Nat → EvalM α} (hf : Steady P f) (hg : Steady Q g) {held : List Hold}
    {machine : Machine} (more more' : Nat)
    (h : ∀ fuel, Compare alike ((f (fuel + more)).outcome held machine)
      ((g (fuel + more')).outcome held machine)) : EndAlike alike f g held machine where
  right := by
    rintro _ ⟨hfinished, bound, hbound⟩ hlimit
    have hcompare := h bound
    rw [hbound _ (Nat.le_add_right bound more)] at hcompare
    rcases hcompare with hreached | hreached | halike
    · exact absurd hreached hlimit
    · exact ⟨_, hg.ends (finished_of_reachedLimit hreached), .inl hreached⟩
    · exact ⟨_, hg.ends (hresult _ _ halike ▸ hfinished), .inr halike⟩
  left := by
    rintro _ ⟨hfinished, bound, hbound⟩ hlimit
    have hcompare := h bound
    rw [hbound _ (Nat.le_add_right bound more')] at hcompare
    rcases hcompare with hreached | hreached | halike
    · exact ⟨_, hf.ends (finished_of_reachedLimit hreached), .inl hreached⟩
    · exact absurd hreached hlimit
    · exact ⟨_, hf.ends (hresult _ _ halike ▸ hfinished), .inr halike⟩

/-- With a number of nested steps to spare, the evaluation has these outcomes, unless it reaches the
limit. -/
def Yields (f : Nat → EvalM α) (held : List Hold) (machine : Machine)
    (outcomes : Nat → Except Halt α × Machine) : Prop :=
  ∃ more, ∀ fuel, ReachedLimit ((f (fuel + more)).outcome held machine).1 ∨
    (f (fuel + more)).outcome held machine = outcomes fuel

theorem Yields.refl (f : Nat → EvalM α) (more : Nat) (held : List Hold) (machine : Machine) :
    Yields f held machine fun fuel => (f (fuel + more)).outcome held machine :=
  ⟨more, fun _ => .inr rfl⟩

/-- Evaluations that yield the same outcomes compare. -/
theorem Yields.compare {f g : Nat → EvalM α} {held : List Hold} {machine : Machine}
    {outcomes : Nat → Except Halt α × Machine} (hf : Yields f held machine outcomes)
    (hg : Yields g held machine outcomes) :
    ∃ more more', ∀ fuel, Compare Eq ((f (fuel + more)).outcome held machine)
      ((g (fuel + more')).outcome held machine) := by
  obtain ⟨more, hf⟩ := hf
  obtain ⟨more', hg⟩ := hg
  refine ⟨more, more', fun fuel => ?_⟩
  rcases hf fuel with hreached | hleft
  · exact .inl hreached
  · rcases hg fuel with hreached | hright
    · exact .inr (.inl hreached)
    · exact .inr (.inr (hleft.trans hright.symm))

theorem EndAlike.of_yields {P Q : α → Prop} {f g : Nat → EvalM α} (hf : Steady P f)
    (hg : Steady Q g) {held : List Hold} {machine : Machine}
    {outcomes : Nat → Except Halt α × Machine} (hleft : Yields f held machine outcomes)
    (hright : Yields g held machine outcomes) : EndAlike Eq f g held machine := by
  obtain ⟨more, more', hcompare⟩ := hleft.compare hright
  exact .of_steps (fun _ _ heq => congrArg Prod.fst heq) hf hg more more' hcompare

end EvalM

namespace Eval

open EvalM

/-- With every bound, an evaluation in a session has its global frame. -/
theorem globals_bounded (session : Session) (fuel : Nat) :
    (Function.const Nat session fuel).globals = session.globals := rfl

/-- With every bound, an evaluation in a session has its native functions. -/
theorem natives_bounded (session : Session) (fuel : Nat) :
    (Function.const Nat session fuel).natives = session.natives := rfl

/-- The logic of steady evaluations. -/
def steadyLogic (session : Session) : PlainLogic fun _ : Nat => session where
  World := Unit
  deeper := id
  globals := session.globals
  natives := session.natives
  holds := fun _ _ post f => Steady post f
  globals_eq := globals_bounded session
  natives_eq := natives_bounded session
  pure := .pure
  bind := .bind
  fail := fun e _ => .fail e
  holding := .holding
  limited := .limited session.maxDepth
  anywhere := id
  inGlobals := id
  inspect := .inspect
  listWithTail := fun _ _ => .update _
  ofData := fun _ => .update _
  addLambda := fun _ => .update _
  define := fun _ _ _ => .update _
  modifyCell := fun _ _ => .update _
  host := fun _ _ => .const fun _ _ _ _ => trivial
  invoke := .invoke session

theorem steady_performs (session : Session) :
    (steadyLogic session).toLogic.Performs () fun fuel => run session fuel :=
  fun _ _ _ task _ fuel _ hle held machine hfinished => by
    have hcall : Call.Finishes session fuel ⟨task, held, machine⟩ := hfinished
    exact ⟨hcall.outcome_eq hle, fun _ _ => trivial⟩

end Eval

namespace Session

open EvalM Eval

variable (session : Session)

theorem evalIn_steady (form : Value) (scope : FrameRef) :
    Steady (fun _ => True) fun fuel => session.evalIn fuel form scope :=
  .holding [form] (steady_performs session () () rfl (.eval form scope)
    ((steadyLogic session).admits_toLogic () _))

theorem evalText_steady (text : String) :
    Steady (fun _ => True) fun fuel => session.evalText fuel text :=
  Logic.imp (L := (steadyLogic session).toLogic) (c := ())
    (Logic.evalText (fun _ _ _ => Steady.fail _) (steady_performs session).evaluates text)
    fun _ _ _ => trivial

theorem apply_steady (callee : Value) (args : List Value) :
    Steady (fun _ => True) fun fuel => session.apply fuel callee args :=
  .holding [callee] (steady_performs session () () rfl (.apply callee args)
    ((steadyLogic session).admits_toLogic () _))

theorem expandOnce_steady (form : Value) :
    Steady (fun _ => True) fun fuel => session.expandOnce fuel form :=
  Logic.expandForm (L := (steadyLogic session).toLogic) (c := ())
    (steady_performs session).evaluates trivial

/-! ### Being counted as an evaluation -/

/-- Machines side by side are the same one level up if the one is a level deeper. -/
theorem machine_eq_of_beside {limit limit' depth : Nat} {budgets : Nat → Nat → Prop}
    {abandons : Halt → Prop} {alike : Halt → Halt → Prop} {left right : Machine}
    (h : (sideBySide limit limit' budgets abandons alike).machines (depth + 1, depth) left right) :
    { left with depth := left.depth - 1 } = right := by
  obtain ⟨hstore, hcensus, hleft, hright, -⟩ := h
  obtain ⟨store, census, _⟩ := right
  rw [hstore, hcensus, hleft, ← hright]
  rfl

/-- **Being counted as an evaluation makes no difference** to a form, unless the limit is
reached. -/
theorem outcome_run_eval {session : Session} (hnatives : session.IgnoresDepth) (fuel : Nat)
    (form : Value) (scope : FrameRef) (held : List Hold) (machine : Machine) :
    ReachedLimit ((run session (fuel + 1) (.eval form scope)).outcome held machine).1 ∨
      (run session (fuel + 1) (.eval form scope)).outcome held machine =
        (evalForm session (run session fuel) form scope).outcome held machine := by
  obtain ⟨store, census, depth⟩ := machine
  have hlawful := cut_lawful hnatives session.maxDepth session.maxDepth
  have hperforms : hlawful.logic.toLogic.Performs (depth + 1, depth) fun _ => run session fuel :=
    fun _ w _ task _ => hlawful.run fuel w task
  have hform : (sideBySide session.maxDepth session.maxDepth LE.le Halt.IsLimit Eq).Relates
      (depth + 1, depth) (fun _ => True) (evalForm session (run session fuel) form scope)
      (evalForm session (run session fuel) form scope) :=
    Logic.evalForm (L := hlawful.logic.toLogic) (c := ()) hperforms trivial trivial
  have hout := hform held ⟨store, census, depth + 1⟩ ⟨store, census, depth⟩
    ⟨rfl, rfl, rfl, rfl, by omega⟩
  show ReachedLimit ((limited session.maxDepth (evalForm session (run session fuel) form
    scope)).outcome held ⟨store, census, depth⟩).1 ∨ (limited session.maxDepth (evalForm session
      (run session fuel) form scope)).outcome held ⟨store, census, depth⟩ = _
  rw [outcome_limited]
  split
  · exact .inl ⟨_, rfl⟩
  · rw [outcome_deeper]
    dsimp only
    generalize (evalForm session (run session fuel) form scope).outcome held
      ⟨store, census, depth + 1⟩ = x at hout ⊢
    generalize (evalForm session (run session fuel) form scope).outcome held
      ⟨store, census, depth⟩ = y at hout ⊢
    cases hout with
    | abandoned hlimit =>
        obtain ⟨limit, rfl⟩ := hlimit
        exact .inl ⟨limit, rfl⟩
    | @failed halt halt' left right halike hm =>
        obtain rfl := halike
        exact .inr (congrArg (Prod.mk _) (machine_eq_of_beside hm))
    | @ended value left right _ hm => exact .inr (congrArg (Prod.mk _) (machine_eq_of_beside hm))

end Session

end SmallLisp
