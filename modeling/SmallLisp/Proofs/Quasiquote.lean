import SmallLisp.Proofs.Filling
import SmallLisp.Proofs.Scanning
import SmallLisp.Proofs.VisibleOutcomes

/-!
# Quasiquotation

Where a run fills in a template, the forms in it are evaluated by the run too, with the steps that
are left. As more steps make no difference to what has an outcome, the filling in can be taken apart
from the evaluations: a run *approximates* the filling in that has its own bound, and the other way
around. So what is known of the loop however forms are evaluated is known of runs.

## Main results

* `Eval.filling_approximates_run`, `Eval.run_approximates_filling` — a run fills in templates as is
  done apart from it.
* `Eval.ends_fill_iff` — a run fills in a template as the recursion does.
* `Eval.fill_seenAlike` — a census makes no difference that can be seen.
* `Eval.fill_is_recursive` — quasiquotation is the textbook recursion.
-/

namespace SmallLisp

namespace Eval

open EvalM

section

variable {session : Session} {perform perform' : Task → EvalM Value} {fuel fuel' : Nat}

/-- Whatever has an outcome in the first way of carrying out tasks has the same in the second. -/
def Approximates (perform perform' : Task → EvalM Value) : Prop :=
  ∀ call : Call, (call.outcome perform).1 ≠ .error .exhausted →
    call.outcome perform' = call.outcome perform

theorem Approximates.step (h : Approximates perform perform') :
    Approximates (step session perform) (step session perform') := by
  intro call hfinished
  refine (outcome_step_congr fun inner hasks => ?_).symm
  exact (h inner fun hinner => hfinished (result_of_asks hasks hinner)).symm

theorem run_approximates (hle : fuel ≤ fuel') :
    Approximates (run session fuel) (run session fuel') := by
  intro call hfinished
  have hcall : call.Finishes session fuel := hfinished
  exact hcall.outcome_eq hle

/-- A run fills in templates as is done apart from it, with enough steps for the evaluations. -/
theorem filling_approximates_run (more : Nat) :
    Approximates (filling session (run session fuel) more) (run session (fuel + more)) := by
  induction more with
  | zero =>
      rintro ⟨task, held, machine⟩ hfinished
      cases task with
      | eval form scope => rfl
      | apply callee args => rfl
      | fill => exact absurd rfl hfinished
      | fillRest => exact absurd rfl hfinished
  | succ more ih =>
      rintro ⟨task, held, machine⟩ hfinished
      cases task with
      | eval form scope =>
          exact run_approximates (Nat.le_add_right fuel _) ⟨_, held, machine⟩ hfinished
      | apply callee args =>
          exact run_approximates (Nat.le_add_right fuel _) ⟨_, held, machine⟩ hfinished
      | fill template level scope =>
          exact ih.step ⟨.fill template level scope, held, machine⟩ hfinished
      | fillRest made rest level scope =>
          exact ih.step ⟨.fillRest made rest level scope, held, machine⟩ hfinished

theorem run_approximates_filling (hle : fuel ≤ fuel') :
    Approximates (run session fuel) (filling session (run session fuel') fuel) := by
  induction fuel with
  | zero => exact fun call hfinished => absurd rfl hfinished
  | succ fuel ih =>
      rintro ⟨task, held, machine⟩ hfinished
      cases task with
      | eval form scope => exact run_approximates hle ⟨_, held, machine⟩ hfinished
      | apply callee args => exact run_approximates hle ⟨_, held, machine⟩ hfinished
      | fill template level scope =>
          exact (ih (Nat.le_of_succ_le hle)).step ⟨.fill template level scope, held, machine⟩
            hfinished
      | fillRest made rest level scope =>
          exact (ih (Nat.le_of_succ_le hle)).step ⟨.fillRest made rest level scope, held, machine⟩
            hfinished

end

/-! ### Runs -/

section

open Template

variable {session : Session} {scope : FrameRef} {template : Template} {level : Nat}
  {machine : Machine}

theorem run_unheld (session : Session) (fuel : Nat) (task : Task) :
    Unheld (fun _ => True) (run session fuel task) :=
  unheld_performs session fuel () () rfl task ((unheldLogic session).admits_toLogic () task)

theorem run_steady (session : Session) (task : Task) :
    Steady (fun _ => True) fun fuel => run session fuel task :=
  steady_performs session () () rfl task ((steadyLogic session).admits_toLogic () task)

/-- **A run fills in a template as the recursion does**, where nothing comes in its way. -/
theorem ends_fill_iff (hstands : template.Stands machine.store) (hcensus : machine.census = none)
    (h : ∀ fuel, Untroubled session (evaluator (run session fuel) scope) template .whole template
      level machine) (held : List Hold) (outcome : Except Halt Value × Machine) :
    EvalM.Ends (fun fuel => run session fuel (.fill template.value level scope)) held machine
        outcome ↔
      EvalM.Ends (fun fuel => template.filled session (evaluator (run session fuel) scope) level)
        held machine outcome := by
  let call : Call := ⟨.fill template.value level scope, held, machine⟩
  have halike : ∀ fuel steps, template.steps < steps →
      call.outcome (filling session (run session fuel) steps) =
        (template.filled session (evaluator (run session fuel) scope) level).outcome held
          machine :=
    fun fuel _ => (h fuel).outcome_filling_eq (run_unheld session fuel) hstands hcensus held
  constructor
  · rintro ⟨hfinished, bound, hbound⟩
    refine ⟨hfinished, bound + template.steps + 1, fun fuel hfuel => ?_⟩
    have hrun : call.outcome (run session fuel) = outcome := hbound fuel (by omega)
    rw [← halike fuel fuel (by omega), ← hrun]
    exact run_approximates_filling (Nat.le_refl fuel) call (hrun ▸ hfinished)
  · rintro ⟨hfinished, bound, hbound⟩
    have hfilled := (halike bound _ (Nat.lt_succ_self _)).trans (hbound bound (Nat.le_refl _))
    have hrun := filling_approximates_run (template.steps + 1) call (hfilled ▸ hfinished)
    rw [hfilled] at hrun
    have hends := (run_steady session call.task).ends (hrun ▸ hfinished)
    exact hrun ▸ hends

end

/-! ### Runs with a census -/

/-- What a program does with a census looks the same as what it does without one. -/
theorem Agrees.seenAlike {common : Nat → Prop} {globals : FrameRef} {c : Hands globals}
    {w : Stage common globals} {f : EvalM Value} (h : Agrees c w Stage.Has f)
    (hrooted : w.Rooted c) :
    SeenAlike c.held (f.outcome c.held w.left) (f.outcome c.held w.right) := by
  obtain ⟨result, w', hleft, hright, hleads, -, hhas⟩ := h hrooted c.held c.held fun _ => rfl
  rw [hleft, hright]
  exact ⟨rfl, rfl, fun item hitem => w'.twin.agree item
    (hitem.induct (hrooted.result hleads hhas) w'.twin.closed)⟩

section

variable {session : Session} {scope : FrameRef} {value : Value} {level : Nat} {machine : Machine}
  {held : List Hold}

/-- **Keeping a census makes no difference that can be seen** to the filling in of a template. -/
theorem fill_seenAlike (hdiscreet : session.natives.Discreet) (hintact : machine.Intact held)
    (hglobals : .frame session.globals ∈ held.flatMap Hold.items)
    (hscope : .frame scope ∈ held.flatMap Hold.items)
    (hvalue : value.In (machine.store.Reaches (held.flatMap Hold.items))) (fuel : Nat) :
    SeenAlike held ((run session fuel (.fill value level scope)).outcome held machine)
      ((run session fuel (.fill value level scope)).outcome held
        { machine with census := none }) := by
  have hagrees : Agrees ⟨held, hglobals⟩ (hintact.stage hglobals) Stage.Has
      (run session fuel (.fill value level scope)) :=
    tandem_performs hdiscreet fuel (hintact.stage hglobals) ⟨held, hglobals⟩ _ trivial
      (.fill value level scope)
      ⟨hvalue, Twin.anchored_of_mem hscope (Store.reaches_of_mem hscope)⟩
  exact hagrees.seenAlike fun _ hitem => Store.reaches_of_mem hitem

/-- Programs that look the same with every bound end with outcomes that look the same. -/
theorem exists_ends_of_seenAlike {P : Value → Prop} {f : Nat → EvalM Value} (hf : Steady P f)
    {other : Machine}
    (h : ∀ fuel, SeenAlike held ((f fuel).outcome held machine) ((f fuel).outcome held other)) :
    (∀ outcome, EvalM.Ends f held machine outcome →
      ∃ plain, EvalM.Ends f held other plain ∧ SeenAlike held outcome plain) ∧
    ∀ plain, EvalM.Ends f held other plain →
      ∃ outcome, EvalM.Ends f held machine outcome ∧ SeenAlike held outcome plain := by
  constructor
  · rintro _ ⟨hfinished, bound, hbound⟩
    have halike := h bound
    rw [hbound bound (Nat.le_refl bound)] at halike
    exact ⟨_, hf.ends (halike.result_eq ▸ hfinished), halike⟩
  · rintro _ ⟨hfinished, bound, hbound⟩
    have halike := h bound
    rw [hbound bound (Nat.le_refl bound)] at halike
    exact ⟨_, hf.ends (halike.result_eq ▸ hfinished), halike⟩

end

/-- **Quasiquotation is the textbook recursion.** A value without cycles is a template, and the
template is filled in as the recursion over it does, with the same outcome and the same machine
afterwards, provided that the evaluations made by the recursion leave the template as it is and that
it comes to no marked remainder of a list before an item of the list has been made. This is so in
whatever way the forms are evaluated, also in one that stops at one of the evaluations, so these are
the same ones in the same order. Hence a run ends if the recursion does, with the same outcome; with
a census its outcome looks the same. -/
theorem fill_is_recursive (session : Session) (scope : FrameRef) (value : Value) (level : Nat)
    (held : List Hold) (machine : Machine) (hfinite : machine.store.IsFinite value) :
    (∃ template : Template, template.value = value ∧ template.Stands machine.store) ∧
    ∀ template : Template, template.value = value → template.Stands machine.store →
      let plain := { machine with census := none }
      let loop := fun fuel => run session fuel (.fill value level scope)
      let recursion := fun fuel =>
        template.filled session (evaluator (run session fuel) scope) level
      (∀ perform, (∀ task, Unheld (fun _ => True) (perform task)) →
        Template.Untroubled session (evaluator perform scope) template .whole template level plain →
        ∀ fuel, template.steps < fuel →
          (filling session perform fuel (.fill value level scope)).outcome held plain =
            (template.filled session (evaluator perform scope) level).outcome held plain) ∧
      ((∀ fuel, Template.Untroubled session (evaluator (run session fuel) scope) template .whole
          template level plain) →
        (∀ outcome, EvalM.Ends loop held plain outcome ↔ EvalM.Ends recursion held plain outcome) ∧
        (session.natives.Discreet → machine.Intact held →
          .frame session.globals ∈ held.flatMap Hold.items →
          .frame scope ∈ held.flatMap Hold.items →
          value.In (machine.store.Reaches (held.flatMap Hold.items)) →
          (∀ outcome, EvalM.Ends loop held machine outcome →
            ∃ other, EvalM.Ends recursion held plain other ∧ SeenAlike held outcome other) ∧
          ∀ other, EvalM.Ends recursion held plain other →
            ∃ outcome, EvalM.Ends loop held machine outcome ∧ SeenAlike held outcome other)) := by
  refine ⟨hfinite.exists_template, ?_⟩
  rintro template rfl hstands plain loop recursion
  refine ⟨fun perform hperform huntroubled fuel hfuel =>
    huntroubled.outcome_filling_eq hperform hstands rfl held hfuel, fun huntroubled => ?_⟩
  have hplain : template.Stands plain.store := hstands
  have hends := ends_fill_iff hplain rfl huntroubled held
  refine ⟨hends, fun hdiscreet hintact hglobals hscope hvalue => ?_⟩
  obtain ⟨hright, hleft⟩ := exists_ends_of_seenAlike
    (run_steady session (.fill template.value level scope))
    (fill_seenAlike hdiscreet hintact hglobals hscope hvalue)
  constructor
  · intro outcome houtcome
    obtain ⟨other, hother, halike⟩ := hright outcome houtcome
    exact ⟨other, (hends other).1 hother, halike⟩
  · intro other hother
    exact hleft other ((hends other).2 hother)

/-- The template `(,@NIL 1 . ,T)`, as it is made in a new session. -/
def emptySpliceInFront : Template :=
  .splice ⟨0, 5⟩ (.atom .nil) (.pair ⟨0, 2⟩ (.atom (.integer 1)) (.unquote ⟨0, 1⟩ (.atom .t)))

/-- A constant is its own value, and nothing is changed by its evaluation. -/
theorem outcome_run_constant {session : Session} {fuel : Nat} {form result : Value}
    {scope : FrameRef} {held : List Hold} {machine after : Machine}
    (hform : form = .nil ∨ form = .t)
    (hout : (run session fuel (.eval form scope)).outcome held machine = (.ok result, after)) :
    result = form ∧ after = machine := by
  cases fuel with
  | zero => cases hout
  | succ fuel =>
      have hpure : (evalForm session (run session fuel) form scope) = pure form := by
        rcases hform with rfl | rfl <;> rfl
      have hrun : (limited session.maxDepth (pure form)).outcome held machine =
          (.ok result, after) := by
        rw [← hpure]
        exact hout
      rw [outcome_limited] at hrun
      split at hrun
      · cases hrun
      · obtain ⟨hresult, rfl⟩ := Prod.mk.inj hrun
        exact ⟨(Except.ok.inj hresult).symm, rfl⟩

/-- Where only constants are evaluated, nothing comes in the way of filling in this template. -/
theorem emptySpliceInFront_untroubled (session : Session) (fuel : Nat) (scope : FrameRef)
    (machine : Machine) :
    Template.Untroubled session (evaluator (run session fuel) scope) emptySpliceInFront .whole
      emptySpliceInFront 1 machine := by
  have hmeets : ∀ {place part level machine'},
      Template.Meets session (evaluator (run session fuel) scope) .whole emptySpliceInFront 1
        machine place part level machine' →
      (∀ form, part.evaluated? level = some form → form = .nil ∨ form = .t) ∧
        (place = .bare → part.isMark = false) := by
    intro place part level machine' hmeets
    cases hmeets with
    | self => exact ⟨fun form heq => .inl (Option.some.inj heq).symm, fun _ => rfl⟩
    | inner hinner => cases hinner
    | rest hrest _ hmeets =>
        cases hrest
        cases hmeets with
        | self => exact ⟨fun form heq => (by cases heq), fun _ => rfl⟩
        | inner hinner hmeets =>
            cases hinner
            cases hmeets with
            | self => exact ⟨fun form heq => (by cases heq), fun _ => rfl⟩
            | inner hinner => cases hinner
            | rest hrest => cases hrest
        | rest hrest hitems hmeets =>
            cases hrest
            cases hmeets with
            | self =>
                refine ⟨fun form heq => .inr (Option.some.inj heq).symm, fun hbare => ?_⟩
                obtain ⟨item, middle, -, hpure⟩ := exists_of_outcome_bind hitems
                cases hpure
                cases hbare
            | inner hinner => cases hinner
            | rest hrest => cases hrest
  constructor
  · intro place part level machine' after form result hpart hform hout hstands
    rw [(outcome_run_constant ((hmeets hpart).1 form hform) hout).2]
    exact hstands
  · intro part level machine' hpart
    exact (hmeets hpart).2 rfl

theorem fill_is_recursive_behind_empty_splice :
    let session := (Session.create {} 10).1
    let made := (Session.create {} 10).2.ofDatum session.arena
      (.pair (.list [.symbol .unquoteSplicing, .nil])
        (.pair (.integer 1) (.list [.symbol .unquote, .t])))
    let machine : Machine := ⟨made.2, none, 0⟩
    let loop := fun fuel => run session fuel (.fill made.1 1 session.globals)
    let recursion := fun fuel => emptySpliceInFront.filled session
      (evaluator (run session fuel) session.globals) 1
    made.2.IsFinite made.1 ∧ emptySpliceInFront.value = made.1 ∧
      emptySpliceInFront.Stands made.2 ∧
      (∀ fuel, Template.Untroubled session (evaluator (run session fuel) session.globals)
        emptySpliceInFront .whole emptySpliceInFront 1 machine) ∧
      ∃ ref after, EvalM.Ends loop [] machine (.ok (.pair ref), after) ∧
        EvalM.Ends recursion [] machine (.ok (.pair ref), after) ∧
        after.store.car ref = .integer 1 ∧ after.store.cdr ref = .t := by
  intro session made machine loop recursion
  have hcomputed :
      made.1 = .pair ⟨0, 5⟩ ∧ made.2.isMarked (.pair ⟨0, 2⟩) = false ∧
      [0, 1, 2, 3, 4, 5].map (fun index =>
          (made.2.cell? ⟨0, index⟩).map fun cell => (cell.car, cell.cdr)) =
        [some (.t, .nil), some (.symbol .unquote, .pair ⟨0, 0⟩),
          some (.integer 1, .pair ⟨0, 1⟩), some (.nil, .nil),
          some (.symbol .unquoteSplicing, .pair ⟨0, 3⟩), some (.pair ⟨0, 4⟩, .pair ⟨0, 2⟩)] ∧
      ((loop 9).outcome [] machine).1.toOption = some (.pair ⟨0, 6⟩) ∧
      ((loop 9).outcome [] machine).2.store.car ⟨0, 6⟩ = .integer 1 ∧
      ((loop 9).outcome [] machine).2.store.cdr ⟨0, 6⟩ = .t := by
    decide +kernel
  obtain ⟨hvalue, hplain, hcells, hresult, hcar, hcdr⟩ := hcomputed
  simp only [List.map_cons, List.map_nil, List.cons.injEq, and_true] at hcells
  obtain ⟨h0, h1, h2, h3, h4, h5⟩ := hcells
  have hstands : emptySpliceInFront.Stands made.2 :=
    ⟨⟨⟨0, 4⟩, Store.cell?_eq_some h5, ⟨0, 3⟩, Store.cell?_eq_some h4, Store.cell?_eq_some h3⟩, rfl,
      Store.cell?_eq_some h2, hplain, rfl, rfl, ⟨⟨0, 0⟩, Store.cell?_eq_some h1,
      Store.cell?_eq_some h0⟩, rfl⟩
  have hfinite : made.2.IsFinite made.1 :=
    (Store.denotes_ofDatum (by decide +kernel) _).1.isFinite
  have huntroubled := fun fuel =>
    emptySpliceInFront_untroubled session fuel session.globals machine
  have hboth := ((fill_is_recursive session session.globals made.1 1 [] machine hfinite).2
    emptySpliceInFront hvalue.symm hstands).2 huntroubled
  rcases hout : (loop 9).outcome [] machine with ⟨result, after⟩
  rw [hout] at hresult hcar hcdr
  obtain rfl : result = .ok (.pair ⟨0, 6⟩) := eq_ok_of_toOption hresult
  have hends : EvalM.Ends loop [] machine (.ok (.pair ⟨0, 6⟩), after) := by
    have hsteady := run_steady session (.fill made.1 1 session.globals)
    rw [← hout]
    exact hsteady.ends (by rw [hout]; exact fun heq => by cases heq)
  exact ⟨hfinite, hvalue.symm, hstands, huntroubled, ⟨0, 6⟩, after, hends, (hboth.1 _).1 hends,
    hcar, hcdr⟩

end Eval

end SmallLisp
