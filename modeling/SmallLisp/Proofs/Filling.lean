import SmallLisp.Proofs.Holding
import SmallLisp.Proofs.Templates

/-!
# Filling in templates

Quasiquotation has a definition by recursion over the template: a mark that is not evaluated is put
around what is under it, an element gives its items, and these come in front of what the remainder
of the list gives. The evaluator has a loop over the elements of a list instead. It keeps the items
made so far, and it looks for a mark in the place of the remainder as soon as there are any.

The two agree step for step, however forms are evaluated, if *nothing comes in the way* of the
recursion: no evaluation made in its course changes the template, and it comes to no marked
remainder of a list of which nothing has been made. The places it comes to are told by `Meets`, so
both conditions are about what happens in the course of the recursion and not about all that might.

## Main results

* `Template.filled` — the recursive definition.
* `Template.Untroubled.stands_filled` — a template that the evaluations leave alone stands after it
  has been filled in.
* `Template.FillsAlike.of_isMark`, `Template.FillsAlike.of_rest?` — a mark and a list are filled in
  as the recursion does it if their parts are.
* `Template.Untroubled.outcome_filling_eq` — so the loop computes the recursive definition.
-/

namespace SmallLisp

namespace Template

open EvalM Eval

/-- A bound on the steps nested in each other that it takes to fill in a template. -/
def steps : Template → Nat
  | atom _ => 1
  | unquote _ inner => inner.steps + 3
  | quasiquote _ inner => inner.steps + 3
  | splice _ inner rest => max inner.steps rest.steps + 2
  | pair _ first rest => max first.steps rest.steps + 2

/-- What stands behind the first element of a list template. -/
def rest? : Template → Option Template
  | splice _ _ rest => some rest
  | pair _ _ rest => some rest
  | _ => none

/-- The template inside that is filled in first, and the level at which this is done. -/
def inner? : Template → Nat → Option (Template × Nat)
  | atom _, _ => none
  | unquote _ inner, level => if level = 1 then none else some (inner, level - 1)
  | quasiquote _ inner, level => some (inner, level + 1)
  | splice _ inner _, level => if level = 1 then none else some (inner, level - 1)
  | pair _ first _, level => some (first, level)

/-- What has a template inside. -/
theorem cases_of_inner? {template inner : Template} {level level' : Nat}
    (h : template.inner? level = some (inner, level')) :
    (∃ ref, template = unquote ref inner) ∨ (∃ ref, template = quasiquote ref inner) ∨
      (∃ ref rest, template = splice ref inner rest) ∨
      ∃ ref rest, template = pair ref inner rest := by
  cases template with
  | atom value => cases h
  | unquote ref other =>
      by_cases hlevel : level = 1
      · rw [inner?, if_pos hlevel] at h
        cases h
      · rw [inner?, if_neg hlevel] at h
        cases h
        exact .inl ⟨ref, rfl⟩
  | quasiquote ref other =>
      cases h
      exact .inr (.inl ⟨ref, rfl⟩)
  | splice ref other rest =>
      by_cases hlevel : level = 1
      · rw [inner?, if_pos hlevel] at h
        cases h
      · rw [inner?, if_neg hlevel] at h
        cases h
        exact .inr (.inr (.inl ⟨ref, rest, rfl⟩))
  | pair ref first rest =>
      cases h
      exact .inr (.inr (.inr ⟨ref, rest, rfl⟩))

/-- What has a remainder behind its first element. -/
theorem cases_of_rest? {template rest : Template} (h : template.rest? = some rest) :
    (∃ ref inner, template = splice ref inner rest) ∨
      ∃ ref first, template = pair ref first rest := by
  cases template with
  | splice ref inner other =>
      cases h
      exact .inl ⟨ref, inner, rfl⟩
  | pair ref first other =>
      cases h
      exact .inr ⟨ref, first, rfl⟩
  | _ => cases h

theorem isMark_of_rest? {template rest : Template} (h : template.rest? = some rest) :
    template.isMark = false := by
  obtain ⟨ref, inner, rfl⟩ | ⟨ref, first, rfl⟩ := cases_of_rest? h <;> rfl

theorem exists_ref_of_rest? {template rest : Template} (h : template.rest? = some rest) :
    ∃ ref, template.value = .pair ref := by
  obtain ⟨ref, inner, rfl⟩ | ⟨ref, first, rfl⟩ := cases_of_rest? h <;> exact ⟨ref, rfl⟩

theorem steps_of_inner? {template inner : Template} {level level' : Nat}
    (h : template.inner? level = some (inner, level')) : inner.steps + 2 ≤ template.steps := by
  obtain ⟨ref, rfl⟩ | ⟨ref, rfl⟩ | ⟨ref, rest, rfl⟩ | ⟨ref, rest, rfl⟩ := cases_of_inner? h <;>
    simp only [steps] <;> omega

theorem steps_of_isMark {template inner : Template} {level level' : Nat}
    (h : template.inner? level = some (inner, level')) (hmark : template.isMark = true) :
    inner.steps + 3 ≤ template.steps := by
  obtain ⟨ref, rfl⟩ | ⟨ref, rfl⟩ | ⟨ref, rest, rfl⟩ | ⟨ref, rest, rfl⟩ := cases_of_inner? h
  · exact Nat.le_refl _
  · exact Nat.le_refl _
  · cases hmark
  · cases hmark

theorem three_le_steps {template : Template} (hmark : template.isMark = true) :
    3 ≤ template.steps := by
  cases template with
  | unquote ref inner => exact Nat.le_add_left 3 inner.steps
  | quasiquote ref inner => exact Nat.le_add_left 3 inner.steps
  | _ => cases hmark

theorem steps_of_rest? {template rest : Template} (h : template.rest? = some rest) :
    rest.steps + 2 ≤ template.steps := by
  obtain ⟨ref, inner, rfl⟩ | ⟨ref, first, rfl⟩ := cases_of_rest? h <;>
    simp only [steps] <;> omega

section

variable {store : Store} {template inner rest : Template}

theorem Stands.of_inner? {level level' : Nat} (h : template.Stands store)
    (hinner : template.inner? level = some (inner, level')) : inner.Stands store := by
  obtain ⟨ref, rfl⟩ | ⟨ref, rfl⟩ | ⟨ref, rest, rfl⟩ | ⟨ref, rest, rfl⟩ := cases_of_inner? hinner
  · exact h.2
  · exact h.2
  · exact h.2.1
  · exact h.2.2.2.1

theorem Stands.of_rest? (h : template.Stands store) (hrest : template.rest? = some rest) :
    rest.Stands store := by
  obtain ⟨ref, inner, rfl⟩ | ⟨ref, first, rfl⟩ := cases_of_rest? hrest
  · exact h.2.2
  · exact h.2.2.2.2

/-- Evaluation finds what stands behind the first element of a list template. -/
theorem Stands.cdr_of_rest? {ref : CellRef} (h : template.Stands store)
    (hvalue : template.value = .pair ref) (hrest : template.rest? = some rest) :
    store.cdr ref = rest.value := by
  obtain ⟨place, inner, rfl⟩ | ⟨place, first, rfl⟩ := cases_of_rest? hrest
  · obtain rfl : place = ref := Value.pair.inj hvalue
    obtain ⟨⟨mark, hcell, -⟩, -⟩ := h
    exact Store.cdr_eq hcell
  · obtain rfl : place = ref := Value.pair.inj hvalue
    exact Store.cdr_eq h.1

end

/-- What holds of a template if it holds of the templates inside and behind its first element holds
of all templates. -/
theorem induction_parts {P : Template → Prop}
    (h : ∀ template, (∀ {level inner level'}, template.inner? level = some (inner, level') →
        P inner) → (∀ {rest}, template.rest? = some rest → P rest) → P template)
    (template : Template) : P template := by
  induction hsteps : template.steps using Nat.strongRecOn generalizing template with
  | ind n ih =>
  refine h template (fun hinner => ih _ ?_ _ rfl) fun hrest => ih _ ?_ _ rfl
  · have hless := steps_of_inner? hinner
    omega
  · have hless := steps_of_rest? hrest
    omega

/-- The form that is evaluated first, if it is not inside of another template. -/
def evaluated? : Template → Nat → Option Value
  | unquote _ inner, level => if level = 1 then some inner.value else none
  | splice _ inner _, level => if level = 1 then some inner.value else none
  | _, _ => none

/-! ### The recursive definition -/

section

variable (session : Session) (evaluate : Value → EvalM Value)

/-- The template under `level` quasiquotes, filled in by recursion over its parts. -/
def filled : Template → Nat → EvalM Value
  | atom value, _ => pure value
  | unquote _ inner, level =>
      if level = 1 then evaluate inner.value
      else do
        let filling ← inner.filled (level - 1)
        update (·.list session.arena [.symbol .unquote, filling])
  | quasiquote _ inner, level => do
      let filling ← inner.filled (level + 1)
      update (·.list session.arena [.symbol .quasiquote, filling])
  | splice _ inner rest, level =>
      if level = 1 then do
        let spliced ← evaluate inner.value
        match ← inspect (·.elements spliced) with
        | .ok items =>
            let tail ← rest.filled level
            update (·.listWithTail session.arena items tail)
        | .error _ => fail (.type (.notSpliceable (← printed spliced)))
      else do
        let filling ← inner.filled (level - 1)
        let kept ← update (·.list session.arena [.symbol .unquoteSplicing, filling])
        let tail ← rest.filled level
        update (·.cons session.arena kept tail)
  | pair _ first rest, level => do
      let filling ← first.filled level
      let tail ← rest.filled level
      update (·.cons session.arena filling tail)

/-- The items that the first element of a list template gives. -/
def items : Template → Nat → EvalM (List Value)
  | splice _ inner _, level =>
      if level = 1 then do
        let spliced ← evaluate inner.value
        match ← inspect (·.elements spliced) with
        | .ok items => pure items
        | .error _ => fail (.type (.notSpliceable (← printed spliced)))
      else do
        let filling ← inner.filled session evaluate (level - 1)
        return [← update (·.list session.arena [.symbol .unquoteSplicing, filling])]
  | pair _ first _, level => return [← first.filled session evaluate level]
  | _, _ => pure []

/-- A list template is filled in element by element. -/
theorem filled_of_rest? {template rest : Template} (h : template.rest? = some rest) (level : Nat) :
    template.filled session evaluate level = (do
      let items ← template.items session evaluate level
      let tail ← rest.filled session evaluate level
      update (·.listWithTail session.arena items tail)) := by
  cases template with
  | splice ref inner other =>
      obtain rfl : other = rest := Option.some.inj h
      by_cases hlevel : level = 1
      · simp only [filled, items, if_pos hlevel, bind_assoc]
        congr 1
        funext spliced
        congr 1
        funext found
        cases found with
        | ok items => rfl
        | error fault => rfl
      · simp only [filled, items, if_neg hlevel, bind_assoc, pure_bind]
        rfl
  | pair ref first other =>
      obtain rfl : other = rest := Option.some.inj h
      simp only [filled, items, bind_assoc, pure_bind]
      rfl
  | _ => cases h

end

/-! ### In the course of filling in -/

/-- Where a part of a template is found: as an element or under a mark, as the remainder of a list
of which nothing has been made yet, or as the remainder behind some items. -/
inductive Place where
  | whole
  | bare
  | behind
  deriving DecidableEq

/-- The place of a remainder behind these items of an element in front of it. -/
def Place.next (place : Place) (items : List Value) : Place :=
  if items = [] ∧ place ≠ .behind then .bare else .behind

section

variable (session : Session) (evaluate : Value → EvalM Value)

/-- When a template is filled in by recursion, beginning at some place, level and machine, the
recursion comes to a part of it at some place, level and machine. -/
inductive Meets : Place → Template → Nat → Machine → Place → Template → Nat → Machine → Prop
  | self (place : Place) (template : Template) (level : Nat) (machine : Machine) :
      Meets place template level machine place template level machine
  | inner {place place' : Place} {template inner part : Template} {level level' level'' : Nat}
      {machine machine' : Machine} :
      template.inner? level = some (inner, level') →
      Meets .whole inner level' machine place' part level'' machine' →
      Meets place template level machine place' part level'' machine'
  | rest {place place' : Place} {template rest part : Template} {level level' : Nat}
      {machine after machine' : Machine} {items : List Value} :
      template.rest? = some rest →
      (template.items session evaluate level).outcome [] machine = (.ok items, after) →
      Meets (place.next items) rest level after place' part level' machine' →
      Meets place template level machine place' part level' machine'

/-- Nothing comes in the way of the recursion: the evaluations made in its course leave the whole
template `root` as it is, and no remainder of a list is marked as long as nothing has been made of
the list. -/
structure Untroubled (root : Template) (place : Place) (template : Template) (level : Nat)
    (machine : Machine) : Prop where
  undisturbed {place' : Place} {part : Template} {level' : Nat} {machine' after : Machine}
      {form result : Value} :
    Meets session evaluate place template level machine place' part level' machine' →
    part.evaluated? level' = some form →
    (evaluate form).outcome [] machine' = (.ok result, after) →
    root.Stands machine'.store → root.Stands after.store
  noticed {part : Template} {level' : Nat} {machine' : Machine} :
    Meets session evaluate place template level machine .bare part level' machine' →
    part.isMark = false

variable {session evaluate} {root template : Template} {place : Place} {level : Nat}
  {machine : Machine}

theorem Untroubled.inner (h : Untroubled session evaluate root place template level machine)
    {inner : Template} {level' : Nat} (hinner : template.inner? level = some (inner, level')) :
    Untroubled session evaluate root .whole inner level' machine where
  undisturbed hmeets := h.undisturbed (.inner hinner hmeets)
  noticed hmeets := h.noticed (.inner hinner hmeets)

theorem Untroubled.rest (h : Untroubled session evaluate root place template level machine)
    {rest : Template} (hrest : template.rest? = some rest) {items : List Value} {after : Machine}
    (hout : (template.items session evaluate level).outcome [] machine = (.ok items, after)) :
    Untroubled session evaluate root (place.next items) rest level after where
  undisturbed hmeets := h.undisturbed (.rest hrest hout hmeets)
  noticed hmeets := h.noticed (.rest hrest hout hmeets)

/-- The template stands after an update that makes a list. -/
theorem Stands.of_outcome {arena : Nat} {made : List Value} {tail result : Value} {after : Machine}
    (h : root.Stands machine.store)
    (hout : (update (·.listWithTail arena made tail)).outcome [] machine = (.ok result, after)) :
    root.Stands after.store := by
  rw [outcome_update] at hout
  obtain ⟨-, rfl⟩ := Prod.mk.inj hout
  exact h.listWithTail arena made tail

/-- The template stands after its first element has been filled in, if it does after the template
inside of that has. -/
theorem Untroubled.stands_items (h : Untroubled session evaluate root place template level machine)
    (hstands : root.Stands machine.store)
    (hinner : ∀ inner level' result after, template.inner? level = some (inner, level') →
      (inner.filled session evaluate level').outcome [] machine = (.ok result, after) →
      root.Stands after.store) {items : List Value} {after : Machine}
    (hout : (template.items session evaluate level).outcome [] machine = (.ok items, after)) :
    root.Stands after.store := by
  cases template with
  | splice ref inner rest =>
      rw [Template.items] at hout
      split at hout
      · next hlevel =>
          obtain ⟨spliced, middle, hfirst, hlast⟩ := exists_of_outcome_bind hout
          have hmiddle := h.undisturbed (.self ..) (if_pos hlevel) hfirst hstands
          rw [outcome_bind_ok (outcome_inspect _ _ _)] at hlast
          split at hlast
          · obtain ⟨-, rfl⟩ := Prod.mk.inj hlast
            exact hmiddle
          · cases hlast
      · next hlevel =>
          obtain ⟨filling, middle, hfilled, hlast⟩ := exists_of_outcome_bind hout
          obtain ⟨kept, last, hkept, hpure⟩ := exists_of_outcome_bind hlast
          obtain ⟨-, rfl⟩ := Prod.mk.inj hpure
          exact .of_outcome (hinner _ _ _ _ (if_neg hlevel) hfilled) hkept
  | pair ref first rest =>
      obtain ⟨filling, middle, hfilled, hpure⟩ := exists_of_outcome_bind hout
      obtain ⟨-, rfl⟩ := Prod.mk.inj hpure
      exact hinner _ _ _ _ rfl hfilled
  | _ =>
      obtain ⟨-, rfl⟩ := Prod.mk.inj hout
      exact hstands

/-- **Nothing else disturbs the template.** It stands after a part of it has been filled in, as it
stood before. -/
theorem Untroubled.stands_filled
    (h : Untroubled session evaluate root place template level machine)
    (hstands : root.Stands machine.store) {result : Value} {after : Machine}
    (hout : (template.filled session evaluate level).outcome [] machine = (.ok result, after)) :
    root.Stands after.store := by
  induction template using induction_parts generalizing place level machine result after with
  | _ template ihinner ihrest =>
  cases hrest : template.rest? with
  | some rest =>
      rw [filled_of_rest? session evaluate hrest] at hout
      obtain ⟨items, middle, hfirst, hlast⟩ := exists_of_outcome_bind hout
      obtain ⟨tail, last, htail, hlast⟩ := exists_of_outcome_bind hlast
      have hmiddle := h.stands_items hstands
        (fun _ _ _ _ hinner => ihinner hinner (h.inner hinner) hstands) hfirst
      exact .of_outcome (ihrest hrest (h.rest hrest hfirst) hmiddle htail) hlast
  | none =>
  cases template with
  | atom value =>
      obtain ⟨-, rfl⟩ := Prod.mk.inj hout
      exact hstands
  | unquote ref inner =>
      rw [filled] at hout
      split at hout
      · next hlevel => exact h.undisturbed (.self ..) (if_pos hlevel) hout hstands
      · next hlevel =>
          obtain ⟨filling, middle, hfilled, hlast⟩ := exists_of_outcome_bind hout
          have hinner : (unquote ref inner).inner? level = some (inner, level - 1) :=
            if_neg hlevel
          exact .of_outcome (ihinner hinner (h.inner hinner) hstands hfilled) hlast
  | quasiquote ref inner =>
      obtain ⟨filling, middle, hfilled, hlast⟩ := exists_of_outcome_bind hout
      have hinner : (quasiquote ref inner).inner? level = some (inner, level + 1) := rfl
      exact .of_outcome (ihinner hinner (h.inner hinner) hstands hfilled) hlast
  | splice ref inner rest => cases hrest
  | pair ref first rest => cases hrest

end

end Template

/-! ### Steps of the loop -/

namespace Eval

open EvalM

section

variable {session : Session} {perform : Task → EvalM Value} {made : List Value} {level : Nat}
  {scope : FrameRef} {machine : Machine} {held : List Hold}

theorem outcome_fill_of_not_isPair {value : Value} (hvalue : value.isPair = false) :
    (fill session perform value level scope).outcome held machine = (.ok value, machine) := by
  unfold fill
  rw [outcome_bind_ok (outcome_inspect _ _ _), Store.marked?_of_not_isPair hvalue,
    outcome_bind_ok (outcome_inspect _ _ _), Store.marked?_of_not_isPair hvalue]
  cases value with
  | pair ref => cases hvalue
  | _ => rfl

/-- A list is filled in by the loop, before which nothing has been made. -/
theorem outcome_fill_pair {ref : CellRef} (hmarked : machine.store.isMarked (.pair ref) = false) :
    (fill session perform (.pair ref) level scope).outcome held machine =
      (perform (.fillRest [] (.pair ref) level scope)).outcome held machine := by
  obtain ⟨hunquote, hquasiquote⟩ := Store.isMarked_eq_false_iff.1 hmarked
  unfold fill
  rw [outcome_bind_ok (outcome_inspect _ _ _), hunquote, outcome_bind_ok (outcome_inspect _ _ _),
    hquasiquote]

theorem outcome_fillRest_of_not_isPair {rest : Value} (hrest : rest.isPair = false) :
    (fillRest session perform made rest level scope).outcome held machine =
      (update (·.listWithTail session.arena made.reverse rest)).outcome held machine := by
  have hmarked : machine.store.isMarked rest = false :=
    Store.isMarked_eq_false_iff.2
      ⟨Store.marked?_of_not_isPair hrest _, Store.marked?_of_not_isPair hrest _⟩
  unfold fillRest
  rw [outcome_bind_ok (outcome_inspect _ _ _), hmarked]
  simp only [Bool.and_false, Bool.false_eq_true, if_false]
  cases rest with
  | pair ref => cases hrest
  | _ => rfl

variable (hperform : ∀ task, Unheld (fun _ => True) (perform task))
include hperform

/-- What is held is no matter to an element if it is none to the tasks. -/
theorem fillElement_unheld (element : Value) (level : Nat) (scope : FrameRef) :
    Unheld (fun _ => True) (fillElement session perform element level scope) :=
  (unheldLogic session).fillElement (p := fun _ => perform) (w := ()) hperform element level scope

/-- An unquoted form is evaluated under one quasiquote. -/
theorem outcome_fill_unquote {template form : Value} (hcensus : machine.census = none)
    (hmarked : machine.store.marked? .unquote template = some form) :
    (fill session perform template 1 scope).outcome held machine =
      (perform (.eval form scope)).outcome held machine := by
  unfold fill
  rw [outcome_bind_ok (outcome_inspect _ _ _), hmarked]
  simp only [if_true]
  rw [outcome_holding]
  exact (hperform _).outcome_eq hcensus _ _

/-- A marked remainder is filled in as such behind some items. -/
theorem outcome_fillRest_marked {rest : Value} (hcensus : machine.census = none)
    (hmade : made ≠ []) (hmarked : machine.store.isMarked rest = true) :
    (fillRest session perform made rest level scope).outcome held machine =
      (perform (.fill rest level scope) >>= fun tail =>
        update (·.listWithTail session.arena made.reverse tail)).outcome held machine := by
  unfold fillRest
  rw [outcome_bind_ok (outcome_inspect _ _ _), hmarked]
  simp only [ne_eq, hmade, not_false_eq_true, decide_true, Bool.and_self, if_true]
  refine outcome_bind_congr ?_ fun filling after _ => rfl
  rw [outcome_holding]
  exact (hperform _).outcome_eq hcensus _ _

/-- From any other pair the loop goes on with what follows, behind the items of the element. -/
theorem outcome_fillRest_pair {ref : CellRef} (hcensus : machine.census = none)
    (hmarked : made ≠ [] → machine.store.isMarked (.pair ref) = false) :
    (fillRest session perform made (.pair ref) level scope).outcome held machine =
      (fillElement session perform (machine.store.car ref) level scope >>= fun items =>
        inspect (·.cdr ref) >>= fun next =>
          perform (.fillRest (items.reverse ++ made) next level scope)).outcome held machine := by
  have hskipped : (made ≠ [] && machine.store.isMarked (.pair ref)) = false := by
    by_cases hmade : made = []
    · simp [hmade]
    · simp [hmarked hmade]
  rw [fillRest, outcome_bind_ok (outcome_inspect _ _ _), hskipped]
  simp only [Bool.false_eq_true, if_false]
  rw [outcome_bind_ok (outcome_inspect _ _ _)]
  refine outcome_bind_congr ?_ fun items after _ => rfl
  rw [outcome_holding]
  exact (fillElement_unheld hperform _ level scope).outcome_eq hcensus _ _

end

/-! ### The loop -/

/-- Carry out the filling in of templates with at most `fuel` steps nested in each other, and
everything else in some given way. -/
def filling (session : Session) (perform : Task → EvalM Value) : Nat → Task → EvalM Value
  | _, .eval form scope => perform (.eval form scope)
  | _, .apply callee args => perform (.apply callee args)
  | 0, .fill _ _ _ => throw .exhausted
  | 0, .fillRest _ _ _ _ => throw .exhausted
  | fuel + 1, .fill template level scope =>
      Eval.fill session (filling session perform fuel) template level scope
  | fuel + 1, .fillRest made rest level scope =>
      Eval.fillRest session (filling session perform fuel) made rest level scope

/-- Evaluate forms in a frame, in some given way. -/
def evaluator (perform : Task → EvalM Value) (scope : FrameRef) (form : Value) : EvalM Value :=
  perform (.eval form scope)

section

variable {session : Session} {perform : Task → EvalM Value}

@[simp] theorem filling_eval (fuel : Nat) (form : Value) (scope : FrameRef) :
    filling session perform fuel (.eval form scope) = perform (.eval form scope) := by
  cases fuel <;> rfl

/-- What is held is no matter to the filling in if it is none to the evaluations. -/
theorem filling_unheld (h : ∀ task, Unheld (fun _ => True) (perform task)) (fuel : Nat)
    (task : Task) : Unheld (fun _ => True) (filling session perform fuel task) := by
  induction fuel generalizing task with
  | zero =>
      cases task with
      | eval form scope => exact h _
      | apply callee args => exact h _
      | fill => exact fun _ _ _ hcensus => ⟨rfl, hcensus, fun _ _ => trivial⟩
      | fillRest => exact fun _ _ _ hcensus => ⟨rfl, hcensus, fun _ _ => trivial⟩
  | succ fuel ih =>
      have hstep : ∀ task, Unheld (fun _ => True)
          (step session (filling session perform fuel) task) := fun _ =>
        (unheldLogic session).step (p := fun _ => filling session perform fuel) (w := ())
          fun task' => ih task'
      cases task with
      | eval form scope => exact h _
      | apply callee args => exact h _
      | fill template level scope => exact hstep (.fill template level scope)
      | fillRest made rest level scope => exact hstep (.fillRest made rest level scope)

end

end Eval

namespace Template

open EvalM Eval

section

variable {session : Session} {evaluate : Value → EvalM Value}
  (hevaluate : ∀ form, Unheld (fun _ => True) (evaluate form))
include hevaluate

/-- What is held is no matter to an element if it is none to the template inside. -/
theorem items_unheld_of {template : Template} {level : Nat}
    (hinner : ∀ {inner level'}, template.inner? level = some (inner, level') →
      Unheld (fun _ => True) (inner.filled session evaluate level')) :
    Unheld (fun _ => True) (template.items session evaluate level) := by
  cases template with
  | splice ref inner rest =>
      rw [items]
      split
      · refine .bind (hevaluate _) fun spliced _ => ?_
        refine .bind (P := fun _ => True) (.inspect fun _ => trivial) fun found _ => ?_
        split
        · exact .pure trivial
        · exact .bind (P := fun _ => True) (.inspect fun _ => trivial) fun _ _ => .fail _
      · next hlevel =>
          exact .bind (hinner (if_neg hlevel)) fun _ _ => .bind (.update _) fun _ _ => .pure trivial
  | pair ref first rest => exact .bind (hinner rfl) fun _ _ => .pure trivial
  | _ => exact .pure trivial

/-- What is held is no matter to a template that is filled in by recursion, if it is none to the
evaluations. -/
theorem filled_unheld (template : Template) (level : Nat) :
    Unheld (fun _ => True) (template.filled session evaluate level) := by
  induction template using induction_parts generalizing level with
  | _ template ihinner ihrest =>
  cases hrest : template.rest? with
  | some rest =>
      rw [filled_of_rest? session evaluate hrest]
      refine .bind (items_unheld_of hevaluate fun hinner => ihinner hinner _) fun _ _ => ?_
      exact .bind (ihrest hrest _) fun _ _ => .update _
  | none =>
  cases template with
  | atom value => exact .pure trivial
  | unquote ref inner =>
      rw [filled]
      split
      · exact hevaluate _
      · next hlevel =>
          have hinner : (unquote ref inner).inner? level = some (inner, level - 1) :=
            if_neg hlevel
          exact .bind (ihinner hinner _) fun _ _ => .update _
  | quasiquote ref inner =>
      have hinner : (quasiquote ref inner).inner? level = some (inner, level + 1) := rfl
      exact .bind (ihinner hinner _) fun _ _ => .update _
  | splice ref inner rest => cases hrest
  | pair ref first rest => cases hrest

theorem items_unheld (template : Template) (level : Nat) :
    Unheld (fun _ => True) (template.items session evaluate level) :=
  items_unheld_of hevaluate fun _ => filled_unheld hevaluate _ _

end

/-! ### The loop computes the recursive definition -/

section

variable {session : Session} {perform : Task → EvalM Value} {scope : FrameRef}
  (hperform : ∀ task, Unheld (fun _ => True) (perform task))
  {root template : Template} {place : Place} {level fuel : Nat} {machine : Machine}
include hperform

/-- Without a census, holding something while a task is carried out makes no difference. -/
theorem outcome_filling (hcensus : machine.census = none) (task : Task) (held : List Hold) :
    (filling session perform fuel task).outcome held machine =
      (filling session perform fuel task).outcome [] machine :=
  (filling_unheld hperform fuel task).outcome_eq hcensus held []

/-- **An element.** It gives the same items if the template inside is filled in alike. -/
theorem outcome_fillElement {ref : CellRef} {rest : Template}
    (hstands : template.Stands machine.store) (hvalue : template.value = .pair ref)
    (hrest : template.rest? = some rest) (hcensus : machine.census = none)
    (hinner : ∀ {inner level'}, template.inner? level = some (inner, level') →
      (filling session perform fuel (.fill inner.value level' scope)).outcome [] machine =
        (inner.filled session (evaluator perform scope) level').outcome [] machine)
    (held : List Hold) :
    (fillElement session (filling session perform fuel) (machine.store.car ref) level
      scope).outcome held machine =
      (template.items session (evaluator perform scope) level).outcome [] machine := by
  cases template with
  | splice place inner other =>
      obtain rfl : place = ref := Value.pair.inj hvalue
      obtain ⟨⟨mark, hcell, hmark⟩, -⟩ := hstands
      have hcar : machine.store.car place = .pair mark := Store.car_eq hcell
      rw [fillElement, outcome_bind_ok (outcome_inspect _ _ _), hcar, hmark.marked?, items]
      by_cases hlevel : level = 1
      · simp only [if_pos hlevel]
        refine outcome_bind_congr ?_ fun spliced after _ => ?_
        · rw [outcome_holding, filling_eval]
          exact (hperform _).outcome_eq hcensus _ _
        · rw [outcome_bind_ok (outcome_inspect _ _ _), outcome_bind_ok (outcome_inspect _ _ _)]
          cases after.store.elements spliced <;> rfl
      · simp only [if_neg hlevel]
        refine outcome_bind_congr ?_ fun filling after _ => rfl
        rw [outcome_holding, outcome_filling hperform hcensus]
        exact hinner (if_neg hlevel)
  | pair place first other =>
      obtain rfl : place = ref := Value.pair.inj hvalue
      obtain ⟨hcell, -, hplain, -⟩ := hstands
      have hcar : machine.store.car place = first.value := Store.car_eq hcell
      rw [fillElement, outcome_bind_ok (outcome_inspect _ _ _), hcar, hplain, items]
      refine outcome_bind_congr ?_ fun filling after _ => rfl
      rw [outcome_filling hperform hcensus]
      exact hinner rfl
  | _ => cases hrest

/-- **The loop.** Behind what has been made, a list template gives its items and then what its
remainder gives. -/
theorem outcome_fillRest_of_rest? {ref : CellRef} {rest : Template} {made : List Value}
    (hstands : template.Stands machine.store) (hvalue : template.value = .pair ref)
    (hrest : template.rest? = some rest) (hcensus : machine.census = none)
    (hinner : ∀ {inner level'}, template.inner? level = some (inner, level') →
      (filling session perform fuel (.fill inner.value level' scope)).outcome [] machine =
        (inner.filled session (evaluator perform scope) level').outcome [] machine)
    (hbehind : ∀ {items after},
      (template.items session (evaluator perform scope) level).outcome [] machine =
        (.ok items, after) →
      template.Stands after.store ∧
      (filling session perform fuel (.fillRest (items.reverse ++ made) rest.value level
        scope)).outcome [] after =
        (rest.filled session (evaluator perform scope) level >>= fun tail =>
          update (·.listWithTail session.arena (items.reverse ++ made).reverse tail)).outcome []
            after) :
    (filling session perform (fuel + 1) (.fillRest made template.value level scope)).outcome []
      machine =
      (template.filled session (evaluator perform scope) level >>= fun tail =>
        update (·.listWithTail session.arena made.reverse tail)).outcome [] machine := by
  show (fillRest session (filling session perform fuel) made template.value level scope).outcome []
    machine = _
  have hmarked : machine.store.isMarked (.pair ref) = false := by
    rw [← hvalue, hstands.isMarked, isMark_of_rest? hrest]
  rw [hvalue, outcome_fillRest_pair (filling_unheld hperform fuel) hcensus fun _ => hmarked,
    filled_of_rest? session _ hrest, bind_assoc]
  refine outcome_bind_congr
    (outcome_fillElement hperform hstands hvalue hrest hcensus hinner _)
    fun items after hitems => ?_
  obtain ⟨hafter, hloop⟩ := hbehind hitems
  rw [outcome_bind_ok (outcome_inspect _ _ _), hafter.cdr_of_rest? hvalue hrest, hloop,
    bind_assoc]
  refine outcome_bind_congr rfl fun tail last _ => ?_
  rw [List.reverse_append, List.reverse_reverse]
  simp only [Store.listWithTail, List.foldr_append]
  rfl

/-- **A mark** is filled in alike if the template under it is. -/
theorem outcome_fill_of_isMark (hmark : template.isMark = true)
    (hstands : template.Stands machine.store) (hcensus : machine.census = none)
    (hinner : ∀ {inner level'}, template.inner? level = some (inner, level') →
      (filling session perform fuel (.fill inner.value level' scope)).outcome [] machine =
        (inner.filled session (evaluator perform scope) level').outcome [] machine) :
    (filling session perform (fuel + 1) (.fill template.value level scope)).outcome [] machine =
      (template.filled session (evaluator perform scope) level).outcome [] machine := by
  show (fill session (filling session perform fuel) template.value level scope).outcome []
    machine = _
  unfold fill
  rw [outcome_bind_ok (outcome_inspect _ _ _), hstands.marked?_unquote]
  cases template with
  | unquote ref inner =>
      rw [filled]
      by_cases hlevel : level = 1
      · simp only [unquoted?, if_pos hlevel]
        rw [outcome_holding, filling_eval]
        exact (hperform _).outcome_eq hcensus _ _
      · simp only [unquoted?, if_neg hlevel]
        refine outcome_bind_congr ?_ fun filling after _ => rfl
        rw [outcome_holding, outcome_filling hperform hcensus]
        exact hinner (if_neg hlevel)
  | quasiquote ref inner =>
      rw [filled]
      simp only [unquoted?]
      rw [outcome_bind_ok (outcome_inspect _ _ _), hstands.marked?_quasiquote]
      simp only [quasiquoted?]
      refine outcome_bind_congr ?_ fun filling after _ => rfl
      rw [outcome_holding, outcome_filling hperform hcensus]
      exact hinner rfl
  | _ => cases hmark

omit hperform in
/-- A list template is filled in by the loop, before which nothing has been made. -/
theorem outcome_fill_of_rest? {rest : Template} (hrest : template.rest? = some rest)
    (hstands : template.Stands machine.store) :
    (filling session perform (fuel + 1) (.fill template.value level scope)).outcome [] machine =
      (filling session perform fuel (.fillRest [] template.value level scope)).outcome []
        machine := by
  obtain ⟨ref, hvalue⟩ := exists_ref_of_rest? hrest
  rw [hvalue]
  refine outcome_fill_pair ?_
  rw [← hvalue, hstands.isMarked, isMark_of_rest? hrest]

/-- **A marked remainder** behind some items is filled in as a mark. -/
theorem outcome_fillRest_of_isMark {made : List Value} (hmade : made ≠ [])
    (hmark : template.isMark = true) (hstands : template.Stands machine.store)
    (hcensus : machine.census = none) :
    (filling session perform (fuel + 1) (.fillRest made template.value level scope)).outcome []
      machine =
      (filling session perform fuel (.fill template.value level scope) >>= fun tail =>
        update (·.listWithTail session.arena made.reverse tail)).outcome [] machine :=
  outcome_fillRest_marked (filling_unheld hperform fuel) hcensus hmade
    (hstands.isMarked.trans hmark)

variable (session perform scope) in
/-- The template is filled in as the recursion does it, and so is the remainder of a list behind
what has been made of the list, given enough steps. -/
structure FillsAlike (place : Place) (template : Template) (level : Nat) (machine : Machine) :
    Prop where
  fill {fuel : Nat} : (place = .behind → template.isMark = true) → template.steps < fuel →
    (filling session perform fuel (.fill template.value level scope)).outcome [] machine =
      (template.filled session (evaluator perform scope) level).outcome [] machine
  fillRest {fuel : Nat} {made : List Value} :
    (made = [] → place ≠ .behind ∧ template.isMark = false) → template.steps ≤ fuel →
    (filling session perform fuel (.fillRest made template.value level scope)).outcome [] machine =
      (template.filled session (evaluator perform scope) level >>= fun tail =>
        update (·.listWithTail session.arena made.reverse tail)).outcome [] machine

omit hperform in
theorem FillsAlike.atom {value : Value} (hvalue : value.isPair = false) :
    FillsAlike session perform scope place (.atom value) level machine where
  fill {fuel} _ hfuel := by
    obtain ⟨less, rfl⟩ : ∃ less, fuel = less + 1 := ⟨fuel - 1, by omega⟩
    exact outcome_fill_of_not_isPair hvalue
  fillRest {fuel made} _ hfuel := by
    obtain ⟨less, rfl⟩ : ∃ less, fuel = less + 1 := ⟨fuel - 1, by simp only [steps] at hfuel; omega⟩
    exact outcome_fillRest_of_not_isPair hvalue

theorem FillsAlike.of_isMark (hmark : template.isMark = true)
    (hstands : template.Stands machine.store) (hcensus : machine.census = none)
    (hinner : ∀ {inner level'}, template.inner? level = some (inner, level') →
      FillsAlike session perform scope .whole inner level' machine) :
    FillsAlike session perform scope place template level machine := by
  have hsteps := three_le_steps hmark
  have hfill : ∀ {fuel}, template.steps ≤ fuel + 2 →
      (filling session perform (fuel + 1) (.fill template.value level scope)).outcome [] machine =
        (template.filled session (evaluator perform scope) level).outcome [] machine := by
    intro fuel hfuel
    refine outcome_fill_of_isMark hperform hmark hstands hcensus fun heq => ?_
    have hless := steps_of_isMark heq hmark
    exact (hinner heq).fill (fun hplace => by cases hplace) (by omega)
  constructor
  · intro fuel _ hfuel
    obtain ⟨less, rfl⟩ : ∃ less, fuel = less + 1 := ⟨fuel - 1, by omega⟩
    exact hfill (by omega)
  · intro fuel made hmade hfuel
    obtain ⟨less, rfl⟩ : ∃ less, fuel = less + 2 := ⟨fuel - 2, by omega⟩
    have hsome : made ≠ [] := fun hnone => by
      rw [(hmade hnone).2] at hmark
      cases hmark
    rw [outcome_fillRest_of_isMark hperform hsome hmark hstands hcensus]
    exact outcome_bind_congr (hfill hfuel) fun _ _ _ => rfl

theorem FillsAlike.of_rest? {rest : Template} (hrest : template.rest? = some rest)
    (hstands : template.Stands machine.store) (hcensus : machine.census = none)
    (hinner : ∀ {inner level'}, template.inner? level = some (inner, level') →
      FillsAlike session perform scope .whole inner level' machine)
    (hbehind : ∀ {items after},
      (template.items session (evaluator perform scope) level).outcome [] machine =
        (.ok items, after) →
      template.Stands after.store ∧ (place.next items = .bare → rest.isMark = false) ∧
        FillsAlike session perform scope (place.next items) rest level after) :
    FillsAlike session perform scope place template level machine := by
  have hsteps := steps_of_rest? hrest
  have hloop : ∀ {fuel made}, (made = [] → place ≠ .behind) → template.steps ≤ fuel + 1 →
      (filling session perform (fuel + 1) (.fillRest made template.value level scope)).outcome []
        machine =
        (template.filled session (evaluator perform scope) level >>= fun tail =>
          update (·.listWithTail session.arena made.reverse tail)).outcome [] machine := by
    intro fuel made hmade hfuel
    obtain ⟨ref, hvalue⟩ := exists_ref_of_rest? hrest
    refine outcome_fillRest_of_rest? hperform hstands hvalue hrest hcensus (fun heq => ?_)
      fun {items after} hitems => ?_
    · have hless := steps_of_inner? heq
      exact (hinner heq).fill (fun hplace => by cases hplace) (by omega)
    · obtain ⟨hafter, hnoticed, hremainder⟩ := hbehind hitems
      refine ⟨hafter, hremainder.fillRest (fun hnone => ?_) (by omega)⟩
      -- nothing has been made yet only if neither this element nor those before gave an item
      obtain ⟨hitem, hbefore⟩ := List.append_eq_nil_iff.1 hnone
      have hbare : place.next items = .bare :=
        if_pos ⟨List.reverse_eq_nil_iff.1 hitem, hmade hbefore⟩
      exact ⟨by rw [hbare]; decide, hnoticed hbare⟩
  constructor
  · intro fuel hplace hfuel
    obtain ⟨less, rfl⟩ : ∃ less, fuel = less + 2 := ⟨fuel - 2, by omega⟩
    have hwhole : place ≠ .behind := fun heq => by
      have hmark := hplace heq
      rw [isMark_of_rest? hrest] at hmark
      cases hmark
    rw [outcome_fill_of_rest? hrest hstands, hloop (fun _ => hwhole) (by omega)]
    exact congrArg (fun program : EvalM Value => program.outcome [] machine) (bind_pure _)
  · intro fuel made hmade hfuel
    obtain ⟨less, rfl⟩ : ∃ less, fuel = less + 1 := ⟨fuel - 1, by omega⟩
    exact hloop (fun hnone => (hmade hnone).1) hfuel

/-- **The loop computes the recursive definition** if nothing comes in the way of the recursion. -/
theorem Untroubled.fillsAlike
    (h : Untroubled session (evaluator perform scope) root place template level machine)
    (hpart : ∀ store, root.Stands store → template.Stands store)
    (hroot : root.Stands machine.store) (hcensus : machine.census = none) :
    FillsAlike session perform scope place template level machine := by
  induction template using induction_parts generalizing place level machine with
  | _ template ihinner ihrest =>
  have hstands := hpart _ hroot
  have hinner : ∀ {inner level'}, template.inner? level = some (inner, level') →
      FillsAlike session perform scope .whole inner level' machine := fun heq =>
    ihinner heq (h.inner heq) (fun store hstore => (hpart store hstore).of_inner? heq) hroot
      hcensus
  cases hrest : template.rest? with
  | some rest =>
      refine .of_rest? hperform hrest hstands hcensus hinner fun {items after} hitems => ?_
      have hremainder := h.rest hrest hitems
      have hafter := h.stands_items hroot
        (fun _ _ _ _ heq => (h.inner heq).stands_filled hroot) hitems
      have hnone := (items_unheld (fun _ => hperform _) _ _).census_eq_none hcensus hitems
      refine ⟨hpart _ hafter, fun hbare => ?_, ihrest hrest hremainder
        (fun store hstore => (hpart store hstore).of_rest? hrest) hafter hnone⟩
      rw [hbare] at hremainder
      exact hremainder.noticed (.self ..)
  | none =>
  cases template with
  | atom value => exact .atom hstands
  | unquote ref inner => exact .of_isMark hperform rfl hstands hcensus hinner
  | quasiquote ref inner => exact .of_isMark hperform rfl hstands hcensus hinner
  | splice ref inner rest => cases hrest
  | pair ref first rest => cases hrest

/-- So a template is filled in as the recursion does it. -/
theorem Untroubled.outcome_filling_eq
    (h : Untroubled session (evaluator perform scope) template .whole template level machine)
    (hstands : template.Stands machine.store) (hcensus : machine.census = none)
    (held : List Hold) (hfuel : template.steps < fuel) :
    (filling session perform fuel (.fill template.value level scope)).outcome held machine =
      (template.filled session (evaluator perform scope) level).outcome held machine := by
  have hfills := h.fillsAlike hperform (fun _ => id) hstands hcensus
  rw [outcome_filling hperform hcensus, hfills.fill (fun hplace => by cases hplace) hfuel]
  exact (filled_unheld (fun _ => hperform _) template level).outcome_eq hcensus _ _

end

end Template

end SmallLisp
