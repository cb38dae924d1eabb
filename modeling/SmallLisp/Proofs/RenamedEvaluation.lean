import SmallLisp.Proofs.Renaming
import SmallLisp.Proofs.Running
import SmallLisp.Proofs.Start

/-!
# Evaluation does not depend on places

An evaluation is run on both stores of a renaming, in sessions that match, on forms that match. It
finds matching things in both and takes the same way to the same end: the values at the end match,
or the error is the same to the letter, and the stores are a renaming again. So where the forms of a
text were put, what else has been put in between, and which arena a session uses make no difference
to anyone.

Functions of the host take part if they do not look at places: given matching arguments, they answer
alike.

## Main results

* `Renames.invoke` — calls of linked lambdas are the same up to places if their bodies are.
* `Renames.step`, `Renames.run` — all tasks are carried out alike, with any bound on nested steps.
* `Session.Matches.evalText`, `Session.Matches.evalLine`, … — so is all that a host runs in a
  session.
-/

namespace SmallLisp

open List (Forall₂)

/-- A function that does not look at places: given matching arguments, it answers alike. As a
function of a host it is quiet already (`HostCode.Quiet`). -/
def HostFunction.IgnoresPlaces (function : HostFunction) : Prop :=
  ∀ (depth : Nat) (w : Renaming) (args args' : List Value), w.values args args' →
    EqualUpTo w.value (function.call depth w.left args) (function.call depth w.right args')

/-- The sessions are the same up to places, and their host functions do not look at places. -/
structure Session.Matches (w : Renaming) (session session' : Session) : Prop where
  globals : w.frame session.globals session'.globals
  origins : w.frames session.origins session'.origins
  natives : session.natives = session'.natives
  ignores : session.natives.Hosts HostFunction.IgnoresPlaces
  maxDepth : session.maxDepth = session'.maxDepth
  depth : session.depth = session'.depth

/-- The tasks are the same up to places. -/
inductive Task.Matches (w : Renaming) : Task → Task → Prop
  | eval {form form' : Value} {scope scope' : FrameRef} : w.value form form' →
      w.frame scope scope' → Matches w (.eval form scope) (.eval form' scope')
  | apply {callee callee' : Value} {args args' : List Value} : w.value callee callee' →
      w.values args args' → Matches w (.apply callee args) (.apply callee' args')
  | fill {template template' : Value} (level : Nat) {scope scope' : FrameRef} :
      w.value template template' → w.frame scope scope' →
      Matches w (.fill template level scope) (.fill template' level scope')
  | fillRest {made made' : List Value} {rest rest' : Value} (level : Nat)
      {scope scope' : FrameRef} : w.values made made' → w.value rest rest' →
      w.frame scope scope' →
      Matches w (.fillRest made rest level scope) (.fillRest made' rest' level scope')

theorem Renaming.values_dropLast {w : Renaming} {values values' : List Value}
    (h : w.values values values') : w.values values.dropLast values'.dropLast := by
  rw [List.dropLast_eq_take, List.dropLast_eq_take, h.length_eq]
  exact List.forall₂_take _ h

namespace Session.Matches

variable {w w' : Renaming} {session session' : Session} (h : session.Matches w session')
include h

theorem mono (hw : w.Extends w') : session.Matches w' session' :=
  { h with globals := hw.frame h.globals, origins := hw.frames h.origins }

theorem arena_lt : session.arena < w.left.arenas.size :=
  Renaming.lt_left h.globals

theorem arena_lt' : session'.arena < w.right.arenas.size :=
  Renaming.lt_right h.globals

end Session.Matches

namespace Eval

open EvalM

variable {α β γ δ : Type} {w : Renaming}

/-- Run on both stores of a renaming, the evaluations come to the same end up to places, and the
stores are a renaming again. Neither machine has a census, so nothing is released and it does not
matter what is held. -/
def Renames (w : Renaming) (post : Renaming → α → β → Prop) (f : EvalM α) (g : EvalM β) : Prop :=
  ∀ (depth : Nat) (held held' : List Hold), ∃ result result' w',
    f.outcome held ⟨w.left, none, depth⟩ = (result, ⟨w'.left, none, depth⟩) ∧
    g.outcome held' ⟨w.right, none, depth⟩ = (result', ⟨w'.right, none, depth⟩) ∧
    w.Leads w' ∧ EqualUpTo (post w') result result'

namespace Renames

section

variable {post : Renaming → α → β → Prop} {f : EvalM α} {g : EvalM β}

theorem pure {a : α} {b : β} (h : post w a b) : Renames w post (pure a) (pure b) :=
  fun _ _ _ => ⟨.ok a, .ok b, w, rfl, rfl, .refl w, .ok h⟩

theorem fail (cause : Error) : Renames w post (EvalM.fail cause) (EvalM.fail cause) :=
  fun _ _ _ => ⟨_, _, w, rfl, rfl, .refl w, .error _⟩

theorem exhausted : Renames w post (throw .exhausted) (throw .exhausted) :=
  fun _ _ _ => ⟨_, _, w, rfl, rfl, .refl w, .error _⟩

theorem inspect {view : Store → α} {view' : Store → β} (h : post w (view w.left) (view' w.right)) :
    Renames w post (EvalM.inspect view) (EvalM.inspect view') :=
  fun _ _ _ => ⟨_, _, w, rfl, rfl, .refl w, .ok h⟩

theorem update {change : Store → α × Store} {change' : Store → β × Store}
    (h : w.Changes (change w.left) (change' w.right) post) :
    Renames w post (EvalM.update change) (EvalM.update change') := by
  obtain ⟨w', hleft, hright, hw, hpost⟩ := h
  refine fun _ _ _ => ⟨_, _, w', ?_, ?_, hw, .ok hpost⟩
  · rw [outcome_update, hleft]
  · rw [outcome_update, hright]

theorem bind {P : Renaming → α → β → Prop} {post : Renaming → γ → δ → Prop} {k : α → EvalM γ}
    {l : β → EvalM δ} (h : Renames w P f g)
    (hk : ∀ w', w.Leads w' → ∀ a b, P w' a b → Renames w' post (k a) (l b)) :
    Renames w post (f >>= k) (g >>= l) := by
  intro depth held held'
  obtain ⟨result, result', w', hleft, hright, hw, hresult⟩ := h depth held held'
  cases hresult with
  | error halt =>
      exact ⟨_, _, w', outcome_bind_error hleft k, outcome_bind_error hright l, hw, .error halt⟩
  | @ok a b hP =>
      obtain ⟨final, final', w'', hleft', hright', hw', hfinal⟩ := hk w' hw a b hP depth held held'
      exact ⟨final, final', w'', (outcome_bind_ok hleft k).trans hleft',
        (outcome_bind_ok hright l).trans hright', hw.trans hw', hfinal⟩

/-- Looking at the stores changes neither. -/
theorem look {R : α → β → Prop} {post : Renaming → γ → δ → Prop} {view : Store → α}
    {view' : Store → β} {k : α → EvalM γ} {l : β → EvalM δ} (h : R (view w.left) (view' w.right))
    (hk : ∀ a b, R a b → Renames w post (k a) (l b)) :
    Renames w post (EvalM.inspect view >>= k) (EvalM.inspect view' >>= l) :=
  fun depth held held' => hk _ _ h depth held held'

theorem holding {values values' : List Value} (h : Renames w post f g) :
    Renames w post (EvalM.holding values f) (EvalM.holding values' g) :=
  fun depth _ _ => h depth _ _

theorem limited (limit : Nat) (h : Renames w post f g) :
    Renames w post (EvalM.limited limit f) (EvalM.limited limit g) := by
  intro depth held held'
  rcases Nat.lt_or_ge depth limit with hlimit | hlimit
  · obtain ⟨result, result', w', hleft, hright, hw, hresult⟩ := h (depth + 1) held held'
    exact ⟨result, result', w', (outcome_limited_of_lt hlimit hleft).trans rfl,
      (outcome_limited_of_lt hlimit hright).trans rfl, hw, hresult⟩
  · exact ⟨_, _, w, (outcome_limited ..).trans (if_pos hlimit),
      (outcome_limited ..).trans (if_pos hlimit), .refl w, .error _⟩

/-- Handing on an error instead of stopping. -/
theorem attempt (h : Renames w post f g) :
    Renames w (fun w' => EqualUpTo (post w')) (EvalM.attempt f) (EvalM.attempt g) := by
  intro depth held held'
  obtain ⟨result, result', w', hleft, hright, hw, hresult⟩ := h depth held held'
  rw [outcome_attempt, hleft, outcome_attempt, hright]
  cases hresult with
  | ok hpost => exact ⟨_, _, w', rfl, rfl, hw, .ok (.ok hpost)⟩
  | error halt =>
      cases halt with
      | error cause => exact ⟨_, _, w', rfl, rfl, hw, .ok (.error cause)⟩
      | exhausted => exact ⟨_, _, w', rfl, rfl, hw, .error _⟩

end

theorem within {frame frame' : FrameRef} {f g : EvalM Value}
    (h : Renames w Renaming.value f g) :
    Renames w Renaming.value (EvalM.within frame f) (EvalM.within frame' g) := by
  intro depth held held'
  obtain ⟨result, result', w', hleft, hright, hw, hresult⟩ :=
    h depth (.frames [frame] :: held) (.frames [frame'] :: held')
  refine ⟨result, result', w', ?_, ?_, hw, hresult⟩
  · rw [outcome_within, hleft, Machine.leave_of_none rfl]
  · rw [outcome_within, hright, Machine.leave_of_none rfl]

theorem applyHost {function : HostFunction} (hignores : function.IgnoresPlaces)
    {args args' : List Value} (hargs : w.values args args') :
    Renames w Renaming.value (Eval.applyHost function args) (Eval.applyHost function args') := by
  intro depth held held'
  have hanswer := hignores depth w args args' hargs
  rw [outcome_applyHost, outcome_applyHost]
  generalize function.call depth w.left args = answer at hanswer ⊢
  generalize function.call depth w.right args' = answer' at hanswer ⊢
  cases hanswer with
  | ok hvalue => exact ⟨_, _, w, rfl, rfl, .refl w, .ok hvalue⟩
  | error cause => exact ⟨_, _, w, rfl, rfl, .refl w, .error _⟩

/-! ### What the steps share -/

section

variable (post : Renaming → α → β → Prop)

theorem failPrinted {value value' : Value} (hvalue : w.value value value')
    (cause : String → Error) :
    Renames w post (printed value >>= fun text => EvalM.fail (cause text))
      (printed value' >>= fun text => EvalM.fail (cause text)) := by
  refine look (w.showAlike.print hvalue) ?_
  rintro text _ rfl
  exact fail _

/-- A message that shows two values. -/
theorem failPrintedBoth {first first' second second' : Value} (hfirst : w.value first first')
    (hsecond : w.value second second') (cause : String → String → Error) :
    Renames w post
      (printed first >>= fun text => printed second >>= fun text' => EvalM.fail (cause text text'))
      (printed first' >>= fun text => printed second' >>= fun text' =>
        EvalM.fail (cause text text')) := by
  refine look (w.showAlike.print hfirst) ?_
  rintro text _ rfl
  exact failPrinted post hsecond (cause text)

theorem failArity (who : String) (expected : Expected) {args args' : List Value}
    (hargs : w.values args args') :
    Renames w post (Eval.failArity who expected args) (Eval.failArity who expected args') := by
  rw [Eval.failArity, Eval.failArity, hargs.length_eq]
  exact fail _

end

theorem argumentForms {rest rest' : Value} (hrest : w.value rest rest') :
    Renames w Renaming.values (Eval.argumentForms rest) (Eval.argumentForms rest') := by
  refine look (w.showAlike.elements hrest) fun found found' hfound => ?_
  cases hfound with
  | ok hforms => exact pure hforms
  | circular => exact failPrinted _ hrest _
  | endsIn _ => exact failPrinted _ hrest _

theorem definedName (who : String) {form form' : Value} (hform : w.value form form') :
    Renames w (fun _ name name' => name = name') (Eval.definedName who form)
      (Eval.definedName who form') := by
  have hrefused := failPrinted (fun _ (name name' : Symbol) => name = name') hform
  cases hform with
  | symbol name => exact pure rfl
  | _ => exact hrefused _

theorem define {scope scope' : FrameRef} (hscope : w.frame scope scope') (name : Symbol)
    {value value' : Value} (hvalue : w.value value value') :
    Renames w Renaming.value
      (EvalM.update (fun store => ((), store.bind scope name value)) >>=
        fun _ => Pure.pure (.symbol name))
      (EvalM.update (fun store => ((), store.bind scope' name value')) >>=
        fun _ => Pure.pure (.symbol name)) :=
  bind (update (Renaming.bind hscope name hvalue).changes) fun _ _ _ _ _ => pure (.symbol name)

end Renames

/-- The further tasks of the two sessions are carried out alike. -/
def Alike (session session' : Session) (p p' : Task → EvalM Value) : Prop :=
  ∀ w, session.Matches w session' → ∀ task task', Task.Matches w task task' →
    Renames w Renaming.value (p task) (p' task')

namespace Renames

section

variable {session session' : Session} {p p' : Task → EvalM Value} (hp : Alike session session' p p')
  (hs : session.Matches w session')
include hp hs

/-! ### Bodies and calls -/

theorem evaluate {form form' : Value} {scope scope' : FrameRef} (hform : w.value form form')
    (hscope : w.frame scope scope') :
    Renames w Renaming.value (p (.eval form scope)) (p' (.eval form' scope')) :=
  hp w hs _ _ (.eval hform hscope)

theorem evalEach {scope scope' : FrameRef} (hscope : w.frame scope scope')
    {forms forms' : List Value} (hforms : w.values forms forms') :
    Renames w Renaming.values (Eval.evalEach p scope forms) (Eval.evalEach p' scope' forms') := by
  induction forms generalizing w forms' with
  | nil =>
      cases hforms
      rw [Eval.evalEach, Eval.evalEach]
      exact pure .nil
  | cons form rest ih =>
      cases hforms with
      | cons hform hrest =>
          rw [Eval.evalEach, Eval.evalEach]
          refine bind (evaluate hp hs hform hscope) fun w₁ hw₁ value value' hvalue => ?_
          refine bind (holding (ih (hs.mono hw₁.toExtends) (hw₁.frame hscope) (hw₁.values hrest)))
            fun w₂ hw₂ others others' hothers => ?_
          exact pure (.cons (hw₂.value hvalue) hothers)

theorem evalArguments {scope scope' : FrameRef} (hscope : w.frame scope scope')
    {rest rest' : Value} (hrest : w.value rest rest') :
    Renames w Renaming.values (Eval.evalArguments p rest scope)
      (Eval.evalArguments p' rest' scope') :=
  bind (argumentForms hrest) fun _ hw _ _ hforms =>
    holding (evalEach hp (hs.mono hw.toExtends) (hw.frame hscope) hforms)

theorem evalOn {scope scope' : FrameRef} (hscope : w.frame scope scope')
    {body body' : List Value} (hbody : w.values body body') {value value' : Value}
    (hvalue : w.value value value') :
    Renames w Renaming.value
      (body.foldlM (fun value form => EvalM.holding [value] (p (.eval form scope))) value)
      (body'.foldlM (fun value form => EvalM.holding [value] (p' (.eval form scope'))) value') := by
  induction body generalizing w body' value value' with
  | nil =>
      cases hbody
      exact pure hvalue
  | cons form rest ih =>
      cases hbody with
      | cons hform hrest =>
          rw [List.foldlM_cons, List.foldlM_cons]
          refine bind (holding (evaluate hp hs hform hscope)) fun w₁ hw₁ _ _ hnext => ?_
          exact ih (hs.mono hw₁.toExtends) (hw₁.frame hscope) (hw₁.values hrest) hnext

theorem evalBody {scope scope' : FrameRef} (hscope : w.frame scope scope')
    {body body' : List Value} (hbody : w.values body body') :
    Renames w Renaming.value (Eval.evalBody p body scope) (Eval.evalBody p' body' scope') :=
  evalOn hp hs hscope hbody .nil

/-- **Calls of linked lambdas** are the same up to places if their bodies are. -/
theorem invoke {ref ref' : LambdaRef} (href : w.lambda ref ref') (anonymous : String)
    {args args' : List Value} (hargs : w.values args args') :
    Renames w Renaming.value (Eval.invoke session p ref anonymous args)
      (Eval.invoke session' p' ref' anonymous args') := by
  have hcode := Renaming.lambdas_match href
  refine look (R := fun code code' => code = w.left.lambda ref ∧ code' = w.right.lambda ref')
    ⟨rfl, rfl⟩ ?_
  rintro _ _ ⟨rfl, rfl⟩
  rw [← hcode.name, ← hcode.params, ← hargs.length_eq]
  refine bind (update (Renaming.extend hs.arena_lt hs.arena_lt' hcode.scope))
    fun w₁ hw₁ frame frame' hframe => ?_
  have hs₁ := hs.mono hw₁.toExtends
  split
  · exact fail _
  · refine bind (update (Renaming.bindArgs hs₁.arena_lt hs₁.arena_lt' hframe _
      (hw₁.values hargs)).changes) fun w₂ hw₂ _ _ _ => ?_
    exact within (evalBody hp (hs₁.mono hw₂.toExtends) (hw₂.frame hframe)
      ((hw₁.trans hw₂).values hcode.body))

/-! ### Special forms -/

omit hp in
theorem makeLambda (name : Option Symbol) {spec spec' : Value} (hspec : w.value spec spec')
    {body body' : List Value} (hbody : w.values body body') {scope scope' : FrameRef}
    (hscope : w.frame scope scope') :
    Renames w Renaming.lambda (Eval.makeLambda session name spec body scope)
      (Eval.makeLambda session' name spec' body' scope') := by
  refine look (w.showAlike.params hspec) ?_
  rintro params _ rfl
  cases params with
  | ok params =>
      exact update (Renaming.addLambda hs.arena_lt hs.arena_lt' ⟨rfl, rfl, hbody, hscope⟩)
  | error fault => exact fail _

omit hp in
theorem defineLambda (who : String) {wrap : LambdaRef → Value}
    (hwrap : ∀ w : Renaming, ∀ ref ref', w.lambda ref ref' → w.value (wrap ref) (wrap ref'))
    {args args' : List Value} (hargs : w.values args args') {scope scope' : FrameRef}
    (hscope : w.frame scope scope') :
    Renames w Renaming.value (Eval.defineLambda session who wrap args scope)
      (Eval.defineLambda session' who wrap args' scope') := by
  unfold Eval.defineLambda
  rcases hargs with _ | ⟨hname, _ | ⟨hspec, _ | ⟨hfirst, hothers⟩⟩⟩
  · exact failArity _ who _ .nil
  · exact failArity _ who _ (.cons hname .nil)
  · exact failArity _ who _ (.cons hname (.cons hspec .nil))
  · refine bind (definedName who hname) ?_
    rintro w₁ hw₁ name _ rfl
    refine bind (makeLambda (hs.mono hw₁.toExtends) (some name) (hw₁.value hspec)
      (hw₁.values (.cons hfirst hothers)) (hw₁.frame hscope)) fun w₂ hw₂ ref ref' href => ?_
    exact define (hw₂.frame (hw₁.frame hscope)) name (hwrap w₂ ref ref' href)

theorem evalSpecial (special : SpecialForm) {args args' : List Value} (hargs : w.values args args')
    {scope scope' : FrameRef} (hscope : w.frame scope scope') :
    Renames w Renaming.value (Eval.evalSpecial session p special args scope)
      (Eval.evalSpecial session' p' special args' scope') := by
  cases special with
  | quote =>
      rcases hargs with _ | ⟨hform, _ | ⟨hsecond, hothers⟩⟩
      · exact failArity _ _ _ .nil
      · exact pure hform
      · exact failArity _ _ _ (.cons hform (.cons hsecond hothers))
  | quasiquote =>
      rcases hargs with _ | ⟨htemplate, _ | ⟨hsecond, hothers⟩⟩
      · exact failArity _ _ _ .nil
      · exact hp w hs _ _ (.fill 1 htemplate hscope)
      · exact failArity _ _ _ (.cons htemplate (.cons hsecond hothers))
  | unquote => exact fail _
  | unquoteSplicing => exact fail _
  | define =>
      rcases hargs with _ | ⟨hname, _ | ⟨hform, _ | ⟨hthird, hothers⟩⟩⟩
      · exact failArity _ _ _ .nil
      · exact failArity _ _ _ (.cons hname .nil)
      · refine bind (definedName "def" hname) ?_
        rintro w₁ hw₁ name _ rfl
        refine bind (evaluate hp (hs.mono hw₁.toExtends) (hw₁.value hform) (hw₁.frame hscope))
          fun w₂ hw₂ value value' hvalue => ?_
        exact define (hw₂.frame (hw₁.frame hscope)) name hvalue
      · exact failArity _ _ _ (.cons hname (.cons hform (.cons hthird hothers)))
  | defineFunction => exact defineLambda hs "defun" (fun _ _ _ => .closure) hargs hscope
  | defineExpander => exact defineLambda hs "defmacro" (fun _ _ _ => .expander) hargs hscope
  | lambda =>
      rcases hargs with _ | ⟨hspec, _ | ⟨hfirst, hothers⟩⟩
      · exact failArity _ _ _ .nil
      · exact failArity _ _ _ (.cons hspec .nil)
      · exact bind (makeLambda hs none hspec (.cons hfirst hothers) hscope)
          fun _ _ _ _ href => pure (.closure href)
  | conditional =>
      rcases hargs with _ | ⟨htest, _ | ⟨hthen, _ | ⟨helse, _ | ⟨hfourth, hothers⟩⟩⟩⟩
      · exact failArity _ _ _ .nil
      · exact failArity _ _ _ (.cons htest .nil)
      · refine bind (evaluate hp hs htest hscope) fun w₁ hw₁ value value' hvalue => ?_
        rw [← hvalue.isTruthy_eq]
        split
        · exact evaluate hp (hs.mono hw₁.toExtends) (hw₁.value hthen) (hw₁.frame hscope)
        · exact pure .nil
      · refine bind (evaluate hp hs htest hscope) fun w₁ hw₁ value value' hvalue => ?_
        have hs₁ := hs.mono hw₁.toExtends
        rw [← hvalue.isTruthy_eq]
        split
        · exact evaluate hp hs₁ (hw₁.value hthen) (hw₁.frame hscope)
        · exact evaluate hp hs₁ (hw₁.value helse) (hw₁.frame hscope)
      · exact failArity _ _ _ (.cons htest (.cons hthen (.cons helse (.cons hfourth hothers))))
  | progn => exact evalBody hp hs hscope hargs

/-! ### Templates -/

omit hp in
theorem listWithTail {items items' : List Value} (hitems : w.values items items')
    {tail tail' : Value} (htail : w.value tail tail') :
    Renames w Renaming.value (EvalM.update (·.listWithTail session.arena items tail))
      (EvalM.update (·.listWithTail session'.arena items' tail')) :=
  update (Renaming.listWithTail hs.arena_lt hs.arena_lt' hitems htail)

omit hp in
theorem keepMark (head : Symbol) {inner inner' : Value} (hinner : w.value inner inner') :
    Renames w Renaming.value (Eval.keepMark session head inner)
      (Eval.keepMark session' head inner') :=
  listWithTail hs (.cons (.symbol head) (.cons hinner .nil)) .nil

theorem fill {template template' : Value} (htemplate : w.value template template') (level : Nat)
    {scope scope' : FrameRef} (hscope : w.frame scope scope') :
    Renames w Renaming.value (Eval.fill session p template level scope)
      (Eval.fill session' p' template' level scope') := by
  have hfilled : ∀ (head : Symbol) (level : Nat) {inner inner' : Value},
      w.value inner inner' → Renames w Renaming.value
        (EvalM.holding [inner] (p (.fill inner level scope)) >>= Eval.keepMark session head)
        (EvalM.holding [inner'] (p' (.fill inner' level scope')) >>= Eval.keepMark session' head) :=
    fun head level inner inner' hinner => bind (holding (hp w hs _ _ (.fill level hinner hscope)))
      fun w₁ hw₁ _ _ hvalue => keepMark (hs.mono hw₁.toExtends) head hvalue
  refine look (w.showAlike.marked? .unquote htemplate) fun found found' hfound => ?_
  cases hfound with
  | some hinner =>
      dsimp only
      split
      · exact holding (evaluate hp hs hinner hscope)
      · exact hfilled _ _ hinner
  | none =>
      refine look (w.showAlike.marked? .quasiquote htemplate) fun found found' hfound => ?_
      cases hfound with
      | some hinner => exact hfilled _ _ hinner
      | none =>
          have hitself : Renames w Renaming.value (Pure.pure template) (Pure.pure template') :=
            pure htemplate
          cases htemplate with
          | pair href => exact hp w hs _ _ (.fillRest level .nil (.pair href) hscope)
          | _ => exact hitself

theorem fillElement {element element' : Value} (helement : w.value element element') (level : Nat)
    {scope scope' : FrameRef} (hscope : w.frame scope scope') :
    Renames w Renaming.values (Eval.fillElement session p element level scope)
      (Eval.fillElement session' p' element' level scope') := by
  refine look (w.showAlike.marked? .unquoteSplicing helement) fun found found' hfound => ?_
  cases hfound with
  | some hinner =>
      dsimp only
      split
      · refine bind (holding (evaluate hp hs hinner hscope)) fun w₁ _ _ _ hspliced => ?_
        refine look (w₁.showAlike.elements hspliced) fun found found' hfound => ?_
        cases hfound with
        | ok hitems => exact pure hitems
        | circular => exact failPrinted _ hspliced _
        | endsIn _ => exact failPrinted _ hspliced _
      · refine bind (holding (hp w hs _ _ (.fill (level - 1) hinner hscope)))
          fun w₁ hw₁ _ _ hfilled => ?_
        exact bind (keepMark (hs.mono hw₁.toExtends) .unquoteSplicing hfilled)
          fun _ _ _ _ hkept => pure (.cons hkept .nil)
  | none =>
      exact bind (hp w hs _ _ (.fill level helement hscope)) fun _ _ _ _ hvalue =>
        pure (.cons hvalue .nil)

theorem fillRest {made made' : List Value} (hmade : w.values made made') {rest rest' : Value}
    (hrest : w.value rest rest') (level : Nat) {scope scope' : FrameRef}
    (hscope : w.frame scope scope') :
    Renames w Renaming.value (Eval.fillRest session p made rest level scope)
      (Eval.fillRest session' p' made' rest' level scope') := by
  have hnil : made ≠ [] ↔ made' ≠ [] := by cases hmade <;> simp
  have hreverse : w.values made.reverse made'.reverse := List.rel_reverse hmade
  have hend := listWithTail hs hreverse hrest
  refine look (w.showAlike.isMarked hrest) ?_
  rintro marked _ rfl
  simp only [hnil]
  split
  · refine bind (holding (hp w hs _ _ (.fill level hrest hscope))) fun w₁ hw₁ _ _ htail => ?_
    exact listWithTail (hs.mono hw₁.toExtends) (hw₁.values hreverse) htail
  · cases hrest with
    | pair href =>
        refine look (w.showAlike.car href) fun element element' helement => ?_
        refine bind (holding (fillElement hp hs helement level hscope))
          fun w₁ hw₁ items items' hitems => ?_
        refine look (w₁.showAlike.cdr (hw₁.link href)) fun next next' hnext => ?_
        exact hp w₁ (hs.mono hw₁.toExtends) _ _ (.fillRest level
          (List.rel_append (List.rel_reverse hitems) (hw₁.values hmade)) hnext (hw₁.frame hscope))
    | _ => exact hend

/-! ### Native functions -/

omit hp hs in
theorem integerArgument (who : Primitive) {arg arg' : Value} (harg : w.value arg arg') :
    Renames w (fun _ n n' => n = n') (Eval.integerArgument who arg)
      (Eval.integerArgument who arg') := by
  have hrefused := failPrinted (fun _ (n n' : Int64) => n = n') harg
  cases harg with
  | integer n => exact pure rfl
  | _ => exact hrefused _

omit hp hs in
theorem calculate (who : Primitive) (operation : List Int64 → Except Arithmetic.Fault Int64)
    {args args' : List Value} (hargs : w.values args args') :
    Renames w Renaming.value (Eval.calculate who operation args)
      (Eval.calculate who operation args') := by
  have hnumbers : Renames w (fun _ numbers numbers' => numbers = numbers')
      (args.mapM (Eval.integerArgument who)) (args'.mapM (Eval.integerArgument who)) := by
    induction args generalizing w args' with
    | nil =>
        cases hargs
        exact pure rfl
    | cons arg rest ih =>
        cases hargs with
        | cons harg hrest =>
            rw [List.mapM_cons, List.mapM_cons]
            refine bind (integerArgument who harg) ?_
            rintro w₁ hw₁ n _ rfl
            refine bind (ih (hw₁.values hrest)) ?_
            rintro w₂ - numbers _ rfl
            exact pure rfl
  refine bind hnumbers ?_
  rintro w₁ - numbers _ rfl
  cases operation numbers with
  | ok n => exact pure (.integer n)
  | error fault =>
      cases fault with
      | overflow => exact fail _
      | divisionByZero => exact fail _

omit hp hs in
theorem compareIntegers (who : Primitive) (relation : Int64 → Int64 → Bool)
    {first first' second second' : Value} (hfirst : w.value first first')
    (hsecond : w.value second second') :
    Renames w Renaming.value (Eval.compareIntegers who relation first second)
      (Eval.compareIntegers who relation first' second') := by
  refine bind (integerArgument who hfirst) ?_
  rintro w₁ hw₁ a _ rfl
  refine bind (integerArgument who (hw₁.value hsecond)) ?_
  rintro w₂ - b _ rfl
  exact pure (Value.matches_ofBool _)

omit hp hs in
theorem answer {b b' : Bool} (h : b = b') :
    Renames w Renaming.value (Pure.pure (.ofBool b)) (Pure.pure (.ofBool b')) := by
  subst h
  exact pure (Value.matches_ofBool b)

omit hp hs in
theorem part (who : Primitive) {view : Store → CellRef → Value}
    (hview : ∀ {ref ref'}, w.link (.cell ref) (.cell ref') →
      w.value (view w.left ref) (view w.right ref'))
    {target target' : Value} (htarget : w.value target target') :
    Renames w Renaming.value (Eval.part who view target) (Eval.part who view target') := by
  have hrefused := failPrinted Renaming.value htarget
  cases htarget with
  | pair href =>
      show Renames w Renaming.value (EvalM.inspect (view · _)) (EvalM.inspect (view · _))
      exact inspect (hview href)
  | nil => exact pure .nil
  | _ => exact hrefused _

omit hp hs in
theorem mutate (who : Primitive) {change change' : Store → CellRef → Store}
    (hchange : ∀ {ref ref'}, w.link (.cell ref) (.cell ref') →
      w.Becomes (change w.left ref) (change' w.right ref'))
    {target target' : Value} (htarget : w.value target target') :
    Renames w Renaming.value (Eval.mutate who change target)
      (Eval.mutate who change' target') := by
  have hrefused := failPrinted Renaming.value htarget
  cases htarget with
  | pair href =>
      exact bind (update (hchange href).changes) fun _ hw _ _ _ => pure (.pair (hw.link href))
  | _ => exact hrefused _

theorem expandOnce {form form' : Value} (hform : w.value form form') :
    Renames w Renaming.value (Eval.expandOnce session p form)
      (Eval.expandOnce session' p' form') := by
  have hitself : Renames w Renaming.value (Pure.pure form) (Pure.pure form') := pure hform
  cases hform with
  | pair href =>
      refine look (w.showAlike.car href) fun head head' hhead => ?_
      cases hhead with
      | symbol name =>
          dsimp only
          split
          · exact hitself
          · refine look (Renaming.lookup hs.globals name) fun found found' hfound => ?_
            cases hfound with
            | none => exact hitself
            | some hvalue =>
                cases hvalue with
                | expander hlambda =>
                    refine look (w.showAlike.cdr href) fun rest rest' hrest => ?_
                    refine bind (argumentForms hrest) fun w₁ hw₁ forms forms' hforms => ?_
                    exact holding (invoke hp (hs.mono hw₁.toExtends) (hw₁.link hlambda) "macro"
                      hforms)
                | _ => exact hitself
      | _ => exact hitself
  | _ => exact hitself

theorem spread {callee callee' : Value} (hcallee : w.value callee callee')
    {leading leading' : List Value} (hleading : w.values leading leading') {last last' : Value}
    (hlast : w.value last last') :
    Renames w Renaming.value (Eval.spread p callee leading last)
      (Eval.spread p' callee' leading' last') := by
  refine look (w.showAlike.elements hlast) fun found found' hfound => ?_
  cases hfound with
  | ok hitems => exact hp w hs _ _ (.apply hcallee (List.rel_append hleading hitems))
  | circular => exact failPrinted _ hlast _
  | endsIn _ => exact failPrinted _ hlast _

theorem applyPrimitive (primitive : Primitive) {args args' : List Value}
    (hargs : w.values args args') :
    Renames w Renaming.value (Eval.applyPrimitive session p primitive args)
      (Eval.applyPrimitive session' p' primitive args') := by
  have hrefused := failArity Renaming.value primitive.name primitive.expected hargs
  have hsame : ∀ {a a' b b' : Value}, w.value a a' → w.value b b' →
      decide (a = b) = decide (a' = b') :=
    fun ha hb => decide_eq_decide.2 (ha.eq_iff w.unique hb)
  cases primitive with
  | cons =>
      rcases hargs with _ | ⟨ha, _ | ⟨hb, _ | _⟩⟩
      exacts [hrefused, hrefused, listWithTail hs (.cons ha .nil) hb, hrefused]
  | car =>
      rcases hargs with _ | ⟨ha, _ | _⟩
      exacts [hrefused, part .car w.showAlike.car ha, hrefused]
  | cdr =>
      rcases hargs with _ | ⟨ha, _ | _⟩
      exacts [hrefused, part .cdr w.showAlike.cdr ha, hrefused]
  | list => exact listWithTail hs hargs .nil
  | setCar =>
      rcases hargs with _ | ⟨ha, _ | ⟨hb, _ | _⟩⟩
      exacts [hrefused, hrefused, mutate .setCar (fun href => Renaming.setCar href hb) ha, hrefused]
  | setCdr =>
      rcases hargs with _ | ⟨ha, _ | ⟨hb, _ | _⟩⟩
      exacts [hrefused, hrefused, mutate .setCdr (fun href => Renaming.setCdr href hb) ha, hrefused]
  | isEq =>
      rcases hargs with _ | ⟨ha, _ | ⟨hb, _ | _⟩⟩
      exacts [hrefused, hrefused, answer (hsame ha hb), hrefused]
  | isPair =>
      rcases hargs with _ | ⟨ha, _ | _⟩
      exacts [hrefused, answer ha.isPair_eq, hrefused]
  | isNull =>
      rcases hargs with _ | ⟨ha, _ | _⟩
      exacts [hrefused, answer (hsame ha .nil), hrefused]
  | isAtom =>
      rcases hargs with _ | ⟨ha, _ | _⟩
      exacts [hrefused, answer (congrArg not ha.isPair_eq), hrefused]
  | isSymbol =>
      rcases hargs with _ | ⟨ha, _ | _⟩
      exacts [hrefused, answer (congrArg Option.isSome ha.symbol?_eq), hrefused]
  | isInteger =>
      rcases hargs with _ | ⟨ha, _ | _⟩
      exacts [hrefused, answer (congrArg Option.isSome ha.integer?_eq), hrefused]
  | not =>
      rcases hargs with _ | ⟨ha, _ | _⟩
      exacts [hrefused, answer (congrArg not ha.isTruthy_eq), hrefused]
  | add => exact calculate .add _ hargs
  | subtract =>
      rcases hargs with _ | ⟨ha, hothers⟩
      exacts [hrefused, calculate .subtract _ (.cons ha hothers)]
  | multiply => exact calculate .multiply _ hargs
  | divide =>
      rcases hargs with _ | ⟨ha, hothers⟩
      exacts [hrefused, calculate .divide _ (.cons ha hothers)]
  | less =>
      rcases hargs with _ | ⟨ha, _ | ⟨hb, _ | _⟩⟩
      exacts [hrefused, hrefused, compareIntegers .less _ ha hb, hrefused]
  | greater =>
      rcases hargs with _ | ⟨ha, _ | ⟨hb, _ | _⟩⟩
      exacts [hrefused, hrefused, compareIntegers .greater _ ha hb, hrefused]
  | numEqual =>
      rcases hargs with _ | ⟨ha, _ | ⟨hb, _ | _⟩⟩
      exacts [hrefused, hrefused, compareIntegers .numEqual _ ha hb, hrefused]
  | apply =>
      rcases hargs with _ | ⟨ha, _ | ⟨hb, hothers⟩⟩
      exacts [hrefused, hrefused, spread hp hs ha (Renaming.values_dropLast (.cons hb hothers))
        (getLastD_of_forall₂ (.cons hb hothers) hb)]
  | eval =>
      rcases hargs with _ | ⟨ha, _ | _⟩
      exacts [hrefused, evaluate hp hs ha hs.globals, hrefused]
  | expandOnce =>
      rcases hargs with _ | ⟨ha, _ | _⟩
      exacts [hrefused, expandOnce hp hs ha, hrefused]

theorem applyNative {native : Native} {name : Symbol}
    (hname : session.natives.lookup name = some native) {args args' : List Value}
    (hargs : w.values args args') :
    Renames w Renaming.value (Eval.applyNative session p native args)
      (Eval.applyNative session' p' native args') := by
  cases native with
  | primitive primitive => exact applyPrimitive hp hs primitive hargs
  | host function => exact applyHost (hs.ignores name function hname) hargs

/-! ### Forms and calls -/

theorem apply {callee callee' : Value} (hcallee : w.value callee callee')
    {args args' : List Value} (hargs : w.values args args') :
    Renames w Renaming.value (Eval.apply session p callee args)
      (Eval.apply session' p' callee' args') := by
  have hrefused := failPrinted Renaming.value hcallee
  cases hcallee with
  | closure href => exact invoke hp hs href "lambda" hargs
  | builtin name =>
      rw [Eval.apply, Eval.apply, ← hs.natives]
      cases hname : session.natives.lookup name with
      | none => exact fail _
      | some native => exact holding (applyNative hp hs hname hargs)
  | _ => exact hrefused _

theorem callWith {callee callee' rest rest' : Value} (hcallee : w.value callee callee')
    (hrest : w.value rest rest') {scope scope' : FrameRef} (hscope : w.frame scope scope') :
    Renames w Renaming.value (Eval.callWith p callee rest scope)
      (Eval.callWith p' callee' rest' scope') :=
  holding (bind (evalArguments hp hs hscope hrest) fun w₁ hw₁ _ _ hargs =>
    hp w₁ (hs.mono hw₁.toExtends) _ _ (.apply (hw₁.value hcallee) hargs))

theorem evalExpansion {lambda lambda' : LambdaRef} (hlambda : w.lambda lambda lambda')
    {rest rest' : Value} (hrest : w.value rest rest') {scope scope' : FrameRef}
    (hscope : w.frame scope scope') :
    Renames w Renaming.value (Eval.evalExpansion session p lambda rest scope)
      (Eval.evalExpansion session' p' lambda' rest' scope') := by
  refine holding (bind (argumentForms hrest) fun w₁ hw₁ forms forms' hforms => ?_)
  have hs₁ := hs.mono hw₁.toExtends
  refine bind (invoke hp hs₁ (hw₁.link hlambda) "macro" hforms) fun w₂ hw₂ _ _ hexpansion => ?_
  exact holding (evaluate hp (hs₁.mono hw₂.toExtends) hexpansion (hw₂.frame (hw₁.frame hscope)))

theorem evalNamed {form form' : Value} (hform : w.value form form') (name : Symbol)
    {rest rest' : Value} (hrest : w.value rest rest') {scope scope' : FrameRef}
    (hscope : w.frame scope scope') :
    Renames w Renaming.value (Eval.evalNamed session p form name rest scope)
      (Eval.evalNamed session' p' form' name rest' scope') := by
  unfold Eval.evalNamed
  split
  · refine look (w.showAlike.elements hrest) fun found found' hfound => ?_
    cases hfound with
    | ok hargs => exact holding (evalSpecial hp hs _ hargs hscope)
    | circular => exact failPrinted _ hform _
    | endsIn _ => exact failPrinted _ hform _
  · refine look (Renaming.lookup hscope name) fun found found' hfound => ?_
    cases hfound with
    | none => exact fail _
    | some hvalue =>
        have hrefused := failPrinted Renaming.value hvalue
        cases hvalue with
        | expander hlambda => exact evalExpansion hp hs hlambda hrest hscope
        | closure hlambda => exact callWith hp hs (.closure hlambda) hrest hscope
        | builtin native => exact callWith hp hs (.builtin native) hrest hscope
        | _ => exact hrefused _

theorem evalPair {ref ref' : CellRef} (href : w.link (.cell ref) (.cell ref'))
    {scope scope' : FrameRef} (hscope : w.frame scope scope') :
    Renames w Renaming.value (Eval.evalPair session p (.pair ref) ref scope)
      (Eval.evalPair session' p' (.pair ref') ref' scope') := by
  refine look (w.showAlike.car href) fun head head' hhead => ?_
  refine look (w.showAlike.cdr href) fun rest rest' hrest => ?_
  have hrefused := failPrintedBoth Renaming.value hhead (.pair href : w.value _ _)
  cases hhead with
  | symbol name => exact evalNamed hp hs (.pair href) name hrest hscope
  | pair hinner =>
      have hhead : w.value (.pair _) (.pair _) := .pair hinner
      refine bind (holding (evaluate hp hs hhead hscope)) fun w₁ hw₁ callee callee' hcallee => ?_
      have hs₁ := hs.mono hw₁.toExtends
      have hcall := callWith hp hs₁ hcallee (hw₁.value hrest) (hw₁.frame hscope)
      have hrefused := failPrintedBoth Renaming.value (hw₁.value hhead) hcallee
      cases hcallee with
      | closure hlambda => exact holding hcall
      | builtin native => exact holding hcall
      | _ => exact hrefused _
  | _ => exact hrefused _

theorem evalForm {form form' : Value} (hform : w.value form form') {scope scope' : FrameRef}
    (hscope : w.frame scope scope') :
    Renames w Renaming.value (Eval.evalForm session p form scope)
      (Eval.evalForm session' p' form' scope') := by
  have hrefused := failPrinted Renaming.value hform
  cases hform with
  | nil => exact pure .nil
  | t => exact pure .t
  | integer n => exact pure (.integer n)
  | symbol name =>
      refine look (Renaming.lookup hscope name) fun found found' hfound => ?_
      cases hfound with
      | some hvalue => exact pure hvalue
      | none => exact fail _
  | pair href => exact evalPair hp hs href hscope
  | _ => exact hrefused _

/-- **One step.** A task is carried out alike in both sessions if the further tasks are. -/
theorem step {task task' : Task} (htask : Task.Matches w task task') :
    Renames w Renaming.value (Eval.step session p task) (Eval.step session' p' task') := by
  cases htask with
  | eval hform hscope =>
      rw [Eval.step, Eval.step, Eval.evalLimited, Eval.evalLimited, ← hs.maxDepth]
      exact limited _ (evalForm hp hs hform hscope)
  | apply hcallee hargs => exact apply hp hs hcallee hargs
  | fill level htemplate hscope => exact fill hp hs htemplate level hscope
  | fillRest level hmade hrest hscope => exact fillRest hp hs hmade hrest level hscope

end

/-- **Whole runs.** Evaluation does not depend on places, with any bound on nested steps. -/
theorem run (session session' : Session) (fuel : Nat) :
    Alike session session' (Eval.run session fuel) (Eval.run session' fuel) := by
  induction fuel with
  | zero => exact fun _ _ _ _ _ => exhausted
  | succ fuel ih => exact fun w hs task task' htask => step ih hs htask

end Renames

end Eval

/-! ### What a host runs in a session -/

namespace Session.Matches

open Eval

variable {w : Renaming} {session session' : Session} (hs : session.Matches w session')
  (fuel : Nat)
include hs

theorem evalIn {form form' : Value} (hform : w.value form form') {scope scope' : FrameRef}
    (hscope : w.frame scope scope') :
    Renames w Renaming.value (session.evalIn fuel form scope) (session'.evalIn fuel form' scope') :=
  .holding (.evaluate (.run session session' fuel) hs hform hscope)

theorem evalGlobal {form form' : Value} (hform : w.value form form') :
    Renames w Renaming.value (session.evalGlobal fuel form) (session'.evalGlobal fuel form') :=
  hs.evalIn fuel hform hs.globals

theorem apply {callee callee' : Value} (hcallee : w.value callee callee') {args args' : List Value}
    (hargs : w.values args args') :
    Renames w Renaming.value (session.apply fuel callee args)
      (session'.apply fuel callee' args') :=
  .holding (Renames.run session session' fuel w hs _ _ (.apply hcallee hargs))

theorem expandOnce {form form' : Value} (hform : w.value form form') :
    Renames w Renaming.value (session.expandOnce fuel form) (session'.expandOnce fuel form') :=
  .holding (.expandOnce (.run session session' fuel) hs hform)

/-- Forms that are there already are evaluated alike, wherever they are. -/
theorem evalEach {forms forms' : List Value} (hforms : w.values forms forms') :
    Renames w Renaming.values (Eval.evalEach (Eval.run session fuel) session.globals forms)
      (Eval.evalEach (Eval.run session' fuel) session'.globals forms') :=
  .evalEach (.run session session' fuel) hs hs.globals hforms

/-- **A text.** Its forms are made and then evaluated alike. -/
theorem evalForms (data : List Datum) :
    Renames w Renaming.values (session.evalForms fuel data) (session'.evalForms fuel data) :=
  .bind (.update (Renaming.ofData hs.arena_lt hs.arena_lt' data)) fun _ hw _ _ hforms =>
    .holding ((hs.mono hw.toExtends).evalEach fuel hforms)

theorem evalText (text : String) :
    Renames w Renaming.values (session.evalText fuel text) (session'.evalText fuel text) := by
  rw [Session.evalText, Session.evalText]
  split
  · exact .fail _
  · exact hs.evalForms fuel _

theorem evalTextLast (text : String) :
    Renames w Renaming.value (session.evalTextLast fuel text) (session'.evalTextLast fuel text) :=
  .bind (hs.evalText fuel text) fun _ _ _ _ hvalues =>
    .pure (getLastD_of_forall₂ hvalues .nil)

theorem load (files : Files) (path : String) :
    Renames w Renaming.value (session.load fuel files path) (session'.load fuel files path) := by
  rw [Session.load, Session.load]
  split
  · exact .fail _
  · exact hs.evalTextLast fuel _

theorem loadAll (files : Files) (paths : List String) :
    Renames w (fun _ _ _ => True)
      (paths.forM fun path => do discard (session.load fuel files path))
      (paths.forM fun path => do discard (session'.load fuel files path)) := by
  induction paths generalizing w with
  | nil => exact .pure trivial
  | cons path rest ih =>
      refine .bind (P := fun _ _ _ => True) ?_ fun _ hw _ _ _ => ih (hs.mono hw.toExtends)
      exact .bind (hs.load fuel files path) fun _ _ _ _ _ => .pure trivial

theorem attemptEach {forms forms' : List Value} (hforms : w.values forms forms') :
    Renames w (fun w' => Forall₂ (EqualUpTo w'.value)) (session.attemptEach fuel forms)
      (session'.attemptEach fuel forms') := by
  induction forms generalizing w forms' with
  | nil =>
      cases hforms
      rw [Session.attemptEach, Session.attemptEach]
      exact .pure .nil
  | cons form rest ih =>
      cases hforms with
      | cons hform hrest =>
          rw [Session.attemptEach, Session.attemptEach]
          refine .bind (.attempt (.evaluate (.run session session' fuel) hs hform hs.globals))
            fun w₁ hw₁ result result' hresult => ?_
          cases hresult with
          | error cause => exact .pure (.cons (.error cause) .nil)
          | ok hvalue =>
              refine .bind (.holding (ih (hs.mono hw₁.toExtends) (hw₁.values hrest)))
                fun w₂ hw₂ others others' hothers => ?_
              exact .pure (.cons (.ok (hw₂.value hvalue)) hothers)

theorem evalLine (line : String) :
    Renames w (fun w' => Forall₂ (EqualUpTo w'.value)) (session.evalLine fuel line)
      (session'.evalLine fuel line) := by
  rw [Session.evalLine, Session.evalLine]
  split
  · exact .pure (.cons (.error _) .nil)
  · exact .bind (.update (Renaming.ofData hs.arena_lt hs.arena_lt' _)) fun _ hw _ _ hforms =>
      .holding ((hs.mono hw.toExtends).attemptEach fuel hforms)

end Session.Matches

/-! ### Forms made ahead -/

namespace Eval

open EvalM

variable {p : Task → EvalM Value} {scope : FrameRef} {forms : List Value} {held : List Hold}
  {machine after : Machine}

/-- When the values of some forms have been found, those of further forms are found next. -/
theorem outcome_evalEach_append {values : List Value}
    (h : (Eval.evalEach p scope forms).outcome held machine = (.ok values, after))
    (others : List Value) :
    ∃ held', (Eval.evalEach p scope (forms ++ others)).outcome held machine =
      (do return values ++ (← Eval.evalEach p scope others) : EvalM (List Value)).outcome held'
        after := by
  induction forms generalizing held machine values with
  | nil =>
      obtain ⟨⟨⟩, rfl⟩ := Prod.mk.inj h
      refine ⟨held, ?_⟩
      rcases hout : (Eval.evalEach p scope others).outcome held machine with ⟨halt | found, last⟩
      · rw [outcome_bind_error hout]
        exact hout
      · rw [outcome_bind_ok hout]
        exact hout
  | cons form rest ih =>
      rw [Eval.evalEach] at h
      obtain ⟨value, middle, hvalue, h⟩ := exists_of_outcome_bind h
      obtain ⟨found, last, hrest, h⟩ := exists_of_outcome_bind h
      obtain ⟨⟨⟩, rfl⟩ := Prod.mk.inj h
      obtain ⟨held', hothers⟩ := ih hrest
      refine ⟨held', ?_⟩
      rw [List.cons_append, Eval.evalEach, outcome_bind_ok hvalue]
      rcases hout : (Eval.evalEach p scope others).outcome held' last with ⟨halt | more, final⟩
      · rw [outcome_bind_error hout]
        rw [outcome_bind_error hout] at hothers
        exact outcome_bind_error (f := EvalM.holding [value] _) hothers _
      · rw [outcome_bind_ok hout]
        rw [outcome_bind_ok hout] at hothers
        exact outcome_bind_ok (f := EvalM.holding [value] _) hothers _

/-- When the value of one of some forms cannot be found, no further forms are looked at. -/
theorem outcome_evalEach_append_error {halt : Halt}
    (h : (Eval.evalEach p scope forms).outcome held machine = (.error halt, after))
    (others : List Value) :
    (Eval.evalEach p scope (forms ++ others)).outcome held machine = (.error halt, after) := by
  induction forms generalizing held machine with
  | nil => cases (Prod.mk.inj h).1
  | cons form rest ih =>
      rw [Eval.evalEach] at h
      rw [List.cons_append, Eval.evalEach]
      rcases hvalue : (p (.eval form scope)).outcome held machine with ⟨cause | value, middle⟩
      · rw [outcome_bind_error hvalue] at h ⊢
        exact h
      · rw [outcome_bind_ok hvalue] at h ⊢
        rcases hrest : (Eval.evalEach p scope rest).outcome (.values [value] :: held) middle with
          ⟨cause | found, last⟩
        · rw [outcome_bind_error (f := EvalM.holding [value] _) hrest] at h
          obtain ⟨⟨⟩, rfl⟩ := Prod.mk.inj h
          exact outcome_bind_error (f := EvalM.holding [value] _) (ih hrest) _
        · rw [outcome_bind_ok (f := EvalM.holding [value] _) hrest] at h
          cases (Prod.mk.inj h).1

end Eval

theorem Store.ofData_append (store : Store) (arena : Nat) (data more : List Datum) :
    store.ofData arena (data ++ more) =
      ((store.ofData arena data).1 ++ ((store.ofData arena data).2.ofData arena more).1,
        ((store.ofData arena data).2.ofData arena more).2) := by
  induction data generalizing store with
  | nil => rfl
  | cons datum rest ih =>
      simp only [List.cons_append, Store.ofData, ih]

theorem Session.outcome_evalForms (session : Session) (fuel : Nat) {data : List Datum}
    {store after : Store} (h : (store.ofData session.arena data).2 = after) (held : List Hold)
    (census : Option Census) (depth : Nat) :
    (session.evalForms fuel data).outcome held ⟨store, census, depth⟩ =
      (Eval.evalEach (Eval.run session fuel) session.globals
        (store.ofData session.arena data).1).outcome
        (.values (store.ofData session.arena data).1 :: held) ⟨after, census, depth⟩ := by
  rw [← h]
  exact EvalM.outcome_bind_ok (EvalM.outcome_update _ held ⟨store, census, depth⟩) _

/-- **Forms may be made ahead.** Making the forms of two texts before the first one is evaluated, or
making the forms of each when it is its turn, makes no difference but for places. -/
theorem Session.Matches.evalForms_append {w : Renaming} {session session' : Session}
    (hs : session.Matches w session') (fuel : Nat) (data more : List Datum) :
    Eval.Renames w Renaming.values (session.evalForms fuel (data ++ more))
      (do return (← session'.evalForms fuel data) ++ (← session'.evalForms fuel more)) := by
  intro depth held held'
  -- both stores make the first forms, and the left one makes the others ahead
  obtain ⟨w₁, hleft₁, hright₁, hw₁, hforms⟩ := Renaming.ofData hs.arena_lt hs.arena_lt' data
  obtain ⟨w₂, refs, hleft₂, hright₂, hw₂, hawaits, hnew⟩ :=
    Renaming.awaits_ofData (hs.mono hw₁.toExtends).arena_lt more
  have hmade : (w.left.ofData session.arena (data ++ more)).2 = w₂.left := by
    rw [Store.ofData_append, hleft₁, hleft₂]
  rw [session.outcome_evalForms fuel hmade, Store.ofData_append, hleft₁]
  generalize (w₁.left.ofData session.arena more).1 = others at hawaits ⊢
  obtain ⟨result, result', w₃, hrun, hrun', hw₃, hresult⟩ :=
    (hs.mono (hw₁.trans hw₂).toExtends).evalEach fuel (hw₂.values hforms) depth
      (.values ((w.left.ofData session.arena data).1 ++ others) :: held)
      (.values (w.right.ofData session'.arena data).1 :: held')
  have hfirst := (session'.outcome_evalForms fuel (hright₁.trans hright₂) held' none depth).trans
    hrun'
  have hleads₃ := (hw₁.trans hw₂).trans hw₃
  have hs₃ := hs.mono hleads₃.toExtends
  cases hresult with
  | error halt =>
      exact ⟨_, _, w₃, Eval.outcome_evalEach_append_error hrun others,
        EvalM.outcome_bind_error hfirst _, hleads₃, .error halt⟩
  | @ok values values' hvalues =>
      obtain ⟨held₂, hboth⟩ := Eval.outcome_evalEach_append hrun others
      rw [hboth, EvalM.outcome_bind_ok hfirst]
      -- evaluating the first forms has not touched the others; the right store catches up with them
      obtain ⟨w₄, hright₄, hw₄, hothers⟩ := (hawaits.leads hw₃).catchesUp hs₃.arena_lt'
      obtain ⟨result, result', w₅, hrun₂, hrun₂', hw₅, hresult⟩ :=
        (hs₃.mono hw₄.toExtends).evalEach fuel hothers depth held₂
          (.values (w₃.right.ofData session'.arena more).1 :: held')
      rw [← hw₄.left_eq] at hrun₂
      have hsecond := (session'.outcome_evalForms fuel hright₄ held' none depth).trans hrun₂'
      -- the cells that the right store has caught up with were not there at first
      have hleads₅ : w.Leads w₅ := hw₁.trans (((hw₂.trans hw₃).catchesUp hw₄ hnew).trans hw₅)
      cases hresult with
      | error halt =>
          exact ⟨_, _, w₅, EvalM.outcome_bind_error hrun₂ _, EvalM.outcome_bind_error hsecond _,
            hleads₅, .error halt⟩
      | ok hmore =>
          exact ⟨_, _, w₅, EvalM.outcome_bind_ok hrun₂ _, EvalM.outcome_bind_ok hsecond _, hleads₅,
            .ok (List.rel_append (hw₅.values (hw₄.values hvalues)) hmore)⟩

end SmallLisp
