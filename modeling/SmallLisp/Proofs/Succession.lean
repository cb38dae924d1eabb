import SmallLisp.Proofs.Lines
import SmallLisp.Proofs.RenamedReplies
import SmallLisp.Proofs.Replies
import SmallLisp.Proofs.Unfolding

/-!
# Texts evaluated one after the other

Two texts on separate lines are evaluated as the one text and then the other, up to the first error.
Not quite the same is done: all forms of a text are made before the first of them is evaluated, so
if both texts are given at once, the pairs that the second one is made of lie in front of those that
the first one makes. But evaluation does not depend on places, and so the results are the same up to
places. A workspace answers accordingly, then and later.

The one thing that may differ is how the results of the first text are shown. They are values, and
they are shown when the last form has been evaluated. A pair among them that the second text changes
is shown with the change.

## Main results

* `Session.Matches.evalText_lines` — the evaluation of two texts on separate lines.
* `Mirror.right_matches` — a workspace matches itself.
* `Workspace.answer_eval`, `Mirror.exists_evaluates` — the reply to a text.
* `Mirror.joins_lines` — the reply to two texts on separate lines, and all replies to come.
* `texts_on_separate_lines` — tokens, forms, evaluation and replies of two texts on separate lines.
-/

namespace SmallLisp

theorem Session.Matches.evalText_lines {w : Renaming} {session session' : Session}
    (hs : session.Matches w session') (fuel : Nat) {first second : String}
    {forms others : List Datum} (hfirst : Datum.read first = .ok forms)
    (hsecond : Datum.read second = .ok others) :
    Eval.Renames w Renaming.values (session.evalText fuel (first ++ "\n" ++ second))
      (do return (← session'.evalText fuel first) ++ (← session'.evalText fuel second)) := by
  rw [session.evalText_eq fuel (Datum.readWith_lines hfirst hsecond),
    session'.evalText_eq fuel hfirst, session'.evalText_eq fuel hsecond]
  exact hs.evalForms_append fuel forms others

/-! ### A store and itself -/

/-- What is kept at one of these items is the same if each of them is linked with itself. -/
theorem Store.Closed.exists_matches {P : Item → Prop} {store : Store} (hclosed : store.Closed P)
    (hchained : store.Chained P) {item : Item} (hitem : P item)
    (hpresent : (store.find? item).isSome = true) :
    ∃ entry, store.find? item = some entry ∧ entry.Matches (Item.itself P) entry := by
  cases item with
  | cell ref =>
      obtain ⟨cell, hcell, hentry⟩ := Store.exists_find?_cell hpresent
      refine ⟨_, hentry, .cell ?_ ?_⟩
      · exact Value.matches_itself.2 (Store.car_eq hcell ▸ hclosed.car hitem)
      · exact Value.matches_itself.2 (Store.cdr_eq hcell ▸ hclosed.cdr hitem)
  | lambda ref =>
      refine ⟨_, Store.exists_find?_lambda hpresent, .lambda ⟨rfl, rfl, ?_, rfl, ?_⟩⟩
      · refine List.forall₂_same.2 fun form hform => Value.matches_itself.2 fun other hother => ?_
        exact hclosed _ hitem other
          (List.mem_cons_of_mem _ (List.mem_flatMap.2 ⟨form, hform, hother⟩))
      · exact hclosed.lambdaScope hitem
  | frame ref =>
      obtain ⟨frame, hframe, hentry⟩ := Store.exists_find?_frame hpresent
      have hfound : store.frame ref = frame := by rw [Store.frame, hframe]; rfl
      refine ⟨_, hentry, .frame ⟨?_, ?_⟩⟩
      · refine List.forall₂_same.2 fun entry hmem => ⟨rfl, Value.matches_itself.2 ?_⟩
        rw [← hfound] at hmem
        exact hclosed.binding hitem (List.mem_map_of_mem hmem)
      · refine List.forall₂_same.2 fun outer houter => ⟨rfl, ?_⟩
        exact hclosed.scope hchained hitem outer (List.mem_cons_of_mem _ (hfound ▸ houter))

namespace Twin

variable {common : Nat → Prop}

theorem chained_right (w : Twin common) : w.right.Chained w.intact := by
  intro frame hframe parent hparent
  rw [← w.agree.frame hframe] at hparent ⊢
  rw [Store.scope, ← w.agree.frame (w.closed.parent hframe hparent)]
  exact w.chained frame hframe parent hparent

/-- The right store and itself, with what is intact linked with itself. -/
def onRight (w : Twin common) : Renaming where
  left := w.right
  right := w.right
  link := Item.itself w.intact
  unique := Item.biUnique_itself w.intact
  entries := by
    rintro item _ ⟨rfl, hitem⟩
    obtain ⟨entry, hentry, hmatches⟩ := (w.agree.symm w.closed).2.exists_matches w.chained_right
      hitem (w.agree item hitem ▸ w.present hitem)
    exact ⟨entry, entry, hentry, hentry, hmatches⟩

/-- If all arenas are common, the two stores show every value alike. -/
theorem shown_eq_right (w : Twin fun _ => True) : w.left.shown = w.right.shown := by
  have hcell : ∀ ref, w.left.cell? ref = w.right.cell? ref := by
    intro ref
    have hsame : (w.left.find? (.cell ref)).map Entry.bare
        = (w.right.find? (.cell ref)).map Entry.bare := w.same trivial
    rw [Store.find?_cell, Store.find?_cell, Option.map_map, Option.map_map] at hsame
    exact Option.map_injective (fun _ _ heq => Entry.cell.inj heq) hsame
  have hlambda : ∀ ref, w.left.lambda? ref = w.right.lambda? ref := by
    intro ref
    have hsame : (w.left.find? (.lambda ref)).map Entry.bare
        = (w.right.find? (.lambda ref)).map Entry.bare := w.same trivial
    rw [Store.find?_lambda, Store.find?_lambda, Option.map_map, Option.map_map] at hsame
    exact Option.map_injective (fun _ _ heq => Entry.lambda.inj heq) hsame
  have halike : Store.ShowAlike (Item.itself fun _ => True) w.left w.right :=
    Store.showAlike_itself (fun _ _ => ⟨fun _ _ => trivial, fun _ _ => trivial⟩)
      (fun ref _ => by rw [Store.cell, hcell, Store.cell])
      fun ref _ => by rw [Store.lambda, hlambda, Store.lambda]
  exact funext fun value => halike.shown (Value.matches_itself.2 fun _ _ => trivial)

end Twin

namespace Mirror

variable {hosts : HostFunction → Prop}

theorem session_matches (m : Mirror hosts)
    (hignores : ∀ function, hosts function → function.IgnoresPlaces) {session : Session}
    (hsession : session ∈ m.sessions.contents) : session.Matches m.twin.onRight session where
  globals := ⟨rfl, m.keeps hsession _ List.mem_cons_self⟩
  origins := List.forall₂_same.2 fun frame hframe =>
    ⟨rfl, m.keeps hsession frame (List.mem_cons_of_mem _ hframe)⟩
  natives := rfl
  ignores := fun name function hname => hignores function (m.supplied hsession name function hname)
  maxDepth := rfl
  depth := rfl

/-- **A workspace matches itself.** -/
theorem right_matches (m : Mirror hosts)
    (hignores : ∀ function, hosts function → function.IgnoresPlaces) :
    m.right.Matches m.twin.onRight m.right where
  left_eq := rfl
  right_eq := rfl
  census := rfl
  census' := rfl
  sessions := Slots.match_self fun _ => m.session_matches hignores
  values := Slots.match_self fun _ hvalue => Value.matches_itself.2 (m.value hvalue)
  environments := Slots.match_self fun _ hframe => ⟨rfl, m.environment hframe⟩
  files := rfl
  fuel := rfl
  arena_lt := m.twin.size_eq ▸ m.isOpen.2
  arena_lt' := m.twin.size_eq ▸ m.isOpen.2

theorem shown_eq_right (m : Mirror hosts) : m.left.store.shown = m.twin.right.shown :=
  m.twin.shown_eq_right

/-- Mirrors of matching workspaces give the same replies. -/
theorem answerAll_eq {m m' : Mirror hosts} {w : Renaming} (h : m.right.Matches w m'.right)
    (hignores : ∀ function, hosts function → function.IgnoresPlaces) {commands : List Command}
    (hsupplied : ∀ command ∈ commands, command.Hosts hosts)
    (hreleases : ∀ command ∈ commands, command.releases = false) :
    (m.left.answerAll commands).1 = (m'.left.answerAll commands).1 := by
  obtain ⟨replies, left, right, -, hleft, hright, -⟩ := h.answerAll
    (fun command hcommand => (hsupplied command hcommand).imp hignores) hreleases
  rw [m.answerAll hsupplied hreleases, m'.answerAll hsupplied hreleases, hleft, hright]

end Mirror

/-! ### The reply to a text -/

/-- The results of a text as they are shown, or why there are none. -/
def Reply.ofText (store : Store) : Except Halt (List Value) → Reply
  | .ok results => .values (results.map store.shown)
  | .error halt => .refused (.ofHalt halt)

/-- The results of a text are shown when all of them are there. -/
theorem Workspace.perform_eval (workspace : Workspace) (slot text : String) :
    (Command.session slot (.eval text)).perform.outcome workspace = (do
      let values ← WorkM.evaluate slot (·.evalText workspace.fuel text)
      return Reply.values (← WorkM.inspect fun store => values.map store.shown)
      : WorkM Reply).outcome workspace :=
  WorkM.outcome_bind_ok (show (get : WorkM Workspace).outcome workspace = _ from rfl) _

theorem Workspace.answer_eval {workspace : Workspace} {slot text : String} {session : Session}
    (hsession : workspace.sessions.get? slot = some session)
    {result : Except Halt (List Value)} {machine : Machine}
    (h : (session.evalText workspace.fuel text).outcome (.frames session.keeps :: workspace.held)
      ⟨workspace.store, workspace.census, session.depth⟩ = (result, machine))
    (hdepth : machine.depth = session.depth) :
    workspace.answer (.session slot (.eval text)) =
      (.ofText machine.store result,
        { workspace with
          store := machine.store
          census := machine.census
          sessions := workspace.sessions.put slot session }) := by
  have hperform := workspace.perform_eval slot text
  have hevaluate := WorkM.outcome_evaluate hsession (f := (·.evalText workspace.fuel text)) h hdepth
  cases result with
  | error halt => exact answer_eq (hperform.trans (WorkM.outcome_bind_error hevaluate _))
  | ok values => exact answer_eq (hperform.trans (WorkM.outcome_bind_ok hevaluate _))

theorem Workspace.answer_eval_none {workspace : Workspace} {slot : String}
    (h : workspace.sessions.get? slot = none) (text : String) :
    workspace.answer (.session slot (.eval text)) = (.refused (.emptySlot slot), workspace) :=
  answer_eq ((workspace.perform_eval slot text).trans
    (WorkM.outcome_bind_error (WorkM.outcome_evaluate_none h _) _))

/-! ### One text and then another -/

/-- How a workspace answers to two texts at once, compared with the answers to the one text and then
to the other: it has the results of both, or the first refusal, and from then on it gives the same
replies. The results of the first text are shown as they are behind the second, which is as they
were if it has changed no pair. -/
inductive Workspace.Joins (later : List Command) (both first second : Reply × Workspace) : Prop
  | firstRefused {reason : Refusal} : first.1 = .refused reason → both.1 = .refused reason →
      (both.2.answerAll later).1 = (first.2.answerAll later).1 → Joins later both first second
  | secondRefused {values : List Value} {reason : Refusal} :
      first.1 = .values (values.map first.2.store.shown) → second.1 = .refused reason →
      both.1 = .refused reason →
      (both.2.answerAll later).1 = (second.2.answerAll later).1 → Joins later both first second
  | answered {values : List Value} {shown : List Shown} :
      first.1 = .values (values.map first.2.store.shown) → second.1 = .values shown →
      both.1 = .values (values.map second.2.store.shown ++ shown) →
      (first.2.store.CellsKept second.2.store →
        both.1 = .values (values.map first.2.store.shown ++ shown)) →
      (both.2.answerAll later).1 = (second.2.answerAll later).1 → Joins later both first second

theorem Slots.put_put {α : Type} (slots : Slots α) (name : String) (content other : α) :
    (slots.put name content).put name other = slots.put name other := by
  simp [put, remove]

theorem Store.Follows.lambda_eq {before after : Store} (h : before.Follows after) {ref : LambdaRef}
    (href : (before.find? (.lambda ref)).isSome = true) : before.lambda ref = after.lambda ref := by
  obtain ⟨entry, hentry, hkept⟩ := h _ _ (Store.exists_find?_lambda href)
  rw [Store.exists_find?_lambda (h.isSome href)] at hentry
  cases hentry
  generalize before.lambda ref = code at hkept ⊢
  generalize after.lambda ref = code' at hkept ⊢
  cases hkept
  rfl

/-- What is intact is shown as before if every pair is as it was. -/
theorem Twin.shown_kept {common : Nat → Prop} (w : Twin common) {after : Store}
    (hpairs : w.left.CellsKept after) (hfollows : w.left.Follows after) {value : Value}
    (hvalue : value.In w.intact) : w.left.shown value = after.shown value := by
  have halike : Store.ShowAlike (Item.itself w.intact) w.left after := by
    refine Store.showAlike_itself (fun ref href => ⟨w.closed.car href, w.closed.cdr href⟩)
      (fun ref href => ?_) fun ref href => by rw [hfollows.lambda_eq (w.present href)]
    obtain ⟨cell, hcell, -⟩ := Store.exists_find?_cell (w.present href)
    rw [Store.cell, hcell, Store.cell, hpairs ref cell hcell]
  exact halike.shown (Value.matches_itself.2 hvalue)

/-- An evaluation has one outcome. -/
theorem EvalM.eq_of_outcome {α : Type} {result result' : Except Halt α} {store store' : Store}
    {census : Option Census} {depth : Nat} {outcome : Except Halt α × Machine}
    (h : outcome = (result, ⟨store, census, depth⟩))
    (h' : outcome = (result', ⟨store', census, depth⟩)) : result = result' ∧ store = store' := by
  rw [h] at h'
  cases h'
  exact ⟨rfl, rfl⟩

namespace Mirror

variable {hosts : HostFunction → Prop} (m : Mirror hosts) {slot : String} {session : Session}

/-- A text was evaluated in a session: the reply to it in the left workspace, and its evaluation in
the right one. -/
structure Evaluates (m : Mirror hosts) (slot : String) (session : Session) (text : String)
    (result : Except Halt (List Value)) (m' : Mirror hosts) : Prop where
  answer : m.left.answer (.session slot (.eval text)) = (.ofText m'.left.store result, m'.left)
  outcome : (session.evalText m.fuel text).outcome [] ⟨m.twin.right, none, session.depth⟩ =
    (result, ⟨m'.twin.right, none, session.depth⟩)
  right : m'.right =
    { m.right with store := m'.twin.right, sessions := m.sessions.put slot session }
  follows : m.left.store.Follows m'.left.store
  values (values : List Value) : result = .ok values → ∀ value ∈ values, value.In m'.twin.intact

theorem exists_evaluates (hget : m.sessions.get? slot = some session) (text : String) :
    ∃ result m', m.Evaluates slot session text result m' := by
  have hsession := Slots.mem_contents_of_get? hget
  obtain ⟨result, w, hleft, hright, hleads, hdepth, hvalues⟩ :=
    Session.evalText_agrees (m.natives_discreet hsession) m.fuel text (m.rooted hsession)
      (m.hands session).held [] fun _ => rfl
  have hanswer := @Workspace.answer_eval m.left slot text session hget result w.left hleft hdepth
  have hmachine : w.right = ⟨w.twin.right, none, session.depth⟩ :=
    congrArg (Machine.mk w.twin.right none) hdepth
  exact ⟨result, m.after slot hsession hleads,
    ⟨hanswer, hright.trans (congrArg (Prod.mk result) hmachine), rfl, hleads.follows, hvalues⟩⟩

section

variable {m : Mirror hosts} {m₁ m₂ : Mirror hosts} {text second : String}
  {result result' : Except Halt (List Value)}

theorem Evaluates.get? (h : m.Evaluates slot session text result m₁) :
    m₁.sessions.get? slot = some session := by
  rw [show m₁.sessions = m.sessions.put slot session from congrArg Workspace.sessions h.right]
  exact Slots.get?_put_self _ slot session

/-- The next text is evaluated where the one before has led. -/
theorem Evaluates.outcome_next (h : m.Evaluates slot session text result m₁)
    (h' : m₁.Evaluates slot session second result' m₂) :
    (session.evalText m.fuel second).outcome [] ⟨m₁.twin.right, none, session.depth⟩ =
      (result', ⟨m₂.twin.right, none, session.depth⟩) := by
  rw [← show m₁.fuel = m.fuel from congrArg Workspace.fuel h.right]
  exact h'.outcome

theorem Evaluates.right_next (h : m.Evaluates slot session text result m₁)
    (h' : m₁.Evaluates slot session second result' m₂) : m₂.right =
      { m.right with store := m₂.twin.right, sessions := m.sessions.put slot session } := by
  rw [h'.right, h.right, show m₁.sessions = m.sessions.put slot session from
    congrArg Workspace.sessions h.right, Slots.put_put]

/-- Mirrors over stores that match give the same replies. -/
theorem answerAll_eq_of_leads (hignores : ∀ function, hosts function → function.IgnoresPlaces)
    (hget : m.sessions.get? slot = some session) {w : Renaming} (hw : m.twin.onRight.Leads w)
    (hleft : m₁.right = { m.right with store := w.left, sessions := m.sessions.put slot session })
    (hright : m₂.right = { m.right with store := w.right, sessions := m.sessions.put slot session })
    {later : List Command} (hsupplied : ∀ command ∈ later, command.Hosts hosts)
    (hreleases : ∀ command ∈ later, command.releases = false) :
    (m₁.left.answerAll later).1 = (m₂.left.answerAll later).1 := by
  have hs := m.session_matches hignores (Slots.mem_contents_of_get? hget)
  have hmatches := (m.right_matches hignores).onto hw.toExtends
  have hboth : m₁.right.Matches w m₂.right := by
    rw [hleft, hright]
    exact { hmatches with sessions := hmatches.sessions.put slot (hs.mono hw.toExtends) }
  exact answerAll_eq hboth hignores hsupplied hreleases

end

/-- **Two texts on separate lines** are answered as the one text and then the other. -/
theorem joins_lines (hignores : ∀ function, hosts function → function.IgnoresPlaces)
    {first second : String} {forms others : List Datum} (hfirst : Datum.read first = .ok forms)
    (hsecond : Datum.read second = .ok others) (slot : String) {later : List Command}
    (hsupplied : ∀ command ∈ later, command.Hosts hosts)
    (hreleases : ∀ command ∈ later, command.releases = false) :
    Workspace.Joins later (m.left.answer (.session slot (.eval (first ++ "\n" ++ second))))
      (m.left.answer (.session slot (.eval first)))
      ((m.left.answer (.session slot (.eval first))).2.answer (.session slot (.eval second))) := by
  cases hget : m.sessions.get? slot with
  | none =>
      have hnone : ∀ text, m.left.answer (.session slot (.eval text))
          = (.refused (.emptySlot slot), m.left) := Workspace.answer_eval_none hget
      exact .firstRefused (congrArg Prod.fst (hnone _)) (congrArg Prod.fst (hnone _))
        (by rw [hnone, hnone])
  | some session =>
      -- the evaluations are compared on the right, where there is no census
      have hs := m.session_matches hignores (Slots.mem_contents_of_get? hget)
      obtain ⟨both, split, w, hboth, hsplit, hw, hresults⟩ :=
        hs.evalText_lines m.fuel hfirst hsecond session.depth [] []
      obtain ⟨_, mBoth, hevalBoth⟩ := m.exists_evaluates hget (first ++ "\n" ++ second)
      obtain ⟨rfl, hstoreBoth⟩ := EvalM.eq_of_outcome hevalBoth.outcome hboth
      have hlater {m' : Mirror hosts} : m'.right =
          { m.right with store := w.right, sessions := m.sessions.put slot session } →
          (mBoth.left.answerAll later).1 = (m'.left.answerAll later).1 := fun hright =>
        answerAll_eq_of_leads hignores hget hw (hstoreBoth ▸ hevalBoth.right) hright hsupplied
          hreleases
      obtain ⟨result, m₁, heval₁⟩ := m.exists_evaluates hget first
      rw [heval₁.answer, hevalBoth.answer]
      cases result with
      | error halt =>
          obtain ⟨rfl, hstore⟩ :=
            EvalM.eq_of_outcome (EvalM.outcome_bind_error heval₁.outcome _) hsplit
          cases hresults
          exact .firstRefused rfl rfl (hlater (hstore ▸ heval₁.right))
      | ok values =>
          replace hsplit := (EvalM.outcome_bind_ok heval₁.outcome _).symm.trans hsplit
          obtain ⟨result, m₂, heval₂⟩ := m₁.exists_evaluates heval₁.get? second
          have houtcome := heval₁.outcome_next heval₂
          have hright := heval₁.right_next heval₂
          rw [heval₂.answer]
          cases result with
          | error halt =>
              obtain ⟨rfl, hstore⟩ :=
                EvalM.eq_of_outcome (EvalM.outcome_bind_error houtcome _) hsplit
              cases hresults
              exact .secondRefused rfl rfl rfl (hlater (hstore ▸ hright))
          | ok more =>
              obtain ⟨rfl, hstore⟩ :=
                EvalM.eq_of_outcome (EvalM.outcome_bind_ok houtcome _) hsplit
              cases hresults with
              | @ok found _ hfound =>
                  have hshown : found.map mBoth.left.store.shown =
                      values.map m₂.left.store.shown ++ more.map m₂.left.store.shown := by
                    rw [mBoth.shown_eq_right, hstoreBoth, Renaming.shownAll_eq hfound, ← hstore,
                      ← m₂.shown_eq_right, List.map_append]
                  refine .answered rfl rfl (congrArg Reply.values hshown) (fun hpairs => ?_)
                    (hlater (hstore ▸ hright))
                  have hkept : values.map m₁.left.store.shown = values.map m₂.left.store.shown :=
                    List.map_congr_left fun value hvalue => m₁.twin.shown_kept hpairs heval₂.follows
                      (heval₁.values values rfl value hvalue)
                  rw [hkept]
                  exact congrArg Reply.values hshown

end Mirror

/-- **A text may be split at a line break.** Let two texts stand on separate lines. Their tokens are
those of the first without the mark of its end and those of the second, further into the text; an
error of the first is reported, or else one of the second. If both can be read, their forms are
those of the first and then those of the second. They are evaluated as the first text and then the
second, up to places, and a workspace answers accordingly, then and later. -/
theorem texts_on_separate_lines (first second : String) :
    (∀ cause, Token.scan first = .error cause →
      Token.scan (first ++ "\n" ++ second) = .error cause) ∧
    (∀ tokens others, Token.scan first = .ok tokens → Token.scan second = .ok others →
      Token.scan (first ++ "\n" ++ second)
        = .ok (tokens.dropLast ++ others.map (Token.shift (first.length + 1)))) ∧
    (∀ tokens cause, Token.scan first = .ok tokens → Token.scan second = .error cause →
      Token.scan (first ++ "\n" ++ second) = .error (cause.shift (first.length + 1))) ∧
    (∀ limit forms others, Datum.readWith limit first = .ok forms →
      Datum.readWith limit second = .ok others →
      Datum.readWith limit (first ++ "\n" ++ second) = .ok (forms ++ others)) ∧
    ∀ forms others, Datum.read first = .ok forms → Datum.read second = .ok others →
      (∀ (w : Renaming) (session session' : Session) (fuel : Nat), session.Matches w session' →
        Eval.Renames w Renaming.values (session.evalText fuel (first ++ "\n" ++ second))
          (do return (← session'.evalText fuel first) ++ (← session'.evalText fuel second))) ∧
      ∀ (files : Files) (before later : List Command) (slot : String),
        (∀ command ∈ before ++ later, command.Hosts HostFunction.Discreet) →
        (∀ command ∈ before ++ later, command.Hosts HostFunction.IgnoresPlaces) →
        (∀ command ∈ later, command.releases = false) →
        let workspace := (Workspace.answerAll { files } before).2
        Workspace.Joins later
          (workspace.answer (.session slot (.eval (first ++ "\n" ++ second))))
          (workspace.answer (.session slot (.eval first)))
          ((workspace.answer (.session slot (.eval first))).2.answer
            (.session slot (.eval second))) := by
  have hscan := Token.scan_lines first second
  refine ⟨?_, ?_, ?_, fun limit forms others => Datum.readWith_lines, ?_⟩
  · intro cause hfirst
    rw [hscan, hfirst]
    rfl
  · intro tokens others hfirst hsecond
    rw [hscan, hfirst, hsecond]
    rfl
  · intro tokens cause hfirst hsecond
    rw [hscan, hfirst, hsecond]
    rfl
  · intro forms others hfirst hsecond
    refine ⟨fun w session session' fuel hs => hs.evalText_lines fuel hfirst hsecond, ?_⟩
    intro files before later slot hdiscreet hignores hreleases workspace
    have hsupplied := fun command hcommand =>
      (hdiscreet command hcommand).and (hignores command hcommand)
    obtain ⟨hbefore, hlater⟩ := List.forall_mem_append.1 hsupplied
    obtain ⟨m, hleft, -⟩ := (Mirror.start files _ fun _ h => h.1).followAll rfl hbefore
    rw [show workspace = m.left from hleft]
    exact m.joins_lines (fun _ h => h.2) hfirst hsecond slot hlater hreleases

theorem HostFunction.ignoresPlaces_first : HostFunction.first.IgnoresPlaces := by
  intro depth w args args' hargs
  cases hargs with
  | nil => exact .ok .nil
  | cons hvalue _ => exact .ok hvalue

/-- The first text ends in a comment, which the second one is no part of, and calls a function that
the host has registered. -/
theorem texts_on_separate_lines_behind_comment :
    let first := "(def x (list 1 2)) (pick x) ;"
    let second := "(set-car! x 9)"
    let workspace := (Workspace.answerAll { files := fun _ => .error .missing }
      [.session "s" (.start 10 []), .session "s" (.register "pick" (.host .first))]).2
    ∃ forms others, Datum.read first = .ok forms ∧ Datum.read second = .ok others ∧
      Datum.read (first ++ "\n" ++ second) = .ok (forms ++ others) ∧
      Workspace.Joins [.session "s" (.eval "x")]
        (workspace.answer (.session "s" (.eval (first ++ "\n" ++ second))))
        (workspace.answer (.session "s" (.eval first)))
        ((workspace.answer (.session "s" (.eval first))).2.answer
          (.session "s" (.eval second))) := by
  intro first second workspace
  have hread : (Datum.read first).toOption.isSome = true ∧
      (Datum.read second).toOption.isSome = true := by
    decide +kernel
  obtain ⟨forms, hforms⟩ := Option.isSome_iff_exists.1 hread.1
  obtain ⟨others, hothers⟩ := Option.isSome_iff_exists.1 hread.2
  obtain ⟨-, -, -, hlines, hruns⟩ := texts_on_separate_lines first second
  have hfirst := eq_ok_of_toOption hforms
  have hsecond := eq_ok_of_toOption hothers
  refine ⟨forms, others, hfirst, hsecond, hlines _ forms others hfirst hsecond, ?_⟩
  exact (hruns forms others hfirst hsecond).2 _
    [.session "s" (.start 10 []), .session "s" (.register "pick" (.host .first))]
    [.session "s" (.eval "x")] "s" (by simp [Command.Hosts, HostFunction.discreet_first])
    (by simp [Command.Hosts, HostFunction.ignoresPlaces_first]) (by simp [Command.releases])

/-- The results that a reply shows. -/
def Reply.results : Reply → List Shown
  | .values shown => shown
  | _ => []

/-- What the second text does to a pair is seen in the results of the first if the two are given at
once, and not if they are given one after the other. -/
theorem results_shown_at_the_end :
    let first := "(def x (list 1 2)) x"
    let second := "(set-car! x 9)"
    let workspace := (Workspace.answerAll { census := none, fuel := 100 }
      [.session "s" (.start 10 [])]).2
    let both := workspace.answer (.session "s" (.eval (first ++ "\n" ++ second)))
    let one := workspace.answer (.session "s" (.eval first))
    let two := one.2.answer (.session "s" (.eval second))
    both.1.results = [⟨"X", "symbol"⟩, ⟨"(9 2)", "pair"⟩, ⟨"(9 2)", "pair"⟩] ∧
      one.1.results = [⟨"X", "symbol"⟩, ⟨"(1 2)", "pair"⟩] ∧
      two.1.results = [⟨"(9 2)", "pair"⟩] ∧
      both.1.results ≠ one.1.results ++ two.1.results := by
  decide +kernel

end SmallLisp
