import SmallLisp.Proofs.RenamedEvaluation
import SmallLisp.Proofs.Working

/-!
# Replies do not depend on places

Two workspaces match if their stores are a renaming and their slots hold matching things. They give
the same replies to all commands that follow, and match again afterwards. What they have in places
that are linked with nothing is never seen, and neither is the arena in which a session lives: a
session that has been moved elsewhere, with everything that it reaches, cannot tell.

Nothing is released here. What a release finds depends on all that was ever made, not only on what
can be reached.

## Main results

* `Renames.evaluate`, `Renames.startSession`, `Matches.putSession`, … — what commands are made of is
  done alike in both workspaces.
* `Workspace.Matches.answer`, `Workspace.Matches.answerAll` — the replies are the same.
-/

namespace SmallLisp

open List (Forall₂)

/-! ### What is shown -/

theorem Store.ShowAlike.shown {link : Item → Item → Prop} {left right : Store}
    (h : ShowAlike link left right) {value value' : Value} (hvalue : value.Matches link value') :
    left.shown value = right.shown value' := by
  rw [Store.shown, Store.shown, h.print hvalue, hvalue.typeName_eq]

namespace Renaming

variable {w : Renaming}

theorem shown_eq {value value' : Value} (h : w.value value value') :
    w.left.shown value = w.right.shown value' :=
  w.showAlike.shown h

theorem shownAll_eq {values values' : List Value} (h : w.values values values') :
    values.map w.left.shown = values'.map w.right.shown :=
  map_eq_map_of_forall₂ h fun _ _ => shown_eq

theorem shownOutcomes_eq {outcomes outcomes' : List (Except Error Value)}
    (h : Forall₂ (EqualUpTo w.value) outcomes outcomes') :
    outcomes.map (·.map w.left.shown) = outcomes'.map (·.map w.right.shown) := by
  refine map_eq_map_of_forall₂ h fun outcome outcome' houtcome => ?_
  cases houtcome with
  | error cause => rfl
  | ok hvalue => exact congrArg Except.ok (shown_eq hvalue)

theorem summary_eq {frame frame' : FrameRef} (h : w.frame frame frame') :
    w.left.summary frame = w.right.summary frame' := by
  rw [Store.summary, Store.summary, (table h).size_eq, hasParent_eq h]

theorem listing_eq {frame frame' : FrameRef} (h : w.frame frame frame') :
    w.left.listing frame = w.right.listing frame' :=
  map_eq_map_of_forall₂ (table h) fun _ _ hentry =>
    Prod.ext (congrArg Symbol.spelling hentry.1) (w.showAlike.print hentry.2)

theorem describe_eq {value value' : Value} (h : w.value value value') :
    w.left.describe value = w.right.describe value' := by
  simp only [Store.describe, shown_eq h, h.isTruthy_eq, h.symbol?_eq, h.integer?_eq,
    h.eq_iff w.unique (.nil : w.value .nil .nil)]

end Renaming

/-! ### Slots -/

namespace Slots

variable {α β : Type} {R S : α → β → Prop} {slots : Slots α} {slots' : Slots β}

/-- The slots have the same names and hold related things. -/
def Match (R : α → β → Prop) (slots : Slots α) (slots' : Slots β) : Prop :=
  Forall₂ (SameKey R) slots slots'

theorem Match.imp (h : Match R slots slots') (himp : ∀ a b, R a b → S a b) :
    Match S slots slots' :=
  List.Forall₂.imp (fun _ _ hentry => ⟨hentry.1, himp _ _ hentry.2⟩) h

theorem match_self {R : α → α → Prop} (h : ∀ content ∈ slots.contents, R content content) :
    Match R slots slots :=
  List.forall₂_same.2 fun entry hentry => ⟨rfl, h entry.2 (List.mem_map_of_mem hentry)⟩

theorem Match.get? (h : Match R slots slots') (name : String) :
    Option.Rel R (slots.get? name) (slots'.get? name) := by
  induction h with
  | nil => exact .none
  | @cons entry entry' _ _ hentry _ ih =>
      obtain ⟨key, content⟩ := entry
      obtain ⟨key', content'⟩ := entry'
      obtain ⟨rfl, hcontent⟩ : key = key' ∧ R content content' := hentry
      rw [Slots.get?, Slots.get?, List.lookup_cons, List.lookup_cons]
      split
      · exact .some hcontent
      · exact ih

theorem Match.remove (h : Match R slots slots') (name : String) :
    Match R (slots.remove name) (slots'.remove name) :=
  List.rel_filter (fun _ _ hentry => by simp [hentry.1]) h

theorem Match.put (h : Match R slots slots') (name : String) {content : α} {content' : β}
    (hcontent : R content content') : Match R (slots.put name content) (slots'.put name content') :=
  .cons ⟨rfl, hcontent⟩ (h.remove name)

theorem Match.contents (h : Match R slots slots') : Forall₂ R slots.contents slots'.contents := by
  rw [Slots.contents, Slots.contents, List.forall₂_map_left_iff, List.forall₂_map_right_iff]
  exact List.Forall₂.imp (fun _ _ hentry => hentry.2) h

end Slots

/-! ### Workspaces that match -/

/-- The workspaces hold matching things, over the two stores of a renaming. -/
structure Workspace.Matches (w : Renaming) (left right : Workspace) : Prop where
  left_eq : left.store = w.left
  right_eq : right.store = w.right
  census : left.census = none
  census' : right.census = none
  sessions : Slots.Match (Session.Matches w) left.sessions right.sessions
  values : Slots.Match w.value left.values right.values
  environments : Slots.Match w.frame left.environments right.environments
  files : left.files = right.files
  fuel : left.fuel = right.fuel
  arena_lt : Workspace.arena < w.left.arenas.size
  arena_lt' : Workspace.arena < w.right.arenas.size

namespace Workspace.Matches

variable {w w' : Renaming} {left right : Workspace} (h : left.Matches w right)
include h

/-- Both stores are changed. -/
theorem onto (hw : w.Extends w') :
    { left with store := w'.left }.Matches w' { right with store := w'.right } :=
  { h with
    left_eq := rfl
    right_eq := rfl
    sessions := h.sessions.imp fun _ _ hs => hs.mono hw
    values := h.values.imp fun _ _ => hw.value
    environments := h.environments.imp fun _ _ => hw.frame
    arena_lt := hw.left_lt h.arena_lt
    arena_lt' := hw.right_lt h.arena_lt' }

theorem mem_liveGlobals {frame frame' : FrameRef} (hframe : w.frame frame frame') :
    frame ∈ left.liveGlobals ↔ frame' ∈ right.liveGlobals := by
  have hkeeps : w.frames (left.sessions.contents.flatMap Session.keeps)
      (right.sessions.contents.flatMap Session.keeps) :=
    List.rel_flatMap h.sessions.contents fun _ _ hs => .cons hs.globals hs.origins
  rw [liveGlobals, liveGlobals, List.mem_eraseDups, List.mem_eraseDups]
  generalize left.sessions.contents.flatMap Session.keeps = kept at hkeeps ⊢
  generalize right.sessions.contents.flatMap Session.keeps = kept' at hkeeps ⊢
  induction hkeeps with
  | nil => simp
  | cons hkept _ ih =>
      rw [List.mem_cons, List.mem_cons]
      exact or_congr (Renaming.frame_eq_iff hframe hkept) ih

/-- The same frames are cleared, up to places. -/
theorem retire {session session' : Session} (hs : session.Matches w session') :
    ∃ w', (left.retire session).Matches w' (right.retire session') ∧ w.Extends w' := by
  have hgone : w.frames (session.keeps.filter (!left.liveGlobals.contains ·))
      (session'.keeps.filter (!right.liveGlobals.contains ·)) := by
    refine List.rel_filter (fun frame frame' hframe => ?_) (.cons hs.globals hs.origins)
    simp [h.mem_liveGlobals hframe]
  obtain ⟨w', hleft, hright, hw⟩ := Renaming.clearAll hgone
  refine ⟨w', ?_, hw.toExtends⟩
  have hafter := h.onto hw.toExtends
  rwa [← hleft, ← hright, ← h.left_eq, ← h.right_eq] at hafter

theorem putSession {session session' : Session} (hs : session.Matches w session') (name : String) :
    ∃ w', (left.putSession name session).Matches w' (right.putSession name session') ∧
      w.Extends w' := by
  have hfilled : { left with sessions := left.sessions.put name session }.Matches w
      { right with sessions := right.sessions.put name session' } :=
    { h with sessions := h.sessions.put name hs }
  have hold := h.sessions.get? name
  rw [Workspace.putSession, Workspace.putSession]
  generalize left.sessions.get? name = old at hold ⊢
  generalize right.sessions.get? name = old' at hold ⊢
  cases hold with
  | none => exact ⟨w, hfilled, .refl w⟩
  | some hold => exact hfilled.retire hold

theorem dropSession (name : String) :
    ∃ w', (left.dropSession name).Matches w' (right.dropSession name) ∧ w.Extends w' := by
  have hemptied : { left with sessions := left.sessions.remove name }.Matches w
      { right with sessions := right.sessions.remove name } :=
    { h with sessions := h.sessions.remove name }
  have hold := h.sessions.get? name
  rw [Workspace.dropSession, Workspace.dropSession]
  generalize left.sessions.get? name = old at hold ⊢
  generalize right.sessions.get? name = old' at hold ⊢
  cases hold with
  | none => exact ⟨w, h, .refl w⟩
  | some hold => exact hemptied.retire hold

end Workspace.Matches

/-! ### New sessions -/

/-- What a new session binds has no place. -/
theorem Session.initialGlobals_matches (link : Item → Item → Prop) :
    Session.initialGlobals.Matches (Value.Matches link) Session.initialGlobals :=
  List.forall₂_same.2 fun _ hentry => ⟨rfl, Value.matches_self_of_items_eq_nil
    (Session.items_initialGlobals _ (List.mem_map_of_mem hentry))⟩

namespace Renaming

/-- A new session in each store. -/
theorem create (w : Renaming) (maxDepth : Nat) :
    w.Changes (Session.create w.left maxDepth) (Session.create w.right maxDepth)
      fun w' session session' => session.Matches w' session' := by
  obtain ⟨w₁, hleft, hright, hw₁, harena, harena'⟩ := w.addArena
  have hframe : (Frame.mk Session.initialGlobals []).Matches w₁.link
      (Frame.mk Session.initialGlobals []) := ⟨Session.initialGlobals_matches w₁.link, .nil⟩
  obtain ⟨w₂, hleft₂, hright₂, hw₂, hglobals⟩ := addFrame harena harena' hframe
  refine ⟨w₂, ?_, ?_, hw₁.trans hw₂, ?_⟩
  · rw [← hleft₂, ← hleft]
    rfl
  · rw [← hright₂, ← hright]
    rfl
  · rw [← hleft, ← hright] at hglobals
    exact ⟨hglobals, .nil, rfl, Session.primitives_hosts _, rfl, rfl⟩

/-- **A session that starts** in each store: the outcomes are the same, and the sessions match. -/
theorem start (w : Renaming) (fuel : Nat) (files : Files) (maxDepth : Nat) (preload : List String)
    (held held' : List Hold) :
    ∃ (result : Except Halt Unit) (session session' : Session) (w' : Renaming),
      Session.start fuel files maxDepth preload held w.left none =
        (result, session, w'.left, none) ∧
      Session.start fuel files maxDepth preload held' w.right none =
        (result, session', w'.right, none) ∧ session.Matches w' session' ∧ w.Extends w' := by
  obtain ⟨w₁, hleft, hright, hw₁, hs⟩ := w.create maxDepth
  rw [Session.start, Session.start]
  generalize Session.create w.left maxDepth = made at hleft hs ⊢
  generalize Session.create w.right maxDepth = made' at hright hs ⊢
  obtain ⟨session, left⟩ := made
  obtain ⟨session', right⟩ := made'
  obtain rfl : left = w₁.left := hleft
  obtain rfl : right = w₁.right := hright
  obtain ⟨result, result', w₂, hrun, hrun', hw₂, hresult⟩ := hs.loadAll fuel files preload
    session.depth (.frames session.keeps :: held) (.frames session'.keeps :: held')
  obtain rfl : result = result' := by cases hresult <;> rfl
  have hdepth : session.depth = session'.depth := hs.depth
  exact ⟨result, session, session', w₂, Session.execute_eq hrun rfl,
    Session.execute_eq (hdepth ▸ hrun') rfl, hs.mono hw₂.toExtends, (hw₁.trans hw₂).toExtends⟩

theorem fork {session session' : Session} {w : Renaming} (hs : session.Matches w session') :
    w.Changes (session.fork w.left) (session'.fork w.right)
      fun w' forked forked' => forked.Matches w' forked' := by
  obtain ⟨w₁, hleft, hright, hw₁, harena, harena'⟩ := w.addArena
  obtain ⟨w₂, hleft₂, hright₂, hw₂, hglobals⟩ :=
    snapshot harena harena' (hw₁.frame hs.globals)
  have hs₂ := hs.mono (hw₁.trans hw₂).toExtends
  refine ⟨w₂, ?_, ?_, hw₁.trans hw₂, ?_⟩
  · rw [← hleft₂, ← hleft]
    rfl
  · rw [← hright₂, ← hright]
    rfl
  · rw [← hleft, ← hright] at hglobals
    exact ⟨hglobals, .cons hs₂.globals hs₂.origins, hs.natives, hs.ignores, hs.maxDepth, rfl⟩

theorem register {session session' : Session} {w : Renaming} (hs : session.Matches w session')
    (name : Symbol) {native : Native}
    (hnative : ∀ function, native = .host function → function.IgnoresPlaces) :
    w.Changes (session.register w.left name native) (session'.register w.right name native)
      fun w' after after' => after.Matches w' after' := by
  obtain ⟨w', hleft, hright, hw⟩ := bind hs.globals name (.builtin name : w.value _ _)
  refine ⟨w', hleft, hright, hw, ?_⟩
  have hs' := hs.mono hw.toExtends
  exact ⟨hs'.globals, hs'.origins, by rw [Session.register, Session.register, hs.natives],
    hs.ignores.insert name hnative, hs.maxDepth, hs.depth⟩

end Renaming

/-! ### Work in matching workspaces -/

namespace WorkM

variable {α β γ δ : Type} {w : Renaming}

/-- Done in workspaces that match, the work has the same outcome up to places, and they match
again. -/
def Renames (w : Renaming) (post : Renaming → α → β → Prop) (f : WorkM α) (g : WorkM β) : Prop :=
  ∀ left right : Workspace, left.Matches w right → ∃ result result' left' right' w',
    f.outcome left = (result, left') ∧ g.outcome right = (result', right') ∧
    left'.Matches w' right' ∧ w.Extends w' ∧ EqualUpTo (post w') result result'

namespace Renames

variable {post : Renaming → α → β → Prop} {f : WorkM α} {g : WorkM β}

theorem pure {a : α} {b : β} (h : post w a b) : Renames w post (pure a) (pure b) :=
  fun _ _ hmatches => ⟨_, _, _, _, w, rfl, rfl, hmatches, .refl w, .ok h⟩

theorem throw (reason : Refusal) : Renames w post (throw reason) (throw reason) :=
  fun _ _ hmatches => ⟨_, _, _, _, w, rfl, rfl, hmatches, .refl w, .error _⟩

theorem bind {P : Renaming → α → β → Prop} {post : Renaming → γ → δ → Prop} {k : α → WorkM γ}
    {l : β → WorkM δ} (h : Renames w P f g)
    (hk : ∀ w', w.Extends w' → ∀ a b, P w' a b → Renames w' post (k a) (l b)) :
    Renames w post (f >>= k) (g >>= l) := by
  intro left right hmatches
  obtain ⟨result, result', left', right', w', hleft, hright, hmatches', hw, hresult⟩ :=
    h left right hmatches
  cases hresult with
  | error reason =>
      exact ⟨_, _, left', right', w', outcome_bind_error hleft k, outcome_bind_error hright l,
        hmatches', hw, .error reason⟩
  | @ok a b hP =>
      obtain ⟨final, final', left'', right'', w'', hleft', hright', hmatches'', hw', hfinal⟩ :=
        hk w' hw a b hP left' right' hmatches'
      exact ⟨final, final', left'', right'', w'', (outcome_bind_ok hleft k).trans hleft',
        (outcome_bind_ok hright l).trans hright', hmatches'', hw.trans hw', hfinal⟩

theorem get {k : Workspace → WorkM α} {l : Workspace → WorkM β}
    (h : ∀ left right, left.Matches w right → Renames w post (k left) (l right)) :
    Renames w post (get >>= k) (get >>= l) :=
  fun left right hmatches => h left right hmatches left right hmatches

theorem modified {change change' : Workspace → Workspace} {post : Renaming → Unit → Unit → Prop}
    (h : ∀ left right, left.Matches w right → ∃ w',
      (change left).Matches w' (change' right) ∧ w.Extends w' ∧ post w' () ()) :
    Renames w post (modify change) (modify change') := by
  intro left right hmatches
  obtain ⟨w', hmatches', hw, hpost⟩ := h left right hmatches
  exact ⟨_, _, _, _, w', rfl, rfl, hmatches', hw, .ok hpost⟩

theorem inspect {view : Store → α} {view' : Store → β} (h : post w (view w.left) (view' w.right)) :
    Renames w post (WorkM.inspect view) (WorkM.inspect view') := by
  intro left right hmatches
  refine ⟨_, _, left, right, w, rfl, rfl, hmatches, .refl w, .ok ?_⟩
  rw [hmatches.left_eq, hmatches.right_eq]
  exact h

theorem update {change : Store → α × Store} {change' : Store → β × Store}
    (h : w.Changes (change w.left) (change' w.right) post) :
    Renames w post (WorkM.update change) (WorkM.update change') := by
  obtain ⟨w', hleft, hright, hw, hpost⟩ := h
  intro left right hmatches
  refine ⟨_, _, _, _, w', rfl, rfl, ?_, hw.toExtends, .ok ?_⟩
  · rw [hmatches.left_eq, hmatches.right_eq, hleft, hright]
    exact hmatches.onto hw.toExtends
  · rw [hmatches.left_eq, hmatches.right_eq]
    exact hpost

theorem slot {R : α → β → Prop} {slots : Workspace → Slots α} {slots' : Workspace → Slots β}
    (name : String)
    (h : ∀ left right, left.Matches w right → Slots.Match R (slots left) (slots' right)) :
    Renames w (fun w' a b => w' = w ∧ R a b) (WorkM.slot name slots) (WorkM.slot name slots') := by
  refine get fun left right hmatches => ?_
  have hcontent := (h left right hmatches).get? name
  generalize (slots left).get? name = content at hcontent ⊢
  generalize (slots' right).get? name = content' at hcontent ⊢
  cases hcontent with
  | none => exact throw _
  | some hcontent => exact pure ⟨rfl, hcontent⟩

/-- Work that leaves the workspaces as they are, and what is done with its result. -/
theorem look {R : α → β → Prop} {post : Renaming → γ → δ → Prop} {k : α → WorkM γ}
    {l : β → WorkM δ} (h : Renames w (fun w' a b => w' = w ∧ R a b) f g)
    (hk : ∀ a b, R a b → Renames w post (k a) (l b)) :
    Renames w post (f >>= k) (g >>= l) := by
  refine bind h ?_
  rintro _ - a b ⟨rfl, hab⟩
  exact hk a b hab

theorem session (name : String) :
    Renames w (fun w' a b => w' = w ∧ a.Matches w b) (WorkM.session name) (WorkM.session name) :=
  slot name fun _ _ hmatches => hmatches.sessions

/-- There is a session in the slot in both workspaces, or in neither. -/
theorem occupied (name : String) :
    Renames w (fun w' _ _ => w' = w ∧ True) (discard (WorkM.session name))
      (discard (WorkM.session name)) :=
  look (session name) fun _ _ _ => pure ⟨rfl, trivial⟩

theorem value (name : String) :
    Renames w (fun w' a b => w' = w ∧ w.value a b) (WorkM.value name) (WorkM.value name) :=
  slot name fun _ _ hmatches => hmatches.values

theorem environment (name : String) :
    Renames w (fun w' a b => w' = w ∧ w.frame a b) (WorkM.environment name)
      (WorkM.environment name) :=
  slot name fun _ _ hmatches => hmatches.environments

theorem valuesNamed (names : List String) :
    Renames w (fun w' a b => w' = w ∧ w.values a b) (names.mapM WorkM.value)
      (names.mapM WorkM.value) := by
  induction names with
  | nil => exact pure ⟨rfl, .nil⟩
  | cons name rest ih =>
      rw [List.mapM_cons]
      exact look (value name) fun _ _ hfirst => look ih fun _ _ hothers =>
        pure ⟨rfl, .cons hfirst hothers⟩

theorem orError {ε : Type} (wrap : ε → Error) {R : α → β → Prop} {outcome : Except ε α}
    {outcome' : Except ε β} (h : EqualUpTo R outcome outcome') :
    Renames w (fun w' a b => w' = w ∧ R a b) (WorkM.orError wrap outcome)
      (WorkM.orError wrap outcome') := by
  cases h with
  | ok hab => exact pure ⟨rfl, hab⟩
  | error cause => exact throw _

theorem readOne {arena arena' : Nat} (harena : arena < w.left.arenas.size)
    (harena' : arena' < w.right.arenas.size) (text : String) :
    Renames w Renaming.value (WorkM.readOne arena text) (WorkM.readOne arena' text) := by
  refine look (R := Eq) (orError .text (.refl _)) ?_
  rintro datum _ rfl
  show Renames w Renaming.value (WorkM.update (·.ofDatum arena datum))
    (WorkM.update (·.ofDatum arena' datum))
  exact update (Renaming.ofDatum harena harena' datum)

/-- **An evaluation in a session** gives the same up to places. -/
theorem evaluate (name : String) {evaluation : Session → EvalM α} {evaluation' : Session → EvalM β}
    (h : ∀ session session', session.Matches w session' →
      Eval.Renames w post (evaluation session) (evaluation' session')) :
    Renames w post (WorkM.evaluate name evaluation) (WorkM.evaluate name evaluation') := by
  intro left right hmatches
  have hslot := hmatches.sessions.get? name
  rcases hleft : left.sessions.get? name with _ | session
  · rw [hleft] at hslot
    rcases hright : right.sessions.get? name with _ | session'
    · exact ⟨_, _, left, right, w, outcome_evaluate_none hleft _, outcome_evaluate_none hright _,
        hmatches, .refl w, .error _⟩
    · rw [hright] at hslot
      cases hslot
  · rw [hleft] at hslot
    rcases hright : right.sessions.get? name with _ | session'
    · rw [hright] at hslot
      cases hslot
    · rw [hright] at hslot
      cases hslot with
      | some hs =>
          obtain ⟨result, result', w', hrun, hrun', hw, hresult⟩ := h session session' hs
            session.depth (.frames session.keeps :: left.held)
            (.frames session'.keeps :: right.held)
          rw [← hmatches.left_eq, ← hmatches.census] at hrun
          rw [← hmatches.right_eq, ← hmatches.census', hs.depth] at hrun'
          refine ⟨_, _, _, _, w', outcome_evaluate hleft hrun rfl,
            outcome_evaluate hright hrun' rfl, ?_, hw.toExtends, ?_⟩
          · have hafter := hmatches.onto hw.toExtends
            exact { hafter with
              census := hmatches.census
              census' := hmatches.census'
              sessions := hafter.sessions.put name (hs.mono hw.toExtends) }
          · cases hresult with
            | ok hpost => exact .ok hpost
            | error halt => exact .error _

/-- The same is seen in both stores, and shown. -/
theorem view {view view' : Store → α} (answer : α → Reply) (h : view w.left = view' w.right) :
    Renames w (fun _ reply reply' => reply = reply')
      (WorkM.inspect view >>= fun seen => Pure.pure (answer seen))
      (WorkM.inspect view' >>= fun seen => Pure.pure (answer seen)) :=
  bind (P := fun _ seen seen' => seen = seen') (inspect h) fun _ _ _ _ heq =>
    pure (congrArg answer heq)

theorem giveValue (target : Option String) {found found' : Value} (hfound : w.value found found') :
    Renames w (fun _ reply reply' => reply = reply') (WorkM.giveValue target found)
      (WorkM.giveValue target found') := by
  refine bind (P := fun _ _ _ => True) ?_ fun w' hw _ _ _ =>
    view Reply.value (Renaming.shown_eq (hw.value hfound))
  cases target with
  | none => exact pure trivial
  | some name =>
      refine modified fun left right hmatches => ⟨w, ?_, .refl w, trivial⟩
      exact { hmatches with values := hmatches.values.put name hfound }

theorem giveEnvironment (target : String) {frame frame' : FrameRef}
    (hframe : w.frame frame frame') :
    Renames w (fun _ reply reply' => reply = reply') (WorkM.giveEnvironment target frame)
      (WorkM.giveEnvironment target frame') := by
  refine bind (P := fun _ _ _ => True) ?_ fun w' hw _ _ _ =>
    view Reply.environment (Renaming.summary_eq (hw.frame hframe))
  refine modified fun left right hmatches => ⟨w, ?_, .refl w, trivial⟩
  exact { hmatches with environments := hmatches.environments.put target hframe }

/-- Both workspaces are changed, and that is all. -/
theorem done {change change' : Workspace → Workspace}
    (h : ∀ left right, left.Matches w right → ∃ w',
      (change left).Matches w' (change' right) ∧ w.Extends w') :
    Renames w (fun _ reply reply' => reply = reply') (do modify change; return Reply.done)
      (do modify change'; return Reply.done) := by
  refine bind (P := fun _ _ _ => True) (modified fun left right hmatches => ?_)
    fun _ _ _ _ _ => pure rfl
  obtain ⟨w', hmatches', hw⟩ := h left right hmatches
  exact ⟨w', hmatches', hw, trivial⟩

theorem changePair (pair part : String) {change : Store → CellRef → Value → Store}
    (hchange : ∀ {ref ref' : CellRef}, w.link (.cell ref) (.cell ref') →
      ∀ {new new' : Value}, w.value new new' →
        w.Becomes (change w.left ref new) (change w.right ref' new')) :
    Renames w (fun _ reply reply' => reply = reply') (WorkM.changePair pair part change)
      (WorkM.changePair pair part change) := by
  refine look (value part) fun new new' hnew => look (value pair) fun target target' htarget => ?_
  cases htarget with
  | pair href =>
      exact bind (update (hchange href hnew).changes) fun w' hw _ _ _ =>
        view Reply.value (Renaming.shown_eq (.pair (hw.link href)))
  | _ => exact throw _

theorem elementsOf {subject subject' : Value} (hsubject : w.value subject subject') :
    Renames w (fun w' a b => w' = w ∧ w.values a b) (WorkM.elementsOf subject)
      (WorkM.elementsOf subject') :=
  look (inspect ⟨rfl, w.showAlike.properElements hsubject⟩) fun _ _ hfound => orError id hfound

/-- A lambda over matching environments and the same texts. -/
theorem makeLambda (harena : Workspace.arena < w.left.arenas.size)
    (harena' : Workspace.arena < w.right.arenas.size) (scope spec body : String)
    (name : Option String) :
    Renames w Renaming.lambda (WorkM.makeLambda scope spec body name)
      (WorkM.makeLambda scope spec body name) := by
  refine look (environment scope) fun frame frame' hframe => ?_
  refine bind (readOne harena harena' spec) fun w₁ hw₁ _ _ hspec => ?_
  refine look (R := Eq) (inspect ⟨rfl, w₁.showAlike.params hspec⟩) ?_
  rintro found _ rfl
  refine look (R := Eq) (orError .eval (.refl found)) ?_
  rintro params _ rfl
  refine look (R := Eq) (orError .text (.refl _)) ?_
  rintro data _ rfl
  refine bind (update (Renaming.ofData (hw₁.left_lt harena) (hw₁.right_lt harena') data))
    fun w₂ hw₂ forms forms' hforms => ?_
  have hw := hw₁.trans hw₂
  exact update (Renaming.addLambda (hw.left_lt harena) (hw.right_lt harena')
    ⟨rfl, rfl, hforms, hw.frame hframe⟩)

/-! ### Sessions that come and go -/

/-- A session that starts, or the reason why it does not. -/
theorem startSession (slot : String) (maxDepth : Nat) (preload : List String) :
    Renames w (fun _ _ _ => True) (WorkM.startSession slot maxDepth preload)
      (WorkM.startSession slot maxDepth preload) := by
  intro left right hmatches
  obtain ⟨result, session, session', w', hstart, hstart', hs, hw⟩ :=
    w.start left.fuel left.files maxDepth preload left.held right.held
  have hleft : Session.start left.fuel left.files maxDepth preload left.held left.store
      left.census = (result, session, w'.left, none) := by
    rw [hmatches.left_eq, hmatches.census, hstart]
  have hright : Session.start right.fuel right.files maxDepth preload right.held right.store
      right.census = (result, session', w'.right, none) := by
    rw [hmatches.right_eq, hmatches.census', ← hmatches.fuel, ← hmatches.files, hstart']
  cases result with
  | error halt =>
      exact ⟨_, _, left, right, w, outcome_startSession_error hleft slot,
        outcome_startSession_error hright slot, hmatches, .refl w, .error _⟩
  | ok _ =>
      have hafter : { left with store := w'.left, census := none }.Matches w'
          { right with store := w'.right, census := none } :=
        { hmatches.onto hw with census := rfl, census' := rfl }
      obtain ⟨w'', hput, hw'⟩ := hafter.putSession hs slot
      exact ⟨_, _, _, _, w'', outcome_startSession_ok hleft slot,
        outcome_startSession_ok hright slot, hput, hw.trans hw', .ok trivial⟩

end Renames

end WorkM

/-! ### Commands -/

open WorkM

/-- Carried out in workspaces that match, the command gets the same reply. -/
abbrev RepliesAlike (work : WorkM Reply) : Prop :=
  ∀ w : Renaming, Workspace.arena < w.left.arenas.size → Workspace.arena < w.right.arenas.size →
    WorkM.Renames w (fun _ reply reply' => reply = reply') work work

theorem ValueCommand.perform_renames (command : ValueCommand) : RepliesAlike command.perform := by
  intro w harena harena'
  cases command with
  | read text target =>
      exact .bind (.readOne harena harena' text) fun _ _ _ _ hvalue => .giveValue target hvalue
  | symbol name target => exact .giveValue target (.symbol _)
  | builtin name target => exact .giveValue target (.builtin _)
  | cons car cdr target =>
      refine .look (.value car) fun _ _ hcar => .look (.value cdr) fun _ _ hcdr => ?_
      exact .bind (.update (Renaming.cons harena harena' hcar hcdr)) fun _ _ _ _ hpair =>
        .giveValue target hpair
  | list items tail target =>
      refine .look (.valuesNamed items) fun _ _ hitems => ?_
      have hlast : ∀ last last', w.value last last' → WorkM.Renames w
          (fun _ reply reply' => reply = reply')
          (update (·.listWithTail Workspace.arena _ last) >>= WorkM.giveValue target)
          (update (·.listWithTail Workspace.arena _ last') >>= WorkM.giveValue target) :=
        fun _ _ hlast => .bind (.update (Renaming.listWithTail harena harena' hitems hlast))
          fun _ _ _ _ hlist => .giveValue target hlist
      cases tail with
      | none => exact hlast .nil .nil .nil
      | some name => exact .look (.value name) hlast
  | setCar pair part => exact .changePair pair part Renaming.setCar
  | setCdr pair part => exact .changePair pair part Renaming.setCdr
  | describe name =>
      exact .look (.value name) fun _ _ hvalue =>
        .view Reply.description (Renaming.describe_eq hvalue)
  | elements name =>
      refine .look (.value name) fun _ _ hvalue => .look (.elementsOf hvalue) fun _ _ hitems => ?_
      exact .view Reply.items (Renaming.shownAll_eq hitems)
  | compare left right =>
      refine .look (.value left) fun a a' ha => .look (.value right) fun b b' hb => ?_
      rw [decide_eq_decide.2 (ha.eq_iff w.unique hb)]
      exact .view (Reply.comparison _) (w.showAlike.equal? ha hb)
  | forget name =>
      exact .done fun left right hmatches =>
        ⟨w, { hmatches with values := hmatches.values.remove name }, .refl w⟩
  | lambda scope spec body name isMacro target =>
      refine .bind (.makeLambda harena harena' scope spec body name) fun _ _ _ _ href => ?_
      cases isMacro with
      | true => exact .giveValue target (.expander href)
      | false => exact .giveValue target (.closure href)

theorem EnvironmentCommand.perform_renames {command : EnvironmentCommand}
    (hreleases : (Command.environment command).releases = false) :
    RepliesAlike command.perform := by
  intro w harena harena'
  cases command with
  | newRoot target =>
      exact .bind (.update (Renaming.newRoot harena harena')) fun _ _ _ _ hframe =>
        .giveEnvironment target hframe
  | extend env target =>
      refine .look (.environment env) fun _ _ hframe => ?_
      exact .bind (.update (Renaming.extend harena harena' hframe)) fun _ _ _ _ hnew =>
        .giveEnvironment target hnew
  | snapshot env target =>
      refine .look (.environment env) fun _ _ hframe => ?_
      exact .bind (.update (Renaming.snapshot harena harena' hframe)) fun _ _ _ _ hnew =>
        .giveEnvironment target hnew
  | handle env target =>
      exact .look (.environment env) fun _ _ hframe => .giveEnvironment target hframe
  | root env target =>
      refine .look (.environment env) fun _ _ hframe => ?_
      exact .bind (.inspect (Renaming.root hframe)) fun _ _ _ _ hroot =>
        .giveEnvironment target hroot
  | forget env =>
      exact .done fun left right hmatches =>
        ⟨w, { hmatches with environments := hmatches.environments.remove env }, .refl w⟩
  | bind env name slot =>
      refine .look (.environment env) fun _ _ hframe => .look (.value slot) fun _ _ hvalue => ?_
      exact .bind (.update (Renaming.bind hframe _ hvalue).changes) fun _ hw _ _ _ =>
        .view Reply.environment (Renaming.summary_eq (hw.frame hframe))
  | lookup env name target =>
      refine .look (.environment env) fun _ _ hframe => ?_
      refine .look (.inspect ⟨rfl, Renaming.lookup hframe _⟩) fun found found' hfound => ?_
      cases hfound with
      | none => exact .pure rfl
      | some hvalue => exact .giveValue target hvalue
  | contains env name =>
      refine .look (.environment env) fun _ _ hframe => ?_
      refine .look (.inspect ⟨rfl, Renaming.lookup hframe _⟩) fun found found' hfound => ?_
      cases hfound with
      | none => exact .pure rfl
      | some _ => exact .pure rfl
  | bindings env =>
      exact .look (.environment env) fun _ _ hframe =>
        .view Reply.bindings (Renaming.listing_eq hframe)
  | same left right =>
      refine .look (.environment left) fun a a' ha => .look (.environment right) fun b b' hb => ?_
      exact .pure (congrArg Reply.same (decide_eq_decide.2 (Renaming.frame_eq_iff ha hb)))
  | clear env =>
      refine .look (.environment env) fun _ _ hframe => ?_
      exact .bind (.update (Renaming.clear hframe).changes) fun _ hw _ _ _ =>
        .view Reply.environment (Renaming.summary_eq (hw.frame hframe))
  | release env => cases hreleases

theorem SessionCommand.perform_renames {slot : String} {command : SessionCommand}
    (hignores : (Command.session slot command).Hosts HostFunction.IgnoresPlaces) :
    RepliesAlike (command.perform slot) := by
  intro w harena harena'
  refine .get fun left right hmatches => ?_
  rw [← hmatches.fuel]
  cases command with
  | start maxDepth preload =>
      exact .bind (.startSession slot maxDepth preload) fun _ _ _ _ _ => .pure rfl
  | fork target =>
      refine .look (.session slot) fun _ _ hs => ?_
      exact .bind (.update (Renaming.fork hs)) fun _ _ _ _ hforked =>
        .done fun _ _ hmatches => hmatches.putSession hforked target
  | clone target =>
      exact .look (.session slot) fun _ _ hs => .done fun _ _ hmatches =>
        hmatches.putSession hs target
  | drop =>
      exact .look (.occupied slot) fun _ _ _ => .done fun _ _ hmatches => hmatches.dropSession slot
  | eval text =>
      exact .bind (.evaluate slot fun _ _ hs => hs.evalText _ text) fun _ _ _ _ hvalues =>
        .view Reply.values (Renaming.shownAll_eq hvalues)
  | evalLast text target =>
      exact .bind (.evaluate slot fun _ _ hs => hs.evalTextLast _ text) fun _ _ _ _ hvalue =>
        .giveValue target hvalue
  | evalLine line =>
      exact .bind (.evaluate slot fun _ _ hs => hs.evalLine _ line) fun _ _ _ _ houtcomes =>
        .view Reply.outcomes (Renaming.shownOutcomes_eq houtcomes)
  | load path target =>
      refine .get fun left' right' hmatches' => ?_
      rw [← hmatches'.files]
      exact .bind (.evaluate slot fun _ _ hs => hs.load _ _ path) fun _ _ _ _ hvalue =>
        .giveValue target hvalue
  | evalValue form target =>
      refine .look (.value form) fun _ _ hform => ?_
      exact .bind (.evaluate slot fun _ _ hs => hs.evalGlobal _ hform) fun _ _ _ _ hvalue =>
        .giveValue target hvalue
  | evalIn env text target =>
      refine .look (.environment env) fun _ _ hframe => .look (.session slot) fun _ _ hs => ?_
      refine .bind (.readOne hs.arena_lt hs.arena_lt' text) fun w' hw _ _ hform => ?_
      exact .bind (.evaluate slot fun _ _ hs => hs.evalIn _ hform (hw.frame hframe))
        fun _ _ _ _ hvalue => .giveValue target hvalue
  | apply function args target =>
      refine .look (.value function) fun _ _ hcallee => .look (.valuesNamed args)
        fun _ _ hargs => ?_
      exact .bind (.evaluate slot fun _ _ hs => hs.apply _ hcallee hargs) fun _ _ _ _ hvalue =>
        .giveValue target hvalue
  | expand text target =>
      refine .look (.session slot) fun _ _ hs => ?_
      refine .bind (.readOne hs.arena_lt hs.arena_lt' text) fun w' hw _ _ hform => ?_
      exact .bind (.evaluate slot fun _ _ hs => hs.expandOnce _ hform) fun _ _ _ _ hvalue =>
        .giveValue target hvalue
  | globals target =>
      exact .look (.session slot) fun _ _ hs => .giveEnvironment target hs.globals
  | symbols =>
      refine .look (.session slot) fun _ _ hs => ?_
      exact .view Reply.symbols
        (congrArg (List.map Symbol.spelling) (Renaming.table hs.globals).symbols_eq)
  | depth => exact .look (.session slot) fun _ _ hs => .pure (congrArg Reply.depth hs.depth)
  | isSpecial name => exact .look (.occupied slot) fun _ _ _ => .pure rfl
  | register name native =>
      refine .look (.session slot) fun _ _ hs => ?_
      refine .bind (.update (Renaming.register hs _ ?_)) fun w' hw after after' hafter => ?_
      · exact hignores.native
      · exact .done fun _ _ hmatches =>
          ⟨w', { hmatches with sessions := hmatches.sessions.put slot hafter }, .refl w'⟩

namespace Workspace.Matches

variable {w : Renaming} {left right : Workspace}

/-- **Replies do not depend on places.** Workspaces that match give the same reply to a command, and
match again. -/
theorem answer (h : left.Matches w right) {command : Command}
    (hignores : command.Hosts HostFunction.IgnoresPlaces) (hreleases : command.releases = false) :
    ∃ reply left' right' w', left.answer command = (reply, left') ∧
      right.answer command = (reply, right') ∧ left'.Matches w' right' := by
  have hperform : WorkM.Renames w (fun _ reply reply' => reply = reply') command.perform
      command.perform := by
    cases command with
    | value command => exact command.perform_renames w h.arena_lt h.arena_lt'
    | environment command =>
        exact EnvironmentCommand.perform_renames hreleases w h.arena_lt h.arena_lt'
    | session slot command => exact SessionCommand.perform_renames hignores w h.arena_lt h.arena_lt'
  obtain ⟨result, result', left', right', w', hleft, hright, hmatches, -, hresult⟩ :=
    hperform left right h
  obtain rfl : result = result' := by
    cases hresult with
    | ok heq => rw [heq]
    | error reason => rfl
  exact ⟨_, left', right', w', answer_eq hleft, answer_eq hright, hmatches⟩

/-- **All replies are the same**, to any commands given one after the other. -/
theorem answerAll (h : left.Matches w right) {commands : List Command}
    (hignores : ∀ command ∈ commands, command.Hosts HostFunction.IgnoresPlaces)
    (hreleases : ∀ command ∈ commands, command.releases = false) :
    ∃ replies left' right' w', left.answerAll commands = (replies, left') ∧
      right.answerAll commands = (replies, right') ∧ left'.Matches w' right' := by
  induction commands generalizing left right w with
  | nil => exact ⟨[], left, right, w, rfl, rfl, h⟩
  | cons command rest ih =>
      obtain ⟨hignores, hrest⟩ := List.forall_mem_cons.1 hignores
      obtain ⟨hreleases, hrest'⟩ := List.forall_mem_cons.1 hreleases
      obtain ⟨reply, left₁, right₁, w₁, hleft, hright, hmatches⟩ := h.answer hignores hreleases
      obtain ⟨replies, left₂, right₂, w₂, hleft₂, hright₂, hmatches₂⟩ := ih hmatches hrest hrest'
      refine ⟨reply :: replies, left₂, right₂, w₂, ?_, ?_, hmatches₂⟩
      · simp only [Workspace.answerAll, hleft, hleft₂]
      · simp only [Workspace.answerAll, hright, hright₂]

end Workspace.Matches

end SmallLisp
