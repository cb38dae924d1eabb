import Mathlib.Data.Finset.Card
import SmallLisp.Proofs.Effects

/-!
# Owners of global frames

The global frame of a session has an owner. The owner of a forked session refers to that of the
session it comes from, and every handle refers to the owner of its session. References are counted.
When the last reference to an owner is given up, its frame is cleared, and then it gives up its own
reference: that may be the last one in turn.

A workspace finds the same frames without counts, by looking over all handles. A count is balanced
if it is what the handles and the owners that they keep add up to. Giving up a reference in a
balanced count clears what nobody keeps any more, and the count is balanced again.

An owner is written as the frames that it keeps. The first is its own, and the others are the owner
that it refers to.

## Main results

* `Owner.drop_eq` — the frames that are cleared when a reference is given up.
* `Workspace.Counted.giveUp_follows` — these are the frames that a workspace retires.
* `Workspace.Counted.answerAll_eq` — a workspace that counts references is in the same state after
  all commands.
-/

namespace SmallLisp

/-- An owner of a global frame: the frame, and the owner that it refers to, which is empty if the
session was not forked. -/
abbrev Owner := List FrameRef

namespace Owner

variable {frame : FrameRef} {owner origin root : Owner} {roots : List Owner} {count : Owner → Nat}

/-- One more reference. -/
def acquire (owner : Owner) (count : Owner → Nat) : Owner → Nat :=
  Function.update count owner (count owner + 1)

/-- Give up a reference to an owner: the frames that are cleared, and the count afterwards. -/
def drop : Owner → (Owner → Nat) → List FrameRef × (Owner → Nat)
  | [], count => ([], count)
  | frame :: origin, count =>
      let fewer := Function.update count (frame :: origin) (count (frame :: origin) - 1)
      if count (frame :: origin) = 1 then
        (frame :: (drop origin fewer).1, (drop origin fewer).2)
      else ([], fewer)

/-! ### Balance -/

/-- The owners that are kept by some that are referred to. -/
def live (roots : List Owner) : Finset Owner :=
  (roots.flatMap List.tails).toFinset.erase []

theorem mem_live : owner ∈ live roots ↔ owner ≠ [] ∧ ∃ root ∈ roots, owner <:+ root := by
  simp [live]

theorem live_nil_cons : live ([] :: roots) = live roots := by
  ext owner
  simp only [mem_live, List.mem_cons, exists_eq_or_imp, List.suffix_nil]
  exact ⟨fun h => ⟨h.1, h.2.resolve_left h.1⟩, fun h => ⟨h.1, .inr h.2⟩⟩

theorem live_cons_cons : live ((frame :: origin) :: roots) =
    insert (frame :: origin) (live (origin :: roots)) := by
  ext owner
  simp only [Finset.mem_insert, mem_live, List.mem_cons, exists_eq_or_imp, List.suffix_cons_iff]
  constructor
  · rintro ⟨hne, (heq | horigin) | hroots⟩
    · exact .inl heq
    · exact .inr ⟨hne, .inl horigin⟩
    · exact .inr ⟨hne, .inr hroots⟩
  · rintro (rfl | ⟨hne, horigin | hroots⟩)
    · exact ⟨List.cons_ne_nil _ _, .inl (.inl rfl)⟩
    · exact ⟨hne, .inl (.inr horigin)⟩
    · exact ⟨hne, .inr hroots⟩

theorem live_subset_cons : live roots ⊆ live (owner :: roots) := by
  intro other hother
  obtain ⟨hne, root, hroot, hsuffix⟩ := mem_live.1 hother
  exact mem_live.2 ⟨hne, root, List.mem_cons_of_mem _ hroot, hsuffix⟩

theorem live_cons_of_mem (h : owner ∈ live roots) : live (owner :: roots) = live roots := by
  obtain ⟨-, root, hroot, hsuffix⟩ := mem_live.1 h
  ext other
  simp only [mem_live, List.mem_cons, exists_eq_or_imp]
  refine and_congr_right fun _ => ⟨?_, .inr⟩
  rintro (hother | hother)
  · exact ⟨root, hroot, hother.trans hsuffix⟩
  · exact hother

/-- The owners that refer to one. -/
def referrers (roots : List Owner) (owner : Owner) : Finset Owner :=
  (live roots).filter (·.tail = owner)

/-- The count of each owner is the number of references to it. -/
def Balanced (count : Owner → Nat) (roots : List Owner) : Prop :=
  ∀ owner, owner ≠ [] → count owner = roots.count owner + (referrers roots owner).card

/-- A frame has one owner. -/
def Single (roots : List Owner) : Prop :=
  ∀ ⦃frame origin other⦄, frame :: origin ∈ live roots → frame :: other ∈ live roots →
    origin = other

/-- Whatever keeps an owner is that owner or refers to one. -/
theorem exists_referrer (h : owner <:+ root) : owner = root ∨ ∃ frame, frame :: owner <:+ root := by
  obtain ⟨front, rfl⟩ := h
  rcases List.eq_nil_or_concat front with rfl | ⟨rest, frame, rfl⟩
  · exact .inl rfl
  · exact .inr ⟨frame, rest, by simp⟩

theorem referrers_eq_empty (h : owner ∉ live roots) (hne : owner ≠ []) :
    referrers (owner :: roots) owner = ∅ := by
  refine Finset.filter_eq_empty_iff.2 fun other hother htail => h ?_
  obtain ⟨hother, root, hroot, hsuffix⟩ := mem_live.1 hother
  obtain ⟨frame, rest, rfl⟩ := List.exists_cons_of_ne_nil hother
  obtain rfl : rest = owner := htail
  rcases List.mem_cons.1 hroot with rfl | hroot
  · exact absurd hsuffix.length_le (by simp)
  · exact mem_live.2 ⟨hne, root, hroot, (List.suffix_cons frame rest).trans hsuffix⟩

theorem Balanced.one_lt (h : Balanced count (owner :: roots)) (hlive : owner ∈ live roots) :
    1 < count owner := by
  obtain ⟨hne, root, hroot, hsuffix⟩ := mem_live.1 hlive
  rw [h owner hne, List.count_cons_self]
  rcases exists_referrer hsuffix with rfl | ⟨frame, hframe⟩
  · have := List.count_pos_iff.2 hroot
    omega
  · have hmem : frame :: owner ∈ referrers (owner :: roots) owner :=
      Finset.mem_filter.2 ⟨mem_live.2 ⟨List.cons_ne_nil _ _, root, .tail _ hroot, hframe⟩, rfl⟩
    have := Finset.card_pos.2 ⟨_, hmem⟩
    omega

theorem Balanced.eq_one (h : Balanced count (owner :: roots)) (hne : owner ≠ [])
    (hlive : owner ∉ live roots) : count owner = 1 := by
  have hroots : owner ∉ roots := fun hmem =>
    hlive (mem_live.2 ⟨hne, owner, hmem, List.suffix_refl owner⟩)
  rw [h owner hne, List.count_cons_self, List.count_eq_zero_of_not_mem hroots,
    referrers_eq_empty hlive hne, Finset.card_empty]

theorem acquire_apply (owner other : Owner) (count : Owner → Nat) :
    acquire owner count other = count other + if owner = other then 1 else 0 := by
  by_cases h : owner = other
  · subst h
    simp [acquire]
  · simp [acquire, Function.update_of_ne (Ne.symm h), h]

theorem acquire_pred (h : 0 < count owner) :
    acquire owner (Function.update count owner (count owner - 1)) = count := by
  rw [acquire, Function.update_self, Function.update_idem, Nat.sub_add_cancel h,
    Function.update_eq_self]

/-- One more reference to an owner that is kept anyway. -/
theorem balanced_acquire_iff_of_mem (h : owner ∈ live roots) :
    Balanced (acquire owner count) (owner :: roots) ↔ Balanced count roots := by
  refine forall₂_congr fun other _ => ?_
  rw [acquire_apply, List.count_cons, referrers, live_cons_of_mem h, ← referrers]
  simp only [beq_iff_eq]
  omega

theorem card_referrers_cons (h : frame :: origin ∉ live roots) (other : Owner) :
    (referrers ((frame :: origin) :: roots) other).card =
      (referrers (origin :: roots) other).card + if origin = other then 1 else 0 := by
  have hnew : frame :: origin ∉ live (origin :: roots) := by
    intro hmem
    obtain ⟨hne, root, hroot, hsuffix⟩ := mem_live.1 hmem
    rcases List.mem_cons.1 hroot with rfl | hroot
    · exact absurd hsuffix.length_le (by simp)
    · exact h (mem_live.2 ⟨hne, root, hroot, hsuffix⟩)
  rw [referrers, live_cons_cons, Finset.filter_insert, List.tail_cons]
  split
  · rw [Finset.card_insert_of_notMem fun hmem => hnew (Finset.mem_filter.1 hmem).1, referrers]
  · rfl

/-- A first reference to an owner: it refers to another one in turn. -/
theorem balanced_acquire_iff_of_not_mem (h : frame :: origin ∉ live roots) :
    Balanced (acquire (frame :: origin) count) ((frame :: origin) :: roots) ↔
      Balanced count (origin :: roots) := by
  refine forall₂_congr fun other _ => ?_
  rw [acquire_apply, List.count_cons, card_referrers_cons h, List.count_cons]
  simp only [beq_iff_eq]
  omega

theorem balanced_nil_cons : Balanced count ([] :: roots) ↔ Balanced count roots := by
  refine forall₂_congr fun other hne => ?_
  rw [List.count_cons_of_ne (Ne.symm hne), referrers, live_nil_cons, ← referrers]

theorem Single.mono {roots' : List Owner} (h : Single roots) (hsub : live roots' ⊆ live roots) :
    Single roots' :=
  fun _ _ _ horigin hother => h (hsub horigin) (hsub hother)

/-! ### Giving up a reference -/

/-- **The frames that are cleared** when a reference is given up are those that are not kept any
more. -/
theorem drop_eq (h : Balanced count (owner :: roots)) (hsingle : Single (owner :: roots)) :
    (drop owner count).1 = owner.filter (fun frame => ∀ root ∈ roots, frame ∉ root) ∧
      Balanced (drop owner count).2 roots := by
  induction owner generalizing count with
  | nil => exact ⟨rfl, balanced_nil_cons.1 h⟩
  | cons frame origin ih =>
      by_cases hlive : frame :: origin ∈ live roots
      · -- somebody else keeps the owner, and with it all frames of the chain
        have hmany := h.one_lt hlive
        obtain ⟨-, root, hroot, hsuffix⟩ := mem_live.1 hlive
        rw [drop, if_neg (Nat.ne_of_gt hmany)]
        refine ⟨(List.filter_eq_nil_iff.2 fun other hother => ?_).symm, ?_⟩
        · simpa using ⟨root, hroot, hsuffix.subset hother⟩
        · rwa [← acquire_pred (Nat.zero_lt_of_lt hmany), balanced_acquire_iff_of_mem hlive] at h
      · -- this was the last reference, so the owner gives up the one that it has
        have hone := h.eq_one (List.cons_ne_nil _ _) hlive
        rw [drop, if_pos hone]
        have hpred := acquire_pred (Nat.lt_of_lt_of_eq Nat.one_pos hone.symm)
        rw [← hpred, balanced_acquire_iff_of_not_mem hlive] at h
        have hsub : live (origin :: roots) ⊆ live ((frame :: origin) :: roots) := by
          rw [live_cons_cons]
          exact Finset.subset_insert _ _
        obtain ⟨hcleared, hbalanced⟩ := ih h (hsingle.mono hsub)
        -- whoever kept the frame would keep its one owner
        have hgone : ∀ root ∈ roots, frame ∉ root := by
          intro root hroot hframe
          obtain ⟨front, rest, rfl⟩ := List.append_of_mem hframe
          have hother : frame :: rest ∈ live roots :=
            mem_live.2 ⟨List.cons_ne_nil _ _, _, hroot, List.suffix_append _ _⟩
          have hself : frame :: origin ∈ live ((frame :: origin) :: roots) := by
            rw [live_cons_cons]
            exact Finset.mem_insert_self _ _
          rw [hsingle hself (live_subset_cons hother)] at hlive
          exact hlive hother
        refine ⟨?_, hbalanced⟩
        rw [hcleared, List.filter_cons_of_pos (by simpa using hgone)]

theorem live_congr {roots' : List Owner} (h : ∀ root, root ∈ roots ↔ root ∈ roots') :
    live roots = live roots' := by
  ext owner
  simp only [mem_live, h]

theorem Balanced.perm {roots' : List Owner} (h : Balanced count roots) (hperm : roots.Perm roots') :
    Balanced count roots' := by
  intro owner hne
  rw [h owner hne, hperm.count_eq, referrers, live_congr fun _ => hperm.mem_iff, ← referrers]

theorem Single.perm {roots' : List Owner} (h : Single roots) (hperm : roots.Perm roots') :
    Single roots' :=
  h.mono (live_congr fun _ => hperm.mem_iff).ge

/-- A new owner of a new frame. -/
theorem Single.cons (h : Single roots) (horigin : live (origin :: roots) = live roots)
    (hnew : ∀ root ∈ roots, frame ∉ root) : Single ((frame :: origin) :: roots) := by
  have hnot : ∀ other, frame :: other ∉ live roots := by
    intro other hmem
    obtain ⟨-, root, hroot, hsuffix⟩ := mem_live.1 hmem
    exact hnew root hroot (hsuffix.subset List.mem_cons_self)
  intro first one two hone htwo
  rw [live_cons_cons, horigin, Finset.mem_insert] at hone htwo
  rcases hone with hone | hone <;> rcases htwo with htwo | htwo
  · exact (List.cons.inj (hone.trans htwo.symm)).2
  · exact absurd ((List.cons.inj hone).1 ▸ htwo) (hnot two)
  · exact absurd ((List.cons.inj htwo).1 ▸ hone) (hnot one)
  · exact h hone htwo

end Owner

/-! ### What slots hold -/

namespace Slots

variable {α β : Type} {slots slots' : Slots α} {name : String} {content : α}

theorem get?_cons (entry : String × α) (rest : Slots α) (name : String) :
    get? (entry :: rest) name = if entry.1 = name then some entry.2 else get? rest name := by
  rw [get?, List.lookup_cons, get?]
  by_cases h : entry.1 = name
  · simp [h]
  · simp [h, beq_eq_false_iff_ne.2 (Ne.symm h)]

theorem get?_eq_none_iff : slots.get? name = none ↔ name ∉ slots.map (·.1) := by
  rw [get?, List.lookup_eq_none_iff]
  constructor
  · intro h hmem
    obtain ⟨entry, hentry, rfl⟩ := List.mem_map.1 hmem
    simpa using h entry hentry
  · intro h entry hentry
    simpa using fun heq : name = entry.1 => h (heq ▸ List.mem_map_of_mem hentry)

theorem remove_eq_self (h : slots.get? name = none) : slots.remove name = slots := by
  refine List.filter_eq_self.2 fun entry hentry => ?_
  have hnot := get?_eq_none_iff.1 h
  simpa using fun heq : entry.1 = name => hnot (heq ▸ List.mem_map_of_mem hentry)

/-- What the slots hold is what one of them holds and what the others hold. -/
theorem Distinct.perm_remove (h : slots.Distinct) (hget : slots.get? name = some content) :
    slots.contents.Perm (content :: (slots.remove name).contents) := by
  induction slots with
  | nil => cases hget
  | cons entry rest ih =>
      obtain ⟨hnot, hrest⟩ := List.nodup_cons.1 h
      rw [get?_cons] at hget
      split at hget
      · next heq =>
          have hremove : Slots.remove (entry :: rest) name = rest := by
            rw [Slots.remove, List.filter_cons_of_neg (by simpa using heq)]
            exact remove_eq_self (get?_eq_none_iff.2 (heq ▸ hnot))
          rw [hremove, ← Option.some.inj hget]
          exact .refl _
      · next hne =>
          have hremove : Slots.remove (entry :: rest) name = entry :: Slots.remove rest name :=
            List.filter_cons_of_pos (by simpa using hne)
          rw [hremove]
          exact ((ih hrest hget).cons entry.2).trans (.swap ..)

/-- Slots that hold alike by name hold alike in all. -/
theorem Distinct.perm_contents (h : slots.Distinct) (h' : slots'.Distinct) (f : α → β)
    (hget : ∀ name, (slots'.get? name).map f = (slots.get? name).map f) :
    (slots.contents.map f).Perm (slots'.contents.map f) := by
  induction slots generalizing slots' with
  | nil =>
      cases slots' with
      | nil => exact .refl _
      | cons entry rest =>
          have hentry := hget entry.1
          rw [get?_cons, if_pos rfl] at hentry
          cases hentry
  | cons entry rest ih =>
      obtain ⟨hnot, hrest⟩ := List.nodup_cons.1 h
      have hentry := hget entry.1
      rw [get?_cons, if_pos rfl] at hentry
      obtain ⟨found, hfound, heq⟩ := Option.map_eq_some_iff.1 hentry
      have hothers : ∀ name, ((slots'.remove entry.1).get? name).map f
          = (get? rest name).map f := by
        intro name
        by_cases hname : name = entry.1
        · rw [hname, get?_remove_self, get?_eq_none_iff.2 hnot]
        · rw [get?_remove_of_ne hname, hget, get?_cons, if_neg (Ne.symm hname)]
      have hperm := (h'.perm_remove hfound).map f
      rw [List.map_cons, heq] at hperm
      exact ((ih hrest (h'.remove entry.1) hothers).cons (f entry.2)).trans hperm.symm

end Slots

/-! ### Workspaces that count -/

namespace Workspace

/-- The owners that handles refer to. -/
def owners (workspace : Workspace) : List Owner :=
  workspace.sessions.contents.map Session.keeps

/-- A workspace and the number of references to each owner. -/
structure Counted where
  workspace : Workspace
  count : Owner → Nat

namespace Counted

/-- Give up the reference of a handle. -/
def giveUp (state : Counted) (session : Session) : Counted :=
  let (cleared, count) := Owner.drop session.keeps state.count
  ⟨{ state.workspace with store := cleared.foldl Store.clear state.workspace.store }, count⟩

/-- Take the handle out of a session slot. -/
def dropSession (state : Counted) (name : String) : Counted :=
  match state.workspace.sessions.get? name with
  | some session =>
      giveUp ⟨{ state.workspace with sessions := state.workspace.sessions.remove name },
        state.count⟩ session
  | none => state

/-- Put a handle that has been counted in a session slot; a handle that was there is dropped. -/
def putSession (state : Counted) (name : String) (session : Session) : Counted :=
  let filled : Counted :=
    ⟨{ state.workspace with sessions := state.workspace.sessions.put name session }, state.count⟩
  match state.workspace.sessions.get? name with
  | some old => filled.giveUp old
  | none => filled

/-- What a command leads to. The handles that it makes are counted, and so is the reference of a
forked session's owner. -/
def answer (state : Counted) (command : Command) : Counted :=
  let workspace := state.workspace
  match command with
  | .session slot (.start maxDepth preload) =>
      match Session.start workspace.fuel workspace.files maxDepth preload workspace.held
          workspace.store workspace.census with
      | (.ok _, session, store, census) =>
          putSession ⟨{ workspace with store, census }, Owner.acquire session.keeps state.count⟩
            slot session
      | (.error _, _) => state
  | .session slot (.fork target) =>
      match workspace.sessions.get? slot with
      | some origin =>
          let (forked, store) := origin.fork workspace.store
          putSession ⟨{ workspace with store },
            Owner.acquire forked.keeps (Owner.acquire origin.keeps state.count)⟩ target forked
      | none => state
  | .session slot (.clone target) =>
      match workspace.sessions.get? slot with
      | some session =>
          putSession ⟨workspace, Owner.acquire session.keeps state.count⟩ target session
      | none => state
  | .session slot .drop => state.dropSession slot
  | command => ⟨(workspace.answer command).2, state.count⟩

/-- What commands lead to, one after the other. -/
def answerAll (state : Counted) (commands : List Command) : Counted :=
  commands.foldl answer state

/-- The count is that of the handles, and every frame has one owner. -/
structure Sound (state : Counted) : Prop where
  balanced : Owner.Balanced state.count state.workspace.owners
  single : Owner.Single state.workspace.owners

/-- The state is sound, and its workspace is this one. -/
structure Follows (state : Counted) (workspace : Workspace) : Prop extends Sound state where
  same : state.workspace = workspace

variable {workspace : Workspace} {count : Owner → Nat} {slot : String} {session : Session}

theorem Sound.of_sessions_eq_nil (h : workspace.sessions = []) : Sound ⟨workspace, fun _ => 0⟩ := by
  have howners : workspace.owners = [] := by
    rw [owners, h]
    rfl
  refine ⟨?_, ?_⟩
  · rw [howners]
    exact fun _ _ => rfl
  · rw [howners]
    intro _ _ _ hmem
    cases hmem

theorem Sound.follows (h : Sound ⟨workspace, count⟩) {after : Workspace}
    (hperm : workspace.owners.Perm after.owners) : Follows ⟨after, count⟩ after :=
  ⟨⟨h.balanced.perm hperm, h.single.perm hperm⟩, rfl⟩

end Counted

section

variable {workspace : Workspace}

theorem mem_liveGlobals_iff {frame : FrameRef} :
    frame ∈ workspace.liveGlobals ↔ ∃ owner ∈ workspace.owners, frame ∈ owner := by
  simp [liveGlobals, owners]

theorem keeps_mem_live {slot : String} {session : Session}
    (h : workspace.sessions.get? slot = some session) :
    session.keeps ∈ Owner.live workspace.owners :=
  Owner.mem_live.2 ⟨List.cons_ne_nil _ _, _,
    List.mem_map_of_mem (Slots.mem_contents_of_get? h), List.suffix_refl _⟩

theorem Grounded.not_mem_owner (h : workspace.Grounded) {frame : FrameRef}
    (hfresh : workspace.store.frame? frame = none) : ∀ owner ∈ workspace.owners, frame ∉ owner := by
  intro owner howner hframe
  have hkeeps := (mem_liveGlobals h.distinct).1 (mem_liveGlobals_iff.2 ⟨owner, howner, hframe⟩)
  obtain ⟨found, hfound⟩ := h.present hkeeps
  cases hfresh.symm.trans hfound

theorem Grounded.not_mem_live (h : workspace.Grounded) {frame : FrameRef}
    (hfresh : workspace.store.frame? frame = none) (origin : Owner) :
    frame :: origin ∉ Owner.live workspace.owners := by
  intro hmem
  obtain ⟨-, owner, howner, hsuffix⟩ := Owner.mem_live.1 hmem
  exact h.not_mem_owner hfresh owner howner (hsuffix.subset List.mem_cons_self)

/-- Does the command make or drop handles? -/
def movesHandles : Command → Bool
  | .session _ (.start ..) | .session _ (.fork _) | .session _ (.clone _) | .session _ .drop => true
  | _ => false

theorem Effect.owners_perm {after : Workspace} {command : Command}
    (h : Effect workspace after command) (hdistinct : workspace.sessions.Distinct)
    (hmoves : movesHandles command = false) : workspace.owners.Perm after.owners := by
  cases h with
  | steady hsteady =>
      exact hdistinct.perm_contents (hsteady.distinct hdistinct) Session.keeps hsteady.handles
  | empties _ hsessions => exact .of_eq (by rw [owners, owners, hsessions])
  | start | fork | clone | drop => cases hmoves

end

namespace Counted

variable {workspace : Workspace} {count : Owner → Nat} {slot : String} {session : Session}

/-- Giving up a reference clears the frames that are retired. -/
theorem giveUp_follows (hbalanced : Owner.Balanced count (session.keeps :: workspace.owners))
    (hsingle : Owner.Single (session.keeps :: workspace.owners)) :
    (giveUp ⟨workspace, count⟩ session).Follows (workspace.retire session) := by
  obtain ⟨hcleared, hafter⟩ := Owner.drop_eq hbalanced hsingle
  refine ⟨⟨hafter, hsingle.mono Owner.live_subset_cons⟩, ?_⟩
  have hgone : ∀ frame, decide (∀ owner ∈ workspace.owners, frame ∉ owner) =
      !workspace.liveGlobals.contains frame := by
    intro frame
    rw [List.contains_eq_mem, ← decide_not, decide_eq_decide, mem_liveGlobals_iff]
    simp only [not_exists, not_and]
  simp only [giveUp, retire, hcleared, hgone]

theorem putSession_follows (hdistinct : workspace.sessions.Distinct)
    (hbalanced : Owner.Balanced count (session.keeps :: workspace.owners))
    (hsingle : Owner.Single (session.keeps :: workspace.owners)) :
    (putSession ⟨workspace, count⟩ slot session).Follows (workspace.putSession slot session) := by
  simp only [putSession, Workspace.putSession]
  cases hold : workspace.sessions.get? slot with
  | none =>
      have howners : owners { workspace with sessions := workspace.sessions.put slot session } =
          session.keeps :: workspace.owners := by
        rw [owners, Slots.put, Slots.remove_eq_self hold]
        rfl
      exact ⟨⟨howners ▸ hbalanced, howners ▸ hsingle⟩, rfl⟩
  | some old =>
      have hperm : (session.keeps :: workspace.owners).Perm (old.keeps ::
          owners { workspace with sessions := workspace.sessions.put slot session }) :=
        (((hdistinct.perm_remove hold).map Session.keeps).cons session.keeps).trans (.swap ..)
      exact giveUp_follows (hbalanced.perm hperm) (hsingle.perm hperm)

theorem dropSession_follows (hdistinct : workspace.sessions.Distinct)
    (h : Sound ⟨workspace, count⟩) :
    (dropSession ⟨workspace, count⟩ slot).Follows (workspace.dropSession slot) := by
  simp only [dropSession, Workspace.dropSession]
  cases hold : workspace.sessions.get? slot with
  | none => exact ⟨h, rfl⟩
  | some old =>
      have hperm : workspace.owners.Perm (old.keeps ::
          owners { workspace with sessions := workspace.sessions.remove slot }) :=
        (hdistinct.perm_remove hold).map Session.keeps
      exact giveUp_follows (h.balanced.perm hperm) (h.single.perm hperm)

/-! ### Commands -/

section

variable (h : Sound ⟨workspace, count⟩) (hgrounded : workspace.Grounded)
include h hgrounded

theorem answer_start (maxDepth : Nat) (preload : List String) :
    (answer ⟨workspace, count⟩ (.session slot (.start maxDepth preload))).Follows
      (workspace.answer (.session slot (.start maxDepth preload))).2 := by
  rw [snd_answer, Command.perform]
  simp only [answer]
  rcases hstart : Session.start workspace.fuel workspace.files maxDepth preload workspace.held
    workspace.store workspace.census with ⟨halt | ⟨⟩, session, store, census⟩
  · rw [SessionCommand.outcome_start_error hstart]
    exact ⟨h, rfl⟩
  · rw [SessionCommand.outcome_start_ok hstart]
    obtain ⟨horigins, hfresh, -⟩ := Session.start_eq_ok hstart
    have hkeeps : session.keeps = [session.globals] := by rw [Session.keeps, horigins]
    refine putSession_follows hgrounded.distinct ?_ ?_
    · rw [hkeeps]
      exact (Owner.balanced_acquire_iff_of_not_mem (hgrounded.not_mem_live hfresh [])).2
        (Owner.balanced_nil_cons.2 h.balanced)
    · rw [hkeeps]
      exact h.single.cons Owner.live_nil_cons (hgrounded.not_mem_owner hfresh)

theorem answer_fork (target : String) :
    (answer ⟨workspace, count⟩ (.session slot (.fork target))).Follows
      (workspace.answer (.session slot (.fork target))).2 := by
  rw [snd_answer, Command.perform]
  simp only [answer]
  cases horigin : workspace.sessions.get? slot with
  | none =>
      rw [SessionCommand.outcome_fork_none horigin]
      exact ⟨h, rfl⟩
  | some origin =>
      rw [SessionCommand.outcome_fork horigin]
      have hfresh := origin.frame?_globals_fork workspace.store
      have hlive := keeps_mem_live horigin
      refine putSession_follows hgrounded.distinct ?_ ?_
      · rw [Session.keeps_fork]
        exact (Owner.balanced_acquire_iff_of_not_mem (hgrounded.not_mem_live hfresh _)).2
          ((Owner.balanced_acquire_iff_of_mem hlive).2 h.balanced)
      · rw [Session.keeps_fork]
        exact h.single.cons (Owner.live_cons_of_mem hlive) (hgrounded.not_mem_owner hfresh)

theorem answer_clone (target : String) :
    (answer ⟨workspace, count⟩ (.session slot (.clone target))).Follows
      (workspace.answer (.session slot (.clone target))).2 := by
  rw [snd_answer, Command.perform]
  simp only [answer]
  cases hsession : workspace.sessions.get? slot with
  | none =>
      rw [SessionCommand.outcome_clone_none hsession]
      exact ⟨h, rfl⟩
  | some session =>
      rw [SessionCommand.outcome_clone hsession]
      have hlive := keeps_mem_live hsession
      exact putSession_follows hgrounded.distinct
        ((Owner.balanced_acquire_iff_of_mem hlive).2 h.balanced)
        (h.single.mono (Owner.live_cons_of_mem hlive).le)

theorem answer_drop :
    (answer ⟨workspace, count⟩ (.session slot .drop)).Follows
      (workspace.answer (.session slot .drop)).2 := by
  rw [snd_answer, Command.perform]
  have hdrop : (dropSession ⟨workspace, count⟩ slot).Follows (workspace.dropSession slot) :=
    dropSession_follows hgrounded.distinct h
  cases hsession : workspace.sessions.get? slot with
  | none =>
      rw [SessionCommand.outcome_drop_none hsession]
      rwa [Workspace.dropSession, hsession] at hdrop
  | some session =>
      rw [SessionCommand.outcome_drop hsession]
      exact hdrop

/-- **Counting makes no difference** to what a command does. -/
theorem answer_follows (command : Command) :
    (answer ⟨workspace, count⟩ command).Follows (workspace.answer command).2 := by
  have hothers := effect_answer hgrounded.distinct command
  cases command with
  | value command => exact h.follows (hothers.owners_perm hgrounded.distinct rfl)
  | environment command => exact h.follows (hothers.owners_perm hgrounded.distinct rfl)
  | session slot command =>
      cases command with
      | start maxDepth preload => exact answer_start h hgrounded maxDepth preload
      | fork target => exact answer_fork h hgrounded target
      | clone target => exact answer_clone h hgrounded target
      | drop => exact answer_drop h hgrounded
      | _ => exact h.follows (hothers.owners_perm hgrounded.distinct rfl)

end

theorem answerAll_follows {state : Counted} (h : state.Sound) (hgrounded : state.workspace.Grounded)
    (commands : List Command) :
    (state.answerAll commands).Follows (state.workspace.answerAll commands).2 := by
  induction commands generalizing state with
  | nil => exact ⟨h, rfl⟩
  | cons command rest ih =>
      have hnext := answer_follows h hgrounded command
      have hrest := ih hnext.toSound (hnext.same ▸ hgrounded.answer command)
      rw [hnext.same] at hrest
      exact hrest

/-- **Counting makes no difference** to what commands do: the frames that are cleared are those of
the owners to which the last reference is given up. -/
theorem answerAll_eq (start : Workspace) (hstart : start.sessions = []) (commands : List Command) :
    (answerAll ⟨start, fun _ => 0⟩ commands).workspace = (start.answerAll commands).2 :=
  (answerAll_follows (.of_sessions_eq_nil hstart) (.of_sessions_eq_nil hstart) commands).same

end Counted

end Workspace

end SmallLisp
