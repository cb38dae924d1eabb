import SmallLisp.Proofs.Replies

/-!
# Releasing takes nothing away

A frame is released only if nothing but the handle it is released through leads to it. So names mean
the same as before wherever they can still be looked up. This holds of every heap that is counted
completely, and every workspace counts its heap completely whatever was done with it before.

Releasing the frames of calls therefore cannot be noticed: a workspace that stops doing so gives the
same replies.

Every binding counts here. If copies of tables share what is bound in them, all this is said of
frames whose table has not been copied (`Store.Uncopied`).

## Main results

* `Census.lookup_of_release` — names mean the same when a frame was released.
* `Workspace.release_takes_nothing_in_use` — nothing that is in use is taken away, by a release or
  at the end of a call.
-/

namespace SmallLisp

namespace Census

variable {census : Census} {store : Store} {held : List Hold} {frame : FrameRef}

/-- If nothing is gone, no reference is taken back. -/
theorem count_eq_tally (h : ∀ item ∈ census.items store,
      (held.flatMap Hold.items).count item +
        ((census.items store).flatMap store.references).count item ≠ 0) :
    (census.count store held).1 = store.tally (held.flatMap Hold.items) (census.items store) := by
  have hgone : (census.items store).filter ((store.tally (held.flatMap Hold.items)
      (census.items store)).count · = 0) = [] := by
    refine List.filter_eq_nil_iff.2 fun item hitem => ?_
    rw [decide_eq_true_iff, Store.count_tally]
    exact h item hitem
  rw [count, hgone]
  cases (census.items store).length <;> rfl

theorem present_of_release (hreleased : (census.release store held frame).1 = true) :
    (store.find? (.frame frame)).isSome = true := by
  have hreleasable : store.isReleasable (census.count store held).1 frame = true := by
    refine Classical.byContradiction fun hnot => ?_
    rw [release_eq, if_neg hnot] at hreleased
    cases hreleased
  refine Classical.byContradiction fun hnot => ?_
  have hnone : store.frame? frame = none := by
    rwa [Store.find?_frame, Option.isSome_map, Option.not_isSome_iff_eq_none] at hnot
  have hempty : store.ownLambdas frame = [] := by
    rw [Store.ownLambdas, Store.table, Store.frame, hnone]
    rfl
  rw [Store.isReleasable, hempty] at hreleasable
  simp at hreleasable

/-- **Names mean the same** wherever one still comes to when a frame was released. -/
theorem lookup_of_release (hcomplete : census.Complete store held)
    (hchained : store.Chained (store.Reaches (held.flatMap Hold.items)))
    (hframe : .frame frame ∈ held.flatMap Hold.items)
    (hreleased : (census.release store held frame).1 = true) {other : FrameRef}
    (hother : store.Reaches ((held.flatMap Hold.items).erase (.frame frame)) (.frame other))
    (name : Symbol) :
    (census.release store held frame).2.1.lookup other name = store.lookup other name := by
  have hagree : store.AgreeOn (store.Reaches ((held.flatMap Hold.items).erase (.frame frame)))
      (census.release store held frame).2.1 := fun item hitem =>
    (find?_release (present_of_release hreleased) hcomplete hframe hitem).symm
  refine (hagree.lookup (fun _ hitem _ hother => hitem.step hother) (fun scope hscope => ?_)
    hother name).symm
  exact hchained scope (hscope.mono List.erase_subset)

end Census

namespace Workspace

/-- **A release takes nothing away that is in use.** A frame that is released is reached from no
root but the handle, and names mean the same wherever one comes to from the other roots. Every
workspace counts completely, whatever was done with it before, and whatever is done from then on
gets the same replies if frames are never released at the end of a call. -/
theorem release_takes_nothing_in_use :
    (∀ (census : Census) (store : Store) (held : List Hold) (frame : FrameRef),
      census.Complete store held → store.Chained (store.Reaches (held.flatMap Hold.items)) →
      .frame frame ∈ held.flatMap Hold.items → (census.release store held frame).1 = true →
        ¬store.Reaches ((held.flatMap Hold.items).erase (.frame frame)) (.frame frame) ∧
        ∀ other, store.Reaches ((held.flatMap Hold.items).erase (.frame frame)) (.frame other) →
          ∀ name, (census.release store held frame).2.1.lookup other name =
            store.lookup other name) ∧
    ∀ (files : Files) (before after : List Command),
      (∀ command ∈ before ++ after, command.Discreet) →
      (∀ command ∈ after, command.releases = false) →
      ∃ workspace census, (answerAll { files } before).2 = workspace ∧
        workspace.census = some census ∧ census.Complete workspace.store workspace.held ∧
        workspace.store.Chained (workspace.store.Reaches (workspace.held.flatMap Hold.items)) ∧
        (workspace.answerAll after).1 = ({ workspace with census := none }.answerAll after).1 := by
  refine ⟨fun census store held frame hcomplete hchained hframe hreleased =>
    ⟨Census.not_reaches_of_release hcomplete hframe hreleased, fun other hother =>
      Census.lookup_of_release hcomplete hchained hframe hreleased hother⟩, ?_⟩
  intro files before after hdiscreet hreleases
  obtain ⟨hbefore, hafter⟩ := List.forall_mem_append.1 hdiscreet
  obtain ⟨m, hleft, hcounts⟩ :=
    (Mirror.start files HostFunction.Discreet fun _ h => h).followAll rfl hbefore
  obtain ⟨census, hcensus⟩ := Option.isSome_iff_exists.1 hcounts
  refine ⟨m.left, census, hleft, hcensus, (m.twin.listed census hcensus).complete m.held_intact,
    fun frame hframe => m.twin.chained frame (hframe.induct m.held_intact m.twin.closed), ?_⟩
  exact m.reflect.answerAll hafter hreleases

/-- A handle on a frame, a closure of that frame bound in it, and a handle on another frame. -/
def circle : List Command :=
  [.environment (.newRoot "frame"), .value (.lambda "frame" "()" "x" none false (some "closure")),
   .environment (.bind "frame" "f" "closure"), .value (.forget "closure"),
   .environment (.newRoot "other")]

/-- A session in which a function is called whose frame can be released at the end of the call. -/
def calls : List Command :=
  [.session "session" (.start 10 []),
   .session "session" (.register "first" (.host .first)),
   .session "session" (.evalLast "(def f (lambda (x) (def g (lambda () x)) (first (g))))" none),
   .session "session" (.evalLast "(f 1)" none)]

theorem release_takes_nothing_in_use_circle :
    ∃ workspace census, (answerAll {} circle).2 = workspace ∧ workspace.census = some census ∧
      (census.release workspace.store workspace.held ⟨0, 0⟩).1 = true ∧
      ¬workspace.store.Reaches ((workspace.held.flatMap Hold.items).erase (.frame ⟨0, 0⟩))
        (.frame ⟨0, 0⟩) ∧
      (∀ name, (census.release workspace.store workspace.held ⟨0, 0⟩).2.1.lookup ⟨0, 1⟩ name =
        workspace.store.lookup ⟨0, 1⟩ name) ∧
      (workspace.answerAll calls).1 = ({ workspace with census := none }.answerAll calls).1 := by
  have hdiscreet : ∀ command ∈ circle ++ calls, command.Discreet := by
    simpa [circle, calls, Command.Hosts] using HostFunction.discreet_first
  obtain ⟨workspace, census, rfl, hcensus, hcomplete, hchained, hreplies⟩ :=
    release_takes_nothing_in_use.2 _ circle calls hdiscreet (by decide)
  obtain rfl : census = {} := by
    have hknown : (answerAll {} circle).2.census.map (·.known) = some [] := by decide +kernel
    have hfilled : (answerAll {} circle).2.census.map (·.filled.size) = some 0 := by decide +kernel
    rw [hcensus] at hknown hfilled
    obtain ⟨known, filled⟩ := census
    obtain rfl : known = [] := Option.some.inj hknown
    obtain rfl : filled = #[] := Array.eq_empty_of_size_eq_zero (Option.some.inj hfilled)
    rfl
  have hheld : .frame ⟨0, 0⟩ ∈ (answerAll {} circle).2.held.flatMap Hold.items := by decide +kernel
  have hreleased : (Census.release {} (answerAll {} circle).2.store (answerAll {} circle).2.held
      ⟨0, 0⟩).1 = true := by
    rw [Census.release_eq, Census.count_eq_tally (by decide +kernel), if_pos]
    simp only [Store.isReleasable, Store.count_tally]
    decide +kernel
  obtain ⟨hnot, hlookup⟩ :=
    release_takes_nothing_in_use.1 _ _ _ _ hcomplete hchained hheld hreleased
  have hother : .frame ⟨0, 1⟩ ∈ ((answerAll {} circle).2.held.flatMap Hold.items).erase
      (.frame ⟨0, 0⟩) := by decide +kernel
  exact ⟨_, _, rfl, hcensus, hreleased, hnot, hlookup _ (Store.reaches_of_mem hother), hreplies⟩

end Workspace

end SmallLisp
