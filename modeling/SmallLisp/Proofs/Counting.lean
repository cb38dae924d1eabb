import Mathlib.Data.List.Flatten
import Mathlib.Data.List.Nodup
import Mathlib.Data.List.Perm.Subperm
import Mathlib.Logic.Relation
import SmallLisp.Store.Census

/-!
# Releasing frames

A count over everything that may be in use gives each item at least the references that come from
outside and from what can be reached from there. A frame is released when its count is explained
by one handle and by lambdas of its own that nothing but the frame refers to. Then whoever comes
from elsewhere comes to none of them: the first step to one of them would be a reference that was
not counted.

## Main results

* `Store.settle_accounts` — taking back the references of what is gone takes back no others.
* `Store.isReleasable_eq_of_uncopied` — if copies of tables share what is bound in them, this makes
  no difference to a frame whose table has not been copied.
* `Census.complete_count` — a count leaves a census that still lists all that is in use.
* `Census.not_reaches_of_release` — a frame that is released is reached from its handle only.
-/

namespace SmallLisp

namespace Store

/-! ### What can be reached -/

/-- An item refers to another one. -/
def RefersTo (store : Store) (item other : Item) : Prop :=
  other ∈ store.references item

/-- An item can be reached from one of these. -/
def Reaches (store : Store) (roots : List Item) (item : Item) : Prop :=
  ∃ root ∈ roots, Relation.ReflTransGen store.RefersTo root item

variable {store : Store} {roots : List Item} {item other : Item}

theorem reaches_of_mem (h : item ∈ roots) : store.Reaches roots item :=
  ⟨item, h, .refl⟩

theorem Reaches.step (h : store.Reaches roots item) (hother : other ∈ store.references item) :
    store.Reaches roots other := by
  obtain ⟨root, hroot, hpath⟩ := h
  exact ⟨root, hroot, hpath.tail hother⟩

theorem Reaches.mono {roots' : List Item} (h : store.Reaches roots item) (hsub : roots ⊆ roots') :
    store.Reaches roots' item := by
  obtain ⟨root, hroot, hpath⟩ := h
  exact ⟨root, hsub hroot, hpath⟩

/-- What holds of the roots and of all that is referred to holds of all that is reached. -/
theorem Reaches.induct {P : Item → Prop} (h : store.Reaches roots item)
    (hroots : ∀ root ∈ roots, P root)
    (hstep : ∀ item, P item → ∀ other ∈ store.references item, P other) : P item := by
  obtain ⟨root, hroot, hpath⟩ := h
  induction hpath with
  | refl => exact hroots root hroot
  | tail _ hother ih => exact hstep _ ih _ hother

end Store

/-! ### Tallies -/

namespace Tally

theorem count_foldl_add (tally : Tally) (items : List Item) (item : Item) :
    (items.foldl add tally).count item = tally.count item + items.count item := by
  induction items generalizing tally with
  | nil => rfl
  | cons first rest ih =>
      rw [List.foldl_cons, ih, count_add, List.count_cons]
      by_cases h : first = item
      · simp only [h, if_pos, beq_self_eq_true]
        omega
      · simp [h]

end Tally

namespace Store

variable {store : Store} {outside all left gone pending : List Item} {tally : Tally}

theorem count_tally (store : Store) (outside items : List Item) (item : Item) :
    (store.tally outside items).count item =
      outside.count item + (items.flatMap store.references).count item := by
  have hitems : ∀ tally : Tally,
      (items.foldl (fun tally item => (store.references item).foldl Tally.add tally)
        tally).count item = tally.count item + (items.flatMap store.references).count item := by
    induction items with
    | nil => exact fun _ => rfl
    | cons first rest ih =>
        intro tally
        rw [List.foldl_cons, ih, Tally.count_foldl_add, List.flatMap_cons, List.count_append]
        omega
  rw [tally, hitems, Tally.count_foldl_add, Tally.count_empty, Nat.zero_add]

/-- What a tally accounts for while the references of items that are gone are taken back: each
item has at least the references from outside, those of the items that are left, and the pending
ones of the item that is being taken back. -/
structure Accounts (store : Store) (outside all left gone pending : List Item) (tally : Tally) :
    Prop where
  covers (item : Item) : outside.count item + (left.flatMap store.references).count item
    + pending.count item ≤ tally.count item
  left_subset : left ⊆ all
  mem_left {item : Item} : item ∈ all → tally.count item ≠ 0 → item ∈ left
  gone_subperm : gone.Subperm left
  gone_zero {item : Item} : item ∈ gone → tally.count item = 0

/-- One pending reference is taken back. Its item was still counted, so it was not gone before. -/
theorem Accounts.discard {item : Item}
    (h : store.Accounts outside all left gone (item :: pending) tally) (hitem : item ∈ all) :
    store.Accounts outside all left (tally.discard gone item).1 pending
      (tally.discard gone item).2 := by
  have hcounted : 1 ≤ tally.count item := by
    have hcovers := h.covers item
    rw [List.count_cons_self] at hcovers
    omega
  have hle : ∀ other, (tally.discard gone item).2.count other ≤ tally.count other := by
    intro other
    rw [Tally.count_discard]
    split <;> omega
  refine ⟨fun other => ?_, h.left_subset, fun {other} hall hne => ?_, ?_, fun {other} hgone => ?_⟩
  · have hcovers := h.covers other
    rw [Tally.count_discard]
    by_cases heq : item = other
    · subst heq
      rw [List.count_cons_self] at hcovers
      rw [if_pos rfl]
      omega
    · rw [List.count_cons_of_ne heq] at hcovers
      rw [if_neg heq]
      exact hcovers
  · exact h.mem_left hall (by have := hle other; omega)
  · simp only [Tally.discard]
    split
    · have hnot : item ∉ gone := fun hgone => by
        have hzero := h.gone_zero hgone
        omega
      exact List.cons_subperm_of_not_mem_of_mem hnot (h.mem_left hitem (by omega)) h.gone_subperm
    · exact h.gone_subperm
  · have hold : other ∈ gone → (tally.discard gone item).2.count other = 0 := fun hmem => by
      have hzero := h.gone_zero hmem
      have hle := hle other
      omega
    simp only [Tally.discard] at hgone
    split at hgone
    · next hzero =>
        rcases List.mem_cons.1 hgone with rfl | hmem
        · rw [Tally.count_discard, if_pos rfl]
          exact hzero
        · exact hold hmem
    · exact hold hgone

theorem Accounts.discardAll (h : store.Accounts outside all left gone pending tally)
    (hpending : pending ⊆ all) :
    store.Accounts outside all left (tally.discardAll gone pending).1 []
      (tally.discardAll gone pending).2 := by
  induction pending generalizing gone tally with
  | nil => exact h
  | cons item rest ih =>
      obtain ⟨hitem, hrest⟩ := List.cons_subset.1 hpending
      exact ih (h.discard hitem) hrest

/-- The next item that is gone is taken out of those that are left, and its references are
pending. -/
theorem Accounts.takeOut {item : Item}
    (h : store.Accounts outside all left (item :: gone) [] tally) :
    store.Accounts outside all (left.erase item) gone (store.references item) tally := by
  have hmem : item ∈ left := h.gone_subperm.subset List.mem_cons_self
  refine ⟨fun other => ?_, ?_, fun {other} hall hne => ?_, ?_, fun hgone => ?_⟩
  · have hperm := (List.perm_cons_erase hmem).flatMap_right store.references
    have hcovers := h.covers other
    rw [hperm.count_eq, List.flatMap_cons, List.count_append, List.count_nil] at hcovers
    omega
  · exact List.Subset.trans List.erase_subset h.left_subset
  · have hother : other ≠ item := by
      rintro rfl
      exact hne (h.gone_zero List.mem_cons_self)
    exact (List.mem_erase_of_ne hother).2 (h.mem_left hall hne)
  · have hsub := h.gone_subperm.erase item
    rw [List.erase_cons_head] at hsub
    exact hsub
  · exact h.gone_zero (List.mem_cons_of_mem _ hgone)

/-- **Taking back what is gone takes back nothing else.** -/
theorem settle_accounts (hclosed : ∀ item ∈ all, store.references item ⊆ all) (bound : Nat)
    (h : store.Accounts outside all left gone [] tally) :
    ∃ left' gone', store.Accounts outside all left' gone' [] (store.settle bound gone tally) := by
  induction bound generalizing left gone tally with
  | zero => exact ⟨left, gone, h⟩
  | succ bound ih =>
      cases gone with
      | nil => exact ⟨left, [], h⟩
      | cons item gone =>
          have hitem : item ∈ all := h.left_subset (h.gone_subperm.subset List.mem_cons_self)
          exact ih (h.takeOut.discardAll (hclosed item hitem))

end Store

/-! ### A count of everything that may be in use -/

namespace Census

/-- The census lists all that is held, and with each item all that it refers to. -/
structure Complete (census : Census) (store : Store) (held : List Hold) : Prop where
  roots : held.flatMap Hold.items ⊆ census.items store
  closed {item : Item} : item ∈ census.items store → store.references item ⊆ census.items store

variable {census : Census} {store : Store} {held : List Hold}

/-- A tally that has at least the references from outside and from the items that are left, among
them all that is counted. -/
structure Covers (store : Store) (outside all left : List Item) (tally : Tally) : Prop where
  covers (item : Item) : outside.count item + (left.flatMap store.references).count item ≤
    tally.count item
  mem_left {item : Item} : item ∈ all → tally.count item ≠ 0 → item ∈ left
  left_subset : left ⊆ all

theorem Complete.covers (h : census.Complete store held) :
    ∃ left, Covers store (held.flatMap Hold.items) (census.items store) left
      (census.count store held).1 := by
  have hstart : store.Accounts (held.flatMap Hold.items) (census.items store)
      (census.items store)
      ((census.items store).filter
        ((store.tally (held.flatMap Hold.items) (census.items store)).count · = 0))
      [] (store.tally (held.flatMap Hold.items) (census.items store)) := by
    refine ⟨fun item => ?_, fun _ hitem => hitem, fun hall _ => hall, ?_, fun hgone => ?_⟩
    · rw [Store.count_tally, List.count_nil]
      exact Nat.le_refl _
    · exact List.filter_sublist.subperm
    · simpa using (List.mem_filter.1 hgone).2
  obtain ⟨left, gone, haccounts⟩ := Store.settle_accounts (fun _ hitem => h.closed hitem)
    (census.items store).length hstart
  exact ⟨left, fun item => haccounts.covers item, haccounts.mem_left, haccounts.left_subset⟩

section

variable {outside all left : List Item} {tally : Tally}

theorem Covers.counted_of_outside (h : Covers store outside all left tally) {item : Item}
    (hitem : item ∈ outside) : tally.count item ≠ 0 := by
  have hcovers := h.covers item
  have hpos := List.count_pos_iff.2 hitem
  omega

theorem Covers.counted_of_left (h : Covers store outside all left tally) {item other : Item}
    (hitem : item ∈ left) (hother : other ∈ store.references item) : tally.count other ≠ 0 := by
  have hcovers := h.covers other
  have hpos := List.count_pos_iff.2 (List.mem_flatMap.2 ⟨item, hitem, hother⟩)
  omega

variable (hroots : outside ⊆ all) (hclosed : ∀ item ∈ all, store.references item ⊆ all)
include hroots hclosed

/-- What is reached from outside is counted and left. -/
theorem Covers.of_reaches (h : Covers store outside all left tally) {item : Item}
    (hitem : store.Reaches outside item) : item ∈ left ∧ tally.count item ≠ 0 := by
  refine hitem.induct (P := fun item => item ∈ left ∧ tally.count item ≠ 0) (fun root hroot => ?_)
    fun item hitem other hother => ?_
  · have hcounted := h.counted_of_outside hroot
    exact ⟨h.mem_left (hroots hroot) hcounted, hcounted⟩
  · have hcounted := h.counted_of_left hitem.1 hother
    exact ⟨h.mem_left (hclosed item (h.left_subset hitem.1) hother) hcounted, hcounted⟩

end

theorem itemsSince_extents (store : Store) : store.itemsSince store.extents = [] := by
  refine List.flatMap_eq_nil_iff.2 fun ⟨arena, index⟩ hmem => ?_
  have harena := List.mem_zipIdx_iff_getElem?.1 hmem
  have hextent : store.extents[index]? = some arena.extent := by
    rw [Store.extents, Array.getElem?_map]
    simpa using congrArg (Option.map Arena.extent) harena
  show arena.itemsSince index (store.extents[index]?.getD {}) = []
  rw [hextent]
  simp [Arena.itemsSince, Arena.extent]

theorem items_count (census : Census) (store : Store) (held : List Hold) :
    (census.count store held).2.items store =
      (census.items store).filter ((census.count store held).1.count · ≠ 0) := by
  show store.itemsSince store.extents ++ _ = _
  rw [itemsSince_extents]
  rfl

/-- **A count leaves a complete census.** -/
theorem complete_count (h : census.Complete store held) :
    (census.count store held).2.Complete store held := by
  obtain ⟨left, hcovers⟩ := h.covers
  constructor
  · intro item hitem
    rw [items_count, List.mem_filter]
    exact ⟨h.roots hitem, by simpa using hcovers.counted_of_outside hitem⟩
  · intro item hitem other hother
    rw [items_count, List.mem_filter] at hitem ⊢
    have hleft := hcovers.mem_left hitem.1 (by simpa using hitem.2)
    exact ⟨h.closed hitem.1 hother, by simpa using hcovers.counted_of_left hleft hother⟩

/-- What is reached from what is held is listed. -/
theorem Complete.mem_items (h : census.Complete store held) {item : Item}
    (hitem : store.Reaches (held.flatMap Hold.items) item) : item ∈ census.items store :=
  hitem.induct (fun _ hroot => h.roots hroot) fun _ hitem _ hother => h.closed hitem hother

end Census

/-! ### Frames that can be released -/

namespace Store

variable {store : Store} {frame : FrameRef} {tally : Tally}

/-- The lambdas of a frame that nothing but one binding of the frame refers to. -/
def confined (store : Store) (tally : Tally) (frame : FrameRef) : List LambdaRef :=
  (store.ownLambdas frame).filter fun ref => tally.count (.lambda ref) = 1

theorem isReleasable_iff : store.isReleasable tally frame = true ↔
    store.confined tally frame ≠ [] ∧
      tally.count (.frame frame) = (store.confined tally frame).length + 1 := by
  simp [isReleasable, confined, List.countP_eq_length_filter]

theorem count_items_lambda (value : Value) (ref : LambdaRef) :
    value.items.count (.lambda ref) = value.lambda?.toList.count ref := by
  cases value <;> simp [Value.items, Value.lambda?, List.count_singleton]

/-- Each binding of a lambda in a frame is a reference. -/
theorem count_ownLambdas_le (store : Store) (frame : FrameRef) (ref : LambdaRef) :
    (store.ownLambdas frame).count ref ≤
      (store.references (.frame frame)).count (.lambda ref) := by
  have hvalues : ∀ values : List Value, (values.filterMap Value.lambda?).count ref =
      (values.flatMap Value.items).count (.lambda ref) := by
    intro values
    induction values with
    | nil => rfl
    | cons value rest ih =>
        rw [List.flatMap_cons, List.count_append, count_items_lambda, ← ih, List.filterMap_cons]
        cases value.lambda? with
        | none => simp
        | some other => simp [List.count_cons, Nat.add_comm]
  have hle : (store.ownLambdas frame).count ref ≤
      ((store.table frame).values.filterMap Value.lambda?).count ref :=
    List.filter_sublist.count_le ref
  rw [hvalues] at hle
  rw [references, List.count_append]
  omega

/-- Two ways to count that agree on a frame whose table has not been copied. Where copies of tables
share what is bound in them, fewer references are counted than there are bindings. But each binding
of this frame counts, and so does what is bound elsewhere, at least once. -/
structure Uncopied (store : Store) (frame : FrameRef) (full shared : Tally) : Prop where
  frame_eq : shared.count (.frame frame) = full.count (.frame frame)
  bound (ref : LambdaRef) : (store.ownLambdas frame).count ref ≤ shared.count (.lambda ref)
  fewer (ref : LambdaRef) : shared.count (.lambda ref) ≤ full.count (.lambda ref)
  elsewhere (ref : LambdaRef) : (store.ownLambdas frame).count ref < full.count (.lambda ref) →
    (store.ownLambdas frame).count ref < shared.count (.lambda ref)

/-- **Sharing makes no difference** to a frame whose table has not been copied. -/
theorem isReleasable_eq_of_uncopied {full shared : Tally} (h : store.Uncopied frame full shared) :
    store.isReleasable shared frame = store.isReleasable full frame := by
  have hconfined : store.confined shared frame = store.confined full frame := by
    refine List.filter_congr fun ref href => decide_eq_decide.2 ?_
    have hpos := List.count_pos_iff.2 href
    have hbound := h.bound ref
    have hfewer := h.fewer ref
    have helsewhere := h.elsewhere ref
    omega
  rw [Bool.eq_iff_iff, isReleasable_iff, isReleasable_iff, hconfined, h.frame_eq]

theorem scope_of_mem_confined {ref : LambdaRef} (h : ref ∈ store.confined tally frame) :
    (store.lambda ref).scope = frame := by
  have hown := (List.mem_filter.1 (List.mem_filter.1 h).1).2
  simpa using hown

theorem count_of_mem_confined {ref : LambdaRef} (h : ref ∈ store.confined tally frame) :
    tally.count (.lambda ref) = 1 := by
  simpa using (List.mem_filter.1 h).2

theorem mem_references_of_mem_confined {ref : LambdaRef} (h : ref ∈ store.confined tally frame) :
    .lambda ref ∈ store.references (.frame frame) := by
  have hpos := List.count_pos_iff.2 (List.mem_filter.1 h).1
  have hle := count_ownLambdas_le store frame ref
  exact List.count_pos_iff.1 (by omega)

/-- Confined lambdas all refer to their frame. -/
theorem length_confined_le {refs : List LambdaRef}
    (h : ∀ ref ∈ refs, (store.lambda ref).scope = frame) :
    refs.length ≤ ((refs.map Item.lambda).flatMap store.references).count (.frame frame) := by
  induction refs with
  | nil => exact Nat.zero_le _
  | cons ref rest ih =>
      obtain ⟨href, hrest⟩ := List.forall_mem_cons.1 h
      have hcount : 1 ≤ (store.references (.lambda ref)).count (.frame frame) := by
        refine List.count_pos_iff.2 ?_
        rw [references, href]
        exact List.mem_cons_self
      have hrest := ih hrest
      rw [List.map_cons, List.flatMap_cons, List.count_append, List.length_cons]
      omega

end Store

namespace Census

section

variable {store : Store} {outside all left : List Item} {tally : Tally} {frame : FrameRef}

/-- Distinct items that are left have no more references than were counted. -/
theorem Covers.count_le (h : Covers store outside all left tally) {items : List Item}
    (hnodup : items.Nodup) (hleft : items ⊆ left) (item : Item) :
    outside.count item + (items.flatMap store.references).count item ≤ tally.count item := by
  obtain ⟨some, hperm, hsub⟩ := List.subperm_of_subset hnodup hleft
  have hcount : (items.flatMap store.references).count item ≤
      (left.flatMap store.references).count item := by
    rw [← (hperm.flatMap_right store.references).count_eq]
    exact (hsub.flatMap store.references).count_le item
  have hcovers := h.covers item
  omega

variable (hroots : outside ⊆ all) (hclosed : ∀ item ∈ all, store.references item ⊆ all)
  (hframe : .frame frame ∈ outside)
include hroots hclosed hframe

theorem Covers.frame_left (h : Covers store outside all left tally) : [.frame frame] ⊆ left := by
  have hleft := (h.of_reaches hroots hclosed (Store.reaches_of_mem hframe)).1
  exact List.cons_subset.2 ⟨hleft, List.nil_subset left⟩

theorem Covers.confined_left (h : Covers store outside all left tally) :
    (store.confined tally frame).map Item.lambda ⊆ left := by
  intro item hitem
  obtain ⟨ref, href, rfl⟩ := List.mem_map.1 hitem
  have hreference := Store.mem_references_of_mem_confined href
  exact (h.of_reaches hroots hclosed ((Store.reaches_of_mem hframe).step hreference)).1

theorem Covers.nodup_confined (h : Covers store outside all left tally) :
    (store.confined tally frame).Nodup := by
  refine List.nodup_iff_count_le_one.2 fun ref => ?_
  by_cases href : ref ∈ store.confined tally frame
  · have hle := h.count_le (List.nodup_singleton (.frame frame))
      (h.frame_left hroots hclosed hframe) (.lambda ref)
    rw [List.flatMap_singleton, Store.count_of_mem_confined href] at hle
    have hown := Store.count_ownLambdas_le store frame ref
    have hfilter : (store.confined tally frame).count ref ≤ (store.ownLambdas frame).count ref :=
      List.filter_sublist.count_le ref
    omega
  · rw [List.count_eq_zero.2 href]
    exact Nat.zero_le 1

/-- Only the handle and confined lambdas refer to a frame that can be released. -/
theorem Covers.refersTo_frame (h : Covers store outside all left tally)
    (hcount : tally.count (.frame frame) = (store.confined tally frame).length + 1) :
    .frame frame ∉ outside.erase (.frame frame) ∧
      ∀ item ∈ left, .frame frame ∈ store.references item →
        item ∈ (store.confined tally frame).map Item.lambda := by
  have hinjective : Function.Injective Item.lambda := fun _ _ heq => Item.lambda.inj heq
  have hnodup := (h.nodup_confined hroots hclosed hframe).map hinjective
  have hleft := h.confined_left hroots hclosed hframe
  have hscope : ∀ ref ∈ store.confined tally frame, (store.lambda ref).scope = frame :=
    fun ref href => Store.scope_of_mem_confined href
  have hlength := Store.length_confined_le hscope
  have hpos := List.count_pos_iff.2 hframe
  constructor
  · have hle := h.count_le hnodup hleft (.frame frame)
    rw [← List.count_eq_zero, List.count_erase_self]
    omega
  · intro item hitem hreference
    refine Classical.byContradiction fun hnot => ?_
    have hle := h.count_le (List.nodup_cons.2 ⟨hnot, hnodup⟩) (List.cons_subset.2 ⟨hitem, hleft⟩)
      (.frame frame)
    have hone := List.count_pos_iff.2 hreference
    rw [List.flatMap_cons, List.count_append] at hle
    omega

/-- Only its frame refers to a confined lambda. -/
theorem Covers.refersTo_confined (h : Covers store outside all left tally) {ref : LambdaRef}
    (href : ref ∈ store.confined tally frame) :
    .lambda ref ∉ outside ∧
      ∀ item ∈ left, .lambda ref ∈ store.references item → item = .frame frame := by
  have hleft := h.frame_left hroots hclosed hframe
  have hframe := List.count_pos_iff.2 (Store.mem_references_of_mem_confined href)
  have hcount := Store.count_of_mem_confined href
  constructor
  · have hle := h.count_le (List.nodup_singleton (.frame frame)) hleft (.lambda ref)
    rw [List.flatMap_singleton] at hle
    exact List.count_eq_zero.1 (by omega)
  · intro item hitem hreference
    refine Classical.byContradiction fun hne => ?_
    have hnodup : [item, .frame frame].Nodup :=
      List.nodup_cons.2 ⟨fun hmem => hne (List.mem_singleton.1 hmem), List.nodup_singleton _⟩
    have hle := h.count_le hnodup
      (List.cons_subset.2 ⟨hitem, hleft⟩) (.lambda ref)
    have hone := List.count_pos_iff.2 hreference
    rw [List.flatMap_cons, List.flatMap_singleton, List.count_append] at hle
    omega

/-- Whoever comes from elsewhere comes neither to a frame that can be released nor to its confined
lambdas. -/
theorem Covers.not_reaches (h : Covers store outside all left tally)
    (hcount : tally.count (.frame frame) = (store.confined tally frame).length + 1) :
    ¬store.Reaches (outside.erase (.frame frame)) (.frame frame) := by
  obtain ⟨hhandle, hrefers⟩ := h.refersTo_frame hroots hclosed hframe hcount
  intro hreaches
  have helsewhere := hreaches.induct
    (P := fun item => item ∈ left ∧ item ≠ .frame frame ∧
      item ∉ (store.confined tally frame).map Item.lambda)
    (fun root hroot => ?_) fun item hitem other hother => ?_
  · exact helsewhere.2.1 rfl
  · have hmem := List.mem_of_mem_erase hroot
    refine ⟨(h.of_reaches hroots hclosed (Store.reaches_of_mem hmem)).1, ?_, fun hlambda => ?_⟩
    · rintro rfl
      exact hhandle hroot
    · obtain ⟨ref, href, rfl⟩ := List.mem_map.1 hlambda
      exact (h.refersTo_confined hroots hclosed hframe href).1 hmem
  · obtain ⟨hleft, hne, hnot⟩ := hitem
    have hcounted := h.counted_of_left hleft hother
    refine ⟨h.mem_left (hclosed item (h.left_subset hleft) hother) hcounted, ?_, fun hlambda => ?_⟩
    · rintro rfl
      exact hnot (hrefers item hleft hother)
    · obtain ⟨ref, href, rfl⟩ := List.mem_map.1 hlambda
      exact hne ((h.refersTo_confined hroots hclosed hframe href).2 item hleft hother)

end

variable {census : Census} {store : Store} {held : List Hold} {frame : FrameRef}

theorem release_eq (census : Census) (store : Store) (held : List Hold) (frame : FrameRef) :
    census.release store held frame =
      if store.isReleasable (census.count store held).1 frame = true then
        (true, store.clear frame, (census.count store held).2)
      else (false, store, (census.count store held).2) := rfl

/-- **A frame that is released is reached from its handle only.** -/
theorem not_reaches_of_release (h : census.Complete store held)
    (hframe : .frame frame ∈ held.flatMap Hold.items)
    (hreleased : (census.release store held frame).1 = true) :
    ¬store.Reaches ((held.flatMap Hold.items).erase (.frame frame)) (.frame frame) := by
  obtain ⟨left, hcovers⟩ := h.covers
  have hreleasable : store.isReleasable (census.count store held).1 frame = true := by
    refine Classical.byContradiction fun hnot => ?_
    rw [release_eq, if_neg hnot] at hreleased
    exact nomatch hreleased
  exact hcovers.not_reaches h.roots (fun _ hitem => h.closed hitem) hframe
    (Store.isReleasable_iff.1 hreleasable).2

end Census

end SmallLisp
