import SmallLisp.Proofs.Agreement
import SmallLisp.Proofs.Counting

/-!
# Two stores side by side

A twin is a pair of stores that are changed in step. They agree on the items that are intact, and
these are all that is ever looked at; beyond them each store may have remains that the other does
not have. Of the left store a census may be kept. Then frames are released there, and what is
intact may become less: only what is held is sure to stay.

The stores may also have arenas that are not common to them. Nothing there is intact, and nothing
is changed there.

## Main results

* `Twin.cons`, `Twin.addLambda`, `Twin.extend`, `Twin.bind`, … — what is changed in step gives a
  twin again.
* `Twin.leave` — so does leaving the frame of a call, on whose end a frame of the left store may be
  released.
-/

namespace SmallLisp

theorem Table.mem_values_insert {α : Type} {table : Table α} {name : Symbol} {value other : α}
    (h : other ∈ (table.insert name value).values) : other = value ∨ other ∈ table.values := by
  obtain ⟨entry, hentry, rfl⟩ := List.mem_map.1 h
  rcases Table.mem_place hentry with rfl | hentry
  · exact .inl rfl
  · exact .inr (List.mem_map_of_mem hentry)

/-! ### What changes keep -/

/-- A lambda stays as it is, and a frame stays in the frames around it. -/
inductive Entry.Follows : Entry → Entry → Prop
  | cell (before after : Cell) : Follows (.cell before) (.cell after)
  | lambda (code : Lambda) : Follows (.lambda code) (.lambda code)
  | frame {before after : Frame} : after.ancestors = before.ancestors →
      Follows (.frame before) (.frame after)

namespace Entry

theorem Follows.refl (entry : Entry) : entry.Follows entry := by
  cases entry with
  | cell parts => exact .cell parts parts
  | lambda code => exact .lambda code
  | frame found => exact .frame rfl

theorem Follows.trans {first second third : Entry} (h : first.Follows second)
    (h' : second.Follows third) : first.Follows third := by
  cases h with
  | cell before _ => cases h' with | cell _ after => exact .cell before after
  | lambda code => exact h'
  | frame heq => cases h' with | frame heq' => exact .frame (heq'.trans heq)

theorem Follows.fixed_eq {before after : Entry} (h : before.Follows after) :
    after.fixed = before.fixed := by
  cases h with
  | cell _ _ => rfl
  | lambda _ => rfl
  | frame heq => rw [Entry.fixed, heq, Entry.fixed]

end Entry

/-- An entry without the bindings of a frame. -/
def Entry.bare : Entry → Entry
  | .cell parts => .cell parts
  | .lambda code => .lambda code
  | .frame found => .frame { found with table := .empty }

namespace Store

/-- Nothing disappears, lambdas stay as they are, and frames stay in the frames around them. -/
def Follows (before after : Store) : Prop :=
  ∀ item entry, before.find? item = some entry →
    ∃ entry', after.find? item = some entry' ∧ entry.Follows entry'

variable {before middle after store : Store}

theorem Follows.refl (store : Store) : store.Follows store :=
  fun _ entry h => ⟨entry, h, .refl entry⟩

theorem Follows.trans (h : before.Follows middle) (h' : middle.Follows after) :
    before.Follows after := by
  intro item entry hentry
  obtain ⟨entry', hentry', hfollows⟩ := h item entry hentry
  obtain ⟨entry'', hentry'', hfollows'⟩ := h' item entry' hentry'
  exact ⟨entry'', hentry'', hfollows.trans hfollows'⟩

theorem Follows.isSome (h : before.Follows after) {item : Item}
    (hitem : (before.find? item).isSome = true) : (after.find? item).isSome = true := by
  obtain ⟨entry, hentry⟩ := Option.isSome_iff_exists.1 hitem
  obtain ⟨entry', hentry', -⟩ := h item entry hentry
  rw [hentry']
  rfl

theorem Follows.ancestors_eq (h : before.Follows after) {ref : FrameRef}
    (href : (before.find? (.frame ref)).isSome = true) :
    (after.frame ref).ancestors = (before.frame ref).ancestors := by
  obtain ⟨frame, hframe, hentry⟩ := exists_find?_frame href
  obtain ⟨entry, hentry', hfollows⟩ := h _ _ hentry
  cases hfollows with
  | frame heq =>
      rw [find?_frame] at hentry'
      obtain ⟨frame', hframe', heq'⟩ := Option.map_eq_some_iff.1 hentry'
      cases heq'
      rw [Store.frame, Store.frame, hframe, hframe']
      exact heq

theorem Follows.scope_eq (h : before.Follows after) {ref : FrameRef}
    (href : (before.find? (.frame ref)).isSome = true) : after.scope ref = before.scope ref := by
  rw [scope, scope, h.ancestors_eq href]

theorem Puts.follows {target : Item} {entry : Entry} (h : Puts target entry before after)
    (hold : ∀ old, before.find? target = some old → old.Follows entry) :
    before.Follows after := by
  intro item found hfound
  rw [h.find?]
  split
  · next heq => exact ⟨entry, rfl, hold found (heq ▸ hfound)⟩
  · exact ⟨found, hfound, .refl found⟩

theorem references_congr {left right : Store} {item : Item}
    (h : left.find? item = right.find? item) : left.references item = right.references item :=
  AgreeOn.references (P := (· = item)) (fun _ heq => heq ▸ h) rfl

/-- The bindings of a frame may have been taken out. -/
def MayClear (ref : FrameRef) (before after : Store) : Prop :=
  after = before ∨ after = before.clear ref

namespace MayClear

variable {ref : FrameRef}

theorem size_eq (h : MayClear ref before after) : after.arenas.size = before.arenas.size := by
  rcases h with rfl | rfl
  · rfl
  · exact Array.size_modify

variable (h : MayClear ref before after) (href : (before.find? (.frame ref)).isSome = true)
include h href

theorem find?_of_ne {item : Item} (hne : item ≠ .frame ref) :
    after.find? item = before.find? item := by
  rcases h with rfl | rfl
  · rfl
  · obtain ⟨frame, hframe, -⟩ := exists_find?_frame href
    exact (puts_modifyTable hframe fun _ => .empty).find?_of_ne hne

theorem follows : before.Follows after := by
  rcases h with rfl | rfl
  · exact .refl _
  · obtain ⟨frame, hframe, hentry⟩ := exists_find?_frame href
    refine (puts_modifyTable hframe fun _ => .empty).follows fun old hold => ?_
    cases hentry.symm.trans hold
    exact .frame rfl

theorem isSome_eq (item : Item) : (after.find? item).isSome = (before.find? item).isSome := by
  by_cases hitem : item = .frame ref
  · rw [hitem, href, (h.follows href).isSome href]
  · rw [h.find?_of_ne href hitem]

theorem bare_eq (item : Item) :
    (after.find? item).map Entry.bare = (before.find? item).map Entry.bare := by
  by_cases hitem : item = .frame ref
  · subst hitem
    obtain ⟨frame, hframe, hentry⟩ := exists_find?_frame href
    rcases h with rfl | rfl
    · rfl
    · rw [clear, (puts_modifyTable hframe fun _ => .empty).find?_self, hentry]
      rfl
  · rw [h.find?_of_ne href hitem]

theorem references_subset (item : Item) : after.references item ⊆ before.references item := by
  rcases h with rfl | rfl
  · exact List.Subset.refl _
  · obtain ⟨frame, hframe, hentry⟩ := exists_find?_frame href
    have hputs := puts_modifyTable hframe fun _ => .empty
    by_cases hitem : item = .frame ref
    · subst hitem
      rw [clear, references_eq hputs.find?_self, references_eq hentry]
      intro other hother
      have hhead : other ∈ (frame.ancestors.head?.map Item.frame).toList := by
        simpa [Entry.references, Table.empty, Table.values] using hother
      exact List.mem_append_left _ hhead
    · rw [clear, references_congr (hputs.find?_of_ne hitem)]
      exact List.Subset.refl _

theorem closed {P : Item → Prop} (hclosed : before.Closed P) : after.Closed P :=
  fun item hitem other hother => hclosed item hitem other (h.references_subset href item hother)

theorem chained {P : Item → Prop} (hclosed : before.Closed P) (hchained : before.Chained P)
    (hpresent : ∀ {item}, P item → (before.find? item).isSome = true) : after.Chained P := by
  intro frame hframe parent hparent
  rw [(h.follows href).ancestors_eq (hpresent hframe)] at hparent ⊢
  rw [(h.follows href).scope_eq (hpresent (hclosed.parent hframe hparent))]
  exact hchained frame hframe parent hparent

end MayClear

end Store

/-! ### What a census lists -/

namespace Census

/-- The census lists these items and, with each item that it lists, all that this refers to. It
covers no place that has not been handed out. -/
structure Lists (census : Census) (store : Store) (P : Item → Prop) : Prop where
  mem {item : Item} : P item → item ∈ census.items store
  closed {item : Item} : item ∈ census.items store → store.references item ⊆ census.items store
  filled {item : Item} : item.index < item.bound (census.filled[item.arena]?.getD {}) →
    (store.find? item).isSome = true

variable {census : Census} {store after : Store} {P Q : Item → Prop}

theorem mem_items {item : Item} : item ∈ census.items store ↔
    ((store.find? item).isSome = true ∧
      item.bound (census.filled[item.arena]?.getD {}) ≤ item.index) ∨ item ∈ census.known := by
  rw [items, List.mem_append, Store.mem_itemsSince]

theorem Lists.mono (h : census.Lists store P) (hsub : ∀ item, Q item → P item) :
    census.Lists store Q :=
  ⟨fun hitem => h.mem (hsub _ hitem), h.closed, h.filled⟩

theorem Lists.complete (h : census.Lists store P) {held : List Hold}
    (hheld : ∀ item ∈ held.flatMap Hold.items, P item) : census.Complete store held :=
  ⟨fun item hitem => h.mem (hheld item hitem), h.closed⟩

theorem Lists.put (h : census.Lists store P) {target : Item} {entry : Entry}
    (hputs : Store.Puts target entry store after)
    (htarget : P target ∨ store.find? target = none)
    (hreferences : ∀ item ∈ entry.references, P item) :
    census.Lists after fun item => P item ∨ item = target := by
  have hsub : ∀ item, item ∈ census.items store → item ∈ census.items after := by
    intro item hitem
    rw [mem_items] at hitem ⊢
    exact hitem.imp (fun hsince => ⟨hputs.isSome hsince.1, hsince.2⟩) fun hknown => hknown
  constructor
  · rintro item (hitem | rfl)
    · exact hsub item (h.mem hitem)
    · rcases htarget with hold | hnew
      · exact hsub item (h.mem hold)
      · rw [mem_items, hputs.find?_self]
        -- what is new is not within the extents that the census covers
        refine .inl ⟨rfl, Nat.le_of_not_lt fun hlt => ?_⟩
        have hsome := h.filled hlt
        rw [hnew] at hsome
        exact nomatch hsome
  · intro item hitem other hother
    by_cases heq : item = target
    · subst heq
      rw [Store.references_eq hputs.find?_self] at hother
      exact hsub other (h.mem (hreferences other hother))
    · rw [Store.references_congr (hputs.find?_of_ne heq)] at hother
      refine hsub other (h.closed ?_ hother)
      rw [mem_items] at hitem ⊢
      rwa [hputs.find?_of_ne heq] at hitem
  · exact fun hlt => hputs.isSome (h.filled hlt)

theorem items_congr (h : ∀ item, (after.find? item).isSome = (store.find? item).isSome)
    (item : Item) : item ∈ census.items after ↔ item ∈ census.items store := by
  rw [mem_items, mem_items, h]

theorem mayClear_release (census : Census) (store : Store) (held : List Hold) (frame : FrameRef) :
    Store.MayClear frame store (census.release store held frame).2.1 := by
  rw [release_eq]
  split
  · exact .inr rfl
  · exact .inl rfl

section

variable {held : List Hold} {frame : FrameRef}
  (hframe : (store.find? (.frame frame)).isSome = true)
include hframe

/-- What is reached from what is held is listed when a frame may have been released. -/
theorem Lists.release (h : census.Lists store P)
    (hheld : ∀ item ∈ held.flatMap Hold.items, P item) :
    (census.release store held frame).2.2.Lists (census.release store held frame).2.1
      (store.Reaches (held.flatMap Hold.items)) := by
  have hcomplete := complete_count (h.complete hheld)
  have hcensus : (census.release store held frame).2.2 = (census.count store held).2 := by
    rw [release_eq]
    split <;> rfl
  have hclear := census.mayClear_release store held frame
  have hitems : ∀ item, item ∈ (census.count store held).2.items _ ↔ _ :=
    items_congr (hclear.isSome_eq hframe)
  rw [hcensus]
  refine ⟨fun hitem => ?_, fun {item} hitem other hother => ?_, fun {item} hlt => ?_⟩
  · exact (hitems _).2 (hcomplete.mem_items hitem)
  · have hother := hclear.references_subset hframe item hother
    exact (hitems _).2 (hcomplete.closed ((hitems _).1 hitem) hother)
  · rw [hclear.isSome_eq hframe, Store.isSome_find?, Store.extent]
    simpa [count, Store.extents] using hlt

/-- **What is reached from elsewhere** is as it was when a frame may have been released. -/
theorem find?_release (h : census.Complete store held)
    (hheld : .frame frame ∈ held.flatMap Hold.items) {item : Item}
    (hitem : store.Reaches ((held.flatMap Hold.items).erase (.frame frame)) item) :
    (census.release store held frame).2.1.find? item = store.find? item := by
  by_cases hreleased : (census.release store held frame).1 = true
  · refine (census.mayClear_release store held frame).find?_of_ne hframe fun heq => ?_
    exact not_reaches_of_release h hheld hreleased (heq ▸ hitem)
  · rw [release_eq] at hreleased ⊢
    split
    · next hreleasable => exact absurd (by rw [if_pos hreleasable]) hreleased
    · rfl

end

end Census

/-! ### Twins -/

/-- Two stores that agree on what is intact. Only the arenas that are common have anything that is
intact, and there the stores differ in the bindings of frames at most. A census, if there is one, is
of the left store. -/
structure Twin (common : Nat → Prop) where
  left : Store
  right : Store
  census : Option Census
  intact : Item → Prop
  agree : left.AgreeOn intact right
  closed : left.Closed intact
  chained : left.Chained intact
  present {item : Item} : intact item → (left.find? item).isSome = true
  shared {item : Item} : intact item → common item.arena
  same {item : Item} : common item.arena →
    (left.find? item).map Entry.bare = (right.find? item).map Entry.bare
  size_eq : left.arenas.size = right.arenas.size
  listed (found : Census) : census = some found → found.Lists left intact

namespace Twin

variable {common : Nat → Prop} {α β : Type} {w w' w₁ w₂ w₃ : Twin common} {arena : Nat}

/-- The stores are changed in step in an arena. -/
def Open (w : Twin common) (arena : Nat) : Prop :=
  common arena ∧ arena < w.left.arenas.size

theorem open_of_intact {item : Item} (h : w.intact item) : w.Open item.arena :=
  ⟨w.shared h, Store.arena_lt_size (w.present h)⟩

theorem extent_eq (w : Twin common) (h : common arena) :
    w.left.extent arena = w.right.extent arena := by
  refine Store.extent_congr fun item hitem => ?_
  have hsome := congrArg Option.isSome (w.same (hitem ▸ h : common item.arena))
  rwa [Option.isSome_map, Option.isSome_map] at hsome

/-- What every change in step does: the left store follows, and nothing changes in arenas that are
not common. -/
structure Moves (w w' : Twin common) : Prop where
  follows : w.left.Follows w'.left
  counted : w'.census.isSome = w.census.isSome
  outside {item : Item} : ¬common item.arena →
    w'.left.find? item = w.left.find? item ∧ w'.right.find? item = w.right.find? item
  size : w'.left.arenas.size = w.left.arenas.size

/-- A change in step by which nothing is lost. -/
structure Grows (w w' : Twin common) : Prop extends Moves w w' where
  census_eq : w'.census = w.census
  intact {item : Item} : w.intact item → w'.intact item

/-- A change in step by which nothing is lost that can be reached from these roots. -/
structure Leads (roots : List Item) (w w' : Twin common) : Prop extends Moves w w' where
  rooted {item : Item} : item ∈ roots → w.intact item → w'.intact item
  lasting {item : Item} : w.census = none → w.intact item → w'.intact item

theorem Moves.refl (w : Twin common) : w.Moves w :=
  ⟨.refl _, rfl, fun _ => ⟨rfl, rfl⟩, rfl⟩

theorem Moves.trans (h : w₁.Moves w₂) (h' : w₂.Moves w₃) : w₁.Moves w₃ where
  follows := h.follows.trans h'.follows
  counted := h'.counted.trans h.counted
  outside hitem := ⟨(h'.outside hitem).1.trans (h.outside hitem).1,
    (h'.outside hitem).2.trans (h.outside hitem).2⟩
  size := h'.size.trans h.size

theorem Grows.refl (w : Twin common) : w.Grows w :=
  { Moves.refl w with census_eq := rfl, intact := fun h => h }

theorem Grows.trans (h : w₁.Grows w₂) (h' : w₂.Grows w₃) : w₁.Grows w₃ :=
  { h.toMoves.trans h'.toMoves with
    census_eq := h'.census_eq.trans h.census_eq
    intact := fun hitem => h'.intact (h.intact hitem) }

theorem Grows.leads (h : w.Grows w') (roots : List Item) : Leads roots w w' :=
  { h.toMoves with
    rooted := fun _ hitem => h.intact hitem
    lasting := fun _ hitem => h.intact hitem }

theorem Grows.isIn (h : w.Grows w') {value : Value} (hvalue : value.In w.intact) :
    value.In w'.intact :=
  fun item hitem => h.intact (hvalue item hitem)

theorem Grows.isOpen (h : w.Grows w') (hopen : w.Open arena) : w'.Open arena :=
  ⟨hopen.1, h.size.symm ▸ hopen.2⟩

theorem Moves.census_eq_none (h : w.Moves w') (hnone : w.census = none) : w'.census = none := by
  rw [← Option.not_isSome_iff_eq_none, h.counted, hnone]
  exact Bool.false_ne_true

theorem Leads.refl (roots : List Item) (w : Twin common) : Leads roots w w :=
  (Grows.refl w).leads roots

theorem Leads.trans {roots : List Item} (h : Leads roots w₁ w₂) (h' : Leads roots w₂ w₃) :
    Leads roots w₁ w₃ :=
  { h.toMoves.trans h'.toMoves with
    rooted := fun hroot hitem => h'.rooted hroot (h.rooted hroot hitem)
    lasting := fun hnone hitem =>
      h'.lasting (h.toMoves.census_eq_none hnone) (h.lasting hnone hitem) }

theorem Leads.mono {roots roots' : List Item} (h : Leads roots w w') (hsub : roots' ⊆ roots) :
    Leads roots' w w' :=
  { h with rooted := fun hroot hitem => h.rooted (hsub hroot) hitem }

/-- A twin of stores that have changed only where nothing is common. -/
def transport (w : Twin common) {left right : Store}
    (hleft : ∀ item : Item, common item.arena → left.find? item = w.left.find? item)
    (hright : ∀ item : Item, common item.arena → right.find? item = w.right.find? item)
    (hsize : left.arenas.size = right.arenas.size)
    (hcensus : w.census = none ∨ ∀ item, left.find? item = w.left.find? item) : Twin common where
  left := left
  right := right
  census := w.census
  intact := w.intact
  agree item hitem := by
    rw [hleft item (w.shared hitem), hright item (w.shared hitem)]
    exact w.agree item hitem
  closed item hitem other hother := by
    rw [Store.references_congr (hleft item (w.shared hitem))] at hother
    exact w.closed item hitem other hother
  chained frame hframe parent hparent := by
    have hagree : left.AgreeOn w.intact w.left := fun item hitem => hleft item (w.shared hitem)
    rw [hagree.frame hframe] at hparent ⊢
    rw [Store.scope, hagree.frame (w.closed.parent hframe hparent)]
    exact w.chained frame hframe parent hparent
  present hitem := by
    rw [hleft _ (w.shared hitem)]
    exact w.present hitem
  shared := w.shared
  same hitem := by
    rw [hleft _ hitem, hright _ hitem]
    exact w.same hitem
  size_eq := hsize
  listed found hfound := by
    rcases hcensus with hnone | hall
    · exact nomatch hnone.symm.trans hfound
    · have hlisted := w.listed found hfound
      have hitems : ∀ item, item ∈ found.items left ↔ item ∈ found.items w.left :=
        Census.items_congr fun item => by rw [hall item]
      refine ⟨fun hitem => (hitems _).2 (hlisted.mem hitem), fun {item} hitem other hother => ?_,
        fun {item} hlt => ?_⟩
      · rw [Store.references_congr (hall item)] at hother
        exact (hitems _).2 (hlisted.closed ((hitems _).1 hitem) hother)
      · rw [hall item]
        exact hlisted.filled hlt

/-! ### What stays as long as its roots do -/

/-- Something is reached from these roots, by references that never change. -/
def Anchored (w : Twin common) (roots : List Item) (item : Item) : Prop :=
  ∃ root ∈ roots, w.intact root ∧
    Relation.ReflTransGen (fun item other => ∃ entry, w.left.find? item = some entry ∧
      other ∈ entry.fixed) root item

section

variable {roots roots' : List Item} {item other : Item}

theorem anchored_of_mem (hroot : item ∈ roots) (h : w.intact item) : w.Anchored roots item :=
  ⟨item, hroot, h, .refl⟩

theorem Anchored.intact (h : w.Anchored roots item) : w.intact item := by
  obtain ⟨root, -, hroot, hpath⟩ := h
  induction hpath with
  | refl => exact hroot
  | tail _ hstep ih =>
      obtain ⟨entry, hentry, hother⟩ := hstep
      refine w.closed _ ih _ ?_
      rw [Store.references_eq hentry]
      exact entry.fixed_subset hother

theorem Anchored.step (h : w.Anchored roots item) {entry : Entry}
    (hentry : w.left.find? item = some entry) (hother : other ∈ entry.fixed) :
    w.Anchored roots other := by
  obtain ⟨root, hmem, hroot, hpath⟩ := h
  exact ⟨root, hmem, hroot, hpath.tail ⟨entry, hentry, hother⟩⟩

theorem Anchored.mono (h : w.Anchored roots item) (hsub : roots ⊆ roots') :
    w.Anchored roots' item := by
  obtain ⟨root, hmem, hroot, hpath⟩ := h
  exact ⟨root, hsub hmem, hroot, hpath⟩

theorem Anchored.leads (h : w.Anchored roots item) (hleads : Leads roots w w') :
    w'.Anchored roots item := by
  obtain ⟨root, hmem, hroot, hpath⟩ := h
  refine ⟨root, hmem, hleads.rooted hmem hroot, Relation.ReflTransGen.mono ?_ _ _ hpath⟩
  rintro item other ⟨entry, hentry, hother⟩
  obtain ⟨entry', hentry', hfollows⟩ := hleads.follows item entry hentry
  exact ⟨entry', hentry', hfollows.fixed_eq.symm ▸ hother⟩

end

/-! ### Changes in step -/

section

variable (w : Twin common) {target : Item} {entry : Entry} {left right : Store}
  (hleft : Store.Puts target entry w.left left) (hright : Store.Puts target entry w.right right)
  (hcommon : common target.arena) (htarget : w.intact target ∨ w.left.find? target = none)
  (hfollows : ∀ old, w.left.find? target = some old → old.Follows entry)
  (hreferences : ∀ item ∈ entry.references, w.intact item)
  (hancestors : ∀ frame, entry = .frame frame → ∀ parent, frame.ancestors.head? = some parent →
    frame.ancestors = w.left.scope parent)

/-- An entry is put in the same place of both stores. -/
def put : Twin common where
  left := left
  right := right
  census := w.census
  intact item := w.intact item ∨ item = target
  agree item hitem := by
    rw [hleft.find?, hright.find?]
    split
    · rfl
    · next hne => exact w.agree item (hitem.resolve_right hne)
  closed item hitem other hother := by
    refine .inl ?_
    by_cases heq : item = target
    · subst heq
      rw [Store.references_eq hleft.find?_self] at hother
      exact hreferences other hother
    · rw [Store.references_congr (hleft.find?_of_ne heq)] at hother
      exact w.closed item (hitem.resolve_right heq) other hother
  chained frame hframe parent hparent := by
    have hscope : ∀ {ref : FrameRef}, w.intact (.frame ref) → left.scope ref = w.left.scope ref :=
      fun href => (hleft.follows hfollows).scope_eq (w.present href)
    by_cases heq : .frame frame = target
    · subst heq
      have hentry := hleft.find?_self
      rw [Store.find?_frame] at hentry
      obtain ⟨found, hfound, rfl⟩ := Option.map_eq_some_iff.1 hentry
      have hframe : left.frame frame = found := by rw [Store.frame, hfound]; rfl
      rw [hframe] at hparent ⊢
      have hintact : w.intact (.frame parent) := by
        refine hreferences _ (List.mem_append_left _ ?_)
        rw [hparent]
        exact List.mem_cons_self
      rw [hscope hintact]
      exact hancestors found rfl parent hparent
    · have hold := hframe.resolve_right heq
      have hframe : (left.frame frame).ancestors = (w.left.frame frame).ancestors :=
        (hleft.follows hfollows).ancestors_eq (w.present hold)
      rw [hframe] at hparent ⊢
      rw [hscope (w.closed.parent hold hparent)]
      exact w.chained frame hold parent hparent
  present := by
    rintro item (hitem | rfl)
    · exact hleft.isSome (w.present hitem)
    · rw [hleft.find?_self]; rfl
  shared := by
    rintro item (hitem | rfl)
    · exact w.shared hitem
    · exact hcommon
  same {item} hitem := by
    rw [hleft.find?, hright.find?]
    split
    · rfl
    · exact w.same hitem
  size_eq := by rw [hleft.size, hright.size, w.size_eq]
  listed found hfound := (w.listed found hfound).put hleft htarget hreferences

theorem grows_put :
    w.Grows (w.put hleft hright hcommon htarget hfollows hreferences hancestors) where
  follows := hleft.follows hfollows
  counted := rfl
  outside {item} hitem := by
    have hne : item ≠ target := fun heq => hitem (heq ▸ hcommon)
    exact ⟨hleft.find?_of_ne hne, hright.find?_of_ne hne⟩
  size := hleft.size
  census_eq := rfl
  intact hitem := .inl hitem

end

/-- Both stores are changed alike, with the same result. -/
def Alike (w : Twin common) (change : Store → α × Store) (post : Twin common → α → Prop) : Prop :=
  ∃ a w', change w.left = (a, w'.left) ∧ change w.right = (a, w'.right) ∧ w.Grows w' ∧ post w' a

theorem Alike.pure {a : α} {post : Twin common → α → Prop} (h : post w a) :
    w.Alike (fun store => (a, store)) post :=
  ⟨a, w, rfl, rfl, .refl w, h⟩

theorem Alike.bind {mid : Twin common → α → Prop} {post : Twin common → β → Prop}
    {f : Store → α × Store} {g : α → Store → β × Store} (hf : w.Alike f mid)
    (hg : ∀ w', w.Grows w' → ∀ a, mid w' a → w'.Alike (g a) post) :
    w.Alike (fun store => g (f store).1 (f store).2) post := by
  obtain ⟨a, w', hleft, hright, hgrows, ha⟩ := hf
  obtain ⟨b, w'', hleft', hright', hgrows', hb⟩ := hg w' hgrows a ha
  refine ⟨b, w'', ?_, ?_, hgrows.trans hgrows', hb⟩
  · simp only [hleft, hleft']
  · simp only [hright, hright']

theorem Alike.imp {post post' : Twin common → α → Prop} {f : Store → α × Store}
    (h : w.Alike f post) (himp : ∀ w', w.Grows w' → ∀ a, post w' a → post' w' a) :
    w.Alike f post' := by
  obtain ⟨a, w', hleft, hright, hgrows, ha⟩ := h
  exact ⟨a, w', hleft, hright, hgrows, himp w' hgrows a ha⟩

theorem Alike.congr {post : Twin common → α → Prop} {f g : Store → α × Store}
    (h : w.Alike f post) (hleft : g w.left = f w.left) (hright : g w.right = f w.right) :
    w.Alike g post := by
  obtain ⟨a, w', hl, hr, hgrows, ha⟩ := h
  exact ⟨a, w', hleft.trans hl, hright.trans hr, hgrows, ha⟩

/-! ### New pairs, lambdas and frames -/

/-- What is new is put in the same place of both stores. -/
theorem place {change : Store → α × Store} {a : α} {target : Item} {entry : Entry}
    (hcommon : common target.arena) (hnew : w.left.find? target = none)
    (hleft : (change w.left).1 = a ∧ Store.Puts target entry w.left (change w.left).2)
    (hright : (change w.right).1 = a ∧ Store.Puts target entry w.right (change w.right).2)
    (hreferences : ∀ item ∈ entry.references, w.intact item)
    (hancestors : ∀ frame, entry = .frame frame → ∀ parent, frame.ancestors.head? = some parent →
      frame.ancestors = w.left.scope parent) :
    w.Alike change fun w' b => b = a ∧ w'.intact target := by
  have hfollows : ∀ old, w.left.find? target = some old → old.Follows entry := by
    rw [hnew]
    exact fun _ h => nomatch h
  exact ⟨a, _, Prod.ext hleft.1 rfl, Prod.ext hright.1 rfl, w.grows_put hleft.2 hright.2 hcommon
    (.inr hnew) hfollows hreferences hancestors, rfl, .inr rfl⟩

theorem cons (hopen : w.Open arena) {car cdr : Value} (hcar : car.In w.intact)
    (hcdr : cdr.In w.intact) :
    w.Alike (·.cons arena car cdr) fun w' value => value.In w'.intact := by
  have hright := Store.puts_cons (w.size_eq ▸ hopen.2) car cdr
  rw [← w.extent_eq hopen.1] at hright
  have hreferences : ∀ item ∈ (Entry.cell ⟨car, cdr⟩).references, w.intact item := by
    intro item hitem
    rcases List.mem_append.1 hitem with h | h
    · exact hcar item h
    · exact hcdr item h
  refine (place hopen.1 (Store.find?_eq_none (Nat.le_refl _)) (Store.puts_cons hopen.2 car cdr)
    hright hreferences fun _ h => nomatch h).imp fun _ _ _ h => ?_
  exact h.1 ▸ Value.in_pair.2 h.2

theorem addLambda (hopen : w.Open arena) {code : Lambda} (hscope : w.intact (.frame code.scope))
    (hbody : ∀ form ∈ code.body, form.In w.intact) :
    w.Alike (·.addLambda arena code) fun w' ref => w'.intact (.lambda ref) := by
  have hright := Store.puts_addLambda (w.size_eq ▸ hopen.2) code
  rw [← w.extent_eq hopen.1] at hright
  have hreferences : ∀ item ∈ (Entry.lambda code).references, w.intact item := by
    intro item hitem
    rcases List.mem_cons.1 hitem with rfl | h
    · exact hscope
    · obtain ⟨form, hform, hitem⟩ := List.mem_flatMap.1 h
      exact hbody form hform item hitem
  refine (place hopen.1 (Store.find?_eq_none (Nat.le_refl _)) (Store.puts_addLambda hopen.2 code)
    hright hreferences fun _ h => nomatch h).imp fun _ _ _ h => ?_
  exact h.1 ▸ h.2

theorem addFrame (hopen : w.Open arena) {frame : Frame}
    (hreferences : ∀ item ∈ (Entry.frame frame).references, w.intact item)
    (hancestors : ∀ parent, frame.ancestors.head? = some parent →
      frame.ancestors = w.left.scope parent) :
    w.Alike (·.addFrame arena frame) fun w' ref =>
      w'.intact (.frame ref) ∧ w.left.find? (.frame ref) = none ∧ ref.arena = arena := by
  have hright := Store.puts_addFrame (w.size_eq ▸ hopen.2) frame
  rw [← w.extent_eq hopen.1] at hright
  have hnew : w.left.find? (.frame ⟨arena, (w.left.extent arena).frames⟩) = none :=
    Store.find?_eq_none (Nat.le_refl _)
  have hchain : ∀ other, Entry.frame frame = .frame other → ∀ parent,
      other.ancestors.head? = some parent → other.ancestors = w.left.scope parent := by
    rintro _ ⟨rfl⟩
    exact hancestors
  refine (place hopen.1 hnew (Store.puts_addFrame hopen.2 frame) hright hreferences hchain).imp
    fun w' hw ref h => ?_
  obtain ⟨rfl, hintact⟩ := h
  exact ⟨hintact, hnew, rfl⟩

theorem scope_eq {ref : FrameRef} (h : w.intact (.frame ref)) :
    w.left.scope ref = w.right.scope ref := by
  rw [Store.scope, w.agree.frame h, Store.scope]

theorem newRoot (hopen : w.Open arena) :
    w.Alike (·.newRoot arena) fun w' ref => w'.intact (.frame ref) :=
  (addFrame hopen (fun _ h => absurd h List.not_mem_nil) fun _ h => by simp at h).imp
    fun _ _ _ h => h.1

theorem extend (hopen : w.Open arena) {ref : FrameRef} (href : w.intact (.frame ref)) :
    w.Alike (·.extend arena ref) fun w' frame =>
      w'.intact (.frame frame) ∧ w.left.find? (.frame frame) = none ∧ frame.arena = arena := by
  have hreferences : ∀ item ∈ (Entry.frame { ancestors := w.left.scope ref }).references,
      w.intact item := by
    intro item hitem
    have hitem : item = .frame ref := by
      simpa [Entry.references, Store.scope, Table.values] using hitem
    exact hitem ▸ href
  refine (addFrame hopen hreferences fun parent hparent => ?_).congr rfl ?_
  · obtain rfl : ref = parent := by simpa [Store.scope] using hparent
    rfl
  · rw [Store.extend, scope_eq href]

theorem snapshot (hopen : w.Open arena) {ref : FrameRef} (href : w.intact (.frame ref)) :
    w.Alike (·.snapshot arena ref) fun w' frame =>
      w'.intact (.frame frame) ∧ frame.arena = arena := by
  obtain ⟨frame, hframe, hentry⟩ := Store.exists_find?_frame (w.present href)
  have hfound : w.left.frame ref = frame := by rw [Store.frame, hframe]; rfl
  have hreferences : ∀ item ∈ (Entry.frame frame).references, w.intact item := by
    intro item hitem
    rw [← Store.references_eq hentry] at hitem
    exact w.closed _ href item hitem
  refine ((addFrame hopen hreferences fun parent hparent => ?_).imp
    fun _ _ _ h => ⟨h.1, h.2.2⟩).congr ?_ ?_
  · rw [← hfound] at hparent ⊢
    exact w.chained ref href parent hparent
  · rw [Store.snapshot, hfound]
  · rw [Store.snapshot, ← w.agree.frame href, hfound]

theorem listWithTail (hopen : w.Open arena) {items : List Value} {tail : Value}
    (hitems : ∀ item ∈ items, item.In w.intact) (htail : tail.In w.intact) :
    w.Alike (·.listWithTail arena items tail) fun w' value => value.In w'.intact := by
  induction items with
  | nil => exact .pure htail
  | cons item rest ih =>
      obtain ⟨hitem, hrest⟩ := List.forall_mem_cons.1 hitems
      exact (ih hrest).bind fun w' hw value hvalue => cons (hw.isOpen hopen) (hw.isIn hitem) hvalue

theorem ofDatum (hopen : w.Open arena) (datum : Datum) :
    w.Alike (·.ofDatum arena datum) fun w' value => value.In w'.intact := by
  induction datum generalizing w with
  | pair car cdr ihcar ihcdr =>
      refine (ihcdr hopen).bind (g := fun rest store =>
        (store.ofDatum arena car).2.cons arena (store.ofDatum arena car).1 rest)
        fun w' hw rest hrest => ?_
      refine (ihcar (hw.isOpen hopen)).bind (g := fun first store => store.cons arena first rest)
        fun w'' hw' first hfirst => ?_
      exact cons (hw'.isOpen (hw.isOpen hopen)) hfirst (hw'.isIn hrest)
  | _ => exact .pure (Value.in_of_items_eq_nil rfl)

theorem ofData (hopen : w.Open arena) (data : List Datum) :
    w.Alike (·.ofData arena data) fun w' forms => ∀ form ∈ forms, form.In w'.intact := by
  induction data generalizing w with
  | nil => exact .pure fun _ hmem => absurd hmem List.not_mem_nil
  | cons datum rest ih =>
      refine (ofDatum hopen datum).bind (g := fun form store =>
        (form :: (store.ofData arena rest).1, (store.ofData arena rest).2))
        fun w' hw form hform => ?_
      refine (ih (hw.isOpen hopen)).bind (g := fun others store => (form :: others, store))
        fun w'' hw' others hothers => ?_
      exact .pure (List.forall_mem_cons.2 ⟨hw'.isIn hform, hothers⟩)

/-! ### Changes in place -/

theorem modifyCell {ref : CellRef} (href : w.intact (.cell ref)) {change : Cell → Cell}
    (hreferences : ∀ cell, w.left.cell? ref = some cell →
      (change cell).car.In w.intact ∧ (change cell).cdr.In w.intact) :
    w.Alike (fun store => ((), store.modifyCell ref change)) fun _ _ => True := by
  obtain ⟨cell, hcell, hentry⟩ := Store.exists_find?_cell (w.present href)
  have hcell' : w.right.cell? ref = some cell := w.agree.cell? href ▸ hcell
  obtain ⟨hcar, hcdr⟩ := hreferences cell hcell
  refine ⟨(), _, rfl, rfl, w.grows_put (Store.puts_modifyCell hcell change)
    (Store.puts_modifyCell hcell' change) (w.shared href) (.inl href) ?_ ?_ ?_, trivial⟩
  · rw [hentry]
    rintro _ ⟨⟩
    exact .cell _ _
  · intro item hitem
    rcases List.mem_append.1 hitem with h | h
    · exact hcar item h
    · exact hcdr item h
  · exact fun _ h => nomatch h

theorem setCar {ref : CellRef} (href : w.intact (.cell ref)) {value : Value}
    (hvalue : value.In w.intact) :
    w.Alike (fun store => ((), store.setCar ref value)) fun _ _ => True := by
  refine modifyCell href fun cell hcell => ⟨hvalue, ?_⟩
  have hcdr := w.closed.cdr href
  rwa [Store.cdr_eq hcell] at hcdr

theorem setCdr {ref : CellRef} (href : w.intact (.cell ref)) {value : Value}
    (hvalue : value.In w.intact) :
    w.Alike (fun store => ((), store.setCdr ref value)) fun _ _ => True := by
  refine modifyCell href fun cell hcell => ⟨?_, hvalue⟩
  have hcar := w.closed.car href
  rwa [Store.car_eq hcell] at hcar

theorem modifyTable {ref : FrameRef} (href : w.intact (.frame ref))
    {change : Table Value → Table Value}
    (hvalues : ∀ value ∈ (change (w.left.table ref)).values, value.In w.intact) :
    w.Alike (fun store => ((), store.modifyTable ref change)) fun _ _ => True := by
  obtain ⟨frame, hframe, hentry⟩ := Store.exists_find?_frame (w.present href)
  have hframe' : w.right.frame? ref = some frame := w.agree.frame? href ▸ hframe
  have hfound : w.left.frame ref = frame := by rw [Store.frame, hframe]; rfl
  rw [Store.table, hfound] at hvalues
  refine ⟨(), _, rfl, rfl, w.grows_put (Store.puts_modifyTable hframe change)
    (Store.puts_modifyTable hframe' change) (w.shared href) (.inl href) ?_ ?_ ?_, trivial⟩
  · rw [hentry]
    rintro _ ⟨⟩
    exact .frame rfl
  · intro item hitem
    rcases List.mem_append.1 hitem with h | h
    · refine w.closed _ href item ?_
      rw [Store.references_eq hentry]
      exact List.mem_append_left _ h
    · obtain ⟨value, hvalue, hitem⟩ := List.mem_flatMap.1 h
      exact hvalues value hvalue item hitem
  · rintro _ ⟨⟩ parent hparent
    have hchained := w.chained ref href parent
    rw [hfound] at hchained
    exact hchained hparent

theorem bind {ref : FrameRef} (href : w.intact (.frame ref)) (name : Symbol) {value : Value}
    (hvalue : value.In w.intact) :
    w.Alike (fun store => ((), store.bind ref name value)) fun _ _ => True := by
  refine modifyTable href fun other hother => ?_
  rcases Table.mem_values_insert hother with rfl | hold
  · exact hvalue
  · exact w.closed.binding href hold

theorem clear {ref : FrameRef} (href : w.intact (.frame ref)) :
    w.Alike (fun store => ((), store.clear ref)) fun _ _ => True :=
  modifyTable href fun _ h => absurd h List.not_mem_nil

theorem bindAll {ref : FrameRef} (href : w.intact (.frame ref)) (names : List Symbol)
    {values : List Value} (hvalues : ∀ value ∈ values, value.In w.intact) :
    w.Alike (fun store => ((), store.bindAll ref names values)) fun _ _ => True := by
  induction names generalizing w values with
  | nil => exact .pure trivial
  | cons name names ih =>
      cases values with
      | nil => exact .pure trivial
      | cons value values =>
          obtain ⟨hvalue, hvalues⟩ := List.forall_mem_cons.1 hvalues
          refine (bind href name hvalue).bind
            (g := fun _ store => ((), store.bindAll ref names values)) fun w' hw _ _ => ?_
          exact ih (hw.intact href) fun value h => hw.isIn (hvalues value h)

theorem bindArgs (hopen : w.Open arena) {ref : FrameRef} (href : w.intact (.frame ref))
    (params : Params) {args : List Value} (hargs : ∀ arg ∈ args, arg.In w.intact) :
    w.Alike (fun store => ((), store.bindArgs arena params ref args)) fun _ _ => True := by
  cases hparams : params.rest with
  | none =>
      refine (bindAll href params.required hargs).congr ?_ ?_ <;>
        simp only [Store.bindArgs, hparams]
  | some name =>
      refine ((bindAll href params.required hargs).bind (g := fun _ store =>
        let made := store.list arena (args.drop params.required.length)
        ((), made.2.bind ref name made.1)) fun w' hw _ _ => ?_).congr
          (by simp only [Store.bindArgs, hparams]) (by simp only [Store.bindArgs, hparams])
      have hrest : ∀ arg ∈ args.drop params.required.length, arg.In w'.intact :=
        fun arg h => hw.isIn (hargs arg (List.mem_of_mem_drop h))
      refine (listWithTail (hw.isOpen hopen) hrest (Value.in_of_items_eq_nil rfl)).bind
        (g := fun rest store => ((), store.bind ref name rest)) fun w'' hw' rest hrest => ?_
      exact bind (hw'.intact (hw.intact href)) name hrest

/-! ### Leaving the frame of a call -/

/-- The twin after a release: what is reached from these roots is intact. -/
def shrink (w : Twin common) (roots : List Item) (hroots : ∀ root ∈ roots, w.intact root)
    {left : Store} {census : Census} {frame : FrameRef} (hframe : w.intact (.frame frame))
    (hclear : Store.MayClear frame w.left left)
    (hkept : ∀ item, w.left.Reaches roots item → left.find? item = w.left.find? item)
    (hlists : census.Lists left (w.left.Reaches roots)) : Twin common :=
  have hsub : ∀ item, w.left.Reaches roots item → w.intact item := fun _ hitem =>
    hitem.induct hroots w.closed
  { left
    right := w.right
    census := some census
    intact := w.left.Reaches roots
    agree := fun item hitem => (hkept item hitem).trans (w.agree item (hsub item hitem))
    closed := hclear.closed (w.present hframe) fun _ hitem _ hother => hitem.step hother
    chained := hclear.chained (w.present hframe) (fun _ hitem _ hother => hitem.step hother)
      (fun other hother => w.chained other (hsub _ hother)) fun hitem => w.present (hsub _ hitem)
    present := fun hitem => (hclear.isSome_eq (w.present hframe) _).trans (w.present (hsub _ hitem))
    shared := fun hitem => w.shared (hsub _ hitem)
    same := fun hitem => (hclear.bare_eq (w.present hframe) _).trans (w.same hitem)
    size_eq := hclear.size_eq.trans w.size_eq
    listed := fun _ hfound => Option.some.inj hfound ▸ hlists }

/-- **Leaving the frame of a call gives a twin again.** What is held is still intact. -/
theorem leave (w : Twin common) (depth : Nat) {held : List Hold}
    (hheld : ∀ item ∈ held.flatMap Hold.items, w.intact item) {frame : FrameRef}
    (hframe : w.intact (.frame frame)) :
    ∃ w' : Twin common,
      Machine.leave ⟨w.left, w.census, depth⟩ held frame = ⟨w'.left, w'.census, depth⟩ ∧
        w'.right = w.right ∧ Leads (held.flatMap Hold.items) w w' := by
  cases hcensus : w.census with
  | none => exact ⟨w, by rw [hcensus]; rfl, rfl, .refl _ w⟩
  | some census =>
      by_cases hown : (w.left.ownLambdas frame).isEmpty = true
      · refine ⟨w, ?_, rfl, .refl _ w⟩
        simp only [Machine.leave, Census.leave, if_pos hown, hcensus]
      · have hlisted := w.listed census hcensus
        have hpresent := w.present hframe
        have hall : ∀ item ∈ (Hold.frames [frame] :: held).flatMap Hold.items, w.intact item :=
          List.forall_mem_cons.2 ⟨hframe, hheld⟩
        have hclear := census.mayClear_release w.left (.frames [frame] :: held) frame
        have hlists := (hlisted.release hpresent hall).mono
          fun item (hitem : w.left.Reaches (held.flatMap Hold.items) item) =>
            hitem.mono (List.subset_cons_self _ _)
        have hkept : ∀ item, w.left.Reaches (held.flatMap Hold.items) item →
            (census.release w.left (.frames [frame] :: held) frame).2.1.find? item =
              w.left.find? item := by
          intro item hitem
          refine Census.find?_release hpresent (hlisted.complete hall) List.mem_cons_self ?_
          rwa [List.flatMap_cons, show (Hold.frames [frame]).items = [.frame frame] from rfl,
            List.singleton_append, List.erase_cons_head]
        refine ⟨w.shrink (held.flatMap Hold.items) hheld hframe hclear hkept hlists, ?_, rfl, ?_⟩
        · simp only [Machine.leave, Census.leave, if_neg hown]
          rfl
        · exact {
            follows := hclear.follows hpresent
            counted := by rw [hcensus]; rfl
            outside := fun {item} hitem => by
              have hne : item ≠ .frame frame := fun heq => hitem (heq ▸ w.shared hframe)
              exact ⟨hclear.find?_of_ne hpresent hne, rfl⟩
            size := hclear.size_eq
            rooted := fun hroot _ => Store.reaches_of_mem hroot
            lasting := fun hnone _ => by cases hcensus.symm.trans hnone }

end Twin

end SmallLisp
