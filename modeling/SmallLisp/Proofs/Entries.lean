import SmallLisp.Store.Item

/-!
# A store as a map

Seen from outside, a store maps items to entries: the parts of a pair, a lambda, or a frame of
bindings. Each change of a store puts one entry in one place, be it new or old, and leaves all
other entries alone. What is said about changes in the following modules is said in these terms,
without regard to arenas and arrays.

## Main results

* `isSome_find?`, `extent_congr` — which items an arena has says how far it is filled.
* `puts_cons`, `puts_addLambda`, `puts_addFrame` — what is new stands where nothing was.
* `puts_modifyCell`, `puts_modifyTable` — what is changed in place.
* `mem_itemsSince` — what a store keeps beyond earlier extents.
-/

namespace SmallLisp

/-- What a store keeps at an item. -/
inductive Entry where
  | cell (cell : Cell)
  | lambda (lambda : Lambda)
  | frame (frame : Frame)

namespace Entry

/-- What an entry refers to. -/
def references : Entry → List Item
  | cell parts => parts.car.items ++ parts.cdr.items
  | lambda code => .frame code.scope :: code.body.flatMap Value.items
  | frame found =>
      (found.ancestors.head?.map Item.frame).toList ++ found.table.values.flatMap Value.items

/-- What an entry refers to for good. -/
def fixed : Entry → List Item
  | cell _ => []
  | lambda code => .frame code.scope :: code.body.flatMap Value.items
  | frame found => (found.ancestors.head?.map Item.frame).toList

theorem fixed_subset (entry : Entry) : entry.fixed ⊆ entry.references := by
  cases entry with
  | cell _ => exact List.nil_subset _
  | lambda _ => exact List.Subset.refl _
  | frame _ => exact List.subset_append_left _ _

end Entry

namespace Item

/-- The arena of an item. -/
def arena : Item → Nat
  | cell ref => ref.arena
  | lambda ref => ref.arena
  | frame ref => ref.arena

/-- The index of an item among those of its sort. -/
def index : Item → Nat
  | cell ref => ref.index
  | lambda ref => ref.index
  | frame ref => ref.index

/-- The part of an extent that is about the sort of the item. -/
def bound : Item → Extent → Nat
  | cell _, extent => extent.cells
  | lambda _, extent => extent.lambdas
  | frame _, extent => extent.frames

end Item

/-- What an arena keeps at an item of its own. -/
def Arena.find? (arena : Arena) : Item → Option Entry
  | .cell ref => arena.cells[ref.index]?.map .cell
  | .lambda ref => arena.lambdas[ref.index]?.map .lambda
  | .frame ref => arena.frames[ref.index]?.map .frame

theorem Arena.isSome_find? (arena : Arena) (item : Item) :
    (arena.find? item).isSome = true ↔ item.index < item.bound arena.extent := by
  cases item <;> simp [Arena.find?, Item.index, Item.bound, Arena.extent]

namespace Store

variable {store : Store}

/-- What the store keeps at an item. -/
def find? (store : Store) (item : Item) : Option Entry :=
  store.arenas[item.arena]?.bind (·.find? item)

/-- How far an arena is filled. -/
def extent (store : Store) (arena : Nat) : Extent :=
  (store.arenas[arena]?.map Arena.extent).getD {}

theorem find?_cell (store : Store) (ref : CellRef) :
    store.find? (.cell ref) = (store.cell? ref).map .cell := by
  simp only [find?, cell?, Item.arena, Option.map_bind]
  rfl

theorem find?_lambda (store : Store) (ref : LambdaRef) :
    store.find? (.lambda ref) = (store.lambda? ref).map .lambda := by
  simp only [find?, lambda?, Item.arena, Option.map_bind]
  rfl

theorem find?_frame (store : Store) (ref : FrameRef) :
    store.find? (.frame ref) = (store.frame? ref).map .frame := by
  simp only [find?, frame?, Item.arena, Option.map_bind]
  rfl

theorem exists_find?_cell {ref : CellRef} (h : (store.find? (.cell ref)).isSome = true) :
    ∃ cell, store.cell? ref = some cell ∧ store.find? (.cell ref) = some (.cell cell) := by
  rw [find?_cell] at h ⊢
  cases hcell : store.cell? ref with
  | none => rw [hcell] at h; exact nomatch h
  | some cell => exact ⟨cell, rfl, rfl⟩

theorem exists_find?_lambda {ref : LambdaRef} (h : (store.find? (.lambda ref)).isSome = true) :
    store.find? (.lambda ref) = some (.lambda (store.lambda ref)) := by
  rw [find?_lambda] at h ⊢
  rw [lambda]
  cases hlambda : store.lambda? ref with
  | none => rw [hlambda] at h; exact nomatch h
  | some lambda => rfl

theorem exists_find?_frame {ref : FrameRef} (h : (store.find? (.frame ref)).isSome = true) :
    ∃ frame, store.frame? ref = some frame ∧ store.find? (.frame ref) = some (.frame frame) := by
  rw [find?_frame] at h ⊢
  cases hframe : store.frame? ref with
  | none => rw [hframe] at h; exact nomatch h
  | some frame => exact ⟨frame, rfl, rfl⟩

/-- What an item refers to is said by its entry. -/
theorem references_eq {item : Item} {entry : Entry} (h : store.find? item = some entry) :
    store.references item = entry.references := by
  cases item with
  | cell ref =>
      rw [find?_cell] at h
      obtain ⟨cell, hcell, rfl⟩ := Option.map_eq_some_iff.1 h
      simp [references, Entry.references, car, cdr, Store.cell, hcell]
  | lambda ref =>
      rw [find?_lambda] at h
      obtain ⟨lambda, hlambda, rfl⟩ := Option.map_eq_some_iff.1 h
      simp [references, Entry.references, Store.lambda, hlambda]
  | frame ref =>
      rw [find?_frame] at h
      obtain ⟨frame, hframe, rfl⟩ := Option.map_eq_some_iff.1 h
      simp [references, Entry.references, table, Store.frame, hframe]

/-! ### How far arenas are filled -/

theorem isSome_find? (store : Store) (item : Item) :
    (store.find? item).isSome = true ↔ item.index < item.bound (store.extent item.arena) := by
  rw [find?, extent]
  cases store.arenas[item.arena]? with
  | none => cases item <;> simp [Item.bound]
  | some arena => exact arena.isSome_find? item

theorem arena_lt_size {item : Item} (h : (store.find? item).isSome = true) :
    item.arena < store.arenas.size := by
  refine Classical.byContradiction fun hnot => ?_
  rw [find?, Array.getElem?_eq_none (Nat.le_of_not_lt hnot)] at h
  exact nomatch h

theorem find?_eq_none {item : Item} (h : item.bound (store.extent item.arena) ≤ item.index) :
    store.find? item = none := by
  rw [← Option.not_isSome_iff_eq_none, isSome_find?]
  omega

/-- An arena that has the same items is filled just as far. -/
theorem extent_congr {other : Store} {arena : Nat}
    (h : ∀ item : Item, item.arena = arena →
      (store.find? item).isSome = (other.find? item).isSome) :
    store.extent arena = other.extent arena := by
  have hlt : ∀ item : Item, item.arena = arena →
      (item.index < item.bound (store.extent arena) ↔
        item.index < item.bound (other.extent arena)) := by
    rintro item rfl
    rw [← isSome_find?, ← isSome_find?, h item rfl]
  have heq : ∀ {n m : Nat}, (∀ k, k < n ↔ k < m) → n = m := fun {n m} hiff => by
    have hn := hiff n
    have hm := hiff m
    omega
  have hcells := heq fun k => hlt (.cell ⟨arena, k⟩) rfl
  have hlambdas := heq fun k => hlt (.lambda ⟨arena, k⟩) rfl
  have hframes := heq fun k => hlt (.frame ⟨arena, k⟩) rfl
  cases hstore : store.extent arena
  cases hother : other.extent arena
  simp_all [Item.bound]

/-! ### Changes -/

/-- One entry is put in a place, and all others are left alone. -/
structure Puts (target : Item) (entry : Entry) (before after : Store) : Prop where
  size : after.arenas.size = before.arenas.size
  find? (item : Item) : after.find? item = if item = target then some entry else before.find? item

namespace Puts

variable {target : Item} {entry : Entry} {before after : Store}

theorem find?_self (h : Puts target entry before after) : after.find? target = some entry := by
  rw [h.find?, if_pos rfl]

theorem find?_of_ne (h : Puts target entry before after) {item : Item} (hne : item ≠ target) :
    after.find? item = before.find? item := by
  rw [h.find?, if_neg hne]

theorem isSome (h : Puts target entry before after) {item : Item}
    (hitem : (before.find? item).isSome = true) : (after.find? item).isSome = true := by
  rw [h.find?]
  split
  · rfl
  · exact hitem

end Puts

variable {entry : Entry} {change : Arena → Arena}

theorem puts_modifyArena (target : Item) {arena : Arena}
    (harena : store.arenas[target.arena]? = some arena)
    (h : ∀ item : Item, item.arena = target.arena →
      (change arena).find? item = if item = target then some entry else arena.find? item) :
    Puts target entry store (store.modifyArena target.arena change) := by
  refine ⟨Array.size_modify, fun item => ?_⟩
  rw [find?, find?, modifyArena, Array.getElem?_modify]
  by_cases hitem : target.arena = item.arena
  · rw [if_pos hitem, ← hitem, harena]
    exact h item hitem.symm
  · have hne : item ≠ target := fun heq => hitem (congrArg Item.arena heq.symm)
    rw [if_neg hitem, if_neg hne]

section

variable {arena : Nat} (harena : arena < store.arenas.size)
include harena

/-- A new pair stands where nothing was. -/
theorem puts_cons (car cdr : Value) :
    (store.cons arena car cdr).1 = .pair ⟨arena, (store.extent arena).cells⟩ ∧
      Puts (.cell ⟨arena, (store.extent arena).cells⟩) (.cell ⟨car, cdr⟩) store
        (store.cons arena car cdr).2 := by
  have hget : store.arenas[arena]? = some store.arenas[arena] := Array.getElem?_eq_getElem harena
  have hextent : (store.extent arena).cells = store.arenas[arena].cells.size := by
    rw [extent, hget]
    rfl
  rw [hextent]
  refine ⟨?_, puts_modifyArena (.cell _) hget fun item hitem => ?_⟩
  · rw [cons, hget]
    rfl
  · obtain ⟨a, n⟩ | ref | ref := item
    · obtain rfl : a = arena := hitem
      simp only [Arena.find?, Array.getElem?_push, Item.cell.injEq, Ref.mk.injEq, true_and]
      split <;> rfl
    · rfl
    · rfl

/-- A new lambda stands where nothing was. -/
theorem puts_addLambda (lambda : Lambda) :
    (store.addLambda arena lambda).1 = ⟨arena, (store.extent arena).lambdas⟩ ∧
      Puts (.lambda ⟨arena, (store.extent arena).lambdas⟩) (.lambda lambda) store
        (store.addLambda arena lambda).2 := by
  have hget : store.arenas[arena]? = some store.arenas[arena] := Array.getElem?_eq_getElem harena
  have hextent : (store.extent arena).lambdas = store.arenas[arena].lambdas.size := by
    rw [extent, hget]
    rfl
  rw [hextent]
  refine ⟨?_, puts_modifyArena (.lambda _) hget fun item hitem => ?_⟩
  · rw [addLambda, hget]
    rfl
  · obtain ref | ⟨a, n⟩ | ref := item
    · rfl
    · obtain rfl : a = arena := hitem
      simp only [Arena.find?, Array.getElem?_push, Item.lambda.injEq, Ref.mk.injEq, true_and]
      split <;> rfl
    · rfl

/-- A new frame stands where nothing was. -/
theorem puts_addFrame (frame : Frame) :
    (store.addFrame arena frame).1 = ⟨arena, (store.extent arena).frames⟩ ∧
      Puts (.frame ⟨arena, (store.extent arena).frames⟩) (.frame frame) store
        (store.addFrame arena frame).2 := by
  have hget : store.arenas[arena]? = some store.arenas[arena] := Array.getElem?_eq_getElem harena
  have hextent : (store.extent arena).frames = store.arenas[arena].frames.size := by
    rw [extent, hget]
    rfl
  rw [hextent]
  refine ⟨?_, puts_modifyArena (.frame _) hget fun item hitem => ?_⟩
  · rw [addFrame, hget]
    rfl
  · obtain ref | ref | ⟨a, n⟩ := item
    · rfl
    · rfl
    · obtain rfl : a = arena := hitem
      simp only [Arena.find?, Array.getElem?_push, Item.frame.injEq, Ref.mk.injEq, true_and]
      split <;> rfl

end

/-- A pair is changed in place. -/
theorem puts_modifyCell {ref : CellRef} {cell : Cell} (hcell : store.cell? ref = some cell)
    (change : Cell → Cell) :
    Puts (.cell ref) (.cell (change cell)) store (store.modifyCell ref change) := by
  obtain ⟨arena, harena, hcell⟩ := Option.bind_eq_some_iff.1 hcell
  refine puts_modifyArena (.cell ref) harena fun item hitem => ?_
  obtain ⟨a, n⟩ | _ | _ := item
  · obtain ⟨b, m⟩ := ref
    obtain rfl : a = b := hitem
    simp only [Arena.find?, Array.getElem?_modify, Item.cell.injEq, Ref.mk.injEq, true_and]
    by_cases hindex : n = m
    · subst hindex
      simp [hcell]
    · simp [hindex, Ne.symm hindex]
  · rfl
  · rfl

/-- The bindings of a frame are changed in place. -/
theorem puts_modifyTable {ref : FrameRef} {frame : Frame} (hframe : store.frame? ref = some frame)
    (change : Table Value → Table Value) :
    Puts (.frame ref) (.frame { frame with table := change frame.table }) store
      (store.modifyTable ref change) := by
  obtain ⟨arena, harena, hframe⟩ := Option.bind_eq_some_iff.1 hframe
  refine puts_modifyArena (.frame ref) harena fun item hitem => ?_
  obtain _ | _ | ⟨a, n⟩ := item
  · rfl
  · rfl
  · obtain ⟨b, m⟩ := ref
    obtain rfl : a = b := hitem
    simp only [Arena.find?, Array.getElem?_modify, Item.frame.injEq, Ref.mk.injEq, true_and]
    by_cases hindex : n = m
    · subst hindex
      simp [hframe]
    · simp [hindex, Ne.symm hindex]

/-- A new arena has nothing in it. -/
theorem find?_addArena (store : Store) (item : Item) :
    store.addArena.2.find? item = store.find? item := by
  rw [find?, find?, addArena, Array.getElem?_push]
  split
  · next h => rw [h, Array.getElem?_eq_none (Nat.le_refl _)]; cases item <;> rfl
  · rfl

/-! ### What was added -/

theorem Arena.mem_itemsSince {arena : Arena} {index : Nat} {earlier : Extent} {item : Item} :
    item ∈ arena.itemsSince index earlier ↔
      item.arena = index ∧ (arena.find? item).isSome = true ∧ item.bound earlier ≤ item.index := by
  rw [Arena.isSome_find?]
  obtain ⟨a, n⟩ | ⟨a, n⟩ | ⟨a, n⟩ := item <;>
    simp only [Arena.itemsSince, List.mem_append, List.mem_map, List.mem_range'_1, Item.cell.injEq,
      Item.lambda.injEq, Item.frame.injEq, reduceCtorEq, and_false, exists_false, or_false,
      false_or, Ref.mk.injEq, Item.arena, Item.index, Item.bound, Arena.extent]
  all_goals
    constructor
    · rintro ⟨k, hk, rfl, rfl⟩
      exact ⟨rfl, by omega, by omega⟩
    · rintro ⟨rfl, hlt, hle⟩
      exact ⟨n, by omega, rfl, rfl⟩

/-- **What a store keeps beyond earlier extents** are the items that it has and that are not
within these. -/
theorem mem_itemsSince {earlier : Array Extent} {item : Item} :
    item ∈ store.itemsSince earlier ↔
      (store.find? item).isSome = true ∧
        item.bound (earlier[item.arena]?.getD {}) ≤ item.index := by
  simp only [itemsSince, List.mem_flatMap, Prod.exists, List.mem_zipIdx_iff_getElem?,
    Array.getElem?_toList, Arena.mem_itemsSince, find?]
  constructor
  · rintro ⟨arena, index, harena, rfl, hsome, hle⟩
    rw [harena]
    exact ⟨hsome, hle⟩
  · rintro ⟨hsome, hle⟩
    cases harena : store.arenas[item.arena]? with
    | none => rw [harena] at hsome; exact nomatch hsome
    | some arena =>
        rw [harena] at hsome
        exact ⟨arena, item.arena, harena, rfl, hsome, hle⟩

end Store

end SmallLisp
