import Std.Data.HashMap
import SmallLisp.Store.Item

/-!
# Counting references

A tally says how many references there are to each item. Something that nothing refers to is
gone, and what it referred to has one reference less. Things that refer to each other in a
circle stay.

## Main results

* `count_add`, `count_discard` — one reference more or less changes the count of its own item
  by one and no other count.
-/

namespace SmallLisp

/-- How many references there are to each item. -/
structure Tally where
  counts : Std.HashMap Item Nat := ∅

namespace Tally

/-- The number of references to an item. -/
def count (tally : Tally) (item : Item) : Nat :=
  tally.counts.getD item 0

/-- One reference more. -/
def add (tally : Tally) (item : Item) : Tally :=
  ⟨tally.counts.insert item (tally.count item + 1)⟩

/-- One reference less. An item that has lost its last reference joins those that are gone. -/
def discard (gone : List Item) (tally : Tally) (item : Item) : List Item × Tally :=
  let left := tally.count item - 1
  (if left = 0 then item :: gone else gone, ⟨tally.counts.insert item left⟩)

/-- All references of a list of items less. -/
def discardAll (gone : List Item) (tally : Tally) : List Item → List Item × Tally
  | [] => (gone, tally)
  | item :: rest =>
      let (gone, tally) := tally.discard gone item
      discardAll gone tally rest

@[simp] theorem count_empty (item : Item) : ({} : Tally).count item = 0 := by
  simp [count]

theorem count_add (tally : Tally) (item other : Item) :
    (tally.add item).count other =
      if item = other then tally.count other + 1 else tally.count other := by
  by_cases h : item = other
  · subst h
    simp [count, add]
  · simp [count, add, Std.HashMap.getD_insert, h]

theorem count_discard (gone : List Item) (tally : Tally) (item other : Item) :
    (tally.discard gone item).2.count other =
      if item = other then tally.count other - 1 else tally.count other := by
  by_cases h : item = other
  · subst h
    simp [count, discard]
  · simp [count, discard, Std.HashMap.getD_insert, h]

end Tally

namespace Store

/-- The references that come from outside and those of the given items. -/
def tally (store : Store) (outside items : List Item) : Tally :=
  items.foldl (fun tally item => (store.references item).foldl Tally.add tally)
    (outside.foldl Tally.add {})

/-- Take back the references of items that are gone and of what is gone in consequence. Each
step deals with one item, so a bound on the number of items is enough. -/
def settle (store : Store) : Nat → List Item → Tally → Tally
  | 0, _, tally => tally
  | _ + 1, [], tally => tally
  | bound + 1, item :: gone, tally =>
      let (gone, tally) := tally.discardAll gone (store.references item)
      store.settle bound gone tally

end Store

end SmallLisp
