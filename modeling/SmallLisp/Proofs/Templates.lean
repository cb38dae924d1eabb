import Mathlib.Data.Set.Finite.Basic
import SmallLisp.Eval.Template
import SmallLisp.Proofs.Unfolding

/-!
# Templates as trees

A template is a value, and what marks its parts is found by looking at pairs of the store. A value
from which no walk through the parts of pairs is endless is a tree of marks, splices, other pairs
and atoms. The tree knows the places of its pairs, so it *stands* in a store as long as these are
what they were.

## Main results

* `Store.IsFinite.exists_template` — a value without cycles is a template.
* `Template.Stands.kept` — making pairs does not disturb a template.
* `Template.Stands.marked?_unquote`, … — what evaluation finds when it looks at a template.
-/

namespace SmallLisp

/-- What a quasiquoted form consists of, with the places of its pairs. -/
inductive Template where
  /-- What is no pair. -/
  | atom (value : Value)
  /-- The two-element list of `UNQUOTE` and another template. -/
  | unquote (ref : CellRef) (inner : Template)
  /-- The two-element list of `QUASIQUOTE` and another template. -/
  | quasiquote (ref : CellRef) (inner : Template)
  /-- A pair whose first part is the two-element list of `UNQUOTE-SPLICING` and another
  template. -/
  | splice (ref : CellRef) (inner rest : Template)
  /-- Any other pair. -/
  | pair (ref : CellRef) (first rest : Template)

namespace Template

/-- The value that is the template. -/
def value : Template → Value
  | atom value => value
  | unquote ref _ => .pair ref
  | quasiquote ref _ => .pair ref
  | splice ref _ _ => .pair ref
  | pair ref _ _ => .pair ref

/-- The template is an unquoted or quasiquoted form. -/
def isMark : Template → Bool
  | unquote _ _ => true
  | quasiquote _ _ => true
  | _ => false

/-- What the template unquotes, if it is an unquoted form. -/
def unquoted? : Template → Option Value
  | unquote _ inner => some inner.value
  | _ => none

/-- What the template quasiquotes, if it is a quasiquoted form. -/
def quasiquoted? : Template → Option Value
  | quasiquote _ inner => some inner.value
  | _ => none

end Template

namespace Store

variable {store after : Store}

theorem cell?_eq_some {ref : CellRef} {car cdr : Value}
    (h : (store.cell? ref).map (fun cell => (cell.car, cell.cdr)) = some (car, cdr)) :
    store.cell? ref = some ⟨car, cdr⟩ := by
  obtain ⟨cell, hcell, heq⟩ := Option.map_eq_some_iff.1 h
  cases heq
  exact hcell

/-- The pair is the two-element list of a mark and a value. -/
def Marks (store : Store) (head : Symbol) (ref : CellRef) (inner : Value) : Prop :=
  ∃ rest, store.cell? ref = some ⟨.symbol head, .pair rest⟩ ∧
    store.cell? rest = some ⟨inner, .nil⟩

/-- A pair is in the store, and so is its second part if that is a pair too. -/
def ShowsMark (store : Store) (ref : CellRef) : Prop :=
  ∃ cell, store.cell? ref = some cell ∧
    ∀ rest, cell.cdr = .pair rest → (store.cell? rest).isSome = true

theorem ShowsMark.isSome {ref : CellRef} (h : store.ShowsMark ref) :
    (store.cell? ref).isSome = true := by
  obtain ⟨cell, hcell, -⟩ := h
  exact Option.isSome_iff_exists.2 ⟨cell, hcell⟩

theorem Marks.showsMark {head : Symbol} {ref : CellRef} {inner : Value}
    (h : store.Marks head ref inner) : store.ShowsMark ref := by
  obtain ⟨rest, hcell, hrest⟩ := h
  refine ⟨_, hcell, fun other hother => ?_⟩
  obtain rfl := Value.pair.inj hother
  exact Option.isSome_iff_exists.2 ⟨_, hrest⟩

theorem marked?_of_not_isPair {value : Value} (h : value.isPair = false) (head : Symbol) :
    store.marked? head value = none := by
  cases value with
  | pair ref => cases h
  | _ => rfl

theorem marked?_eq_none_of_pair {ref first : CellRef} {rest : Value}
    (h : store.cell? ref = some ⟨.pair first, rest⟩) (head : Symbol) :
    store.marked? head (.pair ref) = none := by
  refine if_neg ?_
  rw [car_eq h]
  exact Value.noConfusion

theorem Marks.marked? {head : Symbol} {ref : CellRef} {inner : Value}
    (h : store.Marks head ref inner) : store.marked? head (.pair ref) = some inner := by
  obtain ⟨rest, hcell, hrest⟩ := h
  simp only [Store.marked?, car_eq hcell, cdr_eq hcell, car_eq hrest, cdr_eq hrest, if_true]

theorem Marks.marked?_of_ne {head other : Symbol} {ref : CellRef} {inner : Value}
    (h : store.Marks head ref inner) (hne : head ≠ other) :
    store.marked? other (.pair ref) = none := by
  obtain ⟨rest, hcell, -⟩ := h
  refine if_neg ?_
  rw [car_eq hcell]
  exact fun heq => hne (Value.symbol.inj heq)

/-- What is seen as marked is, if the pairs that are looked at are in the store. -/
theorem ShowsMark.marks {head : Symbol} {ref : CellRef} {inner : Value} (h : store.ShowsMark ref)
    (hmarked : store.marked? head (.pair ref) = some inner) : store.Marks head ref inner := by
  obtain ⟨⟨car, cdr⟩, hcell, hrest⟩ := h
  simp only [Store.marked?, car_eq hcell, cdr_eq hcell] at hmarked
  split at hmarked
  · next hhead =>
      subst hhead
      split at hmarked
      · next rest =>
          obtain ⟨⟨first, tail⟩, hfound⟩ := Option.isSome_iff_exists.1 (hrest rest rfl)
          simp only [car_eq hfound, cdr_eq hfound] at hmarked
          split at hmarked
          · next htail =>
              subst htail
              obtain rfl := Option.some.inj hmarked
              exact ⟨rest, hcell, hfound⟩
          · cases hmarked
      · cases hmarked
  · cases hmarked

/-- In a store that keeps all pairs, the same is seen as marked. -/
theorem ShowsMark.marked?_kept {ref : CellRef} (h : store.ShowsMark ref)
    (hkept : store.CellsKept after) (head : Symbol) :
    after.marked? head (.pair ref) = store.marked? head (.pair ref) := by
  obtain ⟨⟨car, cdr⟩, hcell, hrest⟩ := h
  simp only [Store.marked?, car_eq hcell, cdr_eq hcell, car_eq (hkept _ _ hcell),
    cdr_eq (hkept _ _ hcell)]
  cases cdr with
  | pair rest =>
      obtain ⟨found, hfound⟩ := Option.isSome_iff_exists.1 (hrest rest rfl)
      simp only [car_eq hfound, cdr_eq hfound, car_eq (hkept _ _ hfound),
        cdr_eq (hkept _ _ hfound)]
  | _ => rfl

theorem Marks.kept {head : Symbol} {ref : CellRef} {inner : Value}
    (h : store.Marks head ref inner) (hkept : store.CellsKept after) :
    after.Marks head ref inner := by
  obtain ⟨rest, hcell, hrest⟩ := h
  exact ⟨rest, hkept _ _ hcell, hkept _ _ hrest⟩

theorem isMarked_eq_false_iff {value : Value} : store.isMarked value = false ↔
    store.marked? .unquote value = none ∧ store.marked? .quasiquote value = none := by
  rw [isMarked, Bool.or_eq_false_iff, Option.isSome_eq_false_iff, Option.isSome_eq_false_iff,
    Option.isNone_iff_eq_none, Option.isNone_iff_eq_none]

end Store

/-! ### Templates in a store -/

namespace Template

variable {store after : Store}

/-- The pairs of the template are in the store, as the template has them. -/
def Stands (store : Store) : Template → Prop
  | atom value => value.isPair = false
  | unquote ref inner => store.Marks .unquote ref inner.value ∧ inner.Stands store
  | quasiquote ref inner => store.Marks .quasiquote ref inner.value ∧ inner.Stands store
  | splice ref inner rest =>
      (∃ mark, store.cell? ref = some ⟨.pair mark, rest.value⟩ ∧
        store.Marks .unquoteSplicing mark inner.value) ∧
      inner.Stands store ∧ rest.Stands store
  | pair ref first rest =>
      store.cell? ref = some ⟨first.value, rest.value⟩ ∧
      store.isMarked (.pair ref) = false ∧
      store.marked? .unquoteSplicing first.value = none ∧
      first.Stands store ∧ rest.Stands store

/-- The pairs that are looked at to see whether a template is marked are in the store. -/
theorem Stands.showsMark {template : Template} (h : template.Stands store) {ref : CellRef}
    (hvalue : template.value = .pair ref) : store.ShowsMark ref := by
  induction template generalizing ref with
  | atom value =>
      obtain rfl : value = .pair ref := hvalue
      cases h
  | unquote place inner =>
      obtain rfl : place = ref := Value.pair.inj hvalue
      exact h.1.showsMark
  | quasiquote place inner =>
      obtain rfl : place = ref := Value.pair.inj hvalue
      exact h.1.showsMark
  | splice place inner rest _ ihrest =>
      obtain rfl : place = ref := Value.pair.inj hvalue
      obtain ⟨⟨mark, hcell, -⟩, -, hrest⟩ := h
      exact ⟨_, hcell, fun other hother => (ihrest hrest hother).isSome⟩
  | pair place first rest _ ihrest =>
      obtain rfl : place = ref := Value.pair.inj hvalue
      obtain ⟨hcell, -, -, -, hrest⟩ := h
      exact ⟨_, hcell, fun other hother => (ihrest hrest hother).isSome⟩

/-- A template looks the same in a store that keeps all pairs. -/
theorem Stands.marked?_kept {template : Template} (h : template.Stands store)
    (hkept : store.CellsKept after) (head : Symbol) :
    after.marked? head template.value = store.marked? head template.value := by
  cases hvalue : template.value with
  | pair ref => exact (h.showsMark hvalue).marked?_kept hkept head
  | _ => rfl

/-- **A template stands as long as its pairs are kept.** -/
theorem Stands.kept {template : Template} (h : template.Stands store)
    (hkept : store.CellsKept after) : template.Stands after := by
  induction template with
  | atom value => exact h
  | unquote ref inner ih => exact ⟨h.1.kept hkept, ih h.2⟩
  | quasiquote ref inner ih => exact ⟨h.1.kept hkept, ih h.2⟩
  | splice ref inner rest ihinner ihrest =>
      obtain ⟨⟨mark, hcell, hmark⟩, hinner, hrest⟩ := h
      exact ⟨⟨mark, hkept _ _ hcell, hmark.kept hkept⟩, ihinner hinner, ihrest hrest⟩
  | pair ref first rest ihfirst ihrest =>
      have hself : (pair ref first rest).Stands store := h
      obtain ⟨hcell, hunmarked, hplain, hfirst, hrest⟩ := h
      refine ⟨hkept _ _ hcell, ?_, ?_, ihfirst hfirst, ihrest hrest⟩
      · rw [Store.isMarked_eq_false_iff] at hunmarked ⊢
        have hsame := fun head => hself.marked?_kept hkept head
        exact ⟨(hsame _).trans hunmarked.1, (hsame _).trans hunmarked.2⟩
      · rw [hfirst.marked?_kept hkept]
        exact hplain

/-- Making pairs does not disturb a template. -/
theorem Stands.listWithTail {template : Template} (h : template.Stands store) (arena : Nat)
    (items : List Value) (tail : Value) :
    template.Stands (store.listWithTail arena items tail).2 := by
  induction items with
  | nil => exact h
  | cons item rest ih => exact ih.kept (Store.cellsKept_cons _ arena item _)

/-! ### Looking at a template -/

theorem Stands.marked?_unquote {template : Template} (h : template.Stands store) :
    store.marked? .unquote template.value = template.unquoted? := by
  cases template with
  | atom value => exact Store.marked?_of_not_isPair h _
  | unquote ref inner => exact h.1.marked?
  | quasiquote ref inner => exact h.1.marked?_of_ne (by decide)
  | splice ref inner rest =>
      obtain ⟨⟨mark, hcell, -⟩, -⟩ := h
      exact Store.marked?_eq_none_of_pair hcell _
  | pair ref first rest => exact (Store.isMarked_eq_false_iff.1 h.2.1).1

theorem Stands.marked?_quasiquote {template : Template} (h : template.Stands store) :
    store.marked? .quasiquote template.value = template.quasiquoted? := by
  cases template with
  | atom value => exact Store.marked?_of_not_isPair h _
  | unquote ref inner => exact h.1.marked?_of_ne (by decide)
  | quasiquote ref inner => exact h.1.marked?
  | splice ref inner rest =>
      obtain ⟨⟨mark, hcell, -⟩, -⟩ := h
      exact Store.marked?_eq_none_of_pair hcell _
  | pair ref first rest => exact (Store.isMarked_eq_false_iff.1 h.2.1).2

/-- Evaluation finds out whether a template is marked. -/
theorem Stands.isMarked {template : Template} (h : template.Stands store) :
    store.isMarked template.value = template.isMark := by
  rw [Store.isMarked, h.marked?_unquote, h.marked?_quasiquote]
  cases template <;> rfl

end Template

/-! ### Values that are templates -/

namespace Store

variable {store : Store}

/-- All pairs inside of the value are in the store, and no walk through them is endless. -/
def IsFinite (store : Store) (value : Value) : Prop :=
  ∀ ref, store.Inside value (.pair ref) →
    (store.cell? ref).isSome = true ∧ ¬store.OnCycle ref

theorem IsFinite.car {ref : CellRef} (h : store.IsFinite (.pair ref)) :
    store.IsFinite (store.car ref) :=
  fun part hinside => h part (.car hinside)

theorem IsFinite.cdr {ref : CellRef} (h : store.IsFinite (.pair ref)) :
    store.IsFinite (store.cdr ref) :=
  fun part hinside => h part (.cdr hinside)

/-- What unfolds to a datum is finite. -/
theorem Denotes.isFinite {value : Value} {datum : Datum} (h : store.Denotes value datum) :
    store.IsFinite value := by
  intro ref hinside
  obtain ⟨inner, hinner⟩ := h.inside hinside
  exact ⟨hinner.isPlain, h.unfolds.acyclic ref hinside⟩

/-- The pairs of a store that are not on a cycle. -/
def Descending (store : Store) : Type :=
  { ref : CellRef // ref ∈ store.cellRefs ∧ ¬store.OnCycle ref }

instance (store : Store) : Finite store.Descending :=
  Set.Finite.subset store.cellRefs.finite_toSet fun _ h => h.1

/-- A walk leads from the second pair to the first. -/
def Below (part whole : store.Descending) : Prop :=
  Relation.TransGen store.Child whole.1 part.1

instance : IsTrans store.Descending Below :=
  ⟨fun _ _ _ hleft hright => .trans hright hleft⟩

instance : Std.Irrefl (@Below store) :=
  ⟨fun ref => ref.2.2⟩

/-- Walks from pair to pair end, where there is no cycle. -/
theorem below_wellFounded : WellFounded (@Below store) :=
  Finite.wellFounded_of_trans_of_irrefl _

theorem IsFinite.showsMark {ref : CellRef} (h : store.IsFinite (.pair ref)) :
    store.ShowsMark ref := by
  obtain ⟨cell, hcell⟩ := Option.isSome_iff_exists.1 (h ref (.self _)).1
  refine ⟨cell, hcell, fun rest hrest => (h rest (.cdr ?_)).1⟩
  rw [cdr_eq hcell, hrest]
  exact .self _

/-- What is marked is finite if the mark is, and below it. -/
theorem IsFinite.marks {head : Symbol} {ref : CellRef} {inner : Value}
    (h : store.IsFinite (.pair ref)) (hmarks : store.Marks head ref inner) :
    store.IsFinite inner ∧
      ∀ part, inner = .pair part → Relation.TransGen store.Child ref part := by
  obtain ⟨rest, hcell, hrest⟩ := hmarks
  have hcdr : store.cdr ref = .pair rest := cdr_eq hcell
  have hinner : store.car rest = inner := car_eq hrest
  have hfinite := h.cdr
  rw [hcdr] at hfinite
  refine ⟨hinner ▸ hfinite.car, ?_⟩
  rintro part rfl
  exact .tail (.single (.inr hcdr)) (.inl hinner)

/-- A pair from which every walk ends is a template. -/
theorem exists_template_of_descending (whole : store.Descending)
    (h : store.IsFinite (.pair whole.1)) :
    ∃ template : Template, template.value = .pair whole.1 ∧ template.Stands store := by
  induction whole using below_wellFounded.induction with
  | _ whole ih =>
  obtain ⟨ref, hmem⟩ := whole
  have hpart : ∀ value, store.IsFinite value →
      (∀ part, value = .pair part → Relation.TransGen store.Child ref part) →
      ∃ template : Template, template.value = value ∧ template.Stands store := by
    intro value hvalue hbelow
    cases value with
    | pair part =>
        obtain ⟨hsome, hcycle⟩ := hvalue part (.self _)
        obtain ⟨cell, hcell⟩ := Option.isSome_iff_exists.1 hsome
        exact ih ⟨part, mem_cellRefs hcell, hcycle⟩ (hbelow part rfl) hvalue
    | _ => exact ⟨.atom _, rfl, rfl⟩
  have hmarked : ∀ {head inner}, store.marked? head (.pair ref) = some inner →
      store.Marks head ref inner ∧
        ∃ template : Template, template.value = inner ∧ template.Stands store := by
    intro head inner hmarked
    have hmarks := h.showsMark.marks hmarked
    obtain ⟨hinner, hbelow⟩ := h.marks hmarks
    exact ⟨hmarks, hpart inner hinner hbelow⟩
  cases hunquote : store.marked? .unquote (.pair ref) with
  | some inner =>
      obtain ⟨hmarks, template, rfl, hstands⟩ := hmarked hunquote
      exact ⟨.unquote ref template, rfl, hmarks, hstands⟩
  | none =>
  cases hquasiquote : store.marked? .quasiquote (.pair ref) with
  | some inner =>
      obtain ⟨hmarks, template, rfl, hstands⟩ := hmarked hquasiquote
      exact ⟨.quasiquote ref template, rfl, hmarks, hstands⟩
  | none =>
  obtain ⟨⟨car, cdr⟩, hcell⟩ := Option.isSome_iff_exists.1 (h ref (.self _)).1
  have hcar : store.car ref = car := car_eq hcell
  have hcdr : store.cdr ref = cdr := cdr_eq hcell
  obtain ⟨rest, rfl, hrest⟩ := hpart cdr (hcdr ▸ h.cdr) fun part heq =>
    .single (.inr (hcdr.trans heq))
  cases hsplicing : store.marked? .unquoteSplicing car with
  | none =>
      obtain ⟨first, rfl, hfirst⟩ := hpart car (hcar ▸ h.car) fun part heq =>
        .single (.inl (hcar.trans heq))
      exact ⟨.pair ref first rest, rfl, hcell,
        isMarked_eq_false_iff.2 ⟨hunquote, hquasiquote⟩, hsplicing, hfirst, hrest⟩
  | some inner =>
      cases car with
      | pair mark =>
          have hfinite : store.IsFinite (.pair mark) := hcar ▸ h.car
          have hmarks := hfinite.showsMark.marks hsplicing
          obtain ⟨hinner, hbelow⟩ := hfinite.marks hmarks
          obtain ⟨template, rfl, hstands⟩ := hpart inner hinner fun part heq =>
            .head (.inl hcar) (hbelow part heq)
          exact ⟨.splice ref template rest, rfl, ⟨mark, hcell, hmarks⟩, hstands, hrest⟩
      | _ => cases hsplicing

/-- **A value without cycles is a template.** -/
theorem IsFinite.exists_template {value : Value} (h : store.IsFinite value) :
    ∃ template : Template, template.value = value ∧ template.Stands store := by
  cases value with
  | pair ref =>
      obtain ⟨hsome, hcycle⟩ := h ref (.self _)
      obtain ⟨cell, hcell⟩ := Option.isSome_iff_exists.1 hsome
      exact exists_template_of_descending ⟨ref, mem_cellRefs hcell, hcycle⟩ h
  | _ => exact ⟨.atom _, rfl, rfl⟩

end Store

end SmallLisp
