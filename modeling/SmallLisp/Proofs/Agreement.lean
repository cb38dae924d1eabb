import Mathlib.Data.List.Basic
import Mathlib.Data.Option.Basic
import SmallLisp.Proofs.Entries
import SmallLisp.Proofs.Matching
import SmallLisp.Proofs.Unfolding

/-!
# Stores that agree

Whoever looks into a store sees what can be reached from a value or a frame, and nothing else. Two
stores that have the same things at some items, among them with each item all that it refers to,
cannot be told apart from there: not by the parts of pairs, by printed forms, by the elements of
lists or by what names mean.

## Main results

* `AgreeOn.elements`, `AgreeOn.print`, `AgreeOn.params`, `AgreeOn.lookup` — stores that agree show
  the same.
-/

namespace SmallLisp

/-- All that the value refers to is among these items. -/
def Value.In (P : Item → Prop) (value : Value) : Prop :=
  ∀ item ∈ value.items, P item

namespace Value

variable {P : Item → Prop}

theorem in_pair {ref : CellRef} : (pair ref).In P ↔ P (.cell ref) := by
  simp [In, items]

theorem in_closure {ref : LambdaRef} : (closure ref).In P ↔ P (.lambda ref) := by
  simp [In, items]

theorem in_expander {ref : LambdaRef} : (expander ref).In P ↔ P (.lambda ref) := by
  simp [In, items]

theorem in_of_items_eq_nil {value : Value} (h : value.items = []) : value.In P := by
  intro item hitem
  rw [h] at hitem
  exact absurd hitem List.not_mem_nil

end Value

/-- Each of these items is linked with itself. -/
def Item.itself (P : Item → Prop) (item item' : Item) : Prop :=
  item = item' ∧ P item

theorem Item.biUnique_itself (P : Item → Prop) : Relator.BiUnique (Item.itself P) :=
  ⟨fun _ _ _ h h' => h.1.trans h'.1.symm, fun _ _ _ h h' => h.1.symm.trans h'.1⟩

namespace Value

variable {P : Item → Prop}

theorem matches_itself {value : Value} : value.Matches (Item.itself P) value ↔ value.In P := by
  constructor
  · intro h
    cases h with
    | pair href => exact in_pair.2 href.2
    | closure href => exact in_closure.2 href.2
    | expander href => exact in_expander.2 href.2
    | _ => exact in_of_items_eq_nil rfl
  · intro h
    cases value with
    | nil => exact .nil
    | t => exact .t
    | integer n => exact .integer n
    | symbol name => exact .symbol name
    | pair ref => exact .pair ⟨rfl, in_pair.1 h⟩
    | closure ref => exact .closure ⟨rfl, in_closure.1 h⟩
    | expander ref => exact .expander ⟨rfl, in_expander.1 h⟩
    | builtin name => exact .builtin name

theorem Matches.eq_of_itself {value other : Value} (h : value.Matches (Item.itself P) other) :
    value = other := by
  cases h with
  | pair href => rw [Item.cell.inj href.1]
  | closure href => rw [Item.lambda.inj href.1]
  | expander href => rw [Item.lambda.inj href.1]
  | _ => rfl

theorem eq_of_matches_itself {values others : List Value}
    (h : List.Forall₂ (Matches (Item.itself P)) values others) : values = others :=
  List.forall₂_eq_eq_eq ▸ h.imp fun _ _ => Matches.eq_of_itself

end Value

theorem Table.mem_values_of_lookup {α : Type} {table : Table α} {name : Symbol} {value : α}
    (h : table.lookup name = some value) : value ∈ table.values :=
  List.mem_map.2 ⟨(name, value), Table.mem_of_find h, rfl⟩

namespace Store

/-! ### What stores agree on -/

/-- With each of these items the store has all that it refers to among them. -/
def Closed (store : Store) (P : Item → Prop) : Prop :=
  ∀ item, P item → ∀ other ∈ store.references item, P other

/-- Around each of these frames stand the frame next to it and the frames around that one. -/
def Chained (store : Store) (P : Item → Prop) : Prop :=
  ∀ frame, P (.frame frame) → ∀ parent, (store.frame frame).ancestors.head? = some parent →
    (store.frame frame).ancestors = store.scope parent

/-- The stores have the same entries at these items. -/
def AgreeOn (P : Item → Prop) (left right : Store) : Prop :=
  ∀ item, P item → left.find? item = right.find? item

section

variable {P : Item → Prop} {left right store : Store}

theorem Closed.car (h : store.Closed P) {ref : CellRef} (href : P (.cell ref)) :
    (store.car ref).In P :=
  fun _ hitem => h _ href _ (List.mem_append_left _ hitem)

theorem Closed.cdr (h : store.Closed P) {ref : CellRef} (href : P (.cell ref)) :
    (store.cdr ref).In P :=
  fun _ hitem => h _ href _ (List.mem_append_right _ hitem)

/-- Stores with the same pairs and the same names of lambdas at these items show them alike. -/
theorem showAlike_itself
    (hparts : ∀ ref, P (.cell ref) → (left.car ref).In P ∧ (left.cdr ref).In P)
    (hcells : ∀ ref, P (.cell ref) → left.cell ref = right.cell ref)
    (hnames : ∀ ref, P (.lambda ref) → (left.lambda ref).name = (right.lambda ref).name) :
    ShowAlike (Item.itself P) left right where
  unique := Item.biUnique_itself P
  car := by
    rintro ref _ ⟨⟨⟩, href⟩
    rw [Store.car, Store.car, ← hcells ref href]
    exact Value.matches_itself.2 (hparts ref href).1
  cdr := by
    rintro ref _ ⟨⟨⟩, href⟩
    rw [Store.cdr, Store.cdr, ← hcells ref href]
    exact Value.matches_itself.2 (hparts ref href).2
  name := by
    rintro ref _ ⟨⟨⟩, href⟩
    exact hnames ref href

theorem Closed.lambdaScope (h : store.Closed P) {ref : LambdaRef} (href : P (.lambda ref)) :
    P (.frame (store.lambda ref).scope) :=
  h _ href _ List.mem_cons_self

theorem Closed.binding (h : store.Closed P) {ref : FrameRef} (href : P (.frame ref)) {value : Value}
    (hvalue : value ∈ (store.table ref).values) : value.In P :=
  fun _ hitem => h _ href _ (List.mem_append_right _ (List.mem_flatMap.2 ⟨value, hvalue, hitem⟩))

theorem Closed.parent (h : store.Closed P) {ref parent : FrameRef} (href : P (.frame ref))
    (hparent : (store.frame ref).ancestors.head? = some parent) : P (.frame parent) := by
  refine h _ href _ (List.mem_append_left _ ?_)
  rw [hparent]
  exact List.mem_cons_self

/-- A frame with a closed set holds all frames around it. -/
theorem Closed.scope (h : store.Closed P) (hchained : store.Chained P) {ref : FrameRef}
    (href : P (.frame ref)) : ∀ frame ∈ store.scope ref, P (.frame frame) := by
  induction hlength : (store.frame ref).ancestors.length generalizing ref with
  | zero =>
      intro frame hframe
      rw [Store.scope, List.length_eq_zero_iff.1 hlength] at hframe
      exact List.mem_singleton.1 hframe ▸ href
  | succ n ih =>
      obtain ⟨parent, rest, hancestors⟩ := List.exists_cons_of_length_eq_add_one hlength
      have hhead : (store.frame ref).ancestors.head? = some parent := by rw [hancestors]; rfl
      have hscope := hchained ref href parent hhead
      intro frame hframe
      rcases List.mem_cons.1 hframe with rfl | hmem
      · exact href
      · rw [hscope] at hmem
        refine ih (h.parent href hhead) ?_ frame hmem
        have hparent := congrArg List.length hscope
        rw [hlength, Store.scope, List.length_cons] at hparent
        omega

theorem Closed.chain (h : store.Closed P) {value last : Value} {items : List Value}
    (hchain : store.Chain value items last) (hvalue : value.In P) :
    (∀ item ∈ items, item.In P) ∧ last.In P := by
  induction hchain with
  | stop _ => exact ⟨fun _ hitem => absurd hitem List.not_mem_nil, hvalue⟩
  | link _ ih =>
      have href := Value.in_pair.1 hvalue
      obtain ⟨hitems, hlast⟩ := ih (h.cdr href)
      exact ⟨List.forall_mem_cons.2 ⟨h.car href, hitems⟩, hlast⟩

theorem Closed.elements (h : store.Closed P) {value : Value} {items : List Value}
    (hvalue : value.In P) (hitems : store.elements value = .ok items) : ∀ item ∈ items, item.In P :=
  (h.chain (chain_of_elements hitems) hvalue).1

theorem Closed.properElements (h : store.Closed P) {value : Value} {items : List Value}
    (hvalue : value.In P) (hitems : store.properElements value = .ok items) :
    ∀ item ∈ items, item.In P := by
  rw [Store.properElements] at hitems
  split at hitems
  · next found hfound => exact Except.ok.inj hitems ▸ h.elements hvalue hfound
  · cases hitems
  · cases hitems

theorem Closed.marked? (h : store.Closed P) {head : Symbol} {value inner : Value}
    (hvalue : value.In P) (hinner : store.marked? head value = some inner) : inner.In P := by
  obtain ⟨ref, rest, rfl, -, hrest, -, rfl⟩ := Store.marked?_eq_some hinner
  have hcdr := h.cdr (Value.in_pair.1 hvalue)
  rw [hrest] at hcdr
  exact h.car (Value.in_pair.1 hcdr)

theorem Closed.lookup (h : store.Closed P) (hchained : store.Chained P) {ref : FrameRef}
    {name : Symbol} {value : Value} (href : P (.frame ref))
    (hvalue : store.lookup ref name = some value) : value.In P := by
  obtain ⟨frame, hframe, hfound⟩ := List.exists_of_findSome?_eq_some hvalue
  exact h.binding (h.scope hchained href frame hframe) (Table.mem_values_of_lookup hfound)

/-! ### What agreeing stores show -/

section

variable (h : left.AgreeOn P right)
include h

theorem AgreeOn.cell? {ref : CellRef} (href : P (.cell ref)) :
    left.cell? ref = right.cell? ref := by
  have hfind := h _ href
  rw [find?_cell, find?_cell] at hfind
  exact Option.map_injective (fun _ _ heq => Entry.cell.inj heq) hfind

theorem AgreeOn.lambda? {ref : LambdaRef} (href : P (.lambda ref)) :
    left.lambda? ref = right.lambda? ref := by
  have hfind := h _ href
  rw [find?_lambda, find?_lambda] at hfind
  exact Option.map_injective (fun _ _ heq => Entry.lambda.inj heq) hfind

theorem AgreeOn.frame? {ref : FrameRef} (href : P (.frame ref)) :
    left.frame? ref = right.frame? ref := by
  have hfind := h _ href
  rw [find?_frame, find?_frame] at hfind
  exact Option.map_injective (fun _ _ heq => Entry.frame.inj heq) hfind

theorem AgreeOn.car {ref : CellRef} (href : P (.cell ref)) : left.car ref = right.car ref := by
  rw [Store.car, Store.cell, h.cell? href, Store.car, Store.cell]

theorem AgreeOn.cdr {ref : CellRef} (href : P (.cell ref)) : left.cdr ref = right.cdr ref := by
  rw [Store.cdr, Store.cell, h.cell? href, Store.cdr, Store.cell]

theorem AgreeOn.lambda {ref : LambdaRef} (href : P (.lambda ref)) :
    left.lambda ref = right.lambda ref := by
  rw [Store.lambda, h.lambda? href, Store.lambda]

theorem AgreeOn.frame {ref : FrameRef} (href : P (.frame ref)) :
    left.frame ref = right.frame ref := by
  rw [Store.frame, h.frame? href, Store.frame]

theorem AgreeOn.table {ref : FrameRef} (href : P (.frame ref)) :
    left.table ref = right.table ref := by
  rw [Store.table, h.frame href, Store.table]

theorem AgreeOn.references {item : Item} (hitem : P item) :
    left.references item = right.references item := by
  cases item with
  | cell ref => rw [Store.references, h.car hitem, h.cdr hitem, Store.references]
  | lambda ref => rw [Store.references, h.lambda hitem, Store.references]
  | frame ref => rw [Store.references, h.frame hitem, h.table hitem, Store.references]

variable (hclosed : left.Closed P)
include hclosed

theorem AgreeOn.symm : right.AgreeOn P left ∧ right.Closed P := by
  refine ⟨fun item hitem => (h item hitem).symm, fun item hitem other hother => ?_⟩
  rw [← h.references hitem] at hother
  exact hclosed item hitem other hother

/-- Whatever is among the items matches itself. -/
theorem AgreeOn.showAlike : ShowAlike (Item.itself P) left right :=
  showAlike_itself (fun ref href => ⟨hclosed.car href, hclosed.cdr href⟩)
    (fun ref href => by rw [Store.cell, h.cell? href, Store.cell])
    fun ref href => by rw [h.lambda href]

/-- **The elements of a list** are the same. -/
theorem AgreeOn.elements {value : Value} (hvalue : value.In P) :
    left.elements value = right.elements value := by
  have helements := (h.showAlike hclosed).elements (Value.matches_itself.2 hvalue)
  generalize left.elements value = found at helements
  generalize right.elements value = found' at helements
  cases helements with
  | ok hitems => rw [Value.eq_of_matches_itself hitems]
  | circular => rfl
  | endsIn hlast => rw [hlast.eq_of_itself]

/-- **Printed forms** are the same. -/
theorem AgreeOn.print {value : Value} (hvalue : value.In P) :
    left.print value = right.print value :=
  (h.showAlike hclosed).print (Value.matches_itself.2 hvalue)

theorem AgreeOn.properElements {value : Value} (hvalue : value.In P) :
    left.properElements value = right.properElements value := by
  have helements := (h.showAlike hclosed).properElements (Value.matches_itself.2 hvalue)
  generalize left.properElements value = found at helements
  generalize right.properElements value = found' at helements
  cases helements with
  | ok hitems => rw [Value.eq_of_matches_itself hitems]
  | error cause => rfl

theorem AgreeOn.marked? (head : Symbol) {value : Value} (hvalue : value.In P) :
    left.marked? head value = right.marked? head value := by
  have hmarked := (h.showAlike hclosed).marked? head (Value.matches_itself.2 hvalue)
  generalize left.marked? head value = found at hmarked
  generalize right.marked? head value = found' at hmarked
  cases hmarked with
  | some hinner => rw [hinner.eq_of_itself]
  | none => rfl

theorem AgreeOn.isMarked {value : Value} (hvalue : value.In P) :
    left.isMarked value = right.isMarked value :=
  (h.showAlike hclosed).isMarked (Value.matches_itself.2 hvalue)

theorem AgreeOn.params {spec : Value} (hspec : spec.In P) :
    left.params spec = right.params spec :=
  (h.showAlike hclosed).params (Value.matches_itself.2 hspec)

/-- **Comparisons** have the same answer. -/
theorem AgreeOn.equal? {first second : Value} (hfirst : first.In P) (hsecond : second.In P) :
    left.equal? first second = right.equal? first second :=
  (h.showAlike hclosed).equal? (Value.matches_itself.2 hfirst) (Value.matches_itself.2 hsecond)

/-- **Names mean the same.** -/
theorem AgreeOn.lookup (hchained : left.Chained P) {ref : FrameRef} (href : P (.frame ref))
    (name : Symbol) : left.lookup ref name = right.lookup ref name := by
  have hscope : left.scope ref = right.scope ref := by
    rw [Store.scope, h.frame href, Store.scope]
  rw [Store.lookup, Store.lookup, ← hscope]
  rw [← List.head?_filterMap, ← List.head?_filterMap]
  refine congrArg List.head? (List.filterMap_congr fun frame hframe => ?_)
  rw [h.table (hclosed.scope hchained href frame hframe)]

end

end

end Store

end SmallLisp
