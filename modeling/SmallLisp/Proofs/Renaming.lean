import SmallLisp.Proofs.Entries
import SmallLisp.Proofs.Matching

/-!
# Stores that are the same up to places

A renaming links items of one store with items of another, one to one. What is kept at linked items
is the same up to the links. The stores may be filled differently: a pair may stand in another place
or in another arena, and either store may have things that are linked with nothing.

Whatever is done to both stores, to linked items and with matching values, gives a renaming again.
New things are linked as they are made. Things that are linked with nothing are never touched, but
they may be linked later: when one store makes what the other one has made before, the two catch up.

## Main results

* `Renaming.lookup` — names mean matching values.
* `Renaming.cons`, `Renaming.addLambda`, `Renaming.extend`, `Renaming.bind`, … — what is changed in
  both stores gives a renaming again.
* `Renaming.Awaits.catchesUp` — when the right store makes what the left one has made before, the
  two are linked.
-/

namespace SmallLisp

open List (Forall₂)

/-- The last items of related lists are related, or the ones that stand in for them. -/
theorem getLastD_of_forall₂ {α β : Type} {R : α → β → Prop} {items : List α} {items' : List β}
    (h : Forall₂ R items items') {spare : α} {spare' : β} (hspare : R spare spare') :
    R (items.getLastD spare) (items'.getLastD spare') := by
  induction h generalizing spare spare' with
  | nil => exact hspare
  | cons hitem _ ih =>
      rw [List.getLastD_cons, List.getLastD_cons]
      exact ih hitem

/-- What is made of related items is the same if the relation does not show in it. -/
theorem map_eq_map_of_forall₂ {α β γ : Type} {R : α → β → Prop} {items : List α}
    {items' : List β} (h : Forall₂ R items items') {f : α → γ} {g : β → γ}
    (hsame : ∀ a b, R a b → f a = g b) : items.map f = items'.map g := by
  rw [← List.forall₂_eq_eq_eq, List.forall₂_map_left_iff, List.forall₂_map_right_iff]
  exact h.imp hsame

/-! ### Entries that match -/

/-- The entries have the same key, and what they hold is related. -/
def SameKey {κ α β : Type} (R : α → β → Prop) (entry : κ × α) (entry' : κ × β) : Prop :=
  entry.1 = entry'.1 ∧ R entry.2 entry'.2

/-- The tables have related values under the same symbols. -/
def Table.Matches {α β : Type} (R : α → β → Prop) (table : Table α) (table' : Table β) : Prop :=
  Forall₂ (SameKey R) table.entries table'.entries

namespace Table

variable {α β : Type} {R S : α → β → Prop} {table : Table α} {table' : Table β}

theorem Matches.imp (h : table.Matches R table') (himp : ∀ a b, R a b → S a b) :
    table.Matches S table' :=
  List.Forall₂.imp (fun _ _ hentry => ⟨hentry.1, himp _ _ hentry.2⟩) h

theorem find_matches {entries : List (Symbol × α)} {entries' : List (Symbol × β)}
    (h : Forall₂ (SameKey R) entries entries') (key : Symbol) :
    Option.Rel R (find key entries) (find key entries') := by
  induction h with
  | nil => exact .none
  | @cons entry entry' _ _ hentry _ ih =>
      obtain ⟨symbol, value⟩ := entry
      obtain ⟨symbol', value'⟩ := entry'
      obtain ⟨rfl, hvalue⟩ : symbol = symbol' ∧ R value value' := hentry
      rw [find, find]
      split
      · exact .some hvalue
      · exact ih

theorem place_matches {entries : List (Symbol × α)} {entries' : List (Symbol × β)}
    (h : Forall₂ (SameKey R) entries entries') (key : Symbol) {value : α} {value' : β}
    (hvalue : R value value') :
    Forall₂ (SameKey R) (place key value entries) (place key value' entries') := by
  induction h with
  | nil => exact .cons ⟨rfl, hvalue⟩ .nil
  | @cons entry entry' _ _ hentry hrest ih =>
      obtain ⟨symbol, old⟩ := entry
      obtain ⟨symbol', old'⟩ := entry'
      obtain ⟨rfl, hold⟩ : symbol = symbol' ∧ R old old' := hentry
      rw [place, place]
      split
      · exact .cons ⟨rfl, hvalue⟩ hrest
      · split
        · exact .cons ⟨rfl, hvalue⟩ (.cons ⟨rfl, hold⟩ hrest)
        · exact .cons ⟨rfl, hold⟩ ih

theorem Matches.lookup (h : table.Matches R table') (key : Symbol) :
    Option.Rel R (table.lookup key) (table'.lookup key) :=
  find_matches h key

theorem Matches.insert (h : table.Matches R table') (key : Symbol) {value : α} {value' : β}
    (hvalue : R value value') : (table.insert key value).Matches R (table'.insert key value') :=
  place_matches h key hvalue

theorem Matches.symbols_eq (h : table.Matches R table') : table.symbols = table'.symbols :=
  map_eq_map_of_forall₂ h fun _ _ hentry => hentry.1

theorem Matches.size_eq (h : table.Matches R table') : table.size = table'.size :=
  List.Forall₂.length_eq h

end Table

/-- The lambdas are the same up to the links. -/
structure Lambda.Matches (link : Item → Item → Prop) (code code' : Lambda) : Prop where
  name : code.name = code'.name
  params : code.params = code'.params
  body : Forall₂ (Value.Matches link) code.body code'.body
  scope : link (.frame code.scope) (.frame code'.scope)

/-- The frames are the same up to the links. -/
structure Frame.Matches (link : Item → Item → Prop) (frame frame' : Frame) : Prop where
  table : frame.table.Matches (Value.Matches link) frame'.table
  ancestors : Forall₂ (fun outer outer' => link (.frame outer) (.frame outer')) frame.ancestors
    frame'.ancestors

/-- The entries are the same up to the links. -/
inductive Entry.Matches (link : Item → Item → Prop) : Entry → Entry → Prop
  | cell {parts parts' : Cell} : parts.car.Matches link parts'.car →
      parts.cdr.Matches link parts'.cdr → Matches link (.cell parts) (.cell parts')
  | lambda {code code' : Lambda} : code.Matches link code' →
      Matches link (.lambda code) (.lambda code')
  | frame {found found' : Frame} : found.Matches link found' →
      Matches link (.frame found) (.frame found')

theorem Entry.Matches.imp {link link' : Item → Item → Prop} {entry entry' : Entry}
    (h : entry.Matches link entry') (himp : ∀ item item', link item item' → link' item item') :
    entry.Matches link' entry' := by
  have hvalue : ∀ value value', Value.Matches link value value' →
      Value.Matches link' value value' := fun _ _ hvalue => hvalue.imp himp
  cases h with
  | cell hcar hcdr => exact .cell (hvalue _ _ hcar) (hvalue _ _ hcdr)
  | lambda hcode =>
      exact .lambda ⟨hcode.name, hcode.params, hcode.body.imp hvalue, himp _ _ hcode.scope⟩
  | frame hframe =>
      exact .frame ⟨hframe.table.imp hvalue, hframe.ancestors.imp fun _ _ => himp _ _⟩

/-! ### Renamings -/

/-- Two stores with links between their items, one to one. What is kept at linked items is the same
up to the links. -/
structure Renaming where
  left : Store
  right : Store
  link : Item → Item → Prop
  unique : Relator.BiUnique link
  entries {item item' : Item} : link item item' →
    ∃ entry entry', left.find? item = some entry ∧ right.find? item' = some entry' ∧
      entry.Matches link entry'

namespace Renaming

variable {w w' w₁ w₂ w₃ : Renaming} {α β γ δ : Type}

/-- The values match. -/
def value (w : Renaming) (value value' : Value) : Prop :=
  value.Matches w.link value'

/-- The values match one by one. -/
def values (w : Renaming) : List Value → List Value → Prop :=
  Forall₂ w.value

/-- The frames are linked. -/
def frame (w : Renaming) (frame frame' : FrameRef) : Prop :=
  w.link (.frame frame) (.frame frame')

/-- The frames are linked one by one. -/
def frames (w : Renaming) : List FrameRef → List FrameRef → Prop :=
  Forall₂ w.frame

/-- The lambdas are linked. -/
def lambda (w : Renaming) (ref ref' : LambdaRef) : Prop :=
  w.link (.lambda ref) (.lambda ref')

theorem cells_match {ref ref' : CellRef} (h : w.link (.cell ref) (.cell ref')) :
    ∃ cell cell', w.left.cell? ref = some cell ∧ w.right.cell? ref' = some cell' ∧
      w.value cell.car cell'.car ∧ w.value cell.cdr cell'.cdr := by
  obtain ⟨entry, entry', hleft, hright, hmatches⟩ := w.entries h
  rw [Store.find?_cell] at hleft hright
  obtain ⟨cell, hcell, rfl⟩ := Option.map_eq_some_iff.1 hleft
  obtain ⟨cell', hcell', rfl⟩ := Option.map_eq_some_iff.1 hright
  cases hmatches with
  | cell hcar hcdr => exact ⟨cell, cell', hcell, hcell', hcar, hcdr⟩

theorem lambdas_match {ref ref' : LambdaRef} (h : w.lambda ref ref') :
    (w.left.lambda ref).Matches w.link (w.right.lambda ref') := by
  obtain ⟨entry, entry', hleft, hright, hmatches⟩ := w.entries h
  rw [Store.find?_lambda] at hleft hright
  obtain ⟨code, hcode, rfl⟩ := Option.map_eq_some_iff.1 hleft
  obtain ⟨code', hcode', rfl⟩ := Option.map_eq_some_iff.1 hright
  rw [Store.lambda, Store.lambda, hcode, hcode']
  cases hmatches with
  | lambda hmatches => exact hmatches

theorem frames_match {ref ref' : FrameRef} (h : w.frame ref ref') :
    ∃ frame frame', w.left.frame? ref = some frame ∧ w.right.frame? ref' = some frame' ∧
      frame.Matches w.link frame' := by
  obtain ⟨entry, entry', hleft, hright, hmatches⟩ := w.entries h
  rw [Store.find?_frame] at hleft hright
  obtain ⟨frame, hframe, rfl⟩ := Option.map_eq_some_iff.1 hleft
  obtain ⟨frame', hframe', rfl⟩ := Option.map_eq_some_iff.1 hright
  cases hmatches with
  | frame hmatches => exact ⟨frame, frame', hframe, hframe', hmatches⟩

theorem frame_matches {ref ref' : FrameRef} (h : w.frame ref ref') :
    (w.left.frame ref).Matches w.link (w.right.frame ref') := by
  obtain ⟨frame, frame', hframe, hframe', hmatches⟩ := frames_match h
  rw [Store.frame, Store.frame, hframe, hframe']
  exact hmatches

/-- The two stores show matching values alike. -/
theorem showAlike (w : Renaming) : Store.ShowAlike w.link w.left w.right where
  unique := w.unique
  car h := by
    obtain ⟨cell, cell', hcell, hcell', hcar, -⟩ := cells_match h
    rw [Store.car_eq hcell, Store.car_eq hcell']
    exact hcar
  cdr h := by
    obtain ⟨cell, cell', hcell, hcell', -, hcdr⟩ := cells_match h
    rw [Store.cdr_eq hcell, Store.cdr_eq hcell']
    exact hcdr
  name h := (lambdas_match h).name

theorem lt_left {item item' : Item} (h : w.link item item') :
    item.arena < w.left.arenas.size := by
  obtain ⟨entry, -, hleft, -⟩ := w.entries h
  exact Store.arena_lt_size (hleft ▸ rfl)

theorem lt_right {item item' : Item} (h : w.link item item') :
    item'.arena < w.right.arenas.size := by
  obtain ⟨-, entry', -, hright, -⟩ := w.entries h
  exact Store.arena_lt_size (hright ▸ rfl)

/-! ### What names mean -/

theorem frame_eq_iff {frame other frame' other' : FrameRef} (h : w.frame frame frame')
    (h' : w.frame other other') : frame = other ↔ frame' = other' :=
  ⟨fun heq => Item.frame.inj (w.unique.2 h (heq ▸ h')),
    fun heq => Item.frame.inj (w.unique.1 h (heq ▸ h'))⟩

theorem scope {ref ref' : FrameRef} (h : w.frame ref ref') :
    w.frames (w.left.scope ref) (w.right.scope ref') :=
  .cons h (frame_matches h).ancestors

theorem table {ref ref' : FrameRef} (h : w.frame ref ref') :
    (w.left.table ref).Matches w.value (w.right.table ref') :=
  (frame_matches h).table

/-- **Names mean matching values.** -/
theorem lookup {ref ref' : FrameRef} (h : w.frame ref ref') (name : Symbol) :
    Option.Rel w.value (w.left.lookup ref name) (w.right.lookup ref' name) := by
  rw [Store.lookup, Store.lookup]
  have hscope := scope h
  generalize w.left.scope ref = scope, w.right.scope ref' = scope' at hscope
  induction hscope with
  | nil => exact .none
  | cons hframe _ ih =>
      rw [List.findSome?_cons, List.findSome?_cons]
      have hfound := (table hframe).lookup name
      generalize (w.left.table _).lookup name = found at hfound ⊢
      generalize (w.right.table _).lookup name = found' at hfound ⊢
      cases hfound with
      | some hvalue => exact .some hvalue
      | none => exact ih

theorem root {ref ref' : FrameRef} (h : w.frame ref ref') :
    w.frame (w.left.root ref) (w.right.root ref') :=
  getLastD_of_forall₂ (frame_matches h).ancestors h

theorem hasParent_eq {ref ref' : FrameRef} (h : w.frame ref ref') :
    w.left.hasParent ref = w.right.hasParent ref' := by
  have hancestors := (frame_matches h).ancestors
  rw [Store.hasParent, Store.hasParent]
  generalize (w.left.frame ref).ancestors = ancestors at hancestors
  generalize (w.right.frame ref').ancestors = ancestors' at hancestors
  cases hancestors <;> simp

/-! ### How renamings change -/

/-- What is linked stays linked. -/
structure Extends (w w' : Renaming) : Prop where
  link {item item' : Item} : w.link item item' → w'.link item item'
  left_le : w.left.arenas.size ≤ w'.left.arenas.size
  right_le : w.right.arenas.size ≤ w'.right.arenas.size

/-- What is linked stays linked, and what is linked with nothing on the left stays as it is. -/
structure Leads (w w' : Renaming) : Prop extends Extends w w' where
  apart {item : Item} {entry : Entry} : w.left.find? item = some entry →
    (∀ item', ¬w.link item item') →
      w'.left.find? item = some entry ∧ ∀ item', ¬w'.link item item'

theorem Extends.refl (w : Renaming) : w.Extends w :=
  ⟨fun h => h, Nat.le_refl _, Nat.le_refl _⟩

theorem Extends.trans (h : w₁.Extends w₂) (h' : w₂.Extends w₃) : w₁.Extends w₃ where
  link hlink := h'.link (h.link hlink)
  left_le := Nat.le_trans h.left_le h'.left_le
  right_le := Nat.le_trans h.right_le h'.right_le

theorem Leads.refl (w : Renaming) : w.Leads w :=
  { Extends.refl w with apart := fun hentry hapart => ⟨hentry, hapart⟩ }

theorem Leads.trans (h : w₁.Leads w₂) (h' : w₂.Leads w₃) : w₁.Leads w₃ :=
  { h.toExtends.trans h'.toExtends with
    apart := fun hentry hapart =>
      h'.apart (h.apart hentry hapart).1 (h.apart hentry hapart).2 }

section

variable (h : w.Extends w')
include h

theorem Extends.value {value value' : Value} (hvalue : w.value value value') :
    w'.value value value' :=
  hvalue.imp fun _ _ => h.link

theorem Extends.values {values values' : List Value} (hvalues : w.values values values') :
    w'.values values values' :=
  hvalues.imp fun _ _ => h.value

theorem Extends.frame {frame frame' : FrameRef} (hframe : w.frame frame frame') :
    w'.frame frame frame' :=
  h.link hframe

theorem Extends.frames {frames frames' : List FrameRef} (hframes : w.frames frames frames') :
    w'.frames frames frames' :=
  hframes.imp fun _ _ => h.frame

theorem Extends.left_lt {arena : Nat} (harena : arena < w.left.arenas.size) :
    arena < w'.left.arenas.size :=
  Nat.lt_of_lt_of_le harena h.left_le

theorem Extends.right_lt {arena : Nat} (harena : arena < w.right.arenas.size) :
    arena < w'.right.arenas.size :=
  Nat.lt_of_lt_of_le harena h.right_le

end

section

variable (w : Renaming) {target target' : Item} {entry entry' : Entry} {left right : Store}
  (hleft : Store.Puts target entry w.left left) (hright : Store.Puts target' entry' w.right right)
  (honly : ∀ item', w.link target item' → item' = target')
  (honly' : ∀ item, w.link item target' → item = target)
  (hmatches : entry.Matches w.link entry')

/-- Matching entries are put at two items, which are linked from then on. -/
def put : Renaming where
  left := left
  right := right
  link item item' := w.link item item' ∨ item = target ∧ item' = target'
  unique := by
    constructor
    · rintro item other item' (h | ⟨rfl, rfl⟩) (h' | ⟨rfl, heq⟩)
      · exact w.unique.1 h h'
      · exact honly' item (heq ▸ h)
      · exact (honly' other h').symm
      · rfl
    · rintro item item' other' (h | ⟨rfl, rfl⟩) (h' | ⟨heq, rfl⟩)
      · exact w.unique.2 h h'
      · exact honly item' (heq ▸ h)
      · exact (honly other' h').symm
      · rfl
  entries := by
    rintro item item' hlink
    by_cases heq : item = target
    · have heq' : item' = target' := by
        rcases hlink with h | h
        · exact honly item' (heq ▸ h)
        · exact h.2
      exact ⟨entry, entry', by rw [heq, hleft.find?_self], by rw [heq', hright.find?_self],
        hmatches.imp fun _ _ => .inl⟩
    · have h : w.link item item' := hlink.resolve_right fun h => heq h.1
      have hne' : item' ≠ target' := fun heq' => heq (honly' item (heq' ▸ h))
      obtain ⟨found, found', hfound, hfound', hmatches⟩ := w.entries h
      exact ⟨found, found', by rw [hleft.find?_of_ne heq, hfound],
        by rw [hright.find?_of_ne hne', hfound'], hmatches.imp fun _ _ => .inl⟩

theorem extends_put : w.Extends (w.put hleft hright honly honly' hmatches) :=
  ⟨.inl, Nat.le_of_eq hleft.size.symm, Nat.le_of_eq hright.size.symm⟩

theorem leads_put (hlinked : w.link target target' ∨ w.left.find? target = none) :
    w.Leads (w.put hleft hright honly honly' hmatches) where
  toExtends := w.extends_put hleft hright honly honly' hmatches
  apart {item found} hfound hapart := by
    have hne : item ≠ target := by
      rintro rfl
      rcases hlinked with hlinked | hnone
      · exact hapart target' hlinked
      · cases hnone.symm.trans hfound
    refine ⟨(hleft.find?_of_ne hne).trans hfound, ?_⟩
    rintro item' (h | h)
    · exact hapart item' h
    · exact hne h.1

end

/-- What has been made of the stores is a renaming again, and the results are related. -/
def Changes (w : Renaming) (made : α × Store) (made' : β × Store)
    (post : Renaming → α → β → Prop) : Prop :=
  ∃ w' : Renaming, made.2 = w'.left ∧ made'.2 = w'.right ∧ w.Leads w' ∧ post w' made.1 made'.1

theorem Changes.pure {a : α} {b : β} {post : Renaming → α → β → Prop} (h : post w a b) :
    w.Changes (a, w.left) (b, w.right) post :=
  ⟨w, rfl, rfl, .refl w, h⟩

/-- The two stores are a renaming again. -/
def Becomes (w : Renaming) (left right : Store) : Prop :=
  ∃ w' : Renaming, left = w'.left ∧ right = w'.right ∧ w.Leads w'

theorem Becomes.refl (w : Renaming) : w.Becomes w.left w.right :=
  ⟨w, rfl, rfl, .refl w⟩

theorem Leads.becomes {left right : Store} (hleads : w.Leads w') (h : w'.Becomes left right) :
    w.Becomes left right := by
  obtain ⟨w'', hleft, hright, hleads'⟩ := h
  exact ⟨w'', hleft, hright, hleads.trans hleads'⟩

theorem Becomes.changes {left right : Store} (h : w.Becomes left right) :
    w.Changes ((), left) ((), right) fun _ _ _ => True := by
  obtain ⟨w', hleft, hright, hleads⟩ := h
  exact ⟨w', hleft, hright, hleads, trivial⟩

theorem Leads.changes {made : α × Store} {made' : β × Store} {post : Renaming → α → β → Prop}
    (hleads : w.Leads w') (h : w'.Changes made made' post) : w.Changes made made' post := by
  obtain ⟨w'', hleft, hright, hleads', hpost⟩ := h
  exact ⟨w'', hleft, hright, hleads.trans hleads', hpost⟩

/-! ### New pairs, lambdas and frames -/

/-- New things are linked as they are made. -/
theorem add {target target' : Item} {entry entry' : Entry} {left right : Store}
    (hleft : Store.Puts target entry w.left left) (hnew : w.left.find? target = none)
    (hright : Store.Puts target' entry' w.right right) (hnew' : w.right.find? target' = none)
    (hmatches : entry.Matches w.link entry') :
    ∃ w' : Renaming, left = w'.left ∧ right = w'.right ∧ w.Leads w' ∧ w'.link target target' := by
  have honly : ∀ item', w.link target item' → item' = target' := by
    intro item' h
    obtain ⟨_, _, hfound, -⟩ := w.entries h
    cases hnew.symm.trans hfound
  have honly' : ∀ item, w.link item target' → item = target := by
    intro item h
    obtain ⟨_, _, -, hfound, -⟩ := w.entries h
    cases hnew'.symm.trans hfound
  exact ⟨w.put hleft hright honly honly' hmatches, rfl, rfl,
    w.leads_put hleft hright honly honly' hmatches (.inr hnew), .inr ⟨rfl, rfl⟩⟩

section

variable {arena arena' : Nat} (harena : arena < w.left.arenas.size)
  (harena' : arena' < w.right.arenas.size)
include harena harena'

theorem cons {car cdr car' cdr' : Value} (hcar : w.value car car') (hcdr : w.value cdr cdr') :
    w.Changes (w.left.cons arena car cdr) (w.right.cons arena' car' cdr') value := by
  obtain ⟨hpair, hleft⟩ := Store.puts_cons harena car cdr
  obtain ⟨hpair', hright⟩ := Store.puts_cons harena' car' cdr'
  obtain ⟨w', hl, hr, hleads, hlink⟩ := add hleft (Store.find?_eq_none (Nat.le_refl _)) hright
    (Store.find?_eq_none (Nat.le_refl _)) (.cell hcar hcdr)
  refine ⟨w', hl, hr, hleads, ?_⟩
  rw [hpair, hpair']
  exact .pair hlink

theorem addLambda {code code' : Lambda} (hcode : code.Matches w.link code') :
    w.Changes (w.left.addLambda arena code) (w.right.addLambda arena' code') lambda := by
  obtain ⟨href, hleft⟩ := Store.puts_addLambda harena code
  obtain ⟨href', hright⟩ := Store.puts_addLambda harena' code'
  obtain ⟨w', hl, hr, hleads, hlink⟩ := add hleft (Store.find?_eq_none (Nat.le_refl _)) hright
    (Store.find?_eq_none (Nat.le_refl _)) (.lambda hcode)
  refine ⟨w', hl, hr, hleads, ?_⟩
  rw [href, href']
  exact hlink

theorem addFrame {found found' : Frame} (hframe : found.Matches w.link found') :
    w.Changes (w.left.addFrame arena found) (w.right.addFrame arena' found') frame := by
  obtain ⟨href, hleft⟩ := Store.puts_addFrame harena found
  obtain ⟨href', hright⟩ := Store.puts_addFrame harena' found'
  obtain ⟨w', hl, hr, hleads, hlink⟩ := add hleft (Store.find?_eq_none (Nat.le_refl _)) hright
    (Store.find?_eq_none (Nat.le_refl _)) (.frame hframe)
  refine ⟨w', hl, hr, hleads, ?_⟩
  rw [href, href']
  exact hlink

theorem newRoot : w.Changes (w.left.newRoot arena) (w.right.newRoot arena') frame :=
  addFrame harena harena' ⟨.nil, .nil⟩

theorem extend {ref ref' : FrameRef} (href : w.frame ref ref') :
    w.Changes (w.left.extend arena ref) (w.right.extend arena' ref') frame :=
  addFrame harena harena' ⟨.nil, scope href⟩

theorem snapshot {ref ref' : FrameRef} (href : w.frame ref ref') :
    w.Changes (w.left.snapshot arena ref) (w.right.snapshot arena' ref') frame :=
  addFrame harena harena' (frame_matches href)

theorem listWithTail {items items' : List Value} {tail tail' : Value}
    (hitems : w.values items items') (htail : w.value tail tail') :
    w.Changes (w.left.listWithTail arena items tail) (w.right.listWithTail arena' items' tail')
      value := by
  induction hitems with
  | nil => exact .pure htail
  | cons hitem _ ih =>
      obtain ⟨w', hleft, hright, hw, hrest⟩ := ih
      simp only [Store.listWithTail, List.foldr_cons] at hleft hright hrest ⊢
      rw [hleft, hright]
      exact hw.changes (cons (hw.left_lt harena) (hw.right_lt harena') (hw.value hitem) hrest)

theorem ofDatum (datum : Datum) :
    w.Changes (w.left.ofDatum arena datum) (w.right.ofDatum arena' datum) value := by
  induction datum generalizing w with
  | pair car cdr ihcar ihcdr =>
      simp only [Store.ofDatum]
      obtain ⟨w₁, hleft, hright, hw₁, hrest⟩ := ihcdr harena harena'
      rw [hleft, hright]
      obtain ⟨w₂, hleft, hright, hw₂, hfirst⟩ := ihcar (hw₁.left_lt harena) (hw₁.right_lt harena')
      rw [hleft, hright]
      have hw := hw₁.trans hw₂
      exact hw.changes (cons (hw.left_lt harena) (hw.right_lt harena') hfirst (hw₂.value hrest))
  | nil => exact .pure .nil
  | t => exact .pure .t
  | integer n => exact .pure (.integer n)
  | symbol name => exact .pure (.symbol name)

theorem ofData (data : List Datum) :
    w.Changes (w.left.ofData arena data) (w.right.ofData arena' data) values := by
  induction data generalizing w with
  | nil => exact .pure .nil
  | cons datum rest ih =>
      simp only [Store.ofData]
      obtain ⟨w₁, hleft, hright, hw₁, hform⟩ := ofDatum harena harena' datum
      rw [hleft, hright]
      obtain ⟨w₂, hleft, hright, hw₂, hothers⟩ := ih (hw₁.left_lt harena) (hw₁.right_lt harena')
      exact ⟨w₂, hleft, hright, hw₁.trans hw₂, .cons (hw₂.value hform) hothers⟩

end

/-- A new arena in both stores. -/
theorem addArena (w : Renaming) :
    w.Changes w.left.addArena w.right.addArena fun w' arena arena' =>
      arena < w'.left.arenas.size ∧ arena' < w'.right.arenas.size := by
  refine ⟨⟨w.left.addArena.2, w.right.addArena.2, w.link, w.unique, fun h => ?_⟩, rfl, rfl,
    ⟨⟨fun h => h, ?_, ?_⟩, fun hentry hapart => ⟨?_, hapart⟩⟩, ?_, ?_⟩
  · obtain ⟨entry, entry', hleft, hright, hmatches⟩ := w.entries h
    exact ⟨entry, entry', by rw [Store.find?_addArena, hleft],
      by rw [Store.find?_addArena, hright], hmatches⟩
  · simp [Store.addArena]
  · simp [Store.addArena]
  · rw [Store.find?_addArena, hentry]
  · simp [Store.addArena]
  · simp [Store.addArena]

/-! ### Changes in place -/

/-- Matching entries are put at linked items. -/
theorem replace {target target' : Item} (hlink : w.link target target') {entry entry' : Entry}
    {left right : Store} (hleft : Store.Puts target entry w.left left)
    (hright : Store.Puts target' entry' w.right right) (hmatches : entry.Matches w.link entry') :
    w.Becomes left right := by
  have honly : ∀ item', w.link target item' → item' = target' := fun _ h => w.unique.2 h hlink
  have honly' : ∀ item, w.link item target' → item = target := fun _ h => w.unique.1 h hlink
  exact ⟨w.put hleft hright honly honly' hmatches, rfl, rfl,
    w.leads_put hleft hright honly honly' hmatches (.inl hlink)⟩

theorem setCar {ref ref' : CellRef} (href : w.link (.cell ref) (.cell ref')) {part part' : Value}
    (hpart : w.value part part') :
    w.Becomes (w.left.setCar ref part) (w.right.setCar ref' part') := by
  obtain ⟨cell, cell', hcell, hcell', -, hcdr⟩ := cells_match href
  exact replace href (Store.puts_modifyCell hcell ({ · with car := part }))
    (Store.puts_modifyCell hcell' ({ · with car := part' })) (.cell hpart hcdr)

theorem setCdr {ref ref' : CellRef} (href : w.link (.cell ref) (.cell ref')) {part part' : Value}
    (hpart : w.value part part') :
    w.Becomes (w.left.setCdr ref part) (w.right.setCdr ref' part') := by
  obtain ⟨cell, cell', hcell, hcell', hcar, -⟩ := cells_match href
  exact replace href (Store.puts_modifyCell hcell ({ · with cdr := part }))
    (Store.puts_modifyCell hcell' ({ · with cdr := part' })) (.cell hcar hpart)

theorem modifyTable {ref ref' : FrameRef} (href : w.frame ref ref')
    {change change' : Table Value → Table Value}
    (hchange : ∀ table table', table.Matches w.value table' →
      (change table).Matches w.value (change' table')) :
    w.Becomes (w.left.modifyTable ref change) (w.right.modifyTable ref' change') := by
  obtain ⟨frame, frame', hframe, hframe', hmatches⟩ := frames_match href
  exact replace href (Store.puts_modifyTable hframe change)
    (Store.puts_modifyTable hframe' change')
    (.frame ⟨hchange _ _ hmatches.table, hmatches.ancestors⟩)

theorem bind {ref ref' : FrameRef} (href : w.frame ref ref') (name : Symbol) {bound bound' : Value}
    (hvalue : w.value bound bound') :
    w.Becomes (w.left.bind ref name bound) (w.right.bind ref' name bound') :=
  modifyTable href fun _ _ htable => htable.insert name hvalue

theorem clear {ref ref' : FrameRef} (href : w.frame ref ref') :
    w.Becomes (w.left.clear ref) (w.right.clear ref') :=
  modifyTable href fun _ _ _ => .nil

theorem clearAll {refs refs' : List FrameRef} (hrefs : w.frames refs refs') :
    w.Becomes (refs.foldl Store.clear w.left) (refs'.foldl Store.clear w.right) := by
  induction refs generalizing w refs' with
  | nil =>
      cases hrefs
      exact .refl w
  | cons ref rest ih =>
      cases hrefs with
      | cons href hrest =>
          rw [List.foldl_cons, List.foldl_cons]
          obtain ⟨w', hleft, hright, hw⟩ := clear href
          rw [hleft, hright]
          exact hw.becomes (ih (hw.frames hrest))

theorem bindAll {ref ref' : FrameRef} (href : w.frame ref ref') (names : List Symbol)
    {args args' : List Value} (hargs : w.values args args') :
    w.Becomes (w.left.bindAll ref names args) (w.right.bindAll ref' names args') := by
  induction names generalizing w args args' with
  | nil => exact .refl w
  | cons name names ih =>
      cases hargs with
      | nil => exact .refl w
      | cons harg hrest =>
          obtain ⟨w', hleft, hright, hw⟩ := bind href name harg
          simp only [Store.bindAll, List.zip_cons_cons, List.foldl_cons] at ih ⊢
          rw [hleft, hright]
          exact hw.becomes (ih (hw.frame href) (hw.values hrest))

theorem bindArgs {arena arena' : Nat} (harena : arena < w.left.arenas.size)
    (harena' : arena' < w.right.arenas.size) {ref ref' : FrameRef} (href : w.frame ref ref')
    (params : Params) {args args' : List Value} (hargs : w.values args args') :
    w.Becomes (w.left.bindArgs arena params ref args)
      (w.right.bindArgs arena' params ref' args') := by
  obtain ⟨w₁, hleft, hright, hw₁⟩ := bindAll href params.required hargs
  simp only [Store.bindArgs]
  rw [hleft, hright]
  refine hw₁.becomes ?_
  cases params.rest with
  | none => exact .refl w₁
  | some name =>
      have hothers := List.forall₂_drop params.required.length (hw₁.values hargs)
      obtain ⟨w₂, hleft, hright, hw₂, hrest⟩ := listWithTail (hw₁.left_lt harena)
        (hw₁.right_lt harena') hothers (.nil : w₁.value .nil .nil)
      simp only [Store.list]
      rw [hleft, hright]
      exact hw₂.becomes (bind (hw₂.frame (hw₁.frame href)) name hrest)

end Renaming

/-! ### Making things ahead -/

namespace Store

/-- All that the first store has is in the second as well. -/
def Keeps (before after : Store) : Prop :=
  ∀ item entry, before.find? item = some entry → after.find? item = some entry

theorem Keeps.trans {first second third : Store} (h : first.Keeps second)
    (h' : second.Keeps third) : first.Keeps third :=
  fun item entry hentry => h' item entry (h item entry hentry)

theorem Puts.keeps {target : Item} {entry : Entry} {before after : Store}
    (h : Puts target entry before after) (hnew : before.find? target = none) :
    before.Keeps after := by
  intro item found hfound
  rw [h.find?_of_ne, hfound]
  rintro rfl
  cases hnew.symm.trans hfound

/-- The value denotes the datum by way of these cells, the pairs outside before those inside. -/
inductive Spells (store : Store) : Value → Datum → List CellRef → Prop
  | nil : Spells store .nil .nil []
  | t : Spells store .t .t []
  | integer (value : Int64) : Spells store (.integer value) (.integer value) []
  | symbol (name : Symbol) : Spells store (.symbol name) (.symbol name) []
  | pair {ref : CellRef} {cell : Cell} {car cdr : Datum} {refs refs' : List CellRef} :
      store.find? (.cell ref) = some (.cell cell) → Spells store cell.car car refs →
      Spells store cell.cdr cdr refs' →
      Spells store (.pair ref) (.pair car cdr) (ref :: (refs ++ refs'))

/-- The values denote the data by way of these cells. -/
inductive SpellsAll (store : Store) : List Value → List Datum → List CellRef → Prop
  | nil : SpellsAll store [] [] []
  | cons {value : Value} {datum : Datum} {refs refs' : List CellRef} {values : List Value}
      {data : List Datum} : Spells store value datum refs → SpellsAll store values data refs' →
      SpellsAll store (value :: values) (datum :: data) (refs ++ refs')

section

variable {store after : Store} {refs : List CellRef}

theorem Spells.kept {value : Value} {datum : Datum} (h : store.Spells value datum refs)
    (hkept : ∀ ref ∈ refs, ∀ entry, store.find? (.cell ref) = some entry →
      after.find? (.cell ref) = some entry) : after.Spells value datum refs := by
  induction h with
  | nil => exact .nil
  | t => exact .t
  | integer n => exact .integer n
  | symbol name => exact .symbol name
  | @pair ref cell car cdr refs refs' hcell _ _ ihcar ihcdr =>
      refine .pair (hkept ref List.mem_cons_self _ hcell) (ihcar fun ref href => ?_)
        (ihcdr fun ref href => ?_)
      · exact hkept ref (List.mem_cons_of_mem _ (List.mem_append_left _ href))
      · exact hkept ref (List.mem_cons_of_mem _ (List.mem_append_right _ href))

theorem SpellsAll.kept {values : List Value} {data : List Datum}
    (h : store.SpellsAll values data refs)
    (hkept : ∀ ref ∈ refs, ∀ entry, store.find? (.cell ref) = some entry →
      after.find? (.cell ref) = some entry) : after.SpellsAll values data refs := by
  induction h with
  | nil => exact .nil
  | cons hvalue _ ih =>
      refine .cons (hvalue.kept fun ref href => ?_) (ih fun ref href => ?_)
      · exact hkept ref (List.mem_append_left _ href)
      · exact hkept ref (List.mem_append_right _ href)

theorem Spells.isSome {value : Value} {datum : Datum} (h : store.Spells value datum refs)
    {ref : CellRef} (href : ref ∈ refs) : (store.find? (.cell ref)).isSome = true := by
  induction h with
  | pair hcell _ _ ihcar ihcdr =>
      rcases List.mem_cons.1 href with rfl | href
      · rw [hcell]
        rfl
      · exact (List.mem_append.1 href).elim ihcar ihcdr
  | _ => cases href

theorem SpellsAll.isSome {values : List Value} {data : List Datum}
    (h : store.SpellsAll values data refs) {ref : CellRef} (href : ref ∈ refs) :
    (store.find? (.cell ref)).isSome = true := by
  induction h with
  | nil => cases href
  | cons hvalue _ ih => exact (List.mem_append.1 href).elim hvalue.isSome ih

end

/-- These cells are new: each of them is one, and the store had none of them. -/
structure New (store : Store) (refs : List CellRef) : Prop where
  nodup : refs.Nodup
  absent {ref : CellRef} : ref ∈ refs → store.find? (.cell ref) = none

/-- What is new in a store and what is new in a later one, in which the former is, is new. -/
theorem New.append {store after : Store} {refs refs' : List CellRef} (h : store.New refs)
    (h' : after.New refs') (hkeeps : store.Keeps after)
    (hsome : ∀ ref ∈ refs, (after.find? (.cell ref)).isSome = true) :
    store.New (refs' ++ refs) := by
  refine ⟨List.nodup_append'.2 ⟨h'.nodup, h.nodup, fun ref href' href => ?_⟩, fun {ref} href => ?_⟩
  · have hin := hsome ref href
    rw [h'.absent href'] at hin
    cases hin
  · rcases List.mem_append.1 href with href | href
    · refine Option.eq_none_iff_forall_ne_some.2 fun entry hentry => ?_
      cases (h'.absent href).symm.trans (hkeeps _ _ hentry)
    · exact h.absent href

section

variable {arena : Nat}

/-- A datum is spelled by new cells. -/
theorem spells_ofDatum {store : Store} (harena : arena < store.arenas.size) (datum : Datum) :
    ∃ refs, (store.ofDatum arena datum).2.Spells (store.ofDatum arena datum).1 datum refs ∧
      store.New refs ∧ store.Keeps (store.ofDatum arena datum).2 ∧
      (store.ofDatum arena datum).2.arenas.size = store.arenas.size := by
  have hnew : ∀ store : Store, store.New [] := fun _ => ⟨List.nodup_nil, fun href => by cases href⟩
  induction datum generalizing store with
  | nil => exact ⟨[], .nil, hnew store, fun _ _ h => h, rfl⟩
  | t => exact ⟨[], .t, hnew store, fun _ _ h => h, rfl⟩
  | integer n => exact ⟨[], .integer n, hnew store, fun _ _ h => h, rfl⟩
  | symbol name => exact ⟨[], .symbol name, hnew store, fun _ _ h => h, rfl⟩
  | pair car cdr ihcar ihcdr =>
      obtain ⟨refs', hcdr, hnew', hkeeps', hsize'⟩ := ihcdr harena
      obtain ⟨refs, hcar, hnew, hkeeps, hsize⟩ := ihcar (hsize' ▸ harena)
      simp only [ofDatum]
      generalize store.ofDatum arena cdr = second at *
      generalize second.2.ofDatum arena car = first at *
      have harena₂ : arena < first.2.arenas.size := by rw [hsize, hsize']; exact harena
      obtain ⟨hpair, hputs⟩ := puts_cons harena₂ first.1 second.1
      have habsent : first.2.find? (.cell ⟨arena, (first.2.extent arena).cells⟩) = none :=
        find?_eq_none (Nat.le_refl _)
      have hlast := hputs.keeps habsent
      have hcdr₂ := hcdr.kept fun ref _ => hkeeps (.cell ref)
      refine ⟨⟨arena, (first.2.extent arena).cells⟩ :: (refs ++ refs'), ?_, ?_,
        (hkeeps'.trans hkeeps).trans hlast, by rw [hputs.size, hsize, hsize']⟩
      · rw [hpair]
        exact .pair hputs.find?_self (hcar.kept fun ref _ => hlast (.cell ref))
          (hcdr₂.kept fun ref _ => hlast (.cell ref))
      · have hparts := hnew'.append hnew hkeeps' fun ref href => hcdr.isSome href
        have hpair : first.2.New [⟨arena, (first.2.extent arena).cells⟩] :=
          ⟨List.nodup_singleton _, fun href => List.mem_singleton.1 href ▸ habsent⟩
        exact hparts.append hpair (hkeeps'.trans hkeeps) fun ref href =>
          (List.mem_append.1 href).elim hcar.isSome hcdr₂.isSome

/-- Data are spelled by new cells. -/
theorem spellsAll_ofData {store : Store} (harena : arena < store.arenas.size) (data : List Datum) :
    ∃ refs, (store.ofData arena data).2.SpellsAll (store.ofData arena data).1 data refs ∧
      store.New refs ∧ store.Keeps (store.ofData arena data).2 ∧
      (store.ofData arena data).2.arenas.size = store.arenas.size := by
  induction data generalizing store with
  | nil => exact ⟨[], .nil, ⟨List.nodup_nil, fun href => by cases href⟩, fun _ _ h => h, rfl⟩
  | cons datum rest ih =>
      obtain ⟨refs, hform, hnew, hkeeps, hsize⟩ := spells_ofDatum harena datum
      obtain ⟨refs', hothers, hnew', hkeeps', hsize'⟩ := ih (hsize ▸ harena)
      refine ⟨refs ++ refs', .cons (hform.kept fun ref _ => hkeeps' (.cell ref)) hothers, ?_,
        hkeeps.trans hkeeps', hsize'.trans hsize⟩
      have hall := hnew.append hnew' hkeeps fun ref href => hform.isSome href
      exact ⟨List.nodup_append_comm.1 hall.nodup,
        fun href => hall.absent (List.mem_append.2 (List.mem_append.1 href).symm)⟩

end

end Store

namespace Renaming

variable {w : Renaming}

/-- What only the left store has made in addition is linked with nothing. -/
def ahead (w : Renaming) {left : Store} (hkeeps : w.left.Keeps left) : Renaming where
  left := left
  right := w.right
  link := w.link
  unique := w.unique
  entries h := by
    obtain ⟨entry, entry', hentry, hentry', hmatches⟩ := w.entries h
    exact ⟨entry, entry', hkeeps _ _ hentry, hentry', hmatches⟩

theorem leads_ahead (w : Renaming) {left : Store} (hkeeps : w.left.Keeps left)
    (hsize : w.left.arenas.size ≤ left.arenas.size) : w.Leads (w.ahead hkeeps) where
  link h := h
  left_le := hsize
  right_le := Nat.le_refl _
  apart hentry hapart := ⟨hkeeps _ _ hentry, hapart⟩

/-- The right store has made what the left one had made of these cells before. They are linked from
then on, and nothing else is in addition. -/
structure CatchesUp (w w' : Renaming) (refs : List CellRef) : Prop extends Extends w w' where
  left_eq : w.left = w'.left
  only {item item' : Item} : w'.link item item' →
    w.link item item' ∨ ∃ ref ∈ refs, item = .cell ref

namespace CatchesUp

variable {w₁ w₂ : Renaming} {refs refs' : List CellRef}

theorem refl (w : Renaming) : w.CatchesUp w [] :=
  ⟨.refl w, rfl, .inl⟩

theorem trans (h : w.CatchesUp w₁ refs) (h' : w₁.CatchesUp w₂ refs') :
    w.CatchesUp w₂ (refs ++ refs') where
  toExtends := h.toExtends.trans h'.toExtends
  left_eq := h.left_eq.trans h'.left_eq
  only hlink := by
    rcases h'.only hlink with hlink | ⟨ref, href, heq⟩
    · refine (h.only hlink).imp_right ?_
      rintro ⟨ref, href, heq⟩
      exact ⟨ref, List.mem_append_left _ href, heq⟩
    · exact .inr ⟨ref, List.mem_append_right _ href, heq⟩

theorem perm (h : w.CatchesUp w₁ refs) (hperm : refs.Perm refs') : w.CatchesUp w₁ refs' where
  toExtends := h.toExtends
  left_eq := h.left_eq
  only hlink := (h.only hlink).imp_right fun ⟨ref, href, heq⟩ => ⟨ref, hperm.mem_iff.1 href, heq⟩

theorem unlinked (h : w.CatchesUp w₁ refs) {ref : CellRef}
    (hunlinked : ∀ item', ¬w.link (.cell ref) item') (hother : ref ∉ refs) (item' : Item) :
    ¬w₁.link (.cell ref) item' := by
  intro hlink
  rcases h.only hlink with hlink | ⟨other, hmem, heq⟩
  · exact hunlinked item' hlink
  · exact hother (Item.cell.inj heq ▸ hmem)

end CatchesUp

/-- What the left store did not have at first may be caught up with later. -/
theorem Leads.catchesUp {w' w'' : Renaming} {refs : List CellRef} (h : w.Leads w')
    (h' : w'.CatchesUp w'' refs) (hnew : ∀ ref ∈ refs, w.left.find? (.cell ref) = none) :
    w.Leads w'' where
  toExtends := h.toExtends.trans h'.toExtends
  apart hentry hapart := by
    obtain ⟨hentry', hapart'⟩ := h.apart hentry hapart
    refine ⟨h'.left_eq ▸ hentry', fun item' hlink => ?_⟩
    rcases h'.only hlink with hlink | ⟨ref, href, rfl⟩
    · exact hapart' item' hlink
    · cases (hnew ref href).symm.trans hentry

/-- When the right store makes a pair that the left one has, it catches up with its cell. -/
theorem cons_catchesUp {arena' : Nat} {ref : CellRef} {cell : Cell}
    (hcell : w.left.find? (.cell ref) = some (.cell cell))
    (hunlinked : ∀ item', ¬w.link (.cell ref) item') (harena' : arena' < w.right.arenas.size)
    {car cdr : Value} (hcar : w.value cell.car car) (hcdr : w.value cell.cdr cdr) :
    ∃ w' : Renaming, (w.right.cons arena' car cdr).2 = w'.right ∧ w.CatchesUp w' [ref] ∧
      w'.value (.pair ref) (w.right.cons arena' car cdr).1 := by
  obtain ⟨hpair, hputs⟩ := Store.puts_cons harena' car cdr
  have hself : Store.Puts (.cell ref) (.cell cell) w.left w.left := by
    refine ⟨rfl, fun item => ?_⟩
    split
    · next heq => rw [heq, hcell]
    · rfl
  have honly : ∀ item', w.link (.cell ref) item' →
      item' = .cell ⟨arena', (w.right.extent arena').cells⟩ :=
    fun item' hlink => absurd hlink (hunlinked item')
  have hnew : ∀ item, w.link item (.cell ⟨arena', (w.right.extent arena').cells⟩) →
      item = .cell ref := by
    intro item hlink
    obtain ⟨_, _, -, hfound, -⟩ := w.entries hlink
    rw [Store.find?_eq_none (Nat.le_refl _)] at hfound
    cases hfound
  have hmatches : (Entry.cell cell).Matches w.link (.cell ⟨car, cdr⟩) := .cell hcar hcdr
  refine ⟨w.put hself hputs honly hnew hmatches, rfl,
    ⟨w.extends_put hself hputs honly hnew hmatches, rfl, ?_⟩, ?_⟩
  · rintro item item' (hlink | ⟨rfl, -⟩)
    · exact .inl hlink
    · exact .inr ⟨ref, List.mem_singleton_self ref, rfl⟩
  · rw [hpair]
    exact .pair (.inr ⟨rfl, rfl⟩)

/-- **Catching up with a datum** that the left store has and the right one makes. -/
theorem ofDatum_catchesUp {arena' : Nat} {value : Value} {datum : Datum} {refs : List CellRef}
    {left : Store} (hleft : w.left = left) (hspells : left.Spells value datum refs)
    (hnodup : refs.Nodup) (hunlinked : ∀ ref ∈ refs, ∀ item', ¬w.link (.cell ref) item')
    (harena' : arena' < w.right.arenas.size) :
    ∃ w' : Renaming, (w.right.ofDatum arena' datum).2 = w'.right ∧ w.CatchesUp w' refs ∧
      w'.value value (w.right.ofDatum arena' datum).1 := by
  induction hspells generalizing w with
  | nil => exact ⟨w, rfl, .refl w, .nil⟩
  | t => exact ⟨w, rfl, .refl w, .t⟩
  | integer n => exact ⟨w, rfl, .refl w, .integer n⟩
  | symbol name => exact ⟨w, rfl, .refl w, .symbol name⟩
  | @pair ref cell car cdr refs refs' hcell _ _ ihcar ihcdr =>
      obtain ⟨href, hparts⟩ := List.nodup_cons.1 hnodup
      obtain ⟨hrefs, hrefs', hdisjoint⟩ := List.nodup_append'.1 hparts
      obtain ⟨hself, hunlinked⟩ := List.forall_mem_cons.1 hunlinked
      obtain ⟨hcars, hcdrs⟩ := List.forall_mem_append.1 hunlinked
      simp only [Store.ofDatum]
      -- the right store makes the rest first, then the head, then the pair of them
      obtain ⟨w₁, hright₁, hw₁, hcdr⟩ := ihcdr hleft hrefs' hcdrs harena'
      rw [hright₁]
      obtain ⟨w₂, hright₂, hw₂, hcar⟩ := ihcar (hw₁.left_eq.symm.trans hleft) hrefs
        (fun ref hmem => hw₁.unlinked (hcars ref hmem) (hdisjoint hmem)) (hw₁.right_lt harena')
      rw [hright₂]
      have hw := hw₁.trans hw₂
      obtain ⟨w₃, hright₃, hw₃, hpair⟩ := cons_catchesUp
        (hw.left_eq ▸ hleft ▸ hcell) (hw.unlinked hself fun hmem =>
          href (List.mem_append.2 (List.mem_append.1 hmem).symm))
        (hw.right_lt harena') hcar (hw₂.value hcdr)
      refine ⟨w₃, hright₃, (hw.trans hw₃).perm ?_, hpair⟩
      exact (List.perm_append_singleton ref _).trans (List.perm_append_comm.cons ref)

/-- The left store has forms that spell the data, and the right one has yet to make them. -/
structure Awaits (w : Renaming) (forms : List Value) (data : List Datum) (refs : List CellRef) :
    Prop where
  spells : w.left.SpellsAll forms data refs
  nodup : refs.Nodup
  unlinked : ∀ ref ∈ refs, ∀ item', ¬w.link (.cell ref) item'

/-- What changes along the links changes nothing of the forms that are awaited. -/
theorem Awaits.leads {w' : Renaming} {forms : List Value} {data : List Datum} {refs : List CellRef}
    (h : w.Awaits forms data refs) (hw : w.Leads w') : w'.Awaits forms data refs := by
  refine ⟨h.spells.kept fun ref href entry hentry => ?_, h.nodup, fun ref href => ?_⟩
  · exact (hw.apart hentry (h.unlinked ref href)).1
  · obtain ⟨entry, hentry⟩ := Option.isSome_iff_exists.1 (h.spells.isSome href)
    exact (hw.apart hentry (h.unlinked ref href)).2

/-- Forms that are made on the left alone are awaited, and the left store had none of their
cells. -/
theorem awaits_ofData {arena : Nat} (harena : arena < w.left.arenas.size) (data : List Datum) :
    ∃ (w' : Renaming) (refs : List CellRef), (w.left.ofData arena data).2 = w'.left ∧
      w.right = w'.right ∧ w.Leads w' ∧ w'.Awaits (w.left.ofData arena data).1 data refs ∧
      ∀ ref ∈ refs, w.left.find? (.cell ref) = none := by
  obtain ⟨refs, hspells, hnew, hkeeps, hsize⟩ := Store.spellsAll_ofData harena data
  refine ⟨w.ahead hkeeps, refs, rfl, rfl, w.leads_ahead hkeeps (Nat.le_of_eq hsize.symm),
    ⟨hspells, hnew.nodup, fun ref href item' hlink => ?_⟩, fun ref href => hnew.absent href⟩
  obtain ⟨_, _, hfound, -⟩ := w.entries hlink
  cases (hnew.absent href).symm.trans hfound

/-- **Catching up with the forms of a text** that are awaited and that the right store makes. -/
theorem Awaits.catchesUp {arena' : Nat} {forms : List Value} {data : List Datum}
    {refs : List CellRef} (h : w.Awaits forms data refs) (harena' : arena' < w.right.arenas.size) :
    ∃ w' : Renaming, (w.right.ofData arena' data).2 = w'.right ∧ w.CatchesUp w' refs ∧
      w'.values forms (w.right.ofData arena' data).1 := by
  obtain ⟨hspells, hnodup, hunlinked⟩ := h
  obtain ⟨left, hleft⟩ : ∃ left, w.left = left := ⟨_, rfl⟩
  rw [hleft] at hspells
  induction hspells generalizing w with
  | nil => exact ⟨w, rfl, .refl w, .nil⟩
  | @cons value datum refs refs' values data hvalue _ ih =>
      obtain ⟨hrefs, hrefs', hdisjoint⟩ := List.nodup_append'.1 hnodup
      obtain ⟨hfirst, hothers⟩ := List.forall_mem_append.1 hunlinked
      simp only [Store.ofData]
      obtain ⟨w₁, hright₁, hw₁, hform⟩ := ofDatum_catchesUp hleft hvalue hrefs hfirst harena'
      rw [hright₁]
      obtain ⟨w₂, hright₂, hw₂, hforms⟩ := ih (hw₁.right_lt harena') hrefs'
        (fun ref hmem => hw₁.unlinked (hothers ref hmem) fun hmem' => hdisjoint hmem' hmem)
        (hw₁.left_eq.symm.trans hleft)
      exact ⟨w₂, hright₂, hw₁.trans hw₂, .cons (hw₂.value hform) hforms⟩

end Renaming

end SmallLisp
