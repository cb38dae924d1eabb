import SmallLisp.Store.Print

/-!
# What is written for a value

The printer keeps the pairs that it is writing in a path, which it changes as it goes along. What it
writes for a value at some point is determined by the value and by which pairs are on the path then:
it is the same as if each call had a path of its own. In particular the path is the same after a
value has been written as it was before. A call within another one finds fewer pairs that are not on
the path, so there is an end to the calls within calls.

## Main results

* `unvisited_insert_lt` — entering one more pair leaves fewer to enter.
* `path_induction` — induction over what is inside of a value as far as the printer goes into it.
* `writeValue_eq` — what the printer writes, and that it restores the path.
* `written_eq`, `print_eq` — the same for a value by itself.
-/

namespace SmallLisp

/-! ### Paths -/

/-- The same pairs are on both paths. -/
def Path.Same (path other : Path) : Prop :=
  ∀ ref, ref ∈ path ↔ ref ∈ other

theorem Path.Same.insert {path other : Path} (h : path.Same other) (ref : CellRef) :
    Path.Same (path.insert ref) (other.insert ref) := by
  intro part
  rw [Path.mem_insert, Path.mem_insert, h part]

theorem Path.mem_foldl_erase {path : Path} {entered : List CellRef} {ref : CellRef} :
    ref ∈ entered.foldl (fun path ref => path.erase ref) path ↔ ref ∈ path ∧ ref ∉ entered := by
  induction entered generalizing path with
  | nil => simp
  | cons first rest ih =>
      rw [List.foldl_cons, ih, Path.mem_erase, List.mem_cons, not_or, Ne, eq_comm (a := first)]
      constructor
      · rintro ⟨⟨hne, hmem⟩, hnot⟩
        exact ⟨hmem, hne, hnot⟩
      · rintro ⟨hmem, hne, hnot⟩
        exact ⟨⟨hne, hmem⟩, hnot⟩

/-- Fewer items have a property that is stronger and that one of them does not have. -/
theorem countP_lt_countP {α : Type} {p q : α → Bool} {items : List α} {item : α}
    (h : ∀ a, p a = true → q a = true) (hitem : item ∈ items) (hq : q item = true)
    (hp : p item = false) : items.countP p < items.countP q := by
  induction items with
  | nil => cases hitem
  | cons first rest ih =>
      rw [List.countP_cons, List.countP_cons]
      rcases List.mem_cons.1 hitem with rfl | hrest
      · have hle : rest.countP p ≤ rest.countP q := List.countP_mono_left fun a _ => h a
        rw [hp, hq]
        exact Nat.lt_succ_of_le hle
      · have hlt := ih hrest
        cases hfirst : p first with
        | false => exact Nat.lt_of_lt_of_le hlt (Nat.le_add_right _ _)
        | true =>
            rw [h first hfirst]
            exact Nat.add_lt_add_right hlt _

/-- How a list can go on. -/
theorem Value.isNil_or_isPair_or_isLast (value : Value) :
    value = .nil ∨ (∃ ref, value = .pair ref) ∨ (value.isPair = false ∧ value ≠ .nil) := by
  cases value <;> simp [isPair]

namespace Store

/-- The places of all cells. -/
def cellRefs (store : Store) : List CellRef :=
  (List.range store.arenas.size).flatMap fun arena =>
    (List.range ((store.arenas[arena]?.map (·.cells.size)).getD 0)).map fun index =>
      ⟨arena, index⟩

theorem mem_cellRefs {store : Store} {ref : CellRef} {cell : Cell}
    (h : store.cell? ref = some cell) : ref ∈ store.cellRefs := by
  obtain ⟨arena, harena, hcell⟩ := Option.bind_eq_some_iff.1 h
  obtain ⟨hlt, -⟩ := Array.getElem?_eq_some_iff.1 harena
  obtain ⟨hindex, -⟩ := Array.getElem?_eq_some_iff.1 hcell
  simp only [cellRefs, List.mem_flatMap, List.mem_range, List.mem_map]
  exact ⟨ref.arena, hlt, ref.index, by simpa [harena] using hindex, rfl⟩

theorem length_cellRefs (store : Store) : store.cellRefs.length = store.cellCount := by
  have hsizes : (List.range store.arenas.size).map
      (fun arena => (store.arenas[arena]?.map (·.cells.size)).getD 0)
        = store.arenas.toList.map (·.cells.size) := by
    apply List.ext_getElem
    · simp
    · intro index h _
      simp only [List.length_map, List.length_range] at h
      simp [h]
  rw [cellRefs, List.length_flatMap]
  simp only [List.length_map, List.length_range]
  rw [hsizes, cellCount, ← Array.foldl_toList, List.sum_eq_foldl]
  rw [List.foldl_map]

/-- How many cells of the store are not on the path. -/
def unvisited (store : Store) (path : Path) : Nat :=
  store.cellRefs.countP (· ∉ path)

theorem unvisited_insert_lt {store : Store} {path : Path} {ref : CellRef} {cell : Cell}
    (hcell : store.cell? ref = some cell) (hpath : ref ∉ path) :
    store.unvisited (path.insert ref) < store.unvisited path :=
  countP_lt_countP (fun part hpart => by simp_all) (mem_cellRefs hcell) (decide_eq_true hpath)
    (by simp)

variable {store : Store}

theorem unvisited_le (store : Store) (path : Path) : store.unvisited path ≤ store.cellCount := by
  rw [← length_cellRefs]
  exact List.countP_le_length

theorem unvisited_same {path other : Path} (h : path.Same other) :
    store.unvisited path = store.unvisited other := by
  unfold unvisited
  congr 1
  funext ref
  simp only [h ref]

theorem car_eq {ref : CellRef} {cell : Cell} (h : store.cell? ref = some cell) :
    store.car ref = cell.car := by
  simp [Store.car, Store.cell, h]

theorem cdr_eq {ref : CellRef} {cell : Cell} (h : store.cell? ref = some cell) :
    store.cdr ref = cell.cdr := by
  simp [Store.cdr, Store.cell, h]

/-- A place that was never handed out reads as a pair of `NIL`s. -/
theorem parts_of_none {ref : CellRef} (h : store.cell? ref = none) :
    store.car ref = .nil ∧ store.cdr ref = .nil := by
  simp [Store.car, Store.cdr, Store.cell, h]

/-- **Induction along the printer's way.** It stops at what is no pair and at the pairs on the path,
and puts every other pair on the path before it goes on to the parts. -/
theorem path_induction (store : Store) {motive : Path → Value → Prop}
    (atom : ∀ path value, value.isPair = false → motive path value)
    (marked : ∀ path ref, ref ∈ path → motive path (.pair ref))
    (fresh : ∀ path ref, ref ∉ path → motive (path.insert ref) (store.car ref) →
      motive (path.insert ref) (store.cdr ref) → motive path (.pair ref))
    (path : Path) (value : Value) : motive path value := by
  induction hn : store.unvisited path using Nat.strongRecOn generalizing path value with
  | ind n ih =>
  cases value with
  | pair ref =>
      by_cases hpath : ref ∈ path
      · exact marked path ref hpath
      · rcases hcell : store.cell? ref with _ | cell
        · obtain ⟨hcar, hcdr⟩ := parts_of_none hcell
          exact fresh path ref hpath (hcar ▸ atom _ _ rfl) (hcdr ▸ atom _ _ rfl)
        · have hless := hn ▸ unvisited_insert_lt hcell hpath
          exact fresh path ref hpath (ih _ hless _ _ rfl) (ih _ hless _ _ rfl)
  | _ => exact atom path _ rfl

end Store

/-! ### The pieces of a value -/

namespace Position

/-- Something that is written as one piece, at its position. -/
def leaf (piece : Piece) : Position → List Piece
  | element => [piece]
  | remainder => [.dot, piece]

/-- `NIL` at its position. -/
def nilPieces : Position → List Piece
  | element => [.atom "NIL"]
  | remainder => []

/-- A pair at its position, given the pieces of its two parts. -/
def nest (ref : CellRef) (parts : List Piece) : Position → List Piece
  | element => .opening ref :: (parts ++ [.closing])
  | remainder => .gap ref :: parts

end Position

namespace Piece

theorem join_cons (piece : Piece) (pieces : List Piece) :
    join (piece :: pieces) = piece.text ++ join pieces :=
  String.join_cons

theorem join_append (pieces more : List Piece) :
    join (pieces ++ more) = join pieces ++ join more := by
  rw [join, List.map_append, String.join_append]
  rfl

theorem join_leaf (position : Position) (piece : Piece) :
    join (position.leaf piece) = position.atom piece.text := by
  cases position <;> simp [Position.leaf, Position.atom, join, String.join_cons, text]

theorem join_nilPieces (position : Position) : join position.nilPieces = position.nil := by
  cases position <;> rfl

theorem join_nest (position : Position) (ref : CellRef) (parts : List Piece) :
    join (position.nest ref parts) = position.list (join parts) := by
  cases position with
  | element =>
      rw [Position.nest, join_cons, join_append, Position.list, String.append_assoc]
      rfl
  | remainder => exact join_cons _ _

end Piece

namespace Store

/-- The pieces of a value at a position, while the pairs on the path are being written. -/
def piecesAt (store : Store) (path : Path) (position : Position) (value : Value) : List Piece :=
  match value with
  | .pair ref =>
      if _hpath : ref ∈ path then position.leaf (.mark ref)
      else
        match _hcell : store.cell? ref with
        | none => position.nest ref [.atom "NIL"]
        | some cell =>
            position.nest ref (store.piecesAt (path.insert ref) .element cell.car
              ++ store.piecesAt (path.insert ref) .remainder cell.cdr)
  | .nil => position.nilPieces
  | value => position.leaf (.atom (store.atomText value))
termination_by store.unvisited path
decreasing_by all_goals exact unvisited_insert_lt _hcell _hpath

variable {store : Store} {path : Path} {position : Position} {ref : CellRef}

theorem piecesAt_nil : store.piecesAt path position .nil = position.nilPieces := by
  rw [piecesAt]

theorem piecesAt_atom {value : Value} (hpair : value.isPair = false) (hnil : value ≠ .nil) :
    store.piecesAt path position value = position.leaf (.atom (store.atomText value)) := by
  cases value with
  | pair ref => cases hpair
  | nil => cases hnil rfl
  | _ => simp [piecesAt]

/-- Something that is no pair is written the same way on any path. -/
theorem piecesAt_element {value : Value} (hpair : value.isPair = false) :
    store.piecesAt path .element value = [.atom (store.atomText value)] := by
  by_cases hnil : value = .nil
  · subst hnil
    exact piecesAt_nil
  · exact piecesAt_atom hpair hnil

theorem piecesAt_marked (hpath : ref ∈ path) :
    store.piecesAt path position (.pair ref) = position.leaf (.mark ref) := by
  rw [piecesAt, dif_pos hpath]

theorem piecesAt_fresh (hpath : ref ∉ path) :
    store.piecesAt path position (.pair ref) =
      position.nest ref (store.piecesAt (path.insert ref) .element (store.car ref) ++
        store.piecesAt (path.insert ref) .remainder (store.cdr ref)) := by
  rw [piecesAt, dif_neg hpath]
  split
  · next hnone =>
      obtain ⟨hcar, hcdr⟩ := parts_of_none hnone
      rw [hcar, hcdr, piecesAt_nil, piecesAt_nil]
      rfl
  · next cell hcell => rw [car_eq hcell, cdr_eq hcell]

/-- Only which pairs are on the path matters. -/
theorem piecesAt_same {other : Path} (h : path.Same other) (position : Position) (value : Value) :
    store.piecesAt path position value = store.piecesAt other position value := by
  induction path, value using store.path_induction generalizing other position with
  | atom path value hpair =>
      by_cases hnil : value = .nil
      · subst hnil
        rw [piecesAt_nil, piecesAt_nil]
      · rw [piecesAt_atom hpair hnil, piecesAt_atom hpair hnil]
  | marked path ref hpath => rw [piecesAt_marked hpath, piecesAt_marked ((h ref).1 hpath)]
  | fresh path ref hpath ihcar ihcdr =>
      rw [piecesAt_fresh hpath, piecesAt_fresh fun hmem => hpath ((h ref).2 hmem),
        ihcar (h.insert ref), ihcdr (h.insert ref)]

/-! ### The printer -/

/-- How many calls writing a value takes at most, one within the other: two for each pair that is
not on the path yet. -/
def callsFor (store : Store) (path : Path) : Value → Nat
  | .pair _ => 2 * store.unvisited path + 3
  | _ => 1

theorem callsFor_part (store : Store) {part : Value} (hpath : ref ∉ path)
    (hpart : part = store.car ref ∨ part = store.cdr ref) :
    store.callsFor (path.insert ref) part < 2 * store.unvisited path + 2 := by
  rcases hcell : store.cell? ref with _ | cell
  · obtain ⟨hcar, hcdr⟩ := parts_of_none hcell
    have hnil : part = .nil := by
      rcases hpart with rfl | rfl
      · exact hcar
      · exact hcdr
    subst hnil
    exact Nat.lt_add_left _ Nat.one_lt_two
  · have hless := unvisited_insert_lt hcell hpath
    cases part <;> simp only [callsFor] <;> omega

theorem writeValue_of_not_isPair {value : Value} (hpair : value.isPair = false) {bound : Nat}
    (hbound : 1 ≤ bound) (writing : Writing) :
    store.writeValue bound value writing =
      some (writing.put (.atom (store.atomText value))) := by
  obtain ⟨bound, rfl⟩ : ∃ below, bound = below + 1 := ⟨bound - 1, by omega⟩
  cases value with
  | pair ref => cases hpair
  | _ => rfl

/-- Something other than `NIL` that ends a list is written like a value by itself. -/
theorem writeList_of_isLast {bound : Nat} {entered : List CellRef} {writing after : Writing}
    (hcar : store.writeValue bound (store.car ref) (writing.enter ref) = some after)
    (hpair : (store.cdr ref).isPair = false) (hnil : store.cdr ref ≠ .nil) :
    store.writeList (bound + 1) ref entered writing =
      (store.writeValue bound (store.cdr ref) (after.put .dot)).map (·.close (ref :: entered)) := by
  rw [writeList, hcar, Option.bind_eq_bind, Option.bind_some]
  cases hcdr : store.cdr ref with
  | nil => cases hnil hcdr
  | pair next => rw [hcdr] at hpair; cases hpair
  | _ => rw [Option.map_eq_bind]; rfl

/-- The pieces of the two parts of a pair that is being written. -/
def partPieces (store : Store) (path : Path) (ref : CellRef) : List Piece :=
  store.piecesAt (path.insert ref) .element (store.car ref) ++
    store.piecesAt (path.insert ref) .remainder (store.cdr ref)

/-- With so many calls every value is written as its pieces behind what there is already. The same
pairs are on the path afterwards. -/
def WritesValues (store : Store) (bound : Nat) : Prop :=
  ∀ value writing, store.callsFor writing.path value ≤ bound →
    ∃ after : Path, after.Same writing.path ∧
      store.writeValue bound value writing =
        some ⟨(store.piecesAt writing.path .element value).reverse ++ writing.pieces, after⟩

/-- With so many calls every list is written from any of its pairs on, as the pieces of that pair's
parts and the end of the list. Those of its pairs that had been entered are off the path then. -/
def WritesLists (store : Store) (bound : Nat) : Prop :=
  ∀ ref entered writing, ref ∉ writing.path → (∀ part ∈ entered, part ∈ writing.path) →
    2 * store.unvisited writing.path + 2 ≤ bound →
    ∃ after : Path, (∀ part, part ∈ after ↔ part ∈ writing.path ∧ part ∉ entered) ∧
      store.writeList bound ref entered writing =
        some ⟨.closing :: ((store.partPieces writing.path ref).reverse ++ writing.pieces), after⟩

theorem WritesLists.writesValues {bound : Nat} (h : store.WritesLists bound) :
    store.WritesValues (bound + 1) := by
  intro value writing hbound
  by_cases hpair : value.isPair = false
  · rw [writeValue_of_not_isPair hpair (Nat.le_add_left 1 bound), piecesAt_element hpair]
    exact ⟨writing.path, fun _ => Iff.rfl, rfl⟩
  obtain ⟨ref, rfl⟩ : ∃ ref, value = .pair ref := by
    cases value <;> simp [Value.isPair] at hpair ⊢
  rw [writeValue]
  by_cases hpath : ref ∈ writing.path
  · rw [if_pos hpath, piecesAt_marked hpath]
    exact ⟨writing.path, fun _ => Iff.rfl, rfl⟩
  · obtain ⟨after, hafter, hlist⟩ := h ref [] (writing.put (.opening ref)) hpath
      (fun _ hmem => absurd hmem List.not_mem_nil) (Nat.le_of_succ_le_succ hbound)
    refine ⟨after, fun part => by rw [hafter]; simp [Writing.put], ?_⟩
    rw [if_neg hpath, hlist, piecesAt_fresh hpath]
    simp [Position.nest, Writing.put, partPieces]

/-- What is on the path when a list is closed: the pairs that were there before, without those of
the list. -/
theorem mem_closed {path after : Path} {ref : CellRef} {entered : List CellRef} (hpath : ref ∉ path)
    (hsame : after.Same (path.insert ref)) (part : CellRef) :
    part ∈ after ∧ part ∉ ref :: entered ↔ part ∈ path ∧ part ∉ entered := by
  rw [hsame, Path.mem_insert, List.mem_cons, not_or]
  constructor
  · rintro ⟨hpart, hne, hnot⟩
    exact ⟨hpart.resolve_left (Ne.symm hne), hnot⟩
  · rintro ⟨hpart, hnot⟩
    exact ⟨.inr hpart, fun heq => hpath (heq ▸ hpart), hnot⟩

theorem writesLists_succ {bound : Nat} (hvalues : store.WritesValues bound)
    (hlists : store.WritesLists bound) : store.WritesLists (bound + 1) := by
  intro ref entered writing hpath hentered hbound
  -- After the first part the path is as it was when the pair had been entered.
  have hcalls := callsFor_part store hpath (.inl rfl)
  obtain ⟨path, hsame, hcar⟩ : ∃ path : Path, path.Same (writing.path.insert ref) ∧
      store.writeValue bound (store.car ref) (writing.enter ref) =
        some ⟨(store.piecesAt (writing.path.insert ref) .element (store.car ref)).reverse
          ++ writing.pieces, path⟩ :=
    hvalues (store.car ref) (writing.enter ref)
      (Nat.le_of_lt_succ (Nat.lt_of_lt_of_le hcalls hbound))
  have hclosed : ∀ part, part ∈ (ref :: entered).foldl (fun path ref => path.erase ref) path ↔
      part ∈ writing.path ∧ part ∉ entered :=
    fun part => Path.mem_foldl_erase.trans (mem_closed hpath hsame part)
  rw [partPieces]
  rcases (store.cdr ref).isNil_or_isPair_or_isLast with hcdr | ⟨next, hcdr⟩ | ⟨hpair, hnil⟩
  · rw [hcdr, piecesAt_nil]
    refine ⟨_, hclosed, ?_⟩
    simp [writeList, hcar, hcdr, Position.nilPieces, Writing.close, Writing.put]
  · by_cases hmet : next ∈ path
    · rw [hcdr, piecesAt_marked ((hsame next).1 hmet)]
      refine ⟨_, hclosed, ?_⟩
      simp [writeList, hcar, hcdr, hmet, Position.leaf, Writing.close, Writing.put]
    · -- The rest of the list is written on a path that holds the same pairs.
      have hroom : 2 * store.unvisited path + 2 ≤ bound := by
        have hcalls := callsFor_part store hpath (.inr hcdr.symm)
        rw [callsFor, ← unvisited_same hsame] at hcalls
        omega
      have hmem : ∀ part ∈ ref :: entered, part ∈ path := fun part hpart =>
        (hsame part).2 (Path.mem_insert.2 ((List.mem_cons.1 hpart).imp Eq.symm (hentered part)))
      obtain ⟨after, hafter, hlist⟩ := hlists next (ref :: entered)
        (Writing.put ⟨(store.piecesAt (writing.path.insert ref) .element (store.car ref)).reverse
          ++ writing.pieces, path⟩ (.gap next)) hmet hmem hroom
      have hparts : store.partPieces path next =
          store.partPieces (writing.path.insert ref) next := by
        rw [partPieces, piecesAt_same (hsame.insert next), piecesAt_same (hsame.insert next)]
        rfl
      refine ⟨after, fun part => (hafter part).trans (mem_closed hpath hsame part), ?_⟩
      simp only [Writing.put, hparts] at hlist
      rw [hcdr, piecesAt_fresh fun hmem => hmet ((hsame next).2 hmem)]
      simp [writeList, hcar, hcdr, hmet, Writing.put, hlist, Position.nest, partPieces]
  · rw [writeList_of_isLast hcar hpair hnil,
      writeValue_of_not_isPair hpair (show 1 ≤ bound by omega), piecesAt_atom hpair hnil]
    refine ⟨_, hclosed, ?_⟩
    simp [Position.leaf, Writing.close, Writing.put]

/-- **What the printer writes.** -/
theorem writesValues_and_writesLists (store : Store) (bound : Nat) :
    store.WritesValues bound ∧ store.WritesLists bound := by
  induction bound with
  | zero =>
      refine ⟨fun value writing hbound => ?_, fun ref entered writing _ _ hbound => ?_⟩
      · cases value <;> simp [callsFor] at hbound
      · omega
  | succ bound ih => exact ⟨ih.2.writesValues, writesLists_succ ih.1 ih.2⟩

/-- **Writing a value** takes no more calls than `writeBound`, on whatever path, and restores the
path. -/
theorem writeValue_eq (store : Store) (value : Value) (writing : Writing) {bound : Nat}
    (hbound : store.writeBound ≤ bound) :
    ∃ after : Path, after.Same writing.path ∧
      store.writeValue bound value writing =
        some ⟨(store.piecesAt writing.path .element value).reverse ++ writing.pieces, after⟩ := by
  refine (writesValues_and_writesLists store bound).1 value writing (Nat.le_trans ?_ hbound)
  have hle := store.unvisited_le writing.path
  cases value <;> simp only [callsFor, writeBound] <;> omega

theorem written_eq (store : Store) (value : Value) :
    store.written value = store.piecesAt ∅ .element value := by
  obtain ⟨after, -, hwrite⟩ := writeValue_eq store value {} (Nat.le_refl _)
  rw [written, hwrite]
  simp

theorem print_eq (store : Store) (value : Value) :
    store.print value = Piece.join (store.piecesAt ∅ .element value) := by
  rw [print, written_eq]

end Store

end SmallLisp
