import SmallLisp.Proofs.Trees

/-!
# The datum that a value unfolds to

A value without callables and circles unfolds to a tree of constants, integers and symbols, a datum.
Its printed form is that of the datum, and two such values are structurally equal exactly when their
data are the same. The value made for a datum unfolds to it.

## Main results

* `Store.exists_denotes` — a value without callables or cycles in it unfolds to a datum.
* `Store.Denotes.print` — the printed form of a value is that of the datum it unfolds to.
* `Store.Denotes.equal?` — structural equality of values is equality of the data.
* `Store.denotes_ofDatum` — the value made for a datum unfolds to that datum.
-/

namespace SmallLisp

namespace Datum

/-- The symbol occurs in the datum. -/
def Mentions (name : Symbol) : Datum → Prop
  | symbol other => other = name
  | pair car cdr => car.Mentions name ∨ cdr.Mentions name
  | _ => False

/-- A datum as the tree of a value. -/
def tree : Datum → Tree
  | nil => .leaf .nil
  | t => .leaf .t
  | integer value => .leaf (.integer value)
  | symbol name => .leaf (.symbol name)
  | pair car cdr => .pair car.tree cdr.tree

theorem tree_inj {datum other : Datum} : datum.tree = other.tree ↔ datum = other := by
  constructor
  · intro h
    induction datum generalizing other with
    | pair car cdr ihcar ihcdr =>
        cases other with
        | pair car' cdr' =>
            obtain ⟨hcar, hcdr⟩ := Tree.pair.inj h
            rw [ihcar hcar, ihcdr hcdr]
        | _ => cases h
    | _ =>
        cases other <;> cases h
        rfl
  · rintro rfl
    rfl

theorem printAt_tree (store : Store) (datum : Datum) (position : Position) :
    datum.tree.printAt store position = datum.printAt position := by
  induction datum generalizing position with
  | pair car cdr ihcar ihcdr => rw [tree, Tree.printAt, ihcar, ihcdr, printAt]
  | nil => exact if_pos rfl
  | _ => exact if_neg (by simp)

end Datum

namespace Store

variable {store : Store}

/-- The value is a constant, an integer, a symbol, or a pair of the store. -/
def IsPlain (store : Store) : Value → Prop
  | .nil | .t | .integer _ | .symbol _ => True
  | .pair ref => (store.cell? ref).isSome
  | .closure _ | .expander _ | .builtin _ => False

/-! ### Unfolding -/

/-- The value unfolds to the datum. -/
inductive Denotes (store : Store) : Value → Datum → Prop
  | nil : Denotes store .nil .nil
  | t : Denotes store .t .t
  | integer (value : Int64) : Denotes store (.integer value) (.integer value)
  | symbol (name : Symbol) : Denotes store (.symbol name) (.symbol name)
  | pair {ref : CellRef} {cell : Cell} {car cdr : Datum} :
      store.cell? ref = some cell → Denotes store cell.car car → Denotes store cell.cdr cdr →
      Denotes store (.pair ref) (.pair car cdr)

theorem Denotes.unfolds {value : Value} {datum : Datum} (h : store.Denotes value datum) :
    store.Unfolds value datum.tree := by
  induction h with
  | pair hcell _ _ ihcar ihcdr => exact .pair (car_eq hcell ▸ ihcar) (cdr_eq hcell ▸ ihcdr)
  | _ => exact .leaf rfl

/-- Whatever is inside of a value that unfolds does so too. -/
theorem Denotes.inside {value part : Value} {datum : Datum} (h : store.Denotes value datum)
    (hinside : store.Inside value part) : ∃ inner, store.Denotes part inner := by
  induction hinside generalizing datum with
  | self => exact ⟨datum, h⟩
  | car _ ih =>
      cases h with
      | pair hcell hcar _ => exact ih (car_eq hcell ▸ hcar)
  | cdr _ ih =>
      cases h with
      | pair hcell _ hcdr => exact ih (cdr_eq hcell ▸ hcdr)

theorem Denotes.isPlain {value : Value} {datum : Datum} (h : store.Denotes value datum) :
    store.IsPlain value := by
  cases h with
  | pair hcell _ _ => exact Option.isSome_iff_exists.2 ⟨_, hcell⟩
  | _ => trivial

/-- The symbols inside of a value are those of its datum. -/
theorem Denotes.inside_symbol_iff {value : Value} {datum : Datum} (h : store.Denotes value datum)
    (name : Symbol) : store.Inside value (.symbol name) ↔ datum.Mentions name := by
  induction h with
  | pair hcell _ _ ihcar ihcdr =>
      rw [Datum.Mentions, ← ihcar, ← ihcdr, ← car_eq hcell, ← cdr_eq hcell]
      constructor
      · rintro (_ | hinside | hinside)
        · exact .inl hinside
        · exact .inr hinside
      · rintro (hinside | hinside)
        · exact .car hinside
        · exact .cdr hinside
  | symbol other =>
      constructor
      · rintro (_ | _ | _)
        rfl
      · rintro rfl
        exact .self _
  | _ => exact ⟨nofun, False.elim⟩

/-- A tree without callables is a datum. -/
theorem Unfolds.exists_denotes {value : Value} {tree : Tree} (h : store.Unfolds value tree)
    (hplain : ∀ part, store.Inside value part → store.IsPlain part) :
    ∃ datum, store.Denotes value datum := by
  induction h with
  | @leaf value hvalue =>
      have hself := hplain value (.self _)
      cases value with
      | nil => exact ⟨_, .nil⟩
      | t => exact ⟨_, .t⟩
      | integer value => exact ⟨_, .integer value⟩
      | symbol name => exact ⟨_, .symbol name⟩
      | pair _ => cases hvalue
      | closure _ => exact hself.elim
      | expander _ => exact hself.elim
      | builtin _ => exact hself.elim
  | pair _ _ ihcar ihcdr =>
      obtain ⟨cell, hcell⟩ := Option.isSome_iff_exists.1 (hplain _ (.self _))
      obtain ⟨car, hcar⟩ := ihcar fun part hinside => hplain part (.car hinside)
      obtain ⟨cdr, hcdr⟩ := ihcdr fun part hinside => hplain part (.cdr hinside)
      exact ⟨.pair car cdr, .pair hcell (car_eq hcell ▸ hcar) (cdr_eq hcell ▸ hcdr)⟩

/-- A value with nothing but plain values inside of it and no cycle unfolds to a datum. -/
theorem exists_denotes {value : Value}
    (hplain : ∀ part, store.Inside value part → store.IsPlain part)
    (hacyclic : ∀ ref, store.Inside value (.pair ref) → ¬store.OnCycle ref) :
    ∃ datum, store.Denotes value datum := by
  obtain ⟨tree, htree⟩ := Acyclic.exists_unfolds hacyclic
  exact htree.exists_denotes hplain

/-- **Printing.** The printed form of a value is that of the datum it unfolds to. -/
theorem Denotes.print {value : Value} {datum : Datum} (h : store.Denotes value datum) :
    store.print value = datum.print :=
  h.unfolds.print.trans (Datum.printAt_tree store datum .element)

/-- **Equality.** Two values that unfold are structurally equal exactly when their data are the
same; the comparison always has an answer. -/
theorem Denotes.equal? {left right : Value} {leftDatum rightDatum : Datum}
    (hleft : store.Denotes left leftDatum) (hright : store.Denotes right rightDatum) :
    store.equal? left right = some (decide (leftDatum = rightDatum)) := by
  rw [hleft.unfolds.equal? hright.unfolds, decide_eq_decide.2 Datum.tree_inj]

/-! ### Making values -/

/-- Every cell of the first store is in the second, with the same parts. -/
def CellsKept (store after : Store) : Prop :=
  ∀ ref cell, store.cell? ref = some cell → after.cell? ref = some cell

theorem Denotes.kept {after : Store} (hkept : store.CellsKept after) {value : Value}
    {datum : Datum} (h : store.Denotes value datum) : after.Denotes value datum := by
  induction h with
  | nil => exact .nil
  | t => exact .t
  | integer value => exact .integer value
  | symbol name => exact .symbol name
  | pair hcell _ _ ihcar ihcdr => exact .pair (hkept _ _ hcell) ihcar ihcdr

theorem size_cons (store : Store) (arena : Nat) (car cdr : Value) :
    (store.cons arena car cdr).2.arenas.size = store.arenas.size := by
  simp [Store.cons, modifyArena]

theorem cellsKept_cons (store : Store) (arena : Nat) (car cdr : Value) :
    store.CellsKept (store.cons arena car cdr).2 := by
  intro ref cell hcell
  obtain ⟨found, hfound, hcell⟩ := Option.bind_eq_some_iff.1 hcell
  obtain ⟨hindex, -⟩ := Array.getElem?_eq_some_iff.1 hcell
  simp only [Store.cons, modifyArena, cell?, Array.getElem?_modify, hfound]
  split
  · simp [Array.getElem?_push_lt hindex, ← hcell]
  · exact hcell

/-- A new pair is in the store, with its parts. -/
theorem cell?_cons {arena : Nat} (harena : arena < store.arenas.size) (first rest : Value) :
    ∃ ref, (store.cons arena first rest).1 = .pair ref ∧
      (store.cons arena first rest).2.cell? ref = some ⟨first, rest⟩ := by
  refine ⟨_, rfl, ?_⟩
  simp only [Store.cons, modifyArena, cell?, Array.getElem?_modify,
    Array.getElem?_eq_getElem harena]
  simp

theorem denotes_cons {arena : Nat} (harena : arena < store.arenas.size) {first rest : Value}
    {car cdr : Datum} (hcar : store.Denotes first car) (hcdr : store.Denotes rest cdr) :
    (store.cons arena first rest).2.Denotes (store.cons arena first rest).1 (.pair car cdr) := by
  have hkept := cellsKept_cons store arena first rest
  obtain ⟨ref, hvalue, hnew⟩ := cell?_cons harena first rest
  rw [hvalue]
  exact .pair hnew (hcar.kept hkept) (hcdr.kept hkept)

/-- **Making a datum.** The value made for a datum unfolds to it, and no older pair changes. -/
theorem denotes_ofDatum {arena : Nat} (harena : arena < store.arenas.size) (datum : Datum) :
    (store.ofDatum arena datum).2.Denotes (store.ofDatum arena datum).1 datum ∧
      store.CellsKept (store.ofDatum arena datum).2 ∧
      (store.ofDatum arena datum).2.arenas.size = store.arenas.size := by
  induction datum generalizing store with
  | nil => exact ⟨.nil, fun _ _ h => h, rfl⟩
  | t => exact ⟨.t, fun _ _ h => h, rfl⟩
  | integer value => exact ⟨.integer value, fun _ _ h => h, rfl⟩
  | symbol name => exact ⟨.symbol name, fun _ _ h => h, rfl⟩
  | pair car cdr ihcar ihcdr =>
      obtain ⟨hcdr, hkeptCdr, hsizeCdr⟩ := ihcdr harena
      obtain ⟨hcar, hkeptCar, hsizeCar⟩ := ihcar (hsizeCdr ▸ harena)
      simp only [Store.ofDatum]
      refine ⟨denotes_cons (by rwa [hsizeCar, hsizeCdr]) hcar (hcdr.kept hkeptCar), ?_, ?_⟩
      · intro ref cell hcell
        exact cellsKept_cons _ _ _ _ _ _ (hkeptCar _ _ (hkeptCdr _ _ hcell))
      · rw [size_cons, hsizeCar, hsizeCdr]

end Store

end SmallLisp
