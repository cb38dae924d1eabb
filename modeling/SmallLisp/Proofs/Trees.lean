import Mathlib.Data.List.ProdSigma
import SmallLisp.Store.Equality
import SmallLisp.Proofs.Printing

/-!
# The tree that a value unfolds to

Going on from the parts of a pair to their parts unfolds a value to a tree. What is met that is no
pair is a leaf. Of the pairs nothing is left but the shape, so the tree does not tell which of them
are shared. There is no tree if some pair on the way leads back to itself, and there is one
otherwise. The printer and the structural comparison never see more of a value than its tree: one
writes it down, and the other finds out whether two trees are the same. It may stop early at two
pairs that are one, since these have the same tree.

## Main results

* `Store.exists_unfolds_iff` — a value unfolds if there is no circle in it, and only then.
* `Store.Unfolds.unique` — a value has one tree.
* `Store.Unfolds.print` — the printed form of a value is that of its tree.
* `Store.Unfolds.equalWithin` — the comparison of two values decides whether their trees are the
  same.
* `Store.equality_is_of_trees` — what follows for structural equality.
* `Store.equalWithin_eq_equal?` — a comparison that has no answer within the bound has none at all.
-/

namespace SmallLisp

/-- Pairs of pairs down to values that are no pairs. -/
inductive Tree where
  | leaf (value : Value)
  | pair (car cdr : Tree)
  deriving DecidableEq

namespace Tree

/-- How many pairs may be entered one within the other. -/
def height : Tree → Nat
  | leaf _ => 0
  | pair car cdr => max car.height cdr.height + 1

/-- The printed form at a position. The store knows the names of callables. -/
def printAt (store : Store) (position : Position) : Tree → String
  | leaf value => if value = .nil then position.nil else position.atom (store.atomText value)
  | pair car cdr => position.list (car.printAt store .element ++ cdr.printAt store .remainder)

end Tree

namespace Store

variable {store : Store}

/-! ### What is inside a value -/

/-- The second pair is a part of the first. -/
def Child (store : Store) (ref part : CellRef) : Prop :=
  store.car ref = .pair part ∨ store.cdr ref = .pair part

/-- A walk from part to part leads from the pair back to itself. -/
def OnCycle (store : Store) (ref : CellRef) : Prop :=
  Relation.TransGen store.Child ref ref

/-- A walk from part to part leads from the first value to the second. -/
inductive Inside (store : Store) : Value → Value → Prop
  | self (value : Value) : Inside store value value
  | car {ref : CellRef} {part : Value} :
      Inside store (store.car ref) part → Inside store (.pair ref) part
  | cdr {ref : CellRef} {part : Value} :
      Inside store (store.cdr ref) part → Inside store (.pair ref) part

/-- No pair inside of the value leads back to itself. -/
def Acyclic (store : Store) (value : Value) : Prop :=
  ∀ ref, store.Inside value (.pair ref) → ¬store.OnCycle ref

/-- Walks that lead to a pair lead on to its parts. -/
theorem transGen_insert {path : Path} {ref : CellRef}
    (h : ∀ start ∈ path, Relation.TransGen store.Child start ref) {part : CellRef}
    (hpart : store.Child ref part) :
    ∀ start ∈ path.insert ref, Relation.TransGen store.Child start part := by
  intro start hmem
  rcases Path.mem_insert.1 hmem with rfl | hmem
  · exact .single hpart
  · exact .tail (h start hmem) hpart

/-! ### Unfolding -/

/-- The value unfolds to the tree. -/
inductive Unfolds (store : Store) : Value → Tree → Prop
  | leaf {value : Value} : value.isPair = false → Unfolds store value (.leaf value)
  | pair {ref : CellRef} {car cdr : Tree} :
      Unfolds store (store.car ref) car → Unfolds store (store.cdr ref) cdr →
      Unfolds store (.pair ref) (.pair car cdr)

theorem Unfolds.unique {value : Value} {tree other : Tree} (h : store.Unfolds value tree)
    (h' : store.Unfolds value other) : tree = other := by
  induction h generalizing other with
  | leaf hvalue =>
      cases h' with
      | leaf _ => rfl
      | pair _ _ => cases hvalue
  | pair _ _ ihcar ihcdr =>
      cases h' with
      | leaf hvalue => cases hvalue
      | pair hcar hcdr => rw [ihcar hcar, ihcdr hcdr]

theorem Unfolds.exists_pair {ref : CellRef} {tree : Tree} (h : store.Unfolds (.pair ref) tree) :
    ∃ car cdr, tree = .pair car cdr ∧ store.Unfolds (store.car ref) car ∧
      store.Unfolds (store.cdr ref) cdr := by
  cases h with
  | leaf hvalue => cases hvalue
  | pair hcar hcdr => exact ⟨_, _, rfl, hcar, hcdr⟩

/-- Whatever is inside of a value that unfolds does so too. -/
theorem Unfolds.inside {value part : Value} {tree : Tree} (h : store.Unfolds value tree)
    (hinside : store.Inside value part) : ∃ inner, store.Unfolds part inner := by
  induction hinside generalizing tree with
  | self => exact ⟨tree, h⟩
  | car _ ih =>
      obtain ⟨car, _, -, hcar, -⟩ := h.exists_pair
      exact ih hcar
  | cdr _ ih =>
      obtain ⟨_, cdr, -, -, hcdr⟩ := h.exists_pair
      exact ih hcdr

/-- A walk from pair to pair within a value that unfolds goes to lower and lower trees. -/
theorem Unfolds.walk {ref part : CellRef} {tree : Tree} (h : store.Unfolds (.pair ref) tree)
    (hwalk : Relation.TransGen store.Child ref part) :
    ∃ inner, store.Unfolds (.pair part) inner ∧ inner.height < tree.height := by
  have hstep : ∀ {ref part : CellRef} {tree : Tree}, store.Unfolds (.pair ref) tree →
      store.Child ref part →
      ∃ inner, store.Unfolds (.pair part) inner ∧ inner.height < tree.height := by
    rintro ref part tree h (heq | heq)
    all_goals
      obtain ⟨car, cdr, rfl, hcar, hcdr⟩ := h.exists_pair
      simp only [Tree.height]
    · exact ⟨car, heq ▸ hcar, by omega⟩
    · exact ⟨cdr, heq ▸ hcdr, by omega⟩
  induction hwalk with
  | single hchild => exact hstep h hchild
  | tail _ hchild ih =>
      obtain ⟨middle, hmiddle, hlower⟩ := ih
      obtain ⟨inner, hinner, hlower'⟩ := hstep hmiddle hchild
      exact ⟨inner, hinner, Nat.lt_trans hlower' hlower⟩

/-- There is no circle in a value that unfolds. -/
theorem Unfolds.acyclic {value : Value} {tree : Tree} (h : store.Unfolds value tree) :
    store.Acyclic value := by
  intro ref hinside hcycle
  obtain ⟨inner, hinner⟩ := h.inside hinside
  obtain ⟨again, hagain, hlower⟩ := hinner.walk hcycle
  obtain rfl := hagain.unique hinner
  exact Nat.lt_irrefl _ hlower

/-- **A value without circles unfolds.** -/
theorem Acyclic.exists_unfolds {value : Value} (h : store.Acyclic value) :
    ∃ tree, store.Unfolds value tree := by
  -- The path holds pairs from which a walk leads to the value, so the value is not on it.
  suffices hwalk : ∀ path : Path,
      (∀ ref, value = .pair ref → ∀ start ∈ path, Relation.TransGen store.Child start ref) →
      ∃ tree, store.Unfolds value tree from
    hwalk ∅ fun _ _ _ hmem => absurd hmem Std.TreeSet.not_mem_emptyc
  intro path
  induction path, value using store.path_induction with
  | atom path value hvalue => exact fun _ => ⟨_, .leaf hvalue⟩
  | marked path ref hmem => exact fun hpath => absurd (hpath ref rfl ref hmem) (h ref (.self _))
  | fresh path ref hfresh ihcar ihcdr =>
      intro hpath
      have hinsert : ∀ part, store.Child ref part →
          ∀ start ∈ path.insert ref, Relation.TransGen store.Child start part :=
        fun part => transGen_insert (hpath ref rfl)
      obtain ⟨car, hcar⟩ := ihcar (fun part hinside => h part (.car hinside))
        fun part heq => hinsert part (.inl heq)
      obtain ⟨cdr, hcdr⟩ := ihcdr (fun part hinside => h part (.cdr hinside))
        fun part heq => hinsert part (.inr heq)
      exact ⟨_, .pair hcar hcdr⟩

theorem exists_unfolds_iff {value : Value} :
    (∃ tree, store.Unfolds value tree) ↔ store.Acyclic value := by
  constructor
  · rintro ⟨tree, h⟩
    exact h.acyclic
  · exact Acyclic.exists_unfolds

/-! ### Paths -/

/-- The pairs on the path that unfold do so to higher trees than this one. -/
def Overtops (store : Store) (path : Path) (tree : Tree) : Prop :=
  ∀ ref ∈ path, ∀ outer, store.Unfolds (.pair ref) outer → tree.height < outer.height

theorem overtops_empty (tree : Tree) : store.Overtops ∅ tree :=
  fun _ hmem => absurd hmem Std.TreeSet.not_mem_emptyc

/-- A pair is not below itself. -/
theorem Overtops.not_mem {path : Path} {ref : CellRef} {tree : Tree} (h : store.Overtops path tree)
    (htree : store.Unfolds (.pair ref) tree) : ref ∉ path :=
  fun hmem => Nat.lt_irrefl _ (h ref hmem tree htree)

/-- On entering a pair its parts are below the path that it is now on. -/
theorem Overtops.insert {path : Path} {ref : CellRef} {car cdr : Tree}
    (h : store.Overtops path (.pair car cdr)) (htree : store.Unfolds (.pair ref) (.pair car cdr)) :
    store.Overtops (path.insert ref) car ∧ store.Overtops (path.insert ref) cdr := by
  have hle : ∀ other ∈ path.insert ref, ∀ outer, store.Unfolds (.pair other) outer →
      (Tree.pair car cdr).height ≤ outer.height := by
    intro other hmem outer houter
    rcases Path.mem_insert.1 hmem with rfl | hmem
    · exact Nat.le_of_eq (congrArg Tree.height (htree.unique houter))
    · exact Nat.le_of_lt (h other hmem outer houter)
  simp only [Tree.height] at hle
  constructor
  · intro other hmem outer houter
    have := hle other hmem outer houter
    omega
  · intro other hmem outer houter
    have := hle other hmem outer houter
    omega

/-- A tree is no higher than the number of pairs that are left to enter, and one for a place that
was never handed out. -/
theorem Unfolds.height_le_unvisited {value : Value} {tree : Tree} (h : store.Unfolds value tree)
    {path : Path} (hpath : store.Overtops path tree) :
    tree.height ≤ store.unvisited path + 1 := by
  induction h generalizing path with
  | leaf _ => exact Nat.zero_le _
  | @pair ref car cdr hcar hcdr ihcar ihcdr =>
      obtain ⟨hpathCar, hpathCdr⟩ := hpath.insert (.pair hcar hcdr)
      rcases hcell : store.cell? ref with _ | cell
      · obtain ⟨hnilCar, hnilCdr⟩ := parts_of_none hcell
        rw [hnilCar] at hcar
        rw [hnilCdr] at hcdr
        cases hcar
        cases hcdr
        exact Nat.le_add_left 1 _
      · have hless := unvisited_insert_lt hcell (hpath.not_mem (.pair hcar hcdr))
        have hleCar := ihcar hpathCar
        have hleCdr := ihcdr hpathCdr
        simp only [Tree.height]
        omega

theorem Unfolds.height_le {value : Value} {tree : Tree} (h : store.Unfolds value tree) :
    tree.height ≤ store.cellCount + 1 :=
  Nat.le_trans (h.height_le_unvisited (overtops_empty tree))
    (Nat.add_le_add_right (store.unvisited_le ∅) 1)

/-! ### The printed form -/

/-- What is written for a value while higher ones are being written. No pair of it is marked. -/
theorem Unfolds.join_piecesAt {value : Value} {tree : Tree} (h : store.Unfolds value tree)
    {path : Path} (hpath : store.Overtops path tree) (position : Position) :
    Piece.join (store.piecesAt path position value) = tree.printAt store position := by
  induction h generalizing path position with
  | @leaf value hvalue =>
      rw [Tree.printAt]
      by_cases hnil : value = .nil
      · rw [if_pos hnil, hnil, piecesAt_nil, Piece.join_nilPieces]
      · rw [if_neg hnil, piecesAt_atom hvalue hnil, Piece.join_leaf]
        rfl
  | pair hcar hcdr ihcar ihcdr =>
      obtain ⟨hpathCar, hpathCdr⟩ := hpath.insert (.pair hcar hcdr)
      rw [piecesAt_fresh (hpath.not_mem (.pair hcar hcdr)), Piece.join_nest, Piece.join_append,
        ihcar hpathCar, ihcdr hpathCdr, Tree.printAt]

/-- **Printing.** The printed form of a value is that of its tree. -/
theorem Unfolds.print {value : Value} {tree : Tree} (h : store.Unfolds value tree) :
    store.print value = tree.printAt store .element := by
  rw [print_eq]
  exact h.join_piecesAt (overtops_empty tree) .element

/-! ### Structural equality -/

/-- What is not a pair is structurally equal to itself only. -/
theorem equalWithin_of_not_isPair {left : Value} (h : left.isPair = false) (bound : Nat)
    (right : Value) : store.equalWithin bound left right = some (decide (left = right)) := by
  by_cases hsame : left = right
  · cases bound <;> simp [Store.equalWithin, hsame]
  · cases bound <;> cases left <;> simp_all [Store.equalWithin, Value.isPair]

/-- **Comparing.** Whoever goes down far enough for the first value finds out whether the trees are
the same. -/
theorem Unfolds.equalWithin {left right : Value} {tree other : Tree}
    (hleft : store.Unfolds left tree) (hright : store.Unfolds right other) {bound : Nat}
    (hbound : tree.height ≤ bound) :
    store.equalWithin bound left right = some (decide (tree = other)) := by
  induction hleft generalizing right other bound with
  | @leaf value hvalue =>
      rw [equalWithin_of_not_isPair hvalue]
      cases hright with
      | leaf _ => simp
      | @pair ref _ _ _ _ =>
          have hne : value ≠ .pair ref := by
            rintro rfl
            cases hvalue
          simp [hne]
  | @pair ref car cdr hcar hcdr ihcar ihcdr =>
      simp only [Tree.height] at hbound
      obtain ⟨below, rfl⟩ : ∃ below, bound = below + 1 := ⟨bound - 1, by omega⟩
      cases hright with
      | leaf hvalue => cases right <;> simp_all [Store.equalWithin, Value.isPair]
      | @pair ref' car' cdr' hcar' hcdr' =>
          rw [Store.equalWithin]
          by_cases hsame : ref = ref'
          · -- one pair has one tree, so the comparison may stop here
            subst hsame
            simp [(Unfolds.pair hcar hcdr).unique (.pair hcar' hcdr')]
          · simp only [Value.pair.injEq, hsame, ↓reduceIte]
            rw [ihcar hcar' (by omega), ihcdr hcdr' (by omega)]
            by_cases hfirst : car = car' <;> simp [hfirst]

/-- A descent through as many pairs as `equal?` allows is far enough. -/
theorem Unfolds.equal? {left right : Value} {tree other : Tree} (hleft : store.Unfolds left tree)
    (hright : store.Unfolds right other) :
    store.equal? left right = some (decide (tree = other)) := by
  refine hleft.equalWithin hright (Nat.le_trans hleft.height_le ?_)
  calc store.cellCount + 1 ≤ store.cellCount + 2 := Nat.le_succ _
    _ ≤ (store.cellCount + 2) * (store.cellCount + 2) := Nat.le_mul_of_pos_right _ (by omega)

theorem Acyclic.equal?_eq_true_iff {left right : Value} (hleft : store.Acyclic left)
    (hright : store.Acyclic right) : store.equal? left right = some true ↔
      ∃ tree, store.Unfolds left tree ∧ store.Unfolds right tree := by
  obtain ⟨tree, htree⟩ := hleft.exists_unfolds
  obtain ⟨other, hother⟩ := hright.exists_unfolds
  rw [htree.equal? hother, Option.some.injEq, decide_eq_true_eq]
  constructor
  · rintro rfl
    exact ⟨tree, htree, hother⟩
  · rintro ⟨common, hcommon, hcommon'⟩
    rw [htree.unique hcommon, hother.unique hcommon']

/-- **Structural equality is equality of trees.** In any store, the values without circles are those
that unfold to a tree, each to one only. Two of them are compared with a definite answer, and it is
the same however much further the comparison is allowed to go down: they are equal just if their
trees are the same, with identical leaves. So on values without circles equality is an
equivalence, identical values are equal, and equal values have the same printed form. -/
theorem equality_is_of_trees (store : Store) :
    (∀ value, (∃ tree, store.Unfolds value tree) ↔ store.Acyclic value) ∧
    (∀ value tree other, store.Unfolds value tree → store.Unfolds value other → tree = other) ∧
    (∀ left right tree other, store.Unfolds left tree → store.Unfolds right other →
      store.equal? left right = some (decide (tree = other)) ∧
      ∀ more, store.equalWithin (tree.height + more) left right = some (decide (tree = other))) ∧
    (∀ value, store.Acyclic value → store.equal? value value = some true) ∧
    (∀ left right, store.Acyclic left → store.Acyclic right →
      store.equal? left right = store.equal? right left) ∧
    (∀ first second third, store.Acyclic first → store.Acyclic second → store.Acyclic third →
      store.equal? first second = some true → store.equal? second third = some true →
      store.equal? first third = some true) ∧
    (∀ left right, store.Acyclic left → left = right → store.equal? left right = some true) ∧
    ∀ left right, store.Acyclic left → store.Acyclic right →
      store.equal? left right = some true → store.print left = store.print right := by
  have hrefl : ∀ value, store.Acyclic value → store.equal? value value = some true := by
    intro value hvalue
    obtain ⟨tree, htree⟩ := hvalue.exists_unfolds
    rw [htree.equal? htree, decide_eq_true rfl]
  refine ⟨fun value => exists_unfolds_iff, fun value tree other => Unfolds.unique,
    fun left right tree other hleft hright => ?_, hrefl, fun left right hleft hright => ?_,
    fun first second third hfirst hsecond hthird h h' => ?_,
    fun left right hleft heq => heq ▸ hrefl left hleft, fun left right hleft hright h => ?_⟩
  · exact ⟨hleft.equal? hright, fun more => hleft.equalWithin hright (Nat.le_add_right _ _)⟩
  · obtain ⟨tree, htree⟩ := hleft.exists_unfolds
    obtain ⟨other, hother⟩ := hright.exists_unfolds
    rw [htree.equal? hother, hother.equal? htree, decide_eq_decide.2 eq_comm]
  · obtain ⟨tree, htree, hmiddle⟩ := (hfirst.equal?_eq_true_iff hsecond).1 h
    obtain ⟨tree', hmiddle', htree'⟩ := (hsecond.equal?_eq_true_iff hthird).1 h'
    obtain rfl := hmiddle.unique hmiddle'
    exact (hfirst.equal?_eq_true_iff hthird).2 ⟨tree, htree, htree'⟩
  · obtain ⟨tree, htree, htree'⟩ := (hleft.equal?_eq_true_iff hright).1 h
    rw [htree.print, htree'.print]

/-- One list has the same pair twice where another one has two pairs, and they are equal. Two lists
of one closure each are not, although the closures cannot be told apart by their printed forms. -/
theorem equality_is_of_trees_not_sharing :
    let store : Store := { arenas := #[{ cells := #[
      ⟨.integer 7, .nil⟩, ⟨.pair ⟨0, 0⟩, .pair ⟨0, 0⟩⟩, ⟨.integer 7, .nil⟩,
      ⟨.pair ⟨0, 0⟩, .pair ⟨0, 2⟩⟩, ⟨.closure ⟨0, 0⟩, .nil⟩, ⟨.closure ⟨0, 1⟩, .nil⟩] }] }
    store.Acyclic (.pair ⟨0, 1⟩) ∧ store.Acyclic (.pair ⟨0, 3⟩) ∧
    store.equal? (.pair ⟨0, 1⟩) (.pair ⟨0, 3⟩) = some true ∧
    store.print (.pair ⟨0, 1⟩) = store.print (.pair ⟨0, 3⟩) ∧
    store.equal? (.pair ⟨0, 4⟩) (.pair ⟨0, 5⟩) = some false ∧
    store.print (.pair ⟨0, 4⟩) = store.print (.pair ⟨0, 5⟩) := by
  intro store
  obtain ⟨-, -, hequal, -, -, -, -, hprint⟩ := equality_is_of_trees store
  have hlist : ∀ ref item, item.isPair = false → store.car ref = item → store.cdr ref = .nil →
      store.Unfolds (.pair ref) (.pair (.leaf item) (.leaf .nil)) := by
    intro ref item hitem hcar hcdr
    refine .pair ?_ ?_
    · rw [hcar]
      exact .leaf hitem
    · rw [hcdr]
      exact .leaf rfl
  have hshared := hlist ⟨0, 0⟩ (.integer 7) rfl rfl rfl
  have hleft : store.Unfolds (.pair ⟨0, 1⟩) _ := .pair hshared hshared
  have hright : store.Unfolds (.pair ⟨0, 3⟩) _ :=
    .pair hshared (hlist ⟨0, 2⟩ (.integer 7) rfl rfl rfl)
  have hfirst := hlist ⟨0, 4⟩ (.closure ⟨0, 0⟩) rfl rfl rfl
  have hsecond := hlist ⟨0, 5⟩ (.closure ⟨0, 1⟩) rfl rfl rfl
  have hsame := (hequal _ _ _ _ hleft hright).1.trans (congrArg some (decide_eq_true rfl))
  refine ⟨hleft.acyclic, hright.acyclic, hsame, hprint _ _ hleft.acyclic hright.acyclic hsame,
    (hequal _ _ _ _ hfirst hsecond).1.trans (congrArg some (by decide)), ?_⟩
  rw [hfirst.print, hsecond.print]
  rfl

/-! ### How far a comparison goes -/

/-- A comparison is decided at once, unless it is between two different pairs. -/
theorem equalWithin_cases (store : Store) (left right : Value) :
    (∃ answer, ∀ bound, store.equalWithin bound left right = some answer) ∨
      ∃ a b, a ≠ b ∧ left = .pair a ∧ right = .pair b := by
  by_cases hsame : left = right
  · refine .inl ⟨true, fun bound => ?_⟩
    cases bound <;> rw [Store.equalWithin.eq_def] <;> exact if_pos hsame
  · cases left with
    | pair a =>
        cases right with
        | pair b => exact .inr ⟨a, b, fun heq => hsame (congrArg Value.pair heq), rfl, rfl⟩
        | _ => exact .inl ⟨false, fun bound => by cases bound <;> rfl⟩
    | _ => exact .inl ⟨_, fun bound => equalWithin_of_not_isPair rfl bound right⟩

/-- Whether two different pairs are equal is decided by their first parts, or else by their second
parts. -/
theorem equalWithin_pairs {a b : CellRef} (hne : a ≠ b) (bound : Nat) :
    store.equalWithin (bound + 1) (.pair a) (.pair b) =
      (store.equalWithin bound (store.car a) (store.car b)).bind fun same =>
        if same then store.equalWithin bound (store.cdr a) (store.cdr b) else some false := by
  rw [Store.equalWithin, if_neg fun heq => hne (Value.pair.inj heq)]
  rcases store.equalWithin bound (store.car a) (store.car b) with _ | _ | _ <;> rfl

/-- A comparison that has an answer has it also if it may go further down. -/
theorem equalWithin_succ_of_some {bound : Nat} {left right : Value} {answer : Bool}
    (h : store.equalWithin bound left right = some answer) :
    store.equalWithin (bound + 1) left right = some answer := by
  induction bound generalizing left right answer with
  | zero =>
      rcases store.equalWithin_cases left right with ⟨answer', hanswer⟩ | ⟨a, b, hne, rfl, rfl⟩
      · rw [hanswer] at h ⊢
        exact h
      · rw [Store.equalWithin, if_neg fun heq => hne (Value.pair.inj heq)] at h
        cases h
  | succ bound ih =>
      rcases store.equalWithin_cases left right with ⟨answer', hanswer⟩ | ⟨a, b, hne, rfl, rfl⟩
      · rw [hanswer] at h ⊢
        exact h
      · rw [equalWithin_pairs hne] at h ⊢
        obtain ⟨same, hcar, hrest⟩ := Option.bind_eq_some_iff.1 h
        rw [ih hcar, Option.bind_some]
        cases same with
        | true => exact ih hrest
        | false => exact hrest

/-- If going down one step further decides no comparison more, going down any further does not
either. -/
theorem equalWithin_stays {bound : Nat}
    (h : ∀ left right, store.equalWithin (bound + 1) left right =
      store.equalWithin bound left right) (more : Nat) :
    ∀ left right, store.equalWithin (bound + more) left right =
      store.equalWithin bound left right := by
  induction more with
  | zero => exact fun _ _ => rfl
  | succ more ih =>
      intro left right
      rw [← h left right, Nat.add_succ]
      rcases store.equalWithin_cases left right with ⟨answer, hanswer⟩ | ⟨a, b, hne, rfl, rfl⟩
      · rw [hanswer, hanswer]
      · rw [equalWithin_pairs hne, equalWithin_pairs hne, ih, ih]

/-- How many comparisons between pairs of the store are undecided. -/
def undecided (store : Store) (bound : Nat) : Nat :=
  (store.cellRefs ×ˢ store.cellRefs).countP fun pair =>
    (store.equalWithin bound (.pair pair.1) (.pair pair.2)).isNone

theorem undecided_le (store : Store) (bound : Nat) :
    store.undecided bound ≤ store.cellCount * store.cellCount := by
  rw [← store.length_cellRefs, ← List.length_product]
  exact List.countP_le_length

/-- A pair that the store does not have is compared in one step. -/
theorem equalWithin_isSome_of_absent {a b : CellRef}
    (h : store.cell? a = none ∨ store.cell? b = none) (bound : Nat) :
    (store.equalWithin (bound + 1) (.pair a) (.pair b)).isSome = true := by
  rcases store.equalWithin_cases (.pair a) (.pair b) with ⟨answer, hanswer⟩ | ⟨_, _, hne, ha, hb⟩
  · rw [hanswer]
    rfl
  obtain rfl := Value.pair.inj ha
  obtain rfl := Value.pair.inj hb
  have hdecided : ∀ {left right : Value}, left = .nil ∨ right = .nil →
      ∃ answer, store.equalWithin bound left right = some answer := by
    intro left right hnil
    rcases store.equalWithin_cases left right with ⟨answer, hanswer⟩ | ⟨_, _, _, rfl, rfl⟩
    · exact ⟨answer, hanswer bound⟩
    · rcases hnil with hnil | hnil <;> cases hnil
  have hcar : store.car a = .nil ∨ store.car b = .nil :=
    h.imp (fun h => (parts_of_none h).1) fun h => (parts_of_none h).1
  have hcdr : store.cdr a = .nil ∨ store.cdr b = .nil :=
    h.imp (fun h => (parts_of_none h).2) fun h => (parts_of_none h).2
  obtain ⟨first, hfirst⟩ := hdecided hcar
  obtain ⟨second, hsecond⟩ := hdecided hcdr
  rw [equalWithin_pairs hne, hfirst, hsecond]
  cases first <;> rfl

/-- Unless all that can be decided is decided, one step further decides a comparison more. -/
theorem undecided_succ_lt {bound : Nat} {left right : Value}
    (h : store.equalWithin (bound + 2) left right ≠ store.equalWithin (bound + 1) left right) :
    store.undecided (bound + 2) < store.undecided (bound + 1) := by
  rcases store.equalWithin_cases left right with ⟨answer, hanswer⟩ | ⟨a, b, hne, rfl, rfl⟩
  · rw [hanswer, hanswer] at h
    exact absurd rfl h
  have hnone : store.equalWithin (bound + 1) (.pair a) (.pair b) = none := by
    refine Option.eq_none_iff_forall_ne_some.2 fun answer hanswer => h ?_
    rw [equalWithin_succ_of_some hanswer, hanswer]
  have hpresent : ¬(store.cell? a = none ∨ store.cell? b = none) := by
    intro habsent
    have hsome := equalWithin_isSome_of_absent habsent bound
    rw [hnone] at hsome
    cases hsome
  have hmem : (a, b) ∈ store.cellRefs ×ˢ store.cellRefs := by
    rw [not_or] at hpresent
    obtain ⟨cell, hcell⟩ := Option.ne_none_iff_exists'.1 hpresent.1
    obtain ⟨cell', hcell'⟩ := Option.ne_none_iff_exists'.1 hpresent.2
    exact List.mem_product.2 ⟨mem_cellRefs hcell, mem_cellRefs hcell'⟩
  refine countP_lt_countP (fun pair hpair => ?_) hmem ?_ ?_
  · cases hanswer : store.equalWithin (bound + 1) (.pair pair.1) (.pair pair.2) with
    | none => rfl
    | some answer =>
        rw [equalWithin_succ_of_some hanswer] at hpair
        cases hpair
  · rw [hnone, Option.isNone_none]
  · rw [hnone] at h
    exact Option.isNone_eq_false_iff.2 (Option.isSome_iff_ne_none.2 h)

/-- There are no more steps that decide a comparison more than there are pairs of pairs. -/
theorem exists_equalWithin_succ_eq (store : Store) :
    ∃ bound, bound ≤ store.cellCount * store.cellCount + 1 ∧
      ∀ left right, store.equalWithin (bound + 1) left right =
        store.equalWithin bound left right := by
  refine Classical.byContradiction fun hnone => ?_
  have hless : ∀ steps, steps ≤ store.cellCount * store.cellCount + 1 →
      store.undecided (steps + 1) + steps ≤ store.undecided 1 := by
    intro steps hsteps
    induction steps with
    | zero => exact Nat.le_refl _
    | succ steps ih =>
        have hdiffers : ∃ left right, store.equalWithin (steps + 2) left right ≠
            store.equalWithin (steps + 1) left right := by
          simp only [not_exists, not_and, not_forall] at hnone
          exact hnone (steps + 1) hsteps
        obtain ⟨left, right, hdiffers⟩ := hdiffers
        have hlt : store.undecided (steps + 1 + 1) < store.undecided (steps + 1) :=
          undecided_succ_lt hdiffers
        have hle := ih (by omega)
        omega
  have hmost := hless _ (Nat.le_refl _)
  have hfew := store.undecided_le 1
  omega

/-- **A comparison that has no answer within the bound has none at all.** However much further it
may go down, it has the answer that is given. -/
theorem equalWithin_eq_equal? (left right : Value) {bound : Nat}
    (hbound : (store.cellCount + 2) * (store.cellCount + 2) ≤ bound) :
    store.equalWithin bound left right = store.equal? left right := by
  obtain ⟨enough, hle, hstays⟩ := store.exists_equalWithin_succ_eq
  have hsquare : store.cellCount * store.cellCount + 1 ≤
      (store.cellCount + 2) * (store.cellCount + 2) := by
    rw [Nat.add_mul, Nat.mul_add]
    omega
  have hlater : ∀ later, enough ≤ later →
      store.equalWithin later left right = store.equalWithin enough left right := by
    intro later hlater
    obtain ⟨more, rfl⟩ := Nat.exists_eq_add_of_le hlater
    exact equalWithin_stays hstays more left right
  rw [Store.equal?, hlater _ (Nat.le_trans hle hsquare),
    hlater _ (Nat.le_trans (Nat.le_trans hle hsquare) hbound)]

end Store

end SmallLisp
