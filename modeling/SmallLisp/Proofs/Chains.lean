import Mathlib.Data.Finset.Card
import Mathlib.Data.Nat.Find
import SmallLisp.Store.Elements
import SmallLisp.Proofs.Printing

/-!
# Chains of pairs

Following the second parts of pairs from a value ends in something that is no pair, or never ends.
A walk that keeps nothing but a marker tells these cases apart. On a chain that ends, the marker is
always farther from the end than the walk is, so it is never met and there is no false alarm. On a
chain that never ends some pair comes back, and from then on all pairs do at the same distance. The
marker is moved whenever the walk has gone twice as far as the last time, so in the end it is on the
circle and the distance to the next move is at least once around.

## Main results

* `Chain.length_le` — a chain of pairs that ends passes no more pairs than there are cells, and one.
* `exists_repeat` — one that never ends passes some pair twice before it has passed more
  pairs than there are cells.
* `Walk.along_counts`, `Walk.along_marker` — how far the walk is, where its marker stands, and when
  it is moved next, from step to step.
* `elements_of_chain`, `elements_of_endless` — what the walk finds out.
* `lists_are_told_apart` — every value is a proper list, ends in something else, or never ends, and
  is taken for what it is.
-/

namespace SmallLisp

namespace Store

/-! ### Chains that end -/

/-- Following the second parts of pairs from a value passes these first parts and ends in a value
that is no pair. -/
inductive Chain (store : Store) : Value → List Value → Value → Prop
  | stop {value : Value} : value.isPair = false → Chain store value [] value
  | link {ref : CellRef} {items : List Value} {last : Value} :
      Chain store (store.cdr ref) items last →
      Chain store (.pair ref) (store.car ref :: items) last

variable {store : Store} {value last last' : Value} {items items' : List Value}

theorem Chain.unique (h : store.Chain value items last) (h' : store.Chain value items' last') :
    items = items' ∧ last = last' := by
  induction h generalizing items' with
  | stop hvalue =>
      cases h' with
      | stop _ => exact ⟨rfl, rfl⟩
      | link _ => cases hvalue
  | link _ ih =>
      cases h' with
      | stop hvalue => cases hvalue
      | link hrest =>
          obtain ⟨rfl, rfl⟩ := ih hrest
          exact ⟨rfl, rfl⟩

/-- A chain of pairs that are all nearer to its end than those on the path passes none of these. -/
theorem Chain.length_le_unvisited (h : store.Chain value items last) {path : Path}
    (hpath : ∀ ref ∈ path, ∀ items' last', store.Chain (.pair ref) items' last' →
      items.length < items'.length) : items.length ≤ store.unvisited path + 1 := by
  induction h generalizing path with
  | stop _ => exact Nat.zero_le _
  | @link ref items last hrest ih =>
      have hchain := Chain.link hrest
      have hnot : ref ∉ path := fun hmem => Nat.lt_irrefl _ (hpath ref hmem _ _ hchain)
      rcases hcell : store.cell? ref with _ | cell
      · -- a place that was never handed out ends the chain
        rw [(parts_of_none hcell).2] at hrest
        cases hrest
        exact Nat.le_add_left 1 _
      · have hless := unvisited_insert_lt hcell hnot
        have hle : items.length ≤ store.unvisited (path.insert ref) + 1 := by
          refine ih fun other hother items' last' hother' => ?_
          rcases Path.mem_insert.1 hother with rfl | hmem
          · rw [← (hchain.unique hother').1]
            exact Nat.lt_succ_self _
          · exact Nat.lt_of_succ_lt (hpath other hmem items' last' hother')
        rw [List.length_cons]
        omega

/-- **A chain of pairs that ends is no longer than the store is large**, but for a place that was
never handed out. -/
theorem Chain.length_le (h : store.Chain value items last) :
    items.length ≤ store.cellCount + 1 := by
  have hle : items.length ≤ store.unvisited ∅ + 1 :=
    h.length_le_unvisited fun ref href => by simp at href
  exact Nat.le_trans hle (Nat.add_le_add_right (store.unvisited_le ∅) 1)

/-! ### Chains that never end -/

/-- From the value on, pair follows pair without end. -/
def Endless (store : Store) (value : Value) : Prop :=
  ∃ refs : Nat → CellRef, value = .pair (refs 0) ∧ ∀ n, store.cdr (refs n) = .pair (refs (n + 1))

theorem endless_of_not_chain (h : ¬∃ items last, store.Chain value items last) :
    store.Endless value := by
  have hpair : ∀ {value}, (¬∃ items last, store.Chain value items last) →
      ∃ ref : CellRef, value = .pair ref := by
    intro value hvalue
    cases value with
    | pair ref => exact ⟨ref, rfl⟩
    | _ => exact absurd ⟨_, _, .stop rfl⟩ hvalue
  -- A pair from which the chain does not end is followed by another one.
  have hstep : ∀ first : { ref : CellRef // ¬∃ items last, store.Chain (.pair ref) items last },
      ∃ second : { ref : CellRef // ¬∃ items last, store.Chain (.pair ref) items last },
        store.cdr first.1 = .pair second.1 := by
    rintro ⟨ref, href⟩
    have hcdr : ¬∃ items last, store.Chain (store.cdr ref) items last := by
      rintro ⟨items, last, hchain⟩
      exact href ⟨_, last, .link hchain⟩
    obtain ⟨second, hsecond⟩ := hpair hcdr
    exact ⟨⟨second, hsecond ▸ hcdr⟩, hsecond⟩
  choose follow hfollow using hstep
  obtain ⟨first, rfl⟩ := hpair h
  refine ⟨fun n => (follow^[n] ⟨first, h⟩).1, rfl, fun n => ?_⟩
  show _ = Value.pair (follow^[n + 1] ⟨first, h⟩).1
  rw [Function.iterate_succ_apply']
  exact hfollow _

section

variable {refs : Nat → CellRef} (hnext : ∀ n, store.cdr (refs n) = .pair (refs (n + 1)))

include hnext

/-- **The first pair that comes back.** -/
theorem exists_repeat :
    ∃ before after, before < after ∧ after ≤ store.cellCount ∧ refs before = refs after := by
  have hmem : ∀ n, refs n ∈ store.cellRefs := by
    intro n
    rcases hcell : store.cell? (refs n) with _ | cell
    · -- a place that was never handed out has nothing behind it
      cases (parts_of_none hcell).2.symm.trans (hnext n)
    · exact mem_cellRefs hcell
  have hcard : store.cellRefs.toFinset.card < (Finset.range (store.cellCount + 1)).card := by
    have hle := List.toFinset_card_le store.cellRefs
    rw [length_cellRefs] at hle
    rw [Finset.card_range]
    omega
  obtain ⟨m, hm, n, hn, hne, heq⟩ := Finset.exists_ne_map_eq_of_card_lt_of_maps_to hcard
    (f := refs) fun n _ => List.mem_toFinset.2 (hmem n)
  rw [Finset.mem_range] at hm hn
  rcases Nat.lt_or_gt_of_ne hne with hlt | hlt
  · exact ⟨m, n, hlt, by omega, heq⟩
  · exact ⟨n, m, hlt, by omega, heq.symm⟩

/-- Behind a pair that has come back all others do. -/
theorem refs_add_eq {before after : Nat} (hrepeat : refs before = refs after) (n : Nat) :
    refs (before + n) = refs (after + n) := by
  induction n with
  | zero => exact hrepeat
  | succ n ih => exact Value.pair.inj ((hnext _).symm.trans (ih ▸ hnext _))

end

end Store

/-! ### The walk -/

namespace Walk

/-- Passing a pair moves the marker up to it, or leaves the marker where it is. -/
theorem pass_cases (walk : Walk) (ref : CellRef) (item : Value) :
    (walk.steps + 1 = walk.limit ∧ (walk.pass ref item).steps = 0 ∧
        (walk.pass ref item).limit = 2 * walk.limit ∧ (walk.pass ref item).marker = some ref) ∨
      (walk.steps + 1 ≠ walk.limit ∧ (walk.pass ref item).steps = walk.steps + 1 ∧
        (walk.pass ref item).limit = walk.limit ∧ (walk.pass ref item).marker = walk.marker) := by
  by_cases hmove : walk.steps + 1 = walk.limit
  · exact .inl ⟨hmove, by simp [pass, hmove]⟩
  · exact .inr ⟨hmove, by simp [pass, hmove]⟩

theorem found_pass (walk : Walk) (ref : CellRef) (item : Value) :
    (walk.pass ref item).found = item :: walk.found := by
  rw [pass]
  split <;> rfl

/-- The walk behind the first `n` pairs of an endless chain. -/
def along (store : Store) (refs : Nat → CellRef) : Nat → Walk
  | 0 => {}
  | n + 1 => (along store refs n).pass (refs n) (store.car (refs n))

variable (store : Store) (refs : Nat → CellRef)

/-- The marker was moved last when the walk was half as far as it is when it is moved next. -/
theorem along_counts (n : Nat) :
    (along store refs n).limit + (along store refs n).steps = n + 2 ∧
      (along store refs n).steps < (along store refs n).limit := by
  induction n with
  | zero => exact ⟨rfl, Nat.zero_lt_two⟩
  | succ n ih =>
      rw [along]
      rcases pass_cases (along store refs n) (refs n) (store.car (refs n)) with
        ⟨_, hsteps, hlimit, -⟩ | ⟨_, hsteps, hlimit, -⟩ <;> rw [hsteps, hlimit] <;> omega

/-- From one step to a later one, the distance of the moves is the same or has at least doubled. -/
theorem along_limit {m n : Nat} (h : m ≤ n) :
    (along store refs n).limit = (along store refs m).limit ∨
      2 * (along store refs m).limit ≤ (along store refs n).limit := by
  induction n, h using Nat.le_induction with
  | base => exact .inl rfl
  | succ n _ ih =>
      rw [along]
      rcases pass_cases (along store refs n) (refs n) (store.car (refs n)) with
        ⟨_, -, hlimit, -⟩ | ⟨_, -, hlimit, -⟩ <;> rw [hlimit] <;> omega

/-- The marker stands where it was moved to last. -/
theorem along_marker {n : Nat} (h : 2 < (along store refs n).limit) :
    (along store refs n).marker = some (refs ((along store refs n).limit - 3)) := by
  induction n with
  | zero => cases h.ne rfl
  | succ n ih =>
      obtain ⟨hsum, -⟩ := along_counts store refs n
      rw [along] at h ⊢
      rcases pass_cases (along store refs n) (refs n) (store.car (refs n)) with
        ⟨hmove, -, hlimit, hmarker⟩ | ⟨_, -, hlimit, hmarker⟩
      · rw [hmarker, hlimit]
        congr 2
        omega
      · rw [hlimit] at h
        rw [hmarker, hlimit]
        exact ih h

/-- Between two moves of the marker the distance is that of the first one. -/
theorem along_limit_eq {m n : Nat} (hlow : (along store refs m).limit ≤ n + 2)
    (hhigh : n + 2 < 2 * (along store refs m).limit) :
    (along store refs n).limit = (along store refs m).limit := by
  have hm := along_counts store refs m
  have hn := along_counts store refs n
  rcases Nat.le_total m n with hle | hle
  · have := along_limit store refs hle
    omega
  · have := along_limit store refs hle
    omega

variable {store refs} (hnext : ∀ n, store.cdr (refs n) = .pair (refs (n + 1)))

include hnext

/-- **The marker is met.** Behind twice as many pairs as there are cells, the marker is on the
circle and the next move is farther away than once around. -/
theorem exists_marker_eq :
    ∃ n, n < store.walkBound ∧ (along store refs n).marker = some (refs n) := by
  obtain ⟨before, after, hlt, hle, hrepeat⟩ := Store.exists_repeat hnext
  obtain ⟨hsum, hsteps⟩ := along_counts store refs (2 * store.cellCount + 4)
  set limit := (along store refs (2 * store.cellCount + 4)).limit with hlimit
  -- once around from the marker
  have hsame : (along store refs (limit - 3 + (after - before))).limit = limit :=
    along_limit_eq store refs (by omega) (by omega)
  refine ⟨limit - 3 + (after - before), by rw [Store.walkBound]; omega, ?_⟩
  rw [along_marker store refs (by omega), hsame]
  have hback := Store.refs_add_eq hnext hrepeat (limit - 3 - before)
  rw [show before + (limit - 3 - before) = limit - 3 by omega,
    show after + (limit - 3 - before) = limit - 3 + (after - before) by omega] at hback
  rw [hback]

/-- As long as its marker is not met, a walk goes on. -/
theorem elementsWithin_along {n : Nat}
    (hunmet : ∀ m < n, (along store refs m).marker ≠ some (refs m)) (bound : Nat) :
    store.elementsWithin (bound + n) {} (.pair (refs 0)) =
      store.elementsWithin bound (along store refs n) (.pair (refs n)) := by
  induction n generalizing bound with
  | zero => rfl
  | succ n ih =>
      rw [show bound + (n + 1) = bound + 1 + n by omega,
        ih (fun m hm => hunmet m (Nat.lt_succ_of_lt hm)), Store.elementsWithin,
        if_neg (hunmet n (Nat.lt_succ_self n)), hnext n]
      rfl

end Walk

/-! ### What the walk finds out -/

namespace Store

variable {store : Store} {value last : Value} {items : List Value}

/-- What following a chain to its end gives. -/
def endOfChain (items : List Value) : Value → Except ListFault (List Value)
  | .nil => .ok items
  | last => .error (.endsIn last)

/-- **No false alarm.** A walk along a chain that ends comes to its end, if the marker is farther
from the end. -/
theorem elementsWithin_of_chain (h : store.Chain value items last) {bound : Nat}
    (hbound : items.length ≤ bound) {walk : Walk}
    (hmarker : ∀ ref, walk.marker = some ref →
      ∃ more last', store.Chain (.pair ref) more last' ∧ items.length < more.length) :
    store.elementsWithin bound walk value =
      some (endOfChain (walk.found.reverse ++ items) last) := by
  induction h generalizing bound walk with
  | @stop value hvalue =>
      rw [List.append_nil]
      cases value with
      | pair ref => cases hvalue
      | _ => cases bound <;> rfl
  | @link ref items last hrest ih =>
      obtain ⟨bound, rfl⟩ : ∃ below, bound = below + 1 :=
        ⟨bound - 1, by rw [List.length_cons] at hbound; omega⟩
      have hchain := Chain.link hrest
      have hunmet : walk.marker ≠ some ref := by
        intro hmet
        obtain ⟨more, last', hmore, hlonger⟩ := hmarker ref hmet
        rw [(hchain.unique hmore).1] at hlonger
        exact Nat.lt_irrefl _ hlonger
      rw [elementsWithin, if_neg hunmet, ih (Nat.le_of_succ_le_succ hbound), Walk.found_pass,
        List.reverse_cons, List.append_assoc]
      · rfl
      · intro marked hmarked
        rcases walk.pass_cases ref (store.car ref) with ⟨-, -, -, hmoved⟩ | ⟨-, -, -, hstays⟩
        · obtain rfl := Option.some.inj (hmoved.symm.trans hmarked)
          exact ⟨_, _, hchain, Nat.lt_succ_self _⟩
        · obtain ⟨more, last', hmore, hlonger⟩ := hmarker marked (hstays ▸ hmarked)
          exact ⟨more, last', hmore, Nat.lt_of_succ_lt hlonger⟩

theorem elementsWithin_eq_of_chain (h : store.Chain value items last) {bound : Nat}
    (hbound : store.walkBound ≤ bound) :
    store.elementsWithin bound {} value = some (endOfChain items last) := by
  have hlength := h.length_le
  rw [walkBound] at hbound
  rw [elementsWithin_of_chain h (by omega) fun ref href => by cases href]
  rfl

/-- **No circle is missed.** -/
theorem elementsWithin_eq_of_endless (h : store.Endless value) {bound : Nat}
    (hbound : store.walkBound ≤ bound) :
    store.elementsWithin bound {} value = some (.error .circular) := by
  classical
  obtain ⟨refs, rfl, hnext⟩ := h
  have hmeets : ∃ n, (Walk.along store refs n).marker = some (refs n) :=
    (Walk.exists_marker_eq hnext).imp fun _ => And.right
  have hfirst : Nat.find hmeets < store.walkBound := by
    obtain ⟨n, hn, hmet⟩ := Walk.exists_marker_eq hnext
    exact Nat.lt_of_le_of_lt (Nat.find_min' hmeets hmet) hn
  obtain ⟨more, rfl⟩ : ∃ more, bound = more + 1 + Nat.find hmeets :=
    ⟨bound - 1 - Nat.find hmeets, by omega⟩
  rw [Walk.elementsWithin_along hnext fun _ => Nat.find_min hmeets, elementsWithin,
    if_pos (Nat.find_spec hmeets)]

theorem elements_of_chain (h : store.Chain value items last) :
    store.elements value = endOfChain items last := by
  rw [elements, elementsWithin_eq_of_chain h (Nat.le_refl _)]
  rfl

theorem elements_of_endless (h : store.Endless value) :
    store.elements value = .error .circular := by
  rw [elements, elementsWithin_eq_of_endless h (Nat.le_refl _)]
  rfl

theorem elements_of_not_chain (h : ¬∃ items last, store.Chain value items last) :
    store.elements value = .error .circular :=
  elements_of_endless (endless_of_not_chain h)

/-- **The walk always ends**, with the answer that is given. -/
theorem elementsWithin_eq (store : Store) (value : Value) {bound : Nat}
    (hbound : store.walkBound ≤ bound) :
    store.elementsWithin bound {} value = some (store.elements value) := by
  by_cases hchain : ∃ items last, store.Chain value items last
  · obtain ⟨items, last, hchain⟩ := hchain
    rw [elementsWithin_eq_of_chain hchain hbound, elements_of_chain hchain]
  · have hendless := endless_of_not_chain hchain
    rw [elementsWithin_eq_of_endless hendless hbound, elements_of_endless hendless]

/-- The elements of a proper list are passed on the way to `NIL`. -/
theorem chain_of_elements (h : store.elements value = .ok items) :
    store.Chain value items .nil := by
  by_cases hchain : ∃ items last, store.Chain value items last
  · obtain ⟨found, last, hchain⟩ := hchain
    rw [elements_of_chain hchain] at h
    cases last with
    | nil => exact Except.ok.inj h ▸ hchain
    | _ => cases h
  · rw [elements_of_not_chain hchain] at h
    cases h

theorem chain_of_endsIn (h : store.elements value = .error (.endsIn last)) :
    ∃ items, store.Chain value items last := by
  by_cases hchain : ∃ items last, store.Chain value items last
  · obtain ⟨found, ending, hchain⟩ := hchain
    rw [elements_of_chain hchain] at h
    cases ending with
    | nil => cases h
    | _ => exact ⟨found, ListFault.endsIn.inj (Except.error.inj h) ▸ hchain⟩
  · rw [elements_of_not_chain hchain] at h
    cases h

theorem elements_eq_endsIn_iff :
    store.elements value = .error (.endsIn last) ↔
      last ≠ .nil ∧ ∃ items, store.Chain value items last := by
  constructor
  · intro h
    obtain ⟨items, hchain⟩ := chain_of_endsIn h
    refine ⟨?_, items, hchain⟩
    rintro rfl
    cases (elements_of_chain hchain).symm.trans h
  · rintro ⟨hlast, items, hchain⟩
    rw [elements_of_chain hchain]
    cases last with
    | nil => cases hlast rfl
    | _ => rfl

theorem elements_eq_circular_iff :
    store.elements value = .error .circular ↔ store.Endless value := by
  refine ⟨fun h => endless_of_not_chain ?_, elements_of_endless⟩
  rintro ⟨items, last, hchain⟩
  rw [elements_of_chain hchain] at h
  cases last <;> cases h

theorem elements_eq_ok_iff :
    store.elements value = .ok items ↔ store.Chain value items .nil :=
  ⟨chain_of_elements, elements_of_chain⟩

theorem properElements_eq_ok_iff :
    store.properElements value = .ok items ↔ store.elements value = .ok items := by
  rcases h : store.elements value with (_ | last) | found <;> simp [properElements, h]

theorem properElements_eq_improperList_iff {text : String} :
    store.properElements value = .error (.type (.improperList text)) ↔
      ∃ last, store.print last = text ∧ store.elements value = .error (.endsIn last) := by
  rcases h : store.elements value with (_ | last) | found <;> simp [properElements, h]

theorem properElements_eq_circularList_iff :
    store.properElements value = .error (.type .circularList) ↔
      store.elements value = .error .circular := by
  rcases h : store.elements value with (_ | last) | found <;> simp [properElements, h]

/-- **Lists are told apart.** In any store, be its pairs circular or not, the walk along the pairs
of a value ends, and that it might have gone farther makes no difference. The value is a list of
some items just if these are the first parts of its pairs and the last second part is `NIL`. It is
refused for what it ends in just if its pairs end in that, and it is not `NIL`; and it is refused
as circular just if pair follows pair without end. -/
theorem lists_are_told_apart (store : Store) (value : Value) :
    (∀ more, store.elementsWithin (store.walkBound + more) {} value =
      some (store.elements value)) ∧
    (∀ items, store.properElements value = .ok items ↔ store.Chain value items .nil) ∧
    (∀ last, store.elements value = .error (.endsIn last) ↔
      last ≠ .nil ∧ ∃ items, store.Chain value items last) ∧
    (∀ text, store.properElements value = .error (.type (.improperList text)) ↔
      ∃ last, store.print last = text ∧ last ≠ .nil ∧ ∃ items, store.Chain value items last) ∧
    (store.properElements value = .error (.type .circularList) ↔ store.Endless value) := by
  refine ⟨fun more => elementsWithin_eq store value (Nat.le_add_right _ more), fun items => ?_,
    fun _ => elements_eq_endsIn_iff, fun text => ?_, ?_⟩
  · rw [properElements_eq_ok_iff, elements_eq_ok_iff]
  · simp only [properElements_eq_improperList_iff, elements_eq_endsIn_iff]
  · rw [properElements_eq_circularList_iff, elements_eq_circular_iff]

end Store

end SmallLisp
