import SmallLisp.Params
import SmallLisp.Eval.Template
import SmallLisp.Proofs.Chains
import SmallLisp.Proofs.Unfolding

/-!
# Pairs made of older pairs

The parts of a pair are there before the pair is. Unless a pair is changed in place, each pair of
an arena therefore refers only to pairs of that arena with smaller indices. An arena of which
this holds, and whose lambdas and frames refer to nothing outside of it, is *layered*. There is
no way to walk from part to part for ever in it, and none to walk in a circle.

## Main results

* `Layered.listWithTail`, `Layered.ofData`, `Layered.bindArgs`, … — every change of the store
  that is made without mutation keeps an arena layered.
* `Layered.Holds.elements` — the elements of a list weigh less than the list.
* `Layered.onCycle_start` — no pair is on a cycle that was not on one at the start.
-/

namespace SmallLisp

/-- The value refers to nothing outside of an arena, and to none but the first `bound` pairs of
it. -/
def Value.Below (here bound : Nat) : Value → Prop
  | .pair ref => ref.arena = here ∧ ref.index < bound
  | .closure ref => ref.arena = here
  | .expander ref => ref.arena = here
  | _ => True

theorem Value.Below.mono {here bound bound' : Nat} {value : Value} (h : value.Below here bound)
    (hle : bound ≤ bound') : value.Below here bound' := by
  cases value with
  | pair ref => exact ⟨h.1, Nat.lt_of_lt_of_le h.2 hle⟩
  | _ => exact h

/-- The height of a value in a layered arena: one for the oldest pair, and zero for what is no
pair. -/
def Value.rank : Value → Nat
  | .pair ref => ref.index + 1
  | _ => 0

theorem Value.Below.rank_le {here bound : Nat} {value : Value} (h : value.Below here bound) :
    value.rank ≤ bound := by
  cases value with
  | pair ref => exact h.2
  | _ => exact Nat.zero_le bound

/-- What a value weighs. -/
def Value.weight (value : Value) : Nat :=
  Nat.pow 2 value.rank

theorem Value.weight_pos (value : Value) : 0 < value.weight :=
  Nat.two_pow_pos value.rank

/-- A pair outweighs its two parts together, since each is less than half of it. -/
theorem Value.two_mul_weight_le {part whole : Value} (h : part.rank < whole.rank) :
    2 * part.weight ≤ whole.weight := by
  have hstep : Nat.pow 2 (part.rank + 1) ≤ whole.weight := Nat.pow_le_pow_right (by decide) h
  rwa [Nat.mul_comm]

/-- What values weigh together. -/
def weight (values : List Value) : Nat :=
  values.foldr (fun value total => value.weight + total) 0

theorem weight_cons (value : Value) (rest : List Value) :
    weight (value :: rest) = value.weight + weight rest := rfl

theorem weight_append (left right : List Value) :
    weight (left ++ right) = weight left + weight right := by
  induction left with
  | nil => exact (Nat.zero_add _).symm
  | cons value left ih => rw [List.cons_append, weight_cons, weight_cons, ih, Nat.add_assoc]

/-- All references of the arena at index `here` are to itself, and those of its pairs are to
older pairs. -/
structure Arena.Settled (here : Nat) (arena : Arena) : Prop where
  cell {index : Nat} {cell : Cell} : arena.cells[index]? = some cell →
    cell.car.Below here index ∧ cell.cdr.Below here index
  lambda {index : Nat} {lambda : Lambda} : arena.lambdas[index]? = some lambda →
    lambda.scope.arena = here ∧ ∀ form ∈ lambda.body, form.Below here arena.cells.size
  frame {index : Nat} {frame : Frame} : arena.frames[index]? = some frame →
    (∀ ref ∈ frame.ancestors, ref.arena = here) ∧
      ∀ name value, frame.table.lookup name = some value → value.Below here arena.cells.size

namespace Arena.Settled

variable {here : Nat} {arena : Arena}

theorem push_cell (h : arena.Settled here) {car cdr : Value}
    (hcar : car.Below here arena.cells.size) (hcdr : cdr.Below here arena.cells.size) :
    Settled here { arena with cells := arena.cells.push ⟨car, cdr⟩ } where
  cell {index cell} hcell := by
    rw [Array.getElem?_push] at hcell
    split at hcell
    · next hindex =>
        obtain rfl := Option.some.inj hcell
        exact hindex ▸ ⟨hcar, hcdr⟩
    · exact h.cell hcell
  lambda hlambda := by
    obtain ⟨hscope, hbody⟩ := h.lambda hlambda
    exact ⟨hscope, fun form hform => (hbody form hform).mono (by simp)⟩
  frame hframe := by
    obtain ⟨hancestors, htable⟩ := h.frame hframe
    exact ⟨hancestors, fun name value hvalue => (htable name value hvalue).mono (by simp)⟩

theorem push_lambda (h : arena.Settled here) {lambda : Lambda} (hscope : lambda.scope.arena = here)
    (hbody : ∀ form ∈ lambda.body, form.Below here arena.cells.size) :
    Settled here { arena with lambdas := arena.lambdas.push lambda } where
  cell := h.cell
  lambda {index other} hother := by
    rw [Array.getElem?_push] at hother
    split at hother
    · obtain rfl := Option.some.inj hother
      exact ⟨hscope, hbody⟩
    · exact h.lambda hother
  frame := h.frame

theorem push_frame (h : arena.Settled here) {frame : Frame}
    (hancestors : ∀ ref ∈ frame.ancestors, ref.arena = here)
    (htable : ∀ name value, frame.table.lookup name = some value →
      value.Below here arena.cells.size) :
    Settled here { arena with frames := arena.frames.push frame } where
  cell := h.cell
  lambda := h.lambda
  frame {index other} hother := by
    rw [Array.getElem?_push] at hother
    split at hother
    · obtain rfl := Option.some.inj hother
      exact ⟨hancestors, htable⟩
    · exact h.frame hother

/-- The bindings of a frame may change, if they still refer to what is there. -/
theorem modifyTable (h : arena.Settled here) (index : Nat) (change : Table Value → Table Value)
    (hchange : ∀ table : Table Value,
      (∀ name value, table.lookup name = some value → value.Below here arena.cells.size) →
      ∀ name value, (change table).lookup name = some value →
        value.Below here arena.cells.size) :
    Settled here { arena with frames := arena.frames.modify index fun frame =>
      { frame with table := change frame.table } } where
  cell := h.cell
  lambda := h.lambda
  frame {other frame} hframe := by
    rw [Array.getElem?_modify] at hframe
    split at hframe
    · obtain ⟨old, hold, rfl⟩ := Option.map_eq_some_iff.1 hframe
      obtain ⟨hancestors, htable⟩ := h.frame hold
      exact ⟨hancestors, hchange old.table htable⟩
    · exact h.frame hframe

theorem insert (h : arena.Settled here) (index : Nat) (name : Symbol) {value : Value}
    (hvalue : value.Below here arena.cells.size) :
    Settled here { arena with frames := arena.frames.modify index fun frame =>
      { frame with table := frame.table.insert name value } } := by
  refine h.modifyTable index (·.insert name value) fun table htable key found hfound => ?_
  by_cases hkey : key = name
  · rw [hkey, Table.lookup_insert_self] at hfound
    exact Option.some.inj hfound ▸ hvalue
  · rw [Table.lookup_insert_of_ne hkey] at hfound
    exact htable key found hfound

theorem clear (h : arena.Settled here) (index : Nat) :
    Settled here { arena with frames := arena.frames.modify index fun frame =>
      { frame with table := .empty } } :=
  h.modifyTable index (fun _ => .empty) fun _ _ _ _ hfound => nomatch hfound

end Arena.Settled

/-- A store whose arena at index `here` is settled, and which is what it was at the start in all
other arenas. -/
structure Layered (start : Store) (here : Nat) where
  store : Store
  arena : Arena
  found : store.arenas[here]? = some arena
  settled : arena.Settled here
  elsewhere (index : Nat) : index ≠ here → store.arenas[index]? = start.arenas[index]?

namespace Layered

variable {start : Store} {here : Nat} (w : Layered start here)

/-- The value refers to nothing but what is in the arena. -/
def Holds (value : Value) : Prop :=
  value.Below here w.arena.cells.size

/-- Pairs may have been added. -/
def Grows (w w' : Layered start here) : Prop :=
  w.arena.cells.size ≤ w'.arena.cells.size

variable {w} in
theorem Holds.grows {w' : Layered start here} {value : Value} (h : w.Holds value)
    (hw : w.Grows w') : w'.Holds value :=
  h.mono hw

/-- A change of the store that keeps it layered has a result as stated. -/
def Yields {α : Type} (post : Layered start here → α → Prop) (result : α × Store) : Prop :=
  ∃ w', w.Grows w' ∧ w'.store = result.2 ∧ post w' result.1

/-! ### Looking at a layered store -/

theorem cell?_eq (index : Nat) : w.store.cell? ⟨here, index⟩ = w.arena.cells[index]? := by
  simp [Store.cell?, w.found]

theorem lambda?_eq (index : Nat) : w.store.lambda? ⟨here, index⟩ = w.arena.lambdas[index]? := by
  simp [Store.lambda?, w.found]

theorem frame?_eq (index : Nat) : w.store.frame? ⟨here, index⟩ = w.arena.frames[index]? := by
  simp [Store.frame?, w.found]

/-- Both parts of a pair are older than the pair. -/
theorem parts_below (index : Nat) : (w.store.car ⟨here, index⟩).Below here index ∧
    (w.store.cdr ⟨here, index⟩).Below here index := by
  simp only [Store.car, Store.cdr, Store.cell, w.cell?_eq]
  cases hcell : w.arena.cells[index]? with
  | none => exact ⟨trivial, trivial⟩
  | some cell => exact w.settled.cell hcell

variable {w}

theorem Holds.parts {ref : CellRef} (h : w.Holds (.pair ref)) :
    (w.Holds (w.store.car ref) ∧ (w.store.car ref).rank < (Value.pair ref).rank) ∧
      w.Holds (w.store.cdr ref) ∧ (w.store.cdr ref).rank < (Value.pair ref).rank := by
  obtain ⟨arena, index⟩ := ref
  obtain ⟨rfl, hlt⟩ := h
  obtain ⟨hcar, hcdr⟩ := w.parts_below index
  exact ⟨⟨hcar.mono (Nat.le_of_lt hlt), Nat.lt_succ_of_le hcar.rank_le⟩,
    hcdr.mono (Nat.le_of_lt hlt), Nat.lt_succ_of_le hcdr.rank_le⟩

theorem Holds.marked? {value inner : Value} {head : Symbol} (h : w.Holds value)
    (hinner : w.store.marked? head value = some inner) :
    w.Holds inner ∧ inner.rank < value.rank := by
  obtain ⟨ref, rest, rfl, -, hrest, -, rfl⟩ := Store.marked?_eq_some hinner
  obtain ⟨hcdr, hless⟩ := h.parts.2
  rw [hrest] at hcdr hless
  obtain ⟨hcar, hless'⟩ := hcdr.parts.1
  exact ⟨hcar, Nat.lt_trans hless' hless⟩

/-- The first parts along a chain are all there, and they weigh less than the chain. -/
theorem Holds.chain {value last : Value} {items : List Value} (h : w.Holds value)
    (hchain : w.store.Chain value items last) :
    (∀ item ∈ items, w.Holds item) ∧ weight items < value.weight := by
  induction hchain with
  | stop _ => exact ⟨by simp, Value.weight_pos _⟩
  | @link ref items last _ ih =>
      obtain ⟨⟨hcar, hfirst⟩, hcdr, hrest⟩ := h.parts
      obtain ⟨hitems, hweight⟩ := ih hcdr
      refine ⟨List.forall_mem_cons.2 ⟨hcar, hitems⟩, ?_⟩
      have hcar' := Value.two_mul_weight_le hfirst
      have hcdr' := Value.two_mul_weight_le hrest
      rw [weight_cons]
      omega

theorem Holds.elements {value : Value} {items : List Value} (h : w.Holds value)
    (hitems : w.store.elements value = .ok items) :
    (∀ item ∈ items, w.Holds item) ∧ weight items < value.weight :=
  h.chain (Store.chain_of_elements hitems)

variable (w)

theorem scope_here {frame ref : FrameRef} (hframe : frame.arena = here)
    (href : ref ∈ w.store.scope frame) : ref.arena = here := by
  obtain ⟨_, index⟩ := frame
  obtain rfl : _ = here := hframe
  rcases List.mem_cons.1 href with rfl | hancestor
  · rfl
  · simp only [Store.frame, w.frame?_eq] at hancestor
    cases hfound : w.arena.frames[index]? with
    | none => simp [hfound] at hancestor
    | some frame =>
        rw [hfound] at hancestor
        exact (w.settled.frame hfound).1 ref hancestor

theorem holds_of_lookup {frame : FrameRef} (hframe : frame.arena = here) {name : Symbol}
    {value : Value} (hvalue : w.store.lookup frame name = some value) : w.Holds value := by
  obtain ⟨⟨arena, index⟩, href, hfound⟩ := List.exists_of_findSome?_eq_some hvalue
  obtain rfl : arena = here := w.scope_here hframe href
  simp only [Store.table, Store.frame, w.frame?_eq] at hfound
  cases hentry : w.arena.frames[index]? with
  | none => simp [hentry, Table.lookup, Table.find] at hfound
  | some frame =>
      rw [hentry] at hfound
      exact (w.settled.frame hentry).2 name value hfound

theorem lambda_here {ref : LambdaRef} (href : ref.arena = here) :
    (w.store.lambda ref).scope.arena = here ∧
      ∀ form ∈ (w.store.lambda ref).body, w.Holds form := by
  obtain ⟨_, index⟩ := ref
  obtain rfl : _ = here := href
  simp only [Store.lambda, w.lambda?_eq]
  cases hfound : w.arena.lambdas[index]? with
  | none => exact ⟨rfl, fun form hform => absurd hform List.not_mem_nil⟩
  | some lambda => exact w.settled.lambda hfound

/-! ### Changing a layered store -/

/-- A change of the arena that keeps it settled. -/
def modify (change : Arena → Arena) (h : (change w.arena).Settled here) : Layered start here where
  store := w.store.modifyArena here change
  arena := change w.arena
  found := by simp [Store.modifyArena, Array.getElem?_modify, w.found]
  settled := h
  elsewhere index hindex := by
    simp only [Store.modifyArena, Array.getElem?_modify, if_neg hindex.symm]
    exact w.elsewhere index hindex

variable {w}

theorem cons {car cdr : Value} (hcar : w.Holds car) (hcdr : w.Holds cdr) :
    w.Yields Holds (w.store.cons here car cdr) := by
  let w' := w.modify (fun arena => { arena with cells := arena.cells.push ⟨car, cdr⟩ })
    (w.settled.push_cell hcar hcdr)
  have hsize : w'.arena.cells.size = w.arena.cells.size + 1 := Array.size_push _
  have hpair : (w.store.cons here car cdr).1 = .pair ⟨here, w.arena.cells.size⟩ := by
    simp [Store.cons, w.found]
  refine ⟨w', Nat.le_trans (Nat.le_succ _) (Nat.le_of_eq hsize.symm), rfl, ?_⟩
  rw [hpair]
  exact ⟨rfl, hsize ▸ Nat.lt_succ_self _⟩

theorem listWithTail {items : List Value} {tail : Value} (hitems : ∀ item ∈ items, w.Holds item)
    (htail : w.Holds tail) : w.Yields Holds (w.store.listWithTail here items tail) := by
  induction items with
  | nil => exact ⟨w, Nat.le_refl _, rfl, htail⟩
  | cons item rest ih =>
      obtain ⟨hitem, hrest⟩ := List.forall_mem_cons.1 hitems
      obtain ⟨w₁, hw₁, hstore, hlist⟩ := ih hrest
      obtain ⟨w₂, hw₂, hstore', hpair⟩ := cons (hitem.grows hw₁) hlist
      rw [hstore] at hstore' hpair
      exact ⟨w₂, Nat.le_trans hw₁ hw₂, hstore', hpair⟩

theorem ofDatum (w : Layered start here) (datum : Datum) :
    w.Yields Holds (w.store.ofDatum here datum) := by
  induction datum generalizing w with
  | pair car cdr ihcar ihcdr =>
      obtain ⟨w₁, hw₁, hstore₁, hrest⟩ := ihcdr w
      obtain ⟨w₂, hw₂, hstore₂, hfirst⟩ := ihcar w₁
      obtain ⟨w₃, hw₃, hstore₃, hpair⟩ := cons hfirst (hrest.grows hw₂)
      rw [hstore₂, hstore₁] at hstore₃ hpair
      exact ⟨w₃, Nat.le_trans hw₁ (Nat.le_trans hw₂ hw₃), hstore₃, hpair⟩
  | _ => exact ⟨w, Nat.le_refl _, rfl, trivial⟩

theorem ofData (w : Layered start here) (data : List Datum) :
    w.Yields (fun w' forms => ∀ form ∈ forms, w'.Holds form) (w.store.ofData here data) := by
  induction data generalizing w with
  | nil => exact ⟨w, Nat.le_refl _, rfl, fun _ hmem => absurd hmem List.not_mem_nil⟩
  | cons datum rest ih =>
      obtain ⟨w₁, hw₁, hstore₁, hform⟩ := w.ofDatum datum
      obtain ⟨w₂, hw₂, hstore₂, hothers⟩ := ih w₁
      rw [hstore₁] at hstore₂ hothers
      exact ⟨w₂, Nat.le_trans hw₁ hw₂, hstore₂,
        List.forall_mem_cons.2 ⟨hform.grows hw₂, hothers⟩⟩

theorem addLambda (name : Option Symbol) (params : Params) {body : List Value}
    {scope : FrameRef} (hbody : ∀ form ∈ body, w.Holds form) (hscope : scope.arena = here) :
    w.Yields (fun w' ref => w'.Holds (.closure ref) ∧ w'.Holds (.expander ref))
      (w.store.addLambda here ⟨name, params, body, scope⟩) :=
  ⟨w.modify (fun arena => { arena with lambdas := arena.lambdas.push _ })
    (w.settled.push_lambda hscope hbody), Nat.le_refl _, rfl, rfl, rfl⟩

/-- A new frame inside one of the arena. -/
theorem extend (w : Layered start here) {frame : FrameRef} (hframe : frame.arena = here) :
    w.Yields (fun _ ref => ref.arena = here) (w.store.extend here frame) := by
  refine ⟨w.modify (fun arena => { arena with frames := arena.frames.push _ })
    (w.settled.push_frame ?_ ?_), Nat.le_refl _, rfl, rfl⟩
  · exact fun ref href => w.scope_here hframe href
  · exact fun name value hvalue => by cases hvalue

theorem bind {frame : FrameRef} (hframe : frame.arena = here) (name : Symbol) {value : Value}
    (hvalue : w.Holds value) :
    ∃ w', w.Grows w' ∧ w'.store = w.store.bind frame name value := by
  obtain ⟨_, index⟩ := frame
  obtain rfl : _ = here := hframe
  exact ⟨w.modify _ (w.settled.insert index name hvalue), Nat.le_refl _, rfl⟩

theorem clear (w : Layered start here) {frame : FrameRef} (hframe : frame.arena = here) :
    ∃ w', w.Grows w' ∧ w'.store = w.store.clear frame := by
  obtain ⟨_, index⟩ := frame
  obtain rfl : _ = here := hframe
  exact ⟨w.modify _ (w.settled.clear index), Nat.le_refl _, rfl⟩

theorem bindAll {frame : FrameRef} (hframe : frame.arena = here) (names : List Symbol)
    {values : List Value} (hvalues : ∀ value ∈ values, w.Holds value) :
    ∃ w', w.Grows w' ∧ w'.store = w.store.bindAll frame names values := by
  unfold Store.bindAll
  induction names generalizing values w with
  | nil => exact ⟨w, Nat.le_refl _, rfl⟩
  | cons name names ih =>
      cases values with
      | nil => exact ⟨w, Nat.le_refl _, rfl⟩
      | cons value values =>
          obtain ⟨hvalue, hvalues⟩ := List.forall_mem_cons.1 hvalues
          obtain ⟨w₁, hw₁, hstore₁⟩ := bind hframe name hvalue
          obtain ⟨w₂, hw₂, hstore₂⟩ := ih fun value h => (hvalues value h).grows hw₁
          rw [hstore₁] at hstore₂
          exact ⟨w₂, Nat.le_trans hw₁ hw₂, hstore₂⟩

theorem bindArgs {frame : FrameRef} (hframe : frame.arena = here) (params : Params)
    {args : List Value} (hargs : ∀ arg ∈ args, w.Holds arg) :
    ∃ w', w.Grows w' ∧ w'.store = w.store.bindArgs here params frame args := by
  obtain ⟨w₁, hw₁, hstore₁⟩ := bindAll hframe params.required hargs
  unfold Store.bindArgs
  cases params.rest with
  | none => exact ⟨w₁, hw₁, hstore₁⟩
  | some name =>
      obtain ⟨w₂, hw₂, hstore₂, hrest⟩ := listWithTail (w := w₁)
        (fun arg h => (hargs arg (List.mem_of_mem_drop h)).grows hw₁)
        (show w₁.Holds .nil from trivial)
      obtain ⟨w₃, hw₃, hstore₃⟩ := bind hframe name hrest
      rw [hstore₂, hstore₁] at hstore₃
      exact ⟨w₃, Nat.le_trans hw₁ (Nat.le_trans hw₂ hw₃), hstore₃⟩

end Layered

/-! ### Cycles -/

namespace Layered

variable {start : Store} {here : Nat} (w : Layered start here)

theorem child_here {ref part : CellRef} (hchild : w.store.Child ref part)
    (href : ref.arena = here) : part.arena = here ∧ part.index < ref.index := by
  obtain ⟨_, index⟩ := ref
  obtain rfl : _ = here := href
  obtain ⟨hcar, hcdr⟩ := w.parts_below index
  rcases hchild with heq | heq
  · rw [heq] at hcar
    exact hcar
  · rw [heq] at hcdr
    exact hcdr

/-- Within the arena a walk goes to older and older pairs. -/
theorem walk_here {ref part : CellRef} (hwalk : Relation.TransGen w.store.Child ref part)
    (href : ref.arena = here) : part.arena = here ∧ part.index < ref.index := by
  induction hwalk with
  | single hchild => exact w.child_here hchild href
  | tail _ hchild ih =>
      obtain ⟨hpart, hless⟩ := w.child_here hchild ih.1
      exact ⟨hpart, Nat.lt_trans hless ih.2⟩

theorem child_start {ref part : CellRef} (hchild : w.store.Child ref part)
    (href : ref.arena ≠ here) : start.Child ref part := by
  simp only [Store.Child, Store.car, Store.cdr, Store.cell, Store.cell?,
    w.elsewhere ref.arena href] at hchild
  exact hchild

/-- A walk that ends outside of the arena never was in it, and was there at the start. -/
theorem walk_start {ref part : CellRef} (hwalk : Relation.TransGen w.store.Child ref part)
    (hpart : part.arena ≠ here) : Relation.TransGen start.Child ref part := by
  induction hwalk with
  | single hchild =>
      have href : ref.arena ≠ here := fun heq => hpart (w.child_here hchild heq).1
      exact .single (w.child_start hchild href)
  | tail _ hchild ih =>
      have hmiddle : _ ≠ here := fun heq => hpart (w.child_here hchild heq).1
      exact .tail (ih hmiddle) (w.child_start hchild hmiddle)

/-- **No new cycles.** A pair on a cycle of a layered store was on a cycle at the start. -/
theorem onCycle_start {ref : CellRef} (h : w.store.OnCycle ref) : start.OnCycle ref := by
  by_cases href : ref.arena = here
  · exact absurd (w.walk_here h href).2 (Nat.lt_irrefl _)
  · exact w.walk_start h href

end Layered

end SmallLisp
