import SmallLisp.Proofs.Quasiquote

/-!
# Unquoted forms behind a dot

A template `(e₁ … eₙ . ,x)` is read as a list that ends in the two elements `UNQUOTE` and `x`. When
the loop over its elements comes to these two, it takes them for what they were written as only if
an item has been made in front of them. Splices may give none, so what becomes of the dot is decided
by the values of the forms in front of it, and not by the template.

How the whole is filled in is told by two small programs, one for the elements and one for the tail,
that both have the means of the loop to carry out further tasks. The loop and they end alike. The
argument is about evaluations that are given with every bound on nested steps (`FillsIn`), so that
it holds of runs and of the filling in apart from them.

## Main results

* `Eval.FillsIn.sameEnds_fillRest` — one step of the loop.
* `Eval.FillsIn.sameEnds_noticed`, `Eval.FillsIn.sameEnds_overlooked` — what the loop does at the
  dot, behind some items and behind none.
* `Eval.FillsIn.sameEnds_behind` — the whole loop, behind what has been made.
* `Eval.dotted_unquote_counts_behind_items` — an unquoted form behind the dot counts behind at least
  one item.
* `Eval.dotted_unquote_behind_empty_splice` — it does not behind an empty splice.
-/

namespace SmallLisp

/-! ### Lists that end in any value -/

namespace Store

/-- Following the second parts of pairs from a value passes these first parts and leads to another
value. -/
def Passes (store : Store) : Value → List Value → Value → Prop
  | value, [], last => value = last
  | value, item :: items, last =>
      ∃ ref next, value = .pair ref ∧ store.cell? ref = some ⟨item, next⟩ ∧
        store.Passes next items last

theorem Passes.kept {store after : Store} {value last : Value} {items : List Value}
    (h : store.Passes value items last) (hkept : store.CellsKept after) :
    after.Passes value items last := by
  induction items generalizing value with
  | nil => exact h
  | cons item items ih =>
      obtain ⟨ref, next, hvalue, hcell, hnext⟩ := h
      exact ⟨ref, next, hvalue, hkept _ _ hcell, ih hnext⟩

theorem size_listWithTail (store : Store) (arena : Nat) (items : List Value) (tail : Value) :
    (store.listWithTail arena items tail).2.arenas.size = store.arenas.size := by
  induction items with
  | nil => rfl
  | cons item items ih => exact (size_cons _ arena item _).trans ih

/-- A list that is made has the items in it, and then the tail. -/
theorem passes_listWithTail {store : Store} {arena : Nat} (harena : arena < store.arenas.size)
    (items : List Value) (tail : Value) :
    (store.listWithTail arena items tail).2.Passes (store.listWithTail arena items tail).1 items
      tail := by
  induction items with
  | nil => rfl
  | cons item items ih =>
      have hsize := size_listWithTail store arena items tail
      obtain ⟨ref, hvalue, hcell⟩ := cell?_cons (hsize ▸ harena) item
        (store.listWithTail arena items tail).1
      exact ⟨ref, _, hvalue, hcell, ih.kept (cellsKept_cons _ arena item _)⟩

end Store

/-- Nothing happens to the machine but that a list is made of new pairs. -/
structure Machine.MakesList (machine : Machine) (arena : Nat) (items : List Value)
    (tail value : Value) (after : Machine) : Prop where
  made : machine.store.listWithTail arena items tail = (value, after.store)
  census : after.census = machine.census
  depth : after.depth = machine.depth

theorem Machine.MakesList.passes {machine after : Machine} {arena : Nat} {items : List Value}
    {tail value : Value} (h : machine.MakesList arena items tail value after)
    (harena : arena < after.store.arenas.size) : after.store.Passes value items tail := by
  have hsize := machine.store.size_listWithTail arena items tail
  rw [h.made] at hsize
  have hpasses := Store.passes_listWithTail (hsize ▸ harena) items tail
  rwa [h.made] at hpasses

theorem EvalM.ends_listWithTail_iff {arena : Nat} {items : List Value} {tail value : Value}
    {held : List Hold} {machine after : Machine} :
    EvalM.Ends (fun _ => update (·.listWithTail arena items tail)) held machine
        (.ok value, after) ↔
      machine.MakesList arena items tail value after := by
  constructor
  · rintro ⟨-, bound, hbound⟩
    obtain ⟨hvalue, rfl⟩ := Prod.mk.inj (hbound bound (Nat.le_refl bound))
    exact ⟨Prod.ext (Except.ok.inj hvalue) rfl, rfl, rfl⟩
  · rintro ⟨hmade, hcensus, hdepth⟩
    refine ⟨fun heq => (by cases heq), 0, fun _ _ => ?_⟩
    obtain ⟨store, census, depth⟩ := after
    obtain rfl : census = machine.census := hcensus
    obtain rfl : depth = machine.depth := hdepth
    rw [outcome_update, hmade]

/-! ### Templates with an unquoted form behind the dot -/

/-- The two pairs of an unquoted form, in the place of the remainder of a list. -/
structure UnquotedTail where
  mark : CellRef
  argument : CellRef
  form : Value

/-- The value that consists of these pairs, with their first parts, and then the tail. -/
def UnquotedTail.behind (tail : UnquotedTail) : List (CellRef × Value) → Value
  | [] => .pair tail.mark
  | (ref, _) :: _ => .pair ref

namespace Store

variable {store : Store} {tail : UnquotedTail}

/-- The two pairs are an unquoted form. -/
structure Shows (store : Store) (tail : UnquotedTail) : Prop where
  head : store.car tail.mark = .symbol .unquote
  next : store.cdr tail.mark = .pair tail.argument
  form : store.car tail.argument = tail.form
  last : store.cdr tail.argument = .nil

/-- The pairs are linked, have these first parts, and lead to the tail. -/
def Reads (store : Store) (tail : UnquotedTail) : List (CellRef × Value) → Prop
  | [] => store.Shows tail
  | (ref, element) :: others =>
      store.car ref = element ∧ store.cdr ref = tail.behind others ∧ store.Reads tail others

theorem marked?_eq_none_of_cdr {ref rest : CellRef} (h : store.cdr ref = .pair rest)
    (hrest : store.cdr rest ≠ .nil) (head : Symbol) : store.marked? head (.pair ref) = none := by
  simp only [marked?, h, hrest, if_false, ite_self]

theorem Shows.marked? (h : store.Shows tail) :
    store.marked? .unquote (.pair tail.mark) = some tail.form := by
  simp only [Store.marked?, h.head, h.next, h.form, h.last, if_true]

theorem Shows.isMarked (h : store.Shows tail) : store.isMarked (.pair tail.mark) = true := by
  rw [Store.isMarked, h.marked?]
  rfl

/-- The second pair of an unquoted form is not marked itself. -/
theorem Shows.isMarked_argument (h : store.Shows tail) :
    store.isMarked (.pair tail.argument) = false := by
  simp only [Store.isMarked, Store.marked?, h.last, ite_self, Option.isSome_none, Bool.or_self]

/-- There is more behind the first pair, which is at least the pair of the mark. -/
theorem Reads.cdr_ne_nil {front : List (CellRef × Value)} (h : store.Reads tail front)
    {ref : CellRef} (hvalue : tail.behind front = .pair ref) : store.cdr ref ≠ .nil := by
  cases front with
  | nil =>
      obtain rfl : tail.mark = ref := Value.pair.inj hvalue
      rw [Shows.next h]
      exact Value.noConfusion
  | cons first others =>
      obtain ⟨place, element⟩ := first
      obtain rfl : place = ref := Value.pair.inj hvalue
      obtain ⟨-, hnext, -⟩ := h
      rw [hnext]
      cases others <;> exact Value.noConfusion

/-- No pair in front of the dot is seen as a mark. -/
theorem Reads.isMarked {ref : CellRef} {element : Value} {others : List (CellRef × Value)}
    (h : store.Reads tail ((ref, element) :: others)) : store.isMarked (.pair ref) = false := by
  obtain ⟨-, hnext, hothers⟩ := h
  obtain ⟨rest, hrest⟩ : ∃ rest, tail.behind others = .pair rest := by
    cases others with
    | nil => exact ⟨_, rfl⟩
    | cons first others => exact ⟨_, rfl⟩
  have hlong := hothers.cdr_ne_nil hrest
  rw [hrest] at hnext
  exact isMarked_eq_false_iff.2
    ⟨marked?_eq_none_of_cdr hnext hlong _, marked?_eq_none_of_cdr hnext hlong _⟩

theorem Reads.of_append {before behind : List (CellRef × Value)}
    (h : store.Reads tail (before ++ behind)) : store.Reads tail behind := by
  induction before with
  | nil => exact h
  | cons first others ih => exact ih h.2.2

end Store

namespace Eval

open EvalM

/-! ### Filling in with every bound -/

/-- With every bound on nested steps, templates are filled in by the steps of the evaluator. Other
tasks are carried out in some way that is steady and for which it is no matter what is held. -/
structure FillsIn (session : Session) (perform : Nat → Task → EvalM Value) : Prop where
  unheld (fuel : Nat) (task : Task) : Unheld (fun _ => True) (perform fuel task)
  steady (task : Task) : Steady (fun _ => True) fun fuel => perform fuel task
  fill (fuel : Nat) (template : Value) (level : Nat) (scope : FrameRef) :
    perform (fuel + 1) (.fill template level scope) =
      Eval.fill session (perform fuel) template level scope
  fillRest (fuel : Nat) (made : List Value) (rest : Value) (level : Nat) (scope : FrameRef) :
    perform (fuel + 1) (.fillRest made rest level scope) =
      Eval.fillRest session (perform fuel) made rest level scope

theorem run_fillsIn (session : Session) : FillsIn session (run session) where
  unheld := run_unheld session
  steady := run_steady session
  fill _ _ _ _ := rfl
  fillRest _ _ _ _ _ := rfl

/-- With a larger bound, templates are filled in alike. -/
theorem filling_approximates {session : Session} {perform : Task → EvalM Value} {fuel fuel' : Nat}
    (hle : fuel ≤ fuel') :
    Approximates (filling session perform fuel) (filling session perform fuel') := by
  induction fuel generalizing fuel' with
  | zero =>
      rintro ⟨task, held, machine⟩ hfinished
      cases task with
      | eval form scope => cases fuel' <;> rfl
      | apply callee args => cases fuel' <;> rfl
      | fill => exact absurd rfl hfinished
      | fillRest => exact absurd rfl hfinished
  | succ fuel ih =>
      obtain ⟨less, rfl⟩ : ∃ less, fuel' = less + 1 := ⟨fuel' - 1, by omega⟩
      have hstep : Approximates (step session (filling session perform fuel))
          (step session (filling session perform less)) := (ih (Nat.le_of_succ_le_succ hle)).step
      rintro ⟨task, held, machine⟩ hfinished
      cases task with
      | eval form scope => rfl
      | apply callee args => rfl
      | fill template level scope =>
          exact hstep ⟨.fill template level scope, held, machine⟩ hfinished
      | fillRest made rest level scope =>
          exact hstep ⟨.fillRest made rest level scope, held, machine⟩ hfinished

theorem filling_fillsIn (session : Session) {perform : Task → EvalM Value}
    (hperform : ∀ task, Unheld (fun _ => True) (perform task)) :
    FillsIn session (filling session perform) where
  unheld := filling_unheld hperform
  steady task _ _ hle held machine hfinished :=
    ⟨filling_approximates hle ⟨task, held, machine⟩ hfinished, fun _ _ => trivial⟩
  fill _ _ _ _ := rfl
  fillRest _ _ _ _ _ := rfl

section

variable (session : Session) (perform : Task → EvalM Value) (scope : FrameRef)

/-- The items that elements of a list template give under one quasiquote, one after another. -/
def fillElements : List Value → EvalM (List Value)
  | [] => pure []
  | element :: others => do
      let items ← fillElement session perform element 1 scope
      let further ← fillElements others
      return items ++ further

/-- What a list comes to that has an unquoted form behind the dot, when these items have been made
of its elements. The form is evaluated for the tail of the list behind at least one item. If there
is none it is an element of the template instead, as is the symbol that should have marked it. -/
def fillTail (form : Value) (items : List Value) : EvalM Value :=
  if items = [] then do
    let kept ← fillElement session perform form 1 scope
    update (·.list session.arena (.symbol .unquote :: kept))
  else do
    let tail ← perform (.eval form scope)
    update (·.listWithTail session.arena items tail)

end

section

variable {session : Session} {perform : Nat → Task → EvalM Value} (h : FillsIn session perform)
include h

theorem FillsIn.fillElement_steady (element : Value) (level : Nat) (scope : FrameRef) :
    Steady (fun _ => True) fun fuel =>
      fillElement session (perform fuel) element level scope :=
  (steadyLogic session).fillElement (w := ()) h.steady element level scope

theorem FillsIn.fillElements_steady (scope : FrameRef) (elements : List Value) :
    Steady (fun _ => True) fun fuel => fillElements session (perform fuel) scope elements := by
  induction elements with
  | nil => exact .pure trivial
  | cons element others ih =>
      exact .bind (h.fillElement_steady element 1 scope) fun _ _ =>
        .bind ih fun _ _ => .pure trivial

end

/-! ### In the course of filling in -/

section

variable (session : Session) (perform : Nat → Task → EvalM Value) (scope : FrameRef)
  (tail : UnquotedTail)

/-- Nothing that happens on the way changes what is ahead: where the loop comes to a pair, that and
what is behind it is as it was, and after the element in it has been filled in the pair still leads
to what is behind it. So does the mark after its form has been filled in as an element, if that is
done. -/
structure Undisturbed (made : List Value) (pairs : List (CellRef × Value)) (held : List Hold)
    (machine : Machine) : Prop where
  ahead {before behind : List (CellRef × Value)} {items : List Value} {after : Machine} :
    pairs = before ++ behind →
    EvalM.Ends (fun fuel => fillElements session (perform fuel) scope (before.map Prod.snd)) held
      machine (.ok items, after) →
    after.store.Reads tail behind
  link {before behind : List (CellRef × Value)} {ref : CellRef} {element : Value}
      {items : List Value} {after : Machine} :
    pairs = before ++ (ref, element) :: behind →
    EvalM.Ends (fun fuel => fillElements session (perform fuel) scope
      ((before ++ [(ref, element)]).map Prod.snd)) held machine (.ok items, after) →
    after.store.cdr ref = tail.behind behind
  form {kept : List Value} {middle after : Machine} : made = [] →
    EvalM.Ends (fun fuel => fillElements session (perform fuel) scope (pairs.map Prod.snd)) held
      machine (.ok [], middle) →
    EvalM.Ends (fun fuel => fillElement session (perform fuel) tail.form 1 scope) held middle
      (.ok kept, after) →
    after.store.Shows tail

end

section

variable {session : Session} {perform : Nat → Task → EvalM Value} (h : FillsIn session perform)
  {scope : FrameRef} {tail : UnquotedTail} {made : List Value} {pairs : List (CellRef × Value)}
  {held : List Hold} {machine : Machine}

theorem ends_fillElements_nil :
    EvalM.Ends (fun fuel => fillElements session (perform fuel) scope []) held machine
      (.ok [], machine) :=
  ⟨fun heq => (by cases heq), 0, fun _ _ => rfl⟩

theorem Undisturbed.reads (hundisturbed : Undisturbed session perform scope tail made pairs held
    machine) : machine.store.Reads tail pairs :=
  hundisturbed.ahead (show pairs = [] ++ pairs from rfl) ends_fillElements_nil

include h

theorem FillsIn.ends_fillElements_cons {element : Value} {others items further : List Value}
    {middle after : Machine}
    (hfirst : EvalM.Ends (fun fuel => fillElement session (perform fuel) element 1 scope) held
      machine (.ok items, middle))
    (hothers : EvalM.Ends (fun fuel => fillElements session (perform fuel) scope others) held
      middle (.ok further, after)) :
    EvalM.Ends (fun fuel => fillElements session (perform fuel) scope (element :: others)) held
      machine (.ok (items ++ further), after) := by
  refine (ends_bind_ok_iff (h.fillElement_steady element 1 scope)).2 ⟨items, middle, hfirst, ?_⟩
  exact (ends_bind_ok_iff (h.fillElements_steady scope others)).2
    ⟨further, after, hothers, fun heq => (by cases heq), 0, fun _ _ => rfl⟩

theorem FillsIn.undisturbed_next {ref : CellRef} {element : Value}
    {others : List (CellRef × Value)} {items : List Value} {after : Machine}
    (hundisturbed : Undisturbed session perform scope tail made ((ref, element) :: others) held
      machine)
    (hfirst : EvalM.Ends (fun fuel => fillElement session (perform fuel) element 1 scope) held
      machine (.ok items, after)) :
    Undisturbed session perform scope tail (items.reverse ++ made) others held after where
  ahead {before behind _ _} hpairs hends :=
    hundisturbed.ahead
      (show (ref, element) :: others = ((ref, element) :: before) ++ behind from
        congrArg _ hpairs) (h.ends_fillElements_cons hfirst hends)
  link {before behind _ _ _ _} hpairs hends :=
    hundisturbed.link
      (show (ref, element) :: others = ((ref, element) :: before) ++ _ :: behind from
        congrArg _ hpairs) (h.ends_fillElements_cons hfirst hends)
  form {kept middle last} hmade hends := by
    obtain ⟨hitems, hmade⟩ := List.append_eq_nil_iff.1 hmade
    obtain rfl := List.reverse_eq_nil_iff.1 hitems
    exact hundisturbed.form hmade (h.ends_fillElements_cons hfirst hends)

/-- **One step of the loop.** The items of an element come behind what has been made. -/
theorem FillsIn.sameEnds_fillRest {ref : CellRef} {element next : Value} {level : Nat}
    (hcensus : machine.census = none) (hcar : machine.store.car ref = element)
    (hmarked : made ≠ [] → machine.store.isMarked (.pair ref) = false)
    (hcdr : ∀ items after,
      EvalM.Ends (fun fuel => fillElement session (perform fuel) element level scope) held machine
        (.ok items, after) → after.store.cdr ref = next) :
    SameEnds (fun fuel => perform fuel (.fillRest made (.pair ref) level scope))
      (fun fuel => fillElement session (perform fuel) element level scope >>= fun items =>
        perform fuel (.fillRest (items.reverse ++ made) next level scope)) held machine := by
  have hstep : SameEnds (fun fuel => perform fuel (.fillRest made (.pair ref) level scope))
      (fun fuel => fillElement session (perform fuel) element level scope >>= fun items =>
        inspect (·.cdr ref) >>= fun next =>
          perform fuel (.fillRest (items.reverse ++ made) next level scope)) held machine :=
    .of_succ fun fuel => by
      rw [h.fillRest, outcome_fillRest_pair (h.unheld fuel) hcensus hmarked, hcar]
  have hsteady := h.fillElement_steady element level scope
  refine hstep.trans (.bind hsteady hsteady (.refl _ _ _) fun items after hends => ?_)
  refine .of_outcome fun fuel => ?_
  rw [outcome_bind_ok (outcome_inspect _ _ _), hcdr items after hends]

theorem FillsIn.census_eq_none {element : Value} {level : Nat}
    {result : Except Halt (List Value)} {after : Machine} (hcensus : machine.census = none)
    (hends : EvalM.Ends (fun fuel => fillElement session (perform fuel) element level scope) held
      machine (result, after)) : after.census = none := by
  obtain ⟨-, bound, hbound⟩ := hends
  exact (fillElement_unheld (h.unheld bound) element level scope).census_eq_none hcensus
    (hbound bound (Nat.le_refl bound))

/-- An element that is no pair gives itself. -/
theorem FillsIn.sameEnds_atom {value : Value} (hvalue : value.isPair = false) (level : Nat) :
    SameEnds (fun fuel => fillElement session (perform fuel) value level scope)
      (fun _ => pure [value]) held machine :=
  .of_succ fun fuel => by
    rw [fillElement, outcome_bind_ok (outcome_inspect _ _ _), Store.marked?_of_not_isPair hvalue]
    dsimp only
    rw [h.fill, outcome_bind_ok (outcome_fill_of_not_isPair hvalue)]

theorem FillsIn.eq_of_ends_atom {value : Value} (hvalue : value.isPair = false) {level : Nat}
    {items : List Value} {after : Machine}
    (hends : EvalM.Ends (fun fuel => fillElement session (perform fuel) value level scope) held
      machine (.ok items, after)) : after = machine := by
  obtain ⟨-, bound, hbound⟩ := (h.sameEnds_atom hvalue level _).1 hends
  exact (Prod.mk.inj (hbound bound (Nat.le_refl bound))).2.symm

/-- **The dot is noticed behind some items.** Then the form behind it is evaluated. -/
theorem FillsIn.sameEnds_noticed (hcensus : machine.census = none) (hmade : made ≠ [])
    (hshows : machine.store.Shows tail) :
    SameEnds (fun fuel => perform fuel (.fillRest made (.pair tail.mark) 1 scope))
      (fun fuel => fillTail session (perform fuel) scope tail.form made.reverse) held machine := by
  have hmark : SameEnds (fun fuel => perform fuel (.fill (.pair tail.mark) 1 scope))
      (fun fuel => perform fuel (.eval tail.form scope)) held machine :=
    .of_succ fun fuel => by
      rw [h.fill, outcome_fill_unquote (h.unheld fuel) hcensus hshows.marked?]
  have hloop : SameEnds (fun fuel => perform fuel (.fillRest made (.pair tail.mark) 1 scope))
      (fun fuel => perform fuel (.fill (.pair tail.mark) 1 scope) >>= fun value =>
        update (·.listWithTail session.arena made.reverse value)) held machine :=
    .of_succ fun fuel => by
      rw [h.fillRest, outcome_fillRest_marked (h.unheld fuel) hcensus hmade hshows.isMarked]
  have hsome : made.reverse ≠ [] := fun hnone => hmade (List.reverse_eq_nil_iff.1 hnone)
  simp only [fillTail, if_neg hsome]
  exact hloop.trans (.bind (h.steady _) (h.steady _) hmark fun _ _ _ => .refl _ _ _)

/-- **The dot is overlooked if nothing has been made.** Then the mark is an element as any other,
and so is the form. -/
theorem FillsIn.sameEnds_overlooked (hcensus : machine.census = none)
    (hshows : machine.store.Shows tail)
    (hform : ∀ {kept after},
      EvalM.Ends (fun fuel => fillElement session (perform fuel) tail.form 1 scope) held machine
        (.ok kept, after) → after.store.Shows tail) :
    SameEnds (fun fuel => perform fuel (.fillRest [] (.pair tail.mark) 1 scope))
      (fun fuel => fillTail session (perform fuel) scope tail.form []) held machine := by
  have hatom : SameEnds
      (fun fuel => fillElement session (perform fuel) (.symbol .unquote) 1 scope)
      (fun _ => pure [.symbol .unquote]) held machine := h.sameEnds_atom rfl 1
  have hpure : Steady (fun _ => True) fun _ => (pure [.symbol .unquote] : EvalM (List Value)) :=
    .pure trivial
  have hmark : SameEnds (fun fuel => perform fuel (.fillRest [] (.pair tail.mark) 1 scope))
      (fun fuel => fillElement session (perform fuel) (.symbol .unquote) 1 scope >>= fun items =>
        perform fuel (.fillRest (items.reverse ++ []) (.pair tail.argument) 1 scope)) held
      machine := by
    refine h.sameEnds_fillRest hcensus hshows.head (fun hne => absurd rfl hne) ?_
    intro items after hends
    rw [h.eq_of_ends_atom rfl hends]
    exact hshows.next
  have hpassed : SameEnds
      (fun fuel => fillElement session (perform fuel) (.symbol .unquote) 1 scope >>= fun items =>
        perform fuel (.fillRest (items.reverse ++ []) (.pair tail.argument) 1 scope))
      (fun fuel => perform fuel (.fillRest [.symbol .unquote] (.pair tail.argument) 1 scope)) held
      machine :=
    .bind (l := fun fuel items =>
        perform fuel (.fillRest (items.reverse ++ []) (.pair tail.argument) 1 scope))
      (h.fillElement_steady _ 1 scope) hpure hatom fun _ _ _ => .refl _ _ _
  have hargument : SameEnds
      (fun fuel => perform fuel (.fillRest [.symbol .unquote] (.pair tail.argument) 1 scope))
      (fun fuel => fillElement session (perform fuel) tail.form 1 scope >>= fun kept =>
        perform fuel (.fillRest (kept.reverse ++ [.symbol .unquote]) .nil 1 scope)) held machine :=
    h.sameEnds_fillRest hcensus hshows.form (fun _ => hshows.isMarked_argument)
      fun _ _ hends => (hform hends).last
  have hend : SameEnds
      (fun fuel => fillElement session (perform fuel) tail.form 1 scope >>= fun kept =>
        perform fuel (.fillRest (kept.reverse ++ [.symbol .unquote]) .nil 1 scope))
      (fun fuel => fillTail session (perform fuel) scope tail.form []) held machine := by
    have hsteady := h.fillElement_steady tail.form 1 scope
    refine .bind hsteady hsteady (.refl _ _ _) fun kept after _ => .of_succ fun fuel => ?_
    rw [h.fillRest, outcome_fillRest_of_not_isPair rfl, List.reverse_append,
      List.reverse_reverse]
    rfl
  exact ((hmark.trans hpassed).trans hargument).trans hend

/-- **The whole loop.** The items of the elements come behind what has been made, and then the
tail. -/
theorem FillsIn.sameEnds_behind (hcensus : machine.census = none)
    (hundisturbed : Undisturbed session perform scope tail made pairs held machine) :
    SameEnds (fun fuel => perform fuel (.fillRest made (tail.behind pairs) 1 scope))
      (fun fuel => fillElements session (perform fuel) scope (pairs.map Prod.snd) >>= fun items =>
        fillTail session (perform fuel) scope tail.form (made.reverse ++ items)) held machine := by
  -- on the pairs ahead; what has been made and the machine are those at the pair that is come to
  induction pairs generalizing made machine with
  | nil =>
      have hshows : machine.store.Shows tail := hundisturbed.reads
      have hnone : ∀ fuel, (fillElements session (perform fuel) scope [] >>= fun items =>
          fillTail session (perform fuel) scope tail.form (made.reverse ++ items)) =
          fillTail session (perform fuel) scope tail.form made.reverse := fun fuel => by
        rw [fillElements, pure_bind, List.append_nil]
      simp only [List.map_nil, hnone]
      by_cases hmade : made = []
      · subst hmade
        exact h.sameEnds_overlooked hcensus hshows fun hends =>
          hundisturbed.form rfl ends_fillElements_nil hends
      · exact h.sameEnds_noticed hcensus hmade hshows
  | cons first others ih =>
      obtain ⟨ref, element⟩ := first
      have hreads := hundisturbed.reads
      have hstep : SameEnds (fun fuel => perform fuel (.fillRest made (.pair ref) 1 scope))
          (fun fuel => fillElement session (perform fuel) element 1 scope >>= fun items =>
            perform fuel (.fillRest (items.reverse ++ made) (tail.behind others) 1 scope)) held
          machine := by
        refine h.sameEnds_fillRest hcensus hreads.1 (fun _ => hreads.isMarked) ?_
        intro items after hends
        exact hundisturbed.link (show (ref, element) :: others = [] ++ _ :: others from rfl)
          (h.ends_fillElements_cons hends ends_fillElements_nil)
      have hsteady := h.fillElement_steady element 1 scope
      refine hstep.trans (.trans (.bind hsteady hsteady (.refl _ _ _) fun items after hends =>
        ih (h.census_eq_none hcensus hends) (h.undisturbed_next hundisturbed hends)) ?_)
      refine .of_outcome fun fuel => ?_
      simp only [List.map_cons, fillElements, bind_assoc, pure_bind, List.reverse_append,
        List.reverse_reverse, List.append_assoc]

/-- **A list with an unquoted form behind the dot** comes to what its elements and its tail do. -/
theorem FillsIn.sameEnds_fill {ref : CellRef} {element : Value} {others : List (CellRef × Value)}
    (hcensus : machine.census = none)
    (hundisturbed : Undisturbed session perform scope tail [] ((ref, element) :: others) held
      machine) :
    SameEnds (fun fuel => perform fuel (.fill (.pair ref) 1 scope))
      (fun fuel => fillElements session (perform fuel) scope (element :: others.map Prod.snd) >>=
        fillTail session (perform fuel) scope tail.form) held machine := by
  have hstart : SameEnds (fun fuel => perform fuel (.fill (.pair ref) 1 scope))
      (fun fuel => perform fuel (.fillRest [] (.pair ref) 1 scope)) held machine :=
    .of_succ fun fuel => by rw [h.fill, outcome_fill_pair hundisturbed.reads.isMarked]
  exact hstart.trans (h.sameEnds_behind hcensus hundisturbed)

/-- What is made of the items and the tail, if it is made. -/
theorem FillsIn.ends_fillTail_iff {form value : Value} {items : List Value} {after : Machine} :
    EvalM.Ends (fun fuel => fillTail session (perform fuel) scope form items) held machine
        (.ok value, after) ↔
      (items ≠ [] ∧ ∃ result last,
        EvalM.Ends (fun fuel => perform fuel (.eval form scope)) held machine (.ok result, last) ∧
        last.MakesList session.arena items result value after) ∨
      (items = [] ∧ ∃ kept last,
        EvalM.Ends (fun fuel => fillElement session (perform fuel) form 1 scope) held machine
          (.ok kept, last) ∧
        last.MakesList session.arena (.symbol .unquote :: kept) .nil value after) := by
  by_cases hitems : items = []
  · simp only [fillTail, if_pos hitems]
    rw [ends_bind_ok_iff (h.fillElement_steady form 1 scope)]
    simp only [Store.list, ends_listWithTail_iff, hitems, ne_eq, not_true_eq_false, false_and,
      true_and, false_or]
  · simp only [fillTail, if_neg hitems]
    rw [ends_bind_ok_iff (h.steady (.eval form scope))]
    simp only [ends_listWithTail_iff, hitems, ne_eq, not_false_eq_true, true_and, false_and,
      or_false]

end

/-! ### Elements that change nothing -/

/-- Filling in the element leaves the machine as it is. -/
def LeavesAlone (session : Session) (perform : Nat → Task → EvalM Value) (scope : FrameRef)
    (held : List Hold) (machine : Machine) (element : Value) : Prop :=
  ∀ items after,
    EvalM.Ends (fun fuel => fillElement session (perform fuel) element 1 scope) held machine
      (.ok items, after) → after = machine

section

variable {session : Session} {perform : Nat → Task → EvalM Value} (h : FillsIn session perform)
  {scope : FrameRef} {tail : UnquotedTail} {made : List Value} {pairs : List (CellRef × Value)}
  {held : List Hold} {machine : Machine}
include h

theorem FillsIn.leavesAlone_atom {value : Value} (hvalue : value.isPair = false) :
    LeavesAlone session perform scope held machine value :=
  fun _ _ hends => h.eq_of_ends_atom hvalue hends

theorem FillsIn.eq_of_leavesAlone {elements items : List Value} {after : Machine}
    (helements : ∀ element ∈ elements, LeavesAlone session perform scope held machine element)
    (hends : EvalM.Ends (fun fuel => fillElements session (perform fuel) scope elements) held
      machine (.ok items, after)) : after = machine := by
  induction elements generalizing items with
  | nil => exact (Prod.mk.inj (hends.unique ends_fillElements_nil)).2
  | cons element others ih =>
      obtain ⟨first, middle, hfirst, hrest⟩ :=
        (ends_bind_ok_iff (h.fillElement_steady element 1 scope)).1 hends
      obtain rfl := helements element List.mem_cons_self first middle hfirst
      obtain ⟨further, last, hothers, -, bound, hbound⟩ :=
        (ends_bind_ok_iff (h.fillElements_steady scope others)).1 hrest
      obtain ⟨-, rfl⟩ := Prod.mk.inj (hbound bound (Nat.le_refl bound))
      exact ih (fun other hother => helements other (List.mem_cons_of_mem _ hother)) hothers

/-- Nothing is disturbed by elements that change nothing. -/
theorem FillsIn.undisturbed (hreads : machine.store.Reads tail pairs)
    (helements : ∀ element ∈ pairs.map Prod.snd,
      LeavesAlone session perform scope held machine element)
    (hform : LeavesAlone session perform scope held machine tail.form) :
    Undisturbed session perform scope tail made pairs held machine where
  ahead {before behind items after} hpairs hends := by
    subst hpairs
    rw [h.eq_of_leavesAlone (fun element hmem => helements element ?_) hends]
    · exact hreads.of_append
    · rw [List.map_append]
      exact List.mem_append_left _ hmem
  link {before behind ref element items after} hpairs hends := by
    subst hpairs
    rw [h.eq_of_leavesAlone (fun other hmem => helements other ?_) hends]
    · exact hreads.of_append.2.1
    · rw [List.append_cons, List.map_append]
      exact List.mem_append_left _ hmem
  form {kept middle after} _ hends hkept := by
    have hall : machine.store.Reads tail (pairs ++ []) := by rwa [List.append_nil]
    obtain rfl := h.eq_of_leavesAlone helements hends
    rw [hform kept after hkept]
    exact hall.of_append

end

/-- A constant that is spliced leaves the machine as it is. -/
theorem leavesAlone_splice {session : Session} {scope : FrameRef} {held : List Hold}
    {machine : Machine} {element form : Value} (hform : form = .nil ∨ form = .t)
    (hmarked : machine.store.marked? .unquoteSplicing element = some form) :
    LeavesAlone session (run session) scope held machine element := by
  rintro items after ⟨-, bound, hbound⟩
  have hout := hbound bound (Nat.le_refl bound)
  rw [fillElement, outcome_bind_ok (outcome_inspect _ _ _), hmarked] at hout
  simp only [if_true] at hout
  obtain ⟨spliced, middle, hspliced, hrest⟩ := exists_of_outcome_bind hout
  rw [outcome_holding] at hspliced
  obtain ⟨-, rfl⟩ := outcome_run_constant hform hspliced
  rw [outcome_bind_ok (outcome_inspect _ _ _)] at hrest
  split at hrest
  · exact (Prod.mk.inj hrest).2.symm
  · cases hrest

/-- **An unquoted form behind the dot counts behind at least one item.** In whatever way forms are
evaluated, a list template `(e₁ … eₙ . ,x)` is filled in by filling in the elements, from the first
to the last, and then the tail; here what is ahead must not be changed by the evaluations made on
the way. So if this succeeds, the elements have given some items. If there is one, `x` has been
evaluated once, after them, and nothing has been done since but to make the list of the items with
its value behind them. If there is none, `x` has not been evaluated, and the result is a list of
`UNQUOTE` and what `x` gives as an element of the template. With a census the outcome looks the
same. -/
theorem dotted_unquote_counts_behind_items (session : Session) (scope : FrameRef)
    (held : List Hold) (machine : Machine) (tail : UnquotedTail) (ref : CellRef) (element : Value)
    (others : List (CellRef × Value)) :
    let plain := { machine with census := none }
    let pairs := (ref, element) :: others
    let elements := pairs.map Prod.snd
    let loop := fun fuel => run session fuel (.fill (.pair ref) 1 scope)
    (∀ perform, (∀ task, Unheld (fun _ => True) (perform task)) →
      Undisturbed session (filling session perform) scope tail [] pairs held plain →
      ∀ outcome,
        EvalM.Ends (fun fuel => filling session perform fuel (.fill (.pair ref) 1 scope)) held plain
            outcome ↔
          EvalM.Ends (fun fuel =>
            fillElements session (filling session perform fuel) scope elements >>=
              fillTail session (filling session perform fuel) scope tail.form) held plain
            outcome) ∧
    (Undisturbed session (run session) scope tail [] pairs held plain →
      (∀ value after, EvalM.Ends loop held plain (.ok value, after) ↔
        ∃ items middle,
          EvalM.Ends (fun fuel => fillElements session (run session fuel) scope elements) held plain
            (.ok items, middle) ∧
          ((items ≠ [] ∧ ∃ result last,
              EvalM.Ends (fun fuel => run session fuel (.eval tail.form scope)) held middle
                (.ok result, last) ∧
              last.MakesList session.arena items result value after ∧
              (session.arena < after.store.arenas.size →
                after.store.Passes value items result)) ∨
            (items = [] ∧ ∃ kept last,
              EvalM.Ends (fun fuel => fillElement session (run session fuel) tail.form 1 scope) held
                middle (.ok kept, last) ∧
              last.MakesList session.arena (.symbol .unquote :: kept) .nil value after))) ∧
      (session.natives.Discreet → machine.Intact held →
        .frame session.globals ∈ held.flatMap Hold.items →
        .frame scope ∈ held.flatMap Hold.items →
        (Value.pair ref).In (machine.store.Reaches (held.flatMap Hold.items)) →
        (∀ outcome, EvalM.Ends loop held machine outcome →
          ∃ other, EvalM.Ends loop held plain other ∧ SeenAlike held outcome other) ∧
        ∀ other, EvalM.Ends loop held plain other →
          ∃ outcome, EvalM.Ends loop held machine outcome ∧ SeenAlike held outcome other)) := by
  intro plain pairs elements loop
  have hrun := run_fillsIn session
  refine ⟨fun perform hperform hundisturbed =>
    (filling_fillsIn session hperform).sameEnds_fill rfl hundisturbed, fun hundisturbed => ⟨?_, ?_⟩⟩
  · intro value after
    rw [hrun.sameEnds_fill rfl hundisturbed (.ok value, after),
      ends_bind_ok_iff (hrun.fillElements_steady scope (element :: others.map Prod.snd))]
    refine exists_congr fun items => exists_congr fun middle => and_congr_right fun _ => ?_
    rw [hrun.ends_fillTail_iff]
    refine or_congr_left (and_congr_right fun _ => ?_)
    refine exists_congr fun result => exists_congr fun last => and_congr_right fun _ => ?_
    exact (and_iff_left_of_imp Machine.MakesList.passes).symm
  · intro hdiscreet hintact hglobals hscope hvalue
    exact exists_ends_of_seenAlike (run_steady session (.fill (.pair ref) 1 scope))
      (fill_seenAlike hdiscreet hintact hglobals hscope hvalue)

theorem dotted_unquote_counts_behind_empty_splice_and_item :
    let session := (Session.create {} 10).1
    let made := (Session.create {} 10).2.ofDatum session.arena
      (.pair (.list [.symbol .unquoteSplicing, .nil])
        (.pair (.integer 1) (.list [.symbol .unquote, .t])))
    let machine : Machine := ⟨made.2, none, 0⟩
    let tail : UnquotedTail := ⟨⟨0, 1⟩, ⟨0, 0⟩, .t⟩
    let pairs : List (CellRef × Value) := [(⟨0, 5⟩, .pair ⟨0, 4⟩), (⟨0, 2⟩, .integer 1)]
    made.1 = tail.behind pairs ∧
      Undisturbed session (run session) session.globals tail [] pairs [] machine ∧
      ∃ value middle last after,
        EvalM.Ends (fun fuel => run session fuel (.fill made.1 1 session.globals)) [] machine
          (.ok value, after) ∧
        EvalM.Ends (fun fuel => fillElements session (run session fuel) session.globals
          (pairs.map Prod.snd)) [] machine (.ok [.integer 1], middle) ∧
        EvalM.Ends (fun fuel => run session fuel (.eval .t session.globals)) [] middle
          (.ok .t, last) ∧
        last.MakesList session.arena [.integer 1] .t value after ∧
        after.store.Passes value [.integer 1] .t := by
  intro session made machine tail pairs
  have hcomputed :
      made.1 = .pair ⟨0, 5⟩ ∧
      [0, 1, 2, 3, 4, 5].map (fun index => (made.2.car ⟨0, index⟩, made.2.cdr ⟨0, index⟩)) =
        [(.t, .nil), (.symbol .unquote, .pair ⟨0, 0⟩), (.integer 1, .pair ⟨0, 1⟩), (.nil, .nil),
          (.symbol .unquoteSplicing, .pair ⟨0, 3⟩), (.pair ⟨0, 4⟩, .pair ⟨0, 2⟩)] ∧
      ((run session 9 (.fill made.1 1 session.globals)).outcome [] machine).1.toOption =
        some (.pair ⟨0, 6⟩) ∧
      session.arena <
        ((run session 9 (.fill made.1 1 session.globals)).outcome [] machine).2.store.arenas.size ∧
      ((fillElements session (run session 9) session.globals (pairs.map Prod.snd)).outcome []
        machine).1.toOption = some [.integer 1] := by
    decide +kernel
  obtain ⟨hvalue, hcells, hresult, harena, hitems⟩ := hcomputed
  simp only [List.map_cons, List.map_nil, List.cons.injEq, Prod.mk.injEq, and_true] at hcells
  obtain ⟨⟨hform, hlast⟩, ⟨hhead, hnext⟩, ⟨hone, hmark⟩, hnil, ⟨hsplicing, hspliced⟩, hfirst,
    hsecond⟩ := hcells
  have hfills := run_fillsIn session
  have hmarked : made.2.marked? .unquoteSplicing (.pair ⟨0, 4⟩) = some .nil := by
    simp only [Store.marked?, hsplicing, hspliced, hnil, if_true]
  have hundisturbed :
      Undisturbed session (run session) session.globals tail [] pairs [] machine := by
    refine hfills.undisturbed ⟨hfirst, hsecond, hone, hmark, hhead, hnext, hform, hlast⟩ ?_
      (hfills.leavesAlone_atom rfl)
    intro element hmem
    rcases List.mem_cons.1 hmem with rfl | hmem
    · exact leavesAlone_splice (.inl rfl) hmarked
    · obtain rfl := List.mem_singleton.1 hmem
      exact hfills.leavesAlone_atom rfl
  obtain ⟨after, harena, hends⟩ : ∃ after : Machine, session.arena < after.store.arenas.size ∧
      EvalM.Ends (fun fuel => run session fuel (.fill made.1 1 session.globals)) [] machine
        (.ok (.pair ⟨0, 6⟩), after) :=
    ⟨_, harena, (run_steady session _).ends_ok (eq_ok_of_toOption hresult)⟩
  obtain ⟨middle, hgiven⟩ : ∃ middle : Machine,
      EvalM.Ends (fun fuel => fillElements session (run session fuel) session.globals
        (pairs.map Prod.snd)) [] machine (.ok [.integer 1], middle) :=
    ⟨_, (hfills.fillElements_steady session.globals _).ends_ok (eq_ok_of_toOption hitems)⟩
  obtain ⟨items, middle', helements, hmade⟩ := (((dotted_unquote_counts_behind_items session
    session.globals [] machine tail ⟨0, 5⟩ (.pair ⟨0, 4⟩) [(⟨0, 2⟩, .integer 1)]).2
      hundisturbed).1 (.pair ⟨0, 6⟩) after).1 (hvalue ▸ hends)
  obtain ⟨hsame, rfl⟩ := Prod.mk.inj (helements.unique hgiven)
  obtain rfl := Except.ok.inj hsame
  obtain ⟨-, result, last, heval, hlist, hpasses⟩ | ⟨hnone, -⟩ := hmade
  · obtain ⟨bound, hbound⟩ := heval.eventually
    obtain ⟨rfl, -⟩ := outcome_run_constant (.inr rfl) (hbound bound (Nat.le_refl bound))
    exact ⟨hvalue, hundisturbed, _, middle', last, after, hends, hgiven, heval, hlist,
      hpasses harena⟩
  · cases hnone

/-- **The dot is overlooked behind an empty splice.** The variable is not evaluated, and instead of
its value the text results in a list of the mark and the variable. -/
theorem dotted_unquote_behind_empty_splice :
    let session := (Session.create {} 10).1
    let machine : Machine := ⟨(Session.create {} 10).2, none, 0⟩
    let loop := fun fuel => session.evalText fuel "(def x 5) `(,@nil . ,x)"
    let name := Value.symbol (Symbol.ofString "x")
    ∃ ref rest after, EvalM.Ends loop [] machine (.ok [name, .pair ref], after) ∧
      after.store.car ref = .symbol .unquote ∧ after.store.cdr ref = .pair rest ∧
      after.store.car rest = name ∧ after.store.cdr rest = .nil := by
  intro session machine loop name
  have hcomputed :
      ((loop 20).outcome [] machine).1.toOption = some [name, .pair ⟨0, 11⟩] ∧
      ((loop 20).outcome [] machine).2.store.car ⟨0, 11⟩ = .symbol .unquote ∧
      ((loop 20).outcome [] machine).2.store.cdr ⟨0, 11⟩ = .pair ⟨0, 10⟩ ∧
      ((loop 20).outcome [] machine).2.store.car ⟨0, 10⟩ = name ∧
      ((loop 20).outcome [] machine).2.store.cdr ⟨0, 10⟩ = .nil := by
    decide +kernel
  obtain ⟨hresult, hcells⟩ := hcomputed
  have hends : EvalM.Ends loop [] machine (.ok [name, .pair ⟨0, 11⟩], _) :=
    (session.evalText_steady _).ends_ok (eq_ok_of_toOption hresult)
  exact ⟨⟨0, 11⟩, ⟨0, 10⟩, _, hends, hcells⟩

end Eval

end SmallLisp
