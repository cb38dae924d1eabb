import SmallLisp.Proofs.Chains
import SmallLisp.Proofs.Entries
import SmallLisp.Proofs.Frames

/-!
# Parameters and arguments

A value is taken for a parameter list just if it is a proper list of distinct symbols, the last of
which may be marked as the rest parameter. The loop over its items keeps the names found so far;
what it accepts is described by what the items that are left may be.

Arguments are bound one name after another in the same frame. That each name gets its own argument
is due to the names being distinct: no later binding is made over an earlier one.

## Main results

* `addParams_eq_ok_iff`, `params_eq_ok_iff` — which parameter lists are accepted.
* `Table.lookup_insertAll_of_mem` — distinct names have their values.
* `freshList_list` — the list of the remaining arguments is made of new pairs.
* `bindArgs_binds` — what binding arguments does to the store.
* `parameters_are_checked_and_bound` — both together, and how calls use them.
-/

namespace SmallLisp

namespace Store

variable {store : Store}

/-! ### Accepting parameter lists -/

/-- The items are what the parameters are written as: symbols in order, and for a rest parameter the
two-element list of the rest marker and its symbol behind them. -/
inductive Describes (store : Store) : List Value → Params → Prop
  | plain (names : List Symbol) : Describes store (names.map .symbol) ⟨names, none⟩
  | rest (names : List Symbol) {item : Value} {name : Symbol} :
      store.Chain item [.symbol .restMarker, .symbol name] .nil →
      Describes store (names.map .symbol ++ [item]) ⟨names, some name⟩

theorem describes_nil_iff {params : Params} : store.Describes [] params ↔ params = {} := by
  constructor
  · intro h
    generalize hitems : [] = items at h
    cases h with
    | plain names => rw [List.map_eq_nil_iff.1 hitems.symm]
    | rest names _ => cases List.append_ne_nil_of_right_ne_nil _ (List.cons_ne_nil _ _) hitems.symm
  · rintro rfl
    exact .plain []

theorem describes_cons_iff {item : Value} {items : List Value} {params : Params} :
    store.Describes (item :: items) params ↔
      (∃ name others, item = .symbol name ∧ store.Describes items others ∧
        params = ⟨name :: others.required, others.rest⟩) ∨
      (∃ name, store.Chain item [.symbol .restMarker, .symbol name] .nil ∧ items = [] ∧
        params = ⟨[], some name⟩) := by
  constructor
  · intro h
    generalize hitems : item :: items = written at h
    cases h with
    | plain names =>
        cases names with
        | nil => cases hitems
        | cons name names =>
            obtain ⟨rfl, rfl⟩ := List.cons.inj hitems
            exact .inl ⟨name, ⟨names, none⟩, rfl, .plain names, rfl⟩
    | @rest names marked name hmarked =>
        cases names with
        | nil =>
            obtain ⟨rfl, rfl⟩ := List.cons.inj hitems
            exact .inr ⟨name, hmarked, rfl, rfl⟩
        | cons first names =>
            obtain ⟨rfl, rfl⟩ := List.cons.inj hitems
            exact .inl ⟨first, ⟨names, some name⟩, rfl, .rest names hmarked, rfl⟩
  · rintro (⟨name, others, rfl, hothers, rfl⟩ | ⟨name, hmarked, rfl, rfl⟩)
    · cases hothers with
      | plain names => exact .plain (name :: names)
      | rest names hmarked => exact .rest (name :: names) hmarked
    · exact .rest [] hmarked

theorem chain_pair_iff {ref : CellRef} {first last : Value} {items : List Value} :
    store.Chain (.pair ref) (first :: items) last ↔
      store.car ref = first ∧ store.Chain (store.cdr ref) items last := by
  constructor
  · intro h
    cases h with
    | link hrest => exact ⟨rfl, hrest⟩
  · rintro ⟨rfl, hrest⟩
    exact .link hrest

theorem paramName_eq_ok_iff {position : Nat} {item : Value} {name : Symbol} {isRest : Bool} :
    store.paramName position item = .ok (name, isRest) ↔
      (isRest = false ∧ item = .symbol name) ∨
      (isRest = true ∧ store.Chain item [.symbol .restMarker, .symbol name] .nil) := by
  cases item with
  | symbol other =>
      constructor
      · intro h
        cases h
        exact .inl ⟨rfl, rfl⟩
      · rintro (⟨rfl, heq⟩ | ⟨-, hmarked⟩)
        · cases heq
          rfl
        · cases hmarked
  | pair ref =>
      rw [chain_pair_iff, ← elements_eq_ok_iff, paramName]
      by_cases hmarker : store.car ref = .symbol .restMarker
      · rw [if_pos hmarker]
        split
        · next other hother => simp [hmarker, hother, eq_comm, and_comm]
        · next hnot =>
            have hother : store.elements (store.cdr ref) ≠ .ok [.symbol name] := hnot name
            simp [hother]
      · simp [hmarker]
  | _ =>
      constructor
      · intro h
        cases h
      · rintro (⟨-, heq⟩ | ⟨-, hmarked⟩)
        · cases heq
        · cases hmarked

/-- Behind a rest parameter there may be nothing. -/
theorem addParams_eq_ok_iff_of_rest {spec : Value} {params result : Params} {position : Nat}
    {items : List Value} (hrest : params.rest.isSome = true) :
    store.addParams spec params position items = .ok result ↔ items = [] ∧ result = params := by
  cases items with
  | nil => simp [addParams, eq_comm]
  | cons item items => simp [addParams, hrest]

theorem addParams_cons_eq_ok_iff {spec item : Value} {items : List Value}
    {required : List Symbol} {result : Params} {position : Nat} :
    store.addParams spec ⟨required, none⟩ position (item :: items) = .ok result ↔
      ∃ name isRest, store.paramName position item = .ok (name, isRest) ∧ name ∉ required ∧
        store.addParams spec (Params.add ⟨required, none⟩ name isRest) (position + 1) items =
          .ok result := by
  have hnames : (⟨required, none⟩ : Params).names = required := List.append_nil required
  simp only [addParams, Option.isSome_none, Bool.false_eq_true, if_false, hnames]
  rcases store.paramName position item with fault | ⟨name, isRest⟩
  · simp
  · simp only [Except.ok.injEq, Prod.mk.injEq, List.contains_iff_mem]
    constructor
    · intro h
      split at h
      · cases h
      · next hfresh => exact ⟨name, isRest, ⟨rfl, rfl⟩, hfresh, h⟩
    · rintro ⟨_, _, ⟨rfl, rfl⟩, hfresh, h⟩
      rwa [if_neg hfresh]

/-- **What the loop accepts.** Behind the distinct names found so far, the items that are left may
be symbols and a rest parameter, as long as all names are distinct. -/
theorem addParams_eq_ok_iff {spec : Value} {items : List Value} {required : List Symbol}
    {result : Params} {position : Nat} (hdistinct : required.Nodup) :
    store.addParams spec ⟨required, none⟩ position items = .ok result ↔
      ∃ more, store.Describes items more ∧ result = ⟨required ++ more.required, more.rest⟩ ∧
        result.names.Nodup := by
  have hnext : ∀ {required : List Symbol} {name : Symbol}, required.Nodup → name ∉ required →
      (required ++ [name]).Nodup := by grind
  induction items generalizing required position with
  | nil =>
      simp only [describes_nil_iff, addParams, exists_eq_left, List.append_nil, Except.ok.injEq]
      constructor
      · rintro rfl
        exact ⟨rfl, by simpa [Params.names] using hdistinct⟩
      · rintro ⟨rfl, -⟩
        rfl
  | cons item items ih =>
      rw [addParams_cons_eq_ok_iff]
      constructor
      · rintro ⟨name, isRest, hname, hfresh, hitems⟩
        rcases paramName_eq_ok_iff.1 hname with ⟨rfl, rfl⟩ | ⟨rfl, hmarked⟩
        · obtain ⟨others, hothers, rfl, hnodup⟩ := (ih (hnext hdistinct hfresh)).1 hitems
          refine ⟨⟨name :: others.required, others.rest⟩,
            describes_cons_iff.2 (.inl ⟨name, others, rfl, hothers, rfl⟩), ?_, hnodup⟩
          rw [List.append_assoc]
          rfl
        · obtain ⟨rfl, rfl⟩ := (addParams_eq_ok_iff_of_rest rfl).1 hitems
          refine ⟨⟨[], some name⟩, describes_cons_iff.2 (.inr ⟨name, hmarked, rfl, rfl⟩), ?_,
            hnext hdistinct hfresh⟩
          rw [List.append_nil]
          rfl
      · rintro ⟨more, hmore, rfl, hnodup⟩
        rcases describes_cons_iff.1 hmore with
          ⟨name, others, rfl, hothers, rfl⟩ | ⟨name, hmarked, rfl, rfl⟩
        · have hfresh : name ∉ required := by
            intro hmem
            have hrequired := (List.nodup_append.1 hnodup).1
            exact (List.nodup_append.1 hrequired).2.2 name hmem name List.mem_cons_self rfl
          refine ⟨name, false, rfl, hfresh,
            (ih (hnext hdistinct hfresh)).2 ⟨others, hothers, ?_, hnodup⟩⟩
          rw [List.append_assoc]
          rfl
        · have hfresh : name ∉ required := by
            intro hmem
            exact (List.nodup_append.1 hnodup).2.2 name (List.mem_append_left _ hmem) name
              List.mem_cons_self rfl
          refine ⟨name, true, paramName_eq_ok_iff.2 (.inr ⟨rfl, hmarked⟩), hfresh, ?_⟩
          rw [List.append_nil]
          rfl

/-- **Which parameter lists are accepted.** -/
theorem params_eq_ok_iff {spec : Value} {params : Params} :
    store.params spec = .ok params ↔
      ∃ items, store.Chain spec items .nil ∧ store.Describes items params ∧
        params.names.Nodup := by
  simp only [← elements_eq_ok_iff]
  rw [Store.params]
  rcases helements : store.elements spec with fault | items
  · simp
  · simp only [Except.ok.injEq, exists_eq_left', addParams_eq_ok_iff List.nodup_nil,
      List.nil_append]
    constructor
    · rintro ⟨more, hmore, rfl, hnodup⟩
      exact ⟨hmore, hnodup⟩
    · rintro ⟨hparams, hnodup⟩
      exact ⟨params, hparams, rfl, hnodup⟩

end Store

/-! ### Binding distinct names -/

namespace Table

variable {α : Type} {definitions : List (Symbol × α)} {name : Symbol}

theorem lookup_insertAll_of_notMem (table : Table α) (h : name ∉ definitions.map Prod.fst) :
    (table.insertAll definitions).lookup name = table.lookup name := by
  induction definitions generalizing table with
  | nil => rfl
  | cons definition rest ih =>
      rw [List.map_cons, List.mem_cons, not_or] at h
      exact (ih _ h.2).trans (lookup_insert_of_ne h.1 table definition.2)

/-- **Distinct names have their values**: no definition is made over another one. -/
theorem lookup_insertAll_of_mem (table : Table α) {value : α}
    (hdistinct : (definitions.map Prod.fst).Nodup) (hmem : (name, value) ∈ definitions) :
    (table.insertAll definitions).lookup name = some value := by
  induction definitions generalizing table with
  | nil => cases hmem
  | cons definition rest ih =>
      obtain ⟨hfirst, hrest⟩ := List.nodup_cons.1 hdistinct
      rcases List.mem_cons.1 hmem with rfl | hmem
      · exact (lookup_insertAll_of_notMem _ hfirst).trans (lookup_insert_self table name value)
      · exact ih _ hrest hmem

end Table

namespace Store

variable {store : Store}

theorem Puts.again {target : Item} {first second : Entry} {before middle after : Store}
    (h : Puts target first before middle) (h' : Puts target second middle after) :
    Puts target second before after := by
  refine ⟨h'.size.trans h.size, fun item => ?_⟩
  rw [h'.find?]
  split
  · rfl
  · next hne => exact h.find?_of_ne hne

theorem Puts.frame?_self {ref : FrameRef} {frame : Frame} {before after : Store}
    (h : Puts (.frame ref) (.frame frame) before after) : after.frame? ref = some frame := by
  have hfind := h.find?_self
  rw [find?_frame] at hfind
  obtain ⟨found, hfound, heq⟩ := Option.map_eq_some_iff.1 hfind
  rw [hfound, Entry.frame.inj heq]

/-- All that binding names in a frame does is to define them there. -/
theorem puts_bindAll {ref : FrameRef} {frame : Frame} (hframe : store.frame? ref = some frame)
    (names : List Symbol) (values : List Value) :
    Puts (.frame ref) (.frame { frame with table := frame.table.insertAll (names.zip values) })
      store (store.bindAll ref names values) := by
  unfold bindAll
  generalize names.zip values = definitions
  induction definitions generalizing store frame with
  | nil =>
      refine ⟨rfl, fun item => ?_⟩
      split
      · next heq => rw [heq, List.foldl_nil, find?_frame, hframe]; rfl
      · rfl
  | cons definition rest ih =>
      have hput := puts_modifyTable hframe (·.insert definition.1 definition.2)
      exact hput.again (ih hput.frame?_self)

/-! ### The list of the remaining arguments -/

/-- Whatever is in one store is in the other, too. -/
def Retains (before after : Store) : Prop :=
  ∀ item entry, before.find? item = some entry → after.find? item = some entry

theorem Puts.retains {target : Item} {entry : Entry} {before after : Store}
    (h : Puts target entry before after) (hfree : before.find? target = none) :
    before.Retains after := by
  intro item found hfound
  have hne : item ≠ target := by
    rintro rfl
    cases hfree.symm.trans hfound
  rw [h.find?_of_ne hne, hfound]

/-- The value is a proper list of the items, in pairs of which none was there before. -/
inductive FreshList (before after : Store) : Value → List Value → Prop
  | nil : FreshList before after .nil []
  | cons {ref : CellRef} {item rest : Value} {items : List Value} :
      before.find? (.cell ref) = none → after.find? (.cell ref) = some (.cell ⟨item, rest⟩) →
      FreshList before after rest items → FreshList before after (.pair ref) (item :: items)

theorem FreshList.congr {before after before' after' : Store} {list : Value} {items : List Value}
    (h : FreshList before after list items)
    (hfree : ∀ ref, before.find? (.cell ref) = none → before'.find? (.cell ref) = none)
    (hkept : ∀ ref cell, after.find? (.cell ref) = some cell →
      after'.find? (.cell ref) = some cell) :
    FreshList before' after' list items := by
  induction h with
  | nil => exact .nil
  | cons hnew hcell _ ih => exact .cons (hfree _ hnew) (hkept _ _ hcell) ih

/-- **A list is made of new pairs**, and nothing else is changed. -/
theorem freshList_list {arena : Nat} (harena : arena < store.arenas.size) (items : List Value) :
    (store.list arena items).2.arenas.size = store.arenas.size ∧
      store.Retains (store.list arena items).2 ∧
      FreshList store (store.list arena items).2 (store.list arena items).1 items := by
  induction items with
  | nil => exact ⟨rfl, fun _ _ h => h, .nil⟩
  | cons item items ih =>
      obtain ⟨hsize, hretains, hfresh⟩ := ih
      set made := store.list arena items
      have hlist : store.list arena (item :: items) = made.2.cons arena item made.1 := rfl
      obtain ⟨hvalue, hput⟩ := puts_cons (hsize ▸ harena) item made.1
      rw [hlist, hvalue]
      -- the place of the new pair was free when the others were made, and so it was before
      set ref : CellRef := ⟨arena, (made.2.extent arena).cells⟩
      have hfree : made.2.find? (.cell ref) = none := find?_eq_none (Nat.le_refl _)
      have hkept := hput.retains hfree
      refine ⟨hput.size.trans hsize, fun _ _ h => hkept _ _ (hretains _ _ h),
        .cons ?_ hput.find?_self (hfresh.congr (fun _ h => h) fun _ _ h => hkept _ _ h)⟩
      rw [Option.eq_none_iff_forall_ne_some]
      intro entry hentry
      cases hfree.symm.trans (hretains _ _ hentry)

/-! ### Binding arguments -/

/-- The arguments are bound to the parameters in a frame: each required name to the argument in its
place, and the rest parameter to a new list of the arguments that are left. Nothing else that was
there has changed, in this frame or anywhere. -/
structure Binds (params : Params) (args : List Value) (ref : FrameRef) (before after : Store) :
    Prop where
  required (index : Nat) (name : Symbol) : params.required[index]? = some name →
    ∃ arg, args[index]? = some arg ∧ (after.table ref).lookup name = some arg
  rest (name : Symbol) : params.rest = some name →
    ∃ list, (after.table ref).lookup name = some list ∧
      FreshList before after list (args.drop params.required.length)
  others (name : Symbol) : name ∉ params.names →
    (after.table ref).lookup name = (before.table ref).lookup name
  around : (after.frame ref).ancestors = (before.frame ref).ancestors
  elsewhere (item : Item) (entry : Entry) : item ≠ .frame ref →
    before.find? item = some entry → after.find? item = some entry

/-- The definitions that binding arguments makes. -/
theorem bindArgs_defines {arena : Nat} {params : Params} {ref : FrameRef} {frame : Frame}
    (harena : arena < store.arenas.size) (hframe : store.frame? ref = some frame)
    (args : List Value) :
    let after := store.bindArgs arena params ref args
    ∃ last : List Value, last.length = params.rest.toList.length ∧
      (∀ list ∈ last, FreshList store after list (args.drop params.required.length)) ∧
      after.frame? ref = some { frame with
        table := frame.table.insertAll
          (params.required.zip args ++ params.rest.toList.zip last) } ∧
      ∀ item entry, item ≠ .frame ref → store.find? item = some entry →
        after.find? item = some entry := by
  intro after
  have hput := puts_bindAll hframe params.required args
  obtain ⟨required, _ | name⟩ := params
  · refine ⟨[], rfl, List.forall_mem_nil _, ?_, fun item entry hne h => ?_⟩
    · rw [Option.toList_none, List.zip_nil_left, List.append_nil]
      exact hput.frame?_self
    · exact (hput.find?_of_ne hne).trans h
  · set bound := store.bindAll ref required args
    obtain ⟨-, hretains, hfresh⟩ := freshList_list (hput.size ▸ harena : arena < bound.arenas.size)
      (args.drop required.length)
    set made := bound.list arena (args.drop required.length)
    have hmade := (frame?_listWithTail bound arena (args.drop required.length) .nil ref).trans
      hput.frame?_self
    have hlast := puts_modifyTable hmade (·.insert name made.1)
    have hafter : after = made.2.bind ref name made.1 := rfl
    have hcell : ∀ cell, Item.cell cell ≠ .frame ref := by
      intro cell h
      cases h
    refine ⟨[made.1], rfl, ?_, ?_, fun item entry hne h => ?_⟩
    · rw [List.forall_mem_singleton]
      refine hfresh.congr (fun cell h => ?_) fun cell entry h => ?_
      · rwa [hput.find?_of_ne (hcell cell)] at h
      · exact (hlast.find?_of_ne (hcell cell)).trans h
    · rw [Table.insertAll_append]
      exact hlast.frame?_self
    · exact (hlast.find?_of_ne hne).trans (hretains _ _ ((hput.find?_of_ne hne).trans h))

/-- **What binding arguments does**, if the names are distinct and there are enough arguments. -/
theorem bindArgs_binds {arena : Nat} {params : Params} {ref : FrameRef} {args : List Value}
    (harena : arena < store.arenas.size) (hframe : (store.frame? ref).isSome = true)
    (hdistinct : params.names.Nodup) (hcount : params.required.length ≤ args.length) :
    Binds params args ref store (store.bindArgs arena params ref args) := by
  obtain ⟨frame, hframe⟩ := Option.isSome_iff_exists.1 hframe
  obtain ⟨last, hlength, hfresh, hafter, helsewhere⟩ := bindArgs_defines harena hframe args
  set after := store.bindArgs arena params ref args
  set definitions := params.required.zip args ++ params.rest.toList.zip last with hdefinitions
  have hnames : definitions.map Prod.fst = params.names := by
    rw [hdefinitions, List.map_append, List.map_fst_zip hcount, List.map_fst_zip hlength.ge]
    rfl
  have htable : after.table ref = frame.table.insertAll definitions := by
    rw [table, Store.frame, hafter]
    rfl
  have hdefined : ∀ {name value}, (name, value) ∈ definitions →
      (after.table ref).lookup name = some value := by
    intro name value hmem
    rw [htable]
    exact Table.lookup_insertAll_of_mem _ (hnames ▸ hdistinct) hmem
  refine ⟨fun index name hname => ?_, fun name hname => ?_, fun name hname => ?_, ?_, helsewhere⟩
  · obtain ⟨hindex, -⟩ := List.getElem?_eq_some_iff.1 hname
    have harg : args[index]? = some args[index] := List.getElem?_eq_getElem _
    refine ⟨args[index], harg, hdefined (List.mem_append_left _ ?_)⟩
    exact List.mem_of_getElem? (List.getElem?_zip_eq_some.2 ⟨hname, harg⟩)
  · rw [hname] at hlength
    obtain ⟨list, rfl⟩ := List.length_eq_one_iff.1 hlength
    refine ⟨list, hdefined (List.mem_append_right _ ?_), hfresh list List.mem_cons_self⟩
    rw [hname]
    exact List.mem_cons_self
  · rw [htable, Table.lookup_insertAll_of_notMem _ (hnames ▸ hname), table, Store.frame, hframe]
    rfl
  · rw [Store.frame, Store.frame, hframe, hafter]
    rfl

end Store

/-! ### The number of arguments -/

/-- There are as many arguments as required parameters, or at least as many if a rest parameter
takes the others. -/
def Params.Takes (params : Params) (count : Nat) : Prop :=
  if params.rest = none then count = params.required.length else params.required.length ≤ count

theorem Params.admits_expected {params : Params} {count : Nat} :
    params.expected.admits count = true ↔ params.Takes count := by
  obtain ⟨required, _ | name⟩ := params <;> simp [expected, Expected.admits, Takes]

instance (params : Params) (count : Nat) : Decidable (params.Takes count) :=
  decidable_of_iff _ Params.admits_expected

theorem Params.Takes.length_le {params : Params} {count : Nat} (h : params.Takes count) :
    params.required.length ≤ count := by
  rw [Takes] at h
  split at h
  · exact h.ge
  · exact h

namespace Store

variable {store : Store}

theorem bindParams_eq_ok_iff {arena : Nat} {who : String} {params : Params} {ref : FrameRef}
    {args : List Value} {after : Store} :
    store.bindParams arena who params ref args = .ok after ↔
      params.Takes args.length ∧ after = store.bindArgs arena params ref args := by
  rw [← Params.admits_expected, bindParams, Params.arityFault?]
  by_cases h : params.expected.admits args.length = true
  · simp [h, eq_comm]
  · simp [h]

theorem bindParams_eq_error_iff {arena : Nat} {who : String} {params : Params} {ref : FrameRef}
    {args : List Value} {fault : ArityFault} :
    store.bindParams arena who params ref args = .error fault ↔
      ¬params.Takes args.length ∧ fault = ⟨who, params.expected, args.length⟩ := by
  rw [← Params.admits_expected, bindParams, Params.arityFault?]
  by_cases h : params.expected.admits args.length = true
  · simp [h]
  · simp [h, eq_comm]

end Store

namespace Eval

open EvalM

/-- A call binds its arguments in a new frame and runs the body there; if there are too many or too
few, the new frame stays as it is. -/
theorem outcome_invoke (session : Session) (perform : Task → EvalM Value) (ref : LambdaRef)
    (anonymous : String) (args : List Value) (held : List Hold) (machine : Machine) :
    let lambda := machine.store.lambda ref
    let who := (lambda.name.map (·.spelling)).getD anonymous
    let extended := machine.store.extend session.arena lambda.scope
    let bound := extended.2.bindParams session.arena who lambda.params extended.1 args
    (∀ fault, bound = .error fault →
      (invoke session perform ref anonymous args).outcome held machine =
        (.error (.error (.arity fault)), { machine with store := extended.2 })) ∧
    (∀ after, bound = .ok after →
      (invoke session perform ref anonymous args).outcome held machine =
        (within extended.1 (evalBody perform lambda.body extended.1)).outcome held
          { machine with store := after }) := by
  intro lambda who extended bound
  unfold invoke
  rw [outcome_bind_ok (outcome_inspect _ _ _), outcome_bind_ok (outcome_update _ _ _)]
  rcases hfound : lambda.params.arityFault? who args.length with _ | found
  · simp only [bound, Store.bindParams, hfound]
    refine ⟨fun fault h => ?_, fun after h => ?_⟩
    · cases h
    · cases h
      rfl
  · simp only [bound, Store.bindParams, hfound]
    refine ⟨fun fault h => ?_, fun after h => ?_⟩
    · cases h
      rfl
    · cases h

/-- **Parameter lists are checked, and arguments bound, exactly.** A value is accepted as a
parameter list just if it is a proper list of symbols, behind which there may be one rest parameter,
and all names are distinct; the parameters are these names. Later on, in any store and any frame of
it, arguments can be bound to such parameters just if their number is right. Then each required name
has its argument, the rest parameter has a new list of all the others, and nothing else has changed.
Otherwise the arity is reported. A call does this in a new frame: it runs its body once the
arguments are bound, and if they cannot be, it fails and has bound nothing. -/
theorem parameters_are_checked_and_bound :
    (∀ (store : Store) (spec : Value) (params : Params), store.params spec = .ok params ↔
      ∃ items, store.Chain spec items .nil ∧ store.Describes items params ∧
        params.names.Nodup) ∧
    (∀ (defined : Store) (spec : Value) (params : Params), defined.params spec = .ok params →
      ∀ (store : Store) (arena : Nat) (who : String) (ref : FrameRef) (args : List Value),
        arena < store.arenas.size → (store.frame? ref).isSome = true →
        ((∃ after, store.bindParams arena who params ref args = .ok after) ↔
          params.Takes args.length) ∧
        (∀ after, store.bindParams arena who params ref args = .ok after →
          Store.Binds params args ref store after) ∧
        (∀ fault, store.bindParams arena who params ref args = .error fault →
          fault = ⟨who, params.expected, args.length⟩)) ∧
    (∀ (session : Session) (perform : Task → EvalM Value) (lambda : LambdaRef)
      (anonymous : String) (args : List Value) (held : List Hold) (machine : Machine),
      let code := machine.store.lambda lambda
      let who := (code.name.map (·.spelling)).getD anonymous
      let extended := machine.store.extend session.arena code.scope
      let bound := extended.2.bindParams session.arena who code.params extended.1 args
      (∀ fault, bound = .error fault →
        (invoke session perform lambda anonymous args).outcome held machine =
          (.error (.error (.arity fault)), { machine with store := extended.2 })) ∧
      (∀ after, bound = .ok after →
        (invoke session perform lambda anonymous args).outcome held machine =
          (within extended.1 (evalBody perform code.body extended.1)).outcome held
            { machine with store := after })) := by
  refine ⟨fun _ _ _ => Store.params_eq_ok_iff,
    fun defined spec params hparams store arena who ref args harena hframe => ⟨?_, ?_, ?_⟩,
    outcome_invoke⟩
  · simp only [Store.bindParams_eq_ok_iff, exists_and_left, exists_eq, and_true]
  · intro after hafter
    obtain ⟨items, -, -, hdistinct⟩ := Store.params_eq_ok_iff.1 hparams
    obtain ⟨htakes, rfl⟩ := Store.bindParams_eq_ok_iff.1 hafter
    exact Store.bindArgs_binds harena hframe hdistinct htakes.length_le
  · intro fault hfault
    exact (Store.bindParams_eq_error_iff.1 hfault).2

/-- The parameters `(a (&REST b))`, with one argument for `a` and two for `b`, or with none. -/
theorem parameters_are_checked_and_bound_with_rest :
    let a := Symbol.ofString "a"
    let b := Symbol.ofString "b"
    let params : Params := ⟨[a], some b⟩
    let built := Store.ofDatum ⟨#[{ frames := #[{}] }]⟩ 0
      (.list [.symbol a, .list [.symbol .restMarker, .symbol b]])
    let bind := built.2.bindParams 0 "f" params ⟨0, 0⟩
    built.2.params built.1 = .ok params ∧
      (∃ after, bind [.integer 1, .t, .nil] = .ok after ∧
        Store.Binds params [.integer 1, .t, .nil] ⟨0, 0⟩ built.2 after) ∧
      ¬∃ after, bind [] = .ok after := by
  intro a b params built bind
  have hparams : built.2.params built.1 = .ok params := by rfl
  have hbinds := parameters_are_checked_and_bound.2.1 built.2 built.1 params hparams built.2 0 "f"
    ⟨0, 0⟩
  obtain ⟨hfull, hafter, -⟩ := hbinds [.integer 1, .t, .nil] (by decide) (by decide)
  obtain ⟨hempty, -⟩ := hbinds [] (by decide) (by decide)
  refine ⟨hparams, ?_, fun h => ?_⟩
  · obtain ⟨after, h⟩ := hfull.2 (by decide)
    exact ⟨after, h, hafter after h⟩
  · exact absurd (hempty.1 h) (by decide)

end Eval

end SmallLisp
