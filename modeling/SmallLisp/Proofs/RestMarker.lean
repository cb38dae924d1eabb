import SmallLisp.Eval.Special
import SmallLisp.Proofs.Agreement
import SmallLisp.Proofs.Grammar
import SmallLisp.Proofs.ReadBack

/-!
# The rest marker in parameter lists

The reader makes a list of a rest marker and the symbol behind it. As an item of a parameter list
this is the rest parameter. But such a list can also be what is left of the parameter list, behind
a dot, or the whole of it. Then the marker is the name of a required parameter, and the symbol
behind it is another one.

So what becomes of a rest marker in the text of a parameter list can be told from the token in
front of it.

## Main results

* `Store.Denotes.params` — a value that is taken for a parameter list is the list of the
  parameters, with the rest parameter marked.
* `Phrase.markedBy` — what becomes of the rest markers in the text of a parameter list.
* `Phrase.covers` — every element of a list that was read has a text of its own.
* `Datum.rest_marker_in_params` — both for texts.
-/

namespace SmallLisp

/-! ### Parameters as data -/

/-- The items of a parameter list: the names in order, the last one marked if it is the rest
parameter. -/
def Params.items (params : Params) : List Datum :=
  params.required.map .symbol ++
    (params.rest.map fun name => Datum.list [.symbol .restMarker, .symbol name]).toList

theorem Params.items_add {params : Params} (h : params.rest = none) (name : Symbol)
    (isRest : Bool) :
    (params.add name isRest).items = params.items ++
      [if isRest then Datum.list [.symbol .restMarker, .symbol name] else .symbol name] := by
  cases isRest <;> simp [add, items, h]

namespace Datum

theorem list_cons (first : Datum) (others : List Datum) :
    list (first :: others) = .pair first (list others) := rfl

theorem list_inj {items others : List Datum} : list items = list others ↔ items = others := by
  refine ⟨fun h => ?_, congrArg list⟩
  induction items generalizing others with
  | nil =>
      cases others with
      | nil => rfl
      | cons _ _ => cases h
  | cons first rest ih =>
      cases others with
      | nil => cases h
      | cons _ _ =>
          obtain ⟨rfl, hrest⟩ := Datum.pair.inj h
          rw [ih hrest]

theorem list_ne_symbol (items : List Datum) (name : Symbol) : list items ≠ .symbol name := by
  cases items <;> intro h <;> cases h

/-- A list is what stands before a dot together with what is left behind it. -/
theorem listWithTail_eq_list {front items : List Datum} {tail : Datum}
    (h : listWithTail front tail = list items) :
    ∃ rest, items = front ++ rest ∧ tail = list rest := by
  induction front generalizing items with
  | nil => exact ⟨items, rfl, h⟩
  | cons first front ih =>
      cases items with
      | nil => cases h
      | cons item items =>
          obtain ⟨rfl, hrest⟩ := Datum.pair.inj h
          obtain ⟨rest, rfl, htail⟩ := ih hrest
          exact ⟨rest, rfl, htail⟩

end Datum

namespace Store

variable {store : Store} {value : Value} {datum : Datum}

/-- The elements of a list unfold to the items of its datum. -/
theorem Denotes.elements (h : store.Denotes value datum) {values : List Value}
    (helements : store.elements value = .ok values) :
    ∃ items, datum = .list items ∧ List.Forall₂ store.Denotes values items := by
  have hchain := chain_of_elements helements
  generalize hlast : Value.nil = last at hchain
  induction hchain generalizing datum with
  | stop _ =>
      subst hlast
      cases h
      exact ⟨[], rfl, .nil⟩
  | link hrest ih =>
      cases h with
      | pair hcell hcar hcdr =>
          rw [← car_eq hcell] at hcar
          rw [← cdr_eq hcell] at hcdr
          obtain ⟨items, rfl, hitems⟩ := ih hcdr (elements_of_chain (hlast ▸ hrest)) hlast
          exact ⟨_ :: items, rfl, .cons hcar hitems⟩

theorem Denotes.paramName (h : store.Denotes value datum) {position : Nat} {name : Symbol}
    {isRest : Bool} (hname : store.paramName position value = .ok (name, isRest)) :
    datum = if isRest then .list [.symbol .restMarker, .symbol name] else .symbol name := by
  cases h with
  | symbol other =>
      obtain ⟨rfl, rfl⟩ := Prod.mk.inj (Except.ok.inj hname)
      rfl
  | @pair ref cell car cdr hcell hcar hcdr =>
      simp only [Store.paramName] at hname
      split at hname
      · next hmarker =>
          split at hname
          · next other helements =>
              obtain ⟨rfl, rfl⟩ := Prod.mk.inj (Except.ok.inj hname)
              rw [car_eq hcell] at hmarker
              rw [cdr_eq hcell] at helements
              rw [hmarker] at hcar
              cases hcar
              obtain ⟨items, rfl, hitems⟩ := hcdr.elements helements
              cases hitems with
              | cons hitem hnone =>
                  cases hitem
                  cases hnone
                  rfl
          · cases hname
      · cases hname
  | _ => cases hname

theorem Denotes.addParams {spec : Value} {params result : Params} {position : Nat}
    {values : List Value} {items : List Datum} (hitems : List.Forall₂ store.Denotes values items)
    (h : store.addParams spec params position values = .ok result) :
    result.items = params.items ++ items := by
  induction hitems generalizing params position with
  | nil => rw [← Except.ok.inj h, List.append_nil]
  | cons hitem hrest ih =>
      simp only [Store.addParams] at h
      split at h
      · cases h
      · next hopen =>
          split at h
          · cases h
          · next name isRest hname =>
              split at h
              · cases h
              · have hnone : params.rest = none := by simpa using hopen
                rw [ih h, Params.items_add hnone, ← hitem.paramName hname, List.append_assoc]
                rfl

/-- **A value that is taken for a parameter list** is the list of the parameters. -/
theorem Denotes.params (h : store.Denotes value datum) {params : Params}
    (hparams : store.params value = .ok params) : datum = .list params.items := by
  rw [Store.params] at hparams
  split at hparams
  · cases hparams
  · next values helements =>
      obtain ⟨items, rfl, hitems⟩ := h.elements helements
      rw [Denotes.addParams hitems hparams]
      rfl

end Store

/-! ### What stands in front of rest markers -/

namespace TokenKind

/-- What stands directly in front of each rest marker, if anything does. -/
def fronts (before : Option TokenKind) : List TokenKind → List (Option TokenKind)
  | [] => []
  | kind :: kinds => (if kind = .rest then [before] else []) ++ fronts (some kind) kinds

/-- A rest marker stands directly behind a token that is not a dot. -/
def Announces (before : Option TokenKind) (kinds : List TokenKind) : Prop :=
  ∃ kind, some kind ∈ fronts before kinds ∧ kind ≠ .dot

/-- A rest marker stands at the beginning or directly behind a dot. -/
def Leaks (before : Option TokenKind) (kinds : List TokenKind) : Prop :=
  none ∈ fronts before kinds ∨ some .dot ∈ fronts before kinds

theorem fronts_append_of_ne (before : Option TokenKind) (kinds : List TokenKind) {last : TokenKind}
    (hlast : last ≠ .rest) : fronts before (kinds ++ [last]) = fronts before kinds := by
  induction kinds generalizing before with
  | nil => simp [fronts, hlast]
  | cons kind kinds ih => simp [fronts, ih]

/-- Names are no rest markers, and what stands behind them does not stand behind a dot. -/
theorem fronts_names {kind : TokenKind} (hkind : kind ≠ .dot) (names : List String) :
    ∃ last, last ≠ .dot ∧ ∀ kinds,
      fronts (some kind) (names.map .symbol ++ kinds) = fronts (some last) kinds := by
  induction names generalizing kind with
  | nil => exact ⟨kind, hkind, fun _ => rfl⟩
  | cons name names ih =>
      have hname : TokenKind.symbol name ≠ .dot := by simp
      obtain ⟨last, hlast, hfronts⟩ := ih hname
      exact ⟨last, hlast, fun kinds => by simp [fronts, hfronts]⟩

theorem announces_or_leaks_iff (before : Option TokenKind) {kinds : List TokenKind} :
    Announces before kinds ∨ Leaks before kinds ↔ .rest ∈ kinds := by
  have hfronts : .rest ∈ kinds ↔ ∃ front, front ∈ fronts before kinds := by
    induction kinds generalizing before with
    | nil => simp [fronts]
    | cons kind kinds ih =>
        by_cases h : kind = .rest
        · exact iff_of_true (by simp [h]) ⟨before, by simp [fronts, h]⟩
        · simpa [fronts, h, eq_comm] using ih (some kind)
  rw [hfronts]
  constructor
  · rintro (⟨kind, hmem, -⟩ | hmem | hmem) <;> exact ⟨_, hmem⟩
  · rintro ⟨_ | kind, hmem⟩
    · exact .inr (.inl hmem)
    · by_cases hdot : kind = .dot
      · exact .inr (.inr (hdot ▸ hmem))
      · exact .inl ⟨kind, hmem, hdot⟩

theorem announces_dot_iff (kinds : List TokenKind) :
    Announces (some .dot) kinds ↔ Announces none kinds := by
  cases kinds with
  | nil => simp [Announces, fronts]
  | cons kind kinds => by_cases h : kind = .rest <;> simp [Announces, fronts, h]

theorem leaks_dot_iff (kinds : List TokenKind) : Leaks (some .dot) kinds ↔ Leaks none kinds := by
  cases kinds with
  | nil => simp [Leaks, fronts]
  | cons kind kinds => by_cases h : kind = .rest <;> simp [Leaks, fronts, h]

/-- Markers behind tokens that are not dots, and the markers behind the dot that follows. -/
theorem announces_leaks_iff {kinds behind : List TokenKind} {found : List (Option TokenKind)}
    (hfound : ∀ front ∈ found, ∃ kind, front = some kind ∧ kind ≠ .dot)
    (h : fronts none kinds = found ++ fronts (some .dot) behind) :
    (Announces none kinds ↔ found ≠ [] ∨ Announces none behind) ∧
      (Leaks none kinds ↔ Leaks none behind) := by
  have hnone : none ∉ found := fun hmem => by
    obtain ⟨_, heq, -⟩ := hfound _ hmem
    cases heq
  have hdot : some .dot ∉ found := fun hmem => by
    obtain ⟨_, heq, hne⟩ := hfound _ hmem
    exact hne (Option.some.inj heq).symm
  rw [← announces_dot_iff behind, ← leaks_dot_iff behind]
  refine ⟨⟨?_, ?_⟩, by simp [Leaks, h, hnone, hdot]⟩
  · rintro ⟨kind, hmem, hne⟩
    rw [h] at hmem
    rcases List.mem_append.1 hmem with hmem | hmem
    · exact .inl (List.ne_nil_of_mem hmem)
    · exact .inr ⟨kind, hmem, hne⟩
  · rintro (hne | ⟨kind, hmem, hne⟩)
    · obtain ⟨front, hmem⟩ := List.exists_mem_of_ne_nil found hne
      obtain ⟨kind, rfl, hkind⟩ := hfound front hmem
      exact ⟨kind, h ▸ List.mem_append_left _ hmem, hkind⟩
    · exact ⟨kind, h ▸ List.mem_append_right _ hmem, hne⟩

end TokenKind

open TokenKind

/-- No parameter is the rest marker, and there is a rest parameter just if there is a marker in the
text. -/
def Params.AsMarked (params : Params) (kinds : List TokenKind) : Prop :=
  .restMarker ∉ params.names ∧ (params.rest.isSome ↔ .rest ∈ kinds)

/-- What has become of the rest markers in the text of a parameter list. The rest parameter is
never the marker itself. There is one just if a marker stands directly behind a token that is not a
dot. A marker is taken for a required parameter just if one stands at the beginning or directly
behind a dot. -/
structure Params.MarkedBy (params : Params) (kinds : List TokenKind) : Prop where
  notMarker : params.rest ≠ some .restMarker
  rest : params.rest.isSome ↔ Announces none kinds
  required : .restMarker ∈ params.required ↔ Leaks none kinds

theorem Params.MarkedBy.asMarked_iff {params : Params} {kinds : List TokenKind}
    (h : params.MarkedBy kinds) : params.AsMarked kinds ↔ ¬Leaks none kinds := by
  have hnames : .restMarker ∈ params.names ↔ Leaks none kinds := by
    rw [Params.names, List.mem_append, h.required, Option.mem_toList]
    exact or_iff_left h.notMarker
  rw [AsMarked, hnames, h.rest, ← announces_or_leaks_iff none]
  tauto

/-- The items of a parameter list are divided between two names, or behind the last item. -/
theorem Params.items_eq_append {required : List Symbol} {rest : Option Symbol}
    {front behind : List Datum} (h : items ⟨required, rest⟩ = front ++ behind) :
    (∃ first others, required = first ++ others ∧ front = items ⟨first, none⟩ ∧
      behind = items ⟨others, rest⟩) ∨
    front = items ⟨required, rest⟩ ∧ behind = items ⟨[], none⟩ := by
  rcases List.append_eq_append_iff.1 h with ⟨between, rfl, hrest⟩ | ⟨between, hnames, rfl⟩
  · cases rest with
    | none =>
        obtain ⟨rfl, rfl⟩ := List.append_eq_nil_iff.1 hrest.symm
        exact .inl ⟨required, [], by simp, by simp [items], by simp [items]⟩
    | some name =>
        rcases List.append_eq_singleton_iff.1 hrest.symm with ⟨rfl, rfl⟩ | ⟨rfl, rfl⟩
        · exact .inl ⟨required, [], by simp, by simp [items], by simp [items]⟩
        · exact .inr ⟨by simp [items], by simp [items]⟩
  · obtain ⟨first, others, rfl, rfl, rfl⟩ := List.map_eq_append_iff.1 hnames
    exact .inl ⟨first, others, rfl, by simp [items], by simp [items]⟩

namespace Phrase

/-- No name among the tokens is spelled like the rest marker. -/
def Plain (kinds : List TokenKind) : Prop :=
  ∀ name, .symbol name ∈ kinds → Symbol.ofString name ≠ .restMarker

theorem Plain.subset {kinds others : List TokenKind} (h : Plain kinds) (hsub : others ⊆ kinds) :
    Plain others :=
  fun name hmem => h name (hsub hmem)

theorem head_ne_restMarker (mark : QuoteMark) : mark.head ≠ .restMarker := by
  cases mark <;> decide

/-- Only a rest marker with a name behind it means a marked name. -/
theorem eq_rest_of_meaning {form : Phrase .form} (hplain : Plain form.kinds) {symbol : Symbol}
    (h : form.meaning = .list [.symbol .restMarker, .symbol symbol]) :
    ∃ name, form.kinds = [.rest, .symbol name] ∧ symbol = .ofString name := by
  -- The first item of a list is not the marker.
  have hfirst : ∀ first : Phrase .form, first.kinds ⊆ form.kinds →
      first.meaning ≠ .symbol .restMarker := by
    intro first hsub hmarker
    obtain ⟨name, rfl, -, hname⟩ := eq_symbol_of_meaning hmarker
    exact hplain name (hsub List.mem_cons_self) hname.symm
  cases form with
  | rest name isSymbol =>
      obtain ⟨-, hsymbol⟩ := Datum.pair.inj h
      obtain ⟨hsymbol, -⟩ := Datum.pair.inj hsymbol
      exact ⟨name, rfl, (Datum.symbol.inj hsymbol).symm⟩
  | marked mark form =>
      obtain ⟨hhead, -⟩ := Datum.pair.inj h
      exact absurd (Datum.symbol.inj hhead) (head_ne_restMarker mark)
  | list items =>
      cases items with
      | none => cases h
      | more first others =>
          obtain ⟨hmarker, -⟩ := Datum.pair.inj h
          exact absurd hmarker (hfirst first (by simp [kinds]))
  | dotted first others tail =>
      obtain ⟨hmarker, -⟩ := Datum.pair.inj h
      exact absurd hmarker (hfirst first (by simp [kinds]))
  | symbol name =>
      simp only [meaning, Datum.ofName] at h
      split at h
      · cases h
      · split at h <;> cases h
  | integer value => cases h

/-- The tokens of the items of a parameter list. -/
theorem kinds_of_items {items : Phrase .forms} (hplain : Plain items.kinds)
    {required : List Symbol} {rest : Option Symbol}
    (h : items.meaning = Params.items ⟨required, rest⟩) :
    ∃ (names : List String) (last : Option String), required = names.map Symbol.ofString ∧
      rest = last.map Symbol.ofString ∧
      items.kinds = names.map .symbol ++ (last.map fun name => [.rest, .symbol name]).getD [] := by
  obtain ⟨forms, rfl⟩ := exists_sequence items
  rw [meaning_sequence] at h
  induction required generalizing forms with
  | nil =>
      cases rest with
      | none =>
          obtain rfl := List.map_eq_nil_iff.1 h
          exact ⟨[], .none, rfl, rfl, rfl⟩
      | some symbol =>
          obtain ⟨form, rfl, hform⟩ := List.map_eq_singleton_iff.1 h
          have hkinds : (sequence [form]).kinds = form.kinds := by simp [kinds]
          obtain ⟨name, hname, rfl⟩ := eq_rest_of_meaning (hkinds ▸ hplain) hform
          exact ⟨[], some name, rfl, rfl, hkinds.trans hname⟩
  | cons symbol required ih =>
      obtain ⟨form, forms, rfl, hform, hforms⟩ := List.map_eq_cons_iff.1 h
      obtain ⟨name, rfl, -, rfl⟩ := eq_symbol_of_meaning hform
      have hrest : Plain (sequence forms).kinds :=
        hplain.subset fun kind hmem => List.mem_append_right _ hmem
      obtain ⟨names, last, rfl, rfl, hkinds⟩ := ih forms hrest hforms
      exact ⟨name :: names, last, rfl, rfl, by simp [kinds, hkinds]⟩

/-- What becomes of the rest markers in the items of a list, whatever stands behind them. -/
theorem fronts_of_items {items : Phrase .forms} (hplain : Plain items.kinds)
    {required : List Symbol} {rest : Option Symbol}
    (h : items.meaning = Params.items ⟨required, rest⟩) {before : TokenKind}
    (hbefore : before ≠ .dot) :
    .restMarker ∉ required ∧ rest ≠ some .restMarker ∧
      ∃ found last, (∀ front ∈ found, ∃ kind, front = some kind ∧ kind ≠ .dot) ∧
        (rest.isSome ↔ found ≠ []) ∧
        ∀ behind, fronts (some before) (items.kinds ++ behind) =
          found ++ fronts (some last) behind := by
  obtain ⟨names, last, rfl, rfl, hkinds⟩ := kinds_of_items hplain h
  obtain ⟨kind, hkind, hfronts⟩ := fronts_names hbefore names
  refine ⟨fun hmem => ?_, fun hmarker => ?_, ?_⟩
  · obtain ⟨name, hname, hmarker⟩ := List.mem_map.1 hmem
    exact hplain name (by simp [hkinds, hname]) hmarker
  · obtain ⟨name, rfl, heq⟩ := Option.map_eq_some_iff.1 hmarker
    exact hplain name (by simp [hkinds]) heq
  · simp only [hkinds, List.append_assoc, hfronts]
    cases last with
    | none => exact ⟨[], kind, by simp, by simp, by simp⟩
    | some name => exact ⟨[some kind], .symbol name, by simp [hkind], by simp, by simp [fronts]⟩

theorem kind_ne (mark : QuoteMark) : mark.kind ≠ .dot ∧ mark.kind ≠ .rest := by
  constructor <;> intro h <;> cases mark <;> cases h

/-- A parameter list whose markers all stand behind tokens that are not dots. -/
theorem markedBy_of_fronts {required : List Symbol} {rest : Option Symbol}
    {kinds : List TokenKind} {found : List (Option TokenKind)} (hnot : .restMarker ∉ required)
    (hrest : rest ≠ some .restMarker)
    (hfound : ∀ front ∈ found, ∃ kind, front = some kind ∧ kind ≠ .dot)
    (hsome : rest.isSome ↔ found ≠ []) (h : fronts .none kinds = found) :
    Params.MarkedBy ⟨required, rest⟩ kinds := by
  have hend : fronts .none kinds = found ++ fronts (some .dot) [] := by
    rw [h, fronts, List.append_nil]
  obtain ⟨hannounces, hleaks⟩ := announces_leaks_iff hfound hend
  refine ⟨hrest, ?_, ?_⟩
  · rw [hannounces, hsome]
    simp [Announces, fronts]
  · rw [hleaks]
    simp [Leaks, fronts, hnot]

theorem markedBy_symbol {name : String} {params : Params}
    (h : (symbol name).meaning = .list params.items) : params.MarkedBy [.symbol name] := by
  have hnil : params.items = [] := by
    simp only [meaning, Datum.ofName] at h
    split at h
    · exact Datum.list_inj.1 (h.symm : _ = Datum.list [])
    · cases hitems : params.items with
      | nil => rfl
      | cons item items =>
          rw [hitems, Datum.list_cons] at h
          split at h <;> cases h
  obtain ⟨required, rest⟩ := params
  obtain ⟨hrequired, hrest⟩ := List.append_eq_nil_iff.1 hnil
  obtain rfl := List.map_eq_nil_iff.1 hrequired
  obtain rfl : rest = .none := by simpa using hrest
  have hfronts : fronts .none [.symbol name] = [] := by simp [fronts]
  exact markedBy_of_fronts (by simp) (by simp) (by simp) (by simp) hfronts

theorem markedBy_marked {mark : QuoteMark} {form : Phrase .form} (hplain : Plain form.kinds)
    {params : Params} (h : (marked mark form).meaning = .list params.items) :
    params.MarkedBy (mark.kind :: form.kinds) := by
  obtain ⟨required, rest⟩ := params
  obtain ⟨hdot, hrest⟩ := kind_ne mark
  have hitems : [.symbol mark.head, form.meaning] = Params.items ⟨required, rest⟩ :=
    Datum.list_inj.1 h
  -- The quotation mark is read as the first parameter.
  have hfirst : ∃ others, required = mark.head :: others ∧
      (sequence [form]).meaning = Params.items ⟨others, rest⟩ := by
    cases required with
    | nil => cases rest <;> simp [Params.items] at hitems
    | cons first others =>
        obtain ⟨hhead, hothers⟩ := List.cons.inj hitems
        obtain rfl := Datum.symbol.inj hhead
        exact ⟨others, rfl, (meaning_sequence [form]).trans hothers⟩
  obtain ⟨others, rfl, hone⟩ := hfirst
  have hkinds : (sequence [form]).kinds = form.kinds := by simp [kinds]
  obtain ⟨hnot, hmarker, found, last, hfound, hsome, hfronts⟩ :=
    fronts_of_items (hkinds ▸ hplain) hone hdot
  refine markedBy_of_fronts ?_ hmarker hfound hsome ?_
  · exact List.not_mem_cons_of_ne_of_not_mem (head_ne_restMarker mark).symm hnot
  · have hend := hfronts []
    rw [hkinds, List.append_nil] at hend
    simp [fronts, hrest, hend]

theorem markedBy_rest {name : String} {params : Params}
    (h : Datum.list [.symbol .restMarker, .symbol (.ofString name)] = .list params.items) :
    params.MarkedBy [.rest, .symbol name] := by
  obtain ⟨required, rest⟩ := params
  have hitems : _ = Params.items ⟨required, rest⟩ := Datum.list_inj.1 h
  have hall : required = [.restMarker, .ofString name] ∧ rest = .none := by
    rcases required with _ | ⟨first, _ | ⟨second, others⟩⟩ <;> cases rest <;>
      simp [Params.items, Datum.list_cons] at hitems
    obtain ⟨rfl, rfl, rfl⟩ := hitems
    exact ⟨rfl, rfl⟩
  obtain ⟨rfl, rfl⟩ := hall
  exact ⟨by simp, by simp [Announces, fronts], by simp [Leaks, fronts]⟩

/-- Behind a dot stands another parameter list, and what holds of it holds of the whole one. -/
theorem markedBy_dotted {first : Phrase .form} {others : Phrase .forms} {tail : Phrase .form}
    (hplain : Plain (dotted first others tail).kinds)
    (hmarked : Plain tail.kinds → ∀ {params : Params}, tail.meaning = .list params.items →
      params.MarkedBy tail.kinds)
    {params : Params} (h : (dotted first others tail).meaning = .list params.items) :
    params.MarkedBy (dotted first others tail).kinds := by
  obtain ⟨required, rest⟩ := params
  obtain ⟨behind, hitems, htail⟩ := Datum.listWithTail_eq_list h
  have hfront : Plain (more first others).kinds :=
    hplain.subset fun kind hmem => by
      simp only [kinds, List.mem_append] at hmem
      rcases hmem with hmem | hmem <;> simp [kinds, hmem]
  have hbehind : Plain tail.kinds := hplain.subset fun kind hmem => by simp [kinds, hmem]
  have hopen : TokenKind.openParen ≠ .dot := by simp
  have hclose : TokenKind.closeParen ≠ .rest := by simp
  have hdotted : ∀ {found last}, (∀ behind, fronts (some .openParen)
      ((more first others).kinds ++ behind) = found ++ fronts (some last) behind) →
      fronts .none (dotted first others tail).kinds =
        found ++ fronts (some .dot) tail.kinds := by
    intro found last hfronts
    simp [-kinds, kinds_dotted, fronts, hfronts, fronts_append_of_ne _ _ hclose]
  -- The rest parameter, if there is one, stands behind the dot or in front of it.
  rcases Params.items_eq_append hitems with ⟨front, names, rfl, hfirst, rfl⟩ | ⟨hall, rfl⟩
  · obtain ⟨hrest, hsome, hmarker⟩ := hmarked hbehind htail
    obtain ⟨hnot, -, found, last, hfound, hnone, hfronts⟩ := fronts_of_items hfront hfirst hopen
    obtain ⟨hannounces, hleaks⟩ := announces_leaks_iff hfound (hdotted hfronts)
    have hnil : found = [] := by simpa using hnone
    refine ⟨hrest, ?_, ?_⟩
    · rw [hannounces, hsome]
      simp [hnil]
    · rw [hleaks, ← hmarker]
      simp [hnot]
  · obtain ⟨-, hsomeTail, hmarkerTail⟩ := hmarked hbehind htail
    obtain ⟨hnot, hrest, found, last, hfound, hsome, hfronts⟩ :=
      fronts_of_items hfront hall hopen
    obtain ⟨hannounces, hleaks⟩ := announces_leaks_iff hfound (hdotted hfronts)
    refine ⟨hrest, ?_, ?_⟩
    · rw [hannounces, ← hsomeTail, hsome]
      simp
    · rw [hleaks, ← hmarkerTail]
      simp [hnot]

/-- **What becomes of the rest markers** in the text of a parameter list. The proof is by induction
on the derivation: behind a dot stands another parameter list. -/
theorem markedBy (form : Phrase .form) (hplain : Plain form.kinds) {params : Params}
    (h : form.meaning = .list params.items) : params.MarkedBy form.kinds := by
  obtain ⟨required, rest⟩ := params
  cases form with
  | integer value => cases required <;> cases rest <;> cases h
  | symbol name => exact markedBy_symbol h
  | marked mark form =>
      have hinner : Plain form.kinds := hplain.subset fun kind hmem => by simp [kinds, hmem]
      exact markedBy_marked hinner h
  | rest name isSymbol => exact markedBy_rest h
  | list items =>
      have hitems := Datum.list_inj.1 h
      have hinner : Plain items.kinds := hplain.subset fun kind hmem => by simp [kinds, hmem]
      have hopen : TokenKind.openParen ≠ .dot := by simp
      obtain ⟨hnot, hrest, found, last, hfound, hsome, hfronts⟩ :=
        fronts_of_items hinner hitems hopen
      refine markedBy_of_fronts hnot hrest hfound hsome ?_
      simp [kinds, fronts, hfronts]
  | dotted first others tail => exact markedBy_dotted hplain (markedBy tail) h

end Phrase

/-! ### Parameter lists inside a text -/

/-- A form stands in a datum: it is the datum, or stands in one of its parts. -/
inductive Datum.Occurs (form : Datum) : Datum → Prop
  | self : Occurs form form
  | car {car cdr : Datum} : Occurs form car → Occurs form (.pair car cdr)
  | cdr {car cdr : Datum} : Occurs form cdr → Occurs form (.pair car cdr)

/-- The form makes a lambda, and this part of it is for the parameters. -/
def Datum.MakesLambda (form spec : Datum) : Prop :=
  ∃ head body others,
    (SpecialForm.ofSymbol? head = some .lambda ∧
      form = .listWithTail [.symbol head, spec, body] others) ∨
    ∃ name, (SpecialForm.ofSymbol? head = some .defineFunction ∨
        SpecialForm.ofSymbol? head = some .defineExpander) ∧
      form = .listWithTail [.symbol head, name, spec, body] others

namespace Datum

theorem Occurs.trans {form middle datum : Datum} (h : form.Occurs middle)
    (hmiddle : middle.Occurs datum) : form.Occurs datum := by
  induction hmiddle with
  | self => exact h
  | car _ ih => exact .car ih
  | cdr _ ih => exact .cdr ih

/-- The part for the parameters is an element of a list. -/
theorem MakesLambda.occurs {form spec : Datum} (h : form.MakesLambda spec) :
    ∃ rest, (pair spec rest).Occurs form := by
  obtain ⟨head, body, others, ⟨-, rfl⟩ | ⟨name, -, rfl⟩⟩ := h
  · exact ⟨_, .cdr .self⟩
  · exact ⟨_, .cdr (.cdr .self)⟩

/-- A pair that stands in a list begins at one of the items, stands in one of them, or stands in
the tail. -/
theorem occurs_listWithTail {first rest : Datum} {items : List Datum} {tail : Datum}
    (h : (pair first rest).Occurs (listWithTail items tail)) :
    (∃ item ∈ items, first = item ∨ (pair first rest).Occurs item) ∨
      (pair first rest).Occurs tail := by
  induction items with
  | nil => exact .inr h
  | cons item items ih =>
      cases h with
      | self => exact .inl ⟨first, List.mem_cons_self, .inl rfl⟩
      | car hcar => exact .inl ⟨item, List.mem_cons_self, .inr hcar⟩
      | cdr hcdr =>
          rcases ih hcdr with ⟨other, hmem, hother⟩ | htail
          · exact .inl ⟨other, List.mem_cons_of_mem _ hmem, hother⟩
          · exact .inr htail

theorem occurs_list_two {first rest one other : Datum}
    (h : (pair first rest).Occurs (list [one, other])) :
    (first = one ∨ (pair first rest).Occurs one) ∨
      first = other ∨ (pair first rest).Occurs other := by
  rcases occurs_listWithTail h with ⟨item, hmem, hitem⟩ | htail
  · simp only [List.mem_cons, List.not_mem_nil, or_false] at hmem
    rcases hmem with rfl | rfl
    · exact .inl hitem
    · exact .inr hitem
  · cases htail

end Datum

/-- The tokens are the text of the datum. -/
def TokenKind.Spell (kinds : List TokenKind) (datum : Datum) : Prop :=
  ∃ form : Phrase .form, form.kinds = kinds ∧ form.meaning = datum

namespace Phrase

/-- Some of the tokens, side by side, are the text of the datum, or it is a symbol. -/
def Spelled (kinds : List TokenKind) (datum : Datum) : Prop :=
  (∃ name, datum = .symbol name) ∨ ∃ part, part <:+: kinds ∧ Spell part datum

theorem Spelled.within {kinds others : List TokenKind} {datum : Datum}
    (h : Spelled kinds datum) (hinside : kinds <:+: others) : Spelled others datum := by
  rcases h with hname | ⟨part, hpart, hspell⟩
  · exact .inl hname
  · exact .inr ⟨part, hpart.trans hinside, hspell⟩

theorem spelled_meaning (form : Phrase .form) {kinds : List TokenKind}
    (h : form.kinds <:+: kinds) : Spelled kinds form.meaning :=
  .inr ⟨form.kinds, h, form, rfl, rfl⟩

/-- The tokens of the phrase spell the first part of every pair in its meaning. -/
def Covers : {sort : PhraseSort} → Phrase sort → Prop
  | .form, form => ∀ first rest : Datum, (Datum.pair first rest).Occurs form.meaning →
      Spelled form.kinds first
  | .forms, items => ∀ item ∈ items.meaning, ∀ first rest : Datum,
      first = item ∨ (Datum.pair first rest).Occurs item → Spelled items.kinds first

theorem Covers.marked {mark : QuoteMark} {form : Phrase .form} (h : form.Covers) :
    (marked mark form).Covers := by
  intro first rest hoccurs
  have hinside : form.kinds <:+: (Phrase.marked mark form).kinds :=
    (List.suffix_cons _ _).isInfix
  rcases Datum.occurs_list_two hoccurs with (rfl | hmark) | rfl | hform
  · exact .inl ⟨_, rfl⟩
  · cases hmark
  · exact spelled_meaning form hinside
  · exact (h first rest hform).within hinside

theorem Covers.list {items : Phrase .forms} (h : items.Covers) : (list items).Covers := by
  intro first rest hoccurs
  rcases Datum.occurs_listWithTail hoccurs with ⟨item, hmem, hitem⟩ | htail
  · exact (h item hmem first rest hitem).within ⟨[.openParen], [.closeParen], by simp [kinds]⟩
  · cases htail

theorem Covers.more {first : Phrase .form} {others : Phrase .forms} (hfirst : first.Covers)
    (hothers : others.Covers) : (more first others).Covers := by
  intro item hmem part rest hpart
  have hinside : first.kinds <:+: (Phrase.more first others).kinds :=
    (List.prefix_append _ _).isInfix
  rcases List.mem_cons.1 hmem with rfl | hmem
  · rcases hpart with rfl | hpart
    · exact spelled_meaning first hinside
    · exact (hfirst part rest hpart).within hinside
  · exact (hothers item hmem part rest hpart).within (List.suffix_append _ _).isInfix

theorem Covers.dotted {first : Phrase .form} {others : Phrase .forms} {tail : Phrase .form}
    (hitems : (Phrase.more first others).Covers) (htail : tail.Covers) :
    (dotted first others tail).Covers := by
  intro part rest hoccurs
  rcases Datum.occurs_listWithTail hoccurs with ⟨item, hmem, hitem⟩ | hoccurs
  · refine (hitems item hmem part rest hitem).within
      ⟨[.openParen], .dot :: (tail.kinds ++ [.closeParen]), ?_⟩
    simp [kinds]
  · refine (htail part rest hoccurs).within
      ⟨.openParen :: ((Phrase.more first others).kinds ++ [.dot]), [.closeParen], ?_⟩
    simp [kinds]

/-- **Every element of a list that was read has a text of its own**, unless it is a symbol. -/
theorem covers {sort : PhraseSort} (phrase : Phrase sort) : phrase.Covers := by
  induction phrase with
  | integer value =>
      intro first rest hoccurs
      cases hoccurs
  | symbol name =>
      intro first rest hoccurs
      simp only [meaning, Datum.ofName] at hoccurs
      split at hoccurs
      · cases hoccurs
      · split at hoccurs <;> cases hoccurs
  | marked mark form hform => exact hform.marked
  | rest name isSymbol =>
      intro first rest hoccurs
      rcases Datum.occurs_list_two hoccurs with (rfl | hmark) | rfl | hname
      · exact .inl ⟨_, rfl⟩
      · cases hmark
      · exact .inl ⟨_, rfl⟩
      · cases hname
  | list items hitems => exact hitems.list
  | dotted first others tail hfirst hothers htail => exact (hfirst.more hothers).dotted htail
  | none =>
      intro item hitem
      cases hitem
  | more first others hfirst hothers => exact hfirst.more hothers

/-- No symbol of a text is spelled like the rest marker. -/
theorem plain_of_scan {text : String} {tokens : List Token} (h : Token.scan text = .ok tokens) :
    Plain (tokens.map Token.kind) := by
  intro name hmem hmarker
  obtain ⟨token, hmem, hkind⟩ := List.mem_map.1 hmem
  have hname := Token.spellsName_of_scan h token hmem name hkind
  have hspelling : upper name = "&REST" := congrArg Symbol.spelling hmarker
  have hlegible := Symbol.legible_ofString hname (by rw [hspelling]; decide)
    (by rw [hspelling]; decide)
  exact hlegible.ne_restMarker hmarker

/-- A parameter list, wherever its text stands. -/
theorem markedBy_of_spell {kinds part : List TokenKind} {spec : Datum} (hplain : Plain kinds)
    (hinside : part <:+: kinds) (hspell : Spell part spec) {store : Store} {value : Value}
    (hvalue : store.Denotes value spec) {params : Params} (h : store.params value = .ok params) :
    params.MarkedBy part := by
  obtain ⟨form, rfl, rfl⟩ := hspell
  exact form.markedBy (hplain.subset hinside.subset) (hvalue.params h)

end Phrase

/-- **What becomes of the rest markers in the parameter lists of a text.** Let the text be read as
one datum, and a value that unfolds to it be taken for a parameter list. Then it has a rest
parameter just if a marker stands directly behind a token that is not a dot, and the marker is one
of its required parameters just if it stands at the beginning of the text or directly behind a dot.
So all is as marked just if there is no marker there. The same holds of the parameter lists of the
lambda forms in a text, wherever they stand; each has a text of its own. -/
theorem Datum.rest_marker_in_params {text : String} {body : List Token} {last : Token}
    (h : Token.scan text = .ok (body ++ [last])) :
    (∀ datum, readOne text = .ok datum → ∀ store value params, Store.Denotes store value datum →
      store.params value = .ok params →
        params.MarkedBy (body.map Token.kind) ∧
          (params.AsMarked (body.map Token.kind) ↔ ¬Leaks none (body.map Token.kind))) ∧
    ∀ data, read text = .ok data → ∀ datum ∈ data, ∀ form spec, Occurs form datum →
      MakesLambda form spec → ∀ store value params, Store.Denotes store value spec →
        store.params value = .ok params →
          (∃ part, part <:+: body.map Token.kind ∧ Spell part spec) ∧
          ∀ part, part <:+: body.map Token.kind → Spell part spec →
            params.MarkedBy part ∧ (params.AsMarked part ↔ ¬Leaks none part) := by
  have hplain : Phrase.Plain (body.map Token.kind) :=
    (Phrase.plain_of_scan h).subset (by simp)
  have hphrase : ∀ {limit data}, Reader.ReadsAll limit (body ++ [last]) data →
      ∃ phrase : Phrase .forms, phrase.kinds = body.map Token.kind ∧ phrase.meaning = data := by
    intro limit data hall
    obtain ⟨body', last', htokens, -, hlexemes⟩ := Token.scan_eq_ok h
    obtain ⟨rfl, -⟩ := List.append_inj' htokens rfl
    have hbody : ∀ token ∈ body, token.kind ≠ .eof := fun token hmem heof =>
      Token.not_isLexeme_eof (heof ▸ hlexemes token hmem)
    obtain ⟨phrase, hkinds, -, hmeaning⟩ := Phrase.exists_of_readsAll hall rfl hbody
    exact ⟨phrase, hkinds, hmeaning⟩
  constructor
  · intro datum hread store value params hvalue hparams
    obtain ⟨tokens, hscan, hall⟩ := readOne_eq_ok_iff.1 hread
    obtain rfl := Except.ok.inj (h.symm.trans hscan)
    obtain ⟨phrase, hkinds, hmeaning⟩ := hphrase hall
    obtain ⟨forms, rfl⟩ := Phrase.exists_sequence phrase
    rw [Phrase.meaning_sequence] at hmeaning
    obtain ⟨form, rfl, hform⟩ := List.map_eq_singleton_iff.1 hmeaning
    have hspell : Spell (body.map Token.kind) datum :=
      ⟨form, by rw [← hkinds]; simp [Phrase.kinds], hform⟩
    have hmarked := Phrase.markedBy_of_spell hplain List.infix_rfl hspell hvalue hparams
    exact ⟨hmarked, hmarked.asMarked_iff⟩
  · intro data hread datum hdatum form spec hform hspec store value params hvalue hparams
    obtain ⟨tokens, hscan, hall⟩ := readWith_eq_ok_iff.1 hread
    obtain rfl := Except.ok.inj (h.symm.trans hscan)
    obtain ⟨phrase, hkinds, rfl⟩ := hphrase hall
    refine ⟨?_, fun part hinside hspell => ?_⟩
    · obtain ⟨rest, hoccurs⟩ := hspec.occurs
      rcases phrase.covers datum hdatum spec rest (.inr (hoccurs.trans hform)) with ⟨name, rfl⟩ | h
      · exact absurd (hvalue.params hparams).symm (list_ne_symbol _ _)
      · exact hkinds ▸ h
    · have hmarked := Phrase.markedBy_of_spell hplain hinside hspell hvalue hparams
      exact ⟨hmarked, hmarked.asMarked_iff⟩

/-- Behind the dot stands a quotation mark, and the marker behind that: it announces a rest
parameter. The list is read on its own and as the parameter list of a lambda form. -/
theorem Datum.rest_marker_in_params_marked_tail :
    let spec : Datum := .list [.symbol (.ofString "A"), .symbol .quote,
      .list [.symbol .restMarker, .symbol (.ofString "B")]]
    let form : Datum := .list [.symbol (.ofString "LAMBDA"), spec, .symbol (.ofString "A")]
    let made := Store.ofDatum ⟨#[{}]⟩ 0 spec
    let params : Params := ⟨[.ofString "A", .quote], some (.ofString "B")⟩
    let body : List Token := [⟨.openParen, 0⟩, ⟨.symbol "a", 1⟩, ⟨.dot, 3⟩, ⟨.quote, 5⟩,
      ⟨.rest, 6⟩, ⟨.symbol "b", 12⟩, ⟨.closeParen, 13⟩]
    let around : List Token := [⟨.openParen, 0⟩, ⟨.symbol "lambda", 1⟩] ++
      body.map (fun token => ⟨token.kind, token.offset + 8⟩) ++
        [⟨.symbol "a", 23⟩, ⟨.closeParen, 24⟩]
    Token.scan "(a . '&rest b)" = .ok (body ++ [⟨.eof, 14⟩]) ∧
      Token.scan "(lambda (a . '&rest b) a)" = .ok (around ++ [⟨.eof, 25⟩]) ∧
      made.2.params made.1 = .ok params ∧ MakesLambda form spec ∧
      (params.MarkedBy (body.map Token.kind) ∧
        (params.AsMarked (body.map Token.kind) ↔ ¬Leaks none (body.map Token.kind))) ∧
      ∃ part, part <:+: around.map Token.kind ∧ Spell part spec ∧ params.MarkedBy part := by
  intro spec form made params body around
  have hbody : Token.scan "(a . '&rest b)" = .ok (body ++ [⟨.eof, 14⟩]) :=
    eq_ok_of_toOption (by decide +kernel)
  have haround : Token.scan "(lambda (a . '&rest b) a)" = .ok (around ++ [⟨.eof, 25⟩]) :=
    eq_ok_of_toOption (by decide +kernel)
  have hspec : readOne "(a . '&rest b)" = .ok spec := eq_ok_of_toOption (by decide +kernel)
  have hform : read "(lambda (a . '&rest b) a)" = .ok [form] :=
    eq_ok_of_toOption (by decide +kernel)
  have hmade : made.2.Denotes made.1 spec := (Store.denotes_ofDatum (by decide) spec).1
  have hparams : made.2.params made.1 = .ok params := eq_ok_of_toOption (by decide +kernel)
  have hlambda : MakesLambda form spec := ⟨_, _, _, .inl ⟨by decide, rfl⟩⟩
  obtain ⟨⟨part, hinside, hspell⟩, hmarked⟩ := (rest_marker_in_params haround).2 _ hform form
    List.mem_cons_self form spec .self hlambda _ _ _ hmade hparams
  exact ⟨hbody, haround, hparams, hlambda,
    (rest_marker_in_params hbody).1 spec hspec _ _ _ hmade hparams,
    part, hinside, hspell, (hmarked part hinside hspell).1⟩

/-- A marker directly behind a dot makes two required parameters, one of them the marker itself,
and no rest parameter. -/
theorem Datum.rest_marker_behind_dot :
    let store : Store := ⟨#[{}]⟩
    let read := (readOne "(a . &rest b)").toOption.map (store.ofDatum 0)
    ((Token.scan "(a . &rest b)").toOption.map fun tokens => tokens.map Token.kind) =
        some [.openParen, .symbol "a", .dot, .rest, .symbol "b", .closeParen, .eof] ∧
      (read.bind fun made => (made.2.params made.1).toOption) =
        some ⟨[.ofString "A", .restMarker, .ofString "B"], none⟩ := by
  decide +kernel

end SmallLisp
