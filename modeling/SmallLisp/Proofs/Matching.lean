import Mathlib.Data.List.Forall2
import SmallLisp.Eval.Template
import SmallLisp.Proofs.Chains
import SmallLisp.Proofs.Trees

/-!
# Values that match

Items of one store may be linked with items of another, one to one. Values match if they are the
same up to these links: a pair matches the pair that its cell is linked with, and whatever has no
place matches itself only. If the parts of linked pairs match, and linked lambdas have the same
name, then nobody can tell matching values apart by looking at them. They are printed alike, the
elements of matching lists match, and comparing them gives the same answer, wherever their pairs
are.

## Main results

* `ShowAlike.elements`, `ShowAlike.print`, `ShowAlike.params`, `ShowAlike.equal?` — what is seen of
  matching values is the same, or matches.
-/

namespace SmallLisp

open List (Forall₂)

/-- The results are values that are related, or they are the same error. -/
inductive EqualUpTo {ε α β : Type} (R : α → β → Prop) : Except ε α → Except ε β → Prop
  | ok {a : α} {b : β} : R a b → EqualUpTo R (.ok a) (.ok b)
  | error (cause : ε) : EqualUpTo R (.error cause) (.error cause)

theorem EqualUpTo.refl {ε α : Type} (result : Except ε α) : EqualUpTo Eq result result := by
  cases result with
  | ok a => exact .ok rfl
  | error cause => exact .error cause

/-- The values are the same but for their places, which are linked. -/
inductive Value.Matches (link : Item → Item → Prop) : Value → Value → Prop
  | nil : Matches link .nil .nil
  | t : Matches link .t .t
  | integer (value : Int64) : Matches link (.integer value) (.integer value)
  | symbol (name : Symbol) : Matches link (.symbol name) (.symbol name)
  | pair {a b : CellRef} : link (.cell a) (.cell b) → Matches link (.pair a) (.pair b)
  | closure {a b : LambdaRef} : link (.lambda a) (.lambda b) →
      Matches link (.closure a) (.closure b)
  | expander {a b : LambdaRef} : link (.lambda a) (.lambda b) →
      Matches link (.expander a) (.expander b)
  | builtin (name : Symbol) : Matches link (.builtin name) (.builtin name)

namespace Value

variable {link : Item → Item → Prop} {value other : Value}

theorem Matches.imp {link' : Item → Item → Prop} (h : value.Matches link other)
    (himp : ∀ item item', link item item' → link' item item') : value.Matches link' other := by
  cases h with
  | nil => exact .nil
  | t => exact .t
  | integer n => exact .integer n
  | symbol name => exact .symbol name
  | pair href => exact .pair (himp _ _ href)
  | closure href => exact .closure (himp _ _ href)
  | expander href => exact .expander (himp _ _ href)
  | builtin name => exact .builtin name

theorem Matches.symm (h : value.Matches link other) :
    other.Matches (fun item item' => link item' item) value := by
  cases h with
  | nil => exact .nil
  | t => exact .t
  | integer n => exact .integer n
  | symbol name => exact .symbol name
  | pair href => exact .pair href
  | closure href => exact .closure href
  | expander href => exact .expander href
  | builtin name => exact .builtin name

theorem Matches.isPair_eq (h : value.Matches link other) : value.isPair = other.isPair := by
  cases h <;> rfl

theorem Matches.typeName_eq (h : value.Matches link other) : value.typeName = other.typeName := by
  cases h <;> rfl

theorem Matches.symbol?_eq (h : value.Matches link other) : value.symbol? = other.symbol? := by
  cases h <;> rfl

theorem Matches.integer?_eq (h : value.Matches link other) : value.integer? = other.integer? := by
  cases h <;> rfl

/-- A value without a place is matched by itself only. -/
theorem Matches.eq_iff_of_items_eq_nil (h : value.Matches link other) {constant : Value}
    (hconstant : constant.items = []) : value = constant ↔ other = constant := by
  cases h with
  | pair href => constructor <;> (rintro rfl; cases hconstant)
  | closure href => constructor <;> (rintro rfl; cases hconstant)
  | expander href => constructor <;> (rintro rfl; cases hconstant)
  | _ => exact Iff.rfl

theorem Matches.isTruthy_eq (h : value.Matches link other) : value.isTruthy = other.isTruthy := by
  cases h <;> rfl

theorem matches_self_of_items_eq_nil (h : value.items = []) : value.Matches link value := by
  cases value with
  | nil => exact .nil
  | t => exact .t
  | integer n => exact .integer n
  | symbol name => exact .symbol name
  | builtin name => exact .builtin name
  | _ => cases h

theorem matches_ofBool (b : Bool) : (ofBool b).Matches link (ofBool b) := by
  cases b
  · exact .nil
  · exact .t

/-- What matches identical values is identical, since links are one to one. -/
theorem Matches.eq_iff (hunique : Relator.BiUnique link) {first second first' second' : Value}
    (h : first.Matches link first') (h' : second.Matches link second') :
    first = second ↔ first' = second' := by
  cases h with
  | pair href =>
      cases h' with
      | pair href' =>
          rw [Value.pair.injEq, Value.pair.injEq]
          exact ⟨fun heq => Item.cell.inj (hunique.2 href (heq ▸ href')),
            fun heq => Item.cell.inj (hunique.1 href (heq ▸ href'))⟩
      | _ => simp
  | closure href =>
      cases h' with
      | closure href' =>
          rw [Value.closure.injEq, Value.closure.injEq]
          exact ⟨fun heq => Item.lambda.inj (hunique.2 href (heq ▸ href')),
            fun heq => Item.lambda.inj (hunique.1 href (heq ▸ href'))⟩
      | _ => simp
  | expander href =>
      cases h' with
      | expander href' =>
          rw [Value.expander.injEq, Value.expander.injEq]
          exact ⟨fun heq => Item.lambda.inj (hunique.2 href (heq ▸ href')),
            fun heq => Item.lambda.inj (hunique.1 href (heq ▸ href'))⟩
      | _ => simp
  | _ => cases h' <;> simp

end Value

namespace Store

/-- Linked items are shown alike: the parts of linked pairs match, and linked lambdas have the same
name. -/
structure ShowAlike (link : Item → Item → Prop) (left right : Store) : Prop where
  unique : Relator.BiUnique link
  car {a b : CellRef} : link (.cell a) (.cell b) → (left.car a).Matches link (right.car b)
  cdr {a b : CellRef} : link (.cell a) (.cell b) → (left.cdr a).Matches link (right.cdr b)
  name {a b : LambdaRef} : link (.lambda a) (.lambda b) →
    (left.lambda a).name = (right.lambda b).name

/-- The elements of two lists match, or the reasons why there are none do. -/
inductive ElementsMatch (link : Item → Item → Prop) :
    Except ListFault (List Value) → Except ListFault (List Value) → Prop
  | ok {items items' : List Value} : Forall₂ (Value.Matches link) items items' →
      ElementsMatch link (.ok items) (.ok items')
  | circular : ElementsMatch link (.error .circular) (.error .circular)
  | endsIn {last last' : Value} : last.Matches link last' →
      ElementsMatch link (.error (.endsIn last)) (.error (.endsIn last'))

namespace ShowAlike

variable {link : Item → Item → Prop} {left right : Store} (h : ShowAlike link left right)
include h

theorem symm : ShowAlike (fun item item' => link item' item) right left where
  unique := ⟨fun _ _ _ h₁ h₂ => h.unique.2 h₁ h₂, fun _ _ _ h₁ h₂ => h.unique.1 h₁ h₂⟩
  car href := (h.car href).symm
  cdr href := (h.cdr href).symm
  name href := (h.name href).symm

/-! ### Lists -/

theorem chain {value value' last : Value} {items : List Value}
    (hchain : left.Chain value items last) (hvalue : value.Matches link value') :
    ∃ items' last', right.Chain value' items' last' ∧ Forall₂ (Value.Matches link) items items' ∧
      last.Matches link last' := by
  induction hchain generalizing value' with
  | stop hstop => exact ⟨[], value', .stop (hvalue.isPair_eq ▸ hstop), .nil, hvalue⟩
  | link _ ih =>
      cases hvalue with
      | pair href =>
          obtain ⟨items', last', hchain', hitems, hlast⟩ := ih (h.cdr href)
          exact ⟨_, last', .link hchain', .cons (h.car href) hitems, hlast⟩

/-- **The elements of matching lists match.** -/
theorem elements {value value' : Value} (hvalue : value.Matches link value') :
    ElementsMatch link (left.elements value) (right.elements value') := by
  by_cases hleft : ∃ items last, left.Chain value items last
  · obtain ⟨items, last, hchain⟩ := hleft
    obtain ⟨items', last', hchain', hitems, hlast⟩ := h.chain hchain hvalue
    rw [elements_of_chain hchain, elements_of_chain hchain']
    cases hlast with
    | nil => exact .ok hitems
    | t => exact .endsIn .t
    | integer n => exact .endsIn (.integer n)
    | symbol name => exact .endsIn (.symbol name)
    | pair href => exact .endsIn (.pair href)
    | closure href => exact .endsIn (.closure href)
    | expander href => exact .endsIn (.expander href)
    | builtin name => exact .endsIn (.builtin name)
  · -- links go both ways, so a chain that ends on the right would end on the left
    have hright : ¬∃ items last, right.Chain value' items last := by
      rintro ⟨items, last, hchain⟩
      obtain ⟨items', last', hchain', -⟩ := h.symm.chain hchain hvalue.symm
      exact hleft ⟨items', last', hchain'⟩
    rw [elements_of_not_chain hleft, elements_of_not_chain hright]
    exact .circular

/-! ### Printed forms -/

theorem atomText {value value' : Value} (hvalue : value.Matches link value') :
    left.atomText value = right.atomText value' := by
  cases hvalue with
  | closure href => rw [Store.atomText, h.name href, Store.atomText]
  | expander href => rw [Store.atomText, h.name href, Store.atomText]
  | _ => rfl

/-- The text of a value depends on which pairs are being written, but not on where they are. -/
theorem join_piecesAt {value value' : Value} (hvalue : value.Matches link value')
    {path path' : Path} (hpath : ∀ a b, link (.cell a) (.cell b) → (a ∈ path ↔ b ∈ path'))
    (position : Position) :
    Piece.join (left.piecesAt path position value) =
      Piece.join (right.piecesAt path' position value') := by
  induction path, value using left.path_induction generalizing path' value' position with
  | atom path value hatom =>
      have hatom' : value'.isPair = false := hvalue.isPair_eq ▸ hatom
      by_cases hnil : value = .nil
      · obtain rfl := (hvalue.eq_iff_of_items_eq_nil rfl).1 hnil
        subst hnil
        rw [piecesAt_nil, piecesAt_nil]
      · have hnil' : value' ≠ .nil := fun heq => hnil ((hvalue.eq_iff_of_items_eq_nil rfl).2 heq)
        rw [piecesAt_atom hatom hnil, piecesAt_atom hatom' hnil', h.atomText hvalue]
  | marked path ref hmem =>
      cases hvalue with
      | pair href =>
          rw [piecesAt_marked hmem, piecesAt_marked ((hpath _ _ href).1 hmem), Piece.join_leaf,
            Piece.join_leaf]
          rfl
  | fresh path ref hmem ihcar ihcdr =>
      cases hvalue with
      | @pair _ ref' href =>
          have hmem' : ref' ∉ path' := fun hin => hmem ((hpath _ _ href).2 hin)
          -- links are one to one, so the two paths agree with the linked pairs on them as well
          have hinsert : ∀ a b, link (.cell a) (.cell b) →
              (a ∈ path.insert ref ↔ b ∈ path'.insert ref') := by
            intro a b hab
            have hsame : ref = a ↔ ref' = b :=
              ⟨fun heq => Item.cell.inj (h.unique.2 (heq ▸ href) hab),
                fun heq => Item.cell.inj (h.unique.1 (heq ▸ href) hab)⟩
            rw [Path.mem_insert, Path.mem_insert, hpath a b hab, hsame]
          rw [piecesAt_fresh hmem, piecesAt_fresh hmem', Piece.join_nest, Piece.join_nest,
            Piece.join_append, Piece.join_append, ihcar (h.car href) hinsert,
            ihcdr (h.cdr href) hinsert]

/-- **Matching values are printed alike.** -/
theorem print {value value' : Value} (hvalue : value.Matches link value') :
    left.print value = right.print value' := by
  rw [print_eq, print_eq]
  exact h.join_piecesAt hvalue (fun a b _ => by simp) .element

theorem properElements {value value' : Value} (hvalue : value.Matches link value') :
    EqualUpTo (Forall₂ (Value.Matches link)) (left.properElements value)
      (right.properElements value') := by
  have helements := h.elements hvalue
  rw [Store.properElements, Store.properElements]
  generalize left.elements value = found at helements
  generalize right.elements value' = found' at helements
  cases helements with
  | ok hitems => exact .ok hitems
  | circular => exact .error _
  | endsIn hlast =>
      dsimp only
      rw [h.print hlast]
      exact .error _

/-! ### Templates and parameters -/

theorem marked? (head : Symbol) {value value' : Value} (hvalue : value.Matches link value') :
    Option.Rel (Value.Matches link) (left.marked? head value) (right.marked? head value') := by
  cases hvalue with
  | @pair ref ref' href =>
      have hhead := (h.car href).eq_iff_of_items_eq_nil
        (show (Value.symbol head).items = [] from rfl)
      have hrest := h.cdr href
      simp only [Store.marked?, hhead]
      split
      · generalize left.cdr ref = rest at hrest ⊢
        generalize right.cdr ref' = rest' at hrest ⊢
        cases hrest with
        | pair href' =>
            have hnil := (h.cdr href').eq_iff_of_items_eq_nil (show Value.nil.items = [] from rfl)
            simp only [hnil]
            split
            · exact .some (h.car href')
            · exact .none
        | _ => exact .none
      · exact .none
  | _ => exact .none

theorem isMarked {value value' : Value} (hvalue : value.Matches link value') :
    left.isMarked value = right.isMarked value' := by
  have hsome : ∀ head, (left.marked? head value).isSome = (right.marked? head value').isSome := by
    intro head
    have hmarked := h.marked? head hvalue
    generalize left.marked? head value = found at hmarked
    generalize right.marked? head value' = found' at hmarked
    cases hmarked <;> rfl
  rw [Store.isMarked, hsome, hsome, Store.isMarked]

theorem paramName (position : Nat) {item item' : Value} (hitem : item.Matches link item') :
    left.paramName position item = right.paramName position item' := by
  have hprint := h.print hitem
  cases hitem with
  | @pair ref ref' href =>
      have hmarker := (h.car href).eq_iff_of_items_eq_nil
        (show (Value.symbol .restMarker).items = [] from rfl)
      have helements := h.elements (h.cdr href)
      simp only [Store.paramName, hprint, hmarker]
      generalize left.elements (left.cdr ref) = found at helements
      generalize right.elements (right.cdr ref') = found' at helements
      split
      · cases helements with
        | ok hitems =>
            cases hitems with
            | nil => rfl
            | cons hname hothers =>
                cases hothers with
                | nil => cases hname <;> rfl
                | cons _ _ => cases hname <;> rfl
        | circular => rfl
        | endsIn _ => rfl
      · rfl
  | symbol name => rfl
  | _ => simp only [Store.paramName, hprint]

theorem addParams {spec spec' : Value} (hspec : spec.Matches link spec') (params : Params)
    (position : Nat) {items items' : List Value}
    (hitems : Forall₂ (Value.Matches link) items items') :
    left.addParams spec params position items = right.addParams spec' params position items' := by
  induction hitems generalizing params position with
  | nil => rfl
  | cons hitem _ ih =>
      simp only [Store.addParams, h.print hspec, h.paramName position hitem, ih]

/-- **Matching parameter lists** describe the same parameters. -/
theorem params {spec spec' : Value} (hspec : spec.Matches link spec') :
    left.params spec = right.params spec' := by
  have helements := h.elements hspec
  rw [Store.params, Store.params, h.print hspec]
  generalize left.elements spec = found at helements
  generalize right.elements spec' = found' at helements
  cases helements with
  | ok hitems => exact h.addParams hspec {} 1 hitems
  | circular => rfl
  | endsIn _ => rfl

/-! ### Structural equality -/

theorem equalWithin (bound : Nat) {first second first' second' : Value}
    (hfirst : first.Matches link first') (hsecond : second.Matches link second') :
    left.equalWithin bound first second = right.equalWithin bound first' second' := by
  induction bound generalizing first second first' second' with
  | zero =>
      simp only [Store.equalWithin, hfirst.eq_iff h.unique hsecond, hfirst.isPair_eq,
        hsecond.isPair_eq]
  | succ bound ih =>
      rw [Store.equalWithin.eq_def, Store.equalWithin.eq_def right]
      simp only [hfirst.eq_iff h.unique hsecond]
      split
      · rfl
      · cases hfirst with
        | pair ha =>
            cases hsecond with
            | pair hb => simp only [ih (h.car ha) (h.car hb), ih (h.cdr ha) (h.cdr hb)]
            | _ => rfl
        | _ => cases hsecond <;> rfl

/-- **Comparing matching values gives the same answer**, however many pairs either store has. -/
theorem equal? {first second first' second' : Value} (hfirst : first.Matches link first')
    (hsecond : second.Matches link second') :
    left.equal? first second = right.equal? first' second' := by
  let bound := max ((left.cellCount + 2) * (left.cellCount + 2))
    ((right.cellCount + 2) * (right.cellCount + 2))
  calc left.equal? first second = left.equalWithin bound first second :=
        (equalWithin_eq_equal? first second (Nat.le_max_left _ _)).symm
    _ = right.equalWithin bound first' second' := h.equalWithin bound hfirst hsecond
    _ = right.equal? first' second' := equalWithin_eq_equal? first' second' (Nat.le_max_right _ _)

end ShowAlike

end Store

end SmallLisp
