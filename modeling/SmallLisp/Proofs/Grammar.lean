import SmallLisp.Proofs.Reading
import SmallLisp.Proofs.Scanning

/-!
# The grammar of forms

A form is an integer, a symbol, a form behind a quote mark, a symbol behind the rest marker, or a
list in parentheses, whose last part may stand behind a dot. A phrase is a derivation in this
grammar: it has tokens, it is nested to some depth, and it means something. A sequence of tokens
has at most one derivation, because each form shows by its first token what it is and ends where
it must.

The reader accepts exactly this grammar. What it has taken at any moment is a phrase whose innermost
constructs are still open, so nothing else is accepted; and it takes the tokens of every phrase
that is not nested too deep.

## Main results

* `Phrase.kinds_injective` — the tokens of a phrase determine it.
* `Opens.takes`, `Opens.reads` — one token, and all tokens taken one after the other, keep what is
  open a phrase of the grammar.
* `Phrase.readable` — the tokens of a phrase are read as what it means.
* `Datum.readWith_iff_phrase` — the reader accepts exactly its grammar.
-/

namespace SmallLisp

/-- A quote mark as a token. -/
def QuoteMark.kind : QuoteMark → TokenKind
  | quote => .quote
  | quasiquote => .quasiquote
  | unquote => .unquote
  | unquoteSplicing => .unquoteSplicing

theorem QuoteMark.kind_injective {mark other : QuoteMark} (h : mark.kind = other.kind) :
    mark = other := by
  cases mark <;> cases other <;> first | rfl | cases h

/-- The name stands for a symbol and not for one of the two constants. -/
def NamesSymbol (name : String) : Prop :=
  upper name ≠ "NIL" ∧ upper name ≠ "T"

instance (name : String) : Decidable (NamesSymbol name) :=
  inferInstanceAs (Decidable (_ ∧ _))

/-- The sorts of phrases: one form, or any number of them. -/
inductive PhraseSort where
  | form
  | forms

/-- What phrases of a sort mean. -/
abbrev PhraseSort.Meaning : PhraseSort → Type
  | form => Datum
  | forms => List Datum

/-- Derivations in the grammar of forms. -/
inductive Phrase : PhraseSort → Type where
  | integer (value : Int64) : Phrase .form
  | symbol (name : String) : Phrase .form
  | marked (mark : QuoteMark) (form : Phrase .form) : Phrase .form
  | rest (name : String) (isSymbol : NamesSymbol name) : Phrase .form
  | list (items : Phrase .forms) : Phrase .form
  /-- A list with a dot has at least one form before it. -/
  | dotted (first : Phrase .form) (others : Phrase .forms) (tail : Phrase .form) : Phrase .form
  | none : Phrase .forms
  | more (first : Phrase .form) (others : Phrase .forms) : Phrase .forms

namespace Phrase

/-- The tokens of a phrase. -/
@[simp] def kinds : {sort : PhraseSort} → Phrase sort → List TokenKind
  | _, integer value => [.integer value]
  | _, symbol name => [.symbol name]
  | _, marked mark form => mark.kind :: form.kinds
  | _, rest name _ => [.rest, .symbol name]
  | _, list items => .openParen :: (items.kinds ++ [.closeParen])
  | _, dotted first others tail =>
      .openParen :: (first.kinds ++ others.kinds ++ .dot :: (tail.kinds ++ [.closeParen]))
  | _, none => []
  | _, more first others => first.kinds ++ others.kinds

/-- How many constructs are nested in each other at most: marked forms, rest markers with their
symbols, and lists. -/
def nesting : {sort : PhraseSort} → Phrase sort → Nat
  | _, integer _ => 0
  | _, symbol _ => 0
  | _, marked _ form => form.nesting + 1
  | _, rest _ _ => 1
  | _, list items => items.nesting + 1
  | _, dotted first others tail => max (max first.nesting others.nesting) tail.nesting + 1
  | _, none => 0
  | _, more first others => max first.nesting others.nesting

/-- What a phrase means. -/
def meaning : {sort : PhraseSort} → Phrase sort → sort.Meaning
  | _, integer value => Datum.integer value
  | _, symbol name => Datum.ofName name
  | _, marked mark form => mark.apply form.meaning
  | _, rest name _ => Datum.list [.symbol .restMarker, .symbol (.ofString name)]
  | _, list items => Datum.list items.meaning
  | _, dotted first others tail =>
      Datum.listWithTail (first.meaning :: others.meaning) tail.meaning
  | _, none => []
  | _, more first others => first.meaning :: others.meaning

theorem kinds_list (items : Phrase .forms) :
    (list items).kinds = .openParen :: (items.kinds ++ [.closeParen]) := rfl

theorem kinds_dotted (first : Phrase .form) (others : Phrase .forms) (tail : Phrase .form) :
    (dotted first others tail).kinds
      = .openParen :: ((more first others).kinds ++ .dot :: (tail.kinds ++ [.closeParen])) := rfl

/-! ### A phrase is determined by its tokens -/

/-- No form begins with these tokens. -/
def EndsForms (kinds : List TokenKind) : Prop :=
  ∀ kind, kinds.head? = some kind → kind = .closeParen ∨ kind = .dot

theorem endsForms_nil : EndsForms [] := nofun

theorem endsForms_close (rest : List TokenKind) : EndsForms (.closeParen :: rest) :=
  fun _ h => .inl (Option.some.inj h).symm

theorem endsForms_dot (rest : List TokenKind) : EndsForms (.dot :: rest) :=
  fun _ h => .inr (Option.some.inj h).symm

/-- A form never begins with the token that closes a list or divides it. -/
theorem not_endsForms_kinds (form : Phrase .form) (rest : List TokenKind) :
    ¬EndsForms (form.kinds ++ rest) := by
  intro h
  cases form with
  | marked mark form => cases mark <;> simp [kinds, EndsForms, QuoteMark.kind] at h
  | _ => simp [kinds, EndsForms] at h

/-- The phrase can be told from any other one by its tokens, whatever stands behind them. Behind
a sequence of forms no further form may begin. -/
def Distinct : {sort : PhraseSort} → Phrase sort → Prop
  | .form, form => ∀ (other : Phrase .form) (rest rest' : List TokenKind),
      form.kinds ++ rest = other.kinds ++ rest' → form = other ∧ rest = rest'
  | .forms, items => ∀ (others : Phrase .forms) (rest rest' : List TokenKind),
      EndsForms rest → EndsForms rest' →
      items.kinds ++ rest = others.kinds ++ rest' → items = others ∧ rest = rest'

theorem distinct_none : none.Distinct := by
  intro others rest rest' hrest _ h
  cases others with
  | none => exact ⟨rfl, h⟩
  | more first others =>
      simp only [kinds, List.nil_append, List.append_assoc] at h
      exact absurd (h ▸ hrest) (not_endsForms_kinds first _)

theorem Distinct.more {first : Phrase .form} {others : Phrase .forms} (hfirst : first.Distinct)
    (hothers : others.Distinct) : (more first others).Distinct := by
  intro others' rest rest' hrest hrest' h
  cases others' with
  | none =>
      simp only [kinds, List.nil_append, List.append_assoc] at h
      exact absurd (h ▸ hrest') (not_endsForms_kinds first _)
  | more first' others' =>
      simp only [kinds, List.append_assoc] at h
      obtain ⟨rfl, hbehind⟩ := hfirst _ _ _ h
      obtain ⟨rfl, hend⟩ := hothers _ _ _ hrest hrest' hbehind
      exact ⟨rfl, hend⟩

theorem Distinct.marked {mark : QuoteMark} {form : Phrase .form} (hform : form.Distinct) :
    (marked mark form).Distinct := by
  intro other rest rest' h
  cases other with
  | marked mark' form' =>
      simp only [kinds, List.cons_append, List.cons.injEq] at h
      obtain ⟨rfl, rfl⟩ := hform form' rest rest' h.2
      obtain rfl := QuoteMark.kind_injective h.1
      exact ⟨rfl, rfl⟩
  | _ => cases mark <;> simp [kinds, QuoteMark.kind] at h

theorem Distinct.list {items : Phrase .forms} (hitems : items.Distinct) :
    (list items).Distinct := by
  intro other rest rest' h
  cases other with
  | list items' =>
      simp only [kinds_list, List.cons_append, List.append_assoc, List.cons.injEq, true_and] at h
      obtain ⟨rfl, hend⟩ := hitems _ _ _ (endsForms_close _) (endsForms_close _) h
      exact ⟨rfl, by simpa using hend⟩
  | dotted first others tail =>
      simp only [kinds_list, kinds_dotted, List.cons_append, List.append_assoc, List.cons.injEq,
        true_and] at h
      -- the one list would have to be closed where the other one is divided
      have hdivided := hitems _ _ _ (endsForms_close _) (endsForms_dot _) h
      simp at hdivided
  | marked mark form => cases mark <;> simp [kinds, QuoteMark.kind] at h
  | _ => simp [kinds] at h

theorem Distinct.dotted {first : Phrase .form} {others : Phrase .forms} {tail : Phrase .form}
    (hfirst : first.Distinct) (hothers : others.Distinct) (htail : tail.Distinct) :
    (dotted first others tail).Distinct := by
  have hitems : (Phrase.more first others).Distinct := hfirst.more hothers
  intro other rest rest' h
  cases other with
  | list items =>
      simp only [kinds_list, kinds_dotted, List.cons_append, List.append_assoc, List.cons.injEq,
        true_and] at h
      have hdivided := hitems _ _ _ (endsForms_dot _) (endsForms_close _) h
      simp at hdivided
  | dotted first' others' tail' =>
      simp only [kinds_dotted, List.cons_append, List.append_assoc, List.cons.injEq,
        true_and] at h
      obtain ⟨hsame, hdot⟩ := hitems _ _ _ (endsForms_dot _) (endsForms_dot _) h
      obtain ⟨rfl, rfl⟩ := Phrase.more.inj hsame
      obtain ⟨rfl, hend⟩ := htail _ _ _ (List.cons.inj hdot).2
      exact ⟨rfl, by simpa using hend⟩
  | marked mark form => cases mark <;> simp [kinds, QuoteMark.kind] at h
  | _ => simp [kinds] at h

theorem distinct {sort : PhraseSort} (phrase : Phrase sort) : phrase.Distinct := by
  induction phrase with
  | integer | symbol | rest =>
      intro other rest rest' h
      cases other with
      | marked mark form => cases mark <;> simp [kinds, QuoteMark.kind] at h
      | _ => simp_all [kinds]
  | marked mark form hform => exact hform.marked
  | list items hitems => exact hitems.list
  | dotted first others tail hfirst hothers htail => exact hfirst.dotted hothers htail
  | none => exact distinct_none
  | more first others hfirst hothers => exact hfirst.more hothers

/-- A sequence of tokens is a sequence of forms in one way at most. -/
theorem kinds_injective {items others : Phrase .forms} (h : items.kinds = others.kinds) :
    items = others :=
  (distinct items others [] [] endsForms_nil endsForms_nil (by rw [h])).1

/-! ### Sequences of forms -/

/-- The given forms, one behind the other. -/
def sequence (forms : List (Phrase .form)) : Phrase .forms :=
  forms.foldr more none

@[simp] theorem sequence_nil : sequence [] = none := rfl

@[simp] theorem sequence_cons (form : Phrase .form) (forms : List (Phrase .form)) :
    sequence (form :: forms) = more form (sequence forms) := rfl

theorem kinds_sequence (forms : List (Phrase .form)) :
    (sequence forms).kinds = forms.flatMap kinds := by
  induction forms with
  | nil => rfl
  | cons form forms ih => rw [sequence_cons, kinds, ih, List.flatMap_cons]

theorem meaning_sequence (forms : List (Phrase .form)) :
    (sequence forms).meaning = forms.map meaning := by
  induction forms with
  | nil => rfl
  | cons form forms ih => rw [sequence_cons, meaning, ih, List.map_cons]

theorem nesting_sequence_le {forms : List (Phrase .form)} {bound : Nat} :
    (sequence forms).nesting ≤ bound ↔ ∀ form ∈ forms, form.nesting ≤ bound := by
  induction forms with
  | nil => simp [nesting]
  | cons form forms ih => rw [sequence_cons, nesting, Nat.max_le, ih, List.forall_mem_cons]

/-- Only a name on its own means a symbol. -/
theorem eq_symbol_of_meaning {form : Phrase .form} {symbol : Symbol}
    (h : form.meaning = .symbol symbol) :
    ∃ name, form = .symbol name ∧ NamesSymbol name ∧ symbol = .ofString name := by
  cases form with
  | symbol name =>
      simp only [meaning, Datum.ofName] at h
      split at h
      · cases h
      · split at h
        · cases h
        · next hnil ht => exact ⟨name, rfl, ⟨hnil, ht⟩, (Datum.symbol.inj h).symm⟩
  | list items =>
      rw [meaning] at h
      generalize items.meaning = data at h
      cases data <;> cases h
  | _ => cases h

end Phrase

/-! ### What is open is a phrase that has begun -/

open Reader

/-- The tokens begin a phrase whose innermost constructs are still open: the constructs on the
stack, each with the forms read in it so far. Forms nested in them leave the limit alone. -/
inductive Opens (limit : Nat) : List OpenForm → List TokenKind → Prop
  | nil : Opens limit [] []
  | list {outer : List OpenForm} {before : List TokenKind} {start : Nat} {items : List Datum}
      (forms : List (Phrase .form)) : Opens limit outer before →
      (∀ form ∈ forms, outer.length + 1 + form.nesting ≤ limit) →
      outer.length + 1 ≤ limit → items.reverse = forms.map Phrase.meaning →
      Opens limit (.list start items :: outer)
        (before ++ .openParen :: forms.flatMap Phrase.kinds)
  | dotted {outer : List OpenForm} {before : List TokenKind} {items : List Datum}
      (first : Phrase .form) (others : List (Phrase .form)) : Opens limit outer before →
      (∀ form ∈ first :: others, outer.length + 1 + form.nesting ≤ limit) →
      items.reverse = (first :: others).map Phrase.meaning →
      Opens limit (.dotted items :: outer)
        (before ++ .openParen :: ((first :: others).flatMap Phrase.kinds ++ [.dot]))
  | closing {outer : List OpenForm} {before : List TokenKind} {items : List Datum}
      (first : Phrase .form) (others : List (Phrase .form)) (tail : Phrase .form) :
      Opens limit outer before →
      (∀ form ∈ tail :: first :: others, outer.length + 1 + form.nesting ≤ limit) →
      items.reverse = (first :: others).map Phrase.meaning →
      Opens limit (.closing items tail.meaning :: outer)
        (before ++ .openParen :: ((first :: others).flatMap Phrase.kinds ++ .dot :: tail.kinds))
  | marked {outer : List OpenForm} {before : List TokenKind} {mark : QuoteMark} :
      Opens limit outer before → outer.length + 1 ≤ limit →
      Opens limit (.marked mark :: outer) (before ++ [mark.kind])
  | rest {outer : List OpenForm} {before : List TokenKind} {start : Nat} :
      Opens limit outer before → outer.length + 1 ≤ limit →
      Opens limit (.rest start :: outer) (before ++ [.rest])

/-- The tokens are as much of a form as has been read: all of it, or what is still open. -/
def Reader.Progress.Follows (limit : Nat) (kinds : List TokenKind) : Progress → Prop
  | .form datum => ∃ form : Phrase .form,
      form.kinds = kinds ∧ form.nesting ≤ limit ∧ form.meaning = datum
  | .within stack => Opens limit stack kinds

namespace Opens

variable {limit : Nat} {stack : List OpenForm} {kinds : List TokenKind} {next : Progress}

/-- Handing a complete form to the construct around it adds its tokens. -/
theorem complete (h : Opens limit stack kinds) (form : Phrase .form)
    (hform : stack.length + form.nesting ≤ limit)
    (hnext : Reader.complete stack form.meaning = .ok next) :
    next.Follows limit (kinds ++ form.kinds) := by
  induction h generalizing form with
  | nil =>
      obtain rfl := Except.ok.inj hnext
      exact ⟨form, rfl, by simpa using hform, rfl⟩
  | @list outer before start items forms houter hforms hroom hitems =>
      obtain rfl := Except.ok.inj hnext
      have hlist : Opens limit (.list start (form.meaning :: items) :: outer) _ :=
        .list (forms ++ [form]) houter (by
          intro other hother
          rcases List.mem_append.1 hother with hother | hother
          · exact hforms other hother
          · rw [List.mem_singleton.1 hother]
            exact hform) hroom (by simp [hitems])
      simpa [Progress.Follows, List.append_assoc] using hlist
  | @dotted outer before items first others houter hforms hitems =>
      obtain rfl := Except.ok.inj hnext
      have hclosing : Opens limit (.closing items form.meaning :: outer) _ :=
        .closing first others form houter (List.forall_mem_cons.2 ⟨hform, hforms⟩) hitems
      simpa [Progress.Follows, List.append_assoc] using hclosing
  | closing => cases hnext
  | @marked outer before mark houter hroom ih =>
      have hmarked := ih (.marked mark form)
        (by simp only [Phrase.nesting, List.length_cons] at hform ⊢; omega) hnext
      simpa [Phrase.kinds] using hmarked
  | @rest outer before start houter hroom ih =>
      obtain ⟨symbol, hsymbol⟩ : ∃ symbol, form.meaning = .symbol symbol := by
        unfold Reader.complete at hnext
        split at hnext
        · next symbol hsymbol => exact ⟨symbol, hsymbol⟩
        · cases hnext
      obtain ⟨name, rfl, hname, rfl⟩ := Phrase.eq_symbol_of_meaning hsymbol
      rw [hsymbol] at hnext
      have hrest := ih (.rest name hname) (by simpa [Phrase.nesting] using hroom) hnext
      simpa [Phrase.kinds] using hrest

theorem openForm {token : Token} {opened : OpenForm} (h : Opens limit stack kinds)
    (hopens : token.opens? = some opened) (hroom : stack.length < limit) :
    Opens limit (opened :: stack) (kinds ++ [token.kind]) := by
  obtain ⟨kind, offset⟩ := token
  cases kind <;> cases hopens
  case openParen => exact .list [] h (fun _ hmem => absurd hmem List.not_mem_nil) hroom rfl
  case rest => exact .rest h hroom
  all_goals exact .marked h hroom

/-- Constructs are open only as far as the limit allows. -/
theorem length_le (h : Opens limit stack kinds) : stack.length ≤ limit := by
  cases h with
  | nil => exact Nat.zero_le _
  | list _ _ _ hroom => exact hroom
  | dotted first _ _ hforms | closing first _ _ _ hforms =>
      have hfirst := hforms first (by simp)
      rw [List.length_cons]
      omega
  | marked _ hroom => exact hroom
  | rest _ hroom => exact hroom

theorem nesting_sequence {forms : List (Phrase .form)} {depth : Nat} (hroom : depth + 1 ≤ limit)
    (hforms : ∀ form ∈ forms, depth + 1 + form.nesting ≤ limit) :
    depth + 1 + (Phrase.sequence forms).nesting ≤ limit := by
  have hnested : (Phrase.sequence forms).nesting ≤ limit - (depth + 1) :=
    Phrase.nesting_sequence_le.2 fun form hmem => by
      have hform := hforms form hmem
      omega
  omega

/-- A list that is closed is a form of its own. -/
theorem close {start : Nat} {items : List Datum} {outer : List OpenForm}
    (h : Opens limit (.list start items :: outer) kinds)
    (hnext : Reader.complete outer (.list items.reverse) = .ok next) :
    next.Follows limit (kinds ++ [.closeParen]) := by
  cases h with
  | list forms houter hforms hroom hitems =>
      have hnested := nesting_sequence hroom hforms
      have hlist := houter.complete (.list (.sequence forms))
        (by rw [Phrase.nesting]; omega)
        (by rwa [Phrase.meaning, Phrase.meaning_sequence, ← hitems])
      simpa [Phrase.kinds, Phrase.kinds_sequence] using hlist

/-- A list that is closed behind its last part is a form of its own. -/
theorem closeDotted {items : List Datum} {tail : Datum} {outer : List OpenForm}
    (h : Opens limit (.closing items tail :: outer) kinds)
    (hnext : Reader.complete outer (.listWithTail items.reverse tail) = .ok next) :
    next.Follows limit (kinds ++ [.closeParen]) := by
  have hroom := h.length_le
  cases h with
  | closing first others tail houter hforms hitems =>
      obtain ⟨htail, hfirst, hothers⟩ := by simpa using hforms
      have hnested := nesting_sequence hroom hothers
      have hdotted := houter.complete (.dotted first (.sequence others) tail)
        (by rw [Phrase.nesting]; omega)
        (by rwa [Phrase.meaning, Phrase.meaning_sequence, ← List.map_cons, ← hitems])
      simpa [Phrase.kinds, Phrase.kinds_sequence] using hdotted

/-- One token more keeps what is open a phrase that has begun. -/
theorem takes {token : Token} (h : Opens limit stack kinds)
    (htakes : Takes limit stack token next) : next.Follows limit (kinds ++ [token.kind]) := by
  cases htakes with
  | datum hdatum hnext =>
      have hroom := h.length_le
      unfold TokenKind.datum? at hdatum
      split at hdatum
      · next value hkind =>
          cases hdatum
          rw [hkind]
          exact h.complete (.integer value) hroom hnext
      · next name hkind =>
          cases hdatum
          rw [hkind]
          exact h.complete (.symbol name) hroom hnext
      · cases hdatum
  | opening hopens _ hroom => exact h.openForm hopens hroom
  | close hclose hnext =>
      rw [hclose]
      exact h.close hnext
  | closeDotted hclose hnext =>
      rw [hclose]
      exact h.closeDotted hnext
  | dot hdot hitems =>
      rw [hdot]
      cases h with
      | list forms houter hforms hroom hmeaning =>
          cases forms with
          | nil => simp_all
          | cons first others =>
              have hdotted := Opens.dotted first others houter hforms hmeaning
              simpa [Progress.Follows] using hdotted

/-- Whatever tokens are taken one after the other, what is open is a phrase that has begun. -/
theorem reads {tokens : List Token} (h : Opens limit stack kinds)
    (hreads : Reads limit stack tokens next) :
    next.Follows limit (kinds ++ tokens.map Token.kind) := by
  induction hreads generalizing kinds with
  | refl stack => simpa [Progress.Follows] using h
  | form htakes => exact h.takes htakes
  | step htakes _ ih => simpa using ih (h.takes htakes)

end Opens

/-! ### The tokens of a phrase are read as what it means -/

namespace Phrase

/-- The tokens of the phrase are read as what it means, wherever there is room for it. -/
def Readable (limit : Nat) : {sort : PhraseSort} → Phrase sort → Prop
  | .form, form => ∀ (stack : List OpenForm) (tokens : List Token) (next : Progress),
      tokens.map Token.kind = form.kinds → stack.length + form.nesting ≤ limit →
      complete stack form.meaning = .ok next → Reads limit stack tokens next
  | .forms, items => ∀ (start : Nat) (found : List Datum) (outer : List OpenForm)
      (tokens : List Token), tokens.map Token.kind = items.kinds →
      outer.length + 1 + items.nesting ≤ limit →
      Reads limit (.list start found :: outer) tokens
        (.within (.list start (items.meaning.reverse ++ found) :: outer))

variable {limit : Nat}

theorem admits_of_complete {stack : List OpenForm} {datum : Datum} {next : Progress}
    (h : complete stack datum = .ok next) : Admits stack := by
  rintro items tail outer rfl
  cases h

theorem Readable.marked {mark : QuoteMark} {form : Phrase .form} (h : form.Readable limit) :
    (marked mark form).Readable limit := by
  intro stack tokens next htokens hroom hnext
  rw [nesting] at hroom
  obtain ⟨token, tokens, rfl, hmark, hform⟩ := List.map_eq_cons_iff.1 htokens
  have hopens : token.opens? = some (.marked mark) := by
    unfold Token.opens?
    cases mark <;> simp [hmark, QuoteMark.kind]
  refine .step (.opening hopens (admits_of_complete hnext) (by omega)) (h _ _ _ hform ?_ hnext)
  rw [List.length_cons]
  omega

theorem readable_rest {name : String} (h : NamesSymbol name) : (rest name h).Readable limit := by
  intro stack tokens next htokens hroom hnext
  rw [nesting] at hroom
  obtain ⟨marker, tokens, rfl, hmarker, hsymbol⟩ := List.map_eq_cons_iff.1 htokens
  obtain ⟨token, rfl, hname⟩ := List.map_eq_singleton_iff.1 hsymbol
  have hopens : marker.opens? = some (.rest marker.offset) := by
    simp [Token.opens?, hmarker]
  have hdatum : token.kind.datum? = some (.symbol (.ofString name)) := by
    simp [hname, TokenKind.datum?, Datum.ofName, h.1, h.2]
  exact .step (.opening hopens (admits_of_complete hnext) (by omega))
    (.single (.datum hdatum hnext))

theorem Readable.list {items : Phrase .forms} (h : items.Readable limit) :
    (list items).Readable limit := by
  intro stack tokens next htokens hroom hnext
  rw [nesting] at hroom
  obtain ⟨token, tokens, rfl, hparen, hinner⟩ := List.map_eq_cons_iff.1 htokens
  obtain ⟨inner, closing, rfl, hitems, hclosing⟩ := List.map_eq_append_iff.1 hinner
  obtain ⟨close, rfl, hclose⟩ := List.map_eq_singleton_iff.1 hclosing
  have hopens : token.opens? = some (.list token.offset []) := by
    simp [Token.opens?, hparen]
  refine .step (.opening hopens (admits_of_complete hnext) (by omega)) ?_
  refine .append (h _ _ _ _ hitems (by omega)) (.single (.close hclose ?_))
  simpa [meaning] using hnext

theorem Readable.dotted {first : Phrase .form} {others : Phrase .forms} {tail : Phrase .form}
    (hitems : (more first others).Readable limit) (htail : tail.Readable limit) :
    (dotted first others tail).Readable limit := by
  intro stack tokens next htokens hroom hnext
  have hnested : (Phrase.dotted first others tail).nesting
    = max (Phrase.more first others).nesting tail.nesting + 1 := rfl
  rw [kinds_dotted] at htokens
  obtain ⟨token, tokens, rfl, hparen, hinner⟩ := List.map_eq_cons_iff.1 htokens
  obtain ⟨inner, behind, rfl, hfirst, hbehind⟩ := List.map_eq_append_iff.1 hinner
  obtain ⟨dot, behind, rfl, hdot, hbehind⟩ := List.map_eq_cons_iff.1 hbehind
  obtain ⟨last, closing, rfl, hlast, hclosing⟩ := List.map_eq_append_iff.1 hbehind
  obtain ⟨close, rfl, hclose⟩ := List.map_eq_singleton_iff.1 hclosing
  have hopens : token.opens? = some (.list token.offset []) := by
    simp [Token.opens?, hparen]
  refine .step (.opening hopens (admits_of_complete hnext) (by omega)) ?_
  refine .append (hitems _ _ _ _ hfirst (by omega)) (.step (.dot hdot ?_) ?_)
  · simp [meaning]
  refine .append (htail _ _ _ hlast ?_ rfl) (.single (.closeDotted hclose ?_))
  · rw [List.length_cons]
    omega
  · simpa [meaning] using hnext

theorem Readable.more {first : Phrase .form} {others : Phrase .forms}
    (hfirst : first.Readable limit) (hothers : others.Readable limit) :
    (more first others).Readable limit := by
  intro start found outer tokens htokens hroom
  rw [nesting] at hroom
  obtain ⟨before, behind, rfl, hbefore, hbehind⟩ := List.map_eq_append_iff.1 htokens
  have hread := hothers start (first.meaning :: found) outer behind hbehind (by omega)
  refine .append (hfirst _ _ _ hbefore ?_ rfl) ?_
  · rw [List.length_cons]
    omega
  · simpa [meaning] using hread

/-- The tokens of a phrase are read as what it means. -/
theorem readable {sort : PhraseSort} (phrase : Phrase sort) : phrase.Readable limit := by
  induction phrase with
  | integer value =>
      intro stack tokens next htokens _ hnext
      obtain ⟨token, rfl, hkind⟩ := List.map_eq_singleton_iff.1 htokens
      exact .single (.datum (by rw [hkind]; rfl) hnext)
  | symbol name =>
      intro stack tokens next htokens _ hnext
      obtain ⟨token, rfl, hkind⟩ := List.map_eq_singleton_iff.1 htokens
      exact .single (.datum (by rw [hkind]; rfl) hnext)
  | marked mark form hform => exact hform.marked
  | rest name h => exact readable_rest h
  | list items hitems => exact hitems.list
  | dotted first others tail hfirst hothers htail => exact (hfirst.more hothers).dotted htail
  | none =>
      intro start found outer tokens htokens _
      obtain rfl := List.map_eq_nil_iff.1 htokens
      exact .refl _
  | more first others hfirst hothers => exact hfirst.more hothers

/-! ### A text is a sequence of forms -/

theorem exists_sequence : (phrase : Phrase .forms) → ∃ forms, phrase = sequence forms
  | none => ⟨[], rfl⟩
  | more first others =>
      have ⟨forms, hforms⟩ := exists_sequence others
      ⟨first :: forms, by rw [hforms, sequence_cons]⟩

/-- The tokens of a phrase up to the end of the text are read as what it means. -/
theorem readsAll {tokens : List Token} {last : Token} (phrase : Phrase .forms)
    (htokens : tokens.map Token.kind = phrase.kinds) (hroom : phrase.nesting ≤ limit)
    (hlast : last.kind = .eof) : ReadsAll limit (tokens ++ [last]) phrase.meaning := by
  obtain ⟨forms, rfl⟩ := exists_sequence phrase
  induction forms generalizing tokens with
  | nil =>
      obtain rfl := List.map_eq_nil_iff.1 htokens
      exact .eof hlast
  | cons form forms ih =>
      obtain ⟨before, behind, rfl, hbefore, hbehind⟩ := List.map_eq_append_iff.1 htokens
      obtain ⟨hform, hforms⟩ := Nat.max_le.1 hroom
      rw [List.append_assoc]
      exact .form (readable form [] before _ hbefore (by simpa using hform) rfl)
        (ih hbehind hforms)

/-- The forms that are read from the tokens of a text are the meaning of a phrase. -/
theorem exists_of_readsAll {tokens body : List Token} {last : Token} {data : List Datum}
    (h : ReadsAll limit tokens data) (htokens : tokens = body ++ [last])
    (hbody : ∀ token ∈ body, token.kind ≠ .eof) :
    ∃ phrase : Phrase .forms, phrase.kinds = body.map Token.kind ∧ phrase.nesting ≤ limit ∧
      phrase.meaning = data := by
  induction h generalizing body with
  | @eof token rest heof =>
      cases body with
      | nil => exact ⟨none, rfl, Nat.zero_le _, rfl⟩
      | cons first body =>
          obtain ⟨rfl, -⟩ := List.cons.inj htokens
          exact absurd heof (hbody _ List.mem_cons_self)
  | @form before rest datum data hreads hrest ih =>
      obtain ⟨form, hkinds, hnesting, rfl⟩ := Opens.nil.reads hreads
      -- the last token belongs to what is read after this form
      obtain ⟨behind, last', rfl⟩ := List.eq_nil_or_concat rest |>.resolve_left hrest.ne_nil
      rw [List.concat_eq_append, ← List.append_assoc] at htokens
      obtain ⟨rfl, hlast⟩ := List.append_inj' htokens rfl
      obtain rfl := List.cons.inj hlast |>.1
      obtain ⟨phrase, hphrase, hroom, rfl⟩ := ih (List.concat_eq_append)
        fun token hmem => hbody token (List.mem_append_right _ hmem)
      refine ⟨more form phrase, ?_, Nat.max_le.2 ⟨hnesting, hroom⟩, rfl⟩
      rw [kinds, hkinds, hphrase, List.map_append, List.nil_append]

end Phrase

/-- **The reader accepts exactly its grammar.** Let a text have tokens; the last one, and no other
one, marks its end. With any limit, reading the text succeeds with some forms exactly when the
tokens before the last one are a phrase nested no deeper than the limit and the forms are what it
means. There is one such phrase at most. -/
theorem Datum.readWith_iff_phrase {text : String} {tokens : List Token}
    (h : Token.scan text = .ok tokens) :
    ∃ body last, tokens = body ++ [last] ∧ last.kind = .eof ∧
      (∀ token ∈ body, token.kind ≠ .eof) ∧
      (∀ limit data, readWith limit text = .ok data ↔
        ∃ phrase : Phrase .forms, phrase.kinds = body.map Token.kind ∧
          phrase.nesting ≤ limit ∧ phrase.meaning = data) ∧
      ∀ phrase other : Phrase .forms, phrase.kinds = body.map Token.kind →
        other.kinds = body.map Token.kind → phrase = other := by
  obtain ⟨body, last, rfl, hlast, hlexemes⟩ := Token.scan_eq_ok h
  have hbody : ∀ token ∈ body, token.kind ≠ .eof := fun token hmem heof =>
    Token.not_isLexeme_eof (heof ▸ hlexemes token hmem)
  refine ⟨body, last, rfl, hlast, hbody, ?_, ?_⟩
  · intro limit data
    rw [readWith_eq_ok_iff]
    constructor
    · rintro ⟨tokens, htokens, hall⟩
      obtain rfl := Except.ok.inj (h.symm.trans htokens)
      exact Phrase.exists_of_readsAll hall rfl hbody
    · rintro ⟨phrase, hphrase, hroom, rfl⟩
      exact ⟨_, h, phrase.readsAll hphrase.symm hroom hlast⟩
  · intro phrase other hphrase hother
    exact Phrase.kinds_injective (hphrase.trans hother.symm)

/-- A dotted list whose last part is a marked rest marker is nested three deep. It is read with that
limit and with no lower one. -/
theorem Datum.readWith_iff_phrase_marked_tail :
    let text := "(a . '&rest x) nil"
    let form : Datum := .listWithTail [.symbol (.ofString "a")]
      (QuoteMark.quote.apply (.list [.symbol .restMarker, .symbol (.ofString "x")]))
    (∃ tokens, Token.scan text = .ok tokens) ∧
      readWith 3 text = .ok [form, .nil] ∧ ∀ data, readWith 2 text ≠ .ok data := by
  intro text form
  let phrase : Phrase .forms :=
    .more (.dotted (.symbol "a") .none (.marked .quote (.rest "x" (by decide))))
      (.more (.symbol "nil") .none)
  have hkinds : (Token.scan text).toOption.map (·.map Token.kind)
      = some (phrase.kinds ++ [.eof]) := by decide +kernel
  cases hscan : Token.scan text with
  | error e =>
      rw [hscan] at hkinds
      cases hkinds
  | ok tokens =>
      obtain ⟨body, last, rfl, -, -, hread, hunique⟩ := readWith_iff_phrase hscan
      have hbody : phrase.kinds = body.map Token.kind := by
        rw [hscan] at hkinds
        have hall : (body ++ [last]).map Token.kind = _ := Option.some.inj hkinds
        rw [List.map_append] at hall
        exact (List.append_inj' hall.symm rfl).1
      refine ⟨⟨_, rfl⟩, (hread 3 _).2 ⟨phrase, hbody, by decide, by decide⟩, ?_⟩
      intro data hdata
      obtain ⟨other, hother, hroom, -⟩ := (hread 2 data).1 hdata
      rw [hunique other phrase hother hbody] at hroom
      exact absurd hroom (by decide)

end SmallLisp
