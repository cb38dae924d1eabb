import SmallLisp.Proofs.Reading
import SmallLisp.Proofs.Scanning

/-!
# Reading undoes printing

The printed form of a datum is scanned into the tokens that its structure calls for, and reading
these gives the datum back. That needs symbols that the scanner finds in their spelling, and no
more parentheses one within the other than a reader may have open.

A form that was read from a text has such a printed form, unless it has the rest marker in it:
the symbol `&REST` is printed like any other, but read as a mark in front of the next symbol. The
mark stands for a list of its own, so what is read then has more leaves than what was printed.

## Main results

* `Datum.readOne_print` — reading the printed form of a datum gives the datum.
* `Reader.Reads.fits` — what holds of the symbols and the nesting of every form that is read.
* `Reader.Reads.leaves_eq` — the number of leaves of a form, from the tokens it is read from.
* `Store.print_read_identity` — the same of values in a store, up to structural equality.
-/

namespace SmallLisp

/-! ### Nesting -/

/-- The greatest number of parentheses that are open at once, `level` of them from the start. -/
def Text.nestingFrom (level : Nat) : List Char → Nat
  | [] => level
  | '(' :: cs => nestingFrom (level + 1) cs
  | ')' :: cs => max level (nestingFrom (level - 1) cs)
  | _ :: cs => nestingFrom level cs

/-- How deep the parentheses of a text are nested. -/
def Text.nesting (text : String) : Nat :=
  nestingFrom 0 text.toList

/-- The parentheses that a pair is written in. -/
def Position.levels : Position → Nat
  | .element => 1
  | .remainder => 0

namespace Datum

/-- How deep the parentheses of the printed form at a position are nested. -/
def nestingAt (position : Position) : Datum → Nat
  | pair car cdr => position.levels + max (car.nestingAt .element) (cdr.nestingAt .remainder)
  | _ => 0

end Datum

namespace Text

theorem le_nestingFrom (level : Nat) (cs : List Char) : level ≤ nestingFrom level cs := by
  fun_induction nestingFrom level cs <;> omega

/-- The text has no parentheses in it. -/
def Flat (text : String) : Prop :=
  text.toList.all (fun c => c ≠ '(' ∧ c ≠ ')') = true

theorem Flat.nestingFrom_append {text : String} (h : Flat text) (level : Nat)
    (rest : List Char) : nestingFrom level (text.toList ++ rest) = nestingFrom level rest := by
  unfold Flat at h
  generalize text.toList = cs at h
  induction cs with
  | nil => rfl
  | cons c cs ih =>
      simp only [List.all_cons, Bool.and_eq_true, decide_eq_true_eq] at h
      obtain ⟨⟨hopen, hclose⟩, hrest⟩ := h
      rw [List.cons_append, nestingFrom.eq_4 _ _ _ hopen hclose]
      exact ih hrest

theorem Flat.append {left right : String} (hleft : Flat left) (hright : Flat right) :
    Flat (left ++ right) := by
  unfold Flat at *
  rw [String.toList_append, List.all_append, hleft, hright]
  rfl

theorem flat_of_isSymbolChar {text : String} (h : text.toList.all Token.isSymbolChar = true) :
    Flat text := by
  refine List.all_eq_true.2 fun c hc => ?_
  have hchar := List.all_eq_true.1 h c hc
  have hparens : c ≠ '(' ∧ c ≠ ')' := by
    constructor <;> rintro rfl <;> exact absurd hchar (by decide)
  simpa using hparens

end Text

open Text

theorem Decimal.flat_ofNat (n : Nat) : Flat (ofNat n) := by
  refine flat_of_isSymbolChar (List.all_eq_true.2 fun c hc => ?_)
  rw [ofNat, String.toList_ofList] at hc
  exact Token.isSymbolChar_of_isDigit (Token.isDigit_of_mem_digits hc)

theorem Decimal.flat_ofInt (value : Int) : Flat (ofInt value) := by
  cases value with
  | ofNat n => exact flat_ofNat n
  | negSucc n =>
      have hminus : Flat "-" := by unfold Flat; decide
      exact hminus.append (flat_ofNat (n + 1))

theorem Symbol.flat_spelling {name : Symbol} (h : name.Legible ∨ name = .restMarker) :
    Flat name.spelling := by
  rcases h with hlegible | rfl
  · obtain ⟨c, cs, hspelling, hname⟩ := hlegible.isName
    apply flat_of_isSymbolChar
    rw [hspelling, List.all_cons, Token.isSymbolChar_of_isSymbolStart hname.start, hname.chars]
    rfl
  · unfold Flat
    decide

theorem Position.flat_atom {text : String} (h : Flat text) (position : Position) :
    Flat (position.atom text) := by
  cases position with
  | element => exact h
  | remainder =>
      have hdot : Flat " . " := by unfold Flat; decide
      exact hdot.append h

namespace Datum

theorem nestingFrom_printAt {datum : Datum} (h : datum.Scannable) (position : Position)
    (level : Nat) (rest : List Char) :
    nestingFrom level ((datum.printAt position).toList ++ rest)
      = max (level + datum.nestingAt position) (nestingFrom level rest) := by
  have hflat : ∀ {text : String} (level : Nat) (rest : List Char), Flat text →
      nestingFrom level (text.toList ++ rest) = max (level + 0) (nestingFrom level rest) := by
    intro text level rest htext
    rw [htext.nestingFrom_append, Nat.add_zero, Nat.max_eq_right (le_nestingFrom level rest)]
  induction datum generalizing position level rest with
  | nil => exact hflat _ _ (by cases position <;> unfold Flat <;> decide)
  | t => exact hflat _ _ (Position.flat_atom (by unfold Flat; decide) position)
  | integer value => exact hflat _ _ (Position.flat_atom (Decimal.flat_ofInt _) position)
  | symbol name => exact hflat _ _ (Position.flat_atom (Symbol.flat_spelling (h name rfl)) position)
  | pair car cdr ihcar ihcdr =>
      have hcar : car.Scannable := fun name hname => h name (.inl hname)
      have hcdr : cdr.Scannable := fun name hname => h name (.inr hname)
      have hparts : ∀ level rest, nestingFrom level
          ((car.printAt .element ++ cdr.printAt .remainder).toList ++ rest)
          = max (level + max (car.nestingAt .element) (cdr.nestingAt .remainder))
              (nestingFrom level rest) := by
        intro level rest
        rw [String.toList_append, List.append_assoc, ihcar hcar, ihcdr hcdr]
        omega
      cases position with
      | element =>
          have htext : ((pair car cdr).printAt .element).toList ++ rest
              = '(' :: ((car.printAt .element ++ cdr.printAt .remainder).toList
                  ++ ')' :: rest) := by
            simp [printAt, Position.list]
          have hle := le_nestingFrom level rest
          rw [htext, nestingFrom, hparts, nestingFrom]
          simp only [nestingAt, Position.levels, Nat.add_sub_cancel]
          omega
      | remainder =>
          have htext : ((pair car cdr).printAt .remainder).toList ++ rest
              = ' ' :: ((car.printAt .element ++ cdr.printAt .remainder).toList ++ rest) := by
            simp [printAt, Position.list]
          rw [htext, nestingFrom.eq_4 _ _ _ (by decide) (by decide), hparts]
          simp only [nestingAt, Position.levels, Nat.zero_add]

/-- How deep the parentheses of a printed datum are nested. -/
theorem nesting_print {datum : Datum} (h : datum.Scannable) :
    nesting datum.print = datum.nestingAt .element := by
  have hprint := nestingFrom_printAt h .element 0 []
  rw [List.append_nil, nestingFrom, Nat.zero_add, Nat.max_zero] at hprint
  exact hprint

end Datum

/-! ### Reading the tokens of a datum -/

theorem Symbol.Legible.ne_restMarker {name : Symbol} (h : name.Legible) : name ≠ .restMarker := by
  rintro rfl
  obtain ⟨c, cs, hspelling, hname⟩ := h.isName
  obtain rfl : '&' = c := by
    have hhead := congrArg List.head? hspelling
    simpa [restMarker, ofString, upper] using hhead
  exact absurd hname.start (by decide)

theorem Symbol.Legible.datum?_tokenKind {name : Symbol} (h : name.Legible) :
    name.tokenKind.datum? = some (.symbol name) := by
  have hname : Symbol.ofString name.spelling = name := by
    obtain ⟨spelling, canonical⟩ := name
    simp [ofString, canonical]
  simp only [tokenKind, h.ne_restMarker, ↓reduceIte, TokenKind.datum?, Datum.ofName,
    name.canonical, h.notNil, h.notT, hname]

namespace Reader

variable {limit : Nat} {datum : Datum}

/-- The datum is read from its tokens as the next form of whatever is open. -/
def ReadsElement (limit : Nat) (datum : Datum) : Prop :=
  ∀ {stack : List OpenForm} {tokens : List Token} {next : Progress},
    stack.length + datum.nestingAt .element ≤ limit → Admits stack →
    complete stack datum = .ok next → tokens.map Token.kind = datum.kindsAt .element →
    Reads limit stack tokens next

/-- The datum is read from its tokens as what remains of a list, up to the parenthesis that closes
the list. -/
def ReadsRemainder (limit : Nat) (datum : Datum) : Prop :=
  ∀ {start : Nat} {items : List Datum} {outer : List OpenForm} {tokens : List Token}
    {next : Progress}, items ≠ [] → outer.length + 1 + datum.nestingAt .remainder ≤ limit →
    complete outer (.listWithTail items.reverse datum) = .ok next →
    tokens.map Token.kind = datum.kindsAt .remainder ++ [.closeParen] →
    Reads limit (.list start items :: outer) tokens next

theorem readsElement_of_datum? {kind : TokenKind} (hkind : kind.datum? = some datum)
    (hkinds : datum.kindsAt .element = [kind]) : ReadsElement limit datum := by
  intro stack tokens next _ _ hnext htokens
  rw [hkinds] at htokens
  obtain ⟨token, rfl, rfl⟩ : ∃ token : Token, tokens = [token] ∧ token.kind = kind := by
    simpa [List.map_eq_cons_iff] using htokens
  exact .single (.datum hkind hnext)

theorem readsRemainder_of_datum? {kind : TokenKind} (hkind : kind.datum? = some datum)
    (hkinds : datum.kindsAt .remainder = [.dot, kind]) : ReadsRemainder limit datum := by
  intro start items outer tokens next hitems _ hnext htokens
  rw [hkinds] at htokens
  rcases tokens with _ | ⟨dot, _ | ⟨token, _ | ⟨close, _ | _⟩⟩⟩ <;> simp at htokens
  obtain ⟨hdot, rfl, hclose⟩ := htokens
  exact .step (.dot hdot hitems) (.step (.datum hkind rfl) (.single (.closeDotted hclose hnext)))

theorem reads_kindsAt (limit : Nat) (h : ∀ name, datum.Mentions name → name.Legible) :
    ReadsElement limit datum ∧ ReadsRemainder limit datum := by
  induction datum with
  | nil =>
      refine ⟨readsElement_of_datum? (by decide) rfl, ?_⟩
      intro start items outer tokens next _ _ hnext htokens
      obtain ⟨token, rfl, hclose⟩ : ∃ token : Token,
          tokens = [token] ∧ token.kind = .closeParen := by
        simpa [Datum.kindsAt, Position.nilKinds, List.map_eq_cons_iff] using htokens
      exact .single (.close hclose hnext)
  | t => exact ⟨readsElement_of_datum? (by decide) rfl, readsRemainder_of_datum? (by decide) rfl⟩
  | integer value => exact ⟨readsElement_of_datum? rfl rfl, readsRemainder_of_datum? rfl rfl⟩
  | symbol name =>
      have hkind := (h name rfl).datum?_tokenKind
      exact ⟨readsElement_of_datum? hkind rfl, readsRemainder_of_datum? hkind rfl⟩
  | pair car cdr ihcar ihcdr =>
      obtain ⟨hcar, -⟩ := ihcar fun name hname => h name (.inl hname)
      obtain ⟨-, hcdr⟩ := ihcdr fun name hname => h name (.inr hname)
      -- Behind any items of a list the pair is read as one more item and a remainder.
      have hparts : ∀ {start items outer tokens next},
          outer.length + 1 + max (car.nestingAt .element) (cdr.nestingAt .remainder) ≤ limit →
          complete outer (.listWithTail items.reverse (.pair car cdr)) = .ok next →
          tokens.map Token.kind
            = car.kindsAt .element ++ (cdr.kindsAt .remainder ++ [.closeParen]) →
          Reads limit (.list start items :: outer) tokens next := by
        intro start items outer tokens next hroom hnext htokens
        obtain ⟨first, rest, rfl, hfirst, hrest⟩ := List.map_eq_append_iff.1 htokens
        have htail : complete outer (.listWithTail (car :: items).reverse cdr) = .ok next := by
          rw [← hnext]
          simp [Datum.listWithTail]
        have hadmits : Admits (.list start items :: outer) := by simp [Admits]
        exact (hcar (by rw [List.length_cons]; omega) hadmits rfl hfirst).append
          (hcdr (List.cons_ne_nil _ _) (by omega) htail hrest)
      constructor
      · intro stack tokens next hroom hadmits hnext htokens
        simp only [Datum.nestingAt, Position.levels] at hroom
        rw [Datum.kindsAt, Position.listKinds, List.append_assoc] at htokens
        obtain ⟨token, tokens, rfl, hopen, hrest⟩ := List.map_eq_cons_iff.1 htokens
        have hopens : token.opens? = some (.list token.offset []) := by
          simp [Token.opens?, hopen]
        exact .step (.opening hopens hadmits (by omega)) (hparts (by omega) hnext hrest)
      · intro start items outer tokens next _ hroom hnext htokens
        simp only [Datum.nestingAt, Position.levels, Nat.zero_add] at hroom
        rw [Datum.kindsAt, Position.listKinds, List.append_assoc] at htokens
        exact hparts hroom hnext htokens

end Reader

/-- **Reading undoes printing.** The printed form of a datum with legible symbols reads as the
datum, if its parentheses are not nested too deep. -/
theorem Datum.readOne_print {datum : Datum} (h : ∀ name, datum.Mentions name → name.Legible)
    (hroom : datum.nestingAt .element ≤ Reader.defaultLimit) :
    readOne datum.print = .ok datum := by
  have hscannable : datum.Scannable := fun name hname => .inl (h name hname)
  obtain ⟨tokens, hkinds, hscan⟩ := (spells_printAt hscannable .element).scan
  have hreads : Reader.Reads Reader.defaultLimit [] tokens (.form datum) :=
    (Reader.reads_kindsAt _ h).1 (by simpa using hroom) nofun rfl hkinds
  exact readOne_eq_ok_iff.2 ⟨_, hscan, .form hreads (.eof rfl)⟩

/-! ### The forms that are read -/

namespace Datum

theorem nestingAt_remainder_le (datum : Datum) :
    datum.nestingAt .remainder ≤ datum.nestingAt .element := by
  cases datum <;> simp [nestingAt, Position.levels]

theorem nestingAt_element_le (datum : Datum) :
    datum.nestingAt .element ≤ datum.nestingAt .remainder + 1 := by
  cases datum <;> simp [nestingAt, Position.levels]
  omega

/-- The datum can be scanned when it is printed, and its parentheses stay within the limit with
`depth` constructs around it. -/
structure Fits (limit depth : Nat) (datum : Datum) : Prop where
  scannable : datum.Scannable
  nesting : depth + datum.nestingAt .element ≤ limit

theorem fits_nil {limit depth : Nat} (hdepth : depth ≤ limit) : nil.Fits limit depth :=
  ⟨nofun, hdepth⟩

theorem fits_symbol {limit depth : Nat} {name : Symbol} (hdepth : depth ≤ limit)
    (h : name.Legible ∨ name = .restMarker) : (symbol name).Fits limit depth := by
  refine ⟨?_, hdepth⟩
  rintro _ rfl
  exact h

theorem fits_ofName {limit depth : Nat} {name : String} (hdepth : depth ≤ limit)
    (h : Token.IsName name) : (ofName name).Fits limit depth := by
  unfold ofName
  split
  · exact fits_nil hdepth
  · split
    · exact ⟨nofun, hdepth⟩
    · next hnil ht => exact fits_symbol hdepth (.inl (Symbol.legible_ofString h hnil ht))

/-- A list is one level deeper than its parts. -/
theorem fits_listWithTail {limit depth : Nat} {items : List Datum} {tail : Datum}
    (hitems : ∀ item ∈ items, item.Fits limit (depth + 1)) (htail : tail.Fits limit (depth + 1)) :
    (listWithTail items tail).Fits limit depth := by
  suffices hparts : (listWithTail items tail).Scannable ∧
      depth + 1 + (listWithTail items tail).nestingAt .remainder ≤ limit by
    obtain ⟨hscannable, hnesting⟩ := hparts
    have hle := (listWithTail items tail).nestingAt_element_le
    exact ⟨hscannable, by omega⟩
  induction items with
  | nil =>
      have hle := tail.nestingAt_remainder_le
      have hnesting := htail.nesting
      exact ⟨htail.scannable, by rw [listWithTail, List.foldr_nil]; omega⟩
  | cons first items ih =>
      obtain ⟨hscannable, hnesting⟩ := ih fun item hitem =>
        hitems item (List.mem_cons_of_mem _ hitem)
      have hfirst := hitems first List.mem_cons_self
      have hfirst' := hfirst.nesting
      rw [listWithTail, List.foldr_cons, ← listWithTail]
      refine ⟨?_, ?_⟩
      · rintro name (hname | hname)
        · exact hfirst.scannable name hname
        · exact hscannable name hname
      · simp only [nestingAt, Position.levels]
        omega

end Datum

theorem QuoteMark.legible_head (mark : QuoteMark) : mark.head.Legible := by
  cases mark <;>
    exact Symbol.legible_ofString ⟨_, _, rfl, by decide, by decide, by decide⟩ (by decide)
      (by decide)

namespace Reader

variable {limit : Nat} {stack outer : List OpenForm} {token : Token} {tokens : List Token}
  {datum : Datum} {next : Progress}

/-- What an open construct at a depth has in it fits one level deeper. -/
def FormFits (limit depth : Nat) : OpenForm → Prop
  | .list _ items | .dotted items => ∀ item ∈ items, item.Fits limit (depth + 1)
  | .closing items tail =>
      (∀ item ∈ items, item.Fits limit (depth + 1)) ∧ tail.Fits limit (depth + 1)
  | .marked _ | .rest _ => True

/-- There are no more constructs open than allowed, and each has in it what fits there. -/
def StackFits (limit : Nat) : List OpenForm → Prop
  | [] => True
  | opened :: outer => outer.length < limit ∧ FormFits limit outer.length opened ∧
      StackFits limit outer

/-- What reading comes to fits. -/
def ProgressFits (limit : Nat) : Progress → Prop
  | .form datum => datum.Fits limit 0
  | .within stack => StackFits limit stack

theorem StackFits.length_le (h : StackFits limit stack) : stack.length ≤ limit := by
  cases stack with
  | nil => exact Nat.zero_le _
  | cons opened outer => exact h.1

theorem complete_fits (hstack : StackFits limit stack) (hdatum : datum.Fits limit stack.length)
    (h : complete stack datum = .ok next) : ProgressFits limit next := by
  fun_induction complete stack datum with
  | case1 datum =>
      obtain rfl := Except.ok.inj h
      exact hdatum
  | case2 start items stack datum =>
      obtain rfl := Except.ok.inj h
      obtain ⟨hlength, hitems, houter⟩ := hstack
      exact ⟨hlength, List.forall_mem_cons.2 ⟨hdatum, hitems⟩, houter⟩
  | case3 items stack datum =>
      obtain rfl := Except.ok.inj h
      obtain ⟨hlength, hitems, houter⟩ := hstack
      exact ⟨hlength, ⟨hitems, hdatum⟩, houter⟩
  | case4 => cases h
  | case5 mark stack datum ih =>
      obtain ⟨hlength, -, houter⟩ := hstack
      refine ih houter (Datum.fits_listWithTail ?_ (Datum.fits_nil hlength)) h
      have hhead := Datum.fits_symbol hlength (.inl mark.legible_head)
      simpa [hhead] using hdatum
  | case6 start stack name ih =>
      obtain ⟨hlength, -, houter⟩ := hstack
      refine ih houter (Datum.fits_listWithTail ?_ (Datum.fits_nil hlength)) h
      have hmarker := Datum.fits_symbol hlength (.inr rfl)
      simpa [hmarker] using hdatum
  | case7 => cases h

theorem Takes.fits (h : Takes limit stack token next) (hstack : StackFits limit stack)
    (htoken : token.SpellsName) : ProgressFits limit next := by
  cases h with
  | datum hdatum hnext =>
      refine complete_fits hstack ?_ hnext
      obtain ⟨kind, offset⟩ := token
      cases kind <;> cases hdatum
      · exact ⟨nofun, hstack.length_le⟩
      · exact Datum.fits_ofName hstack.length_le (htoken _ rfl)
  | opening hopens _ hroom =>
      refine ⟨hroom, ?_, hstack⟩
      obtain ⟨kind, offset⟩ := token
      cases kind <;> cases hopens <;> simp [FormFits]
  | close _ hnext =>
      obtain ⟨hlength, hitems, houter⟩ := hstack
      refine complete_fits houter (Datum.fits_listWithTail ?_ (Datum.fits_nil hlength)) hnext
      exact fun item hitem => hitems item (List.mem_reverse.1 hitem)
  | closeDotted _ hnext =>
      obtain ⟨-, ⟨hitems, htail⟩, houter⟩ := hstack
      refine complete_fits houter (Datum.fits_listWithTail ?_ htail) hnext
      exact fun item hitem => hitems item (List.mem_reverse.1 hitem)
  | dot _ _ => exact hstack

/-- Every form that is read has names and the rest marker for symbols, and its printed form has
its parentheses nested within the limit. -/
theorem Reads.fits (h : Reads limit stack tokens next) (hstack : StackFits limit stack)
    (htokens : ∀ token ∈ tokens, token.SpellsName) : ProgressFits limit next := by
  induction h with
  | refl => exact hstack
  | form htakes => exact htakes.fits hstack (htokens _ List.mem_cons_self)
  | step htakes _ ih =>
      exact ih (htakes.fits hstack (htokens _ List.mem_cons_self))
        fun token hmem => htokens token (List.mem_cons_of_mem _ hmem)

end Reader

/-! ### Counting leaves -/

/-- What is counted of each member of a list, all in all. -/
def total {α : Type} (count : α → Int) (items : List α) : Int :=
  items.foldr (fun item sum => count item + sum) 0

section

variable {α : Type} (count : α → Int)

@[simp] theorem total_nil : total count [] = 0 := rfl

@[simp] theorem total_cons (item : α) (items : List α) :
    total count (item :: items) = count item + total count items := rfl

@[simp] theorem total_append (left right : List α) :
    total count (left ++ right) = total count left + total count right := by
  induction left with
  | nil => simp
  | cons item left ih => rw [List.cons_append, total_cons, total_cons, ih, Int.add_assoc]

@[simp] theorem total_reverse (items : List α) :
    total count items.reverse = total count items := by
  induction items with
  | nil => rfl
  | cons item items ih =>
      rw [List.reverse_cons, total_append, ih, total_cons, total_cons, total_nil]
      omega

end

namespace Datum

/-- The number of parts that are no pairs, with the `NIL` that ends a list among them. -/
def leaves : Datum → Int
  | pair car cdr => car.leaves + cdr.leaves
  | _ => 1

/-- How often the rest marker occurs. -/
def markers : Datum → Nat
  | symbol name => if name = .restMarker then 1 else 0
  | pair car cdr => car.markers + cdr.markers
  | _ => 0

theorem markers_pos {datum : Datum} (h : datum.Mentions .restMarker) : 0 < datum.markers := by
  induction datum with
  | symbol name => simp [markers, show name = .restMarker from h]
  | pair car cdr ihcar ihcdr =>
      rw [markers]
      rcases h with h | h
      · exact Nat.add_pos_left (ihcar h) _
      · exact Nat.add_pos_right _ (ihcdr h)
  | _ => exact h.elim

theorem leaves_listWithTail (items : List Datum) (tail : Datum) :
    (listWithTail items tail).leaves = total leaves items + tail.leaves := by
  induction items with
  | nil => simp [listWithTail]
  | cons first items ih =>
      rw [listWithTail, List.foldr_cons, ← listWithTail, leaves, ih, total_cons, Int.add_assoc]

end Datum

/-- What a token adds to the number of leaves: an opening parenthesis the `NIL` that ends the
list, which a dot takes away, and a mark the head and the end of the list it stands for. -/
def TokenKind.leaves : TokenKind → Int
  | .openParen | .integer _ | .symbol _ => 1
  | .quote | .quasiquote | .unquote | .unquoteSplicing | .rest => 2
  | .dot => -1
  | .closeParen | .eof => 0

namespace Reader

variable {limit : Nat} {stack outer : List OpenForm} {token : Token} {tokens : List Token}
  {datum : Datum} {next : Progress}

/-- The leaves that an open construct will have beside those still to be read. -/
def formLeaves : OpenForm → Int
  | .list _ items => total Datum.leaves items + 1
  | .dotted items => total Datum.leaves items
  | .closing items tail => total Datum.leaves items + tail.leaves
  | .marked _ | .rest _ => 2

/-- The leaves that all open constructs will have beside those still to be read. -/
def stackLeaves (stack : List OpenForm) : Int :=
  total formLeaves stack

/-- The leaves of what reading comes to. -/
def progressLeaves : Progress → Int
  | .form datum => datum.leaves
  | .within stack => stackLeaves stack

theorem complete_leaves (h : complete stack datum = .ok next) :
    progressLeaves next = stackLeaves stack + datum.leaves := by
  fun_induction complete stack datum with
  | case1 datum =>
      obtain rfl := Except.ok.inj h
      exact (Int.zero_add _).symm
  | case2 start items stack datum =>
      obtain rfl := Except.ok.inj h
      simp only [progressLeaves, stackLeaves, total_cons, formLeaves]
      omega
  | case3 items stack datum =>
      obtain rfl := Except.ok.inj h
      simp only [progressLeaves, stackLeaves, total_cons, formLeaves]
      omega
  | case4 => cases h
  | case5 mark stack datum ih =>
      rw [ih h, QuoteMark.apply, Datum.list, Datum.leaves_listWithTail]
      simp only [stackLeaves, total_cons, total_nil, formLeaves, Datum.leaves]
      omega
  | case6 start stack name ih =>
      rw [ih h, Datum.list, Datum.leaves_listWithTail]
      simp only [stackLeaves, total_cons, total_nil, formLeaves, Datum.leaves]
      omega
  | case7 => cases h

theorem Takes.leaves_eq (h : Takes limit stack token next) :
    progressLeaves next = stackLeaves stack + token.kind.leaves := by
  cases h with
  | datum hdatum hnext =>
      rw [complete_leaves hnext]
      obtain ⟨kind, offset⟩ := token
      cases kind <;> cases hdatum
      · rfl
      · simp only [TokenKind.leaves, Datum.ofName]
        split
        · rfl
        · split <;> rfl
  | opening hopens _ _ =>
      obtain ⟨kind, offset⟩ := token
      cases kind <;> cases hopens <;> exact Int.add_comm _ _
  | close hclose hnext =>
      rw [complete_leaves hnext, hclose, Datum.list, Datum.leaves_listWithTail, total_reverse]
      simp only [stackLeaves, total_cons, formLeaves, Datum.leaves, TokenKind.leaves]
      omega
  | closeDotted hclose hnext =>
      rw [complete_leaves hnext, hclose, Datum.leaves_listWithTail, total_reverse]
      simp only [stackLeaves, total_cons, formLeaves, TokenKind.leaves]
      omega
  | dot hdot _ =>
      rw [hdot]
      simp only [progressLeaves, stackLeaves, total_cons, formLeaves, TokenKind.leaves]
      omega

/-- **Leaves.** The number of leaves of a form is what its tokens add up to. -/
theorem Reads.leaves_eq (h : Reads limit stack tokens next) :
    progressLeaves next = stackLeaves stack + total TokenKind.leaves (tokens.map Token.kind) := by
  induction h with
  | refl => exact (Int.add_zero _).symm
  | form htakes => simpa using htakes.leaves_eq
  | step htakes _ ih =>
      have hstep := htakes.leaves_eq
      rw [progressLeaves] at hstep
      rw [ih, hstep, List.map_cons, total_cons, Int.add_assoc]

end Reader

namespace Datum

/-- The tokens of a printed datum add up to its leaves and its rest markers. In the remainder of
a list one leaf, the `NIL` that ends the list, is counted with the parenthesis. -/
theorem leaves_kindsAt (datum : Datum) (position : Position) :
    total TokenKind.leaves (datum.kindsAt position) + (1 - position.levels)
      = datum.leaves + datum.markers := by
  induction datum generalizing position with
  | symbol name =>
      by_cases hrest : name = .restMarker <;> cases position <;>
        simp [kindsAt, Position.atomKinds, Position.levels, Symbol.tokenKind, TokenKind.leaves,
          leaves, markers, hrest]
  | pair car cdr ihcar ihcdr =>
      have hcar := ihcar .element
      have hcdr := ihcdr .remainder
      simp only [Position.levels] at hcar hcdr
      cases position <;>
        simp only [kindsAt, Position.listKinds, Position.levels, total_cons, total_append,
          total_nil, TokenKind.leaves, leaves, markers] <;>
        omega
  | _ => cases position <;> rfl

theorem eof_not_mem_kindsAt (datum : Datum) (position : Position) :
    TokenKind.eof ∉ datum.kindsAt position := by
  induction datum generalizing position with
  | symbol name =>
      have hkind : name.tokenKind ≠ .eof := by
        unfold Symbol.tokenKind
        split <;> simp
      cases position <;> simp [kindsAt, Position.atomKinds, hkind.symm]
  | pair car cdr ihcar ihcdr =>
      cases position <;> simp [kindsAt, Position.listKinds, ihcar, ihcdr]
  | _ => cases position <;> simp [kindsAt, Position.atomKinds, Position.nilKinds]

/-- The printed form of a datum with the rest marker in it reads as something else, if it can be
read at all. -/
theorem readOne_print_ne {datum other : Datum} (hscannable : datum.Scannable)
    (hrest : datum.Mentions .restMarker) (h : readOne datum.print = .ok other) : other ≠ datum := by
  obtain ⟨tokens, hkinds, hscan⟩ := (spells_printAt hscannable .element).scan
  obtain ⟨scanned, hscan', hall⟩ := readOne_eq_ok_iff.1 h
  obtain rfl := Except.ok.inj (hscan.symm.trans hscan')
  have hreads : Reader.Reads Reader.defaultLimit [] tokens (.form other) := by
    refine hall.reads_of_single fun token htoken heof => ?_
    refine eof_not_mem_kindsAt datum .element ?_
    rw [← hkinds, ← heof]
    exact List.mem_map_of_mem htoken
  have hleaves : other.leaves = datum.leaves + datum.markers := by
    have hread := hreads.leaves_eq
    have hprinted := leaves_kindsAt datum .element
    rw [hkinds] at hread
    simp only [Reader.progressLeaves, Reader.stackLeaves, Position.levels, total_nil]
      at hread hprinted
    omega
  have hpos := markers_pos hrest
  rintro rfl
  omega

end Datum

/-! ### Values -/

/-- The forms of a text fit within the limit of the reader that read them. -/
theorem Reader.ReadsAll.fits {limit : Nat} {tokens : List Token} {forms : List Datum}
    (h : ReadsAll limit tokens forms) (htokens : ∀ token ∈ tokens, token.SpellsName) :
    ∀ datum ∈ forms, datum.Fits limit 0 := by
  induction h with
  | eof => exact fun _ hmem => absurd hmem List.not_mem_nil
  | form hreads _ ih =>
      refine List.forall_mem_cons.2 ⟨?_, ?_⟩
      · exact hreads.fits trivial fun token hmem => htokens token (List.mem_append_left _ hmem)
      · exact ih fun token hmem => htokens token (List.mem_append_right _ hmem)

namespace Store

/-- The value is a finite tree, shared or not, of constants, integers, legible symbols and pairs,
and its printed form has its parentheses nested no deeper than a reader allows. -/
structure Legible (store : Store) (value : Value) : Prop where
  plain : ∀ part, store.Inside value part → store.IsPlain part
  symbols : ∀ name, store.Inside value (.symbol name) → name.Legible
  acyclic : ∀ ref, store.Inside value (.pair ref) → ¬store.OnCycle ref
  nesting : Text.nesting (store.print value) ≤ Reader.defaultLimit

/-- The printed form of the value reads as one form, and the value made of it in an arena is
structurally equal to the value printed. -/
def ReadsBack (store : Store) (arena : Nat) (value : Value) : Prop :=
  ∃ datum, Datum.readOne (store.print value) = .ok datum ∧
    (store.ofDatum arena datum).2.equal? (store.ofDatum arena datum).1 value = some true

variable {store : Store} {value : Value} {datum : Datum}

theorem Denotes.legible_iff (h : store.Denotes value datum) :
    store.Legible value ↔ (∀ name, datum.Mentions name → name.Legible) ∧
      datum.nestingAt .element ≤ Reader.defaultLimit := by
  have hsymbols : (∀ name, store.Inside value (.symbol name) → name.Legible) ↔
      ∀ name, datum.Mentions name → name.Legible :=
    forall_congr' fun name => by rw [h.inside_symbol_iff]
  have hnesting : (∀ name, datum.Mentions name → name.Legible) →
      Text.nesting (store.print value) = datum.nestingAt .element := by
    intro hlegible
    rw [h.print, Datum.nesting_print fun name hname => .inl (hlegible name hname)]
  constructor
  · rintro ⟨-, hlegible, -, hlimit⟩
    rw [hsymbols] at hlegible
    exact ⟨hlegible, hnesting hlegible ▸ hlimit⟩
  · rintro ⟨hlegible, hlimit⟩
    refine ⟨fun part hpart => ?_, hsymbols.2 hlegible, fun ref => h.unfolds.acyclic ref,
      hnesting hlegible ▸ hlimit⟩
    obtain ⟨inner, hinner⟩ := h.inside hpart
    exact hinner.isPlain

theorem Denotes.readsBack_iff (h : store.Denotes value datum) {arena : Nat}
    (harena : arena < store.arenas.size) :
    store.ReadsBack arena value ↔ Datum.readOne datum.print = .ok datum := by
  have hequal : ∀ other, (store.ofDatum arena other).2.equal? (store.ofDatum arena other).1 value
      = some (decide (other = datum)) := by
    intro other
    obtain ⟨hcopy, hkept, -⟩ := denotes_ofDatum harena other
    exact hcopy.equal? (h.kept hkept)
  rw [ReadsBack, h.print]
  constructor
  · rintro ⟨other, hread, hsame⟩
    obtain rfl : other = datum := by simpa [hequal] using hsame
    exact hread
  · intro hread
    exact ⟨datum, hread, by simp [hequal]⟩

/-- **Read and print.** A legible value is printed so that reading gives it back, up to structural
equality. A form of a text, made in a store, is legible, so that what its printed form reads as is
the form itself, or it has the rest marker in it, and then its printed form reads as something
else or not at all. -/
theorem print_read_identity :
    (∀ (store : Store) (value : Value), store.Legible value →
      ∀ arena < store.arenas.size, store.ReadsBack arena value) ∧
    (∀ (text : String) (forms : List Datum), Datum.read text = .ok forms → ∀ form ∈ forms,
      ∀ (store : Store) (arena : Nat), arena < store.arenas.size →
        let value := (store.ofDatum arena form).1
        let after := (store.ofDatum arena form).2
        (after.Legible value ∧ Datum.readOne (after.print value) = .ok form ∧
          ∀ other < after.arenas.size, after.ReadsBack other value) ∨
        (after.Inside value (.symbol .restMarker) ∧
          ∀ other < after.arenas.size, ¬after.ReadsBack other value)) := by
  constructor
  · intro store value h arena harena
    obtain ⟨datum, hdatum⟩ := exists_denotes h.plain h.acyclic
    obtain ⟨hlegible, hlimit⟩ := hdatum.legible_iff.1 h
    exact (hdatum.readsBack_iff harena).2 (Datum.readOne_print hlegible hlimit)
  · intro text forms hread form hform store arena harena
    obtain ⟨tokens, hscan, hall⟩ := Datum.readWith_eq_ok_iff.1 hread
    have hfits := hall.fits (Token.spellsName_of_scan hscan) form hform
    obtain ⟨hvalue, -, -⟩ := denotes_ofDatum harena form
    dsimp only
    by_cases hrest : form.Mentions .restMarker
    · refine .inr ⟨(hvalue.inside_symbol_iff _).2 hrest, fun other hother hback => ?_⟩
      rw [hvalue.readsBack_iff hother] at hback
      exact Datum.readOne_print_ne hfits.scannable hrest hback rfl
    · have hlegible : ∀ name, form.Mentions name → name.Legible := by
        intro name hname
        exact (hfits.scannable name hname).resolve_right fun heq => hrest (heq ▸ hname)
      have hlimit : form.nestingAt .element ≤ Reader.defaultLimit := by
        simpa using hfits.nesting
      have hread' := Datum.readOne_print hlegible hlimit
      exact .inl ⟨hvalue.legible_iff.2 ⟨hlegible, hlimit⟩, by rwa [hvalue.print],
        fun other hother => (hvalue.readsBack_iff hother).2 hread'⟩

/-- A pair whose two parts are one dotted pair, and a rest marker with its symbol. -/
theorem print_read_identity_shared :
    let store : Store := ⟨#[{ cells :=
      #[⟨.symbol (.ofString "A"), .integer (-7)⟩, ⟨.pair ⟨0, 0⟩, .pair ⟨0, 0⟩⟩] }]⟩
    let form : Datum := .list [.symbol .restMarker, .symbol (.ofString "XS")]
    let made := store.ofDatum 0 form
    (store.Legible (.pair ⟨0, 1⟩) ∧ store.ReadsBack 0 (.pair ⟨0, 1⟩)) ∧
      Datum.read "&rest xs" = .ok [form] ∧ ¬made.2.ReadsBack 0 made.1 := by
  intro store form made
  have hname : (Symbol.ofString "A").Legible :=
    Symbol.legible_ofString ⟨_, _, rfl, by decide, by decide, by decide⟩ (by decide) (by decide)
  have hpair : store.Denotes (.pair ⟨0, 0⟩) (.pair (.symbol (.ofString "A")) (.integer (-7))) :=
    .pair rfl (.symbol _) (.integer _)
  have hshared : store.Denotes (.pair ⟨0, 1⟩) _ := .pair rfl hpair hpair
  have hlegible : store.Legible (.pair ⟨0, 1⟩) := by
    refine hshared.legible_iff.2 ⟨?_, by decide⟩
    rintro name ((rfl | hfalse) | (rfl | hfalse))
    · exact hname
    · exact hfalse.elim
    · exact hname
    · exact hfalse.elim
  have hread : Datum.read "&rest xs" = .ok [form] := eq_ok_of_toOption (by decide +kernel)
  refine ⟨⟨hlegible, print_read_identity.1 store _ hlegible 0 (by decide)⟩, hread, ?_⟩
  rcases print_read_identity.2 _ _ hread form (by simp) store 0 (by decide) with h | h
  · have hmade : made.2.Denotes made.1 form := (denotes_ofDatum (by decide) form).1
    have hmarker := h.1.symbols .restMarker ((hmade.inside_symbol_iff _).2 (.inl rfl))
    exact absurd rfl hmarker.ne_restMarker
  · exact h.2 0 (by decide)

end Store

end SmallLisp
