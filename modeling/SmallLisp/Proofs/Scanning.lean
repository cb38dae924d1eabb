import SmallLisp.Datum
import SmallLisp.Token
import SmallLisp.Proofs.Unfolding

/-!
# Scanning printed data

A lexeme ends where the next character cannot continue it, so a text can be scanned piece by
piece as long as every piece that may be continued has such a character, or nothing, behind it.
In a printed datum that is always so. Its tokens are those that its structure calls for, with
one exception: the symbol `&REST` is printed like any other and scanned as the rest marker.

## Main results

* `Symbol.Legible.isName`, `Symbol.legible_ofString` — the symbols that the scanner finds in
  texts, up to case, are those whose spelling it scans as themselves.
* `Datum.spells_printAt` — the tokens of a printed datum.
* `Token.scan_eq_ok` — the tokens of a text are lexemes and the mark of its end.
* `Token.spellsName_of_scan` — every symbol token of a text has the spelling of a name.
-/

namespace SmallLisp

theorem eq_ok_of_toOption {ε α : Type} {result : Except ε α} {answer : α}
    (h : result.toOption = some answer) : result = .ok answer := by
  cases result with
  | error _ => cases h
  | ok _ => exact congrArg Except.ok (Option.some.inj h)

open Text

namespace Token

/-! ### Characters of a lexeme -/

theorem isSymbolChar_of_isSymbolStart {c : Char} (h : isSymbolStart c = true) :
    isSymbolChar c = true := by
  simp [isSymbolChar, h]

theorem isSymbolChar_of_isDigit {c : Char} (h : Decimal.isDigit c = true) :
    isSymbolChar c = true := by
  simp [isSymbolChar, h]

theorem isDigit_of_isSymbolStart {c : Char} (h : isSymbolStart c = true) :
    Decimal.isDigit c = false := by
  have hmarks : symbolMarks.all (!Decimal.isDigit ·) = true := by decide
  have hletter : ∀ first : Char, '9' < first → first ≤ c → Decimal.isDigit c = false := by
    intro first hfirst hle
    have hnine : ¬c ≤ '9' := fun hc => absurd (Nat.lt_of_lt_of_le hfirst hle) (Nat.not_lt.2 hc)
    simp [Decimal.isDigit, hnine]
  simp only [isSymbolStart, isLetter, Bool.or_eq_true, Bool.and_eq_true, decide_eq_true_eq] at h
  rcases h with (hsmall | hcapital) | hmark
  · exact hletter _ (by decide) hsmall.1
  · exact hletter _ (by decide) hcapital.1
  · simpa using List.all_eq_true.1 hmarks c (by simpa using hmark)

/-- Characters of a lexeme are visible ASCII characters. -/
theorem toNat_of_isSymbolChar {c : Char} (h : isSymbolChar c = true) :
    33 ≤ c.toNat ∧ c.toNat ≤ 126 := by
  have hmarks : symbolMarks.all (fun mark => 33 ≤ mark.toNat ∧ mark.toNat ≤ 126) = true := by decide
  have hrange : ∀ first last : Char, 33 ≤ first.toNat → last.toNat ≤ 126 →
      (decide (first ≤ c) && decide (c ≤ last)) = true → 33 ≤ c.toNat ∧ c.toNat ≤ 126 := by
    intro first last hfirst hlast hbetween
    simp only [Bool.and_eq_true, decide_eq_true_eq] at hbetween
    exact ⟨Nat.le_trans hfirst hbetween.1, Nat.le_trans hbetween.2 hlast⟩
  simp only [isSymbolChar, isSymbolStart, isLetter, Decimal.isDigit, Bool.or_eq_true] at h
  rcases h with ((hsmall | hcapital) | hmark) | hdigit
  · exact hrange _ _ (by decide) (by decide) hsmall
  · exact hrange _ _ (by decide) (by decide) hcapital
  · simpa using List.all_eq_true.1 hmarks c (by simpa using hmark)
  · exact hrange _ _ (by decide) (by decide) hdigit

theorem isBlank_of_isSymbolChar {c : Char} (h : isSymbolChar c = true) : isBlank c = false := by
  obtain ⟨hlow, hhigh⟩ := toNat_of_isSymbolChar h
  simp only [isBlank, blankRanges, CodeRange.contains, List.any_cons, List.any_nil]
  simp
  omega

theorem ne_semicolon_of_isSymbolChar {c : Char} (h : isSymbolChar c = true) : c ≠ ';' := by
  rintro rfl
  exact absurd h (by decide)

/-- Nothing that follows is part of a lexeme that ends here. -/
def Delimited (rest : List Char) : Prop :=
  ∀ c ∈ rest.head?, isSymbolChar c = false

theorem delimited_nil : Delimited [] := nofun

theorem Delimited.takeWhile_isSymbolChar {cs rest : List Char}
    (hcs : ∀ c ∈ cs, isSymbolChar c = true) (h : Delimited rest) :
    (cs ++ rest).takeWhile isSymbolChar = cs := by
  rw [List.takeWhile_append_of_pos hcs]
  cases rest with
  | nil => simp
  | cons c rest => simp [h c rfl]

theorem Delimited.takeWhile_isDigit {cs rest : List Char}
    (hcs : ∀ c ∈ cs, Decimal.isDigit c = true) (h : Delimited rest) :
    (cs ++ rest).takeWhile Decimal.isDigit = cs := by
  rw [List.takeWhile_append_of_pos hcs]
  cases rest with
  | nil => simp
  | cons c rest =>
      have hdigit : Decimal.isDigit c = false := by
        have hchar := h c rfl
        simp only [isSymbolChar, Bool.or_eq_false_iff] at hchar
        exact hchar.2
      simp [hdigit]

/-! ### Names -/

/-- The characters begin a symbol and no integer, and all belong to it. -/
structure NameChars (c : Char) (cs : List Char) : Prop where
  start : isSymbolStart c = true
  chars : cs.all isSymbolChar = true
  unsigned : isSign c = true → cs.head?.any Decimal.isDigit = false

/-- The mark, if any, that a lexeme begins with is not one of those that stand alone. -/
theorem lexeme_of_isSymbolChar {c : Char} (h : isSymbolChar c = true) (offset : Nat)
    (cs : List Char) : lexeme offset c cs =
      let digits := cs.takeWhile Decimal.isDigit
      if Decimal.isDigit c then
        (integer offset [] (c :: digits) (cs.drop digits.length)).map (·, digits.length)
      else if isSign c ∧ digits ≠ [] then
        (integer offset [c] digits (cs.drop digits.length)).map (·, digits.length)
      else if isSymbolStart c then
        let name := cs.takeWhile isSymbolChar
        .ok (.symbol (String.ofList (c :: name)), name.length)
      else .error (.invalidCharacter c offset) := by
  unfold lexeme
  split <;> first | rfl | exact absurd h (by decide)

/-- The text is spelled as a symbol. -/
def IsName (text : String) : Prop :=
  ∃ c cs, text.toList = c :: cs ∧ NameChars c cs

theorem NameChars.lexeme_eq {c : Char} {cs : List Char} (h : NameChars c cs) (offset : Nat)
    {rest : List Char} (hrest : Delimited rest) :
    lexeme offset c (cs ++ rest) = .ok (.symbol (String.ofList (c :: cs)), cs.length) := by
  have hdigit : Decimal.isDigit c = false := isDigit_of_isSymbolStart h.start
  have hunsigned : ¬(isSign c = true ∧ (cs ++ rest).takeWhile Decimal.isDigit ≠ []) := by
    rintro ⟨hsign, hdigits⟩
    apply hdigits
    cases cs with
    | nil => exact hrest.takeWhile_isDigit nofun
    | cons x cs =>
        have hx : Decimal.isDigit x = false := h.unsigned hsign
        simp [hx]
  rw [lexeme_of_isSymbolChar (isSymbolChar_of_isSymbolStart h.start)]
  simp only [hdigit, Bool.false_eq_true, ↓reduceIte, hunsigned, h.start,
    hrest.takeWhile_isSymbolChar (List.all_eq_true.1 h.chars)]

theorem nameChars_takeWhile {c : Char} {cs : List Char} (hstart : isSymbolStart c = true)
    (hunsigned : ¬(isSign c = true ∧ cs.takeWhile Decimal.isDigit ≠ [])) :
    NameChars c (cs.takeWhile isSymbolChar) where
  start := hstart
  chars := List.all_takeWhile
  unsigned := by
    intro hsign
    cases cs with
    | nil => rfl
    | cons first cs =>
        have hfirst : Decimal.isDigit first = false :=
          Bool.eq_false_iff.2 fun hdigit => hunsigned ⟨hsign, by simp [hdigit]⟩
        rw [List.takeWhile_cons]
        split
        · exact hfirst
        · rfl

theorem integer_map_eq_ok {offset : Nat} {sign digits rest : List Char} {count more : Nat}
    {kind : TokenKind} (h : (integer offset sign digits rest).map (·, count) = .ok (kind, more)) :
    ∃ value, kind = .integer value := by
  simp only [integer] at h
  split at h
  · split at h
    · next value _ =>
        simp only [Except.map, Except.ok.injEq, Prod.mk.injEq] at h
        exact ⟨value, h.1.symm⟩
    · cases h
  · cases h

/-- A lexeme never marks the end of the text, and a symbol has the spelling of a name. -/
theorem kind_of_lexeme {offset more : Nat} {c : Char} {cs : List Char} {kind : TokenKind}
    (h : lexeme offset c cs = .ok (kind, more)) :
    kind ≠ .eof ∧ ∀ name, kind = .symbol name → IsName name := by
  unfold lexeme at h
  split at h
  case h_8 =>
    dsimp only at h
    split at h
    · obtain ⟨value, rfl⟩ := integer_map_eq_ok h
      exact ⟨nofun, nofun⟩
    split at h
    · obtain ⟨value, rfl⟩ := integer_map_eq_ok h
      exact ⟨nofun, nofun⟩
    next hunsigned =>
      split at h
      · next hstart =>
          cases h
          refine ⟨nofun, fun name hname => ?_⟩
          rw [← TokenKind.symbol.inj hname]
          exact ⟨c, _, String.toList_ofList, nameChars_takeWhile hstart hunsigned⟩
      · cases h
  case h_6 =>
    split at h <;> cases h
    all_goals exact ⟨nofun, nofun⟩
  case h_7 =>
    dsimp only at h
    split at h <;> cases h
    exact ⟨nofun, nofun⟩
  all_goals
    cases h
    exact ⟨nofun, nofun⟩

/-! ### Capital letters -/

theorem toUpper_of_isSmall {c : Char} (h : IsSmall c) : 'A' ≤ c.toUpper ∧ c.toUpper ≤ 'Z' := by
  obtain ⟨hlow, hhigh⟩ := h
  have hval := val_toUpper_of_isSmall ⟨hlow, hhigh⟩
  simp only [Char.le_def, UInt32.le_iff_toNat_le, hval, UInt32.toNat_add] at *
  have hshift : ('A'.val - 'a'.val).toNat = 4294967264 := by decide
  have ha : 'a'.val.toNat = 97 := by decide
  have hz : 'z'.val.toNat = 122 := by decide
  have hA : 'A'.val.toNat = 65 := by decide
  have hZ : 'Z'.val.toNat = 90 := by decide
  omega

/-- A character that changes when it is made capital becomes one that begins symbols and is no
sign. -/
theorem toUpper_cases (c : Char) : c.toUpper = c ∨
    (isSymbolStart c.toUpper = true ∧ isSign c.toUpper = false) := by
  by_cases hsmall : IsSmall c
  · obtain ⟨hlow, hhigh⟩ := toUpper_of_isSmall hsmall
    refine .inr ⟨by simp [isSymbolStart, isLetter, hlow, hhigh], ?_⟩
    have hsign : ∀ sign : Char, sign < 'A' → c.toUpper ≠ sign := by
      rintro _ hless rfl
      exact absurd hlow (Nat.not_le.2 hless)
    simp [isSign, hsign]
  · exact .inl (toUpper_of_not_isSmall hsmall)

theorem NameChars.toUpper {c : Char} {cs : List Char} (h : NameChars c cs) :
    NameChars c.toUpper (cs.map Char.toUpper) where
  start := by
    rcases toUpper_cases c with heq | ⟨hstart, -⟩
    · rw [heq]
      exact h.start
    · exact hstart
  chars := by
    rw [List.all_map, List.all_eq_true]
    intro x hx
    rcases toUpper_cases x with heq | ⟨hstart, -⟩
    · rw [Function.comp_apply, heq]
      exact List.all_eq_true.1 h.chars x hx
    · exact isSymbolChar_of_isSymbolStart hstart
  unsigned := by
    intro hsign
    rcases toUpper_cases c with heq | ⟨-, hunsigned⟩
    · rw [heq] at hsign
      cases cs with
      | nil => rfl
      | cons first cs =>
          have hfirst : Decimal.isDigit first = false := h.unsigned hsign
          rw [List.map_cons, List.head?_cons, Option.any_some]
          rcases toUpper_cases first with heq | ⟨hstart, -⟩
          · rwa [heq]
          · exact isDigit_of_isSymbolStart hstart
    · rw [hunsigned] at hsign
      cases hsign

/-- A name remains one with its letters made capital. -/
theorem IsName.upper {text : String} (h : IsName text) : IsName (upper text) := by
  obtain ⟨c, cs, htext, hname⟩ := h
  exact ⟨_, _, by simp [SmallLisp.upper, htext], hname.toUpper⟩

/-! ### Scanning piece by piece -/

theorem scanFrom_blank (found : List Token) (offset : Nat) {c : Char} (h : isBlank c = true)
    (hcomment : c ≠ ';') (cs : List Char) :
    scanFrom found offset (c :: cs) = scanFrom found (offset + 1) cs := by
  have hgap : skipGap false offset (c :: cs) = skipGap false (offset + 1) cs := by
    simp [skipGap, h, hcomment]
  rw [scanFrom, hgap, ← scanFrom]

theorem scanFrom_lexeme {c : Char} {cs : List Char} {kind : TokenKind} {more offset : Nat}
    (hblank : isBlank c = false) (hcomment : c ≠ ';')
    (h : lexeme offset c cs = .ok (kind, more)) (found : List Token) :
    scanFrom found offset (c :: cs)
      = scanFrom (⟨kind, offset⟩ :: found) (offset + 1 + more) (cs.drop more) := by
  have hgap : skipGap false offset (c :: cs) = (offset, c :: cs) := by
    simp [skipGap, hblank, hcomment]
  rw [scanFrom, hgap]
  simp only [h]

/-- The scanner finds tokens of these kinds in the text wherever what stands behind it does not
continue its last lexeme. -/
def Spells (text : List Char) (kinds : List TokenKind) : Prop :=
  ∀ found offset rest, Delimited rest → ∃ tokens : List Token, tokens.map kind = kinds ∧
    scanFrom found offset (text ++ rest)
      = scanFrom (tokens.reverse ++ found) (offset + text.length) rest

theorem spells_nil : Spells [] [] := by
  intro found offset rest _
  exact ⟨[], rfl, rfl⟩

theorem Spells.append {left right : List Char} {leftKinds rightKinds : List TokenKind}
    (hleft : Spells left leftKinds) (hright : Spells right rightKinds)
    (hend : ∀ rest, Delimited rest → Delimited (right ++ rest)) :
    Spells (left ++ right) (leftKinds ++ rightKinds) := by
  intro found offset rest hrest
  obtain ⟨first, hfirst, hscan⟩ := hleft found offset (right ++ rest) (hend rest hrest)
  obtain ⟨second, hsecond, hscan'⟩ :=
    hright (first.reverse ++ found) (offset + left.length) rest hrest
  refine ⟨first ++ second, by rw [List.map_append, hfirst, hsecond], ?_⟩
  rw [List.append_assoc, hscan, hscan', List.reverse_append, List.append_assoc,
    List.length_append, Nat.add_assoc]

theorem Spells.blank {text : List Char} {kinds : List TokenKind} (h : Spells text kinds) :
    Spells (' ' :: text) kinds := by
  intro found offset rest hrest
  obtain ⟨tokens, hkinds, hscan⟩ := h found (offset + 1) rest hrest
  refine ⟨tokens, hkinds, ?_⟩
  rw [List.cons_append, scanFrom_blank _ _ (by decide) (by decide), hscan, List.length_cons,
    Nat.add_right_comm, Nat.add_assoc]

/-- A mark that stands alone may have anything behind it. -/
theorem Spells.mark {c : Char} {kind : TokenKind} (hblank : isBlank c = false)
    (hcomment : c ≠ ';') (hmark : ∀ offset cs, lexeme offset c cs = .ok (kind, 0))
    {text : List Char} {kinds : List TokenKind} (h : Spells text kinds) :
    Spells (c :: text) (kind :: kinds) := by
  intro found offset rest hrest
  obtain ⟨tokens, hkinds, hscan⟩ := h (⟨kind, offset⟩ :: found) (offset + 1) rest hrest
  refine ⟨⟨kind, offset⟩ :: tokens, by rw [List.map_cons, hkinds], ?_⟩
  rw [List.cons_append, scanFrom_lexeme hblank hcomment (hmark offset _)]
  simp only [Nat.add_zero, List.drop_zero, hscan, List.reverse_cons, List.append_assoc,
    List.singleton_append, List.length_cons, Nat.add_right_comm, Nat.add_assoc]

/-- A lexeme that a delimiter ends. -/
theorem spells_lexeme {c : Char} {cs : List Char} {kind : TokenKind} (hblank : isBlank c = false)
    (hcomment : c ≠ ';') (h : ∀ offset rest, Delimited rest →
      lexeme offset c (cs ++ rest) = .ok (kind, cs.length)) : Spells (c :: cs) [kind] := by
  intro found offset rest hrest
  refine ⟨[⟨kind, offset⟩], rfl, ?_⟩
  rw [List.cons_append, scanFrom_lexeme hblank hcomment (h offset rest hrest),
    List.drop_left, List.length_cons, Nat.add_right_comm, Nat.add_assoc]
  rfl

theorem IsName.spells {text : String} (h : IsName text) : Spells text.toList [.symbol text] := by
  obtain ⟨c, cs, htext, hname⟩ := h
  have hchar := isSymbolChar_of_isSymbolStart hname.start
  obtain rfl : text = String.ofList (c :: cs) := by rw [← htext, String.ofList_toList]
  rw [htext]
  exact spells_lexeme (isBlank_of_isSymbolChar hchar) (ne_semicolon_of_isSymbolChar hchar)
    fun offset _ => hname.lexeme_eq offset

/-! ### Integers -/

theorem isDigit_of_mem_digits {n : Nat} {c : Char} (h : c ∈ Decimal.digits n) :
    Decimal.isDigit c = true :=
  Nat.isDigit_of_mem_toDigits (by decide) (by decide) h

theorem digits_ne_nil (n : Nat) : Decimal.digits n ≠ [] :=
  Nat.toDigits_ne_nil

theorem integerValue?_digits {value : Int64} {negative : Bool} {n : Nat}
    (h : value.toInt = if negative then -(n : Int) else n) :
    integerValue? negative (Decimal.digits n) = some value := by
  have hmin := value.minValue_le_toInt
  have hmax := value.toInt_le
  rw [integerValue?, Decimal.ofDigits_digits, ← h]
  simp only [hmin, hmax, and_self, ↓reduceIte, Int64.ofInt_toInt]

theorem integer_digits {value : Int64} {sign : List Char} {n : Nat}
    (h : value.toInt = if sign = ['-'] then -(n : Int) else n) (offset : Nat) {rest : List Char}
    (hrest : Delimited rest) :
    integer offset sign (Decimal.digits n) rest = .ok (.integer value) := by
  have htail : ([] ++ rest).takeWhile isSymbolChar = [] := hrest.takeWhile_isSymbolChar nofun
  have hvalue : integerValue? (decide (sign = ['-'])) (Decimal.digits n) = some value :=
    integerValue?_digits (by simpa using h)
  rw [List.nil_append] at htail
  simp [integer, htail, hvalue]

theorem spells_ofInt (value : Int64) :
    Spells (Decimal.ofInt value.toInt).toList [.integer value] := by
  cases hvalue : value.toInt with
  | ofNat n =>
      obtain ⟨c, cs, hdigits⟩ := List.exists_cons_of_ne_nil (digits_ne_nil n)
      have hall : ∀ x ∈ c :: cs, Decimal.isDigit x = true := fun x hx =>
        isDigit_of_mem_digits (n := n) (by rwa [hdigits])
      have hc := hall c List.mem_cons_self
      have hcs : ∀ x ∈ cs, Decimal.isDigit x = true := fun x hx =>
        hall x (List.mem_cons_of_mem c hx)
      have hchar := isSymbolChar_of_isDigit hc
      have htext : (Decimal.ofInt (Int.ofNat n)).toList = c :: cs := by
        simp [Decimal.ofInt, Decimal.ofNat, hdigits]
      rw [htext]
      refine spells_lexeme (isBlank_of_isSymbolChar hchar) (ne_semicolon_of_isSymbolChar hchar) ?_
      intro offset rest hrest
      rw [lexeme_of_isSymbolChar hchar]
      simp only [hc, ↓reduceIte, hrest.takeWhile_isDigit hcs, List.drop_left]
      rw [← hdigits, integer_digits (by simpa using hvalue) offset hrest]
      rfl
  | negSucc n =>
      have htext : (Decimal.ofInt (Int.negSucc n)).toList = '-' :: Decimal.digits (n + 1) := by
        simp [Decimal.ofInt, Decimal.ofNat]
      rw [htext]
      refine spells_lexeme (by decide) (by decide) ?_
      intro offset rest hrest
      rw [lexeme_of_isSymbolChar (by decide)]
      simp only [hrest.takeWhile_isDigit fun _ => isDigit_of_mem_digits, List.drop_left]
      rw [if_neg (by decide), if_pos ⟨by decide, digits_ne_nil _⟩,
        integer_digits (by rw [hvalue, if_pos rfl]; rfl) offset hrest]
      rfl

/-- The tokens of a whole text. -/
theorem Spells.scan {text : String} {kinds : List TokenKind} (h : Spells text.toList kinds) :
    ∃ tokens : List Token, tokens.map kind = kinds ∧
      Token.scan text = .ok (tokens ++ [⟨.eof, text.toList.length⟩]) := by
  obtain ⟨tokens, hkinds, hscan⟩ := h [] 0 [] delimited_nil
  refine ⟨tokens, hkinds, ?_⟩
  simp only [List.append_nil, Nat.zero_add] at hscan
  rw [Token.scan, hscan, scanFrom]
  simp [skipGap]

/-! ### The tokens of any text -/

/-- The kind is that of a lexeme. -/
def IsLexeme (kind : TokenKind) : Prop :=
  ∃ offset c cs more, lexeme offset c cs = .ok (kind, more)

/-- The tokens that are found stay; behind them come lexemes, and the mark of the end. -/
theorem scanFrom_eq_ok {found tokens : List Token} {offset : Nat} {text : List Char}
    (h : scanFrom found offset text = .ok tokens) :
    ∃ body last, tokens = found.reverse ++ body ++ [last] ∧ last.kind = .eof ∧
      ∀ token ∈ body, IsLexeme token.kind := by
  fun_induction scanFrom found offset text with
  | case1 found offset text start hgap =>
      obtain rfl := Except.ok.inj h
      exact ⟨[], ⟨.eof, start⟩, by simp, rfl, fun _ hmem => absurd hmem List.not_mem_nil⟩
  | case2 => cases h
  | case3 found offset text start c cs hgap kind more hlexeme ih =>
      obtain ⟨body, last, rfl, hlast, hbody⟩ := ih h
      exact ⟨⟨kind, start⟩ :: body, last, by simp, hlast,
        List.forall_mem_cons.2 ⟨⟨start, c, cs, more, hlexeme⟩, hbody⟩⟩

/-- The tokens of a text are lexemes, and the mark of the end. -/
theorem scan_eq_ok {text : String} {tokens : List Token} (h : scan text = .ok tokens) :
    ∃ body last, tokens = body ++ [last] ∧ last.kind = .eof ∧
      ∀ token ∈ body, IsLexeme token.kind :=
  scanFrom_eq_ok h

/-- A text that has tokens has a first one. -/
theorem exists_cons_of_scan {text : String} {tokens : List Token} (h : scan text = .ok tokens) :
    ∃ first upcoming, tokens = first :: upcoming := by
  obtain ⟨body, last, rfl, -, -⟩ := scan_eq_ok h
  exact List.exists_cons_of_ne_nil (by simp)

/-- No lexeme marks the end of the text. -/
theorem not_isLexeme_eof : ¬IsLexeme .eof := by
  rintro ⟨offset, c, cs, more, h⟩
  exact (kind_of_lexeme h).1 rfl

/-- The token, if it is a symbol, has the spelling of a name. -/
def SpellsName (token : Token) : Prop :=
  ∀ name, token.kind = .symbol name → IsName name

/-- Every symbol token of a text has the spelling of a name. -/
theorem spellsName_of_scan {text : String} {tokens : List Token}
    (h : scan text = .ok tokens) : ∀ token ∈ tokens, token.SpellsName := by
  obtain ⟨body, last, rfl, hlast, hbody⟩ := scan_eq_ok h
  intro token hmem name hname
  rcases List.mem_append.1 hmem with hmem | hmem
  · obtain ⟨offset, c, cs, more, hlexeme⟩ := hbody token hmem
    exact (kind_of_lexeme hlexeme).2 name hname
  · rw [List.mem_singleton.1 hmem, hlast] at hname
    cases hname

end Token

/-! ### Legible symbols -/

/-- The scanner finds in the spelling of the symbol just the symbol, which is not the name of a
constant. -/
structure Symbol.Legible (name : Symbol) : Prop where
  scanned : (Token.scan name.spelling).map (·.map Token.kind) = .ok [.symbol name.spelling, .eof]
  notNil : name.spelling ≠ "NIL"
  notT : name.spelling ≠ "T"

namespace Symbol

theorem Legible.isName {name : Symbol} (h : name.Legible) : Token.IsName name.spelling := by
  have hscanned := h.scanned
  cases htokens : Token.scan name.spelling with
  | error e => simp [htokens, Except.map] at hscanned
  | ok tokens =>
      have hkind : TokenKind.symbol name.spelling ∈ tokens.map Token.kind := by
        simp_all [Except.map]
      obtain ⟨token, hmem, hkind⟩ := List.mem_map.1 hkind
      exact Token.spellsName_of_scan htokens token hmem _ hkind

/-- A symbol that a name spells is legible, unless a constant has that name. -/
theorem legible_ofString {text : String} (h : Token.IsName text) (hnil : upper text ≠ "NIL")
    (ht : upper text ≠ "T") : (ofString text).Legible where
  scanned := by
    obtain ⟨tokens, hkinds, hscan⟩ := h.upper.spells.scan
    simp only [ofString]
    rw [hscan]
    simp [Except.map, hkinds]
  notNil := hnil
  notT := ht

theorem restMarker_spells : Token.Spells restMarker.spelling.toList [.rest] := by
  have hspelling : restMarker.spelling.toList = '&' :: "REST".toList := by
    simp [restMarker, ofString, upper]
  rw [hspelling]
  refine Token.spells_lexeme (by decide) (by decide) ?_
  intro offset rest hrest
  have hname : ("REST".toList ++ rest).takeWhile Token.isSymbolChar = "REST".toList :=
    hrest.takeWhile_isSymbolChar (List.all_eq_true.1 (by decide))
  simp only [Token.lexeme, hname]
  rw [if_pos (by decide)]

end Symbol

/-! ### Printed data -/

/-- The token that a printed symbol is scanned as. -/
def Symbol.tokenKind (name : Symbol) : TokenKind :=
  if name = .restMarker then .rest else .symbol name.spelling

namespace Position

/-- The tokens of something that is not a pair, at its position. -/
def atomKinds (kind : TokenKind) : Position → List TokenKind
  | .element => [kind]
  | .remainder => [.dot, kind]

/-- The tokens of a pair at its position, given the tokens of its two parts. -/
def listKinds (parts : List TokenKind) : Position → List TokenKind
  | .element => .openParen :: (parts ++ [.closeParen])
  | .remainder => parts

/-- The tokens of `NIL` at its position. -/
def nilKinds : Position → List TokenKind
  | .element => [.symbol "NIL"]
  | .remainder => []

theorem spells_atom {text : String} {kind : TokenKind} (h : Token.Spells text.toList [kind])
    (position : Position) : Token.Spells (position.atom text).toList (position.atomKinds kind) := by
  cases position with
  | element => exact h
  | remainder =>
      have htext : (remainder.atom text).toList = ' ' :: '.' :: ' ' :: text.toList := by
        simp [atom]
      rw [htext]
      exact (h.blank.mark (by decide) (by decide) fun _ _ => rfl).blank

theorem spells_list {parts : String} {kinds : List TokenKind}
    (h : Token.Spells parts.toList kinds) (position : Position) :
    Token.Spells (position.list parts).toList (position.listKinds kinds) := by
  cases position with
  | element =>
      have htext : (element.list parts).toList = '(' :: (parts.toList ++ [')']) := by
        simp [list]
      have hclose : Token.Spells [')'] [.closeParen] :=
        Token.spells_nil.mark (by decide) (by decide) fun _ _ => rfl
      rw [htext]
      refine (h.append hclose fun rest _ => ?_).mark (by decide) (by decide) fun _ _ => rfl
      rintro c hc
      obtain rfl : ')' = c := by simpa using hc
      decide
  | remainder =>
      have htext : (remainder.list parts).toList = ' ' :: parts.toList := by
        simp [list]
      rw [htext]
      exact h.blank

theorem spells_nil (position : Position) :
    Token.Spells position.nil.toList position.nilKinds := by
  cases position with
  | element =>
      have hname : Token.IsName "NIL" := ⟨_, _, rfl, by decide, by decide, by decide⟩
      exact hname.spells
  | remainder => exact Token.spells_nil

end Position

namespace Datum

/-- The tokens of the printed form at a position. -/
def kindsAt (position : Position) : Datum → List TokenKind
  | nil => position.nilKinds
  | t => position.atomKinds (.symbol "T")
  | integer value => position.atomKinds (.integer value)
  | symbol name => position.atomKinds name.tokenKind
  | pair car cdr => position.listKinds (car.kindsAt .element ++ cdr.kindsAt .remainder)

/-- What remains of a list behind an element continues no lexeme. -/
theorem delimited_printAt_remainder (datum : Datum) {rest : List Char}
    (h : Token.Delimited rest) : Token.Delimited ((datum.printAt .remainder).toList ++ rest) := by
  have hblank : ∀ cs, Token.Delimited (' ' :: cs) := by
    intro cs c hc
    obtain rfl : ' ' = c := by simpa using hc
    decide
  cases datum <;> simp [printAt, Position.nil, Position.atom, Position.list, hblank, h]

/-- The datum has no symbol in it whose printed form cannot be scanned. -/
def Scannable (datum : Datum) : Prop :=
  ∀ name, datum.Mentions name → name.Legible ∨ name = .restMarker

theorem spells_tokenKind {name : Symbol} (h : name.Legible ∨ name = .restMarker) :
    Token.Spells name.spelling.toList [name.tokenKind] := by
  by_cases hrest : name = .restMarker
  · subst hrest
    exact Symbol.restMarker_spells
  · rw [Symbol.tokenKind, if_neg hrest]
    exact (h.resolve_right hrest).isName.spells

/-- **Scanning undoes printing**: the tokens of a printed datum are those that its structure
calls for. -/
theorem spells_printAt {datum : Datum} (h : datum.Scannable) (position : Position) :
    Token.Spells (datum.printAt position).toList (datum.kindsAt position) := by
  induction datum generalizing position with
  | nil => exact position.spells_nil
  | t =>
      have hname : Token.IsName "T" := ⟨_, _, rfl, by decide, by decide, by decide⟩
      exact Position.spells_atom hname.spells position
  | integer value => exact Position.spells_atom (Token.spells_ofInt value) position
  | symbol name => exact Position.spells_atom (spells_tokenKind (h name rfl)) position
  | pair car cdr ihcar ihcdr =>
      have hcar := ihcar (fun name hname => h name (.inl hname)) .element
      have hcdr := ihcdr (fun name hname => h name (.inr hname)) .remainder
      apply Position.spells_list
      rw [String.toList_append]
      exact hcar.append hcdr fun _ => cdr.delimited_printAt_remainder

end Datum

end SmallLisp
