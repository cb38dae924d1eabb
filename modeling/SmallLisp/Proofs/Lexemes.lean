import SmallLisp.Proofs.Scanning

/-!
# The lexemes of a text

A text that has tokens is a row of lexemes, with a gap in front of each of them and one at the end.
A layout says which characters of a text are which. Whether it is proper is a matter of the
characters alone: gaps hold blanks and comments, each lexeme is written as its kind demands, and no
lexeme could have gone on behind its end. The scanner finds the proper layout of a text, if there
is one, and no text has two.

## Main results

* `IsGap.skipGap_eq`, `exists_isGap` — what the scanner skips is the gap in front of it.
* `lexeme_eq_ok_iff` — what it takes then is a lexeme that could not have gone on.
* `Layout.Proper.scanFrom_eq`, `Layout.exists_proper` — it finds the tokens of any proper layout,
  and nothing else.
* `Layout.Proper.unique` — no text has two proper layouts.
* `scan_iff_layout` — the scanner finds exactly the tokens of the one proper layout.
-/

namespace SmallLisp

open Text

namespace Token

/-! ### Gaps -/

/-- The characters are blanks and comments, with `behind` behind them. A comment runs from a
semicolon through the next line break or to the end of the text. -/
inductive IsGap (behind : List Char) : List Char → Prop
  | none : IsGap behind []
  | blank {c : Char} {cs : List Char} : isBlank c = true → IsGap behind cs →
      IsGap behind (c :: cs)
  | comment {body cs : List Char} : '\n' ∉ body → IsGap behind cs →
      IsGap behind (';' :: (body ++ '\n' :: cs))
  | lastComment {body : List Char} : '\n' ∉ body → behind = [] → IsGap behind (';' :: body)

/-- No gap goes on here: this is the end of the text, or neither a blank nor a semicolon. -/
def EndsGap (cs : List Char) : Prop :=
  ∀ c ∈ cs.head?, isBlank c = false ∧ c ≠ ';'

theorem endsGap_nil : EndsGap [] :=
  fun _ hc => absurd hc (Option.not_mem_none _)

theorem endsGap_cons {c : Char} {cs : List Char} (hblank : isBlank c = false) (hcomment : c ≠ ';') :
    EndsGap (c :: cs) := by
  intro other hother
  obtain rfl : c = other := by simpa using hother
  exact ⟨hblank, hcomment⟩

theorem skipGap_comment {body : List Char} (h : '\n' ∉ body) (offset : Nat) (cs : List Char) :
    skipGap true offset (body ++ '\n' :: cs) = skipGap false (offset + body.length + 1) cs := by
  induction body generalizing offset with
  | nil => simp [skipGap]
  | cons c body ih =>
      simp only [List.mem_cons, not_or] at h
      obtain ⟨hc, hbody⟩ := h
      simp only [List.cons_append, skipGap, ↓reduceIte, ne_eq, Ne.symm hc, not_false_eq_true,
        decide_true, List.length_cons]
      rw [ih hbody]
      congr 1
      omega

theorem skipGap_lastComment {body : List Char} (h : '\n' ∉ body) (offset : Nat) :
    skipGap true offset body = (offset + body.length, []) := by
  induction body generalizing offset with
  | nil => rfl
  | cons c body ih =>
      simp only [List.mem_cons, not_or] at h
      obtain ⟨hc, hbody⟩ := h
      simp only [skipGap, ↓reduceIte, ne_eq, Ne.symm hc, not_false_eq_true, decide_true,
        List.length_cons]
      rw [ih hbody]
      congr 1
      omega

/-- **A gap is skipped** up to where it ends. -/
theorem IsGap.skipGap_eq {gap behind : List Char} (h : IsGap behind gap) (hbehind : EndsGap behind)
    (offset : Nat) : skipGap false offset (gap ++ behind) = (offset + gap.length, behind) := by
  induction h generalizing offset with
  | none =>
      cases behind with
      | nil => rfl
      | cons c cs =>
          obtain ⟨hblank, hcomment⟩ := hbehind c rfl
          simp [skipGap, hblank, hcomment]
  | @blank c cs hc _ ih =>
      have hcomment : c ≠ ';' := by
        rintro rfl
        exact absurd hc (by decide)
      simp only [List.cons_append, skipGap, hcomment, hc, Bool.false_eq_true, ↓reduceIte,
        List.length_cons]
      rw [ih]
      congr 1
      omega
  | @comment body cs hbody _ ih =>
      have hskip := skipGap_comment hbody (offset + 1) (cs ++ behind)
      simp only [List.cons_append, List.append_assoc, skipGap, Bool.false_eq_true, ↓reduceIte,
        List.length_cons, List.length_append]
      rw [hskip, ih]
      congr 1
      omega
  | @lastComment body hbody hnil =>
      have hskip := skipGap_lastComment hbody (offset + 1)
      simp only [hnil, List.append_nil, skipGap, Bool.false_eq_true, ↓reduceIte, List.length_cons]
      rw [hskip]
      congr 1
      omega

/-- Every text begins with a gap, if only with an empty one. -/
theorem exists_isGap (text : List Char) :
    ∃ gap behind, text = gap ++ behind ∧ IsGap behind gap ∧ EndsGap behind := by
  induction hlength : text.length using Nat.strongRecOn generalizing text with
  | ind length ih =>
      cases text with
      | nil => exact ⟨[], [], rfl, .none, endsGap_nil⟩
      | cons c cs =>
          rw [List.length_cons] at hlength
          by_cases hcomment : c = ';'
          · subst hcomment
            by_cases hline : '\n' ∈ cs
            · -- the comment ends at the first line break, and the gap goes on behind it
              obtain ⟨body, others, rfl, hbody⟩ := List.eq_append_cons_of_mem hline
              rw [List.length_append, List.length_cons] at hlength
              obtain ⟨gap, behind, rfl, hgap, hends⟩ := ih others.length (by omega) others rfl
              exact ⟨';' :: (body ++ '\n' :: gap), behind, by simp, .comment hbody hgap, hends⟩
            · exact ⟨';' :: cs, [], by simp, .lastComment hline rfl, endsGap_nil⟩
          · cases hblank : isBlank c with
            | true =>
                obtain ⟨gap, behind, rfl, hgap, hends⟩ := ih cs.length (by omega) cs rfl
                exact ⟨c :: gap, behind, rfl, .blank hblank hgap, hends⟩
            | false => exact ⟨[], c :: cs, rfl, .none, endsGap_cons hblank hcomment⟩

/-- A text begins with one gap only. -/
theorem IsGap.unique {gap gap' behind behind' : List Char} (h : IsGap behind gap)
    (hends : EndsGap behind) (h' : IsGap behind' gap') (hends' : EndsGap behind')
    (htext : gap ++ behind = gap' ++ behind') : gap = gap' ∧ behind = behind' := by
  have hskip := h.skipGap_eq hends 0
  rw [htext, h'.skipGap_eq hends' 0] at hskip
  obtain rfl : behind' = behind := congrArg Prod.snd hskip
  exact ⟨List.append_cancel_right htext, rfl⟩

/-! ### Lexemes -/

end Token

/-- The characters are a lexeme of this kind. -/
inductive TokenKind.WrittenAs : TokenKind → List Char → Prop
  | openParen : WrittenAs .openParen ['(']
  | closeParen : WrittenAs .closeParen [')']
  | quote : WrittenAs .quote ['\'']
  | quasiquote : WrittenAs .quasiquote ['\x60']
  | dot : WrittenAs .dot ['.']
  | unquote : WrittenAs .unquote [',']
  | unquoteSplicing : WrittenAs .unquoteSplicing [',', '@']
  /-- The word `rest` in any case behind an ampersand. -/
  | rest {name : List Char} : upper (String.ofList name) = "REST" → WrittenAs .rest ('&' :: name)
  /-- Digits with at most one sign in front, whose value fits a signed 64-bit word. -/
  | integer {sign digits : List Char} {value : Int64} :
      sign = [] ∨ sign = ['+'] ∨ sign = ['-'] → digits ≠ [] →
      (∀ c ∈ digits, Decimal.isDigit c = true) →
      value.toInt = (if sign = ['-'] then -(Decimal.ofDigits digits : Int)
        else Decimal.ofDigits digits) →
      WrittenAs (.integer value) (sign ++ digits)
  | symbol {name : String} : Token.IsName name → WrittenAs (.symbol name) name.toList

/-- A lexeme of this kind ends in front of these characters. -/
def TokenKind.EndsBefore : TokenKind → List Char → Prop
  | .unquote, behind => behind.head? ≠ some '@'
  | .rest, behind | .integer _, behind | .symbol _, behind => Token.Delimited behind
  | _, _ => True

namespace Token

theorem isSymbolChar_of_toUpper {c : Char} (h : isLetter c.toUpper = true) :
    isSymbolChar c = true := by
  have hletter : isLetter c = true := by
    by_cases hsmall : IsSmall c
    · have hlow : 'a' ≤ c := hsmall.1
      have hhigh : c ≤ 'z' := hsmall.2
      simp [isLetter, hlow, hhigh]
    · rwa [toUpper_of_not_isSmall hsmall] at h
  simp [isSymbolChar, isSymbolStart, hletter]

/-- The word behind the ampersand of a rest marker could stand in a symbol. -/
theorem isSymbolChar_of_upper_eq_rest {name : List Char}
    (h : upper (String.ofList name) = "REST") : ∀ c ∈ name, isSymbolChar c = true := by
  have hname : name.map Char.toUpper = "REST".toList := by
    rw [← h, upper, String.toList_ofList, String.toList_ofList]
  have hletters : "REST".toList.all isLetter = true := by decide
  intro c hc
  refine isSymbolChar_of_toUpper (List.all_eq_true.1 hletters _ ?_)
  rw [← hname]
  exact List.mem_map_of_mem hc

theorem integerValue?_eq_some_iff {negative : Bool} {digits : List Char} {value : Int64} :
    integerValue? negative digits = some value ↔
      value.toInt = if negative then -(Decimal.ofDigits digits : Int)
        else Decimal.ofDigits digits := by
  rw [integerValue?]
  generalize (if negative then -(Decimal.ofDigits digits : Int) else Decimal.ofDigits digits) = n
  constructor
  · intro h
    by_cases hfits : Int64.minValue.toInt ≤ n ∧ n ≤ Int64.maxValue.toInt
    · rw [if_pos hfits] at h
      obtain rfl := Option.some.inj h
      exact Int64.toInt_ofInt_of_le hfits.1 (Int.lt_add_one_of_le hfits.2)
    · rw [if_neg hfits] at h
      cases h
  · rintro rfl
    rw [if_pos ⟨value.minValue_le_toInt, value.toInt_le⟩, Int64.ofInt_toInt]

theorem isEmpty_takeWhile_iff {behind : List Char} :
    (behind.takeWhile isSymbolChar).isEmpty = true ↔ Delimited behind := by
  cases behind with
  | nil => simp [Delimited]
  | cons c behind =>
      cases hc : isSymbolChar c <;> simp [Delimited, hc]

theorem integer_eq_ok_iff {offset : Nat} {sign digits behind : List Char} {kind : TokenKind} :
    integer offset sign digits behind = .ok kind ↔
      Delimited behind ∧ ∃ value, kind = .integer value ∧
        value.toInt = if sign = ['-'] then -(Decimal.ofDigits digits : Int)
          else Decimal.ofDigits digits := by
  have hvalue := @integerValue?_eq_some_iff (decide (sign = ['-'])) digits
  simp only [decide_eq_true_eq] at hvalue
  simp only [integer, ← isEmpty_takeWhile_iff, ← hvalue]
  cases (behind.takeWhile isSymbolChar).isEmpty with
  | false => simp
  | true =>
      cases integerValue? (decide (sign = ['-'])) digits with
      | none => simp
      | some value =>
          simp only [↓reduceIte, Except.ok.injEq, Option.some.injEq, true_and]
          exact ⟨fun hkind => ⟨value, hkind.symm, rfl⟩, by rintro ⟨_, rfl, rfl⟩; rfl⟩

/-- **A lexeme is taken** wherever what stands behind it does not continue it. -/
theorem lexeme_of_writtenAs {kind : TokenKind} {c : Char} {cs : List Char}
    (h : kind.WrittenAs (c :: cs)) {behind : List Char} (hends : kind.EndsBefore behind)
    (offset : Nat) : lexeme offset c (cs ++ behind) = .ok (kind, cs.length) := by
  generalize hchars : c :: cs = chars at h
  cases h with
  | openParen => cases hchars; rfl
  | closeParen => cases hchars; rfl
  | quote => cases hchars; rfl
  | quasiquote => cases hchars; rfl
  | dot => cases hchars; rfl
  | unquote =>
      cases hchars
      exact if_neg hends
  | unquoteSplicing => cases hchars; rfl
  | rest hname =>
      cases hchars
      have htake := Delimited.takeWhile_isSymbolChar (isSymbolChar_of_upper_eq_rest hname) hends
      simp [lexeme, htake, hname]
  | @integer sign digits value hsign hne hdigits hvalue =>
      have hinteger : integer offset sign digits behind = .ok (.integer value) :=
        integer_eq_ok_iff.2 ⟨hends, value, rfl, hvalue⟩
      rcases hsign with rfl | rfl | rfl
      · obtain rfl : c :: cs = digits := hchars
        have hc := hdigits c List.mem_cons_self
        have htake := Delimited.takeWhile_isDigit
          (fun x hx => hdigits x (List.mem_cons_of_mem c hx)) hends
        rw [lexeme_of_isSymbolChar (isSymbolChar_of_isDigit hc)]
        simp only [hc, ↓reduceIte, htake, List.drop_left, hinteger]
        rfl
      all_goals
        obtain ⟨rfl, rfl⟩ := List.cons.inj hchars
        have htake := Delimited.takeWhile_isDigit hdigits hends
        rw [lexeme_of_isSymbolChar (by decide)]
        simp only [htake, List.drop_left]
        rw [if_neg (by decide), if_pos ⟨by decide, hne⟩, hinteger]
        rfl
  | @symbol name hname =>
      obtain ⟨first, others, htext, hname⟩ := hname
      rw [htext] at hchars
      obtain ⟨rfl, rfl⟩ := List.cons.inj hchars
      rw [hname.lexeme_eq offset hends, ← htext, String.ofList_toList]

theorem delimited_dropWhile (cs : List Char) : Delimited (cs.dropWhile isSymbolChar) := by
  intro c hc
  have hhead := List.head?_dropWhile_not isSymbolChar cs
  rw [hc] at hhead
  simpa using hhead

theorem drop_length_takeWhile (p : Char → Bool) (cs : List Char) :
    cs.drop (cs.takeWhile p).length = cs.dropWhile p := by
  have hdrop := @List.drop_left _ (cs.takeWhile p) (cs.dropWhile p)
  rwa [List.takeWhile_append_dropWhile] at hdrop

/-- The digits at the start of a text, with the rest of it behind them. -/
theorem writtenAs_of_integer {kind : TokenKind} {offset more : Nat} {sign cs : List Char}
    (before : List Char) (hsign : sign = [] ∨ sign = ['+'] ∨ sign = ['-'])
    (hbefore : ∀ c ∈ before, Decimal.isDigit c = true)
    (hne : before ++ cs.takeWhile Decimal.isDigit ≠ [])
    (h : (integer offset sign (before ++ cs.takeWhile Decimal.isDigit)
      (cs.drop (cs.takeWhile Decimal.isDigit).length)).map
        (·, (cs.takeWhile Decimal.isDigit).length) = .ok (kind, more)) :
    ∃ taken behind, cs = taken ++ behind ∧ taken.length = more ∧
      kind.WrittenAs (sign ++ (before ++ taken)) ∧ kind.EndsBefore behind := by
  rw [drop_length_takeWhile] at h
  cases hkind : integer offset sign (before ++ cs.takeWhile Decimal.isDigit)
      (cs.dropWhile Decimal.isDigit) with
  | error e =>
      rw [hkind] at h
      cases h
  | ok found =>
      rw [hkind] at h
      obtain ⟨rfl, rfl⟩ := Prod.mk.inj (Except.ok.inj h)
      obtain ⟨hdelimited, value, rfl, hvalue⟩ := integer_eq_ok_iff.1 hkind
      have hdigits : ∀ c ∈ before ++ cs.takeWhile Decimal.isDigit, Decimal.isDigit c = true := by
        intro c hc
        rcases List.mem_append.1 hc with hc | hc
        · exact hbefore c hc
        · exact List.all_eq_true.1 List.all_takeWhile c hc
      exact ⟨_, _, List.takeWhile_append_dropWhile.symm, rfl, .integer hsign hne hdigits hvalue,
        hdelimited⟩

/-- **What is taken is a lexeme** of its kind, and it ends in front of the rest of the text. -/
theorem writtenAs_of_lexeme {kind : TokenKind} {offset more : Nat} {c : Char} {cs : List Char}
    (h : lexeme offset c cs = .ok (kind, more)) :
    ∃ taken behind, cs = taken ++ behind ∧ taken.length = more ∧
      kind.WrittenAs (c :: taken) ∧ kind.EndsBefore behind := by
  have hword := (@List.takeWhile_append_dropWhile _ isSymbolChar cs).symm
  unfold lexeme at h
  split at h
  case h_1 => cases h; exact ⟨[], cs, rfl, rfl, .openParen, trivial⟩
  case h_2 => cases h; exact ⟨[], cs, rfl, rfl, .closeParen, trivial⟩
  case h_3 => cases h; exact ⟨[], cs, rfl, rfl, .quote, trivial⟩
  case h_4 => cases h; exact ⟨[], cs, rfl, rfl, .quasiquote, trivial⟩
  case h_5 => cases h; exact ⟨[], cs, rfl, rfl, .dot, trivial⟩
  case h_6 =>
    split at h
    · next hat =>
        cases h
        obtain ⟨behind, rfl⟩ := List.head?_eq_some_iff.1 hat
        exact ⟨['@'], behind, rfl, rfl, .unquoteSplicing, trivial⟩
    · next hat =>
        cases h
        exact ⟨[], cs, rfl, rfl, .unquote, hat⟩
  case h_7 =>
    dsimp only at h
    split at h
    · next hrest =>
        cases h
        exact ⟨_, _, hword, rfl, .rest hrest, delimited_dropWhile cs⟩
    · cases h
  case h_8 =>
    dsimp only at h
    split at h
    · next hdigit =>
        exact writtenAs_of_integer [c] (.inl rfl)
          (by simpa using hdigit) (List.cons_ne_nil _ _) h
    split at h
    · next hsigned =>
        have hsign : [c] = [] ∨ [c] = ['+'] ∨ [c] = ['-'] := by
          simpa [isSign] using hsigned.1
        exact writtenAs_of_integer [] hsign (by simp) hsigned.2 h
    next hunsigned =>
      split at h
      · next hstart =>
          cases h
          have hname : IsName (String.ofList (c :: cs.takeWhile isSymbolChar)) :=
            ⟨c, _, String.toList_ofList, nameChars_takeWhile hstart hunsigned⟩
          refine ⟨_, _, hword, rfl, ?_, delimited_dropWhile cs⟩
          simpa using TokenKind.WrittenAs.symbol hname
      · cases h

/-- **The scanner takes lexemes**, and takes each as far as it goes. -/
theorem lexeme_eq_ok_iff {kind : TokenKind} {offset more : Nat} {c : Char} {cs : List Char} :
    lexeme offset c cs = .ok (kind, more) ↔
      ∃ taken behind, cs = taken ++ behind ∧ taken.length = more ∧
        kind.WrittenAs (c :: taken) ∧ kind.EndsBefore behind := by
  constructor
  · exact writtenAs_of_lexeme
  · rintro ⟨taken, behind, rfl, rfl, hwritten, hends⟩
    exact lexeme_of_writtenAs hwritten hends offset

/-- A lexeme begins with a character that ends the gap in front of it. -/
theorem exists_cons_of_writtenAs {kind : TokenKind} {chars : List Char}
    (h : kind.WrittenAs chars) :
    ∃ c cs, chars = c :: cs ∧ isBlank c = false ∧ c ≠ ';' := by
  have hsymbol : ∀ c cs, isSymbolChar c = true → chars = c :: cs →
      ∃ c cs, chars = c :: cs ∧ isBlank c = false ∧ c ≠ ';' := fun c cs hc hchars =>
    ⟨c, cs, hchars, isBlank_of_isSymbolChar hc, ne_semicolon_of_isSymbolChar hc⟩
  cases h with
  | integer hsign hne hdigits =>
      obtain ⟨digit, digits, rfl⟩ := List.exists_cons_of_ne_nil hne
      rcases hsign with rfl | rfl | rfl
      · exact hsymbol digit digits
          (isSymbolChar_of_isDigit (hdigits digit List.mem_cons_self)) rfl
      · exact hsymbol '+' _ (by decide) rfl
      · exact hsymbol '-' _ (by decide) rfl
  | symbol hname =>
      obtain ⟨c, cs, htext, hchars⟩ := hname
      exact hsymbol c cs (isSymbolChar_of_isSymbolStart hchars.start) htext
  | _ => exact ⟨_, _, rfl, by decide, by decide⟩

theorem endsGap_of_writtenAs {kind : TokenKind} {chars : List Char} (h : kind.WrittenAs chars)
    (behind : List Char) : EndsGap (chars ++ behind) := by
  obtain ⟨c, cs, rfl, hblank, hcomment⟩ := exists_cons_of_writtenAs h
  exact endsGap_cons hblank hcomment

/-- A text begins with one lexeme only. -/
theorem writtenAs_unique {kind kind' : TokenKind} {chars chars' behind behind' : List Char}
    (h : kind.WrittenAs chars) (hends : kind.EndsBefore behind)
    (h' : kind'.WrittenAs chars') (hends' : kind'.EndsBefore behind')
    (htext : chars ++ behind = chars' ++ behind') :
    kind = kind' ∧ chars = chars' ∧ behind = behind' := by
  obtain ⟨c, cs, rfl, -, -⟩ := exists_cons_of_writtenAs h
  obtain ⟨c', cs', rfl, -, -⟩ := exists_cons_of_writtenAs h'
  simp only [List.cons_append, List.cons.injEq] at htext
  obtain ⟨rfl, hrest⟩ := htext
  have hlexeme := lexeme_of_writtenAs h hends 0
  rw [hrest, lexeme_of_writtenAs h' hends' 0] at hlexeme
  obtain ⟨hkind, hlength⟩ := Prod.mk.inj (Except.ok.inj hlexeme)
  obtain ⟨rfl, rfl⟩ := List.append_inj hrest hlength.symm
  exact ⟨hkind.symm, rfl, rfl⟩

/-! ### Layouts -/

/-- A lexeme of a text, its kind, and the gap in front of it. -/
structure Piece where
  gap : List Char
  kind : TokenKind
  lexeme : List Char

/-- The characters of a piece. -/
def Piece.chars (piece : Piece) : List Char :=
  piece.gap ++ piece.lexeme

/-- The piece may stand in front of these characters. -/
structure Piece.StandsBefore (piece : Piece) (behind : List Char) : Prop where
  gap : IsGap (piece.lexeme ++ behind) piece.gap
  lexeme : piece.kind.WrittenAs piece.lexeme
  ends : piece.kind.EndsBefore behind

/-- A text cut into pieces, and the gap behind the last of them. -/
structure Layout where
  pieces : List Piece
  last : List Char

namespace Layout

/-- The characters that are laid out. -/
def chars (layout : Layout) : List Char :=
  layout.pieces.flatMap Piece.chars ++ layout.last

/-- Every piece may stand in front of what follows it. -/
structure Proper (layout : Layout) : Prop where
  stands : ∀ before piece after, layout.pieces = before ++ piece :: after →
    piece.StandsBefore (chars ⟨after, layout.last⟩)
  last : IsGap [] layout.last

/-- This is how the text is laid out. -/
structure IsOf (layout : Layout) (text : String) : Prop where
  chars : layout.chars = text.toList
  proper : layout.Proper

/-- The tokens of a layout: one for each piece, at the number of characters in front of its lexeme,
and the mark of the end. -/
def tokens (layout : Layout) : List Token :=
  layout.pieces.mapIdx (fun i piece => ⟨piece.kind,
    ((layout.pieces.take i).flatMap Piece.chars ++ piece.gap).length⟩) ++
  [⟨.eof, layout.chars.length⟩]

end Layout

/-- The token of a text with `count` characters more in front of it. -/
def shift (count : Nat) (token : Token) : Token :=
  { token with offset := count + token.offset }

theorem shift_zero : shift 0 = id := by
  funext token
  simp only [shift, Nat.zero_add, id_eq]

theorem shift_shift (count more : Nat) :
    shift count ∘ shift more = shift (count + more) := by
  funext token
  simp only [Function.comp_apply, shift, Nat.add_assoc]

namespace Layout

theorem chars_cons (piece : Piece) (pieces : List Piece) (last : List Char) :
    chars ⟨piece :: pieces, last⟩ = piece.gap ++ (piece.lexeme ++ chars ⟨pieces, last⟩) := by
  simp [chars, Piece.chars]

theorem tokens_cons (piece : Piece) (pieces : List Piece) (last : List Char) :
    tokens ⟨piece :: pieces, last⟩ = ⟨piece.kind, piece.gap.length⟩ ::
      (tokens ⟨pieces, last⟩).map (shift piece.chars.length) := by
  have hmap : ∀ g : Nat → Piece → Token, (pieces.mapIdx g).map (shift piece.chars.length)
      = pieces.mapIdx fun i other => shift piece.chars.length (g i other) :=
    fun g => List.ext_getElem (by simp) (by simp)
  simp [tokens, chars, hmap, shift, List.mapIdx_cons, Nat.add_assoc]

theorem proper_cons {piece : Piece} {pieces : List Piece} {last : List Char} :
    Proper ⟨piece :: pieces, last⟩ ↔
      piece.StandsBefore (chars ⟨pieces, last⟩) ∧ Proper ⟨pieces, last⟩ := by
  constructor
  · rintro ⟨hstands, hlast⟩
    exact ⟨hstands [] piece pieces rfl,
      fun before other after h => hstands (piece :: before) other after (congrArg _ h), hlast⟩
  · rintro ⟨hpiece, hstands, hlast⟩
    refine ⟨?_, hlast⟩
    intro before other after h
    cases before with
    | nil =>
        obtain ⟨rfl, rfl⟩ := List.cons.inj h
        exact hpiece
    | cons _ before => exact hstands before other after (List.cons.inj h).2

/-- **The tokens of a proper layout are found.** -/
theorem Proper.scanFrom_eq {layout : Layout} (h : layout.Proper) (found : List Token)
    (offset : Nat) :
    scanFrom found offset layout.chars
      = .ok (found.reverse ++ layout.tokens.map (shift offset)) := by
  obtain ⟨pieces, last⟩ := layout
  induction pieces generalizing found offset with
  | nil =>
      have hskip := h.last.skipGap_eq endsGap_nil offset
      rw [List.append_nil] at hskip
      rw [show chars ⟨[], last⟩ = last from rfl, scanFrom, hskip]
      simp [tokens, chars, shift]
  | cons piece pieces ih =>
      obtain ⟨⟨hgap, hlexeme, hends⟩, hpieces⟩ := proper_cons.1 h
      obtain ⟨gap, kind, lexeme⟩ := piece
      have hskip := hgap.skipGap_eq (endsGap_of_writtenAs hlexeme _) offset
      obtain ⟨c, cs, rfl, -, -⟩ := exists_cons_of_writtenAs hlexeme
      have htaken := lexeme_of_writtenAs hlexeme hends (offset + gap.length)
      rw [chars_cons, scanFrom, hskip]
      simp only [List.cons_append, htaken, List.drop_left]
      have hoffset : offset + gap.length + 1 + cs.length
          = offset + (Piece.chars ⟨gap, kind, c :: cs⟩).length := by
        simp only [Piece.chars, List.length_append, List.length_cons]
        omega
      rw [ih _ _ hpieces, tokens_cons, List.map_cons, List.map_map, shift_shift, hoffset]
      simp [shift]

/-- **A text with tokens is laid out.** -/
theorem exists_proper {found : List Token} {offset : Nat} {text : List Char}
    {tokens : List Token} (h : scanFrom found offset text = .ok tokens) :
    ∃ layout : Layout, layout.chars = text ∧ layout.Proper := by
  fun_induction scanFrom found offset text with
  | case1 found offset text start hskip =>
      obtain ⟨gap, behind, rfl, hgap, hends⟩ := exists_isGap text
      rw [hgap.skipGap_eq hends] at hskip
      obtain rfl : behind = [] := (Prod.mk.inj hskip).2
      exact ⟨⟨[], gap⟩, (List.append_nil gap).symm, by simp, hgap⟩
  | case2 => cases h
  | case3 found offset text start c cs hskip kind more htaken ih =>
      obtain ⟨gap, behind, rfl, hgap, hends⟩ := exists_isGap text
      rw [hgap.skipGap_eq hends] at hskip
      obtain ⟨-, rfl⟩ := Prod.mk.inj hskip
      obtain ⟨taken, behind, rfl, rfl, hwritten, hbefore⟩ := lexeme_eq_ok_iff.1 htaken
      obtain ⟨⟨pieces, last⟩, hchars, hproper⟩ := ih h
      rw [List.drop_left] at hchars
      subst hchars
      exact ⟨⟨⟨gap, kind, c :: taken⟩ :: pieces, last⟩, chars_cons _ _ _,
        proper_cons.2 ⟨⟨hgap, hwritten, hbefore⟩, hproper⟩⟩

/-- A layout with a piece does not lay out a gap. -/
theorem ne_gap {piece : Piece} {behind gap : List Char}
    (h : piece.StandsBefore behind) (hgap : IsGap [] gap) :
    gap ≠ piece.gap ++ (piece.lexeme ++ behind) := by
  intro hchars
  obtain ⟨c, cs, hlexeme, -, -⟩ := exists_cons_of_writtenAs h.lexeme
  rw [← List.append_nil gap] at hchars
  have hbehind := (hgap.unique endsGap_nil h.gap (endsGap_of_writtenAs h.lexeme behind) hchars).2
  rw [hlexeme] at hbehind
  cases hbehind

/-- **A text has one proper layout** at most. -/
theorem Proper.unique {layout layout' : Layout} (h : layout.Proper) (h' : layout'.Proper)
    (hchars : layout.chars = layout'.chars) : layout = layout' := by
  obtain ⟨pieces, last⟩ := layout
  obtain ⟨pieces', last'⟩ := layout'
  induction pieces generalizing pieces' with
  | nil =>
      cases pieces' with
      | nil =>
          obtain rfl : last = last' := hchars
          rfl
      | cons piece' pieces' =>
          rw [chars_cons] at hchars
          exact absurd hchars (ne_gap (proper_cons.1 h').1 h.last)
  | cons piece pieces ih =>
      cases pieces' with
      | nil =>
          rw [chars_cons] at hchars
          exact absurd hchars.symm (ne_gap (proper_cons.1 h).1 h'.last)
      | cons piece' pieces' =>
          obtain ⟨hpiece, hpieces⟩ := proper_cons.1 h
          obtain ⟨hpiece', hpieces'⟩ := proper_cons.1 h'
          rw [chars_cons, chars_cons] at hchars
          obtain ⟨hgap, hbehind⟩ := hpiece.gap.unique (endsGap_of_writtenAs hpiece.lexeme _)
            hpiece'.gap (endsGap_of_writtenAs hpiece'.lexeme _) hchars
          obtain ⟨hkind, hlexeme, hbehind⟩ :=
            writtenAs_unique hpiece.lexeme hpiece.ends hpiece'.lexeme hpiece'.ends hbehind
          obtain ⟨rfl, rfl⟩ := Layout.mk.inj (ih hpieces pieces' hpieces' hbehind)
          obtain ⟨gap, kind, lexeme⟩ := piece
          obtain ⟨gap', kind', lexeme'⟩ := piece'
          cases hgap
          cases hkind
          cases hlexeme
          rfl

/-! ### Offsets -/

theorem Proper.offsets_increase {layout : Layout} (h : layout.Proper) :
    (layout.tokens.map Token.offset).Pairwise (· < ·) := by
  obtain ⟨pieces, last⟩ := layout
  induction pieces with
  | nil => simp [tokens]
  | cons piece pieces ih =>
      obtain ⟨hpiece, hpieces⟩ := proper_cons.1 h
      obtain ⟨c, cs, hlexeme, -, -⟩ := exists_cons_of_writtenAs hpiece.lexeme
      have hlength : piece.gap.length < piece.chars.length := by
        simp [Piece.chars, hlexeme]
      rw [tokens_cons, List.map_cons, List.pairwise_cons]
      constructor
      · simp only [List.mem_map, forall_exists_index, and_imp]
        rintro _ _ token - rfl rfl
        exact Nat.lt_of_lt_of_le hlength (Nat.le_add_right _ _)
      · rw [List.pairwise_map, List.pairwise_map]
        exact (List.pairwise_map.1 (ih hpieces)).imp fun hless => Nat.add_lt_add_left hless _

theorem not_writtenAs_eof {chars : List Char} : ¬TokenKind.eof.WrittenAs chars := by
  intro h
  cases h

theorem Proper.ne_eof {layout : Layout} (h : layout.Proper) :
    ∀ token ∈ layout.tokens.dropLast, token.kind ≠ .eof := by
  intro token htoken
  simp only [tokens, List.dropLast_concat] at htoken
  obtain ⟨i, hi, rfl⟩ := List.mem_mapIdx.1 htoken
  obtain ⟨before, after, hpieces⟩ := List.append_of_mem (List.getElem_mem hi)
  have hlexeme := (h.stands before _ after hpieces).lexeme
  intro hkind
  simp only at hkind
  rw [hkind] at hlexeme
  exact not_writtenAs_eof hlexeme

end Layout

/-- **The scanner finds exactly the tokens of its grammar.** A text has tokens when it has a proper
layout, and then they are those of the layout; it has only one. Each token stands behind the ones
before it, and the single mark of the end is the last. -/
theorem scan_iff_layout (text : String) :
    (∀ tokens, scan text = .ok tokens ↔
      ∃ layout : Layout, layout.IsOf text ∧ layout.tokens = tokens) ∧
    (∀ layout layout' : Layout, layout.IsOf text → layout'.IsOf text → layout = layout') ∧
    ∀ layout : Layout, layout.IsOf text →
      (layout.tokens.map Token.offset).Pairwise (· < ·) ∧
      layout.tokens.getLast? = some ⟨.eof, text.length⟩ ∧
      ∀ token ∈ layout.tokens.dropLast, token.kind ≠ .eof := by
  have hscan : ∀ layout : Layout, layout.IsOf text → scan text = .ok layout.tokens := by
    intro layout hlayout
    rw [scan, ← hlayout.chars, hlayout.proper.scanFrom_eq, shift_zero]
    simp
  refine ⟨?_, ?_, ?_⟩
  · intro tokens
    constructor
    · intro h
      obtain ⟨layout, hchars, hproper⟩ := Layout.exists_proper h
      refine ⟨layout, ⟨hchars, hproper⟩, ?_⟩
      rw [hscan layout ⟨hchars, hproper⟩] at h
      exact Except.ok.inj h
    · rintro ⟨layout, hlayout, rfl⟩
      exact hscan layout hlayout
  · intro layout layout' hlayout hlayout'
    exact hlayout.proper.unique hlayout'.proper (hlayout.chars.trans hlayout'.chars.symm)
  · intro layout hlayout
    refine ⟨hlayout.proper.offsets_increase, ?_, hlayout.proper.ne_eof⟩
    rw [Layout.tokens, List.getLast?_concat, hlayout.chars, String.length_toList]

theorem scan_call_behind_comment : ∃ layout : Layout,
    layout.IsOf ";(\n(+ -07 &Rest,@x)" ∧
    layout.tokens = [⟨.openParen, 3⟩, ⟨.symbol "+", 4⟩, ⟨.integer (-7), 6⟩, ⟨.rest, 10⟩,
      ⟨.unquoteSplicing, 15⟩, ⟨.symbol "x", 17⟩, ⟨.closeParen, 18⟩, ⟨.eof, 19⟩] ∧
    (layout.tokens.map Token.offset).Pairwise (· < ·) := by
  have hscan : scan ";(\n(+ -07 &Rest,@x)" = .ok [⟨.openParen, 3⟩, ⟨.symbol "+", 4⟩,
      ⟨.integer (-7), 6⟩, ⟨.rest, 10⟩, ⟨.unquoteSplicing, 15⟩, ⟨.symbol "x", 17⟩,
      ⟨.closeParen, 18⟩, ⟨.eof, 19⟩] :=
    eq_ok_of_toOption (by decide +kernel)
  obtain ⟨hiff, -, hlayout⟩ := scan_iff_layout ";(\n(+ -07 &Rest,@x)"
  obtain ⟨layout, hof, htokens⟩ := (hiff _).1 hscan
  exact ⟨layout, hof, htokens, (hlayout layout hof).1⟩

end Token

end SmallLisp
