import SmallLisp.Proofs.Grammar
import SmallLisp.Proofs.Lexemes

/-!
# Texts on separate lines

A line break ends every lexeme and every comment, and it is a gap by itself. So what stands in
front of a line break is scanned as if it stood alone, and so is what stands behind it, only
further into the text. With the tokens the forms are those of the two texts.

## Main results

* `Token.scan_lines` — the tokens of two texts on separate lines, or the first error.
* `Datum.readWith_lines` — their forms.
-/

namespace SmallLisp

open Text

/-- The error about a text with `count` characters more in front of it. -/
def ScanError.shift (count : Nat) : ScanError → ScanError
  | invalidMarker name offset => invalidMarker name (count + offset)
  | malformedInteger text offset => malformedInteger text (count + offset)
  | integerOutOfRange text offset => integerOutOfRange text (count + offset)
  | invalidCharacter char offset => invalidCharacter char (count + offset)
  | pastEnd index => pastEnd index

namespace Token

/-! ### Further into a text -/

theorem skipGap_shift (count : Nat) (comment : Bool) (offset : Nat) (cs : List Char) :
    skipGap comment (count + offset) cs
      = (count + (skipGap comment offset cs).1, (skipGap comment offset cs).2) := by
  induction cs generalizing comment offset with
  | nil => rfl
  | cons c cs ih =>
      simp only [skipGap, Nat.add_assoc, ih]
      split
      · rfl
      · split
        · rfl
        · split <;> rfl

theorem integer_shift (count offset : Nat) (sign digits behind : List Char) :
    integer (count + offset) sign digits behind
      = (integer offset sign digits behind).mapError (ScanError.shift count) := by
  simp only [integer]
  split
  · split <;> rfl
  · rfl

theorem lexeme_shift (count offset : Nat) (c : Char) (cs : List Char) :
    lexeme (count + offset) c cs = (lexeme offset c cs).mapError (ScanError.shift count) := by
  have hinteger : ∀ (sign digits behind : List Char) (more : Nat),
      (integer (count + offset) sign digits behind).map (·, more)
        = ((integer offset sign digits behind).map (·, more)).mapError (ScanError.shift count) := by
    intro sign digits behind more
    rw [integer_shift]
    cases integer offset sign digits behind <;> rfl
  unfold lexeme
  split
  case h_6 => split <;> rfl
  case h_7 =>
    dsimp only
    split <;> rfl
  case h_8 =>
    dsimp only
    split
    · exact hinteger _ _ _ _
    · split
      · exact hinteger _ _ _ _
      · split <;> rfl
  all_goals rfl

/-- **Further into a text** the same tokens are found, and the same errors. -/
theorem scanFrom_shift (count : Nat) (found : List Token) (offset : Nat) (text : List Char) :
    scanFrom (found.map (shift count)) (count + offset) text
      = ((scanFrom found offset text).map (List.map (shift count))).mapError
          (ScanError.shift count) := by
  fun_induction scanFrom found offset text with
  | case1 found offset text start hskip =>
      have hskip' := skipGap_shift count false offset text
      rw [hskip] at hskip'
      rw [scanFrom, hskip']
      show Except.ok _ = Except.ok _
      rw [List.map_reverse]
      rfl
  | case2 found offset text start c cs hskip e htaken =>
      have hskip' := skipGap_shift count false offset text
      rw [hskip] at hskip'
      rw [scanFrom, hskip']
      dsimp only
      rw [lexeme_shift, htaken]
      rfl
  | case3 found offset text start c cs hskip kind more htaken ih =>
      have hskip' := skipGap_shift count false offset text
      rw [hskip] at hskip'
      rw [scanFrom, hskip']
      have htaken' : lexeme (count + start) c cs = .ok (kind, more) := by
        rw [lexeme_shift, htaken]
        rfl
      simp only [htaken']
      rw [← ih, List.map_cons, Nat.add_assoc, Nat.add_assoc, Nat.add_assoc]
      rfl

/-- The tokens found before stand in front of those that are found. -/
theorem scanFrom_found (before found : List Token) (offset : Nat) (text : List Char) :
    scanFrom (found ++ before) offset text
      = (scanFrom found offset text).map (before.reverse ++ ·) := by
  fun_induction scanFrom found offset text with
  | case1 found offset text start hskip =>
      rw [scanFrom, hskip]
      simp [Except.map]
  | case2 found offset text start c cs hskip e htaken =>
      rw [scanFrom, hskip]
      simp [htaken, Except.map]
  | case3 found offset text start c cs hskip kind more htaken ih =>
      rw [scanFrom, hskip]
      simp only [htaken]
      exact ih

/-! ### Up to a line break -/

theorem IsGap.line {gap gap' behind : List Char} (h : IsGap [] gap) (h' : IsGap behind gap') :
    IsGap behind (gap ++ '\n' :: gap') := by
  induction h with
  | none => exact .blank (by decide) h'
  | blank hc _ ih => exact .blank hc ih
  | @comment body cs hbody _ ih =>
      rw [List.cons_append, List.append_assoc, List.cons_append]
      exact .comment hbody ih
  | lastComment hbody _ => exact .comment hbody h'

/-- A gap that something stands behind is a gap whatever stands there. -/
theorem IsGap.change_behind {gap behind : List Char} (h : IsGap behind gap) (hne : behind ≠ [])
    (other : List Char) : IsGap other gap := by
  induction h with
  | none => exact .none
  | blank hc _ ih => exact .blank hc ih
  | comment hbody _ ih => exact .comment hbody ih
  | lastComment _ hnil => exact absurd hnil hne

/-- No lexeme goes on into these characters. -/
def EndsLexeme (behind : List Char) : Prop :=
  ∀ c ∈ behind.head?, isSymbolChar c = false ∧ c ≠ '@'

theorem endsLexeme_blank {c : Char} (h : isBlank c = true) (cs : List Char) :
    EndsLexeme (c :: cs) := by
  intro other hother
  obtain rfl : c = other := Option.some.inj hother
  constructor
  · cases hchar : isSymbolChar c with
    | false => rfl
    | true =>
        rw [isBlank_of_isSymbolChar hchar] at h
        cases h
  · rintro rfl
    exact absurd h (by decide)

theorem takeWhile_append_of_head {p : Char → Bool} {behind : List Char}
    (hp : ∀ c ∈ behind.head?, p c = false) (cs : List Char) :
    (cs ++ behind).takeWhile p = cs.takeWhile p := by
  induction cs with
  | nil =>
      cases behind with
      | nil => rfl
      | cons c behind => simp [hp c rfl]
  | cons c cs ih => simp only [List.cons_append, List.takeWhile_cons, ih]

theorem drop_takeWhile_append (p : Char → Bool) (cs behind : List Char) :
    (cs ++ behind).drop (cs.takeWhile p).length = cs.drop (cs.takeWhile p).length ++ behind :=
  List.drop_append_of_le_length (List.takeWhile_prefix p).length_le

theorem EndsLexeme.takeWhile_isSymbolChar {behind : List Char} (h : EndsLexeme behind)
    (cs : List Char) : (cs ++ behind).takeWhile isSymbolChar = cs.takeWhile isSymbolChar :=
  takeWhile_append_of_head (fun c hc => (h c hc).1) cs

theorem EndsLexeme.takeWhile_isDigit {behind : List Char} (h : EndsLexeme behind)
    (cs : List Char) : (cs ++ behind).takeWhile Decimal.isDigit = cs.takeWhile Decimal.isDigit := by
  refine takeWhile_append_of_head (fun c hc => ?_) cs
  have hchar := (h c hc).1
  rw [isSymbolChar, Bool.or_eq_false_iff] at hchar
  exact hchar.2

theorem integer_append {behind : List Char} (h : EndsLexeme behind) (offset : Nat)
    (sign digits cs : List Char) :
    integer offset sign digits (cs ++ behind) = integer offset sign digits cs := by
  simp only [integer, h.takeWhile_isSymbolChar]

/-- **A lexeme ends in front of a blank**, whatever it is, and no lexeme needs one. -/
theorem lexeme_append {behind : List Char} (h : EndsLexeme behind) (offset : Nat) (c : Char)
    (cs : List Char) : lexeme offset c (cs ++ behind) = lexeme offset c cs := by
  have hhead : (cs ++ behind).head? = some '@' ↔ cs.head? = some '@' := by
    cases cs with
    | cons first cs => rfl
    | nil => exact ⟨fun hmark => absurd rfl (h '@' hmark).2, fun hmark => by cases hmark⟩
  unfold lexeme
  simp only [hhead, h.takeWhile_isSymbolChar, h.takeWhile_isDigit, drop_takeWhile_append,
    integer_append h]

/-- A gap that ends in front of a lexeme ends there, whatever follows the text. -/
theorem skipGap_append {offset start : Nat} {c : Char} {cs text : List Char}
    (h : skipGap false offset text = (start, c :: cs)) (behind : List Char) :
    skipGap false offset (text ++ behind) = (start, c :: (cs ++ behind)) ∧
      start + (c :: cs).length = offset + text.length := by
  obtain ⟨gap, rest, rfl, hgap, hends⟩ := exists_isGap text
  rw [hgap.skipGap_eq hends] at h
  obtain ⟨rfl, rfl⟩ := Prod.mk.inj h
  have hends' : EndsGap (c :: cs ++ behind) := hends
  have hgap' := hgap.change_behind (List.cons_ne_nil c cs) (c :: cs ++ behind)
  have hskip := hgap'.skipGap_eq hends' offset
  rw [List.append_assoc, hskip, List.length_append, Nat.add_assoc]
  exact ⟨rfl, rfl⟩

/-- A text whose gap leads to the same place is scanned the same. -/
theorem scanFrom_congr {offset offset' : Nat} {text text' : List Char}
    (h : skipGap false offset text = skipGap false offset' text') (found : List Token) :
    scanFrom found offset text = scanFrom found offset' text' := by
  rw [scanFrom, h, ← scanFrom]

/-- **What stands in front of a line break is scanned as if it stood alone**, and the scan goes on
behind it unless it has failed. -/
theorem scanFrom_line (found : List Token) (offset : Nat) (text behind : List Char) :
    scanFrom found offset (text ++ '\n' :: behind)
      = (scanFrom found offset text).bind fun tokens =>
          scanFrom tokens.dropLast.reverse (offset + text.length + 1) behind := by
  have hends : EndsLexeme ('\n' :: behind) := endsLexeme_blank (by decide) behind
  fun_induction scanFrom found offset text with
  | case1 found offset text start hskip =>
      obtain ⟨gap, rest, rfl, hgap, hend⟩ := exists_isGap text
      obtain ⟨gap', rest', rfl, hgap', hend'⟩ := exists_isGap behind
      rw [hgap.skipGap_eq hend] at hskip
      obtain ⟨rfl, rfl⟩ := Prod.mk.inj hskip
      have hfound : (⟨TokenKind.eof, offset + gap.length⟩ :: found).reverse.dropLast.reverse
          = found := by
        simp
      simp only [Except.bind, hfound, List.append_nil]
      refine scanFrom_congr ?_ found
      rw [hgap'.skipGap_eq hend', ← List.cons_append, ← List.append_assoc,
        (hgap.line hgap').skipGap_eq hend', List.length_append, List.length_cons]
      congr 1
      omega
  | case2 found offset text start c cs hskip e htaken =>
      rw [scanFrom, (skipGap_append hskip _).1]
      simp only [lexeme_append hends, htaken, Except.bind]
  | case3 found offset text start c cs hskip kind more htaken ih =>
      obtain ⟨hskip', hlength⟩ := skipGap_append hskip ('\n' :: behind)
      obtain ⟨taken, rest, rfl, rfl, -, -⟩ := lexeme_eq_ok_iff.1 htaken
      have hend : start + 1 + taken.length + rest.length = offset + text.length := by
        simp only [List.length_cons, List.length_append] at hlength
        omega
      rw [List.drop_left] at ih
      rw [scanFrom, hskip']
      simp only [lexeme_append hends, htaken]
      rw [List.append_assoc, List.drop_left, List.drop_left, ih, hend]

/-- **The tokens of two texts on separate lines** are those of the one and then those of the other,
which stand further into the text. -/
theorem scan_lines (first second : String) :
    scan (first ++ "\n" ++ second) = (scan first).bind fun tokens =>
      ((scan second).map fun others =>
        tokens.dropLast ++ others.map (shift (first.length + 1))).mapError
          (ScanError.shift (first.length + 1)) := by
  have htext : (first ++ "\n" ++ second).toList = first.toList ++ '\n' :: second.toList := by
    simp
  rw [scan, htext, scanFrom_line, scan]
  congr 1
  funext tokens
  have hfound := scanFrom_found tokens.dropLast.reverse [] (first.length + 1) second.toList
  have hshift := scanFrom_shift (first.length + 1) [] 0 second.toList
  rw [List.map_nil, Nat.add_zero] at hshift
  rw [Nat.zero_add, String.length_toList, ← List.nil_append tokens.dropLast.reverse, hfound, hshift,
    List.reverse_reverse, scan]
  cases scanFrom [] 0 second.toList <;> rfl

end Token

/-! ### Reading -/

namespace Datum

/-- The forms of a text, each with the phrase that it is the meaning of. -/
theorem exists_phrases_of_readWith {limit : Nat} {text : String} {data : List Datum}
    (h : readWith limit text = .ok data) :
    ∃ (body : List Token) (last : Token) (forms : List (Phrase .form)),
      Token.scan text = .ok (body ++ [last]) ∧ last.kind = .eof ∧
        forms.flatMap Phrase.kinds = body.map Token.kind ∧
        (∀ form ∈ forms, form.nesting ≤ limit) ∧ forms.map Phrase.meaning = data := by
  obtain ⟨tokens, hscan, hall⟩ := readWith_eq_ok_iff.1 h
  obtain ⟨body, last, rfl, hlast, hlexemes⟩ := Token.scan_eq_ok hscan
  have hbody : ∀ token ∈ body, token.kind ≠ .eof := fun token hmem heof =>
    Token.not_isLexeme_eof (heof ▸ hlexemes token hmem)
  obtain ⟨phrase, hkinds, hnesting, hmeaning⟩ := Phrase.exists_of_readsAll hall rfl hbody
  obtain ⟨forms, rfl⟩ := phrase.exists_sequence
  rw [Phrase.kinds_sequence] at hkinds
  rw [Phrase.meaning_sequence] at hmeaning
  exact ⟨body, last, forms, hscan, hlast, hkinds, Phrase.nesting_sequence_le.1 hnesting, hmeaning⟩

/-- **The forms of two texts on separate lines** are those of the one and then those of the
other. -/
theorem readWith_lines {limit : Nat} {first second : String} {data others : List Datum}
    (h : readWith limit first = .ok data) (h' : readWith limit second = .ok others) :
    readWith limit (first ++ "\n" ++ second) = .ok (data ++ others) := by
  obtain ⟨body, last, forms, hscan, -, hkinds, hnesting, rfl⟩ := exists_phrases_of_readWith h
  obtain ⟨body', last', forms', hscan', hlast', hkinds', hnesting', rfl⟩ :=
    exists_phrases_of_readWith h'
  have htokens : Token.scan (first ++ "\n" ++ second) = .ok
      (body ++ body'.map (Token.shift (first.length + 1)) ++
        [last'.shift (first.length + 1)]) := by
    rw [Token.scan_lines, hscan, hscan']
    show Except.ok ((body ++ [last]).dropLast ++ (body' ++ [last']).map _) = Except.ok _
    rw [List.dropLast_concat, List.map_append, List.append_assoc]
    rfl
  have hphrase : (body ++ body'.map (Token.shift (first.length + 1))).map Token.kind
      = (Phrase.sequence (forms ++ forms')).kinds := by
    rw [Phrase.kinds_sequence, List.flatMap_append, hkinds, hkinds', List.map_append, List.map_map]
    rfl
  have hroom : (Phrase.sequence (forms ++ forms')).nesting ≤ limit :=
    Phrase.nesting_sequence_le.2 (List.forall_mem_append.2 ⟨hnesting, hnesting'⟩)
  refine readWith_eq_ok_iff.2 ⟨_, htokens, ?_⟩
  rw [← List.map_append, ← Phrase.meaning_sequence]
  exact Phrase.readsAll _ hphrase hroom hlast'

end Datum

end SmallLisp
