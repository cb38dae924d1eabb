import SmallLisp.Proofs.Succession

/-!
# The case of letters

Nowhere between a text and its results does it matter whether an ASCII letter is small or capital.
The scanner treats the two alike when it looks for the end of a lexeme, recognises the rest marker
in any case, and hands spellings on as they are written. The reader takes the two constants and
all symbols from the capital spelling. So a text and the same text in capitals have the same tokens
up to the spelling of symbols, and from there on everything is the same.

Where a text cannot be scanned, the message quotes it, with the letters as they were written.

## Main results

* `sameLetters_iff` — texts differ in case only exactly when they are the same in capitals.
* `Token.scan_upper` — the tokens of a text in capitals.
* `Datum.readWith_upper` — its forms.
* `letter_case_is_ignored` — two texts that differ in case only.
-/

namespace SmallLisp

/-! ### Texts that differ in case only -/

/-- The first character is a small ASCII letter, and the second is its capital. -/
def IsCapitalOf (small capital : Char) : Prop :=
  IsSmall small ∧ small.toNat = capital.toNat + 32

/-- The characters are one, or the small and the capital form of one ASCII letter. -/
def SameLetter (c c' : Char) : Prop :=
  c = c' ∨ IsCapitalOf c c' ∨ IsCapitalOf c' c

/-- The texts have the same length and differ in the case of ASCII letters only. -/
def SameLetters (text text' : String) : Prop :=
  List.Forall₂ SameLetter text.toList text'.toList

theorem toNat_toUpper_of_isSmall {c : Char} (h : IsSmall c) : c.toNat = c.toUpper.toNat + 32 := by
  have hval := congrArg UInt32.toNat (val_toUpper_of_isSmall h)
  have hlow : 97 ≤ c.val.toNat := h.1
  have hhigh : c.val.toNat ≤ 122 := h.2
  rw [UInt32.toNat_add, show ('A'.val - 'a'.val).toNat = 4294967264 by decide] at hval
  show c.val.toNat = c.toUpper.val.toNat + 32
  omega

theorem not_isSmall_of_isCapitalOf {c c' : Char} (h : IsCapitalOf c c') : ¬IsSmall c' := by
  rintro ⟨hlow, -⟩
  have hhigh : c.toNat ≤ 122 := h.1.2
  have hcapital : 97 ≤ c'.toNat := hlow
  have hapart := h.2
  omega

theorem toUpper_eq_of_isCapitalOf {c c' : Char} (h : IsCapitalOf c c') :
    c.toUpper = c'.toUpper := by
  rw [toUpper_of_not_isSmall (not_isSmall_of_isCapitalOf h)]
  have hupper := toNat_toUpper_of_isSmall h.1
  have hapart := h.2
  exact Char.toNat_inj.1 (by omega)

/-- Characters are the same letter exactly when they have the same capital. -/
theorem sameLetter_iff {c c' : Char} : SameLetter c c' ↔ c.toUpper = c'.toUpper := by
  constructor
  · rintro (rfl | h | h)
    · rfl
    · exact toUpper_eq_of_isCapitalOf h
    · exact (toUpper_eq_of_isCapitalOf h).symm
  · intro h
    by_cases hsmall : IsSmall c <;> by_cases hsmall' : IsSmall c'
    · refine .inl (Char.toNat_inj.1 ?_)
      rw [toNat_toUpper_of_isSmall hsmall, h, ← toNat_toUpper_of_isSmall hsmall']
    · rw [toUpper_of_not_isSmall hsmall'] at h
      exact .inr (.inl ⟨hsmall, h ▸ toNat_toUpper_of_isSmall hsmall⟩)
    · rw [toUpper_of_not_isSmall hsmall] at h
      exact .inr (.inr ⟨hsmall', h ▸ toNat_toUpper_of_isSmall hsmall'⟩)
    · rw [toUpper_of_not_isSmall hsmall, toUpper_of_not_isSmall hsmall'] at h
      exact .inl h

/-- **Texts differ in case only** exactly when they are the same in capitals. -/
theorem sameLetters_iff {text text' : String} :
    SameLetters text text' ↔ upper text = upper text' := by
  have hpairs : SameLetters text text' ↔
      List.Forall₂ (fun c c' => c.toUpper = c'.toUpper) text.toList text'.toList :=
    ⟨fun h => h.imp fun _ _ => sameLetter_iff.1, fun h => h.imp fun _ _ => sameLetter_iff.2⟩
  rw [hpairs, upper, upper, String.ofList_inj, ← List.forall₂_eq_eq_eq, List.forall₂_map_left_iff,
    List.forall₂_map_right_iff]

theorem upper_append (text text' : String) : upper (text ++ text') = upper text ++ upper text' := by
  simp [upper]

/-! ### Tokens -/

/-- The kind with the spelling of a symbol in capitals. -/
def TokenKind.inCapitals : TokenKind → TokenKind
  | symbol name => symbol (upper name)
  | kind => kind

/-- The token with the spelling of a symbol in capitals. -/
def Token.inCapitals (token : Token) : Token :=
  ⟨token.kind.inCapitals, token.offset⟩

/-- The error about a text in capitals. -/
def ScanError.inCapitals : ScanError → ScanError
  | invalidMarker name offset => invalidMarker (upper name) offset
  | malformedInteger text offset => malformedInteger (upper text) offset
  | cause => cause

theorem ScanError.upper_message_inCapitals (cause : ScanError) :
    upper cause.inCapitals.message = upper cause.message := by
  cases cause with
  | invalidMarker name offset =>
      show upper ("invalid marker &" ++ upper name ++ message.atOffset offset) =
        upper ("invalid marker &" ++ name ++ message.atOffset offset)
      simp only [upper_append, upper_upper]
  | malformedInteger text offset =>
      show upper ("malformed integer literal " ++ upper text ++ message.atOffset offset) =
        upper ("malformed integer literal " ++ text ++ message.atOffset offset)
      simp only [upper_append, upper_upper]
  | _ => rfl

namespace Token

open Text

theorem isSymbolStart_of_isSmall {c : Char} (h : IsSmall c) : isSymbolStart c = true := by
  have hlow : 'a' ≤ c := h.1
  have hhigh : c ≤ 'z' := h.2
  simp [isSymbolStart, isLetter, hlow, hhigh]

theorem isSign_of_isSmall {c : Char} (h : IsSmall c) : isSign c = false := by
  have hlow : 'a' ≤ c := h.1
  have hsign : ∀ sign : Char, sign < 'a' → c ≠ sign := by
    rintro _ hless rfl
    exact absurd hlow (Nat.not_le.2 hless)
  simp [isSign, hsign]

theorem isSign_toUpper_of_isSmall {c : Char} (h : IsSmall c) : isSign c.toUpper = false := by
  rcases toUpper_cases c with heq | ⟨-, hunsigned⟩
  · rw [heq, isSign_of_isSmall h]
  · exact hunsigned

theorem isSymbolStart_toUpper_of_isSmall {c : Char} (h : IsSmall c) :
    isSymbolStart c.toUpper = true := by
  obtain ⟨hlow, hhigh⟩ := toUpper_of_isSmall h
  simp [isSymbolStart, isLetter, hlow, hhigh]

/-- A test that all characters which begin symbols pass alike does not see the case of letters. -/
theorem apply_toUpper {α : Type} {f : Char → α} {answer : α}
    (h : ∀ c, isSymbolStart c = true → f c = answer) (c : Char) : f c.toUpper = f c := by
  by_cases hsmall : IsSmall c
  · rw [h _ (isSymbolStart_toUpper_of_isSmall hsmall), h _ (isSymbolStart_of_isSmall hsmall)]
  · rw [toUpper_of_not_isSmall hsmall]

theorem isSymbolChar_toUpper (c : Char) : isSymbolChar c.toUpper = isSymbolChar c :=
  apply_toUpper (fun _ => isSymbolChar_of_isSymbolStart) c

theorem isDigit_toUpper (c : Char) : Decimal.isDigit c.toUpper = Decimal.isDigit c :=
  apply_toUpper (fun _ => isDigit_of_isSymbolStart) c

theorem isBlank_toUpper (c : Char) : isBlank c.toUpper = isBlank c :=
  apply_toUpper (fun _ h => isBlank_of_isSymbolChar (isSymbolChar_of_isSymbolStart h)) c

/-- A character that begins no symbol is not made from another one. -/
theorem toUpper_eq_iff {mark : Char} (h : isSymbolStart mark = false) {c : Char} :
    c.toUpper = mark ↔ c = mark := by
  by_cases hsmall : IsSmall c
  · constructor
    · rintro rfl
      rw [isSymbolStart_toUpper_of_isSmall hsmall] at h
      cases h
    · rintro rfl
      rw [isSymbolStart_of_isSmall hsmall] at h
      cases h
  · rw [toUpper_of_not_isSmall hsmall]

theorem takeWhile_toUpper {p : Char → Bool} (hp : ∀ c, p c.toUpper = p c) (cs : List Char) :
    (cs.map Char.toUpper).takeWhile p = (cs.takeWhile p).map Char.toUpper := by
  rw [List.takeWhile_map]
  congr 2
  exact funext hp

theorem isSmall_of_isDigit {c : Char} (h : Decimal.isDigit c = true) : ¬IsSmall c := by
  intro hsmall
  rw [isDigit_of_isSymbolStart (isSymbolStart_of_isSmall hsmall)] at h
  cases h

theorem map_toUpper_of_isDigit {cs : List Char} (h : ∀ c ∈ cs, Decimal.isDigit c = true) :
    cs.map Char.toUpper = cs := by
  refine (List.map_congr_left fun c hc => ?_).trans (List.map_id' cs)
  exact toUpper_of_not_isSmall (isSmall_of_isDigit (h c hc))

theorem takeWhile_isDigit_toUpper (cs : List Char) :
    (cs.map Char.toUpper).takeWhile Decimal.isDigit = cs.takeWhile Decimal.isDigit := by
  rw [takeWhile_toUpper isDigit_toUpper]
  exact map_toUpper_of_isDigit (List.all_eq_true.1 List.all_takeWhile)

theorem skipGap_toUpper (comment : Bool) (offset : Nat) (cs : List Char) :
    skipGap comment offset (cs.map Char.toUpper)
      = ((skipGap comment offset cs).1, (skipGap comment offset cs).2.map Char.toUpper) := by
  induction cs generalizing comment offset with
  | nil => rfl
  | cons c cs ih =>
      have hbreak : c.toUpper ≠ '\n' ↔ c ≠ '\n' := not_congr (toUpper_eq_iff (by decide))
      have hcomment : c.toUpper = ';' ↔ c = ';' := toUpper_eq_iff (by decide)
      simp only [List.map_cons, skipGap, ih, hbreak, hcomment, isBlank_toUpper]
      split
      · rfl
      · split
        · rfl
        · split <;> rfl

theorem integer_toUpper (offset : Nat) {sign digits : List Char}
    (hsign : sign.map Char.toUpper = sign) (hdigits : digits.map Char.toUpper = digits)
    (behind : List Char) (more : Nat) :
    (integer offset sign digits (behind.map Char.toUpper)).map (·, more)
      = (((integer offset sign digits behind).map (·, more)).map
          (Prod.map TokenKind.inCapitals id)).mapError ScanError.inCapitals := by
  have htext : ∀ tail : List Char, String.ofList (sign ++ digits ++ tail.map Char.toUpper)
      = upper (String.ofList (sign ++ digits ++ tail)) := by
    intro tail
    simp [upper, hsign, hdigits]
  simp only [integer, takeWhile_toUpper isSymbolChar_toUpper, List.isEmpty_map, htext]
  split
  · split <;> rfl
  · rfl

theorem upper_ofList (cs : List Char) :
    upper (String.ofList cs) = String.ofList (cs.map Char.toUpper) := by
  rw [upper, String.toList_ofList]

/-- **A lexeme in capitals** is of the same kind and as long, whatever is behind it. -/
theorem lexeme_toUpper (offset : Nat) (c : Char) (cs : List Char) :
    lexeme offset c.toUpper (cs.map Char.toUpper)
      = ((lexeme offset c cs).map (Prod.map TokenKind.inCapitals id)).mapError
          ScanError.inCapitals := by
  by_cases hsmall : IsSmall c
  · -- a letter begins a symbol, and so does its capital
    have hstart := isSymbolStart_of_isSmall hsmall
    have hstart' := isSymbolStart_toUpper_of_isSmall hsmall
    rw [lexeme_of_isSymbolChar (isSymbolChar_of_isSymbolStart hstart),
      lexeme_of_isSymbolChar (isSymbolChar_of_isSymbolStart hstart')]
    simp only [isDigit_of_isSymbolStart hstart, isDigit_of_isSymbolStart hstart', hstart, hstart',
      isSign_of_isSmall hsmall, isSign_toUpper_of_isSmall hsmall,
      takeWhile_toUpper isSymbolChar_toUpper, ← List.map_cons, ← upper_ofList, List.length_map]
    rfl
  · have hc : c.toUpper = c := toUpper_of_not_isSmall hsmall
    rw [hc]
    unfold lexeme
    split
    case h_6 =>
      have hhead : (cs.map Char.toUpper).head? = some '@' ↔ cs.head? = some '@' := by
        cases cs with
        | nil => rfl
        | cons first cs => simp [toUpper_eq_iff (show isSymbolStart '@' = false by decide)]
      simp only [hhead]
      split <;> rfl
    case h_7 =>
      simp only [takeWhile_toUpper isSymbolChar_toUpper, ← upper_ofList, upper_upper,
        List.length_map]
      split <;> rfl
    case h_8 =>
      have hdigits : (cs.takeWhile Decimal.isDigit).map Char.toUpper
          = cs.takeWhile Decimal.isDigit :=
        map_toUpper_of_isDigit (List.all_eq_true.1 List.all_takeWhile)
      have hname : ∀ name : List Char, String.ofList (c :: name.map Char.toUpper)
          = upper (String.ofList (c :: name)) := by
        intro name
        rw [upper_ofList, List.map_cons, hc]
      simp only [takeWhile_isDigit_toUpper, takeWhile_toUpper isSymbolChar_toUpper,
        ← List.map_drop, hname, List.length_map]
      split
      · exact integer_toUpper offset rfl (by rw [List.map_cons, hc, hdigits]) _ _
      · split
        · exact integer_toUpper offset (by rw [List.map_cons, hc, List.map_nil]) hdigits _ _
        · split <;> rfl
    all_goals rfl

theorem scanFrom_toUpper (found : List Token) (offset : Nat) (text : List Char) :
    scanFrom (found.map inCapitals) offset (text.map Char.toUpper)
      = ((scanFrom found offset text).map (List.map inCapitals)).mapError
          ScanError.inCapitals := by
  have hskip : ∀ {offset start : Nat} {text behind : List Char},
      skipGap false offset text = (start, behind) →
      skipGap false offset (text.map Char.toUpper) = (start, behind.map Char.toUpper) := by
    intro offset start text behind h
    rw [skipGap_toUpper, h]
  fun_induction scanFrom found offset text with
  | case1 found offset text start hgap =>
      rw [scanFrom, hskip hgap]
      show Except.ok _ = Except.ok _
      rw [List.map_reverse]
      rfl
  | case2 found offset text start c cs hgap e htaken =>
      have hgap' := hskip hgap
      have htaken' := lexeme_toUpper start c cs
      rw [htaken] at htaken'
      rw [List.map_cons] at hgap'
      rw [scanFrom, hgap']
      simp only [htaken']
      rfl
  | case3 found offset text start c cs hgap kind more htaken ih =>
      have hgap' := hskip hgap
      have htaken' := lexeme_toUpper start c cs
      rw [htaken] at htaken'
      rw [List.map_cons] at hgap'
      rw [scanFrom, hgap', ← ih]
      simp only [htaken', List.map_drop]
      rfl

/-- **The tokens of a text in capitals** are those of the text, with symbols in capitals. -/
theorem scan_upper (text : String) :
    scan (upper text) = ((scan text).map (List.map inCapitals)).mapError ScanError.inCapitals := by
  rw [scan, upper, String.toList_ofList]
  exact scanFrom_toUpper [] 0 text.toList

end Token

/-! ### Forms -/

theorem Datum.ofName_upper (name : String) : ofName (upper name) = ofName name := by
  simp only [ofName, upper_upper, Symbol.ofString]

namespace Reader

/-- The reader of a text in capitals. -/
def inCapitals (reader : Reader) : Reader :=
  ⟨reader.current.inCapitals, reader.upcoming.map Token.inCapitals, reader.taken, reader.limit⟩

/-- What a reader does with a token does not depend on the case of letters. -/
theorem action_inCapitals (limit : Nat) (stack : List OpenForm) (token : Token) :
    action limit stack token.inCapitals = action limit stack token := by
  obtain ⟨kind, offset⟩ := token
  cases kind with
  | symbol name =>
      rcases stack with _ | ⟨_ | _ | _ | _ | _, _⟩ <;>
        simp only [Token.inCapitals, TokenKind.inCapitals, action, Datum.ofName_upper]
  | _ => rfl

theorem readWithin_inCapitals (limit : Nat) (stack : List OpenForm) (current : Token)
    (taken : Nat) (upcoming : List Token) :
    readWithin limit stack current.inCapitals taken (upcoming.map Token.inCapitals)
      = ((readWithin limit stack current taken upcoming).1,
          (readWithin limit stack current taken upcoming).2.inCapitals) := by
  induction upcoming generalizing stack current taken with
  | nil =>
      simp only [List.map_nil, readWithin, action_inCapitals]
      split <;> rfl
  | cons token upcoming ih =>
      simp only [List.map_cons, readWithin, action_inCapitals]
      split
      · rfl
      · rfl
      · rfl
      · exact ih _ _ _

theorem readAllFrom_inCapitals (found : List Datum) (reader : Reader) :
    readAllFrom found reader.inCapitals = readAllFrom found reader := by
  have hread : ∀ {reader after : Reader} {answer : Except TextError (Option Datum)},
      reader.readForm = (answer, after) →
      reader.inCapitals.readForm = (answer, after.inCapitals) := by
    intro reader after answer h
    rw [readForm] at h
    rw [readForm, inCapitals, readWithin_inCapitals, h]
  fun_induction readAllFrom found reader with
  | case1 found reader e after hform => rw [readAllFrom, hread hform]
  | case2 found reader after hform => rw [readAllFrom, hread hform]
  | case3 found reader datum next hform ih =>
      rw [readAllFrom, hread hform]
      exact ih

end Reader

namespace Datum

/-- **The forms of a text in capitals** are those of the text, if it can be scanned. -/
theorem readWith_upper {text : String} {tokens : List Token} (h : Token.scan text = .ok tokens)
    (limit : Nat) : readWith limit (upper text) = readWith limit text := by
  rw [readWith, Reader.ofText, TokenStream.ofText, Token.scan_upper, h, readWith, Reader.ofText,
    TokenStream.ofText, h]
  cases tokens with
  | nil => rfl
  | cons token upcoming => exact Reader.readAllFrom_inCapitals [] ⟨token, upcoming, 1, limit⟩

end Datum

/-! ### Two texts -/

section

variable {text text' : String} (h : SameLetters text text')
include h

/-- Texts that differ in case only have the same tokens in capitals. -/
theorem SameLetters.scan :
    ((Token.scan text).map (List.map Token.inCapitals)).mapError ScanError.inCapitals
      = ((Token.scan text').map (List.map Token.inCapitals)).mapError ScanError.inCapitals := by
  rw [← Token.scan_upper, ← Token.scan_upper, sameLetters_iff.1 h]

theorem SameLetters.exists_tokens {tokens : List Token} (hscan : Token.scan text = .ok tokens) :
    ∃ tokens', Token.scan text' = .ok tokens' ∧
      tokens.map Token.inCapitals = tokens'.map Token.inCapitals := by
  have hsame := h.scan
  rw [hscan] at hsame
  cases hscan' : Token.scan text' with
  | error cause =>
      rw [hscan'] at hsame
      cases hsame
  | ok tokens' =>
      rw [hscan'] at hsame
      exact ⟨tokens', rfl, Except.ok.inj hsame⟩

theorem SameLetters.exists_cause {cause : ScanError} (hscan : Token.scan text = .error cause) :
    ∃ cause', Token.scan text' = .error cause' ∧ cause.inCapitals = cause'.inCapitals := by
  have hsame := h.scan
  rw [hscan] at hsame
  cases hscan' : Token.scan text' with
  | error cause' =>
      rw [hscan'] at hsame
      exact ⟨cause', rfl, Except.error.inj hsame⟩
  | ok tokens =>
      rw [hscan'] at hsame
      cases hsame

/-- **Texts that differ in case only are read alike**, unless they cannot be scanned. -/
theorem SameLetters.readWith_eq {tokens : List Token} (hscan : Token.scan text = .ok tokens)
    (limit : Nat) : Datum.readWith limit text = Datum.readWith limit text' := by
  obtain ⟨tokens', hscan', -⟩ := h.exists_tokens hscan
  rw [← Datum.readWith_upper hscan, ← Datum.readWith_upper hscan', sameLetters_iff.1 h]

theorem SameLetters.readWith_eq_ok {limit : Nat} {forms : List Datum}
    (hread : Datum.readWith limit text = .ok forms) : Datum.readWith limit text' = .ok forms := by
  cases hscan : Token.scan text with
  | error cause =>
      rw [Datum.readWith_of_scan_error hscan] at hread
      cases hread
  | ok tokens => rw [← h.readWith_eq hscan, hread]

/-- What is wrong with one of two texts that differ in case only is wrong with the other. -/
theorem SameLetters.exists_error {limit : Nat} {cause : TextError}
    (hread : Datum.readWith limit text = .error cause) :
    ∃ cause', Datum.readWith limit text' = .error cause' ∧
      (Error.text cause).heading = (Error.text cause').heading ∧
      SameLetters cause.message cause'.message := by
  cases hscan : Token.scan text with
  | error first =>
      obtain ⟨second, hscan', hsame⟩ := h.exists_cause hscan
      rw [Datum.readWith_of_scan_error hscan] at hread
      obtain rfl := Except.error.inj hread
      refine ⟨.scan second, Datum.readWith_of_scan_error hscan' limit, rfl, sameLetters_iff.2 ?_⟩
      show upper first.message = upper second.message
      rw [← first.upper_message_inCapitals, hsame, second.upper_message_inCapitals]
  | ok tokens =>
      exact ⟨cause, by rw [← h.readWith_eq hscan, hread], rfl, sameLetters_iff.2 rfl⟩

theorem SameLetters.evalText_eq {forms : List Datum} (hread : Datum.read text = .ok forms)
    (session : Session) (fuel : Nat) :
    session.evalText fuel text = session.evalText fuel text' := by
  rw [session.evalText_eq fuel hread, session.evalText_eq fuel (h.readWith_eq_ok hread)]

/-- A workspace answers alike to texts that differ in case only, if they can be read. -/
theorem SameLetters.answer_eq {forms : List Datum} (hread : Datum.read text = .ok forms)
    (workspace : Workspace) (slot : String) :
    workspace.answer (.session slot (.eval text)) =
      workspace.answer (.session slot (.eval text')) := by
  have hprograms : (fun session : Session => session.evalText workspace.fuel text) =
      fun session => session.evalText workspace.fuel text' :=
    funext fun session => h.evalText_eq hread session workspace.fuel
  have hperform : (Command.session slot (.eval text)).perform.outcome workspace =
      (Command.session slot (.eval text')).perform.outcome workspace := by
    rw [workspace.perform_eval, workspace.perform_eval, hprograms]
  rw [WorkM.outcome, WorkM.outcome] at hperform
  rw [Workspace.answer, Workspace.answer, hperform]

end

/-- A text that cannot be read leaves the workspace as any other such text does. -/
theorem Workspace.snd_answer_unread {text text' : String} {cause cause' : TextError}
    (h : Datum.read text = .error cause) (h' : Datum.read text' = .error cause')
    (workspace : Workspace) (slot : String) :
    (workspace.answer (.session slot (.eval text))).2 =
      (workspace.answer (.session slot (.eval text'))).2 := by
  have hfails : ∀ {text : String} {cause : TextError}, Datum.read text = .error cause →
      ∀ session : Session, session.evalText workspace.fuel text = EvalM.fail (.text cause) := by
    intro text cause h session
    rw [Session.evalText, h]
  cases hget : workspace.sessions.get? slot with
  | none => rw [answer_eval_none hget, answer_eval_none hget]
  | some session =>
      have hanswer : ∀ {text : String} {cause : TextError}, Datum.read text = .error cause →
          (workspace.answer (.session slot (.eval text))).2 =
            { workspace with sessions := workspace.sessions.put slot session } := by
        intro text cause h
        rw [answer_eval hget (by rw [hfails h, EvalM.outcome_fail]) rfl]
      rw [hanswer h, hanswer h']

/-- **The case of letters is ignored, from a text to its results.** Let two texts differ in the
case of ASCII letters only. With any limit on nesting, both are read to the same forms or neither
can be read; the errors then are of one kind, and their messages differ in case only. If the texts
can be scanned, their tokens stand at the same places. If they can be read, evaluating the one is
evaluating the other in every session, and every workspace gives the same reply to them and is the
same afterwards, as it is if they cannot be read. -/
theorem letter_case_is_ignored (text text' : String) (h : SameLetters text text') :
    (∀ limit forms,
      Datum.readWith limit text = .ok forms ↔ Datum.readWith limit text' = .ok forms) ∧
    (∀ limit cause, Datum.readWith limit text = .error cause →
      ∃ cause', Datum.readWith limit text' = .error cause' ∧
        (Error.text cause).heading = (Error.text cause').heading ∧
        SameLetters cause.message cause'.message) ∧
    (∀ tokens, Token.scan text = .ok tokens →
      ∃ tokens', Token.scan text' = .ok tokens' ∧
        tokens.map Token.offset = tokens'.map Token.offset) ∧
    (∀ forms, Datum.read text = .ok forms →
      (∀ (session : Session) (fuel : Nat),
        session.evalText fuel text = session.evalText fuel text') ∧
      ∀ (workspace : Workspace) (slot : String),
        workspace.answer (.session slot (.eval text)) =
          workspace.answer (.session slot (.eval text'))) ∧
    ∀ (workspace : Workspace) (slot : String),
      (workspace.answer (.session slot (.eval text))).2 =
        (workspace.answer (.session slot (.eval text'))).2 := by
  have hback : SameLetters text' text := sameLetters_iff.2 (sameLetters_iff.1 h).symm
  refine ⟨fun limit forms => ⟨h.readWith_eq_ok, hback.readWith_eq_ok⟩,
    fun limit cause => h.exists_error, fun tokens hscan => ?_,
    fun forms hread => ⟨h.evalText_eq hread, h.answer_eq hread⟩, fun workspace slot => ?_⟩
  · obtain ⟨tokens', hscan', hsame⟩ := h.exists_tokens hscan
    have hoffsets := congrArg (List.map Token.offset) hsame
    rw [List.map_map, List.map_map] at hoffsets
    exact ⟨tokens', hscan', hoffsets⟩
  · cases hread : Datum.read text with
    | ok forms => rw [h.answer_eq hread]
    | error cause =>
        obtain ⟨cause', hread', -⟩ := h.exists_error hread
        exact workspace.snd_answer_unread hread hread' slot

/-- A definition with a rest marker, a constant and a comment, in two mixtures of cases. -/
theorem letter_case_is_ignored_in_definition :
    let text := "(DefUn f (x &Rest y) (if niL x Y)) ; a\n(F 1 'q)"
    let text' := "(dEFuN F (X &rEST Y) (IF NIl X y)) ; A\n(f 1 'Q)"
    SameLetters text text' ∧
      (∃ forms, Datum.read text = .ok forms ∧ Datum.read text' = .ok forms) ∧
      ∀ (workspace : Workspace) (slot : String),
        workspace.answer (.session slot (.eval text)) =
          workspace.answer (.session slot (.eval text')) := by
  intro text text'
  have hsame : SameLetters text text' := sameLetters_iff.2 (by decide +kernel)
  have hread : (Datum.read text).toOption.isSome = true := by decide +kernel
  obtain ⟨forms, hforms⟩ := Option.isSome_iff_exists.1 hread
  obtain ⟨hforms', -, -, hruns, -⟩ := letter_case_is_ignored text text' hsame
  have hok := eq_ok_of_toOption hforms
  exact ⟨hsame, ⟨forms, hok, (hforms' _ forms).1 hok⟩, (hruns forms hok).2⟩

end SmallLisp
