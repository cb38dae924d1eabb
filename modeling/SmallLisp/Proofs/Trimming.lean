import Mathlib.Data.List.Forall2
import SmallLisp.Proofs.Descent
import SmallLisp.Proofs.Lines

/-!
# Blanks at the ends of a text

A text may be trimmed before it is read. The blanks in front of it only move its tokens further
into the text. Those behind it belong to the last gap, even if that gap ends in a comment, and move
nothing but the mark of the end. The reader never quotes where the mark stands. So a text and the
trimmed text are read to the same forms, or refused for the same reason, with all offsets larger by
the number of blanks in front.

## Main results

* `Token.scan_trim` — the tokens of a text and of the trimmed text.
* `Reader.readOn_moved` — readers of tokens that stand further into a text.
* `Datum.readWith_trim` — the forms of a text and of the trimmed text.
-/

namespace SmallLisp

open Text

namespace Token

/-! ### Tokens -/

theorem ne_semicolon_of_isBlank {c : Char} (h : isBlank c = true) : c ≠ ';' := by
  rintro rfl
  exact absurd h (by decide)

theorem skipGap_blanks {blanks : List Char} (h : ∀ c ∈ blanks, isBlank c = true) (comment : Bool)
    (offset : Nat) : skipGap comment offset blanks = (offset + blanks.length, []) := by
  induction blanks generalizing comment offset with
  | nil => rfl
  | cons c blanks ih =>
      obtain ⟨hc, hblanks⟩ := List.forall_mem_cons.1 h
      simp only [skipGap, ne_semicolon_of_isBlank hc, hc, ih hblanks, List.length_cons,
        ↓reduceIte, ite_self, Nat.add_assoc, Nat.add_comm 1]

/-- Blanks in front of a text are a part of its first gap. -/
theorem skipGap_leading {blanks : List Char} (h : ∀ c ∈ blanks, isBlank c = true) (offset : Nat)
    (cs : List Char) :
    skipGap false offset (blanks ++ cs) = skipGap false (offset + blanks.length) cs := by
  induction blanks generalizing offset with
  | nil => rfl
  | cons c blanks ih =>
      obtain ⟨hc, hblanks⟩ := List.forall_mem_cons.1 h
      simp only [List.cons_append, skipGap, ne_semicolon_of_isBlank hc, hc, ih hblanks,
        List.length_cons, ↓reduceIte, Bool.false_eq_true, Nat.add_assoc, Nat.add_comm 1]

/-- Blanks behind a gap that reaches the end of a text are a part of it. -/
theorem skipGap_trailing {blanks : List Char} (h : ∀ c ∈ blanks, isBlank c = true) {comment : Bool}
    {offset : Nat} {cs : List Char} (hskip : (skipGap comment offset cs).2 = []) :
    (skipGap comment offset (cs ++ blanks)).2 = [] := by
  induction cs generalizing comment offset with
  | nil => rw [List.nil_append, skipGap_blanks h]
  | cons c cs ih =>
      rw [List.cons_append]
      unfold skipGap at hskip ⊢
      by_cases hcomment : comment = true
      · rw [if_pos hcomment] at hskip ⊢
        exact ih hskip
      · rw [if_neg hcomment] at hskip ⊢
        by_cases hsemicolon : c = ';'
        · rw [if_pos hsemicolon] at hskip ⊢
          exact ih hskip
        · rw [if_neg hsemicolon] at hskip ⊢
          by_cases hblank : isBlank c = true
          · rw [if_pos hblank] at hskip ⊢
            exact ih hskip
          · rw [if_neg hblank] at hskip
            cases hskip

theorem endsLexeme_of_blanks {blanks : List Char} (h : ∀ c ∈ blanks, isBlank c = true) :
    EndsLexeme blanks := by
  cases blanks with
  | nil => exact fun _ hc => absurd hc (Option.not_mem_none _)
  | cons c blanks => exact endsLexeme_blank (h c List.mem_cons_self) blanks

/-- **Blanks behind a text** move nothing but the mark of its end. -/
theorem scanFrom_trailing {blanks : List Char} (h : ∀ c ∈ blanks, isBlank c = true)
    (found : List Token) (offset : Nat) (text : List Char) :
    (scanFrom found offset (text ++ blanks)).map List.dropLast
      = (scanFrom found offset text).map List.dropLast := by
  have hends := endsLexeme_of_blanks h
  fun_induction scanFrom found offset text with
  | case1 found offset text start hskip =>
      have hend : (skipGap false offset (text ++ blanks)).2 = [] :=
        skipGap_trailing h (by rw [hskip])
      have hskip' : skipGap false offset (text ++ blanks)
          = ((skipGap false offset (text ++ blanks)).1, []) := Prod.ext rfl hend
      rw [scanFrom, hskip']
      show Except.ok _ = Except.ok _
      simp only [List.reverse_cons, List.dropLast_concat]
  | case2 found offset text start c cs hskip e htaken =>
      rw [scanFrom, (skipGap_append hskip _).1]
      simp only [lexeme_append hends, htaken]
  | case3 found offset text start c cs hskip kind more htaken ih =>
      obtain ⟨taken, rest, rfl, rfl, -, -⟩ := lexeme_eq_ok_iff.1 htaken
      rw [List.drop_left] at ih
      rw [scanFrom, (skipGap_append hskip _).1]
      simp only [lexeme_append hends, htaken]
      rw [List.append_assoc, List.drop_left, List.drop_left, ih]

/-- The number of blanks in front of a text. -/
def leadingBlanks (text : String) : Nat :=
  (text.toList.takeWhile isBlank).length

/-- A text is the trimmed text between blanks. -/
theorem exists_trim (text : String) :
    ∃ blanks blanks' : List Char, text.toList = blanks ++ ((trim text).toList ++ blanks') ∧
      blanks.length = leadingBlanks text ∧ (∀ c ∈ blanks, isBlank c = true) ∧
      ∀ c ∈ blanks', isBlank c = true := by
  refine ⟨text.toList.takeWhile isBlank,
    ((text.toList.dropWhile isBlank).reverse.takeWhile isBlank).reverse, ?_, rfl,
    List.all_eq_true.1 List.all_takeWhile, fun c hc => ?_⟩
  · rw [trim, String.toList_ofList, dropBlanks, dropBlanks, ← List.reverse_append,
      List.takeWhile_append_dropWhile, List.reverse_reverse, List.takeWhile_append_dropWhile]
  · exact List.all_eq_true.1 List.all_takeWhile c (List.mem_reverse.1 hc)

/-- **The tokens of a text** are those of the trimmed text, further into the text, apart from the
place of the mark at the end. -/
theorem scan_trim (text : String) :
    (scan text).map List.dropLast
      = (((scan (trim text)).map List.dropLast).map
          (List.map (shift (leadingBlanks text)))).mapError
          (ScanError.shift (leadingBlanks text)) := by
  obtain ⟨blanks, blanks', htext, hlength, hblanks, hblanks'⟩ := exists_trim text
  have hlead := scanFrom_congr (skipGap_leading hblanks 0 ((trim text).toList ++ blanks')) []
  have hshift := scanFrom_shift (leadingBlanks text) [] 0 (trim text).toList
  rw [List.map_nil, Nat.add_zero] at hshift
  rw [scan, htext, hlead, Nat.zero_add, hlength, scanFrom_trailing hblanks', hshift, scan]
  cases scanFrom [] 0 (trim text).toList with
  | error cause => rfl
  | ok tokens =>
      show Except.ok _ = Except.ok _
      rw [List.map_dropLast]

/-- The second token is the first one with `count` characters more in front of it. Where the mark of
the end stands does not matter. -/
def Moved (count : Nat) (token token' : Token) : Prop :=
  token'.kind = token.kind ∧ (token.kind ≠ .eof → token'.offset = count + token.offset)

theorem forall₂_moved (count : Nat) (body : List Token) {last last' : Token}
    (hlast : last.kind = .eof) (hlast' : last'.kind = .eof) :
    List.Forall₂ (Moved count) (body ++ [last]) (body.map (shift count) ++ [last']) := by
  have hbody : List.Forall₂ (Moved count) body (body.map (shift count)) :=
    List.forall₂_map_right_iff.2 (List.forall₂_same.2 fun _ _ => ⟨rfl, fun _ => rfl⟩)
  refine List.rel_append hbody (.cons ⟨hlast'.trans hlast.symm, fun heof => ?_⟩ .nil)
  exact absurd hlast heof

theorem scan_of_trim_error {text : String} {cause : ScanError}
    (h : scan (trim text) = .error cause) :
    scan text = .error (cause.shift (leadingBlanks text)) := by
  have hscan := scan_trim text
  rw [h] at hscan
  cases htext : scan text with
  | error cause' =>
      rw [htext] at hscan
      exact congrArg Except.error (Except.error.inj hscan)
  | ok tokens =>
      rw [htext] at hscan
      cases hscan

theorem exists_scan_of_trim {text : String} {tokens : List Token}
    (h : scan (trim text) = .ok tokens) :
    ∃ tokens', scan text = .ok tokens' ∧
      List.Forall₂ (Moved (leadingBlanks text)) tokens tokens' := by
  have hscan := scan_trim text
  rw [h] at hscan
  cases htext : scan text with
  | error cause =>
      rw [htext] at hscan
      cases hscan
  | ok tokens' =>
      rw [htext] at hscan
      obtain ⟨body, last, rfl, hlast, -⟩ := scan_eq_ok h
      obtain ⟨body', last', rfl, hlast', -⟩ := scan_eq_ok htext
      obtain rfl : body' = body.map (shift (leadingBlanks text)) := by
        have hsame := Except.ok.inj hscan
        rwa [List.dropLast_concat, List.dropLast_concat] at hsame
      exact ⟨_, rfl, forall₂_moved (leadingBlanks text) body hlast hlast'⟩

end Token

/-! ### Forms -/

/-- The construct in a text with `count` characters more in front of it. -/
def OpenForm.shift (count : Nat) : OpenForm → OpenForm
  | list start items => list (count + start) items
  | rest start => rest (count + start)
  | opened => opened

/-- The error about a text with `count` characters more in front of it. -/
def ReadError.shift (count : Nat) : ReadError → ReadError
  | unexpectedClose offset => unexpectedClose (count + offset)
  | missingClose start => missingClose (count + start)
  | strayDot offset => strayDot (count + offset)
  | dotWithoutCar offset => dotWithoutCar (count + offset)
  | restNotSymbol start got => restNotSymbol (count + start) got
  | tooDeep limit offset => tooDeep limit (count + offset)
  | cause => cause

/-- The error about a text with `count` characters more in front of it. -/
def TextError.shift (count : Nat) : TextError → TextError
  | scan cause => scan (cause.shift count)
  | read cause => read (cause.shift count)

namespace Reader

variable {count : Nat}

/-- What a reader does next in a text with `count` characters more in front of it. -/
def Progress.shift (count : Nat) : Progress → Progress
  | form datum => form datum
  | within stack => within (stack.map (OpenForm.shift count))

/-- The same for an error too. -/
def shiftNext (count : Nat) (next : Except ReadError Progress) : Except ReadError Progress :=
  (next.map (Progress.shift count)).mapError (ReadError.shift count)

/-- What a reader does with a token in a text with `count` characters more in front of it. -/
def Action.shift (count : Nat) : Action → Action
  | stop reason => stop (reason.map (ReadError.shift count))
  | take next => take (shiftNext count next)

theorem complete_shift (count : Nat) (stack : List OpenForm) (datum : Datum) :
    complete (stack.map (OpenForm.shift count)) datum = shiftNext count (complete stack datum) := by
  fun_induction complete stack datum with
  | case1 => rfl
  | case2 => rfl
  | case3 => rfl
  | case4 => rfl
  | case5 mark stack datum ih => exact ih
  | case6 start stack name ih => exact ih
  | case7 start stack datum hsymbol =>
      cases datum with
      | symbol name => exact absurd rfl (hsymbol name)
      | _ => rfl

theorem enter_shift (count limit offset : Nat) (stack : List OpenForm) (opened : OpenForm) :
    enter limit (count + offset) (stack.map (OpenForm.shift count)) (opened.shift count)
      = shiftNext count (enter limit offset stack opened) := by
  simp only [enter, List.length_map]
  split <;> rfl

theorem enterMark_shift (count limit offset : Nat) (stack : List OpenForm) (mark : QuoteMark) :
    enterMark limit (count + offset) (stack.map (OpenForm.shift count)) mark
      = (enterMark limit offset stack mark).shift count := by
  have henter : enter limit (count + offset) (stack.map (OpenForm.shift count)) (.marked mark)
      = shiftNext count (enter limit offset stack (.marked mark)) :=
    enter_shift count limit offset stack (.marked mark)
  rw [enterMark, henter, enterMark]
  cases enter limit offset stack (.marked mark) <;> rfl

theorem expects_shift {stack : List OpenForm} {kind : TokenKind} (h : Expects stack kind) :
    Expects (stack.map (OpenForm.shift count)) kind := by
  rcases stack with _ | ⟨⟨start, items⟩ | items | ⟨items, tail⟩ | mark | start, outer⟩
  · exact expects_nil kind
  · exact ⟨(fun _ _ _ heq => by cases heq), fun _ _ _ _ => h.2 start items outer rfl⟩
  · exact expects_cons (by simp [OpenForm.shift]) (by simp [OpenForm.shift]) kind
  · exact absurd rfl (h.1 items tail outer)
  · exact expects_cons (by simp [OpenForm.shift]) (by simp [OpenForm.shift]) kind
  · exact expects_cons (by simp [OpenForm.shift]) (by simp [OpenForm.shift]) kind

theorem formAction_shift (count limit offset : Nat) (stack : List OpenForm) {kind : TokenKind}
    (h : kind ≠ .eof) :
    formAction limit (stack.map (OpenForm.shift count)) ⟨kind, count + offset⟩
      = (formAction limit stack ⟨kind, offset⟩).shift count := by
  cases kind with
  | eof => exact absurd rfl h
  | closeParen => rfl
  | dot => rfl
  | integer value => exact congrArg Action.take (complete_shift count stack _)
  | symbol name => exact congrArg Action.take (complete_shift count stack _)
  | quote => exact enterMark_shift count limit offset stack _
  | quasiquote => exact enterMark_shift count limit offset stack _
  | unquote => exact enterMark_shift count limit offset stack _
  | unquoteSplicing => exact enterMark_shift count limit offset stack _
  | rest => exact congrArg Action.take (enter_shift count limit offset stack (.rest offset))
  | openParen => exact congrArg Action.take (enter_shift count limit offset stack (.list offset []))

/-- Where no form is expected, a list ends, goes on behind a dot, or is not closed. -/
theorem action_shift_of_not_expects (count limit offset : Nat) {stack : List OpenForm}
    {kind : TokenKind} (h : ¬Expects stack kind) :
    action limit (stack.map (OpenForm.shift count)) ⟨kind, count + offset⟩
      = (action limit stack ⟨kind, offset⟩).shift count := by
  rcases stack with _ | ⟨⟨start, items⟩ | items | ⟨items, tail⟩ | mark | start, outer⟩
  · exact absurd (expects_nil kind) h
  · by_cases hclose : kind = .closeParen
    · subst hclose
      exact congrArg Action.take (complete_shift count outer _)
    · by_cases hdot : kind = .dot
      · subst hdot
        cases items <;> rfl
      · refine absurd ⟨?_, fun _ _ _ _ => ⟨hclose, hdot⟩⟩ h
        exact fun _ _ _ heq => by cases heq
  · exact absurd (expects_cons (by simp) (by simp) kind) h
  · by_cases hclose : kind = .closeParen
    · subst hclose
      exact congrArg Action.take (complete_shift count outer _)
    · cases kind <;> first | rfl | exact absurd rfl hclose
  · exact absurd (expects_cons (by simp) (by simp) kind) h
  · exact absurd (expects_cons (by simp) (by simp) kind) h

/-- What a reader does with a token further into a text. -/
theorem action_moved {token token' : Token} (h : token.Moved count token') (limit : Nat)
    (stack : List OpenForm) :
    action limit (stack.map (OpenForm.shift count)) token'
      = (action limit stack token).shift count := by
  obtain ⟨kind, offset⟩ := token
  obtain ⟨kind', offset'⟩ := token'
  obtain ⟨hkind, hoffset⟩ := h
  obtain rfl : kind' = kind := hkind
  by_cases heof : kind' = .eof
  · subst heof
    rcases stack with _ | ⟨_ | _ | _ | _ | _, outer⟩ <;> rfl
  · obtain rfl : offset' = count + offset := hoffset heof
    by_cases hexpects : Expects stack kind'
    · rw [action_of_expects limit (expects_shift hexpects), action_of_expects limit hexpects]
      exact formAction_shift count limit offset stack heof
    · exact action_shift_of_not_expects count limit offset hexpects

/-- The second reader is the first one with `count` characters more in front of its tokens. -/
structure Moved (count : Nat) (reader reader' : Reader) : Prop where
  current : reader.current.Moved count reader'.current
  upcoming : List.Forall₂ (Token.Moved count) reader.upcoming reader'.upcoming
  taken : reader'.taken = reader.taken
  limit : reader'.limit = reader.limit

theorem stopped_shift (count : Nat) (reason : Option ReadError) :
    stopped (reason.map (ReadError.shift count))
      = (stopped reason).mapError (TextError.shift count) := by
  cases reason <;> rfl

/-- **Reading tokens that stand further into a text** comes to the same, with larger offsets in an
error. -/
theorem readOn_moved {reader reader' : Reader} (h : reader.Moved count reader')
    (stack : List OpenForm) :
    (reader'.readOn (stack.map (OpenForm.shift count))).1
        = (reader.readOn stack).1.mapError (TextError.shift count) ∧
      (reader.readOn stack).2.Moved count
        (reader'.readOn (stack.map (OpenForm.shift count))).2 := by
  induction reader, stack using readOn_induction generalizing reader' with
  | stop reader stack reason haction =>
      have haction' : action reader'.limit (stack.map (OpenForm.shift count)) reader'.current
          = .stop (reason.map (ReadError.shift count)) := by
        rw [h.limit, action_moved h.current, haction]
        rfl
      rw [readOn_of_stop haction', readOn_of_stop haction]
      exact ⟨stopped_shift count reason, h⟩
  | pastEnd reader stack next haction hupcoming =>
      have haction' : action reader'.limit (stack.map (OpenForm.shift count)) reader'.current
          = .take (shiftNext count next) := by
        rw [h.limit, action_moved h.current, haction]
        rfl
      have hupcoming' : reader'.upcoming = [] :=
        List.forall₂_nil_left_iff.1 (hupcoming ▸ h.upcoming)
      rw [readOn_of_take_nil haction' hupcoming', readOn_of_take_nil haction hupcoming, h.taken]
      exact ⟨rfl, h⟩
  | take reader stack next token upcoming haction hupcoming ih =>
      have haction' : action reader'.limit (stack.map (OpenForm.shift count)) reader'.current
          = .take (shiftNext count next) := by
        rw [h.limit, action_moved h.current, haction]
        rfl
      obtain ⟨token', upcoming', htoken, hrest, hupcoming'⟩ :=
        List.forall₂_cons_left_iff.1 (hupcoming ▸ h.upcoming)
      have hnext : Moved count ⟨token, upcoming, reader.taken + 1, reader.limit⟩
          ⟨token', upcoming', reader'.taken + 1, reader'.limit⟩ :=
        ⟨htoken, hrest, congrArg (· + 1) h.taken, h.limit⟩
      rw [readOn_of_take haction' hupcoming', readOn_of_take haction hupcoming]
      rcases next with e | datum | inner
      · exact ⟨rfl, hnext⟩
      · exact ⟨rfl, hnext⟩
      · exact ih inner rfl hnext

theorem readAllFrom_moved {reader reader' : Reader} (h : reader.Moved count reader')
    (found : List Datum) :
    readAllFrom found reader' = (readAllFrom found reader).mapError (TextError.shift count) := by
  have hform : ∀ {reader reader' after : Reader} {answer : Except TextError (Option Datum)},
      reader.Moved count reader' → reader.readForm = (answer, after) →
      ∃ after', reader'.readForm = (answer.mapError (TextError.shift count), after') ∧
        after.Moved count after' := by
    intro reader reader' after answer hmoved hread
    have hsame := readOn_moved hmoved []
    rw [show reader.readOn [] = (answer, after) from hread] at hsame
    exact ⟨_, Prod.ext hsame.1 rfl, hsame.2⟩
  fun_induction readAllFrom found reader generalizing reader' with
  | case1 found reader e after hread =>
      obtain ⟨after', hread', -⟩ := hform h hread
      rw [readAllFrom, hread']
      rfl
  | case2 found reader after hread =>
      obtain ⟨after', hread', -⟩ := hform h hread
      rw [readAllFrom, hread']
      rfl
  | case3 found reader datum after hread ih =>
      obtain ⟨after', hread', hmoved⟩ := hform h hread
      rw [readAllFrom, hread']
      exact ih hmoved

end Reader

namespace Datum

/-- **The forms of a text** are those of the trimmed text, and an error is the same with offsets
that are larger by the number of blanks in front. -/
theorem readWith_trim (limit : Nat) (text : String) :
    readWith limit text
      = (readWith limit (trim text)).mapError (TextError.shift (Token.leadingBlanks text)) := by
  cases htrim : Token.scan (trim text) with
  | error cause =>
      rw [readWith_of_scan_error (Token.scan_of_trim_error htrim), readWith_of_scan_error htrim]
      rfl
  | ok tokens =>
      obtain ⟨tokens', htext, hmoved⟩ := Token.exists_scan_of_trim htrim
      obtain ⟨first, upcoming, rfl⟩ := Token.exists_cons_of_scan htrim
      obtain ⟨first', upcoming', rfl⟩ := Token.exists_cons_of_scan htext
      obtain ⟨hfirst, hupcoming⟩ := List.forall₂_cons.1 hmoved
      have hreader : Reader.Moved (Token.leadingBlanks text) ⟨first, upcoming, 1, limit⟩
          ⟨first', upcoming', 1, limit⟩ := ⟨hfirst, hupcoming, rfl, rfl⟩
      rw [readWith_of_scan htext, readWith_of_scan htrim]
      exact Reader.readAllFrom_moved hreader []

/-- A text can be read exactly if the trimmed text can, with the same forms. -/
theorem read_trim (text : String) :
    (∃ forms, read (trim text) = .ok forms ∧ read text = .ok forms) ∨
      ∃ fault, read (trim text) = .error fault ∧
        read text = .error (fault.shift (Token.leadingBlanks text)) := by
  have htext : read text = (read (trim text)).mapError _ :=
    readWith_trim Reader.defaultLimit text
  cases htrim : read (trim text) with
  | ok forms =>
      rw [htrim] at htext
      exact .inl ⟨forms, rfl, htext⟩
  | error fault =>
      rw [htrim] at htext
      exact .inr ⟨fault, rfl, htext⟩

end Datum

end SmallLisp
