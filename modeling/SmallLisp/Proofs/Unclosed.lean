import SmallLisp.Proofs.ReaderCalls
import SmallLisp.Proofs.Lines

/-!
# Parentheses that are left open

A reader that comes to the end of the text inside of a list blames the parenthesis that the list
begins with. It knows the parenthesis from the construct on top of its stack, which may have been
opened long before. What the tokens between them have to do with each other is kept as an invariant:
the tokens that were taken for a form fall into stretches in which parentheses match, with one
parenthesis between two of them for each list on the stack. So the one that is blamed is followed by
matching parentheses only. What stands in front of the form is not concerned: a text that is cut off
there is read as the forms that were read before.

## Main results

* `Reader.Opened.takes`, `Reader.Opened.reads` — the invariant, for one token and for many.
* `Reader.reads_of_missingClose` — where the reader was when it missed a parenthesis.
* `Reader.readsAll_of_calls` — forms that were read are all forms of their tokens.
* `Token.scan_cut` — the tokens of a text that is cut off in front of a token.
* `Datum.missing_close_is_innermost` — all of this for a text.
-/

namespace SmallLisp

/-! ### Matching parentheses -/

namespace Token

/-- The parentheses among the tokens match. -/
inductive Balanced : List Token → Prop
  | nil : Balanced []
  | other {token : Token} {tokens : List Token} : token.kind ≠ .openParen →
      token.kind ≠ .closeParen → Balanced tokens → Balanced (token :: tokens)
  | group {opening closing : Token} {inner tokens : List Token} : opening.kind = .openParen →
      closing.kind = .closeParen → Balanced inner → Balanced tokens →
      Balanced (opening :: (inner ++ closing :: tokens))

theorem Balanced.append {tokens more : List Token} (h : Balanced tokens) (hmore : Balanced more) :
    Balanced (tokens ++ more) := by
  induction h with
  | nil => exact hmore
  | other hopen hclose _ ih => exact .other hopen hclose ih
  | group hopen hclose hinner _ _ ih =>
      rw [List.cons_append, List.append_assoc, List.cons_append]
      exact .group hopen hclose hinner ih

end Token

open Token (Balanced)

namespace OpenForm

/-- The construct is a list, whatever of it has been read. -/
def isList : OpenForm → Bool
  | list _ _ | dotted _ | closing _ _ => true
  | marked _ | rest _ => false

/-- Where a list begins. Behind its dot it does not tell any more. -/
def start? : OpenForm → Option Nat
  | list start _ => some start
  | _ => none

end OpenForm

namespace Reader

variable {limit start : Nat} {stack inner outer : List OpenForm} {opened : OpenForm} {token : Token}
  {tokens more : List Token} {datum : Datum} {reader : Reader}

/-- With these tokens taken, these constructs are open. Marks leave no trace in the parentheses. -/
inductive Opened : List Token → List OpenForm → Prop
  | none {tokens : List Token} : Balanced tokens → Opened tokens []
  | list {before behind : List Token} {token : Token} {opened : OpenForm}
      {outer : List OpenForm} : Opened before outer → opened.isList = true →
      token.kind = .openParen → (∀ start ∈ opened.start?, token.offset = start) →
      Balanced behind → Opened (before ++ token :: behind) (opened :: outer)
  | mark {tokens : List Token} {opened : OpenForm} {outer : List OpenForm} :
      opened.isList = false → Opened tokens outer → Opened tokens (opened :: outer)

namespace Opened

theorem append (h : Opened tokens stack) (hmore : Balanced more) :
    Opened (tokens ++ more) stack := by
  induction h with
  | none htokens => exact .none (htokens.append hmore)
  | list hbefore hlist hkind hstart hbehind =>
      rw [List.append_assoc, List.cons_append]
      exact .list hbefore hlist hkind hstart (hbehind.append hmore)
  | mark hmark _ ih => exact .mark hmark ih

theorem exists_list (h : Opened tokens (opened :: outer)) (hlist : opened.isList = true) :
    ∃ before token behind, tokens = before ++ token :: behind ∧ Opened before outer ∧
      token.kind = .openParen ∧ (∀ start ∈ opened.start?, token.offset = start) ∧
      Balanced behind := by
  cases h with
  | list hbefore _ hkind hstart hbehind => exact ⟨_, _, _, rfl, hbefore, hkind, hstart, hbehind⟩
  | mark hmark _ => cases hlist.symm.trans hmark

theorem of_mark (h : Opened tokens (opened :: outer)) (hmark : opened.isList = false) :
    Opened tokens outer := by
  cases h with
  | list _ hlist _ _ _ => cases hlist.symm.trans hmark
  | mark _ houter => exact houter

/-- A list goes on as a list that begins where it did. -/
theorem replace {opened' : OpenForm} (h : Opened tokens (opened :: outer))
    (hlist : opened.isList = true) (hlist' : opened'.isList = true)
    (hstart' : ∀ start ∈ opened'.start?, start ∈ opened.start?) :
    Opened tokens (opened' :: outer) := by
  obtain ⟨before, token, behind, rfl, hbefore, hkind, hstart, hbehind⟩ := h.exists_list hlist
  exact .list hbefore hlist' hkind (fun start hmem => hstart start (hstart' start hmem)) hbehind

/-- A list that is closed is a group of matching parentheses in what is around it. -/
theorem close (h : Opened tokens (opened :: outer)) (hlist : opened.isList = true)
    (hclose : token.kind = .closeParen) : Opened (tokens ++ [token]) outer := by
  obtain ⟨before, first, behind, rfl, hbefore, hkind, -, hbehind⟩ := h.exists_list hlist
  rw [List.append_assoc, List.cons_append]
  exact hbefore.append (.group hkind hclose hbehind .nil)

/-- Handing a datum on leaves the parentheses alone. -/
theorem complete (h : Opened tokens stack)
    (hcomplete : complete stack datum = .ok (.within inner)) : Opened tokens inner := by
  fun_induction Reader.complete stack datum with
  | case1 => cases hcomplete
  | case2 | case3 =>
      obtain rfl := Progress.within.inj (Except.ok.inj hcomplete)
      exact h.replace rfl rfl fun _ hmem => hmem
  | case4 => cases hcomplete
  | case5 _ _ _ ih => exact ih (h.of_mark rfl) hcomplete
  | case6 _ _ _ ih => exact ih (h.of_mark rfl) hcomplete
  | case7 => cases hcomplete

/-- **The step.** Taking one more token. -/
theorem takes (h : Opened tokens stack) (htakes : Takes limit stack token (.within inner)) :
    Opened (tokens ++ [token]) inner := by
  have hother : token.kind ≠ .openParen → token.kind ≠ .closeParen →
      Opened (tokens ++ [token]) stack :=
    fun hopen hclose => h.append (.other hopen hclose .nil)
  obtain ⟨kind, offset⟩ := token
  cases htakes with
  | datum hdatum hnext =>
      refine (hother ?_ ?_).complete hnext <;>
      · rintro rfl
        cases hdatum
  | opening hopens _ _ =>
      cases kind with
      | openParen =>
          cases hopens
          exact .list h rfl rfl (fun _ hmem => Option.some.inj hmem) .nil
      | closeParen | dot | integer _ | symbol _ | eof => cases hopens
      | quote | quasiquote | unquote | unquoteSplicing | rest =>
          cases hopens
          exact .mark rfl (hother (by simp) (by simp))
  | close hclose hnext => exact (h.close rfl hclose).complete hnext
  | closeDotted hclose hnext => exact (h.close rfl hclose).complete hnext
  | dot hdot _ =>
      obtain rfl := hdot
      exact (hother (by simp) (by simp)).replace rfl rfl fun _ hmem => by cases hmem

/-- **The run.** Taking more tokens. -/
theorem reads (h : Opened tokens stack) (hreads : Reads limit stack more (.within inner)) :
    Opened (tokens ++ more) inner := by
  generalize hprogress : Progress.within inner = progress at hreads
  induction hreads generalizing tokens with
  | refl stack =>
      obtain rfl := Progress.within.inj hprogress
      rwa [List.append_nil]
  | form _ => cases hprogress
  | step htakes _ ih =>
      rw [List.append_cons]
      exact ih (h.takes htakes) hprogress

end Opened

/-- The list that is read at the moment begins with a parenthesis that is followed by matching
parentheses only. -/
theorem Reads.exists_openParen {items : List Datum}
    (h : Reads limit [] tokens (.within (.list start items :: outer))) :
    ∃ front behind, tokens = front ++ ⟨.openParen, start⟩ :: behind ∧ Balanced behind := by
  have hopened : Opened ([] ++ tokens) (.list start items :: outer) :=
    (Opened.none .nil).reads h
  obtain ⟨front, ⟨kind, offset⟩, behind, htokens, -, hkind, hstart, hbehind⟩ :=
    hopened.exists_list rfl
  obtain rfl : kind = .openParen := hkind
  obtain rfl : offset = start := hstart start rfl
  exact ⟨front, behind, htokens, hbehind⟩

/-! ### The end of the text inside of a list -/

/-- A parenthesis is missed at the end of the text and inside of a list only. -/
theorem action_eq_stop_missingClose
    (h : action limit stack token = .stop (some (.missingClose start))) :
    token.kind = .eof ∧ ∃ items outer, stack = .list start items :: outer := by
  rcases action_eq_stop h with ⟨heof, hend⟩ | h | h | h | h | h
  · refine ⟨heof, ?_⟩
    rcases stack with _ | ⟨_ | _ | _ | _ | _, outer⟩ <;> cases hend
    exact ⟨_, _, rfl⟩
  all_goals cases h

/-- No token is taken along with that error. -/
theorem action_ne_take_missingClose :
    action limit stack token ≠ .take (.error (.missingClose start)) := by
  intro h
  rcases action_eq_take_error h with h | ⟨_, _, h⟩ | h <;> cases h

/-- **Where the reader is** when it misses a parenthesis: it has taken all tokens up to the end, and
the list that it blames is the innermost construct that is open. -/
theorem reads_of_missingClose (h : (reader.readOn stack).1 = .error (.read (.missingClose start))) :
    ∃ taken last behind items outer,
      reader.current :: reader.upcoming = taken ++ last :: behind ∧ last.kind = .eof ∧
        Reads reader.limit stack taken (.within (.list start items :: outer)) := by
  obtain ⟨taken, last, behind, inner, htokens, hreads, hstop | htake⟩ := action_of_readOn_error h
  · obtain ⟨heof, items, outer, rfl⟩ := action_eq_stop_missingClose hstop
    exact ⟨taken, last, behind, items, outer, htokens, heof, hreads⟩
  · exact absurd htake action_ne_take_missingClose

/-! ### The forms in front -/

/-- **Forms that were read** are all forms of the tokens that were taken for them. -/
theorem readsAll_of_calls {forms : List Datum} (h : ∀ i datum, forms[i]? = some datum →
      reader.answerAfter i = .ok (some datum)) {last : Token} (hlast : last.kind = .eof) :
    ∃ before, reader.current :: reader.upcoming = before ++
        (reader.afterCalls forms.length).current :: (reader.afterCalls forms.length).upcoming ∧
      ReadsAll reader.limit (before ++ [last]) forms := by
  induction forms generalizing reader with
  | nil => exact ⟨[], rfl, .eof hlast⟩
  | cons datum forms ih =>
      have hform : reader.readForm = (.ok (some datum), reader.readForm.2) :=
        Prod.ext (h 0 datum rfl) rfl
      obtain ⟨tokens, htokens, hreads, hlimit⟩ := reads_of_readWithin hform
      have hrest : ∀ i other, forms[i]? = some other →
          reader.readForm.2.answerAfter i = .ok (some other) :=
        fun i other hother => (answerAfter_readForm reader i).trans (h (i + 1) other hother)
      obtain ⟨before, hbefore, hall⟩ := ih hrest
      rw [afterCalls_readForm] at hbefore
      rw [hlimit] at hall
      refine ⟨tokens ++ before, ?_, ?_⟩
      · rw [htokens, hbefore, List.append_assoc]
        rfl
      · rw [List.append_assoc]
        exact .form hreads hall

/-- **The failing call.** A reader that misses a parenthesis hands out some forms before, which are
all forms of the tokens in front. The parenthesis is among the tokens from there on. -/
theorem exists_failing (h : reader.readAll = .error (.read (.missingClose start))) :
    ∃ (forms : List Datum) (failing : Reader) (before front behind rest : List Token)
      (last : Token),
      (∀ i datum, forms[i]? = some datum → reader.answerAfter i = .ok (some datum)) ∧
      reader.answerAfter forms.length = .error (.read (.missingClose start)) ∧
      failing = reader.afterCalls forms.length ∧
      reader.current :: reader.upcoming = before ++ failing.current :: failing.upcoming ∧
      failing.current :: failing.upcoming =
        front ++ ⟨.openParen, start⟩ :: (behind ++ last :: rest) ∧
      Balanced behind ∧ last.kind = .eof ∧
      ReadsAll reader.limit (before ++ [⟨.eof, failing.current.offset⟩]) forms := by
  obtain ⟨forms, hforms, hends⟩ := readAllFrom_eq_calls [] reader
  obtain ⟨e, hall, herror⟩ := hends.resolve_left fun hok => by cases h.symm.trans hok.1
  obtain rfl := Except.error.inj (h.symm.trans hall)
  have hend : (⟨.eof, (reader.afterCalls forms.length).current.offset⟩ : Token).kind = .eof := rfl
  obtain ⟨before, hbefore, hreadsAll⟩ := readsAll_of_calls hforms hend
  obtain ⟨taken, last, rest, items, outer, htaken, heof, hreads⟩ := reads_of_missingClose herror
  obtain ⟨front, behind, rfl, hbehind⟩ := hreads.exists_openParen
  refine ⟨forms, _, before, front, behind, rest, last, hforms, herror, rfl, hbefore, ?_, hbehind,
    heof, hreadsAll⟩
  rw [htaken, List.append_assoc]
  rfl

end Reader

/-! ### A text that is cut off -/

theorem TokenKind.EndsBefore.cut {kind : TokenKind} {behind more : List Char}
    (h : kind.EndsBefore (behind ++ more)) : kind.EndsBefore behind := by
  cases behind with
  | nil =>
      cases kind with
      | unquote => exact fun heq => by cases heq
      | rest | integer _ | symbol _ => exact Token.delimited_nil
      | _ => trivial
  | cons c behind => cases kind <;> exact h

namespace Token

theorem Piece.StandsBefore.ne_nil {piece : Piece} {behind : List Char}
    (h : piece.StandsBefore behind) : piece.lexeme ≠ [] := by
  obtain ⟨c, cs, hlexeme, -, -⟩ := exists_cons_of_writtenAs h.lexeme
  rw [hlexeme]
  exact List.cons_ne_nil c cs

theorem Piece.StandsBefore.cut {piece : Piece} {behind more : List Char}
    (h : piece.StandsBefore (behind ++ more)) : piece.StandsBefore behind where
  gap := h.gap.change_behind (List.append_ne_nil_of_left_ne_nil h.ne_nil _) _
  lexeme := h.lexeme
  ends := h.ends.cut

namespace Layout

variable {front back : List Piece} {piece : Piece} {last : List Char}

theorem chars_cut (front back : List Piece) (piece : Piece) (last : List Char) :
    chars ⟨front ++ piece :: back, last⟩ =
      chars ⟨front, piece.gap⟩ ++ (piece.lexeme ++ chars ⟨back, last⟩) := by
  simp [chars, Piece.chars]

/-- What is in front of a lexeme is laid out by itself. -/
theorem Proper.cut (h : Proper ⟨front ++ piece :: back, last⟩) : Proper ⟨front, piece.gap⟩ := by
  induction front with
  | nil =>
      obtain ⟨hpiece, -⟩ := proper_cons.1 h
      exact ⟨by simp,
        hpiece.gap.change_behind (List.append_ne_nil_of_left_ne_nil hpiece.ne_nil _) []⟩
  | cons first front ih =>
      rw [List.cons_append, proper_cons, chars_cut] at h
      exact proper_cons.2 ⟨h.1.cut, ih h.2⟩

theorem tokens_cut (front back : List Piece) (piece : Piece) (last : List Char) :
    ∃ before behind, before.length = front.length ∧
      tokens ⟨front, piece.gap⟩ = before ++ [⟨.eof, (chars ⟨front, piece.gap⟩).length⟩] ∧
      tokens ⟨front ++ piece :: back, last⟩ =
        before ++ ⟨piece.kind, (chars ⟨front, piece.gap⟩).length⟩ :: behind := by
  induction front with
  | nil => exact ⟨[], _, rfl, rfl, tokens_cons piece back last⟩
  | cons first front ih =>
      obtain ⟨before, behind, hlength, hcut, htokens⟩ := ih
      refine ⟨⟨first.kind, first.gap.length⟩ :: before.map (shift first.chars.length),
        behind.map (shift first.chars.length), by simp [hlength], ?_, ?_⟩
      · rw [tokens_cons, hcut, chars_cons]
        simp [shift, Piece.chars, Nat.add_assoc]
      · rw [List.cons_append, tokens_cons, htokens, chars_cons]
        simp [shift, Piece.chars, Nat.add_assoc]

end Layout

/-- **A text that is cut off in front of a token** has the tokens before that one. -/
theorem scan_cut {text : String} {before behind : List Token} {token : Token}
    (h : scan text = .ok (before ++ token :: behind)) (hbehind : behind ≠ []) :
    scan (String.ofList (text.toList.take token.offset)) =
      .ok (before ++ [⟨.eof, token.offset⟩]) := by
  have hscan : ∀ layout : Layout, layout.Proper →
      scanFrom [] 0 layout.chars = .ok layout.tokens := by
    intro layout hproper
    rw [hproper.scanFrom_eq, shift_zero]
    simp
  obtain ⟨⟨pieces, last⟩, hchars, hproper⟩ := Layout.exists_proper h
  have htokens : Layout.tokens ⟨pieces, last⟩ = before ++ token :: behind := by
    rw [scan, ← hchars, hscan _ hproper] at h
    exact Except.ok.inj h
  -- the token is that of a piece, since there is another one behind it
  have hlt : before.length < pieces.length := by
    have hlength := congrArg List.length htokens
    have hpos := List.length_pos_iff.2 hbehind
    simp only [Layout.tokens, List.length_append, List.length_mapIdx, List.length_cons,
      List.length_nil] at hlength
    omega
  obtain ⟨front, piece, back, hpieces, hfront⟩ :
      ∃ front piece back, pieces = front ++ piece :: back ∧ front.length = before.length :=
    ⟨pieces.take before.length, pieces[before.length], pieces.drop (before.length + 1),
      by simp, by simp; omega⟩
  subst hpieces
  obtain ⟨before', behind', hlength, hcut, htokens'⟩ := Layout.tokens_cut front back piece last
  rw [htokens] at htokens'
  obtain ⟨rfl, hrest⟩ := List.append_inj htokens' (by omega)
  obtain ⟨rfl, -⟩ := List.cons.inj hrest
  rw [scan, String.toList_ofList, ← hchars, Layout.chars_cut, List.take_left,
    hscan _ hproper.cut, hcut]

end Token

namespace Datum

/-- **The error about a missing parenthesis is about the right one.** Let reading a text fail with
it. Then a reader of the text hands out some forms, and the next call fails with that error. Among
the tokens that lie before it at that call there is a parenthesis where the error says, and behind
it parentheses match up to the end of the text. If the text is cut off in front of the first of
these tokens, all of it is read, and just as the forms that were handed out. -/
theorem missing_close_is_innermost {limit start : Nat} {text : String}
    (h : readWith limit text = .error (.read (.missingClose start))) :
    ∃ (reader failing : Reader) (forms : List Datum) (before front behind : List Token)
        (last : Token),
      Reader.ofText text limit = .ok reader ∧
      (∀ i datum, forms[i]? = some datum → reader.answerAfter i = .ok (some datum)) ∧
      reader.answerAfter forms.length = .error (.read (.missingClose start)) ∧
      failing = reader.afterCalls forms.length ∧
      Token.scan text = .ok (before ++ failing.current :: failing.upcoming) ∧
      failing.current :: failing.upcoming = front ++ ⟨.openParen, start⟩ :: (behind ++ [last]) ∧
      Balanced behind ∧ last.kind = .eof ∧
      readWith limit (String.ofList (text.toList.take failing.current.offset)) = .ok forms := by
  cases hscan : Token.scan text with
  | error cause =>
      rw [readWith_of_scan_error hscan] at h
      cases h
  | ok tokens =>
      obtain ⟨first, upcoming, rfl⟩ := Token.exists_cons_of_scan hscan
      rw [readWith_of_scan hscan] at h
      obtain ⟨forms, failing, before, front, behind, rest, last, hforms, herror, hfailing, hbefore,
        htokens, hbehind, heof, hall⟩ := Reader.exists_failing h
      have htext : Token.scan text = .ok (before ++ failing.current :: failing.upcoming) :=
        hscan.trans (congrArg Except.ok hbefore)
      -- the mark of the end is the last token
      obtain rfl : rest = [] := by
        obtain ⟨body, final, hbody, -, hlexemes⟩ := Token.scan_eq_ok htext
        have hlast : body ++ [final] =
            (before ++ front ++ ⟨.openParen, start⟩ :: behind) ++ last :: rest := by
          rw [← hbody, htokens]
          simp
        exact Reader.eq_nil_of_eof hlast (fun token hmem hkind =>
          Token.not_isLexeme_eof (hkind ▸ hlexemes token hmem)) heof
      have hupcoming : failing.upcoming ≠ [] := by
        intro hnil
        have hlength := congrArg List.length htokens
        simp only [hnil, List.length_append, List.length_cons, List.length_nil] at hlength
        omega
      refine ⟨⟨first, upcoming, 1, limit⟩, failing, forms, before, front, behind, last, ?_, hforms,
        herror, hfailing, congrArg Except.ok hbefore, htokens, hbehind, heof,
        readWith_eq_ok_iff.2 ⟨_, Token.scan_cut htext hupcoming, hall⟩⟩
      rw [Reader.ofText, TokenStream.ofText, hscan]
      rfl

/-- Why a text has no forms. -/
def fault? (limit : Nat) (text : String) : Option TextError :=
  match readWith limit text with
  | .ok _ => none
  | .error cause => some cause

theorem readWith_eq_error {limit : Nat} {text : String} {cause : TextError}
    (h : fault? limit text = some cause) : readWith limit text = .error cause := by
  rw [fault?] at h
  split at h
  · cases h
  · next hread => rw [hread, Option.some.inj h]

/-- The parenthesis that is missed stands behind a quote mark, a list that is complete is in front
of it, and another one with a dot is behind it. -/
theorem missing_close_is_innermost_behind_mark :
    let text := "one (two (three) '(four (five . six) seven"
    readWith 4 text = .error (.read (.missingClose 18)) ∧
      ∃ (reader failing : Reader) (forms : List Datum) (front behind : List Token) (last : Token),
        Reader.ofText text 4 = .ok reader ∧ failing = reader.afterCalls forms.length ∧
        failing.current :: failing.upcoming = front ++ ⟨.openParen, 18⟩ :: (behind ++ [last]) ∧
        Balanced behind ∧
        readWith 4 (String.ofList (text.toList.take failing.current.offset)) = .ok forms := by
  intro text
  have herror : readWith 4 text = .error (.read (.missingClose 18)) :=
    readWith_eq_error (by decide +kernel)
  obtain ⟨reader, failing, forms, -, front, behind, last, hreader, -, -, hfailing, -, htokens,
    hbehind, -, hforms⟩ := missing_close_is_innermost herror
  exact ⟨herror, reader, failing, forms, front, behind, last, hreader, hfailing, htokens, hbehind,
    hforms⟩

end Datum

end SmallLisp
