import SmallLisp.Reader

/-!
# What a reader reads

Taking a token changes the open constructs in one of five ways: the token is a datum of its own,
opens a construct, closes a list, closes a list behind its last part, or is the dot of a list.
A form is read by taking tokens until one of them completes it, and a text is read by reading
one form after the other up to its end. These relations say the same as the reader that runs;
what holds of every form read from a text is shown by induction along them.

## Main results

* `Reader.takes_of_action`, `Reader.action_of_takes` — the five ways to take a token.
* `Reader.action_eq_stop`, `Reader.action_eq_take_error` — the errors that a token may lead to.
* `Datum.readWith_eq_ok_iff` — reading a text succeeds with some forms exactly when its tokens
  are those forms, one behind the other, up to the end.
-/

namespace SmallLisp

/-- The datum that a token is on its own. -/
def TokenKind.datum? : TokenKind → Option Datum
  | .integer value => some (.integer value)
  | .symbol name => some (.ofName name)
  | _ => none

/-- The construct that a token opens. -/
def Token.opens? (token : Token) : Option OpenForm :=
  match token.kind with
  | .openParen => some (.list token.offset [])
  | .quote => some (.marked .quote)
  | .quasiquote => some (.marked .quasiquote)
  | .unquote => some (.marked .unquote)
  | .unquoteSplicing => some (.marked .unquoteSplicing)
  | .rest => some (.rest token.offset)
  | _ => none

namespace Reader

variable {limit taken : Nat} {stack outer : List OpenForm} {token current : Token}
  {tokens upcoming : List Token} {datum : Datum} {next : Progress}

/-- The innermost open construct has room for a form. -/
def Admits (stack : List OpenForm) : Prop :=
  ∀ items tail outer, stack ≠ .closing items tail :: outer

/-! ### Taking a token -/

/-- The token can be taken with these constructs open, and then reading goes on like this. -/
inductive Takes (limit : Nat) : List OpenForm → Token → Progress → Prop
  | datum {stack : List OpenForm} {token : Token} {datum : Datum} {next : Progress} :
      token.kind.datum? = some datum → complete stack datum = .ok next →
      Takes limit stack token next
  | opening {stack : List OpenForm} {token : Token} {opened : OpenForm} :
      token.opens? = some opened → Admits stack → stack.length < limit →
      Takes limit stack token (.within (opened :: stack))
  | close {start : Nat} {items : List Datum} {outer : List OpenForm} {token : Token}
      {next : Progress} :
      token.kind = .closeParen → complete outer (.list items.reverse) = .ok next →
      Takes limit (.list start items :: outer) token next
  | closeDotted {items : List Datum} {tail : Datum} {outer : List OpenForm} {token : Token}
      {next : Progress} :
      token.kind = .closeParen → complete outer (.listWithTail items.reverse tail) = .ok next →
      Takes limit (.closing items tail :: outer) token next
  | dot {start : Nat} {items : List Datum} {outer : List OpenForm} {token : Token} :
      token.kind = .dot → items ≠ [] →
      Takes limit (.list start items :: outer) token (.within (.dotted items :: outer))

theorem enter_eq_ok_iff {offset : Nat} {opened : OpenForm} :
    enter limit offset stack opened = .ok next ↔
      stack.length < limit ∧ next = .within (opened :: stack) := by
  unfold enter
  split
  · exact ⟨nofun, fun h => absurd h.1 (by omega)⟩
  · constructor
    · intro h
      exact ⟨by omega, (Except.ok.inj h).symm⟩
    · rintro ⟨-, rfl⟩
      rfl

theorem enterMark_eq_take_iff {offset : Nat} {mark : QuoteMark} :
    enterMark limit offset stack mark = .take (.ok next) ↔
      stack.length < limit ∧ next = .within (.marked mark :: stack) := by
  have henter : enter limit offset stack (.marked mark) = .ok next ↔ _ := enter_eq_ok_iff
  rw [← henter, enterMark]
  split <;> simp_all

theorem takes_of_action (h : action limit stack token = .take (.ok next)) :
    Takes limit stack token next := by
  have hmark : ∀ {mark : QuoteMark}, token.opens? = some (.marked mark) → Admits stack →
      enterMark limit token.offset stack mark = .take (.ok next) →
      Takes limit stack token next := by
    intro mark hopens hadmits henter
    obtain ⟨hroom, rfl⟩ := enterMark_eq_take_iff.1 henter
    exact .opening hopens hadmits hroom
  have henter : ∀ {opened : OpenForm}, token.opens? = some opened → Admits stack →
      enter limit token.offset stack opened = .ok next → Takes limit stack token next := by
    intro opened hopens hadmits henter
    obtain ⟨hroom, rfl⟩ := enter_eq_ok_iff.1 henter
    exact .opening hopens hadmits hroom
  obtain ⟨kind, offset⟩ := token
  unfold action at h
  dsimp only at h
  split at h
  · exact .closeDotted rfl (Action.take.inj h)
  · cases h
  · exact .close rfl (Action.take.inj h)
  · cases h
  · next hitems =>
      obtain rfl := Except.ok.inj (Action.take.inj h)
      exact .dot rfl hitems
  · cases h
  · cases h
  · cases h
  · exact .datum rfl (Action.take.inj h)
  · exact .datum rfl (Action.take.inj h)
  · next hadmits => exact hmark rfl hadmits h
  · next hadmits => exact hmark rfl hadmits h
  · next hadmits => exact hmark rfl hadmits h
  · next hadmits => exact hmark rfl hadmits h
  · next hadmits => exact henter rfl hadmits (Action.take.inj h)
  · next hadmits => exact henter rfl hadmits (Action.take.inj h)

theorem action_of_takes (h : Takes limit stack token next) :
    action limit stack token = .take (.ok next) := by
  obtain ⟨kind, offset⟩ := token
  cases h with
  | datum hdatum hnext =>
      cases kind <;> cases hdatum <;> rcases stack with _ | ⟨_ | _ | _ | _ | _, outer⟩ <;>
        first | exact congrArg Action.take hnext | cases hnext
  | opening hopens hadmits hroom =>
      have henter : ∀ {opened}, enter limit offset stack opened = .ok (.within (opened :: stack)) :=
        enter_eq_ok_iff.2 ⟨hroom, rfl⟩
      have hmark : ∀ {mark}, enterMark limit offset stack mark
          = .take (.ok (.within (.marked mark :: stack))) := enterMark_eq_take_iff.2 ⟨hroom, rfl⟩
      cases kind <;> cases hopens <;> rcases stack with _ | ⟨_ | _ | _ | _ | _, outer⟩ <;>
        first
        | exact hmark
        | exact congrArg Action.take henter
        | exact absurd rfl (hadmits _ _ _)
  | close hclose hnext =>
      obtain rfl := hclose
      exact congrArg Action.take hnext
  | closeDotted hclose hnext =>
      obtain rfl := hclose
      exact congrArg Action.take hnext
  | dot hdot hitems =>
      obtain rfl := hdot
      obtain ⟨first, rest, rfl⟩ := List.exists_cons_of_ne_nil hitems
      rfl

/-! ### Reading one form -/

/-- Taking the tokens one after the other, with the constructs open at first, comes to this. -/
inductive Reads (limit : Nat) : List OpenForm → List Token → Progress → Prop
  | refl (stack : List OpenForm) : Reads limit stack [] (.within stack)
  | form {stack : List OpenForm} {token : Token} {datum : Datum} :
      Takes limit stack token (.form datum) → Reads limit stack [token] (.form datum)
  | step {stack inner : List OpenForm} {token : Token} {tokens : List Token} {next : Progress} :
      Takes limit stack token (.within inner) → Reads limit inner tokens next →
      Reads limit stack (token :: tokens) next

theorem Reads.single (h : Takes limit stack token next) : Reads limit stack [token] next := by
  cases next with
  | form datum => exact .form h
  | within inner => exact .step h (.refl inner)

theorem Reads.append {inner : List OpenForm} {more : List Token}
    (h : Reads limit stack tokens (.within inner)) (hmore : Reads limit inner more next) :
    Reads limit stack (tokens ++ more) next := by
  generalize hprogress : Progress.within inner = progress at h
  induction h with
  | refl =>
      obtain rfl := Progress.within.inj hprogress
      exact hmore
  | form => cases hprogress
  | step htakes _ ih => exact .step htakes (ih hprogress)

theorem reads_of_readWithin {reader : Reader}
    (h : readWithin limit stack current taken upcoming = (.ok (some datum), reader)) :
    ∃ tokens, current :: upcoming = tokens ++ reader.current :: reader.upcoming ∧
      Reads limit stack tokens (.form datum) ∧ reader.limit = limit := by
  induction upcoming generalizing stack current taken with
  | nil =>
      unfold readWithin at h
      split at h <;> simp [stopped_ne_some] at h
  | cons token upcoming ih =>
      unfold readWithin at h
      split at h
      · simp [stopped_ne_some] at h
      · simp at h
      · next found haction =>
          simp only [Prod.mk.injEq, Except.ok.injEq, Option.some.injEq] at h
          obtain ⟨rfl, rfl⟩ := h
          exact ⟨[current], rfl, .form (takes_of_action haction), rfl⟩
      · next inner haction =>
          obtain ⟨tokens, htokens, hreads, hlimit⟩ := ih h
          exact ⟨current :: tokens, by rw [htokens]; rfl,
            .step (takes_of_action haction) hreads, hlimit⟩

theorem readWithin_of_reads (h : Reads limit stack tokens (.form datum)) {rest : List Token}
    (htokens : current :: upcoming = tokens ++ token :: rest) :
    readWithin limit stack current taken upcoming
      = (.ok (some datum), ⟨token, rest, taken + tokens.length, limit⟩) := by
  generalize hprogress : Progress.form datum = progress at h
  induction h generalizing current upcoming taken with
  | refl => cases hprogress
  | form htakes =>
      obtain ⟨rfl, rfl⟩ := List.cons.inj htokens
      obtain rfl := Progress.form.inj hprogress
      simp [readWithin, action_of_takes htakes]
  | @step stack inner first tokens next htakes _ ih =>
      obtain ⟨rfl, hupcoming⟩ := List.cons.inj htokens
      cases upcoming with
      | nil => simp at hupcoming
      | cons second upcoming =>
          rw [readWithin, action_of_takes htakes]
          dsimp only
          rw [ih hupcoming hprogress, List.length_cons, Nat.add_right_comm, Nat.add_assoc]

/-! ### The end of the text -/

theorem complete_eq_error {e : ReadError} (h : complete stack datum = .error e) :
    e = .formsAfterCdr ∨ ∃ start got, e = .restNotSymbol start got := by
  fun_induction complete stack datum with
  | case1 => cases h
  | case2 => cases h
  | case3 => cases h
  | case4 => exact .inl (Except.error.inj h).symm
  | case5 _ _ _ ih => exact ih h
  | case6 _ _ _ ih => exact ih h
  | case7 => exact .inr ⟨_, _, (Except.error.inj h).symm⟩

/-- Reading goes on only within some construct. -/
theorem ne_nil_of_complete (h : complete stack datum = .ok (.within outer)) : outer ≠ [] := by
  fun_induction complete stack datum with
  | case1 => cases h
  | case2 | case3 =>
      obtain rfl := Progress.within.inj (Except.ok.inj h)
      exact List.cons_ne_nil _ _
  | case4 => cases h
  | case5 _ _ _ ih => exact ih h
  | case6 _ _ _ ih => exact ih h
  | case7 => cases h

theorem Takes.within_ne_nil (h : Takes limit stack token (.within outer)) : outer ≠ [] := by
  cases h with
  | datum _ hnext => exact ne_nil_of_complete hnext
  | opening => exact List.cons_ne_nil _ _
  | close _ hnext => exact ne_nil_of_complete hnext
  | closeDotted _ hnext => exact ne_nil_of_complete hnext
  | dot => exact List.cons_ne_nil _ _

theorem enter_eq_error {offset : Nat} {opened : OpenForm} {e : ReadError}
    (h : enter limit offset stack opened = .error e) : e = .tooDeep limit offset := by
  unfold enter at h
  split at h
  · exact (Except.error.inj h).symm
  · cases h

theorem enterMark_eq_stop {offset : Nat} {mark : QuoteMark} {reason : Option ReadError}
    (h : enterMark limit offset stack mark = .stop reason) :
    reason = some (.tooDeep limit offset) := by
  unfold enterMark at h
  split at h
  · next e henter =>
      obtain rfl := Action.stop.inj h
      exact congrArg some (enter_eq_error henter)
  · cases h

/-- **Why a token is left.** The text ends there, or the token may not stand there. -/
theorem action_eq_stop {reason : Option ReadError} (h : action limit stack token = .stop reason) :
    token.kind = .eof ∧ reason = endWithin stack ∨ reason = some .formsAfterCdr ∨
      reason = some (.dotWithoutCar token.offset) ∨ reason = some (.unexpectedClose token.offset) ∨
      reason = some (.strayDot token.offset) ∨ reason = some (.tooDeep limit token.offset) := by
  obtain ⟨kind, offset⟩ := token
  unfold action at h
  dsimp only at h ⊢
  split at h
  case h_2 => exact .inr (.inl (Action.stop.inj h).symm)
  case h_4 => exact .inr (.inr (.inl (Action.stop.inj h).symm))
  case h_6 => exact .inr (.inr (.inr (.inl (Action.stop.inj h).symm)))
  case h_7 => exact .inr (.inr (.inr (.inr (.inl (Action.stop.inj h).symm))))
  case h_8 => exact .inl ⟨rfl, (Action.stop.inj h).symm⟩
  case h_11 | h_12 | h_13 | h_14 =>
    exact .inr (.inr (.inr (.inr (.inr (enterMark_eq_stop h)))))
  all_goals cases h

/-- **What may be wrong with a token that is taken.** A form that it ends has no place there, or it
opens more than the limit allows. -/
theorem action_eq_take_error {e : ReadError}
    (h : action limit stack token = .take (.error e)) :
    e = .formsAfterCdr ∨ (∃ start got, e = .restNotSymbol start got) ∨
      e = .tooDeep limit token.offset := by
  have hcomplete : ∀ {stack datum}, Action.take (complete stack datum) = .take (.error e) →
      e = .formsAfterCdr ∨ (∃ start got, e = .restNotSymbol start got) ∨
        e = .tooDeep limit token.offset :=
    fun htake => or_assoc.1 (.inl (complete_eq_error (Action.take.inj htake)))
  have hmark : ∀ mark, enterMark limit token.offset stack mark ≠ .take (.error e) := by
    intro mark htake
    unfold enterMark at htake
    split at htake <;> cases htake
  unfold action at h
  split at h
  case h_1 | h_3 | h_9 | h_10 => exact hcomplete h
  case h_11 | h_12 | h_13 | h_14 => exact absurd h (hmark _)
  case h_15 | h_16 => exact .inr (.inr (enter_eq_error (Action.take.inj h)))
  all_goals cases h

theorem action_eq_stop_none_iff :
    action limit stack token = .stop none ↔ stack = [] ∧ token.kind = .eof := by
  constructor
  · intro h
    rcases action_eq_stop h with ⟨heof, hend⟩ | h | h | h | h | h
    · refine ⟨?_, heof⟩
      rcases stack with _ | ⟨_ | _ | _ | _ | _, outer⟩ <;> first | rfl | cases hend
    all_goals cases h
  · rintro ⟨rfl, heof⟩
    obtain ⟨kind, offset⟩ := token
    obtain rfl := heof
    rfl

theorem stopped_eq_none_iff {reason : Option ReadError} :
    stopped reason = .ok none ↔ reason = none := by
  cases reason <;> simp [stopped]

theorem stopped_eq_error_iff {reason : Option ReadError} {e : ReadError} :
    stopped reason = .error (.read e) ↔ reason = some e := by
  cases reason <;> simp [stopped]

theorem eof_of_readWithin {after : Reader}
    (h : readWithin limit stack current taken upcoming = (.ok none, after)) :
    stack = [] ∧ current.kind = .eof := by
  induction upcoming generalizing stack current taken with
  | nil =>
      unfold readWithin at h
      split at h
      · next reason haction =>
          obtain rfl := stopped_eq_none_iff.1 (congrArg Prod.fst h)
          exact action_eq_stop_none_iff.1 haction
      · simp at h
  | cons token upcoming ih =>
      unfold readWithin at h
      split at h
      · next reason haction =>
          obtain rfl := stopped_eq_none_iff.1 (congrArg Prod.fst h)
          exact action_eq_stop_none_iff.1 haction
      · simp at h
      · simp at h
      · next inner haction =>
          exact absurd (ih h).1 (takes_of_action haction).within_ne_nil

/-- At the end of the text there is nothing more to read. -/
theorem readForm_of_eof {reader : Reader} (h : reader.current.kind = .eof) :
    reader.readForm = (.ok none, reader) := by
  have haction : action reader.limit [] reader.current = .stop none :=
    action_eq_stop_none_iff.2 ⟨rfl, h⟩
  obtain ⟨current, upcoming, taken, limit⟩ := reader
  cases upcoming <;> simp_all [readForm, readWithin, stopped]

/-! ### Reading a text -/

/-- The tokens are these forms, one behind the other, up to the end of the text. -/
inductive ReadsAll (limit : Nat) : List Token → List Datum → Prop
  | eof {token : Token} {rest : List Token} :
      token.kind = .eof → ReadsAll limit (token :: rest) []
  | form {tokens rest : List Token} {datum : Datum} {forms : List Datum} :
      Reads limit [] tokens (.form datum) → ReadsAll limit rest forms →
      ReadsAll limit (tokens ++ rest) (datum :: forms)

theorem readsAll_of_readAllFrom {found forms : List Datum} {reader : Reader}
    (h : readAllFrom found reader = .ok forms) :
    ∃ more, forms = found.reverse ++ more ∧
      ReadsAll reader.limit (reader.current :: reader.upcoming) more := by
  fun_induction readAllFrom found reader with
  | case1 => cases h
  | case2 found reader after hform =>
      obtain rfl := Except.ok.inj h
      exact ⟨[], by simp, .eof (eof_of_readWithin hform).2⟩
  | case3 found reader datum after hform ih =>
      obtain ⟨more, rfl, hall⟩ := ih h
      obtain ⟨tokens, htokens, hreads, hlimit⟩ := reads_of_readWithin hform
      refine ⟨datum :: more, by simp, ?_⟩
      rw [htokens]
      exact .form hreads (hlimit ▸ hall)

theorem ReadsAll.ne_nil {forms : List Datum} (h : ReadsAll limit tokens forms) : tokens ≠ [] := by
  induction h with
  | eof => exact List.cons_ne_nil _ _
  | form _ _ ih => exact List.append_ne_nil_of_right_ne_nil _ ih

/-- If all of the tokens but a last one that marks the end are one form, the form is read from
them. -/
theorem ReadsAll.reads_of_single {last : Token} (h : ReadsAll limit (tokens ++ [last]) [datum])
    (htokens : ∀ token ∈ tokens, token.kind ≠ .eof) : Reads limit [] tokens (.form datum) := by
  generalize hall : tokens ++ [last] = all at h
  cases h with
  | @form before rest _ _ hreads hrest =>
      cases hrest with
      | @eof token rest heof =>
          rcases List.append_eq_append_iff.1 hall with
            ⟨between, hbefore, hlast⟩ | ⟨between, rfl, hend⟩
          · obtain rfl : between = [] := by
              cases between with
              | nil => rfl
              | cons first between => simp at hlast
            rw [List.append_nil] at hbefore
            exact hbefore ▸ hreads
          · cases between with
            | nil => rwa [List.append_nil]
            | cons first between =>
                obtain ⟨rfl, -⟩ := List.cons.inj hend
                exact absurd heof (htokens _ (by simp))

theorem readAllFrom_of_readsAll {found forms : List Datum} {reader : Reader} {tokens : List Token}
    (h : ReadsAll limit tokens forms) (hlimit : reader.limit = limit)
    (htokens : reader.current :: reader.upcoming = tokens) :
    readAllFrom found reader = .ok (found.reverse ++ forms) := by
  induction h generalizing reader found with
  | eof heof =>
      obtain ⟨rfl, -⟩ := List.cons.inj htokens
      have hform := readForm_of_eof heof
      rw [readAllFrom]
      split <;> simp_all
  | @form tokens rest datum forms hreads hrest ih =>
      obtain ⟨token, rest, rfl⟩ := List.exists_cons_of_ne_nil hrest.ne_nil
      subst hlimit
      have hform : reader.readForm = _ := readWithin_of_reads hreads htokens
      rw [readAllFrom]
      split
      · simp_all
      · simp_all
      · next found' after hfound =>
          rw [hform] at hfound
          simp only [Prod.mk.injEq, Except.ok.injEq, Option.some.injEq] at hfound
          obtain ⟨rfl, rfl⟩ := hfound
          refine Eq.trans (ih ?_ ?_) ?_
          · rfl
          · rfl
          · simp

end Reader

namespace Datum

theorem readWith_of_scan_error {text : String} {cause : ScanError}
    (h : Token.scan text = .error cause) (limit : Nat) :
    readWith limit text = .error (.scan cause) := by
  rw [readWith, Reader.ofText, TokenStream.ofText, h]
  rfl

theorem readWith_of_scan {text : String} {first : Token} {upcoming : List Token}
    (h : Token.scan text = .ok (first :: upcoming)) (limit : Nat) :
    readWith limit text = Reader.readAll ⟨first, upcoming, 1, limit⟩ := by
  rw [readWith, Reader.ofText, TokenStream.ofText, h]
  rfl

/-- **Reading a text.** The forms of a text are those that its tokens are, one behind the other,
up to the end. -/
theorem readWith_eq_ok_iff {limit : Nat} {text : String} {forms : List Datum} :
    readWith limit text = .ok forms ↔
      ∃ tokens, Token.scan text = .ok tokens ∧ Reader.ReadsAll limit tokens forms := by
  unfold readWith Reader.ofText TokenStream.ofText
  cases hscan : Token.scan text with
  | error e => simp [Except.map, Except.bind]
  | ok tokens =>
      cases tokens with
      | nil =>
          constructor
          · intro h
            simp [Except.map, Except.bind, Reader.ofStream, TokenStream.next] at h
          · rintro ⟨tokens, htokens, hall⟩
            obtain rfl := Except.ok.inj htokens
            exact absurd rfl hall.ne_nil
      | cons token upcoming =>
          constructor
          · intro h
            obtain ⟨more, rfl, hall⟩ := Reader.readsAll_of_readAllFrom h
            exact ⟨_, rfl, hall⟩
          · rintro ⟨tokens, htokens, hall⟩
            obtain rfl := Except.ok.inj htokens
            exact Reader.readAllFrom_of_readsAll hall rfl rfl

/-- A text is one form exactly when reading all of it gives that form alone. -/
theorem readOne_eq_ok_iff {text : String} {datum : Datum} :
    readOne text = .ok datum ↔
      ∃ tokens, Token.scan text = .ok tokens ∧
        Reader.ReadsAll Reader.defaultLimit tokens [datum] := by
  rw [← readWith_eq_ok_iff, readOne, read]
  split <;> simp_all

end Datum

end SmallLisp
