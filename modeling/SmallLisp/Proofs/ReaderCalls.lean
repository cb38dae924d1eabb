import Mathlib.Logic.Function.Iterate
import SmallLisp.Proofs.Descent
import SmallLisp.Proofs.Scanning

/-!
# Calls of a reader

A reader may be asked for a form any number of times, also after it has answered with an error. It
then goes on at the token where it has stopped, which may be in the middle of a list. Wherever that
is, the reader looks at one of the tokens of its text, all tokens before that one were handed to
it, and the last one marks the end of the text. Since the mark is never taken, no token is asked
for behind it.

## Main results

* `Reader.advances_readOn` — reading leads forward along the tokens.
* `Reader.action_of_readOn_error` — an error comes from one of them.
* `Reader.readOn_ne_scan` — it never asks for more tokens than there are.
* `Reader.calls_make_headway` — what any number of calls do, and that reading all forms ends.
-/

namespace SmallLisp.Reader

/-- The reader after some calls, whatever they have answered. -/
def afterCalls (reader : Reader) (calls : Nat) : Reader :=
  (fun r : Reader => r.readForm.2)^[calls] reader

/-- The answer to the next call after some calls. -/
def answerAfter (reader : Reader) (calls : Nat) : Except TextError (Option Datum) :=
  (reader.afterCalls calls).readForm.1

/-- The reader looks at one of these tokens, and was handed all tokens up to that one. -/
def Along (tokens : List Token) (reader : Reader) : Prop :=
  ∃ passed, tokens = passed ++ reader.current :: reader.upcoming ∧
    reader.taken = passed.length + 1

/-- The second reader is the first one after taking some tokens. -/
def Advances (before after : Reader) : Prop :=
  after.limit = before.limit ∧
    ∃ between, before.current :: before.upcoming
      = between ++ after.current :: after.upcoming ∧ after.taken = before.taken + between.length

variable {reader before after : Reader} {tokens : List Token} {stack : List OpenForm}

theorem afterCalls_succ (reader : Reader) (calls : Nat) :
    reader.afterCalls (calls + 1) = (reader.afterCalls calls).readForm.2 :=
  Function.iterate_succ_apply' _ calls reader

theorem afterCalls_readForm (reader : Reader) (calls : Nat) :
    reader.readForm.2.afterCalls calls = reader.afterCalls (calls + 1) :=
  (Function.iterate_succ_apply _ calls reader).symm

theorem answerAfter_readForm (reader : Reader) (calls : Nat) :
    reader.readForm.2.answerAfter calls = reader.answerAfter (calls + 1) := by
  rw [answerAfter, afterCalls_readForm, answerAfter]

/-! ### Forward along the tokens -/

theorem Advances.refl (reader : Reader) : reader.Advances reader :=
  ⟨rfl, [], rfl, rfl⟩

theorem Advances.trans {last : Reader} (h : before.Advances after) (h' : after.Advances last) :
    before.Advances last := by
  obtain ⟨hlimit, between, htokens, htaken⟩ := h
  obtain ⟨hlimit', between', htokens', htaken'⟩ := h'
  refine ⟨hlimit'.trans hlimit, between ++ between', ?_, ?_⟩
  · rw [htokens, htokens', List.append_assoc]
  · rw [htaken', htaken, List.length_append, Nat.add_assoc]

/-- Reading leads forward along the tokens, however it ends. -/
theorem advances_readOn (reader : Reader) (stack : List OpenForm) :
    reader.Advances (reader.readOn stack).2 := by
  induction reader, stack using readOn_induction with
  | stop reader stack reason haction =>
      rw [readOn_of_stop haction]
      exact .refl reader
  | pastEnd reader stack next haction hupcoming =>
      rw [readOn_of_take_nil haction hupcoming]
      exact .refl reader
  | take reader stack next token upcoming haction hupcoming ih =>
      have hstep : reader.Advances ⟨token, upcoming, reader.taken + 1, reader.limit⟩ :=
        ⟨rfl, [reader.current], by rw [hupcoming]; rfl, rfl⟩
      rw [readOn_of_take haction hupcoming]
      rcases next with e | datum | inner
      · exact hstep
      · exact hstep
      · exact hstep.trans (ih inner rfl)

/-- **Where an error comes from.** Some tokens are taken, and the next one leads to the error. -/
theorem action_of_readOn_error {e : ReadError}
    (h : (reader.readOn stack).1 = .error (.read e)) :
    ∃ taken token behind inner, reader.current :: reader.upcoming = taken ++ token :: behind ∧
      Reads reader.limit stack taken (.within inner) ∧
      (action reader.limit inner token = .stop (some e) ∨
        action reader.limit inner token = .take (.error e)) := by
  induction reader, stack using readOn_induction with
  | stop reader stack reason haction =>
      rw [readOn_of_stop haction] at h
      obtain rfl := stopped_eq_error_iff.1 h
      exact ⟨[], reader.current, reader.upcoming, stack, rfl, .refl stack, .inl haction⟩
  | pastEnd reader stack next haction hupcoming =>
      rw [readOn_of_take_nil haction hupcoming] at h
      cases h
  | take reader stack next token upcoming haction hupcoming ih =>
      rw [readOn_of_take haction hupcoming] at h
      rcases next with e | datum | inner
      · cases h
        exact ⟨[], reader.current, reader.upcoming, stack, rfl, .refl stack, .inr haction⟩
      · cases h
      · obtain ⟨taken, last, behind, innermost, htokens, hreads, herror⟩ := ih inner rfl h
        refine ⟨reader.current :: taken, last, behind, innermost, ?_,
          .step (takes_of_action haction) hreads, herror⟩
        rw [hupcoming, htokens]
        rfl

theorem Along.advances (h : reader.Along tokens) (hadvances : reader.Advances after) :
    after.Along tokens := by
  obtain ⟨passed, rfl, htaken⟩ := h
  obtain ⟨-, between, hbetween, htaken'⟩ := hadvances
  refine ⟨passed ++ between, by rw [hbetween, List.append_assoc], ?_⟩
  rw [htaken', htaken, List.length_append]
  omega

theorem Along.taken_le (h : reader.Along tokens) : reader.taken ≤ tokens.length := by
  obtain ⟨passed, rfl, htaken⟩ := h
  simp only [List.length_append, List.length_cons]
  omega

theorem Along.length_upcoming_lt (h : reader.Along tokens) :
    reader.upcoming.length < tokens.length := by
  obtain ⟨passed, rfl, -⟩ := h
  simp only [List.length_append, List.length_cons]
  omega

theorem Advances.taken_le (h : before.Advances after) : before.taken ≤ after.taken := by
  obtain ⟨-, between, -, htaken⟩ := h
  omega

/-- A form that is read takes the reader further along. -/
theorem taken_lt_of_readForm {datum : Datum} (h : before.readForm = (.ok (some datum), after)) :
    before.taken < after.taken := by
  have hafter : (before.readOn []).2 = after := congrArg Prod.snd h
  obtain ⟨-, between, hbetween, htaken⟩ := hafter ▸ advances_readOn before []
  have hless := Reader.length_upcoming_lt h
  have hlength := congrArg List.length hbetween
  simp only [List.length_append, List.length_cons] at hlength
  omega

theorem advances_afterCalls (reader : Reader) (calls : Nat) :
    (reader.afterCalls calls).Advances (reader.afterCalls (calls + 1)) := by
  rw [afterCalls_succ]
  exact advances_readOn _ []

theorem Along.afterCalls (h : reader.Along tokens) (calls : Nat) :
    (reader.afterCalls calls).Along tokens := by
  induction calls with
  | zero => exact h
  | succ calls ih => exact ih.advances (advances_afterCalls reader calls)

/-! ### The end of the tokens -/

/-- The last token ahead marks the end of the text. -/
def HasEnd (reader : Reader) : Prop :=
  ∀ last ∈ (reader.current :: reader.upcoming).getLast?, last.kind = .eof

theorem exists_action_eq_stop (limit : Nat) (stack : List OpenForm) {token : Token}
    (h : token.kind = .eof) : ∃ reason, action limit stack token = .stop reason := by
  obtain ⟨kind, offset⟩ := token
  obtain rfl : kind = .eof := h
  rcases stack with _ | ⟨_ | _ | _ | _ | _, outer⟩ <;> exact ⟨_, rfl⟩

/-- The mark of the end is never taken, so no token is asked for behind it. -/
theorem readOn_ne_scan (h : reader.HasEnd) (stack : List OpenForm) (cause : ScanError) :
    (reader.readOn stack).1 ≠ .error (.scan cause) := by
  have hstopped : ∀ reason, stopped reason ≠ .error (.scan cause) := by
    rintro (_ | e) heq <;> cases heq
  induction reader, stack using readOn_induction with
  | stop reader stack reason haction =>
      rw [readOn_of_stop haction]
      exact hstopped reason
  | pastEnd reader stack next haction hupcoming =>
      have heof : reader.current.kind = .eof := h reader.current (by rw [hupcoming]; rfl)
      obtain ⟨reason, hstop⟩ := exists_action_eq_stop reader.limit stack heof
      rw [hstop] at haction
      cases haction
  | take reader stack next token upcoming haction hupcoming ih =>
      rw [readOn_of_take haction hupcoming]
      rcases next with e | datum | inner
      · simp [proceed]
      · simp [proceed]
      · exact ih inner rfl fun last hlast => h last (by rw [hupcoming]; simpa using hlast)

theorem readForm_ne_scan (h : reader.HasEnd) (cause : ScanError) :
    reader.readForm.1 ≠ .error (.scan cause) :=
  readOn_ne_scan h [] cause

theorem Along.hasEnd {body : List Token} {last : Token} (h : reader.Along (body ++ [last]))
    (hlast : last.kind = .eof) : reader.HasEnd := by
  obtain ⟨passed, htokens, -⟩ := h
  intro token htoken
  have hend := congrArg List.getLast? htokens
  rw [List.getLast?_concat, List.getLast?_append, Option.mem_def.1 htoken] at hend
  exact Option.some.inj hend ▸ hlast

/-- Nothing stands behind the mark of the end. -/
theorem eq_nil_of_eof {body before behind : List Token} {last token : Token}
    (htokens : body ++ [last] = before ++ token :: behind)
    (hbody : ∀ token ∈ body, token.kind ≠ .eof) (heof : token.kind = .eof) : behind = [] := by
  rcases List.eq_nil_or_concat behind with hnil | ⟨front, final, hconcat⟩
  · exact hnil
  · rw [hconcat, List.concat_eq_append, ← List.cons_append, ← List.append_assoc] at htokens
    obtain ⟨rfl, -⟩ := List.append_inj' htokens rfl
    exact absurd heof (hbody token (by simp))

/-- At the mark of the end all tokens were taken. -/
theorem Along.upcoming_eq_nil {body : List Token} {last : Token} (h : reader.Along (body ++ [last]))
    (hbody : ∀ token ∈ body, token.kind ≠ .eof) (heof : reader.current.kind = .eof) :
    reader.upcoming = [] ∧ reader.taken = (body ++ [last]).length := by
  obtain ⟨passed, htokens, htaken⟩ := h
  have hnil := eq_nil_of_eof htokens hbody heof
  refine ⟨hnil, ?_⟩
  rw [htaken, htokens, hnil, List.length_append]
  rfl

theorem readForm_fst_eq_none_iff : reader.readForm.1 = .ok none ↔ reader.current.kind = .eof := by
  constructor
  · intro h
    exact (eof_of_readWithin (Prod.ext h rfl)).2
  · intro h
    rw [readForm_of_eof h]

/-- At the end of the text every call is answered alike. -/
theorem answerAfter_of_eof (h : reader.current.kind = .eof) (calls : Nat) :
    reader.answerAfter calls = .ok none := by
  have hstays : reader.afterCalls calls = reader :=
    Function.iterate_fixed (congrArg Prod.snd (readForm_of_eof h)) calls
  rw [answerAfter, hstays, readForm_of_eof h]

theorem afterCalls_add (reader : Reader) (calls more : Nat) :
    (reader.afterCalls calls).afterCalls more = reader.afterCalls (calls + more) := by
  rw [Nat.add_comm]
  exact (Function.iterate_add_apply _ more calls reader).symm

/-! ### Reading all forms -/

/-- Reading all forms is calling until something else than a form is answered. -/
theorem readAllFrom_eq_calls (found : List Datum) (reader : Reader) :
    ∃ forms : List Datum, (∀ i datum, forms[i]? = some datum →
        reader.answerAfter i = .ok (some datum)) ∧
      (readAllFrom found reader = .ok (found.reverse ++ forms) ∧
          reader.answerAfter forms.length = .ok none ∨
        ∃ e, readAllFrom found reader = .error e ∧
          reader.answerAfter forms.length = .error e) := by
  fun_induction readAllFrom found reader with
  | case1 found reader e after hform =>
      refine ⟨[], (fun _ _ heq => by cases heq), .inr ⟨e, rfl, congrArg Prod.fst hform⟩⟩
  | case2 found reader after hform =>
      exact ⟨[], (fun _ _ heq => by cases heq),
        .inl ⟨(List.append_nil _).symm ▸ rfl, congrArg Prod.fst hform⟩⟩
  | case3 found reader datum after hform ih =>
      obtain ⟨forms, hforms, hends⟩ := ih
      have hafter : ∀ calls, after.answerAfter calls = reader.answerAfter (calls + 1) := by
        intro calls
        rw [← answerAfter_readForm, hform]
      refine ⟨datum :: forms, fun i other hother => ?_, ?_⟩
      · cases i with
        | zero =>
            obtain rfl := Option.some.inj hother
            exact congrArg Prod.fst hform
        | succ i => exact (hafter i).symm.trans (hforms i other hother)
      · rw [List.length_cons, ← hafter]
        simpa using hends

/-- Each form that is read takes at least one token. -/
theorem taken_add_le {forms : Nat}
    (h : ∀ i < forms, ∃ datum, reader.answerAfter i = .ok (some datum)) :
    reader.taken + forms ≤ (reader.afterCalls forms).taken := by
  induction forms with
  | zero => exact Nat.le_refl _
  | succ forms ih =>
      have hbefore := ih fun i hi => h i (Nat.lt_succ_of_lt hi)
      obtain ⟨datum, hdatum⟩ := h forms (Nat.lt_succ_self forms)
      have hless : (reader.afterCalls forms).taken < (reader.afterCalls (forms + 1)).taken := by
        rw [afterCalls_succ]
        exact taken_lt_of_readForm (Prod.ext hdatum rfl)
      omega

/-- A reader at the beginning of a text that can be scanned. -/
theorem exists_ofText {text : String} (h : Token.scan text = .ok tokens) (limit : Nat) :
    ∃ reader, ofText text limit = .ok reader ∧ reader.limit = limit ∧ reader.Along tokens := by
  obtain ⟨first, upcoming, rfl⟩ := Token.exists_cons_of_scan h
  refine ⟨⟨first, upcoming, 1, limit⟩, ?_, rfl, [], rfl, rfl⟩
  rw [ofText, TokenStream.ofText, h]
  rfl

/-- **A reader makes headway and never runs off its tokens.** Let a text have tokens. Then there is
a reader of it, and the following holds of every call, also of one after errors. An error that it
answers with is about the forms, never about tokens. The call is a recursive descent within the
limit whose counter of open constructs is nought before and afterwards. The reader is at a place
along the tokens and never moves backwards, and with a form it moves forward. Once it has answered
that there is nothing more, it always does. Reading all forms is a number of calls below the number
of tokens: it ends with the first error, or with all forms when every token up to the mark of the
end was taken. -/
theorem calls_make_headway {text : String} {tokens : List Token}
    (hscan : Token.scan text = .ok tokens) (limit : Nat) :
    ∃ reader, ofText text limit = .ok reader ∧ reader.limit = limit ∧
      (∀ calls,
        (∀ e, reader.answerAfter calls = .error e → ∃ cause, e = .read cause) ∧
        (∀ bound, tokens.length ≤ bound →
          Descent.outcome (Descent.form bound) ⟨reader.afterCalls calls, 0⟩
            = some (reader.answerAfter calls, ⟨reader.afterCalls (calls + 1), 0⟩)) ∧
        (reader.afterCalls calls).Along tokens ∧
        (reader.afterCalls calls).taken ≤ (reader.afterCalls (calls + 1)).taken ∧
        (∀ datum, reader.answerAfter calls = .ok (some datum) →
          (reader.afterCalls calls).taken < (reader.afterCalls (calls + 1)).taken) ∧
        (reader.answerAfter calls = .ok none →
          ∀ more, reader.answerAfter (calls + more) = .ok none)) ∧
      ∃ forms : List Datum, forms.length < tokens.length ∧
        (∀ i datum, forms[i]? = some datum → reader.answerAfter i = .ok (some datum)) ∧
        (reader.readAll = .ok forms ∧ reader.answerAfter forms.length = .ok none ∧
            (reader.afterCalls forms.length).current.kind = .eof ∧
            (reader.afterCalls forms.length).upcoming = [] ∧
            (reader.afterCalls forms.length).taken = tokens.length ∨
          ∃ cause, reader.readAll = .error (.read cause) ∧
            reader.answerAfter forms.length = .error (.read cause)) := by
  obtain ⟨body, last, rfl, hlast, hlexemes⟩ := Token.scan_eq_ok hscan
  have hbody : ∀ token ∈ body, token.kind ≠ .eof := fun token hmem heof =>
    Token.not_isLexeme_eof (heof ▸ hlexemes token hmem)
  obtain ⟨reader, hreader, hlimit, halong⟩ := exists_ofText hscan limit
  have herror : ∀ calls e, reader.answerAfter calls = .error e → ∃ cause, e = .read cause := by
    intro calls e heq
    cases e with
    | scan cause =>
        exact absurd heq (readForm_ne_scan ((halong.afterCalls calls).hasEnd hlast) cause)
    | read cause => exact ⟨cause, rfl⟩
  refine ⟨reader, hreader, hlimit, fun calls => ⟨herror calls, fun bound hbound => ?_,
    halong.afterCalls calls, (advances_afterCalls reader calls).taken_le, fun datum heq => ?_,
    fun heq more => ?_⟩, ?_⟩
  · rw [outcome_form (Nat.lt_of_lt_of_le (halong.afterCalls calls).length_upcoming_lt hbound),
      afterCalls_succ]
    rfl
  · rw [afterCalls_succ]
    exact taken_lt_of_readForm (Prod.ext heq rfl)
  · rw [answerAfter, ← afterCalls_add]
    exact answerAfter_of_eof (readForm_fst_eq_none_iff.1 heq) more
  · obtain ⟨forms, hforms, hends⟩ := readAllFrom_eq_calls [] reader
    have hless := taken_add_le fun i hi => ⟨forms[i], hforms i _ (List.getElem?_eq_getElem hi)⟩
    have hend := halong.afterCalls forms.length
    have htaken := hend.taken_le
    obtain ⟨passed, -, hstart⟩ := halong
    refine ⟨forms, by omega, hforms, ?_⟩
    rcases hends with ⟨hall, hnone⟩ | ⟨e, hall, herr⟩
    · have heof := readForm_fst_eq_none_iff.1 hnone
      obtain ⟨hupcoming, hcount⟩ := hend.upcoming_eq_nil hbody heof
      exact .inl ⟨hall, hnone, heof, hupcoming, hcount⟩
    · obtain ⟨cause, rfl⟩ := herror forms.length e herr
      exact .inr ⟨cause, hall, herr⟩

/-- The first call stops in the middle of a list, and the second one goes on there. -/
theorem calls_make_headway_inside_list :
    let text := "(a . b c) d"
    ∃ tokens reader, Token.scan text = .ok tokens ∧ ofText text 3 = .ok reader ∧
      (List.range 3).map (fun calls => (reader.answerAfter calls).toOption)
        = [none, some (some (.symbol (.ofString "c"))), none] ∧
      ∀ calls, (reader.afterCalls calls).Along tokens ∧
        ∀ e, reader.answerAfter calls = .error e → ∃ cause, e = .read cause := by
  intro text
  have hanswers : (Token.scan text).toOption.isSome = true ∧
      ((ofText text 3).toOption.map fun reader =>
          (List.range 3).map fun calls => (reader.answerAfter calls).toOption)
        = some [none, some (some (.symbol (.ofString "c"))), none] := by
    decide +kernel
  obtain ⟨tokens, htokens⟩ := Option.isSome_iff_exists.1 hanswers.1
  obtain ⟨reader, hreader, -, hcalls, -⟩ := calls_make_headway (eq_ok_of_toOption htokens) 3
  have hthree := hanswers.2
  rw [hreader] at hthree
  exact ⟨tokens, reader, eq_ok_of_toOption htokens, hreader, Option.some.inj hthree,
    fun calls => ⟨(hcalls calls).2.2.1, (hcalls calls).1⟩⟩

end SmallLisp.Reader
