import SmallLisp.Proofs.Reading

/-!
# Reading by recursive descent

The reader that runs keeps the open constructs on a stack. This module reads the same tokens by
functions that call each other: one for a form, one for the items of a list, and one each for
what stands behind a quote mark, a rest marker and a dot. Nothing is on a stack here. Instead a
counter says how many constructs the reading is within; a construct counts from its beginning and
ceases to count when its reading ends, with a form or with an error.

The two agree on all tokens, also where they stop in the middle of a construct, and the counter is
always back where it was. A bound on nested calls keeps the functions structural; one that exceeds
the number of tokens ahead is never reached.

## Main results

* `Reader.Descent.form_leads` — reading a form and handing it to the open constructs is what the
  stack does.
* `Reader.outcome_form` — a whole call, which begins and ends with a counter of nought.
-/

namespace SmallLisp.Reader

/-- A reader and the number of constructs that it is within. -/
structure Descent where
  reader : Reader
  depth : Nat

/-- Readings with a result of some type or an error. There is no outcome at all if the bound on
nested calls is reached. -/
abbrev DescentM := ExceptT TextError (StateT Descent Option)

namespace Descent

variable {α β : Type}

/-- The outcome of a reading, and where it leaves off. -/
def outcome (reading : DescentM α) (s : Descent) : Option (Except TextError α × Descent) :=
  reading.run s

/-- The bound on nested calls is reached. -/
def exhausted : DescentM α :=
  ExceptT.mk fun _ => none

/-- The token that the reader looks at. -/
def current : DescentM Token := do
  return (← get).reader.current

/-- Take a token. -/
def advance : DescentM Unit := ExceptT.mk fun s =>
  match s.reader.upcoming with
  | [] => some (.error (.scan (.pastEnd s.reader.taken)), s)
  | token :: upcoming =>
      some (.ok (), ⟨⟨token, upcoming, s.reader.taken + 1, s.reader.limit⟩, s.depth⟩)

/-- Read within one more construct, unless the limit is reached. The construct is left however the
reading ends. -/
def nested (offset : Nat) (reading : DescentM α) : DescentM α := ExceptT.mk fun s =>
  if s.reader.limit ≤ s.depth then some (.error (.read (.tooDeep s.reader.limit offset)), s)
  else (outcome reading ⟨s.reader, s.depth + 1⟩).map fun result =>
    (result.1, ⟨result.2.reader, result.2.depth - 1⟩)

/-- A form that must be there. -/
def required (cause : ReadError) (form : DescentM (Option Datum)) : DescentM Datum := do
  match ← form with
  | some datum => pure datum
  | none => throw (.read cause)

/-- A datum that is a token of its own. -/
def atom (datum : Datum) : DescentM Datum := do
  advance
  return datum

/-- A quote mark and the form behind it. -/
def marked (form : DescentM (Option Datum)) (offset : Nat) (mark : QuoteMark) : DescentM Datum :=
  nested offset do
    advance
    return mark.apply (← required (.endAfterMark mark) form)

/-- The list that a rest marker and the symbol behind it stand for. -/
def restList (offset : Nat) : Datum → DescentM Datum
  | .symbol name => pure (.list [.symbol .restMarker, .symbol name])
  | other => throw (.read (.restNotSymbol offset other))

/-- A rest marker and the symbol behind it. -/
def rest (form : DescentM (Option Datum)) (offset : Nat) : DescentM Datum := do
  advance
  restList offset (← nested offset (required .endAfterRest form))

/-- The end of a list whose last part has been read. -/
def closeList (found : List Datum) (tail : Datum) : DescentM Datum := do
  if (← current).kind = .closeParen then
    advance
    return .listWithTail found.reverse tail
  else throw (.read .formsAfterCdr)

/-- The items of a list behind those found so far (the last one first), through its end. -/
def items (form : DescentM (Option Datum)) (start : Nat) : Nat → List Datum → DescentM Datum
  | 0, _ => exhausted
  | bound + 1, found => do
      let token ← current
      match token.kind with
      | .closeParen => do
          advance
          return .list found.reverse
      | .eof => throw (.read (.missingClose start))
      | .dot =>
          if found = [] then throw (.read (.dotWithoutCar token.offset))
          else do
            advance
            closeList found (← required .endAfterDot form)
      | _ => do
          let datum ← required .endAfterOpen form
          items form start bound (datum :: found)

/-- A list, from its parenthesis on. -/
def list (form : DescentM (Option Datum)) (bound offset : Nat) : DescentM Datum := do
  advance
  nested offset (items form offset bound [])

/-- A form, or nothing at the end of the text. -/
def form : Nat → DescentM (Option Datum)
  | 0 => exhausted
  | bound + 1 => do
      let token ← current
      match token.kind with
      | .eof => return none
      | .integer value => return some (← atom (.integer value))
      | .symbol name => return some (← atom (.ofName name))
      | .quote => return some (← marked (form bound) token.offset .quote)
      | .quasiquote => return some (← marked (form bound) token.offset .quasiquote)
      | .unquote => return some (← marked (form bound) token.offset .unquote)
      | .unquoteSplicing => return some (← marked (form bound) token.offset .unquoteSplicing)
      | .rest => return some (← rest (form bound) token.offset)
      | .openParen => return some (← list (form bound) bound token.offset)
      | .closeParen => throw (.read (.unexpectedClose token.offset))
      | .dot => throw (.read (.strayDot token.offset))

/-! ### How readings run -/

theorem outcome_bind (f : DescentM α) (k : α → DescentM β) (s : Descent) :
    outcome (f >>= k) s = (outcome f s).bind fun result =>
      match result.1 with
      | .ok a => outcome (k a) result.2
      | .error e => some (.error e, result.2) := by
  show ((f.run s).bind fun result => ExceptT.bindCont k result.1 result.2) = _
  unfold outcome
  cases f.run s with
  | none => rfl
  | some result => rcases result with ⟨_ | _, after⟩ <;> rfl

theorem outcome_bind_ok {f : DescentM α} {s after : Descent} {a : α}
    (h : outcome f s = some (.ok a, after)) (k : α → DescentM β) :
    outcome (f >>= k) s = outcome (k a) after := by
  rw [outcome_bind, h]
  rfl

theorem outcome_bind_error {f : DescentM α} {s after : Descent} {e : TextError}
    (h : outcome f s = some (.error e, after)) (k : α → DescentM β) :
    outcome (f >>= k) s = some (.error e, after) := by
  rw [outcome_bind, h]
  rfl

theorem outcome_current_bind (k : Token → DescentM β) (s : Descent) :
    outcome (current >>= k) s = outcome (k s.reader.current) s :=
  outcome_bind_ok (f := current) rfl k

theorem outcome_nested_of_lt {offset : Nat} {reading : DescentM α} {s after : Descent}
    {result : Except TextError α} (hlimit : s.depth < s.reader.limit)
    (h : outcome reading ⟨s.reader, s.depth + 1⟩ = some (result, after)) :
    outcome (nested offset reading) s = some (result, ⟨after.reader, after.depth - 1⟩) := by
  show (if s.reader.limit ≤ s.depth then _ else _) = _
  rw [if_neg (Nat.not_le.2 hlimit), h]
  rfl

theorem outcome_nested_of_le {offset : Nat} {reading : DescentM α} {s : Descent}
    (hlimit : s.reader.limit ≤ s.depth) :
    outcome (nested offset reading) s
      = some (.error (.read (.tooDeep s.reader.limit offset)), s) := by
  show (if s.reader.limit ≤ s.depth then _ else _) = _
  rw [if_pos hlimit]

end Descent

/-! ### What the stack does with a datum -/

/-- Read on with these constructs open. -/
def readOn (reader : Reader) (stack : List OpenForm) : Except TextError (Option Datum) × Reader :=
  readWithin reader.limit stack reader.current reader.taken reader.upcoming

/-- What comes of a reader that has taken a token. -/
def proceed (reader : Reader) :
    Except ReadError Progress → Except TextError (Option Datum) × Reader
  | .error e => (.error (.read e), reader)
  | .ok (.form datum) => (.ok (some datum), reader)
  | .ok (.within stack) => reader.readOn stack

/-- What comes of a reader with these constructs open when a datum or an error is handed to them. -/
def deliver (reader : Reader) (stack : List OpenForm) :
    Except TextError Datum → Except TextError (Option Datum) × Reader
  | .error e => (.error e, reader)
  | .ok datum => reader.proceed (complete stack datum)

/-- The same when there may be no datum, at the end of the text. -/
def resume (reader : Reader) (stack : List OpenForm) :
    Except TextError (Option Datum) → Except TextError (Option Datum) × Reader
  | .error e => (.error e, reader)
  | .ok none => (stopped (endWithin stack), reader)
  | .ok (some datum) => reader.proceed (complete stack datum)

theorem resume_nil (reader : Reader) (answer : Except TextError (Option Datum)) :
    reader.resume [] answer = (answer, reader) := by
  rcases answer with e | _ | datum <;> rfl

variable {reader : Reader} {stack inner outer : List OpenForm} {token : Token}

theorem readOn_of_stop {reason : Option ReadError}
    (h : action reader.limit stack reader.current = .stop reason) :
    reader.readOn stack = (stopped reason, reader) := by
  obtain ⟨current, upcoming, taken, limit⟩ := reader
  cases upcoming <;> simp only [readOn, readWithin, h]

theorem readOn_of_take_nil {next : Except ReadError Progress}
    (h : action reader.limit stack reader.current = .take next) (hupcoming : reader.upcoming = []) :
    reader.readOn stack = (.error (.scan (.pastEnd reader.taken)), reader) := by
  obtain ⟨current, upcoming, taken, limit⟩ := reader
  obtain rfl : upcoming = [] := hupcoming
  simp only [readOn, readWithin, h]

theorem readOn_of_take {next : Except ReadError Progress} {upcoming : List Token}
    (h : action reader.limit stack reader.current = .take next)
    (hupcoming : reader.upcoming = token :: upcoming) :
    reader.readOn stack
      = (⟨token, upcoming, reader.taken + 1, reader.limit⟩ : Reader).proceed next := by
  obtain ⟨current, _, taken, limit⟩ := reader
  obtain rfl := hupcoming
  simp only [readOn, readWithin, h]
  rcases next with e | datum | stack <;> rfl

/-- What holds of every reading is shown by going along the tokens: the reader stops, or has no
token to take, or takes one and may go on. -/
@[elab_as_elim]
theorem readOn_induction {motive : Reader → List OpenForm → Prop}
    (stop : ∀ reader stack reason,
      action reader.limit stack reader.current = .stop reason → motive reader stack)
    (pastEnd : ∀ reader stack next, action reader.limit stack reader.current = .take next →
      reader.upcoming = [] → motive reader stack)
    (take : ∀ reader stack next token upcoming,
      action reader.limit stack reader.current = .take next → reader.upcoming = token :: upcoming →
      (∀ inner, next = .ok (.within inner) →
        motive ⟨token, upcoming, reader.taken + 1, reader.limit⟩ inner) → motive reader stack)
    (reader : Reader) (stack : List OpenForm) : motive reader stack := by
  obtain ⟨current, upcoming, taken, limit⟩ := reader
  induction upcoming generalizing stack current taken with
  | nil =>
      cases haction : action limit stack current with
      | stop reason => exact stop _ stack reason haction
      | take next => exact pastEnd _ stack next haction rfl
  | cons token upcoming ih =>
      cases haction : action limit stack current with
      | stop reason => exact stop _ stack reason haction
      | take next =>
          exact take _ stack next token upcoming haction rfl fun inner _ =>
            ih inner token (taken + 1)

/-! ### Where a form is expected -/

/-- A form is what comes next with these constructs open, if there is one: the innermost of them has
room for it, and within a list the token neither ends the items nor is a dot. -/
def Expects (stack : List OpenForm) (kind : TokenKind) : Prop :=
  Admits stack ∧
    ∀ start items outer, stack = .list start items :: outer → kind ≠ .closeParen ∧ kind ≠ .dot

theorem expects_nil (kind : TokenKind) : Expects [] kind :=
  ⟨(fun _ _ _ heq => by cases heq), (fun _ _ _ heq => by cases heq)⟩

theorem expects_cons {opened : OpenForm} (hlist : ∀ start items, opened ≠ .list start items)
    (hclosing : ∀ items tail, opened ≠ .closing items tail) (kind : TokenKind) :
    Expects (opened :: outer) kind :=
  ⟨fun _ _ _ heq => hclosing _ _ (List.cons.inj heq).1,
    fun _ _ _ heq => absurd (List.cons.inj heq).1 (hlist _ _)⟩

/-- What a reader does where it expects a form. -/
def formAction (limit : Nat) (stack : List OpenForm) (token : Token) : Action :=
  match token.kind with
  | .closeParen => .stop (some (.unexpectedClose token.offset))
  | .dot => .stop (some (.strayDot token.offset))
  | .eof => .stop (endWithin stack)
  | .integer value => .take (complete stack (.integer value))
  | .symbol name => .take (complete stack (.ofName name))
  | .quote => enterMark limit token.offset stack .quote
  | .quasiquote => enterMark limit token.offset stack .quasiquote
  | .unquote => enterMark limit token.offset stack .unquote
  | .unquoteSplicing => enterMark limit token.offset stack .unquoteSplicing
  | .rest => .take (enter limit token.offset stack (.rest token.offset))
  | .openParen => .take (enter limit token.offset stack (.list token.offset []))

theorem action_of_expects (limit : Nat) (h : Expects stack token.kind) :
    action limit stack token = formAction limit stack token := by
  obtain ⟨kind, offset⟩ := token
  obtain ⟨hadmits, hlist⟩ := h
  rcases stack with _ | ⟨⟨start, items⟩ | items | ⟨items, tail⟩ | mark | start, outer⟩
  · cases kind <;> rfl
  · obtain ⟨hclose, hdot⟩ := hlist start items outer rfl
    cases kind <;> first | rfl | exact absurd rfl hclose | exact absurd rfl hdot
  · cases kind <;> rfl
  · exact absurd rfl (hadmits items tail outer)
  · cases kind <;> rfl
  · cases kind <;> rfl

namespace Descent

variable {s : Descent} {room depth bound : Nat} {target : Except TextError (Option Datum) × Reader}

/-- The reading leaves the counter as it was, and what it hands to the constructs `outer` comes to
the target. With a datum it leaves fewer tokens ahead than `room`. -/
def Delivers (reading : DescentM Datum) (s : Descent) (room : Nat) (outer : List OpenForm)
    (target : Except TextError (Option Datum) × Reader) : Prop :=
  ∃ answer after, outcome reading s = some (answer, ⟨after, s.depth⟩) ∧
    (∀ datum, answer = .ok datum →
      after.limit = s.reader.limit ∧ after.upcoming.length < room) ∧
    target = after.deliver outer answer

/-- The same for a form that need not be there at the end of the text, as what the stack does with
the tokens. -/
def Leads (reading : DescentM (Option Datum)) (s : Descent) (stack : List OpenForm) : Prop :=
  ∃ answer after, outcome reading s = some (answer, ⟨after, s.depth⟩) ∧
    (∀ datum, answer = .ok (some datum) →
      after.limit = s.reader.limit ∧ after.upcoming.length < s.reader.upcoming.length) ∧
    (answer = .ok none → s.reader.current.kind = .eof) ∧
    s.reader.readOn stack = after.resume stack answer

/-- An error goes through all open constructs. -/
theorem Leads.of_error {reading : DescentM (Option Datum)} {e : TextError} {after : Reader}
    (h : outcome reading s = some (.error e, ⟨after, s.depth⟩))
    (htarget : s.reader.readOn stack = (.error e, after)) : Leads reading s stack :=
  ⟨.error e, after, h, (fun _ heq => by cases heq), (fun heq => by cases heq), htarget⟩

theorem Leads.current {k : Token → DescentM (Option Datum)}
    (h : Leads (k s.reader.current) s stack) : Leads (current >>= k) s stack := by
  obtain ⟨answer, after, hout, hroom, hnone, htarget⟩ := h
  exact ⟨answer, after, (outcome_current_bind k s).trans hout, hroom, hnone, htarget⟩

namespace Delivers

theorem of_error {reading : DescentM Datum} {e : TextError} {after : Reader}
    (h : outcome reading s = some (.error e, ⟨after, s.depth⟩)) :
    Delivers reading s room outer (.error e, after) :=
  ⟨.error e, after, h, (fun _ heq => by cases heq), rfl⟩

theorem pure {datum : Datum} (h : s.reader.upcoming.length < room) :
    Delivers (pure datum) s room outer (s.reader.proceed (complete outer datum)) :=
  ⟨.ok datum, s.reader, rfl, fun _ _ => ⟨rfl, h⟩, rfl⟩

theorem throw (e : TextError) : Delivers (throw e) s room outer (.error e, s.reader) :=
  of_error rfl

theorem mono {reading : DescentM Datum} {room' : Nat} (h : Delivers reading s room outer target)
    (hroom : room ≤ room') : Delivers reading s room' outer target := by
  obtain ⟨answer, after, hout, hless, htarget⟩ := h
  exact ⟨answer, after, hout,
    fun datum heq => ⟨(hless datum heq).1, Nat.lt_of_lt_of_le (hless datum heq).2 hroom⟩, htarget⟩

theorem bind {reading : DescentM Datum} {k : Datum → DescentM Datum} {room' : Nat}
    (h : Delivers reading s room inner target)
    (hk : ∀ datum after, after.limit = s.reader.limit → after.upcoming.length < room →
      Delivers (k datum) ⟨after, s.depth⟩ room' outer (after.proceed (complete inner datum))) :
    Delivers (reading >>= k) s room' outer target := by
  obtain ⟨answer, after, hout, hroom, rfl⟩ := h
  cases answer with
  | error e => exact of_error (outcome_bind_error hout k)
  | ok datum =>
      obtain ⟨hlimit, hless⟩ := hroom datum rfl
      obtain ⟨answer, last, hout', hroom', htarget⟩ := hk datum after hlimit hless
      refine ⟨answer, last, (outcome_bind_ok hout k).trans hout', ?_, htarget⟩
      intro found heq
      exact ⟨(hroom' found heq).1.trans hlimit, (hroom' found heq).2⟩

/-- Taking a token is what the stack does too. -/
theorem advance {next : Except ReadError Progress} {k : DescentM Datum}
    (haction : action reader.limit stack reader.current = .take next)
    (hk : ∀ token upcoming, reader.upcoming.length = upcoming.length + 1 →
      Delivers k ⟨⟨token, upcoming, reader.taken + 1, reader.limit⟩, depth⟩ room outer
        ((⟨token, upcoming, reader.taken + 1, reader.limit⟩ : Reader).proceed next)) :
    Delivers (do advance; k) ⟨reader, depth⟩ room outer (reader.readOn stack) := by
  obtain ⟨current, _ | ⟨token, upcoming⟩, taken, limit⟩ := reader
  · rw [readOn_of_take_nil haction rfl]
    exact of_error rfl
  · rw [readOn_of_take haction rfl]
    exact hk token upcoming rfl

theorem current {k : Token → DescentM Datum}
    (h : Delivers (k s.reader.current) s room outer target) :
    Delivers (current >>= k) s room outer target := by
  obtain ⟨answer, after, hout, hroom, htarget⟩ := h
  exact ⟨answer, after, (outcome_current_bind k s).trans hout, hroom, htarget⟩

/-- Within one more construct the counter is one higher, and afterwards it is back. -/
theorem nested {offset : Nat} {reading : DescentM Datum} (hlimit : s.depth < s.reader.limit)
    (h : Delivers reading ⟨s.reader, s.depth + 1⟩ room outer target) :
    Delivers (nested offset reading) s room outer target := by
  obtain ⟨answer, after, hout, hroom, htarget⟩ := h
  exact ⟨answer, after, outcome_nested_of_lt hlimit hout, hroom, htarget⟩

theorem nested_of_le {offset : Nat} {reading : DescentM Datum} (hlimit : s.reader.limit ≤ s.depth) :
    Delivers (Descent.nested offset reading) s room outer
      (.error (.read (.tooDeep s.reader.limit offset)), s.reader) :=
  of_error (outcome_nested_of_le hlimit)

/-- A datum that is there is a form that may be there. -/
theorem leads {reading : DescentM Datum}
    (h : Delivers reading s s.reader.upcoming.length stack (s.reader.readOn stack)) :
    Leads (do return some (← reading)) s stack := by
  obtain ⟨answer, after, hout, hroom, htarget⟩ := h
  cases answer with
  | error e => exact .of_error (outcome_bind_error hout _) htarget
  | ok datum =>
      exact ⟨.ok (some datum), after, outcome_bind_ok hout _, (fun _ _ => hroom datum rfl),
        (fun heq => by cases heq), htarget⟩

end Delivers

/-- If a form must be there, the end of the text is an error of the innermost construct. -/
theorem Leads.required {form : DescentM (Option Datum)} {cause : ReadError}
    (h : Leads form s stack)
    (hcause : s.reader.current.kind = .eof → endWithin stack = some cause) :
    Delivers (required cause form) s s.reader.upcoming.length stack (s.reader.readOn stack) := by
  obtain ⟨answer, after, hout, hroom, hnone, htarget⟩ := h
  rw [htarget]
  rcases answer with e | _ | datum
  · exact .of_error (outcome_bind_error hout _)
  · rw [resume, hcause (hnone rfl)]
    exact .of_error (outcome_bind_ok hout _)
  · exact ⟨.ok datum, after, outcome_bind_ok hout _, fun _ _ => hroom datum rfl, rfl⟩

/-! ### The functions and the stack -/

theorem atom_delivers {datum : Datum}
    (haction : action reader.limit stack reader.current = .take (complete stack datum)) :
    Delivers (atom datum) ⟨reader, depth⟩ reader.upcoming.length stack (reader.readOn stack) :=
  .advance haction fun _ upcoming hlength =>
    .pure (show upcoming.length < reader.upcoming.length by omega)

/-- The construct of a rest marker takes a symbol only. -/
theorem restList_delivers {offset : Nat} {datum : Datum} (h : reader.upcoming.length < room) :
    Delivers (restList offset datum) ⟨reader, depth⟩ room stack
      (reader.proceed (complete (.rest offset :: stack) datum)) := by
  cases datum with
  | symbol name => exact .pure h
  | _ => exact .throw _

/-- Behind its last part a list must be closed. -/
theorem closeList_delivers {found : List Datum} {tail : Datum}
    (h : reader.upcoming.length ≤ room) :
    Delivers (closeList found tail) ⟨reader, depth⟩ room outer
      (reader.readOn (.closing found tail :: outer)) := by
  refine .current ?_
  split
  · next hclose =>
      have haction : action reader.limit (.closing found tail :: outer) reader.current
          = .take (complete outer (.listWithTail found.reverse tail)) := by
        simp only [action, show reader.current.kind = .closeParen from hclose]
      exact .advance haction fun token upcoming hlength =>
        .pure (show upcoming.length < room by omega)
  · next hclose =>
      have haction : action reader.limit (.closing found tail :: outer) reader.current
          = .stop (some .formsAfterCdr) := by
        obtain ⟨⟨kind, offset⟩, upcoming, taken, limit⟩ := reader
        cases kind <;> first | rfl | exact absurd rfl hclose
      rw [readOn_of_stop haction]
      exact .throw _

section

variable {form : DescentM (Option Datum)}
  (hform : ∀ (reader : Reader) (stack : List OpenForm), reader.upcoming.length < bound →
    Expects stack reader.current.kind → Leads form ⟨reader, stack.length⟩ stack)
include hform

theorem marked_delivers {mark : QuoteMark} (hbound : reader.upcoming.length < bound + 1)
    (haction : action reader.limit stack reader.current
      = enterMark reader.limit reader.current.offset stack mark) :
    Delivers (marked form reader.current.offset mark) ⟨reader, stack.length⟩
      reader.upcoming.length stack (reader.readOn stack) := by
  rcases Nat.lt_or_ge stack.length reader.limit with hlimit | hlimit
  · rw [enterMark_eq_take_iff.2 ⟨hlimit, rfl⟩] at haction
    refine .nested hlimit (.advance haction fun token upcoming hlength => ?_)
    replace hlength : reader.upcoming.length = upcoming.length + 1 := hlength
    have hexpects : Expects (.marked mark :: stack) token.kind :=
      expects_cons (by simp) (by simp) _
    have hleads := hform ⟨token, upcoming, reader.taken + 1, reader.limit⟩ _
      (show upcoming.length < bound by omega) hexpects
    refine .bind (hleads.required fun _ => rfl) fun datum after _ hless => .pure ?_
    exact Nat.lt_trans hless (show upcoming.length < reader.upcoming.length by omega)
  · rw [enterMark, enter, if_pos hlimit] at haction
    rw [readOn_of_stop haction]
    exact .nested_of_le hlimit

theorem rest_delivers (hbound : reader.upcoming.length < bound + 1)
    (haction : action reader.limit stack reader.current
      = .take (enter reader.limit reader.current.offset stack (.rest reader.current.offset))) :
    Delivers (rest form reader.current.offset) ⟨reader, stack.length⟩
      reader.upcoming.length stack (reader.readOn stack) := by
  refine .advance haction fun token upcoming hlength => ?_
  rw [enter]
  split
  · next hlimit =>
      have hdeep : Delivers (nested reader.current.offset (required .endAfterRest form))
          ⟨⟨token, upcoming, reader.taken + 1, reader.limit⟩, stack.length⟩ 0 [] _ :=
        .nested_of_le hlimit
      exact .bind hdeep fun _ _ _ hless => absurd hless (Nat.not_lt_zero _)
  · next hlimit =>
      have hexpects : Expects (.rest reader.current.offset :: stack) token.kind :=
        expects_cons (by simp) (by simp) _
      have hleads := hform ⟨token, upcoming, reader.taken + 1, reader.limit⟩ _
        (show upcoming.length < bound by omega) hexpects
      refine .bind (.nested (Nat.not_le.1 hlimit) (hleads.required fun _ => rfl))
        fun datum after _ hless => ?_
      refine restList_delivers (Nat.lt_trans hless ?_)
      exact show upcoming.length < reader.upcoming.length by omega

/-- The items of a list are what the construct of the list collects. -/
theorem items_delivers (start count : Nat) (found : List Datum)
    (hcount : reader.upcoming.length < count) (hbound : reader.upcoming.length < bound) :
    Delivers (items form start count found) ⟨reader, outer.length + 1⟩ reader.upcoming.length outer
      (reader.readOn (.list start found :: outer)) := by
  induction count generalizing reader found with
  | zero => exact absurd hcount (Nat.not_lt_zero _)
  | succ count ih =>
      refine .current ?_
      dsimp only
      split
      · next hkind =>
          have haction : action reader.limit (.list start found :: outer) reader.current
              = .take (complete outer (.list found.reverse)) := by
            simp only [action, hkind]
          exact .advance haction fun token upcoming hlength =>
            .pure (show upcoming.length < reader.upcoming.length by omega)
      · next hkind =>
          have haction : action reader.limit (.list start found :: outer) reader.current
              = .stop (some (.missingClose start)) := by
            simp only [action, hkind, endWithin]
          rw [readOn_of_stop haction]
          exact .throw _
      · next hkind =>
          split
          · next hfound =>
              have haction : action reader.limit (.list start found :: outer) reader.current
                  = .stop (some (.dotWithoutCar reader.current.offset)) := by
                simp only [action, hkind, hfound]
              rw [readOn_of_stop haction]
              exact .throw _
          · next hfound =>
              have haction : action reader.limit (.list start found :: outer) reader.current
                  = .take (.ok (.within (.dotted found :: outer))) :=
                action_of_takes (.dot hkind hfound)
              refine .advance haction fun token upcoming hlength => ?_
              have hexpects : Expects (.dotted found :: outer) token.kind :=
                expects_cons (by simp) (by simp) _
              have hleads := hform ⟨token, upcoming, reader.taken + 1, reader.limit⟩ _
                (show upcoming.length < bound by omega) hexpects
              refine .bind (hleads.required fun _ => rfl) fun tail after _ hless => ?_
              have hless : after.upcoming.length < upcoming.length := hless
              exact closeList_delivers (by omega)
      · next hclose heof hdot =>
          have hexpects : Expects (.list start found :: outer) reader.current.kind :=
            ⟨(fun _ _ _ heq => by cases heq), fun _ _ _ _ => ⟨hclose, hdot⟩⟩
          have hleads := hform reader _ hbound hexpects
          -- a form is there, since the text goes on
          refine .bind (hleads.required fun hend => absurd hend heof)
            fun datum after hlimit hless => ?_
          have hless : after.upcoming.length < reader.upcoming.length := hless
          -- the list has one item more and goes on where the form ends
          exact .mono (ih (datum :: found) (by omega) (by omega)) (Nat.le_of_lt hless)

theorem list_delivers (hbound : reader.upcoming.length < bound + 1)
    (haction : action reader.limit stack reader.current
      = .take (enter reader.limit reader.current.offset stack (.list reader.current.offset []))) :
    Delivers (list form bound reader.current.offset) ⟨reader, stack.length⟩
      reader.upcoming.length stack (reader.readOn stack) := by
  refine .advance haction fun token upcoming hlength => ?_
  rw [enter]
  split
  · next hlimit => exact .nested_of_le hlimit
  · next hlimit =>
      have hbound : upcoming.length < bound := by omega
      refine .nested (Nat.not_le.1 hlimit) ?_
      exact .mono (items_delivers hform reader.current.offset bound [] hbound hbound)
        (show upcoming.length ≤ reader.upcoming.length by omega)

end

/-- **A form by recursive descent** is what the stack makes of the tokens, whatever is open. -/
theorem form_leads (bound : Nat) (reader : Reader) (stack : List OpenForm)
    (hbound : reader.upcoming.length < bound) (hexpects : Expects stack reader.current.kind) :
    Leads (form bound) ⟨reader, stack.length⟩ stack := by
  induction bound generalizing reader stack with
  | zero => exact absurd hbound (Nat.not_lt_zero _)
  | succ bound ih =>
      have haction := action_of_expects reader.limit hexpects
      refine .current ?_
      dsimp only
      unfold formAction at haction
      split <;> rename_i hkind <;> simp only [hkind] at haction
      · exact ⟨.ok none, reader, rfl, (fun _ heq => by cases heq), (fun _ => hkind),
          readOn_of_stop haction⟩
      · exact (atom_delivers haction).leads
      · exact (atom_delivers haction).leads
      · exact (marked_delivers ih hbound haction).leads
      · exact (marked_delivers ih hbound haction).leads
      · exact (marked_delivers ih hbound haction).leads
      · exact (marked_delivers ih hbound haction).leads
      · exact (rest_delivers ih hbound haction).leads
      · exact (list_delivers ih hbound haction).leads
      · exact .of_error rfl (readOn_of_stop haction)
      · exact .of_error rfl (readOn_of_stop haction)

end Descent

/-- **A call of the reader** is a recursive descent that starts and ends with a counter of
nought. -/
theorem outcome_form {bound : Nat} (h : reader.upcoming.length < bound) :
    Descent.outcome (Descent.form bound) ⟨reader, 0⟩
      = some (reader.readForm.1, ⟨reader.readForm.2, 0⟩) := by
  obtain ⟨answer, after, hout, -, -, htarget⟩ :=
    Descent.form_leads bound reader [] h (expects_nil reader.current.kind)
  have hread : reader.readForm = (answer, after) := htarget.trans (resume_nil after answer)
  rw [hread]
  exact hout

end SmallLisp.Reader
