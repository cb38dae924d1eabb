import SmallLisp.Proofs.Trimming
import SmallLisp.Proofs.Sessions

/-!
# The results of a line

A text may be given to a session as a line. Then it is trimmed first, and an error is not the answer
but stands behind the results of the forms before it. Otherwise a line is evaluated like any text:
the same forms in the same order, up to the same error, with the same effects.

## Main results

* `Session.attemptEach_reports` — forms evaluated one by one with an error as the last result.
* `Session.line_evaluates_as_text` — a line and the same text.
-/

namespace SmallLisp

/-- The error about a text with `count` characters more in front of it. -/
def Error.shift (count : Nat) : Error → Error
  | text cause => text (cause.shift count)
  | cause => cause

theorem Error.heading_shift (count : Nat) (error : Error) :
    (error.shift count).heading = error.heading := by
  rcases error with ⟨_ | _⟩ | _ | _ | _ | _ | _ | _ <;> rfl

/-- The error of the trimmed text as it stands in the text: the blanks in front count if the text
cannot be read. -/
def Error.placed (text : String) (cause : Error) : Error :=
  if (Datum.read text).isOk then cause else cause.shift (Token.leadingBlanks text)

theorem Error.heading_placed (text : String) (cause : Error) :
    (cause.placed text).heading = cause.heading := by
  rw [placed]
  split
  · rfl
  · exact cause.heading_shift _

/-- What ends the trimmed text as it stands in the text. -/
def Halt.placed (text : String) : Halt → Halt
  | .error cause => .error (cause.placed text)
  | .exhausted => .exhausted

namespace Halt

variable {α : Type} {text : String} {result : Except Halt α}

theorem placed_of_read (h : (Datum.read text).isOk = true) :
    result.mapError (placed text) = result := by
  rcases result with (cause | _) | a
  · show Except.error (Halt.error (cause.placed text)) = _
    rw [Error.placed, if_pos h]
  · rfl
  · rfl

theorem placed_eq_ok_iff {a : α} : result.mapError (placed text) = .ok a ↔ result = .ok a := by
  cases result with
  | ok found => exact Iff.rfl
  | error halt => exact iff_of_false (fun heq => by cases heq) (fun heq => by cases heq)

theorem placed_eq_error_iff {error : Error} :
    result.mapError (placed text) = .error (.error error) ↔
      ∃ cause, result = .error (.error cause) ∧ error = cause.placed text := by
  constructor
  · intro h
    rcases result with (cause | _) | a <;> cases h
    exact ⟨cause, rfl, rfl⟩
  · rintro ⟨cause, rfl, rfl⟩
    rfl

theorem placed_eq_exhausted_iff :
    result.mapError (placed text) = .error .exhausted ↔ result = .error .exhausted := by
  rcases result with (cause | _) | a
  · exact iff_of_false (fun heq => by cases heq) (fun heq => by cases heq)
  · exact iff_of_true rfl rfl
  · exact iff_of_false (fun heq => by cases heq) (fun heq => by cases heq)

end Halt

theorem EvalM.outcome_bind_pure {α β : Type} (f : EvalM α) (g : α → β) (held : List Hold)
    (machine : Machine) :
    (f >>= fun a => pure (g a)).outcome held machine
      = ((f.outcome held machine).1.map g, (f.outcome held machine).2) := by
  rw [outcome_bind]
  rcases f.outcome held machine with ⟨_ | _, _⟩ <;> rfl

namespace Session

open EvalM

/-- The results of forms that are handed out one by one: all values, or the values up to an error
and the error. -/
inductive Reports : Except Halt (List Value) → Except Halt (List (Except Error Value)) → Prop
  | all (values : List Value) : Reports (.ok values) (.ok (values.map .ok))
  | upTo (values : List Value) (cause : Error) :
      Reports (.error (.error cause)) (.ok (values.map .ok ++ [.error cause]))
  | exhausted : Reports (.error .exhausted) (.error .exhausted)

variable (session : Session) (fuel : Nat)

theorem Reports.cons {result : Except Halt (List Value)}
    {report : Except Halt (List (Except Error Value))} (h : Reports result report) (value : Value) :
    Reports (result.map (value :: ·)) (report.map (.ok value :: ·)) := by
  cases h with
  | all values => exact .all (value :: values)
  | upTo values cause => exact .upTo (value :: values) cause
  | exhausted => exact .exhausted

theorem error_notMem_values (values : List Value) (cause : Error) :
    (.error cause : Except Error Value) ∉ values.map .ok := by
  simp

theorem Reports.eq_ok_iff {result : Except Halt (List Value)}
    {report : Except Halt (List (Except Error Value))} (h : Reports result report)
    (values : List Value) : report = .ok (values.map .ok) ↔ result = .ok values := by
  have hinj : Function.Injective (List.map (Except.ok : Value → Except Error Value)) :=
    List.map_injective_iff.2 fun _ _ heq => Except.ok.inj heq
  cases h with
  | all found => rw [Except.ok.injEq, Except.ok.injEq, hinj.eq_iff]
  | upTo found cause =>
      refine iff_of_false (fun heq => ?_) (fun heq => by cases heq)
      exact error_notMem_values values cause (Except.ok.inj heq ▸ by simp)
  | exhausted => exact iff_of_false (fun heq => by cases heq) (fun heq => by cases heq)

theorem Reports.eq_error_iff {result : Except Halt (List Value)}
    {report : Except Halt (List (Except Error Value))} (h : Reports result report)
    (cause : Error) :
    result = .error (.error cause) ↔
      ∃ values : List Value, report = .ok (values.map .ok ++ [.error cause]) := by
  cases h with
  | all found =>
      refine iff_of_false (fun heq => by cases heq) ?_
      rintro ⟨values, heq⟩
      exact error_notMem_values found cause (Except.ok.inj heq ▸ by simp)
  | upTo found last =>
      constructor
      · intro heq
        cases heq
        exact ⟨found, rfl⟩
      · rintro ⟨values, heq⟩
        have hlast := (List.append_inj' (Except.ok.inj heq) rfl).2
        cases hlast
        rfl
  | exhausted =>
      refine iff_of_false (fun heq => by cases heq) ?_
      rintro ⟨values, heq⟩
      cases heq

theorem Reports.mem_error_iff {result : Except Halt (List Value)}
    {report : Except Halt (List (Except Error Value))} (h : Reports result report)
    (cause : Error) :
    (∃ results, report = .ok results ∧ .error cause ∈ results) ↔
      result = .error (.error cause) := by
  cases h with
  | all found =>
      refine iff_of_false ?_ (fun heq => by cases heq)
      rintro ⟨results, heq, hmem⟩
      exact error_notMem_values found cause (Except.ok.inj heq ▸ hmem)
  | upTo found last =>
      have hmem : (.error cause : Except Error Value) ∈ found.map .ok ++ [.error last] ↔
          last = cause := by simp [eq_comm]
      simp [hmem]
  | exhausted =>
      refine iff_of_false ?_ (fun heq => by cases heq)
      rintro ⟨results, heq, -⟩
      cases heq

theorem Reports.eq_exhausted_iff {result : Except Halt (List Value)}
    {report : Except Halt (List (Except Error Value))} (h : Reports result report) :
    result = .error .exhausted ↔ report = .error .exhausted := by
  cases h with
  | all found => exact iff_of_false (fun heq => by cases heq) (fun heq => by cases heq)
  | upTo found cause => exact iff_of_false (fun heq => by cases heq) (fun heq => by cases heq)
  | exhausted => exact iff_of_true rfl rfl

/-- **Forms one by one.** Evaluating forms up to an error has the results of evaluating them, with
the error behind them, and the same effects. -/
theorem attemptEach_reports (forms : List Value) (held : List Hold) (machine : Machine) :
    let each := Eval.evalEach (Eval.run session fuel) session.globals forms
    Reports (each.outcome held machine).1
        ((session.attemptEach fuel forms).outcome held machine).1 ∧
      ((session.attemptEach fuel forms).outcome held machine).2
        = (each.outcome held machine).2 := by
  intro each
  induction forms generalizing held machine with
  | nil => exact ⟨.all [], rfl⟩
  | cons form rest ih =>
      simp only [each, attemptEach, Eval.evalEach]
      rcases hvalue : (Eval.run session fuel (.eval form session.globals)).outcome held machine with
        ⟨(cause | _) | value, after⟩
      · have hattempt : (attempt (Eval.run session fuel (.eval form session.globals))).outcome held
            machine = (.ok (.error cause), after) := by rw [outcome_attempt, hvalue]
        rw [outcome_bind_error hvalue, outcome_bind_ok hattempt]
        exact ⟨.upTo [] cause, rfl⟩
      · have hattempt : (attempt (Eval.run session fuel (.eval form session.globals))).outcome held
            machine = (.error .exhausted, after) := by rw [outcome_attempt, hvalue]
        rw [outcome_bind_error hvalue, outcome_bind_error hattempt]
        exact ⟨.exhausted, rfl⟩
      · have hattempt : (attempt (Eval.run session fuel (.eval form session.globals))).outcome held
            machine = (.ok (.ok value), after) := by rw [outcome_attempt, hvalue]
        rw [outcome_bind_ok hvalue, outcome_bind_ok hattempt]
        dsimp only
        rw [outcome_bind_pure, outcome_bind_pure]
        obtain ⟨hreports, hafter⟩ := ih (.values [value] :: held) after
        exact ⟨hreports.cons value, hafter⟩

theorem evalUntilError_reports (data : List Datum) (held : List Hold) (machine : Machine) :
    Reports ((session.evalForms fuel data).outcome held machine).1
        ((session.evalUntilError fuel data).outcome held machine).1 ∧
      ((session.evalUntilError fuel data).outcome held machine).2
        = ((session.evalForms fuel data).outcome held machine).2 := by
  rw [evalForms, evalUntilError, outcome_bind_ok (outcome_update _ _ _),
    outcome_bind_ok (outcome_update _ _ _)]
  exact session.attemptEach_reports fuel _ _ _

theorem evalLine_reports (text : String) (held : List Hold) (machine : Machine) :
    Reports ((session.evalText fuel (Text.trim text)).outcome held machine).1
        ((session.evalLine fuel text).outcome held machine).1 ∧
      ((session.evalLine fuel text).outcome held machine).2
        = ((session.evalText fuel (Text.trim text)).outcome held machine).2 := by
  cases hline : Datum.read (Text.trim text) with
  | error fault =>
      rw [evalText, evalLine, hline]
      exact ⟨.upTo [] (.text fault), rfl⟩
  | ok forms =>
      rw [session.evalText_eq fuel hline, evalLine, hline]
      exact session.evalUntilError_reports fuel forms held machine

/-- The blanks around a text matter only for where an error in it stands. -/
theorem evalText_trim (text : String) (held : List Hold) (machine : Machine) :
    (session.evalText fuel text).outcome held machine =
      (((session.evalText fuel (Text.trim text)).outcome held machine).1.mapError
          (Halt.placed text),
        ((session.evalText fuel (Text.trim text)).outcome held machine).2) := by
  rcases Datum.read_trim text with ⟨forms, hline, hforms⟩ | ⟨fault, hline, hfault⟩
  · have hread : (Datum.read text).isOk = true := by rw [hforms, Except.isOk, Except.toBool]
    rw [Halt.placed_of_read hread, session.evalText_eq fuel hforms,
      session.evalText_eq fuel hline]
  · have hplaced : (Error.text fault).placed text
        = .text (fault.shift (Token.leadingBlanks text)) := by
      rw [Error.placed, hfault]
      rfl
    rw [evalText, evalText, hfault, hline, outcome_fail, outcome_fail, ← hplaced]
    rfl

/-- **A line and a text evaluate alike.** The results of a line are all values exactly if the text
has these values. If the text ends in an error, that error is the last result of the line and the
only one; it reads the same but for the blanks in front of a text that cannot be read, which a line
does not count. The session, its store and the census are afterwards the same. -/
theorem line_evaluates_as_text (held : List Hold) (store : Store) (census : Option Census)
    (text : String) :
    let line := session.execute held store census (session.evalLine fuel text)
    let whole := session.execute held store census (session.evalText fuel text)
    line.2 = whole.2 ∧
      (∀ values : List Value, line.1 = .ok (values.map .ok) ↔ whole.1 = .ok values) ∧
      (∀ error, whole.1 = .error (.error error) ↔
        ∃ (values : List Value) (cause : Error),
          line.1 = .ok (values.map .ok ++ [.error cause]) ∧
          error.heading = cause.heading ∧
          error = if (Datum.read text).isOk then cause
            else cause.shift (Token.leadingBlanks text)) ∧
      (whole.1 = .error .exhausted ↔ line.1 = .error .exhausted) := by
  intro line whole
  obtain ⟨hreports, hafter⟩ := session.evalLine_reports fuel text (.frames session.keeps :: held)
    ⟨store, census, session.depth⟩
  have htext := session.evalText_trim fuel text (.frames session.keeps :: held)
    ⟨store, census, session.depth⟩
  rcases htrimmed : (session.evalText fuel (Text.trim text)).outcome (.frames session.keeps :: held)
    ⟨store, census, session.depth⟩ with ⟨result, after⟩
  rcases houtcome : (session.evalLine fuel text).outcome (.frames session.keeps :: held)
    ⟨store, census, session.depth⟩ with ⟨report, after'⟩
  rw [htrimmed] at hreports hafter htext
  rw [houtcome] at hreports hafter
  change Reports result report at hreports
  obtain rfl : after' = after := hafter
  have hline : line = (report, _, _, _) := execute_of_outcome houtcome
  have hwhole : whole = (result.mapError (Halt.placed text), _, _, _) := execute_of_outcome htext
  rw [hline, hwhole]
  refine ⟨rfl, fun values => ?_, fun error => ?_, ?_⟩
  · exact (hreports.eq_ok_iff values).trans Halt.placed_eq_ok_iff.symm
  · rw [Halt.placed_eq_error_iff]
    constructor
    · rintro ⟨cause, hresult, rfl⟩
      obtain ⟨values, hvalues⟩ := (hreports.eq_error_iff cause).1 hresult
      exact ⟨values, cause, hvalues, cause.heading_placed text, rfl⟩
    · rintro ⟨values, cause, hvalues, -, herror⟩
      exact ⟨cause, (hreports.eq_error_iff cause).2 ⟨values, hvalues⟩, herror⟩
  · exact Halt.placed_eq_exhausted_iff.trans hreports.eq_exhausted_iff

end Session

end SmallLisp
