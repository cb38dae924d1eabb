import SmallLisp.Proofs.ReaderCalls

/-!
# The limit on nesting

The limit says how many constructs may be open at once. It is looked at when a construct is opened
and nowhere else, so two readers with different limits go through the same tokens alike up to where
the lower limit is reached. The reader with the lower limit then refuses the text. Until then
nothing that it reads, and no other error that it finds, depends on the limit.

## Main results

* `Reader.action_mono` — what a reader does with a token under a higher limit.
* `Reader.readOn_mono` — what it reads.
* `Datum.nesting_limit_only_rejects` — the same for a whole text.
-/

namespace SmallLisp

/-- The text is refused because it is nested more deeply than the limit allows. -/
def TooDeep {α : Type} (limit : Nat) (result : Except TextError α) : Prop :=
  ∃ offset, result = .error (.read (.tooDeep limit offset))

/-- The error says that a text is nested more deeply than the limit allows. -/
def ReadError.isTooDeep (limit : Nat) : ReadError → Bool
  | .tooDeep bound _ => bound = limit
  | _ => false

theorem ReadError.isTooDeep_iff {limit : Nat} {cause : ReadError} :
    cause.isTooDeep limit = true ↔ ∃ offset, cause = .tooDeep limit offset := by
  cases cause <;> simp [isTooDeep]

instance {α : Type} (limit : Nat) (result : Except TextError α) :
    Decidable (TooDeep limit result) :=
  match result with
  | .ok _ => isFalse fun h => by cases h.choose_spec
  | .error (.scan _) => isFalse fun h => by cases h.choose_spec
  | .error (.read cause) =>
      decidable_of_iff (cause.isTooDeep limit = true)
        (by rw [ReadError.isTooDeep_iff]; simp [TooDeep])

namespace Reader

variable {limit limit' : Nat} {stack : List OpenForm} {token : Token} {reader : Reader}

/-- The reader at the same place with another limit. -/
def withLimit (reader : Reader) (limit : Nat) : Reader :=
  { reader with limit }

/-! ### Taking a token -/

theorem enter_mono (h : limit ≤ limit') (offset : Nat) (stack : List OpenForm)
    (opened : OpenForm) :
    enter limit' offset stack opened = enter limit offset stack opened ∨
      enter limit offset stack opened = .error (.tooDeep limit offset) := by
  rcases Nat.lt_or_ge stack.length limit with hroom | hdeep
  · have hsame : ∀ {bound}, limit ≤ bound →
        enter bound offset stack opened = .ok (.within (opened :: stack)) := fun hbound =>
      enter_eq_ok_iff.2 ⟨Nat.lt_of_lt_of_le hroom hbound, rfl⟩
    exact .inl ((hsame h).trans (hsame (Nat.le_refl limit)).symm)
  · exact .inr (if_pos hdeep)

/-- Under a higher limit the same is done with a token, unless the construct that it opens is too
much for the lower one. -/
theorem action_mono (h : limit ≤ limit') (stack : List OpenForm) (token : Token) :
    action limit' stack token = action limit stack token ∨
      action limit stack token = .stop (some (.tooDeep limit token.offset)) ∨
      action limit stack token = .take (.error (.tooDeep limit token.offset)) ∧
        ∃ next, action limit' stack token = .take next := by
  have hmark : ∀ mark, enterMark limit' token.offset stack mark
        = enterMark limit token.offset stack mark ∨
      enterMark limit token.offset stack mark = .stop (some (.tooDeep limit token.offset)) := by
    intro mark
    unfold enterMark
    rcases enter_mono h token.offset stack (.marked mark) with hsame | hdeep
    · exact .inl (by rw [hsame])
    · exact .inr (by rw [hdeep])
  have henter : ∀ opened, Action.take (enter limit' token.offset stack opened)
        = .take (enter limit token.offset stack opened) ∨
      Action.take (enter limit token.offset stack opened)
        = .take (.error (.tooDeep limit token.offset)) := fun opened =>
    (enter_mono h token.offset stack opened).imp (congrArg Action.take) (congrArg Action.take)
  unfold action
  split
  case h_11 => exact (hmark .quote).imp_right .inl
  case h_12 => exact (hmark .quasiquote).imp_right .inl
  case h_13 => exact (hmark .unquote).imp_right .inl
  case h_14 => exact (hmark .unquoteSplicing).imp_right .inl
  case h_15 => exact (henter _).imp_right fun hdeep => .inr ⟨hdeep, _, rfl⟩
  case h_16 => exact (henter _).imp_right fun hdeep => .inr ⟨hdeep, _, rfl⟩
  all_goals exact .inl rfl

theorem endWithin_ne_tooDeep {limit offset : Nat} (stack : List OpenForm) :
    endWithin stack ≠ some (.tooDeep limit offset) := by
  rcases stack with _ | ⟨_ | _ | _ | _ | _, outer⟩ <;> simp [endWithin]

/-- A reader that does not take a token because of the limit quotes its own limit. -/
theorem action_eq_stop_tooDeep {bound offset : Nat}
    (h : action limit stack token = .stop (some (.tooDeep bound offset))) : bound = limit := by
  rcases action_eq_stop h with ⟨-, hend⟩ | h | h | h | h | h
  · exact absurd hend.symm (endWithin_ne_tooDeep stack)
  all_goals cases h
  rfl

/-- The same if the token is taken. -/
theorem action_eq_take_tooDeep {bound offset : Nat}
    (h : action limit stack token = .take (.error (.tooDeep bound offset))) : bound = limit := by
  rcases action_eq_take_error h with h | ⟨_, _, h⟩ | h <;> cases h
  rfl

/-! ### Reading -/

/-- Under a higher limit the same is read, unless the lower one is reached. -/
theorem readOn_mono (h : reader.limit ≤ limit') (stack : List OpenForm) :
    (reader.withLimit limit').readOn stack
        = ((reader.readOn stack).1, (reader.readOn stack).2.withLimit limit') ∨
      TooDeep reader.limit (reader.readOn stack).1 := by
  induction reader, stack using readOn_induction with
  | stop reader stack reason haction =>
      rcases action_mono h stack reader.current with hsame | hdeep | ⟨hdeep, -⟩
      · have hread' : (reader.withLimit limit').readOn stack = _ :=
          readOn_of_stop (hsame.trans haction)
        exact .inl (by rw [hread', readOn_of_stop haction])
      · rw [readOn_of_stop hdeep]
        exact .inr ⟨reader.current.offset, rfl⟩
      · rw [hdeep] at haction
        cases haction
  | pastEnd reader stack next haction hupcoming =>
      have hread' : ∀ {next}, action limit' stack reader.current = .take next →
          (reader.withLimit limit').readOn stack = _ := fun htake =>
        readOn_of_take_nil htake hupcoming
      rw [readOn_of_take_nil haction hupcoming]
      rcases action_mono h stack reader.current with hsame | hdeep | ⟨-, next', hnext'⟩
      · exact .inl (hread' (hsame.trans haction))
      · rw [hdeep] at haction
        cases haction
      · exact .inl (hread' hnext')
  | take reader stack next token upcoming haction hupcoming ih =>
      rcases action_mono h stack reader.current with hsame | hdeep | ⟨hdeep, -⟩
      · have hread' : (reader.withLimit limit').readOn stack
            = (⟨token, upcoming, reader.taken + 1, limit'⟩ : Reader).proceed next :=
          readOn_of_take (hsame.trans haction) hupcoming
        rw [hread', readOn_of_take haction hupcoming]
        rcases next with e | datum | inner
        · exact .inl rfl
        · exact .inl rfl
        · exact ih inner rfl h
      · rw [hdeep] at haction
        cases haction
      · rw [readOn_of_take hdeep hupcoming]
        exact .inr ⟨reader.current.offset, rfl⟩

theorem readForm_mono {after : Reader} {answer : Except TextError (Option Datum)}
    (h : reader.limit ≤ limit') (hform : reader.readForm = (answer, after)) :
    (reader.withLimit limit').readForm = (answer, after.withLimit limit') ∨
      TooDeep reader.limit answer := by
  have hmono := readOn_mono h []
  rw [show reader.readOn [] = (answer, after) from hform] at hmono
  exact hmono

/-- The limit is the same after reading. -/
theorem limit_eq_of_readForm {after : Reader} {answer : Except TextError (Option Datum)}
    (h : reader.readForm = (answer, after)) : after.limit = reader.limit := by
  have hafter : (reader.readOn []).2 = after := congrArg Prod.snd h
  exact hafter ▸ (advances_readOn reader []).1

theorem readAllFrom_mono (reader : Reader) (h : reader.limit ≤ limit') (found : List Datum) :
    readAllFrom found (reader.withLimit limit') = readAllFrom found reader ∨
      TooDeep reader.limit (readAllFrom found reader) := by
  fun_induction readAllFrom found reader with
  | case1 found reader e after hform =>
      rcases readForm_mono h hform with hsame | ⟨offset, hdeep⟩
      · rw [readAllFrom, hsame]
        exact .inl rfl
      · exact .inr ⟨offset, congrArg Except.error (Except.error.inj hdeep)⟩
  | case2 found reader after hform =>
      rcases readForm_mono h hform with hsame | ⟨offset, hdeep⟩
      · rw [readAllFrom, hsame]
        exact .inl rfl
      · cases hdeep
  | case3 found reader datum after hform ih =>
      rcases readForm_mono h hform with hsame | ⟨offset, hdeep⟩
      · have hlimit := limit_eq_of_readForm hform
        rw [readAllFrom, hsame, ← hlimit]
        exact ih (hlimit ▸ h)
      · cases hdeep

/-- A reader that refuses to go deeper quotes its own limit. -/
theorem readOn_eq_tooDeep {bound offset : Nat} (stack : List OpenForm)
    (h : (reader.readOn stack).1 = .error (.read (.tooDeep bound offset))) :
    bound = reader.limit := by
  obtain ⟨_, _, _, _, _, _, hstop | htake⟩ := action_of_readOn_error h
  · exact action_eq_stop_tooDeep hstop
  · exact action_eq_take_tooDeep htake

theorem readAllFrom_eq_tooDeep {bound offset : Nat} {found : List Datum}
    (h : readAllFrom found reader = .error (.read (.tooDeep bound offset))) :
    bound = reader.limit := by
  fun_induction readAllFrom found reader with
  | case1 found reader e after hform =>
      obtain rfl := Except.error.inj h
      exact readOn_eq_tooDeep [] (congrArg Prod.fst hform)
  | case2 => cases h
  | case3 found reader datum after hform ih => exact (ih h).trans (limit_eq_of_readForm hform)

end Reader

namespace Datum

theorem readWith_mono {limit limit' : Nat} (h : limit ≤ limit') (text : String) :
    readWith limit' text = readWith limit text ∨ TooDeep limit (readWith limit text) := by
  cases hscan : Token.scan text with
  | error cause =>
      exact .inl ((readWith_of_scan_error hscan limit').trans
        (readWith_of_scan_error hscan limit).symm)
  | ok tokens =>
      obtain ⟨first, upcoming, rfl⟩ := Token.exists_cons_of_scan hscan
      have hmono : Reader.readAll ⟨first, upcoming, 1, limit'⟩
            = Reader.readAll ⟨first, upcoming, 1, limit⟩ ∨
          TooDeep limit (Reader.readAll ⟨first, upcoming, 1, limit⟩) :=
        Reader.readAllFrom_mono ⟨first, upcoming, 1, limit⟩ h []
      rwa [← readWith_of_scan hscan, ← readWith_of_scan hscan] at hmono

theorem readWith_eq_tooDeep {limit bound offset : Nat} {text : String}
    (h : readWith limit text = .error (.read (.tooDeep bound offset))) : bound = limit := by
  cases hscan : Token.scan text with
  | error cause =>
      rw [readWith_of_scan_error hscan] at h
      cases h
  | ok tokens =>
      obtain ⟨first, upcoming, rfl⟩ := Token.exists_cons_of_scan hscan
      rw [readWith_of_scan hscan] at h
      exact Reader.readAllFrom_eq_tooDeep h

/-- **The limit on nesting rejects texts and alters none.** Let one limit be at least as high as
another. Unless a text is nested too deeply for the lower one, the same forms or the same error are
read with both, and a text that is nested too deeply for the higher one is so for the lower one. -/
theorem nesting_limit_only_rejects {limit limit' : Nat} (h : limit ≤ limit') (text : String) :
    (¬TooDeep limit (readWith limit text) → readWith limit' text = readWith limit text) ∧
      (TooDeep limit' (readWith limit' text) → TooDeep limit (readWith limit text)) := by
  refine ⟨(readWith_mono h text).resolve_right, ?_⟩
  rintro ⟨offset, hdeep⟩
  rcases readWith_mono h text with hsame | hlower
  · rw [hsame] at hdeep
    obtain rfl := readWith_eq_tooDeep hdeep
    exact ⟨offset, hdeep⟩
  · exact hlower

/-- A list that is not closed, within limits that it keeps to and within one that it does not. -/
theorem nesting_limit_only_rejects_unclosed :
    let text := "(a) ('b"
    ¬TooDeep 2 (readWith 2 text) ∧ readWith 9 text = readWith 2 text ∧
      TooDeep 1 (readWith 1 text) ∧ TooDeep 0 (readWith 0 text) := by
  intro text
  have hdeep : ¬TooDeep 2 (readWith 2 text) ∧ TooDeep 1 (readWith 1 text) := by decide +kernel
  have hrejects := nesting_limit_only_rejects (Nat.zero_le 1) text
  exact ⟨hdeep.1, (nesting_limit_only_rejects (show 2 ≤ 9 by decide) text).1 hdeep.1, hdeep.2,
    hrejects.2 hdeep.2⟩

end Datum

end SmallLisp
