import SmallLisp.Proofs.Logic

/-!
# How evaluations run

An evaluation takes what is held and a machine to an outcome and a machine. The equations here
say what each operation makes of these, so that nothing else needs to look into `EvalM`.
-/

namespace SmallLisp.EvalM

variable {α β : Type}

/-- The outcome of an evaluation and the machine afterwards. -/
def outcome (evaluation : EvalM α) (held : List Hold) (machine : Machine) :
    Except Halt α × Machine :=
  (evaluation held).run machine

@[simp] theorem outcome_pure (a : α) (held : List Hold) (machine : Machine) :
    outcome (pure a) held machine = (.ok a, machine) := rfl

@[simp] theorem outcome_fail (cause : Error) (held : List Hold) (machine : Machine) :
    outcome (fail cause : EvalM α) held machine = (.error (.error cause), machine) := rfl

theorem outcome_bind (f : EvalM α) (k : α → EvalM β) (held : List Hold) (machine : Machine) :
    outcome (f >>= k) held machine =
      match outcome f held machine with
      | (.ok a, after) => outcome (k a) held after
      | (.error halt, after) => (.error halt, after) := by
  show (match (f held).run machine with
    | (r, after) => ExceptT.bindCont (fun a => k a held) r after) = _
  unfold outcome
  rcases (f held).run machine with ⟨_ | _, after⟩ <;> rfl

theorem outcome_bind_ok {f : EvalM α} {held : List Hold} {machine after : Machine} {a : α}
    (h : outcome f held machine = (.ok a, after)) (k : α → EvalM β) :
    outcome (f >>= k) held machine = outcome (k a) held after := by
  rw [outcome_bind, h]

theorem outcome_bind_error {f : EvalM α} {held : List Hold} {machine after : Machine}
    {halt : Halt} (h : outcome f held machine = (.error halt, after)) (k : α → EvalM β) :
    outcome (f >>= k) held machine = (.error halt, after) := by
  rw [outcome_bind, h]

/-- Sequences have the same outcome if their first parts have, and their second parts behind
it. -/
theorem outcome_bind_congr {f g : EvalM α} {k l : α → EvalM β} {held held' : List Hold}
    {machine : Machine} (h : outcome f held machine = outcome g held' machine)
    (hk : ∀ a after, outcome g held' machine = (.ok a, after) →
      outcome (k a) held after = outcome (l a) held' after) :
    outcome (f >>= k) held machine = outcome (g >>= l) held' machine := by
  rcases hout : outcome g held' machine with ⟨halt | a, after⟩
  · rw [outcome_bind_error (h.trans hout), outcome_bind_error hout]
  · rw [outcome_bind_ok (h.trans hout), outcome_bind_ok hout]
    exact hk a after hout

/-- A sequence that ends has gone through its first part. -/
theorem exists_of_outcome_bind {f : EvalM α} {k : α → EvalM β} {held : List Hold}
    {machine after : Machine} {b : β} (h : outcome (f >>= k) held machine = (.ok b, after)) :
    ∃ a middle, outcome f held machine = (.ok a, middle) ∧
      outcome (k a) held middle = (.ok b, after) := by
  rcases hout : outcome f held machine with ⟨halt | a, middle⟩
  · rw [outcome_bind_error hout] at h
    cases h
  · rw [outcome_bind_ok hout] at h
    exact ⟨a, middle, rfl, h⟩

@[simp] theorem outcome_inspect (view : Store → α) (held : List Hold) (machine : Machine) :
    outcome (inspect view) held machine = (.ok (view machine.store), machine) := rfl

@[simp] theorem outcome_update (change : Store → α × Store) (held : List Hold)
    (machine : Machine) :
    outcome (update change) held machine =
      (.ok (change machine.store).1, { machine with store := (change machine.store).2 }) := rfl

@[simp] theorem outcome_holding (values : List Value) (f : EvalM α) (held : List Hold)
    (machine : Machine) :
    outcome (holding values f) held machine = outcome f (.values values :: held) machine := rfl

theorem outcome_deeper (f : EvalM α) (held : List Hold) (machine : Machine) :
    outcome (deeper f) held machine =
      match outcome f held { machine with depth := machine.depth + 1 } with
      | (result, after) => (result, { after with depth := after.depth - 1 }) := rfl

theorem outcome_within (frame : FrameRef) (body : EvalM Value) (held : List Hold)
    (machine : Machine) :
    outcome (within frame body) held machine =
      ((outcome body (.frames [frame] :: held) machine).1,
        (outcome body (.frames [frame] :: held) machine).2.leave
          (resultHold (outcome body (.frames [frame] :: held) machine).1 :: held) frame) := rfl

theorem outcome_attempt (f : EvalM α) (held : List Hold) (machine : Machine) :
    outcome (attempt f) held machine =
      match outcome f held machine with
      | (.ok a, after) => (.ok (.ok a), after)
      | (.error (.error cause), after) => (.ok (.error cause), after)
      | (.error .exhausted, after) => (.error .exhausted, after) := rfl

theorem outcome_attempt_congr {f g : EvalM α} {held : List Hold} {machine : Machine}
    (h : outcome f held machine = outcome g held machine) :
    outcome (attempt f) held machine = outcome (attempt g) held machine := by
  rw [outcome_attempt, outcome_attempt, h]

theorem outcome_of_attempt_ok {f : EvalM α} {held : List Hold} {machine after : Machine} {a : α}
    (h : outcome (attempt f) held machine = (.ok (.ok a), after)) :
    outcome f held machine = (.ok a, after) := by
  rw [outcome_attempt] at h
  rcases hout : outcome f held machine with ⟨(_ | _) | b, last⟩
  · rw [hout] at h
    exact nomatch (Prod.mk.inj h).1
  · rw [hout] at h
    exact nomatch (Prod.mk.inj h).1
  · rw [hout] at h
    obtain ⟨hresult, rfl⟩ := Prod.mk.inj h
    rw [Except.ok.inj (Except.ok.inj hresult)]

/-- At the limit an evaluation fails, and below it runs one level deeper. -/
theorem outcome_limited (limit : Nat) (f : EvalM α) (held : List Hold) (machine : Machine) :
    outcome (limited limit f) held machine =
      if limit ≤ machine.depth then (.error (.error (.recursionLimit limit)), machine)
      else outcome (deeper f) held machine := by
  show outcome (if limit ≤ machine.depth then fail (.recursionLimit limit) else deeper f)
    held machine = _
  split <;> rfl

theorem outcome_limited_of_lt {limit : Nat} {f : EvalM α} {held : List Hold}
    {machine after : Machine} {result : Except Halt α} (hlimit : machine.depth < limit)
    (h : outcome f held { machine with depth := machine.depth + 1 } = (result, after)) :
    outcome (limited limit f) held machine =
      (result, { after with depth := after.depth - 1 }) := by
  rw [outcome_limited, if_neg (Nat.not_le.2 hlimit), outcome_deeper, h]

/-- A function of the host sees the machine and does not change it. -/
theorem outcome_applyHost (function : HostFunction) (args : List Value) (held : List Hold)
    (machine : Machine) :
    outcome (Eval.applyHost function args) held machine =
      ((function.call machine.depth machine.store args).mapError Halt.error, machine) := by
  have hget : outcome (get : EvalM Machine) held machine = (.ok machine, machine) := rfl
  rw [Eval.applyHost, outcome_bind_ok hget]
  cases function.call machine.depth machine.store args <;> rfl

end SmallLisp.EvalM
