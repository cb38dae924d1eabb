import SmallLisp.Proofs.Coupling
import SmallLisp.Proofs.Nested
import SmallLisp.Proofs.Start

/-!
# The limit on nested evaluations

A session limits how many evaluations may be in progress at once. What is left of that limit is
the budget of an evaluation. The budget decides how far a run gets and nothing else: a run that
does not reach the limit is the same run under every larger budget, and one that reaches it
ends with the error that says so, wherever inside it happened.

## Main results

* `sideBySide_lawful` — runs under two limits stay side by side as long as their budgets do.
* `create_ignoresDepth` — a session as it starts takes no notice of the depth.
* `evalIn_limit_only_cuts_off` — the limit on nested evaluations only cuts a run off.
-/

namespace SmallLisp

/-- No native function of the session takes notice of the depth it is called at. -/
def Session.IgnoresDepth (session : Session) : Prop :=
  ∀ name function, session.natives.lookup name = some (.host function) →
    ∀ depth depth' store args, function.call depth store args = function.call depth' store args

/-- The session with another limit on nested evaluations. -/
def Session.withLimit (session : Session) (limit : Nat) : Session :=
  { session with maxDepth := limit }

/-- The halt is the error for reaching the limit on nested evaluations. -/
def Halt.IsLimit (halt : Halt) : Prop :=
  ∃ limit, halt = .error (.recursionLimit limit)

/-- The outcome is the error for reaching the limit on nested evaluations. -/
def ReachedLimit {α : Type} (result : Except Halt α) : Prop :=
  ∃ limit, result = .error (.error (.recursionLimit limit))

namespace Eval

open EvalM

/-! ### Runs under two limits -/

/-- Two runs on the same store under the limits `limit` and `limit'`, at depths that stay what
they are while the budgets compare. -/
def sideBySide (limit limit' : Nat) (budgets : Nat → Nat → Prop) (abandons : Halt → Prop)
    (alike : Halt → Halt → Prop) : Coupling where
  World := Nat × Nat
  deeper := fun (depth, depth') => (depth + 1, depth' + 1)
  machines := fun (depth, depth') left right =>
    left.store = right.store ∧ left.census = right.census ∧
      left.depth = depth ∧ right.depth = depth' ∧ budgets (limit - depth) (limit' - depth')
  abandons := abandons
  alike := alike

section

variable {session : Session} {limit limit' : Nat} {budgets : Nat → Nat → Prop}
  {abandons : Halt → Prop} {alike : Halt → Halt → Prop}

/-- The check of the limit keeps runs side by side if a budget to spend on the left is matched
on the right, and a spent one on the left may be abandoned or is spent on the right too. -/
theorem relates_limited (hspend : ∀ a b, budgets (a + 1) b → ∃ b', b = b' + 1 ∧ budgets a b')
    (hspent : ∀ b, budgets 0 b → abandons (.error (.recursionLimit limit)) ∨
      b = 0 ∧ alike (.error (.recursionLimit limit)) (.error (.recursionLimit limit')))
    {w : Nat × Nat} {post : Value → Prop} {f g : EvalM Value}
    (h : (sideBySide limit limit' budgets abandons alike).Relates (w.1 + 1, w.2 + 1) post f g) :
    (sideBySide limit limit' budgets abandons alike).Relates w post (limited limit f)
      (limited limit' g) := by
  obtain ⟨_, _⟩ := w
  rintro held ⟨store, census, depth⟩ ⟨_, _, depth'⟩ ⟨rfl, rfl, rfl, rfl, hbudgets⟩
  rw [outcome_limited, outcome_limited]
  dsimp only at hbudgets ⊢
  by_cases hlimit : limit ≤ depth
  · rw [Nat.sub_eq_zero_of_le hlimit] at hbudgets
    rw [if_pos hlimit]
    rcases hspent _ hbudgets with habandons | ⟨hzero, halike⟩
    · exact .abandoned habandons
    · rw [if_pos (Nat.sub_eq_zero_iff_le.1 hzero)]
      refine .failed halike ⟨rfl, rfl, rfl, rfl, ?_⟩
      rw [Nat.sub_eq_zero_of_le hlimit]
      exact hbudgets
  · obtain ⟨budget, hbudget⟩ : ∃ budget, limit - depth = budget + 1 := ⟨limit - depth - 1, by omega⟩
    have hall := hbudgets
    rw [hbudget] at hbudgets
    obtain ⟨budget', hbudget', hnext⟩ := hspend _ _ hbudgets
    rw [if_neg hlimit, if_neg (by omega), outcome_deeper, outcome_deeper]
    have hout := h held ⟨store, census, depth + 1⟩ ⟨store, census, depth' + 1⟩
      ⟨rfl, rfl, rfl, rfl, by
        rw [show limit - (depth + 1) = budget by omega,
          show limit' - (depth' + 1) = budget' by omega]
        exact hnext⟩
    dsimp only
    generalize f.outcome held ⟨store, census, depth + 1⟩ = x at hout ⊢
    generalize g.outcome held ⟨store, census, depth' + 1⟩ = y at hout ⊢
    -- the depth is one more inside, so it is the old one again behind the deeper evaluation
    cases hout with
    | abandoned habandons => exact .abandoned habandons
    | failed halike hm =>
        obtain ⟨hstore, hcensus, hleft, hright, -⟩ := hm
        exact .failed halike ⟨hstore, hcensus, by simp [hleft], by simp [hright], hall⟩
    | ended ha hm =>
        obtain ⟨hstore, hcensus, hleft, hright, -⟩ := hm
        exact .ended ha ⟨hstore, hcensus, by simp [hleft], by simp [hright], hall⟩

/-- Runs of one session under two limits stay side by side. -/
theorem sideBySide_lawful (hnatives : session.IgnoresDepth)
    (hspend : ∀ a b, budgets (a + 1) b → ∃ b', b = b' + 1 ∧ budgets a b')
    (hspent : ∀ b, budgets 0 b → abandons (.error (.recursionLimit limit)) ∨
      b = 0 ∧ alike (.error (.recursionLimit limit)) (.error (.recursionLimit limit')))
    (hrefl : ∀ halt, alike halt halt) :
    (sideBySide limit limit' budgets abandons alike).Lawful
      fun i => session.withLimit (bif i then limit' else limit) where
  globals_eq := rfl
  natives_eq := rfl
  store_eq := fun h => h.1
  store_set := fun _ ⟨_, hrest⟩ => ⟨rfl, hrest⟩
  leave := by
    rintro _ ⟨store, _ | census, _⟩ ⟨_, _, _⟩ held frame ⟨rfl, rfl, hrest⟩
    · exact ⟨rfl, rfl, hrest⟩
    · exact ⟨rfl, rfl, hrest⟩
  alike_refl := hrefl
  limited := relates_limited hspend hspent
  host := by
    rintro _ name function ⟨store, _, _⟩ ⟨_, _, _⟩ args hname ⟨rfl, _⟩
    exact hnatives name function hname _ _ _ _

/-- With the same budget two runs differ at most in the limit that their errors quote. -/
theorem level_lawful (hnatives : session.IgnoresDepth) (limit limit' : Nat) :
    (sideBySide limit limit' Eq (fun _ => False)
      fun a b => a = b ∨ a.IsLimit ∧ b.IsLimit).Lawful
      fun i => session.withLimit (bif i then limit' else limit) := by
  refine sideBySide_lawful hnatives (fun a b h => ⟨a, h.symm, rfl⟩) (fun b h => ?_)
    fun _ => .inl rfl
  exact .inr ⟨h.symm, .inr ⟨⟨limit, rfl⟩, ⟨limit', rfl⟩⟩⟩

theorem level_outcome {w : Nat × Nat} {post : Value → Prop}
    {left right : Except Halt Value × Machine}
    (h : (sideBySide limit limit' Eq (fun _ => False)
      fun a b => a = b ∨ a.IsLimit ∧ b.IsLimit).Outcome w post left right) :
    (left.1 = right.1 ∨ ReachedLimit left.1 ∧ ReachedLimit right.1) ∧
      left.2.store = right.2.store ∧ left.2.census = right.2.census ∧ left.2.depth = w.1 := by
  cases h with
  | abandoned hfalse => exact hfalse.elim
  | failed halike hm =>
      obtain ⟨hstore, hcensus, hdepth, -⟩ := hm
      refine ⟨?_, hstore, hcensus, hdepth⟩
      rcases halike with rfl | ⟨⟨quoted, rfl⟩, ⟨quoted', rfl⟩⟩
      · exact .inl rfl
      · exact .inr ⟨⟨quoted, rfl⟩, ⟨quoted', rfl⟩⟩
  | ended _ hm =>
      obtain ⟨hstore, hcensus, hdepth, -⟩ := hm
      exact ⟨.inl rfl, hstore, hcensus, hdepth⟩

/-- A run with a larger budget does the same unless the other one reaches its limit. -/
theorem cut_lawful (hnatives : session.IgnoresDepth) (limit limit' : Nat) :
    (sideBySide limit limit' LE.le Halt.IsLimit Eq).Lawful
      fun i => session.withLimit (bif i then limit' else limit) := by
  refine sideBySide_lawful hnatives (fun a b h => ⟨b - 1, ?_, ?_⟩) (fun b _ => .inl ⟨limit, rfl⟩)
    fun _ => rfl
  · omega
  · exact Nat.le_sub_one_of_lt h

theorem cut_outcome {w : Nat × Nat} {post : Value → Prop}
    {left right : Except Halt Value × Machine}
    (h : (sideBySide limit limit' LE.le Halt.IsLimit Eq).Outcome w post left right)
    (hleft : ¬ReachedLimit left.1) :
    left.1 = right.1 ∧ left.2.store = right.2.store ∧ left.2.census = right.2.census := by
  cases h with
  | abandoned hlimit =>
      obtain ⟨quoted, rfl⟩ := hlimit
      exact absurd ⟨quoted, rfl⟩ hleft
  | failed halike hm =>
      obtain ⟨hstore, hcensus, -⟩ := hm
      exact ⟨congrArg Except.error halike, hstore, hcensus⟩
  | ended _ hm =>
      obtain ⟨hstore, hcensus, -⟩ := hm
      exact ⟨rfl, hstore, hcensus⟩

end

end Eval

/-- A session as it starts takes no notice of the depth. -/
theorem Session.create_ignoresDepth (store : Store) (maxDepth : Nat) :
    (Session.create store maxDepth).1.IgnoresDepth := by
  intro name function h
  obtain ⟨_, hprimitive⟩ := Session.primitives_lookup h
  exact nomatch hprimitive

/-! ### The limit only cuts off -/

namespace Session

open Eval

/-- **The limit only cuts a run off.** For a session whose native functions take no notice of the
depth, the outcome of an evaluation and the store, the census and the depth that it leaves depend
on depth and limit through the budget alone, apart from the limit that an error quotes. What ends
otherwise than by reaching the limit ends in the same way with every larger budget. And where the
limit is reached inside a run, it is the outcome of the run. -/
theorem evalIn_limit_only_cuts_off (session : Session) (hnatives : session.IgnoresDepth)
    (fuel : Nat) (form : Value) (scope : FrameRef) (held : List Hold) (store : Store)
    (census : Option Census) (limit depth limit' depth' : Nat) :
    let left := ((session.withLimit limit).evalIn fuel form scope).outcome held
      ⟨store, census, depth⟩
    let right := ((session.withLimit limit').evalIn fuel form scope).outcome held
      ⟨store, census, depth'⟩
    (limit - depth = limit' - depth' →
      (left.1 = right.1 ∨ ReachedLimit left.1 ∧ ReachedLimit right.1) ∧
        left.2.store = right.2.store ∧ left.2.census = right.2.census) ∧
    (limit - depth ≤ limit' - depth' → ¬ReachedLimit left.1 →
      left.1 = right.1 ∧ left.2.store = right.2.store ∧ left.2.census = right.2.census) ∧
    left.2.depth = depth ∧
    ∀ fuel' inner quoted,
      Nested (session.withLimit limit) fuel
        ⟨.eval form scope, .values [form] :: held, ⟨store, census, depth⟩⟩ fuel' inner →
      (inner.outcome (run (session.withLimit limit) fuel')).1 =
        .error (.error (.recursionLimit quoted)) →
      left.1 = .error (.error (.recursionLimit quoted)) := by
  intro left right
  have hlevel (hbudget : limit - depth = limit' - depth') :=
    level_outcome ((level_lawful hnatives limit limit').evalIn fuel (depth, depth') form scope held
      ⟨store, census, depth⟩ ⟨store, census, depth'⟩ ⟨rfl, rfl, rfl, rfl, hbudget⟩)
  have hself := level_outcome ((level_lawful hnatives limit limit).evalIn fuel (depth, depth) form
    scope held ⟨store, census, depth⟩ ⟨store, census, depth⟩ ⟨rfl, rfl, rfl, rfl, rfl⟩)
  have hcut (hbudget : limit - depth ≤ limit' - depth') :=
    cut_outcome ((cut_lawful hnatives limit limit').evalIn fuel (depth, depth') form scope held
      ⟨store, census, depth⟩ ⟨store, census, depth'⟩ ⟨rfl, rfl, rfl, rfl, hbudget⟩)
  refine ⟨fun hbudget => ?_, hcut, hself.2.2.2, ?_⟩
  · obtain ⟨hresult, hstore, hcensus, -⟩ := hlevel hbudget
    exact ⟨hresult, hstore, hcensus⟩
  · exact fun fuel' inner quoted hnested hinner => result_of_nested hnested hinner

/-- The form `((1))` needs a budget of two: with one level left the limit is reached at its
operator, under every limit, and with two or more the operator is found to be no function. -/
theorem evalIn_limit_only_cuts_off_at_operator :
    let form := Store.ofDatum ⟨#[{}]⟩ 0 (.list [.list [.integer 1]])
    let session := (create {} 0).1
    let outcome := fun limit depth =>
      ((session.withLimit limit).evalIn 9 form.1 session.globals).outcome []
        ⟨form.2, none, depth⟩
    session.IgnoresDepth ∧
    (1 - 0 = 3 - 2 ∧ ReachedLimit (outcome 1 0).1 ∧ ReachedLimit (outcome 3 2).1 ∧
      (outcome 1 0).2.store = (outcome 3 2).2.store) ∧
    (2 - 0 ≤ 9 - 4 ∧ ¬ReachedLimit (outcome 2 0).1 ∧ (outcome 2 0).1 = (outcome 9 4).1) ∧
    ∃ inner, Nested (session.withLimit 1) 9
        ⟨.eval form.1 session.globals, [.values [form.1]], ⟨form.2, none, 0⟩⟩ 8 inner ∧
      (inner.outcome (run (session.withLimit 1) 8)).1 = .error (.error (.recursionLimit 1)) ∧
      (outcome 1 0).1 = .error (.error (.recursionLimit 1)) := by
  intro form session outcome
  have hnatives : session.IgnoresDepth := create_ignoresDepth {} 0
  have hsame := (evalIn_limit_only_cuts_off session hnatives 9 form.1 session.globals [] form.2
    none 1 0 3 2).1 rfl
  have hnot : ¬ReachedLimit (outcome 2 0).1 := fun ⟨_, h⟩ => nomatch h
  have hlarger := (evalIn_limit_only_cuts_off session hnatives 9 form.1 session.globals [] form.2
    none 2 0 9 4).2.1 (by decide) hnot
  let inner : Call := ⟨.eval (.pair ⟨0, 0⟩) session.globals,
    [.values [.pair ⟨0, 0⟩, .nil], .values [form.1]], ⟨form.2, none, 1⟩⟩
  have hinner : inner.outcome (run (session.withLimit 1) 8) =
      (.error (.error (.recursionLimit 1)), inner.machine) := rfl
  have hnested : Nested (session.withLimit 1) 9
      ⟨.eval form.1 session.globals, [.values [form.1]], ⟨form.2, none, 0⟩⟩ 8 inner :=
    .inner (asks_head (by decide) rfl) (.self 8 inner)
  have hquoted := (evalIn_limit_only_cuts_off session hnatives 9 form.1 session.globals [] form.2
    none 1 0 3 2).2.2.2 8 inner 1 hnested (congrArg Prod.fst hinner)
  exact ⟨hnatives, ⟨rfl, ⟨1, rfl⟩, ⟨3, rfl⟩, hsame.2.1⟩, ⟨by decide, hnot, hlarger.1⟩,
    inner, hnested, congrArg Prod.fst hinner, hquoted⟩

end Session

end SmallLisp
