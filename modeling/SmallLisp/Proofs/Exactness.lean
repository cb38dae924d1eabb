import SmallLisp.Proofs.Running

/-!
# Exact arithmetic

A calculation takes one operand after another and goes on as long as the value fits a word. Its
exact value has a closed form: operands are summed up or multiplied, and divisions one after the
other are a single division by the product. So what a calculation answers is said about the exact
values of the operands so far: it answers with the last of them if all of them fit and no divisor is
zero, and otherwise reports what comes first.

## Main results

* `tdiv_tdiv`, `Operation.value_cons` — the closed form is what one operand after another gives.
* `Operation.fold_answers`, `Operation.Answers.unique` — what a calculation answers, and that it can
  answer nothing else.
* `outcome_integerArguments`, `outcome_integerArguments_error` — the first argument that is no
  integer is reported.
* `arithmetic_is_exact_or_refused` — the four native functions.
-/

namespace SmallLisp.Arithmetic

/-- Cutting off twice is cutting off once. -/
theorem tdiv_tdiv (a b c : Int) : (a.tdiv b).tdiv c = a.tdiv (b * c) := by
  have hnat : ∀ m n k : Nat, ((m : Int).tdiv n).tdiv k = (m : Int).tdiv (n * k) := by
    intro m n k
    rw [← Int.ofNat_tdiv, ← Int.ofNat_tdiv, ← Int.natCast_mul, ← Int.ofNat_tdiv,
      Nat.div_div_eq_div_mul]
  obtain ⟨m, rfl | rfl⟩ := Int.eq_nat_or_neg a <;> obtain ⟨n, rfl | rfl⟩ := Int.eq_nat_or_neg b <;>
    obtain ⟨k, rfl | rfl⟩ := Int.eq_nat_or_neg c <;>
    simp only [Int.neg_tdiv, Int.tdiv_neg, Int.neg_mul, Int.mul_neg, Int.neg_neg, hnat]

/-! ### Words -/

/-- A word holds the integer. -/
def Fits (value : Int) : Prop :=
  Int64.minValue.toInt ≤ value ∧ value ≤ Int64.maxValue.toInt

instance (value : Int) : Decidable (Fits value) :=
  inferInstanceAs (Decidable (_ ∧ _))

theorem fits_toInt (word : Int64) : Fits word.toInt :=
  ⟨word.minValue_le_toInt, word.toInt_le⟩

theorem fit_of_fits {value : Int} (h : Fits value) :
    ∃ word, fit value = .ok word ∧ word.toInt = value := by
  refine ⟨Int64.ofInt value, if_pos h, Int64.toInt_ofInt_of_le h.1 ?_⟩
  exact Int.lt_of_le_of_lt h.2 (by decide)

theorem fit_of_not_fits {value : Int} (h : ¬Fits value) : fit value = .error .overflow :=
  if_neg h

/-! ### Operations -/

/-- The operations that take any number of operands. -/
inductive Operation where
  | sum
  | product
  | difference
  | quotient
  deriving DecidableEq

/-- The sum of words as an integer. -/
def total : List Int64 → Int
  | [] => 0
  | n :: rest => n.toInt + total rest

/-- The product of words as an integer. -/
def totalProduct : List Int64 → Int
  | [] => 1
  | n :: rest => n.toInt * totalProduct rest

namespace Operation

/-- How the operation is carried out. -/
def compute : Operation → List Int64 → Except Fault Int64
  | sum => Arithmetic.sum
  | product => Arithmetic.product
  | difference => Arithmetic.difference
  | quotient => Arithmetic.quotient

/-- The native function that carries out the operation. -/
def primitive : Operation → Primitive
  | sum => .add
  | product => .multiply
  | difference => .subtract
  | quotient => .divide

/-- There is nothing to subtract or to divide. -/
def Lacks (op : Operation) (args : List Value) : Prop :=
  args = [] ∧ (op = .difference ∨ op = .quotient)

instance (op : Operation) (args : List Value) : Decidable (op.Lacks args) :=
  inferInstanceAs (Decidable (_ ∧ _))

/-- What the operation starts with, and its operands. A difference or quotient starts with its first
argument, unless that is the only one. -/
def split : Operation → List Int64 → Int64 × List Int64
  | sum, args => (0, args)
  | product, args => (1, args)
  | difference, first :: second :: others => (first, second :: others)
  | difference, args => (0, args)
  | quotient, first :: second :: others => (first, second :: others)
  | quotient, args => (1, args)

/-- The exact value. -/
def value : Operation → Int → List Int64 → Int
  | sum, start, operands => start + total operands
  | product, start, operands => start * totalProduct operands
  | difference, start, operands => start - total operands
  | quotient, start, operands => start.tdiv (totalProduct operands)

/-- The value with one more operand. -/
def apply : Operation → Int → Int → Int
  | sum, value, n => value + n
  | product, value, n => value * n
  | difference, value, n => value - n
  | quotient, value, n => value.tdiv n

theorem value_nil (op : Operation) (start : Int) : op.value start [] = start := by
  cases op <;> simp [value, total, totalProduct]

/-- **The closed form** is what one operand after another gives. -/
theorem value_cons (op : Operation) (start : Int) (n : Int64) (rest : List Int64) :
    op.value start (n :: rest) = op.value (op.apply start n.toInt) rest := by
  cases op with
  | sum => exact (Int.add_assoc _ _ _).symm
  | product => exact (Int.mul_assoc _ _ _).symm
  | difference => exact (Int.sub_sub _ _ _).symm
  | quotient => exact (tdiv_tdiv _ _ _).symm

/-- The operation cannot take the operand. -/
def Refuses (op : Operation) (n : Int64) : Prop :=
  op = .quotient ∧ n = 0

instance (op : Operation) (n : Int64) : Decidable (op.Refuses n) :=
  inferInstanceAs (Decidable (_ ∧ _))

/-- One step of the calculation. -/
def step (op : Operation) (value n : Int64) : Except Fault Int64 :=
  if op.Refuses n then .error .divisionByZero else fit (op.apply value.toInt n.toInt)

/-- The calculation, operand by operand. -/
def fold (op : Operation) (start : Int64) (operands : List Int64) : Except Fault Int64 :=
  operands.foldlM op.step start

theorem step_of_not_refuses {op : Operation} {n : Int64} (h : ¬op.Refuses n) (value : Int64) :
    op.step value n = fit (op.apply value.toInt n.toInt) :=
  if_neg h

theorem compute_eq_fold (op : Operation) (args : List Int64) :
    op.compute args = op.fold (op.split args).1 (op.split args).2 := by
  cases op with
  | sum => rfl
  | product => rfl
  | difference =>
      rcases args with _ | ⟨first, _ | ⟨second, others⟩⟩
      · rfl
      · have hstep : difference.step 0 first = fit (-first.toInt) := by
          rw [step_of_not_refuses (by simp [Refuses]), apply, Int64.toInt_zero, Int.zero_sub]
        simp [compute, Arithmetic.difference, fold, split, hstep]
      · rfl
  | quotient =>
      have hstep : quotient.step = fun value n =>
          if n = 0 then .error .divisionByZero else fit (value.toInt.tdiv n.toInt) := by
        funext value n
        simp [step, Refuses, apply]
      rcases args with _ | ⟨first, _ | ⟨second, others⟩⟩
      · rfl
      · rw [fold, hstep]
        rfl
      · rw [fold, hstep]
        rfl

/-! ### What a calculation answers -/

/-- No operand is refused. -/
def Clear (op : Operation) (operands : List Int64) : Prop :=
  ∀ n ∈ operands, ¬op.Refuses n

/-- The result is exact: every value on the way to it fits, and no divisor is zero. -/
structure Returns (op : Operation) (start : Int64) (operands : List Int64) (result : Int64) :
    Prop where
  clear : op.Clear operands
  fits (count : Nat) : Fits (op.value start.toInt (operands.take count))
  exact_value : result.toInt = op.value start.toInt operands

/-- The value of some of the operands does not fit, and no zero divisor is among these. -/
def Overflows (op : Operation) (start : Int64) (operands : List Int64) : Prop :=
  ∃ count, op.Clear (operands.take count) ∧ ¬Fits (op.value start.toInt (operands.take count))

/-- A zero divisor is met, and before it no other one and no value that does not fit. -/
def DividesByZero (op : Operation) (start : Int64) (operands : List Int64) : Prop :=
  ∃ count n, operands[count]? = some n ∧ op.Refuses n ∧ op.Clear (operands.take count) ∧
    ∀ fewer ≤ count, Fits (op.value start.toInt (operands.take fewer))

/-- The answer is the right one. -/
def Answers (op : Operation) (start : Int64) (operands : List Int64) :
    Except Fault Int64 → Prop
  | .ok result => op.Returns start operands result
  | .error .overflow => op.Overflows start operands
  | .error .divisionByZero => op.DividesByZero start operands

variable {op : Operation} {start next n : Int64} {operands rest : List Int64}

theorem fits_take_zero (op : Operation) (start : Int64) (operands : List Int64) :
    Fits (op.value start.toInt (operands.take 0)) := by
  rw [List.take_zero, value_nil]
  exact fits_toInt start

theorem clear_cons_iff : op.Clear (n :: rest) ↔ ¬op.Refuses n ∧ op.Clear rest :=
  List.forall_mem_cons

/-- Behind an operand that was taken, what is answered is said about the operands that are left. -/
theorem Answers.cons (hclear : ¬op.Refuses n) (hnext : next.toInt = op.apply start.toInt n.toInt)
    {answer : Except Fault Int64} (h : op.Answers next rest answer) :
    op.Answers start (n :: rest) answer := by
  have hvalue : ∀ count, op.value start.toInt ((n :: rest).take (count + 1)) =
      op.value next.toInt (rest.take count) := by
    intro count
    rw [List.take_succ_cons, value_cons, hnext]
  have hstart := op.fits_take_zero start (n :: rest)
  cases answer with
  | ok result =>
      refine ⟨clear_cons_iff.2 ⟨hclear, h.clear⟩, fun count => ?_, ?_⟩
      · cases count with
        | zero => exact hstart
        | succ count => exact hvalue count ▸ h.fits count
      · rw [value_cons, ← hnext]
        exact h.exact_value
  | error fault =>
      cases fault with
      | overflow =>
          obtain ⟨count, hrest, hfits⟩ := h
          exact ⟨count + 1, clear_cons_iff.2 ⟨hclear, hrest⟩, hvalue count ▸ hfits⟩
      | divisionByZero =>
          obtain ⟨count, zero, hzero, hrefuses, hrest, hfits⟩ := h
          refine ⟨count + 1, zero, hzero, hrefuses, clear_cons_iff.2 ⟨hclear, hrest⟩,
            fun fewer hfewer => ?_⟩
          cases fewer with
          | zero => exact hstart
          | succ fewer => exact hvalue fewer ▸ hfits fewer (Nat.le_of_succ_le_succ hfewer)

/-- **What a calculation answers is right.** -/
theorem fold_answers (op : Operation) (start : Int64) (operands : List Int64) :
    op.Answers start operands (op.fold start operands) := by
  induction operands generalizing start with
  | nil =>
      refine ⟨List.forall_mem_nil _, fun count => ?_, (value_nil op start.toInt).symm⟩
      rw [List.take_nil]
      exact op.fits_take_zero start []
  | cons n rest ih =>
      rw [fold, List.foldlM_cons]
      by_cases hrefuses : op.Refuses n
      · rw [step, if_pos hrefuses]
        refine ⟨0, n, rfl, hrefuses, List.forall_mem_nil _, fun fewer hfewer => ?_⟩
        rw [Nat.le_zero.1 hfewer]
        exact op.fits_take_zero start (n :: rest)
      · rw [step_of_not_refuses hrefuses]
        by_cases hfits : Fits (op.apply start.toInt n.toInt)
        · obtain ⟨next, hfit, hnext⟩ := fit_of_fits hfits
          rw [hfit]
          exact (ih next).cons hrefuses hnext
        · rw [fit_of_not_fits hfits]
          refine ⟨1, List.forall_mem_singleton.2 hrefuses, ?_⟩
          rw [List.take_succ_cons, List.take_zero, value_cons, value_nil]
          exact hfits

theorem Returns.not_overflows {result : Int64} (h : op.Returns start operands result) :
    ¬op.Overflows start operands := by
  rintro ⟨count, -, hnot⟩
  exact hnot (h.fits count)

theorem Returns.not_dividesByZero {result : Int64} (h : op.Returns start operands result) :
    ¬op.DividesByZero start operands := by
  rintro ⟨count, n, hn, hrefuses, -⟩
  exact h.clear n (List.mem_of_getElem? hn) hrefuses

/-- What comes first is reported: a value that does not fit, or a zero divisor. -/
theorem Overflows.not_dividesByZero (h : op.Overflows start operands) :
    ¬op.DividesByZero start operands := by
  obtain ⟨count, hclear, hnot⟩ := h
  rintro ⟨place, n, hn, hrefuses, -, hfits⟩
  rcases Nat.lt_or_ge place count with hlt | hle
  · have htaken : (operands.take count)[place]? = some n := by
      rw [List.getElem?_take_of_lt hlt, hn]
    exact hclear n (List.mem_of_getElem? htaken) hrefuses
  · exact hnot (hfits count hle)

/-- **There is no other right answer.** -/
theorem Answers.unique {answer answer' : Except Fault Int64} (h : op.Answers start operands answer)
    (h' : op.Answers start operands answer') : answer = answer' := by
  rcases answer with (_ | _) | result <;> rcases answer' with (_ | _) | result'
  · rfl
  · cases Overflows.not_dividesByZero h h'
  · cases Returns.not_overflows h' h
  · cases Overflows.not_dividesByZero h' h
  · rfl
  · cases Returns.not_dividesByZero h' h
  · cases Returns.not_overflows h h'
  · cases Returns.not_dividesByZero h h'
  · rw [Int64.toInt_inj.1 (h.exact_value.trans h'.exact_value.symm)]

/-- A calculation answers what is right, and only that. -/
theorem compute_eq_iff {args : List Int64} {answer : Except Fault Int64} :
    op.compute args = answer ↔ op.Answers (op.split args).1 (op.split args).2 answer := by
  rw [compute_eq_fold]
  constructor
  · rintro rfl
    exact fold_answers op _ _
  · exact (fold_answers op _ _).unique

end Operation

end SmallLisp.Arithmetic

namespace SmallLisp.Eval

open EvalM Arithmetic

/-! ### Integer arguments -/

section

variable (who : Primitive) (held : List Hold) (machine : Machine)

theorem outcome_integerArguments (numbers : List Int64) :
    ((numbers.map Value.integer).mapM (integerArgument who)).outcome held machine =
      (.ok numbers, machine) := by
  induction numbers with
  | nil => rfl
  | cons n rest ih =>
      have hfirst : (integerArgument who (.integer n)).outcome held machine = (.ok n, machine) :=
        rfl
      rw [List.map_cons, List.mapM_cons, outcome_bind_ok hfirst, outcome_bind_ok ih]
      rfl

/-- The first argument that is no integer is reported. -/
theorem outcome_integerArguments_error (before : List Int64) {arg : Value}
    (harg : arg.integer? = none) (after : List Value) :
    ((before.map Value.integer ++ arg :: after).mapM (integerArgument who)).outcome held machine =
      (.error (.error (.type (.notInteger who.name arg.typeName (machine.store.print arg)))),
        machine) := by
  induction before with
  | nil =>
      have hfirst : (integerArgument who arg).outcome held machine =
          (.error (.error (.type (.notInteger who.name arg.typeName
            (machine.store.print arg)))), machine) := by
        cases arg with
        | integer n => cases harg
        | _ => rfl
      rw [List.map_nil, List.nil_append, List.mapM_cons, outcome_bind_error hfirst]
  | cons n rest ih =>
      have hfirst : (integerArgument who (.integer n)).outcome held machine = (.ok n, machine) :=
        rfl
      rw [List.map_cons, List.cons_append, List.mapM_cons, outcome_bind_ok hfirst,
        outcome_bind_error ih]

end

/-- Arguments are all integers, or there is a first one that is none. -/
theorem integers_or_first_other (args : List Value) :
    (∃ numbers : List Int64, args = numbers.map .integer) ∨
      ∃ (before : List Int64) (arg : Value) (after : List Value),
        args = before.map .integer ++ arg :: after ∧ arg.integer? = none := by
  induction args with
  | nil => exact .inl ⟨[], rfl⟩
  | cons arg rest ih =>
      cases harg : arg.integer? with
      | none => exact .inr ⟨[], arg, rest, rfl, harg⟩
      | some n =>
          obtain rfl : arg = .integer n := by
            cases arg with
            | integer m => rw [Option.some.inj harg]
            | _ => cases harg
          rcases ih with ⟨numbers, rfl⟩ | ⟨before, other, after, rfl, hother⟩
          · exact .inl ⟨n :: numbers, rfl⟩
          · exact .inr ⟨n :: before, other, after, rfl, hother⟩

/-! ### The native functions -/

/-- How an answer is reported. -/
def reported (who : Primitive) : Except Fault Int64 → Except Halt Value
  | .ok result => .ok (.integer result)
  | .error .overflow => .error (.error (.eval (.overflow who.name)))
  | .error .divisionByZero => .error (.error (.eval .divisionByZero))

theorem reported_inj {who : Primitive} {answer answer' : Except Fault Int64} :
    reported who answer = reported who answer' ↔ answer = answer' := by
  constructor
  · intro h
    rcases answer with (_ | _) | result <;> rcases answer' with (_ | _) | result' <;>
      simp_all [reported]
  · rintro rfl
    rfl

section

variable (session : Session) (perform : Task → EvalM Value) {op : Operation} (held : List Hold)
  (machine : Machine)

theorem outcome_applyPrimitive_of_lacks {args : List Value} (h : op.Lacks args) :
    (applyPrimitive session perform op.primitive args).outcome held machine =
      (.error (.error (.arity ⟨op.primitive.name, .atLeast 1, 0⟩)), machine) := by
  obtain ⟨rfl, rfl | rfl⟩ := h <;> rfl

theorem applyPrimitive_of_not_lacks {args : List Value} (h : ¬op.Lacks args) :
    applyPrimitive session perform op.primitive args = calculate op.primitive op.compute args := by
  cases op with
  | sum => rfl
  | product => rfl
  | difference =>
      cases args with
      | nil => cases h ⟨rfl, .inl rfl⟩
      | cons first others => rfl
  | quotient =>
      cases args with
      | nil => cases h ⟨rfl, .inr rfl⟩
      | cons first others => rfl

theorem outcome_applyPrimitive_integers {numbers : List Int64}
    (h : ¬op.Lacks (numbers.map .integer)) :
    (applyPrimitive session perform op.primitive (numbers.map .integer)).outcome held machine =
      (reported op.primitive (op.compute numbers), machine) := by
  rw [applyPrimitive_of_not_lacks session perform h, calculate,
    outcome_bind_ok (outcome_integerArguments op.primitive held machine numbers)]
  rcases op.compute numbers with (_ | _) | result <;> rfl

theorem outcome_applyPrimitive_other {before : List Int64} {arg : Value} {after : List Value}
    (harg : arg.integer? = none) (h : ¬op.Lacks (before.map .integer ++ arg :: after)) :
    (applyPrimitive session perform op.primitive (before.map .integer ++ arg :: after)).outcome
        held machine =
      (.error (.error (.type (.notInteger op.primitive.name arg.typeName
        (machine.store.print arg)))), machine) := by
  rw [applyPrimitive_of_not_lacks session perform h, calculate, outcome_bind_error
    (outcome_integerArguments_error op.primitive held machine before harg after)]

/-- What can become of an application: arguments are lacking, one of them is no integer, or there is
an answer. -/
theorem outcome_applyPrimitive_cases (op : Operation) (args : List Value) (held : List Hold)
    (machine : Machine) :
    let ran := (applyPrimitive session perform op.primitive args).outcome held machine
    (op.Lacks args ∧
      ran = (.error (.error (.arity ⟨op.primitive.name, .atLeast 1, 0⟩)), machine)) ∨
    (∃ (before : List Int64) (arg : Value) (after : List Value),
      args = before.map .integer ++ arg :: after ∧ arg.integer? = none ∧
      ran = (.error (.error (.type (.notInteger op.primitive.name arg.typeName
        (machine.store.print arg)))), machine)) ∨
    ∃ numbers : List Int64, args = numbers.map .integer ∧
      ran = (reported op.primitive (op.compute numbers), machine) := by
  intro ran
  by_cases h : op.Lacks args
  · exact .inl ⟨h, outcome_applyPrimitive_of_lacks session perform held machine h⟩
  · rcases integers_or_first_other args with ⟨numbers, rfl⟩ | ⟨before, arg, after, rfl, harg⟩
    · exact .inr (.inr ⟨numbers, rfl,
        outcome_applyPrimitive_integers session perform held machine h⟩)
    · exact .inr (.inl ⟨before, arg, after, rfl, harg,
        outcome_applyPrimitive_other session perform held machine harg h⟩)

end

/-- **Arithmetic is exact, or refused.** A difference or quotient of nothing is refused. Otherwise
the first argument that is no integer is reported. If all of them are integers, the native function
returns an integer just if the exact value of the operands so far always fits a word and no divisor
is zero, and then it returns the exact value: the start with all operands added, multiplied,
subtracted, or divided by, which is division by their product, cut off toward zero. An overflow is
reported just if some value on the way does not fit and no zero divisor has been met, and division
by zero just if a zero divisor is met first. Nothing is changed in any case. -/
theorem arithmetic_is_exact_or_refused (session : Session) (perform : Task → EvalM Value)
    (op : Operation) (args : List Value) (held : List Hold) (machine : Machine) :
    let ran := (applyPrimitive session perform op.primitive args).outcome held machine
    let overflow := Error.eval (.overflow op.primitive.name)
    let zero := Error.eval .divisionByZero
    ran.2 = machine ∧
    (op.Lacks args → ran.1 = .error (.error (.arity ⟨op.primitive.name, .atLeast 1, 0⟩))) ∧
    (¬op.Lacks args → ∀ (before : List Int64) (arg : Value) (after : List Value),
      args = before.map .integer ++ arg :: after → arg.integer? = none →
      ran.1 = .error (.error (.type (.notInteger op.primitive.name arg.typeName
        (machine.store.print arg))))) ∧
    (¬op.Lacks args → ∀ numbers : List Int64, args = numbers.map .integer →
      let start := (op.split numbers).1
      let operands := (op.split numbers).2
      (∀ result, ran.1 = .ok (.integer result) ↔ op.Returns start operands result) ∧
      (ran.1 = .error (.error overflow) ↔ op.Overflows start operands) ∧
      (ran.1 = .error (.error zero) ↔ op.DividesByZero start operands) ∧
      ((∃ result, ran.1 = .ok (.integer result)) ∨ ran.1 = .error (.error overflow) ∨
        ran.1 = .error (.error zero))) ∧
    (∀ value, ran.1 = .ok value →
      ∃ (numbers : List Int64) (result : Int64),
        args = numbers.map .integer ∧ value = .integer result) ∧
    overflow.message = op.primitive.name ++ ": integer overflow" ∧
    zero.message = "/: division by zero" := by
  intro ran overflow zero
  refine ⟨?_, fun h => ?_, fun hnot before arg after hargs harg => ?_, fun hnot numbers hargs => ?_,
    fun value hvalue => ?_, rfl, rfl⟩
  · obtain ⟨-, h⟩ | ⟨_, _, _, _, _, h⟩ | ⟨_, _, h⟩ :=
      outcome_applyPrimitive_cases session perform op args held machine <;>
        exact congrArg Prod.snd h
  · exact congrArg Prod.fst (outcome_applyPrimitive_of_lacks session perform held machine h)
  · subst hargs
    exact congrArg Prod.fst
      (outcome_applyPrimitive_other session perform held machine harg hnot)
  · have hran : ran.1 = reported op.primitive (op.compute numbers) := by
      subst hargs
      exact congrArg Prod.fst (outcome_applyPrimitive_integers session perform held machine hnot)
    have hanswer : ∀ answer, ran.1 = reported op.primitive answer ↔
        op.Answers (op.split numbers).1 (op.split numbers).2 answer := fun answer => by
      rw [hran, reported_inj, Operation.compute_eq_iff]
    refine ⟨fun result => hanswer (.ok result), hanswer (.error .overflow),
      hanswer (.error .divisionByZero), ?_⟩
    rw [hran]
    rcases op.compute numbers with (_ | _) | result
    · exact .inr (.inl rfl)
    · exact .inr (.inr rfl)
    · exact .inl ⟨result, rfl⟩
  · obtain ⟨-, h⟩ | ⟨_, _, _, _, _, h⟩ | ⟨numbers, hargs, h⟩ :=
      outcome_applyPrimitive_cases session perform op args held machine
    · cases hvalue.symm.trans (congrArg Prod.fst h)
    · cases hvalue.symm.trans (congrArg Prod.fst h)
    · have hreported : .ok value = reported op.primitive (op.compute numbers) :=
        hvalue.symm.trans (congrArg Prod.fst h)
      rcases hanswer : op.compute numbers with (_ | _) | result <;> rw [hanswer] at hreported <;>
        cases hreported
      exact ⟨numbers, result, hargs, rfl⟩

/-- `(-)` lacks an argument, in `(* 2 T NIL)` the second one is reported, and adding one to the
largest word overflows even if one is subtracted again. -/
theorem arithmetic_is_exact_or_refused_at_the_edge :
    let session : Session := { globals := ⟨0, 0⟩ }
    let machine : Machine := { store := ⟨#[]⟩ }
    let ran := fun (op : Operation) (args : List Value) =>
      ((applyPrimitive session (fun _ => pure .nil) op.primitive args).outcome [] machine).1
    ran .difference [] = .error (.error (.arity ⟨"-", .atLeast 1, 0⟩)) ∧
      ran .product [.integer 2, .t, .nil] =
        .error (.error (.type (.notInteger "*" Value.t.typeName (machine.store.print .t)))) ∧
      ran .sum [.integer Int64.maxValue, .integer 1, .integer (-1)] =
        .error (.error (.eval (.overflow "+"))) := by
  intro session machine ran
  have hran := fun op args =>
    arithmetic_is_exact_or_refused session (fun _ => pure .nil) op args [] machine
  obtain ⟨-, hlacks, -⟩ := hran .difference []
  obtain ⟨-, -, hother, -⟩ := hran .product [.integer 2, .t, .nil]
  obtain ⟨-, -, -, hintegers, -⟩ :=
    hran .sum [.integer Int64.maxValue, .integer 1, .integer (-1)]
  obtain ⟨-, hoverflow, -⟩ := hintegers (by decide) [Int64.maxValue, 1, -1] rfl
  have hclear : Operation.sum.Clear [Int64.maxValue, 1] := by
    intro n _ hrefuses
    cases hrefuses.1
  exact ⟨hlacks (by decide), hother (by decide) [2] .t [.nil] rfl rfl,
    hoverflow.2 ⟨2, hclear, by decide⟩⟩

end SmallLisp.Eval
