import SmallLisp.Params
import SmallLisp.Store.Census

/-!
# Running evaluations

An evaluation changes a machine: the store, the number of evaluations in progress, and the
census of what is in use, if the host wants one. It ends with a result, with an error, or
because the host's patience is exhausted. Changes made before an error stay.

While an evaluation is in progress, each of its steps holds the values and frames that it is
going to need, and what a step holds is in use. A step holds nothing any more once it has handed
it on: the arguments of a call belong to the frame that binds them.
-/

namespace SmallLisp

/-- The store, what is in use there, and the number of evaluations in progress. -/
structure Machine where
  store : Store := {}
  /-- None is kept for a host that never releases a frame. -/
  census : Option Census := none
  depth : Nat := 0

/-- Leave the frame of a call. Without a census it is not known whether the frame can be released,
and it stays as it is. -/
def Machine.leave (machine : Machine) (held : List Hold) (frame : FrameRef) : Machine :=
  match machine with
  | ⟨store, none, depth⟩ => ⟨store, none, depth⟩
  | ⟨store, some census, depth⟩ =>
      let (store, census) := census.leave store held frame
      ⟨store, some census, depth⟩

namespace Machine

theorem leave_of_none {machine : Machine} (h : machine.census = none) (held : List Hold)
    (frame : FrameRef) : machine.leave held frame = machine := by
  obtain ⟨store, census, depth⟩ := machine
  obtain rfl : census = none := h
  rfl

@[simp] theorem depth_leave (machine : Machine) (held : List Hold) (frame : FrameRef) :
    (machine.leave held frame).depth = machine.depth := by
  obtain ⟨store, _ | census, depth⟩ := machine <;> rfl

/-- The frame of a call is left as it is or without its bindings. -/
theorem store_leave (machine : Machine) (held : List Hold) (frame : FrameRef) :
    (machine.leave held frame).store = machine.store ∨
      (machine.leave held frame).store = machine.store.clear frame := by
  obtain ⟨store, _ | census, depth⟩ := machine
  · exact .inl rfl
  · simp only [leave, Census.leave, Census.release]
    split
    · exact .inl rfl
    · split
      · exact .inr rfl
      · exact .inl rfl

end Machine

/-- Why an evaluation has no result. -/
inductive Halt where
  | error (cause : Error)
  /-- The bound on nested steps that the host has set was reached. -/
  | exhausted
  deriving DecidableEq

/-- Evaluations that give a result of some type, in the course of steps that hold something. -/
abbrev EvalM := ReaderT (List Hold) (ExceptT Halt (StateM Machine))

namespace EvalM

variable {α : Type}

/-- Stop with an error. -/
def fail (cause : Error) : EvalM α :=
  throw (.error cause)

/-- Look at the store. -/
def inspect (view : Store → α) : EvalM α := do
  return view (← get).store

/-- Change the store. -/
def update (change : Store → α × Store) : EvalM α :=
  modifyGet fun ⟨store, census, depth⟩ =>
    let (result, store) := change store
    (result, ⟨store, census, depth⟩)

/-- The printed form of a value. -/
def printed (value : Value) : EvalM String :=
  inspect (·.print value)

/-- Run an evaluation while some values are held. -/
def holding (values : List Value) (evaluation : EvalM α) : EvalM α := fun held =>
  evaluation (.values values :: held)

/-- Run an evaluation one level deeper. The level is left again however it ends. -/
def deeper (evaluation : EvalM α) : EvalM α := fun held =>
  ExceptT.mk fun ⟨store, census, depth⟩ =>
    let (result, ⟨store, census, depth⟩) := (evaluation held).run ⟨store, census, depth + 1⟩
    (result, ⟨store, census, depth - 1⟩)

/-- The result of a call, held by whoever receives it. -/
def resultHold : Except Halt Value → Hold
  | .ok value => .values [value]
  | .error _ => .values []

/-- Run the body of a call in its frame and leave the frame, however the body ends. -/
def within (frame : FrameRef) (body : EvalM Value) : EvalM Value := fun held =>
  ExceptT.mk fun machine =>
    let (result, machine) := (body (.frames [frame] :: held)).run machine
    (result, machine.leave (resultHold result :: held) frame)

/-- Run an evaluation and hand an error to whoever asked instead of stopping. -/
def attempt (evaluation : EvalM α) : EvalM (Except Error α) := fun held =>
  ExceptT.mk fun machine =>
    match (evaluation held).run machine with
    | (.ok result, machine) => (.ok (.ok result), machine)
    | (.error (.error cause), machine) => (.ok (.error cause), machine)
    | (.error .exhausted, machine) => (.error .exhausted, machine)

end EvalM

end SmallLisp
