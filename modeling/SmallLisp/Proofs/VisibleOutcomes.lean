import SmallLisp.Proofs.Endings
import SmallLisp.Proofs.Replies

/-!
# Outcomes that look the same

With a census, a frame is released when a call leaves it and nothing that is held leads to it any
more. Two programs that do the same but hold different things meanwhile may therefore leave
different stores behind. They differ only where nobody can look: everything that can be reached from
the result and from what is held throughout is the same.

## Main results

* `Eval.seenAlike_of_compare` — programs whose outcomes compare without a census have outcomes that
  look the same with one.
* `Mirror.machine_intact` — the machine of every session of a workspace is in order, whatever was
  done with the workspace before.
-/

namespace SmallLisp

/-- All that can be reached from what is held is there, with the frames around each frame, and is
listed in the census if there is one. -/
structure Machine.Intact (machine : Machine) (held : List Hold) : Prop where
  present {item : Item} : machine.store.Reaches (held.flatMap Hold.items) item →
    (machine.store.find? item).isSome = true
  chained : machine.store.Chained (machine.store.Reaches (held.flatMap Hold.items))
  listed (census : Census) : machine.census = some census →
    census.Lists machine.store (machine.store.Reaches (held.flatMap Hold.items))

/-- The machines of a workspace are in order. -/
theorem Mirror.machine_intact {hosts : HostFunction → Prop} (m : Mirror hosts) {session : Session}
    (hsession : session ∈ m.sessions.contents) :
    Machine.Intact ⟨m.left.store, m.left.census, session.depth⟩
      (.frames session.keeps :: m.left.held) := by
  have hreached : ∀ {item}, m.twin.left.Reaches ((m.hands session).held.flatMap Hold.items) item →
      m.twin.intact item := fun hitem => hitem.induct (m.rooted hsession) m.twin.closed
  exact ⟨fun hitem => m.twin.present (hreached hitem),
    fun frame hframe => m.twin.chained frame (hreached hframe),
    fun census hcensus => (m.twin.listed census hcensus).mono fun _ => hreached⟩

/-- The values in the slots of a workspace are held. -/
theorem Mirror.value_reached {hosts : HostFunction → Prop} (m : Mirror hosts) {value : Value}
    (h : value ∈ m.left.values.contents) (session : Session) :
    value.In (m.left.store.Reaches
      ((.frames session.keeps :: m.left.held).flatMap Hold.items)) := by
  intro item hitem
  refine Store.reaches_of_mem (List.mem_append_right _ (List.mem_append_right _ ?_))
  exact List.mem_append_left _ (List.mem_flatMap.2 ⟨value, h, hitem⟩)

/-- The primitive that the function is. -/
def Native.primitive? : Native → Option Primitive
  | .primitive found => some found
  | .host _ => none

theorem Native.eq_of_primitive? {native : Native} {primitive : Primitive}
    (h : native.primitive? = some primitive) : native = .primitive primitive := by
  cases native with
  | primitive found => exact congrArg _ (Option.some.inj h)
  | host _ => cases h

/-- A session that knows no functions of the host takes no notice of the depth. -/
theorem Session.ignoresDepth_of_primitive? {session : Session}
    (h : session.natives.values.all (·.primitive?.isSome) = true) : session.IgnoresDepth := by
  intro name function hlookup
  have hprimitive := List.all_eq_true.1 h _ (Table.mem_values_of_lookup hlookup)
  cases hprimitive

namespace EvalM

/-- The outcomes look the same to whoever has the result and what is held: all that can be reached
from there is the same. -/
structure SeenAlike (held : List Hold) (outcome other : Except Halt Value × Machine) : Prop where
  result_eq : outcome.1 = other.1
  depth_eq : outcome.2.depth = other.2.depth
  agree : outcome.2.store.AgreeOn
    (outcome.2.store.Reaches ((resultHold outcome.1 :: held).flatMap Hold.items)) other.2.store

end EvalM

namespace Eval

open EvalM

/-- Twins with the same right store agree on the left with each other, wherever one comes to from
roots that are intact in both. -/
theorem agreeOn_of_right_eq {common : Nat → Prop} {w w' : Twin common} (h : w.right = w'.right)
    {roots : List Item} (hroots : ∀ item ∈ roots, w.intact item ∧ w'.intact item) :
    w.left.AgreeOn (w.left.Reaches roots) w'.left := by
  have hagree : ∀ item, w.intact item ∧ w'.intact item →
      w.left.find? item = w'.left.find? item := by
    rintro item ⟨hitem, hitem'⟩
    rw [w.agree item hitem, w'.agree item hitem', h]
  intro item hitem
  refine hagree item (hitem.induct hroots ?_)
  intro item hboth other hother
  refine ⟨w.closed item hboth.1 other hother, w'.closed item hboth.2 other ?_⟩
  rwa [← Store.references_congr (hagree item hboth)]

variable {common : Nat → Prop} {globals : FrameRef} {c : Hands globals} {w : Stage common globals}

/-- The result and what is held are intact at the end. -/
theorem Stage.Rooted.result (hrooted : w.Rooted c) {w' : Stage common globals}
    (hleads : w.twin.Leads c.items w'.twin) {result : Except Halt Value}
    (hresult : ∀ value, result = .ok value → w'.Has value) :
    ∀ item ∈ (resultHold result :: c.held).flatMap Hold.items, w'.twin.intact item := by
  intro item hitem
  rcases List.mem_append.1 hitem with hitem | hitem
  · cases result with
    | error _ => exact absurd hitem List.not_mem_nil
    | ok value =>
        refine hresult value rfl item ?_
        simpa [resultHold, Hold.items] using hitem
  · exact hleads.rooted hitem (hrooted item hitem)

/-- **Programs that compare without a census look the same with one.** -/
theorem seenAlike_of_compare (hrooted : w.Rooted c) {f g : EvalM Value}
    (hf : Agrees c w Stage.Has f) (hg : Agrees c w Stage.Has g)
    (h : Compare Eq (f.outcome c.held w.right) (g.outcome c.held w.right)) :
    Compare (SeenAlike c.held) (f.outcome c.held w.left) (g.outcome c.held w.left) := by
  obtain ⟨result, w₁, hleft₁, hright₁, hleads₁, hdepth₁, hhas₁⟩ :=
    hf hrooted c.held c.held fun _ => rfl
  obtain ⟨result', w₂, hleft₂, hright₂, hleads₂, hdepth₂, hhas₂⟩ :=
    hg hrooted c.held c.held fun _ => rfl
  rw [hright₁, hright₂] at h
  rw [hleft₁, hleft₂]
  rcases h with hreached | hreached | heq
  · exact .inl hreached
  · exact .inr (.inl hreached)
  · obtain ⟨rfl, hmachine⟩ := Prod.mk.inj heq
    refine .inr (.inr ⟨rfl, hdepth₁.trans hdepth₂.symm, ?_⟩)
    exact agreeOn_of_right_eq (congrArg Machine.store hmachine) fun item hitem =>
      ⟨hrooted.result hleads₁ hhas₁ item hitem, hrooted.result hleads₂ hhas₂ item hitem⟩

end Eval

/-! ### A machine as a stage -/

namespace Machine.Intact

open EvalM Eval

variable {machine : Machine} {held : List Hold} {session : Session}

/-- The machine, with a census and without. -/
def stage (h : machine.Intact held) (hglobals : .frame session.globals ∈ held.flatMap Hold.items) :
    Stage (fun _ => True) session.globals where
  twin := .alone machine.store machine.census (fun _ hitem _ hother => hitem.step hother) h.chained
    h.present h.listed
  depth := machine.depth
  globals_intact := Store.reaches_of_mem hglobals

/-- **Steady programs end alike with a census** if they yield the same outcomes without one. -/
theorem endAlike (h : machine.Intact held)
    (hglobals : .frame session.globals ∈ held.flatMap Hold.items) {P Q : Value → Prop}
    {f g : Nat → EvalM Value} (hf : Steady P f) (hg : Steady Q g)
    (hagrees : ∀ fuel, Agrees ⟨held, hglobals⟩ (h.stage hglobals) Stage.Has (f fuel))
    (hagrees' : ∀ fuel, Agrees ⟨held, hglobals⟩ (h.stage hglobals) Stage.Has (g fuel))
    {outcomes : Nat → Except Halt Value × Machine}
    (hleft : Yields f held { machine with census := none } outcomes)
    (hright : Yields g held { machine with census := none } outcomes) :
    EndAlike (SeenAlike held) f g held machine := by
  obtain ⟨more, more', hcompare⟩ := hleft.compare hright
  refine .of_steps (fun _ _ halike => halike.result_eq) hf hg more more' fun fuel => ?_
  exact seenAlike_of_compare (w := h.stage hglobals) (c := ⟨held, hglobals⟩)
    (fun _ hitem => Store.reaches_of_mem hitem) (hagrees _) (hagrees' _) (hcompare fuel)

end Machine.Intact

end SmallLisp
