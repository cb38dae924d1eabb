import SmallLisp.Session.Lifecycle

/-!
# Sessions as they start

The tables of a new session are filled from the list of all primitives. What holds of every entry
that is put in holds of everything that is found there.

## Main results

* `primitives_lookup` — every native function of a new session is a primitive.
* `initialGlobals_lookup` — the global bindings of a new session refer to nothing in a store.
-/

namespace SmallLisp

/-- What holds of all entries of a table and of one that is put into it holds of all entries
afterwards. -/
theorem Table.lookup_insert_imp {α : Type} {P : α → Prop} {table : Table α}
    (htable : ∀ name v, table.lookup name = some v → P v) {key : Symbol} {value : α}
    (hvalue : P value) {name : Symbol} {v : α}
    (h : (table.insert key value).lookup name = some v) : P v := by
  by_cases hkey : name = key
  · rw [hkey, Table.lookup_insert_self] at h
    exact Option.some.inj h ▸ hvalue
  · rw [Table.lookup_insert_of_ne hkey] at h
    exact htable name v h

/-- The same of any number of entries put into it. -/
theorem Table.lookup_foldl_insert {ι α : Type} {P : α → Prop} (key : ι → Symbol) (value : ι → α)
    (hvalue : ∀ i, P (value i)) (items : List ι) {table : Table α}
    (htable : ∀ name v, table.lookup name = some v → P v) {name : Symbol} {v : α}
    (h : (items.foldl (fun table i => table.insert (key i) (value i)) table).lookup name =
      some v) : P v := by
  induction items generalizing table with
  | nil => exact htable name v h
  | cons i rest ih =>
      exact ih (fun _ _ hw => Table.lookup_insert_imp htable (hvalue i) hw) h

/-- All host functions among these native functions have the property. -/
def Table.Hosts (P : HostFunction → Prop) (natives : Table Native) : Prop :=
  ∀ name function, natives.lookup name = some (.host function) → P function

theorem Table.Hosts.insert {P : HostFunction → Prop} {natives : Table Native} (h : natives.Hosts P)
    (name : Symbol) {native : Native} (hnative : ∀ function, native = .host function → P function) :
    (natives.insert name native).Hosts P := by
  intro other function hfunction
  refine Table.lookup_insert_imp (P := fun native => ∀ function, native = .host function →
    P function) (fun _ _ hfound _ heq => ?_) hnative hfunction function rfl
  exact h _ _ (heq ▸ hfound)

namespace Session

/-- Every native function of a new session is a primitive. -/
theorem primitives_lookup {name : Symbol} {native : Native}
    (h : primitives.lookup name = some native) : ∃ primitive, native = .primitive primitive :=
  Table.lookup_foldl_insert (P := fun native => ∃ primitive, native = .primitive primitive)
    Primitive.symbol Native.primitive (fun primitive => ⟨primitive, rfl⟩) Primitive.all
    (fun _ _ hempty => by simp at hempty) h

/-- A new session has no function of a host. -/
theorem primitives_hosts (P : HostFunction → Prop) : primitives.Hosts P := by
  intro name function h
  obtain ⟨primitive, hprimitive⟩ := primitives_lookup h
  cases hprimitive

/-- What a new session binds is one of the two constants or a native function. -/
theorem initialGlobals_lookup {name : Symbol} {value : Value}
    (h : initialGlobals.lookup name = some value) :
    value = .nil ∨ value = .t ∨ ∃ native, value = .builtin native := by
  let P : Value → Prop := fun value => value = .nil ∨ value = .t ∨ ∃ native, value = .builtin native
  have hempty : ∀ name v, (Table.empty : Table Value).lookup name = some v → P v :=
    fun _ _ h => by simp at h
  unfold initialGlobals at h
  exact Table.lookup_foldl_insert (P := P) Primitive.symbol
    (fun primitive => Value.builtin primitive.symbol)
    (fun primitive => .inr (.inr ⟨primitive.symbol, rfl⟩)) Primitive.all
    (fun _ _ h => Table.lookup_insert_imp (fun _ _ h => Table.lookup_insert_imp hempty (.inl rfl) h)
      (.inr (.inl rfl)) h) h

end Session

end SmallLisp
