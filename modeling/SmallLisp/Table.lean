import SmallLisp.Symbol

/-!
# Tables

A table maps symbols to values of some type. Its entries are kept in the order of their
spellings, so a listing needs no sorting and a table is determined by what it holds.

## Main results

* `lookup_insert_self`, `lookup_insert_of_ne` — an insertion is seen under its own symbol and
  nowhere else.
* `ext_lookup` — tables that hold the same are the same.
-/

namespace SmallLisp

/-- Each symbol stands before those with a later spelling, and none stands twice. -/
def Table.Ordered {α : Type} (entries : List (Symbol × α)) : Prop :=
  entries.Pairwise fun entry later => entry.1.spelling < later.1.spelling

/-- Entries under distinct symbols, in the order of their spellings. -/
structure Table (α : Type) where
  entries : List (Symbol × α) := []
  ordered : Table.Ordered entries := by exact .nil

namespace Table

variable {α : Type}

/-- The table without entries. -/
def empty : Table α := {}

@[simp] theorem entries_empty : (empty : Table α).entries = [] := rfl

/-- The value of the first entry under a symbol. -/
def find (key : Symbol) : List (Symbol × α) → Option α
  | [] => none
  | (symbol, value) :: rest => if symbol = key then some value else find key rest

/-- Put an entry in its place, over an entry under the same symbol. -/
def place (key : Symbol) (value : α) : List (Symbol × α) → List (Symbol × α)
  | [] => [(key, value)]
  | (symbol, old) :: rest =>
      if symbol = key then (key, value) :: rest
      else if key.spelling < symbol.spelling then (key, value) :: (symbol, old) :: rest
      else (symbol, old) :: place key value rest

theorem mem_place {key : Symbol} {value : α} {entry : Symbol × α} {entries : List (Symbol × α)}
    (h : entry ∈ place key value entries) : entry = (key, value) ∨ entry ∈ entries := by
  induction entries with
  | nil => exact .inl (List.mem_singleton.1 h)
  | cons first rest ih =>
      obtain ⟨symbol, old⟩ := first
      rw [place] at h
      split at h
      · exact (List.mem_cons.1 h).imp_right (List.mem_cons_of_mem _)
      · split at h
        · exact List.mem_cons.1 h
        · rcases List.mem_cons.1 h with rfl | hrest
          · exact .inr List.mem_cons_self
          · exact (ih hrest).imp_right (List.mem_cons_of_mem _)

theorem Ordered.place {entries : List (Symbol × α)} (h : Ordered entries) (key : Symbol)
    (value : α) : Ordered (place key value entries) := by
  induction entries with
  | nil => exact List.pairwise_singleton _ _
  | cons first rest ih =>
      obtain ⟨symbol, old⟩ := first
      obtain ⟨hfirst, hrest⟩ := List.pairwise_cons.1 h
      rw [Table.place]
      split
      · next heq => exact List.pairwise_cons.2 ⟨heq ▸ hfirst, hrest⟩
      · next hne =>
          split
          · next hlt =>
              refine List.pairwise_cons.2 ⟨fun entry hentry => ?_, h⟩
              rcases List.mem_cons.1 hentry with rfl | hentry
              · exact hlt
              · exact String.lt_trans hlt (hfirst entry hentry)
          · next hnot =>
              refine List.pairwise_cons.2 ⟨fun entry hentry => ?_, ih hrest⟩
              rcases mem_place hentry with rfl | hentry
              · have hspelling : symbol.spelling ≠ key.spelling :=
                  fun heq => hne (Symbol.ext heq)
                rcases Std.lt_trichotomy symbol.spelling key.spelling with hlt | heq | hlt
                · exact hlt
                · exact absurd heq hspelling
                · exact absurd hlt hnot
              · exact hfirst entry hentry

/-- The value under a symbol. -/
def lookup (table : Table α) (key : Symbol) : Option α :=
  find key table.entries

/-- The table with a value put under a symbol. -/
def insert (table : Table α) (key : Symbol) (value : α) : Table α :=
  ⟨place key value table.entries, table.ordered.place key value⟩

/-- How many symbols have a value. -/
def size (table : Table α) : Nat :=
  table.entries.length

/-- The symbols that have a value, in the order of their spellings. -/
def symbols (table : Table α) : List Symbol :=
  table.entries.map (·.1)

/-- The values, in the order of their symbols. -/
def values (table : Table α) : List α :=
  table.entries.map (·.2)

theorem find_place_self (key : Symbol) (value : α) (entries : List (Symbol × α)) :
    find key (place key value entries) = some value := by
  induction entries with
  | nil => simp [place, find]
  | cons entry rest ih =>
      obtain ⟨symbol, old⟩ := entry
      by_cases hkey : symbol = key
      · simp [place, find, hkey]
      · by_cases hlt : key.spelling < symbol.spelling <;> simp [place, find, hkey, hlt, ih]

theorem find_place_of_ne {key other : Symbol} (hne : other ≠ key) (value : α)
    (entries : List (Symbol × α)) :
    find other (place key value entries) = find other entries := by
  induction entries with
  | nil => simp [place, find, hne.symm]
  | cons entry rest ih =>
      obtain ⟨symbol, old⟩ := entry
      by_cases hkey : symbol = key
      · simp [place, find, hkey, hne.symm]
      · by_cases hlt : key.spelling < symbol.spelling <;>
          simp [place, find, hkey, hlt, hne.symm, ih]

@[simp] theorem lookup_insert_self (table : Table α) (key : Symbol) (value : α) :
    (table.insert key value).lookup key = some value :=
  find_place_self key value table.entries

theorem lookup_insert_of_ne {key other : Symbol} (hne : other ≠ key) (table : Table α)
    (value : α) : (table.insert key value).lookup other = table.lookup other :=
  find_place_of_ne hne value table.entries

@[simp] theorem lookup_empty (key : Symbol) : (empty : Table α).lookup key = none := rfl

/-! ### What a table holds -/

theorem mem_of_find {key : Symbol} {value : α} {entries : List (Symbol × α)}
    (h : find key entries = some value) : (key, value) ∈ entries := by
  induction entries with
  | nil => cases h
  | cons first rest ih =>
      obtain ⟨symbol, other⟩ := first
      rw [find] at h
      split at h
      · next heq =>
          obtain rfl := Option.some.inj h
          exact heq ▸ List.mem_cons_self
      · exact List.mem_cons_of_mem _ (ih h)

theorem find_of_mem {key : Symbol} {value : α} {entries : List (Symbol × α)}
    (hordered : Ordered entries) (h : (key, value) ∈ entries) : find key entries = some value := by
  induction entries with
  | nil => cases h
  | cons first rest ih =>
      obtain ⟨symbol, other⟩ := first
      obtain ⟨hfirst, hrest⟩ := List.pairwise_cons.1 hordered
      rw [find]
      rcases List.mem_cons.1 h with heq | hmem
      · obtain ⟨rfl, rfl⟩ := Prod.mk.inj heq
        exact if_pos rfl
      · have hne : symbol ≠ key := by
          rintro rfl
          exact String.lt_irrefl symbol.spelling (hfirst (symbol, value) hmem)
        rw [if_neg hne]
        exact ih hrest hmem

theorem Ordered.nodup {entries : List (Symbol × α)} (h : Ordered entries) : entries.Nodup := by
  refine List.Pairwise.imp (fun {entry later} hlt => ?_) h
  rintro rfl
  exact String.lt_irrefl _ hlt

/-- Lists of entries that are ordered and have the same members are the same. -/
theorem Ordered.eq_of_mem_iff {entries others : List (Symbol × α)} (h : Ordered entries)
    (h' : Ordered others) (hmem : ∀ entry, entry ∈ entries ↔ entry ∈ others) :
    entries = others :=
  ((List.perm_ext_iff_of_nodup h.nodup h'.nodup).2 hmem).eq_of_pairwise
    (fun _ _ _ _ hlt hlt' => absurd hlt' (String.lt_asymm hlt)) h h'

/-- **A table is determined by what it holds.** -/
theorem ext_lookup {table other : Table α} (h : ∀ key, table.lookup key = other.lookup key) :
    table = other := by
  obtain ⟨entries, hentries⟩ := table
  obtain ⟨others, hothers⟩ := other
  obtain rfl : entries = others := by
    refine hentries.eq_of_mem_iff hothers fun ⟨key, value⟩ => ⟨fun hmem => ?_, fun hmem => ?_⟩
    · exact mem_of_find ((h key).symm.trans (find_of_mem hentries hmem))
    · exact mem_of_find ((h key).trans (find_of_mem hothers hmem))
  rfl

end Table

end SmallLisp
