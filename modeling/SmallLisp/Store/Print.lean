import Std.Data.TreeSet
import SmallLisp.Store

/-!
# The printed form of a value

A chain of pairs is written as one list. A pair that is met again while it is still being
written is written as `...`, so circular data has a finite text; a pair that is merely shared is
written out each time.

The text is written piece by piece. Meanwhile the pairs that are being written are kept in a path:
each pair of a list is put there when its turn comes, and all of them are taken out again when the
list is closed.
-/

namespace SmallLisp

/-- Places in the order of their arenas, and within an arena in the order of allocation. -/
def Ref.order {sort : Kept} (a b : Ref sort) : Ordering :=
  (compare a.arena b.arena).then (compare a.index b.index)

instance {sort : Kept} : Std.TransCmp (@Ref.order sort) :=
  inferInstanceAs (Std.TransCmp (compareLex (compareOn Ref.arena) (compareOn Ref.index)))

instance {sort : Kept} : Std.LawfulEqCmp (@Ref.order sort) where
  compare_self := by simp [Ref.order]
  eq_of_compare {a b} h := by
    obtain ⟨aArena, aIndex⟩ := a
    obtain ⟨bArena, bIndex⟩ := b
    simp only [Ref.order, Ordering.then_eq_eq, Std.LawfulEqCmp.compare_eq_iff_eq] at h
    rw [h.1, h.2]

/-- The pairs that are being written. -/
abbrev Path := Std.TreeSet CellRef Ref.order

theorem Path.mem_insert {path : Path} {ref other : CellRef} :
    other ∈ path.insert ref ↔ ref = other ∨ other ∈ path := by
  rw [Std.TreeSet.mem_insert, Std.LawfulEqCmp.compare_eq_iff_eq]

theorem Path.mem_erase {path : Path} {ref other : CellRef} :
    other ∈ path.erase ref ↔ ref ≠ other ∧ other ∈ path := by
  rw [Std.TreeSet.mem_erase, Ne, Std.LawfulEqCmp.compare_eq_iff_eq]

/-- A piece of the text of a value. -/
inductive Piece where
  /-- The text of something that is no pair. -/
  | atom (text : String)
  /-- The beginning of a list, with its first pair. -/
  | opening (first : CellRef)
  /-- The gap in front of an element of a list, with the pair that holds the element. -/
  | gap (next : CellRef)
  /-- What stands in front of the last part of a list that does not end in `NIL`. -/
  | dot
  /-- What stands for a pair that is being written. -/
  | mark (ref : CellRef)
  /-- The end of a list. -/
  | closing
  deriving DecidableEq

/-- The text of a piece. -/
def Piece.text : Piece → String
  | atom text => text
  | opening _ => "("
  | gap _ => " "
  | dot => " . "
  | mark _ => "..."
  | closing => ")"

/-- The text of pieces one after another. -/
def Piece.join (pieces : List Piece) : String :=
  String.join (pieces.map text)

/-- What has been written, and the pairs that are being written. -/
structure Writing where
  /-- The pieces, the last one first. -/
  pieces : List Piece := []
  path : Path := ∅

namespace Writing

/-- Write a piece. -/
def put (writing : Writing) (piece : Piece) : Writing :=
  { writing with pieces := piece :: writing.pieces }

/-- Begin to write a pair. -/
def enter (writing : Writing) (ref : CellRef) : Writing :=
  { writing with path := writing.path.insert ref }

/-- Close a list, all pairs of which have been written. -/
def close (writing : Writing) (entered : List CellRef) : Writing :=
  { writing with path := entered.foldl (fun path ref => path.erase ref) writing.path }.put .closing

end Writing

namespace Store

/-- The printed form of a callable value: the word for its kind and its name. -/
def callable (word : String) : Option Symbol → String
  | some name => "#<" ++ word ++ " " ++ name.spelling ++ ">"
  | none => "#<" ++ word ++ ">"

/-- The printed form of a value that is no pair. -/
def atomText (store : Store) : Value → String
  | .nil => "NIL"
  | .t => "T"
  | .integer value => Decimal.ofInt value.toInt
  | .symbol name => name.spelling
  | .closure ref => callable "closure" (store.lambda ref).name
  | .expander ref => callable "macro" (store.lambda ref).name
  | .builtin name => callable "builtin" (some name)
  | .pair _ => ""

mutual

/-- Write a value, with at most `bound` calls one within the other. -/
def writeValue (store : Store) : Nat → Value → Writing → Option Writing
  | 0, _, _ => none
  | bound + 1, .pair ref, writing =>
      if ref ∈ writing.path then some (writing.put (.mark ref))
      else store.writeList bound ref [] (writing.put (.opening ref))
  | _ + 1, value, writing => some (writing.put (.atom (store.atomText value)))

/-- Write a list from one of its pairs on. Those in front of it have been entered. -/
def writeList (store : Store) : Nat → CellRef → List CellRef → Writing → Option Writing
  | 0, _, _, _ => none
  | bound + 1, ref, entered, writing => do
      let writing ← store.writeValue bound (store.car ref) (writing.enter ref)
      match store.cdr ref with
      | .nil => some (writing.close (ref :: entered))
      | .pair next =>
          if next ∈ writing.path then
            some (((writing.put .dot).put (.mark next)).close (ref :: entered))
          else store.writeList bound next (ref :: entered) (writing.put (.gap next))
      | last =>
          let writing ← store.writeValue bound last (writing.put .dot)
          some (writing.close (ref :: entered))

end

/-- How many calls are one within the other at most: two for each pair that is being written. -/
def writeBound (store : Store) : Nat :=
  2 * store.cellCount + 3

/-- The pieces that are written for a value. -/
def written (store : Store) (value : Value) : List Piece :=
  match store.writeValue store.writeBound value {} with
  | some writing => writing.pieces.reverse
  | none => []

/-- The printed form of a value. -/
def print (store : Store) (value : Value) : String :=
  Piece.join (store.written value)

end Store

end SmallLisp
