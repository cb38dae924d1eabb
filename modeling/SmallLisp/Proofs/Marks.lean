import SmallLisp.Proofs.Unfolding

/-!
# What the printer marks

Where the printer meets a pair that it is just writing, it writes a mark instead of the pair. Which
pairs it is writing at some point can be told from what it has written until then: they belong to
the lists that have been begun and not closed. The marks are there for circles alone. A pair that is
marked leads back to itself, and if nothing is marked, the printer has gone through everything
inside of the value and never came back to a pair from below.

## Main results

* `piecesAt_tracked` — each value is written between two points with the same lists under way, and
  each mark in between stands for a pair of these.
* `onCycle_of_mark`, `off_of_no_mark` — what marks, and no marks, say about circles.
* `plainWithin_of_no_mark` — without marks, the text is that of the printer without a path.
* `printer_marks_circles` — the marks are exactly where the circles are.
-/

namespace SmallLisp

/-! ### Lists under way -/

namespace Piece

/-- The pairs of the lists that have been begun and not closed, the innermost list first, after one
more piece. -/
def track (lists : List (List CellRef)) : Piece → List (List CellRef)
  | opening ref => [ref] :: lists
  | gap ref =>
      match lists with
      | [] => []
      | list :: outer => (ref :: list) :: outer
  | closing => lists.tail
  | _ => lists

/-- The pairs that are being written when these pieces have been written. -/
def underWay (pieces : List Piece) : List CellRef :=
  (pieces.foldl track []).flatten

/-- Every mark stands for a pair of the lists under way. -/
def Tracked (lists : List (List CellRef)) : List Piece → Prop
  | [] => True
  | piece :: rest =>
      (∀ ref, piece = .mark ref → ref ∈ lists.flatten) ∧ Tracked (track lists piece) rest

theorem tracked_append {lists : List (List CellRef)} {pieces more : List Piece} :
    Tracked lists (pieces ++ more) ↔
      Tracked lists pieces ∧ Tracked (pieces.foldl track lists) more := by
  induction pieces generalizing lists with
  | nil => simp [Tracked]
  | cons piece rest ih =>
      rw [List.cons_append, Tracked, Tracked, ih, and_assoc]
      rfl

theorem Tracked.mem_underWay {pieces before after : List Piece} {ref : CellRef}
    (h : Tracked [] pieces) (hpieces : pieces = before ++ .mark ref :: after) :
    ref ∈ underWay before := by
  rw [hpieces, tracked_append] at h
  exact h.2.1 ref rfl

end Piece

namespace Store

open Piece

variable {store : Store} {path : Path} {value : Value}

/-- The pieces of a value leave the lists under way as they are, and its marks stand for pairs of
these. -/
def TracksElement (store : Store) (path : Path) (value : Value) : Prop :=
  ∀ lists : List (List CellRef), (∀ ref ∈ path, ref ∈ lists.flatten) →
    (store.piecesAt path .element value).foldl track lists = lists ∧
      Tracked lists (store.piecesAt path .element value)

/-- The pieces of what remains of a list add to the innermost list under way, and its marks stand
for pairs of those. -/
def TracksRemainder (store : Store) (path : Path) (value : Value) : Prop :=
  ∀ (list : List CellRef) (outer : List (List CellRef)),
    (∀ ref ∈ path, ref ∈ (list :: outer).flatten) →
    (∃ more, (store.piecesAt path .remainder value).foldl track (list :: outer) =
      (more ++ list) :: outer) ∧
      Tracked (list :: outer) (store.piecesAt path .remainder value)

/-- The two parts of a pair that has just been entered. -/
theorem tracks_parts {ref : CellRef} (list : List CellRef) (outer : List (List CellRef))
    (hcar : store.TracksElement (path.insert ref) (store.car ref))
    (hcdr : store.TracksRemainder (path.insert ref) (store.cdr ref))
    (hpath : ∀ part ∈ path, part ∈ (list :: outer).flatten) :
    (∃ more, (store.partPieces path ref).foldl track ((ref :: list) :: outer) =
      (more ++ ref :: list) :: outer) ∧
      Tracked ((ref :: list) :: outer) (store.partPieces path ref) := by
  have hinsert : ∀ part ∈ path.insert ref, part ∈ ((ref :: list) :: outer).flatten := by
    intro part hpart
    rcases Path.mem_insert.1 hpart with rfl | hpart
    · exact List.mem_cons_self
    · exact List.mem_cons_of_mem _ (hpath part hpart)
  obtain ⟨hsame, htracked⟩ := hcar _ hinsert
  obtain ⟨hmore, htracked'⟩ := hcdr _ _ hinsert
  rw [partPieces, List.foldl_append, hsame, tracked_append, hsame]
  exact ⟨hmore, htracked, htracked'⟩

/-- **Writing keeps track.** -/
theorem piecesAt_tracked (store : Store) (path : Path) (value : Value) :
    store.TracksElement path value ∧ store.TracksRemainder path value := by
  induction path, value using store.path_induction with
  | atom path value hpair =>
      refine ⟨fun lists _ => ?_, fun list outer _ => ?_⟩
      · rw [piecesAt_element hpair]
        simp [track, Tracked]
      · by_cases hnil : value = .nil
        · subst hnil
          rw [piecesAt_nil]
          exact ⟨⟨[], rfl⟩, trivial⟩
        · rw [piecesAt_atom hpair hnil]
          exact ⟨⟨[], rfl⟩, by simp [Position.leaf, Tracked]⟩
  | marked path ref hmem =>
      refine ⟨fun lists hpath => ?_, fun list outer hpath => ?_⟩ <;> rw [piecesAt_marked hmem]
      · exact ⟨rfl, by simpa [Position.leaf, Tracked] using hpath ref hmem⟩
      · exact ⟨⟨[], rfl⟩, by simpa [Position.leaf, Tracked, track] using hpath ref hmem⟩
  | fresh path ref hfresh ihcar ihcdr =>
      refine ⟨fun lists hpath => ?_, fun list outer hpath => ?_⟩ <;>
        rw [piecesAt_fresh hfresh, ← partPieces]
      · obtain ⟨⟨more, hmore⟩, htracked⟩ := tracks_parts [] lists ihcar.1 ihcdr.2 hpath
        simp [Position.nest, Tracked, track, tracked_append, hmore, htracked]
      · obtain ⟨⟨more, hmore⟩, htracked⟩ := tracks_parts list outer ihcar.1 ihcdr.2 hpath
        simp only [Position.nest, List.foldl_cons, track, hmore]
        exact ⟨⟨more ++ [ref], by simp⟩, by simp, htracked⟩

/-- Each mark among the pieces of a value by itself stands for a pair that is being written. -/
theorem mem_underWay_of_mark {before after : List Piece} {ref : CellRef}
    (h : store.written value = before ++ .mark ref :: after) : ref ∈ underWay before := by
  rw [written_eq] at h
  have htracked := ((piecesAt_tracked store ∅ value).1 [] fun _ hmem =>
    absurd hmem Std.TreeSet.not_mem_emptyc).2
  exact htracked.mem_underWay h

/-! ### Circles -/

/-- None of the pairs on the path is inside of the value. -/
def Off (store : Store) (path : Path) (value : Value) : Prop :=
  ∀ ref ∈ path, ¬store.Inside value (.pair ref)

theorem Inside.trans {first second third : Value} (h : store.Inside first second)
    (h' : store.Inside second third) : store.Inside first third := by
  induction h with
  | self => exact h'
  | car _ ih => exact .car (ih h')
  | cdr _ ih => exact .cdr (ih h')

/-- A walk from a pair leads into one of its parts first. -/
theorem inside_part_of_transGen {ref part : CellRef} (h : Relation.TransGen store.Child ref part) :
    store.Inside (store.car ref) (.pair part) ∨ store.Inside (store.cdr ref) (.pair part) := by
  have hchild : ∀ {ref part : CellRef}, store.Child ref part →
      store.Inside (.pair ref) (.pair part) := by
    rintro ref part (heq | heq)
    · exact .car (heq ▸ .self _)
    · exact .cdr (heq ▸ .self _)
  induction h with
  | single h =>
      rcases h with heq | heq
      · exact .inl (heq ▸ .self _)
      · exact .inr (heq ▸ .self _)
  | tail _ h ih => exact ih.imp (·.trans (hchild h)) (·.trans (hchild h))

/-- The pieces of a pair have the marks of its parts. -/
theorem mark_mem_nest {ref part : CellRef} {position : Position} {parts : List Piece} :
    .mark ref ∈ position.nest part parts ↔ .mark ref ∈ parts := by
  cases position <;> simp [Position.nest]

/-- **Marks are on circles.** While the pairs on the path lead to the value, each mark stands for a
pair inside of the value that leads back to itself. -/
theorem onCycle_of_mark {position : Position} {ref : CellRef}
    (hpath : ∀ start ∈ path, ∀ part, value = .pair part → Relation.TransGen store.Child start part)
    (h : .mark ref ∈ store.piecesAt path position value) :
    store.Inside value (.pair ref) ∧ store.OnCycle ref := by
  induction path, value using store.path_induction generalizing position with
  | atom path value hpair =>
      by_cases hnil : value = .nil
      · subst hnil
        rw [piecesAt_nil] at h
        cases position <;> simp [Position.nilPieces] at h
      · rw [piecesAt_atom hpair hnil] at h
        cases position <;> simp [Position.leaf] at h
  | marked path part hmem =>
      rw [piecesAt_marked hmem] at h
      obtain rfl : ref = part := by cases position <;> simpa [Position.leaf] using h
      exact ⟨.self _, hpath ref hmem ref rfl⟩
  | fresh path entered hfresh ihcar ihcdr =>
      rw [piecesAt_fresh hfresh, mark_mem_nest, List.mem_append] at h
      have hinsert : ∀ value, store.car entered = value ∨ store.cdr entered = value →
          ∀ start ∈ path.insert entered, ∀ part, value = .pair part →
          Relation.TransGen store.Child start part := by
        rintro _ hpart start hmem part rfl
        exact transGen_insert (fun start hmem => hpath start hmem entered rfl) hpart start hmem
      rcases h with h | h
      · obtain ⟨hinside, hcycle⟩ := ihcar (hinsert _ (.inl rfl)) h
        exact ⟨.car hinside, hcycle⟩
      · obtain ⟨hinside, hcycle⟩ := ihcdr (hinsert _ (.inr rfl)) h
        exact ⟨.cdr hinside, hcycle⟩

/-- **No marks, no circles.** If nothing is marked, none of the pairs on the path is inside of the
value, and no pair inside of it leads back to itself. -/
theorem off_of_no_mark {position : Position}
    (h : ∀ ref, .mark ref ∉ store.piecesAt path position value) :
    store.Off path value ∧ ∀ ref, store.Inside value (.pair ref) → ¬store.OnCycle ref := by
  induction path, value using store.path_induction generalizing position with
  | atom path value hpair =>
      have hnone : ∀ ref, ¬store.Inside value (.pair ref) := by
        rintro ref (_ | _ | _) <;> cases hpair
      exact ⟨fun ref _ => hnone ref, fun ref hinside => absurd hinside (hnone ref)⟩
  | marked path ref hmem =>
      rw [piecesAt_marked hmem] at h
      exact absurd (by cases position <;> simp [Position.leaf]) (h ref)
  | fresh path entered hfresh ihcar ihcdr =>
      rw [piecesAt_fresh hfresh] at h
      simp only [mark_mem_nest, List.mem_append, not_or] at h
      obtain ⟨hoffCar, hacyclicCar⟩ := ihcar fun ref => (h ref).1
      obtain ⟨hoffCdr, hacyclicCdr⟩ := ihcdr fun ref => (h ref).2
      constructor
      · intro ref hmem hinside
        have hinsert := Path.mem_insert.2 (.inr hmem : entered = ref ∨ ref ∈ path)
        rcases hinside with _ | hinside | hinside
        · exact hfresh hmem
        · exact hoffCar ref hinsert hinside
        · exact hoffCdr ref hinsert hinside
      · rintro ref (_ | hinside | hinside)
        · -- a way back to the pair would lead through one of its parts
          intro hcycle
          have hinsert := Path.mem_insert.2 (.inl rfl : entered = entered ∨ entered ∈ path)
          exact (inside_part_of_transGen hcycle).elim (hoffCar _ hinsert) (hoffCdr _ hinsert)
        · exact hacyclicCar ref hinside
        · exact hacyclicCdr ref hinside

theorem exists_mark_iff :
    (∃ ref, .mark ref ∈ store.written value) ↔
      ∃ ref, store.Inside value (.pair ref) ∧ store.OnCycle ref := by
  rw [written_eq]
  constructor
  · rintro ⟨ref, hmark⟩
    exact ⟨ref, onCycle_of_mark (fun _ hmem => absurd hmem Std.TreeSet.not_mem_emptyc) hmark⟩
  · rintro ⟨ref, hinside, hcycle⟩
    refine Classical.byContradiction fun hnone => ?_
    exact (off_of_no_mark (not_exists.1 hnone)).2 ref hinside hcycle

/-! ### The plain printer -/

/-- The printed form of a value at a position by plain recursion: no path is kept, and there is no
text if more than `bound` pairs are entered one within the other. -/
def plainWithin (store : Store) : Nat → Position → Value → Option String
  | _, position, .nil => some position.nil
  | 0, _, .pair _ => none
  | bound + 1, position, .pair ref => do
      let first ← store.plainWithin bound .element (store.car ref)
      let rest ← store.plainWithin bound .remainder (store.cdr ref)
      some (position.list (first ++ rest))
  | _, position, value => some (position.atom (store.atomText value))

theorem plainWithin_atom {value : Value} (hpair : value.isPair = false) (bound : Nat)
    (path : Path) (position : Position) :
    store.plainWithin bound position value = some (join (store.piecesAt path position value)) := by
  by_cases hnil : value = .nil
  · subst hnil
    rw [piecesAt_nil, join_nilPieces]
    cases bound <;> rfl
  · rw [piecesAt_atom hpair hnil, join_leaf]
    cases value with
    | nil => cases hnil rfl
    | pair ref => cases hpair
    | _ => cases bound <;> rfl

/-- **Without marks the path makes no difference.** -/
theorem plainWithin_of_no_mark {position : Position}
    (h : ∀ ref, .mark ref ∉ store.piecesAt path position value) :
    ∃ enough, ∀ bound, enough ≤ bound →
      store.plainWithin bound position value =
        some (join (store.piecesAt path position value)) := by
  induction path, value using store.path_induction generalizing position with
  | atom path value hpair => exact ⟨0, fun bound _ => plainWithin_atom hpair bound path position⟩
  | marked path ref hmem =>
      rw [piecesAt_marked hmem] at h
      exact absurd (by cases position <;> simp [Position.leaf]) (h ref)
  | fresh path ref hfresh ihcar ihcdr =>
      rw [piecesAt_fresh hfresh] at h ⊢
      simp only [mark_mem_nest, List.mem_append, not_or] at h
      obtain ⟨first, hfirst⟩ := ihcar fun ref => (h ref).1
      obtain ⟨second, hsecond⟩ := ihcdr fun ref => (h ref).2
      refine ⟨max first second + 1, fun bound hbound => ?_⟩
      obtain ⟨bound, rfl⟩ : ∃ below, bound = below + 1 := ⟨bound - 1, by omega⟩
      rw [plainWithin, hfirst bound (by omega), hsecond bound (by omega), join_nest, join_append]
      rfl

/-- **The printer marks exactly the circles.** In any store it comes to an end with any value, on
whatever path and with whatever has been written before, and the same pairs are on the path then as
before; more room for calls would make no difference. If no pair inside of the value leads back to
itself, the text is that of the printer without a path. There is a mark just if some pair inside of
the value leads back to itself. And each mark stands for a pair that is being written at that
point. -/
theorem printer_marks_circles (store : Store) (value : Value) :
    (∀ writing more, ∃ after : Writing,
      store.writeValue (store.writeBound + more) value writing = some after ∧
        ∀ ref, ref ∈ after.path ↔ ref ∈ writing.path) ∧
    (∀ more, (store.writeValue (store.writeBound + more) value {}).map (·.pieces.reverse) =
      some (store.written value)) ∧
    ((∀ ref, store.Inside value (.pair ref) → ¬store.OnCycle ref) →
      ∃ enough, ∀ more,
        store.plainWithin (enough + more) .element value = some (store.print value)) ∧
    ((∃ ref, .mark ref ∈ store.written value) ↔
      ∃ ref, store.Inside value (.pair ref) ∧ store.OnCycle ref) ∧
    (∀ before ref after, store.written value = before ++ .mark ref :: after →
      ref ∈ underWay before) := by
  refine ⟨fun writing more => ?_, fun more => ?_, fun hacyclic => ?_, exists_mark_iff,
    fun _ _ _ => mem_underWay_of_mark⟩
  · obtain ⟨after, hsame, hwrite⟩ :=
      writeValue_eq store value writing (Nat.le_add_right store.writeBound more)
    exact ⟨_, hwrite, hsame⟩
  · obtain ⟨after, -, hwrite⟩ :=
      writeValue_eq store value {} (Nat.le_add_right store.writeBound more)
    rw [hwrite, written_eq]
    simp
  · have hnone : ∀ ref, .mark ref ∉ store.piecesAt ∅ .element value := by
      intro ref hmark
      obtain ⟨hinside, hcycle⟩ :=
        onCycle_of_mark (fun _ hmem => absurd hmem Std.TreeSet.not_mem_emptyc) hmark
      exact hacyclic ref hinside hcycle
    obtain ⟨enough, henough⟩ := plainWithin_of_no_mark hnone
    exact ⟨enough, fun more => by rw [henough _ (Nat.le_add_right enough more), print_eq]⟩

/-- One pair stands twice in a list, which is written out without a mark. Another pair is the second
element of a list that it begins itself, and there it is marked. -/
theorem printer_marks_circles_not_sharing :
    let store : Store := { arenas := #[{ cells := #[⟨.integer 7, .nil⟩,
      ⟨.pair ⟨0, 0⟩, .pair ⟨0, 2⟩⟩, ⟨.pair ⟨0, 0⟩, .nil⟩,
      ⟨.t, .pair ⟨0, 4⟩⟩, ⟨.pair ⟨0, 3⟩, .nil⟩] }] }
    (∃ enough, ∀ more, store.plainWithin (enough + more) .element (.pair ⟨0, 1⟩) =
      some "((7) (7))") ∧
    store.print (.pair ⟨0, 3⟩) = "(T ...)" ∧
    ∃ ref, store.Inside (.pair ⟨0, 3⟩) (.pair ref) ∧ store.OnCycle ref := by
  intro store
  obtain ⟨-, -, hplain, hmarks, -⟩ := printer_marks_circles store (.pair ⟨0, 1⟩)
  obtain ⟨-, -, -, hmarks', -⟩ := printer_marks_circles store (.pair ⟨0, 3⟩)
  have hwritten : (store.written (.pair ⟨0, 1⟩) = [.opening ⟨0, 1⟩, .opening ⟨0, 0⟩, .atom "7",
        .closing, .gap ⟨0, 2⟩, .opening ⟨0, 0⟩, .atom "7", .closing, .closing] ∧
      store.written (.pair ⟨0, 3⟩) = [.opening ⟨0, 3⟩, .atom "T", .gap ⟨0, 4⟩, .mark ⟨0, 3⟩,
        .closing]) := by decide +kernel
  refine ⟨?_, ?_, hmarks'.1 ⟨⟨0, 3⟩, by rw [hwritten.2]; decide⟩⟩
  · obtain ⟨enough, henough⟩ := hplain fun ref hinside hcycle => by
      obtain ⟨marked, hmem⟩ := hmarks.2 ⟨ref, hinside, hcycle⟩
      rw [hwritten.1] at hmem
      simp at hmem
    refine ⟨enough, fun more => (henough more).trans ?_⟩
    rw [print, hwritten.1]
    decide +kernel
  · rw [print, hwritten.2]
    decide +kernel

end Store

end SmallLisp
