import SmallLisp.Eval.Task

/-!
# Templates

A quasiquoted form is a template: it is copied, and the parts marked by an unquote are
evaluated. The level counts the quasiquotes around a part. An unquote that closes the outermost
one is evaluated; any other mark is kept, and lowers or raises the level of what is inside it.

A list is filled in from left to right. A mark in the place of a list's remainder, as in
`(a . ,b)`, counts only behind at least one item that has been made.
-/

namespace SmallLisp

namespace Store

/-- The second element of a value that is exactly the two-element list with this head. -/
def marked? (store : Store) (head : Symbol) : Value → Option Value
  | .pair ref =>
      if store.car ref = .symbol head then
        match store.cdr ref with
        | .pair rest => if store.cdr rest = .nil then some (store.car rest) else none
        | _ => none
      else none
  | _ => none

theorem marked?_eq_some {store : Store} {head : Symbol} {value inner : Value}
    (h : store.marked? head value = some inner) :
    ∃ ref rest, value = .pair ref ∧ store.car ref = .symbol head ∧ store.cdr ref = .pair rest ∧
      store.cdr rest = .nil ∧ store.car rest = inner := by
  cases value with
  | pair ref =>
      rw [marked?] at h
      split at h
      · next hhead =>
          split at h
          · next rest hrest =>
              split at h
              · next hnil => exact ⟨ref, rest, rfl, hhead, hrest, hnil, Option.some.inj h⟩
              · cases h
          · cases h
      · cases h
  | _ => cases h

/-- The value is an unquoted or quasiquoted form. -/
def isMarked (store : Store) (value : Value) : Bool :=
  (store.marked? .unquote value).isSome || (store.marked? .quasiquote value).isSome

end Store

namespace Eval

open EvalM

variable (session : Session) (perform : Task → EvalM Value)

/-- The two-element list of a mark and what it marks. -/
def keepMark (head : Symbol) (inner : Value) : EvalM Value :=
  update (·.list session.arena [.symbol head, inner])

/-- Fill in a template under `level` quasiquotes. -/
def fill (template : Value) (level : Nat) (scope : FrameRef) : EvalM Value := do
  match ← inspect (·.marked? .unquote template) with
  | some inner =>
      if level = 1 then holding [inner] (perform (.eval inner scope))
      else
        let filled ← holding [inner] (perform (.fill inner (level - 1) scope))
        keepMark session .unquote filled
  | none =>
      match ← inspect (·.marked? .quasiquote template) with
      | some inner =>
          let filled ← holding [inner] (perform (.fill inner (level + 1) scope))
          keepMark session .quasiquote filled
      | none =>
          match template with
          | .pair _ => perform (.fillRest [] template level scope)
          | atom => pure atom

/-- The items that one element of a list template gives. -/
def fillElement (element : Value) (level : Nat) (scope : FrameRef) : EvalM (List Value) := do
  match ← inspect (·.marked? .unquoteSplicing element) with
  | some inner =>
      if level = 1 then
        let spliced ← holding [inner] (perform (.eval inner scope))
        match ← inspect (·.elements spliced) with
        | .ok items => pure items
        | .error _ => fail (.type (.notSpliceable (← printed spliced)))
      else
        let filled ← holding [inner] (perform (.fill inner (level - 1) scope))
        return [← keepMark session .unquoteSplicing filled]
  | none => return [← perform (.fill element level scope)]

/-- Fill in the rest of a list template, behind the items made so far (the last one first). -/
def fillRest (made : List Value) (rest : Value) (level : Nat) (scope : FrameRef) :
    EvalM Value := do
  if made ≠ [] && (← inspect (·.isMarked rest)) then
    let tail ← holding (rest :: made) (perform (.fill rest level scope))
    update (·.listWithTail session.arena made.reverse tail)
  else
    match rest with
    | .pair ref =>
        let element ← inspect (·.car ref)
        let items ← holding (element :: rest :: made)
          (fillElement session perform element level scope)
        perform (.fillRest (items.reverse ++ made) (← inspect (·.cdr ref)) level scope)
    | tail => update (·.listWithTail session.arena made.reverse tail)

end Eval

end SmallLisp
