/-!
# Symbols

A symbol is a spelling up to the case of ASCII letters. It is kept in its canonical spelling,
the one with capital letters, so two symbols are the same exactly when their canonical
spellings are.

## Main results

* `upper_upper` — the canonical spelling of a canonical spelling is itself.
* `Symbol.ofString_eq_iff` — two spellings name one symbol exactly when they agree up to case.
-/

namespace SmallLisp

/-- The text with its ASCII letters made capital. -/
def upper (text : String) : String :=
  String.ofList (text.toList.map Char.toUpper)

/-- The character is a small ASCII letter. -/
def IsSmall (c : Char) : Prop :=
  'a'.val ≤ c.val ∧ c.val ≤ 'z'.val

theorem toUpper_of_not_isSmall {c : Char} (h : ¬IsSmall c) : c.toUpper = c :=
  dif_neg h

theorem val_toUpper_of_isSmall {c : Char} (h : IsSmall c) :
    c.toUpper.val = c.val + ('A'.val - 'a'.val) := by
  delta Char.toUpper
  split
  · rfl
  · next hnot => exact absurd h hnot

theorem not_isSmall_toUpper (c : Char) : ¬IsSmall c.toUpper := by
  by_cases h : IsSmall c
  · rintro ⟨hlow, hhigh⟩
    rw [val_toUpper_of_isSmall h] at hlow hhigh
    obtain ⟨hfirst, hlast⟩ := h
    simp only [UInt32.le_iff_toNat_le, UInt32.toNat_add] at *
    have hshift : ('A'.val - 'a'.val).toNat = 4294967264 := by decide
    have ha : 'a'.val.toNat = 97 := by decide
    have hz : 'z'.val.toNat = 122 := by decide
    omega
  · rwa [toUpper_of_not_isSmall h]

theorem toUpper_toUpper (c : Char) : c.toUpper.toUpper = c.toUpper :=
  toUpper_of_not_isSmall (not_isSmall_toUpper c)

theorem upper_upper (text : String) : upper (upper text) = upper text := by
  have hcomp : Char.toUpper ∘ Char.toUpper = Char.toUpper := funext toUpper_toUpper
  simp [upper, hcomp]

/-- A name of the language, in its canonical spelling. -/
@[ext] structure Symbol where
  spelling : String
  canonical : upper spelling = spelling
  deriving DecidableEq

namespace Symbol

/-- The symbol that a spelling names. -/
def ofString (text : String) : Symbol :=
  ⟨upper text, upper_upper text⟩

/-- The text spells this symbol, whatever the case of its letters. -/
def isSpelled (symbol : Symbol) (text : String) : Bool :=
  symbol.spelling = upper text

theorem ofString_eq_iff {a b : String} : ofString a = ofString b ↔ upper a = upper b := by
  simp [ofString]

/-! ### Reserved symbols -/

/-- Head of a quoted form. -/
def quote : Symbol := ofString "QUOTE"

/-- Head of a template. -/
def quasiquote : Symbol := ofString "QUASIQUOTE"

/-- Head of a part of a template that is evaluated. -/
def unquote : Symbol := ofString "UNQUOTE"

/-- Head of a part of a template whose items are put in place of it. -/
def unquoteSplicing : Symbol := ofString "UNQUOTE-SPLICING"

/-- Head of the marker that announces a rest parameter. The ampersand starts no symbol, so no
text spells it. -/
def restMarker : Symbol := ofString "&REST"

end Symbol

end SmallLisp
