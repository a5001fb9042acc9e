import Mathlib.Data.List.DropRight

/-!
# Lexical path resolution

A path is a list of hops, each into a directory or up out of one, and a place is the list of names
from the root to it; going up from the root stays there. Cancelling every hop up against the
nearest name before it leaves a number of hops up and then a list of names, and these two decide
where a path leads from any place.
-/

namespace Library

variable {α : Type*}

/-- One component of a path. -/
inductive Hop (α : Type*) where
  /-- To the parent. -/
  | up
  /-- Into an entry of the directory. -/
  | into (name : α)
  deriving DecidableEq

/-- The place after one hop. -/
def hop (place : List α) : Hop α → List α
  | .up => place.dropLast
  | .into name => place ++ [name]

/-- The place after a path. -/
def resolve (start : List α) (hops : List (Hop α)) : List α := hops.foldl hop start

/-- The hops up and the names that are left when each hop up is cancelled against the nearest name
before it. -/
def cancel : List (Hop α) → ℕ × List α
  | [] => (0, [])
  | .up :: hops => ((cancel hops).1 + 1, (cancel hops).2)
  | .into name :: hops =>
    match cancel hops with
    | (0, names) => (0, name :: names)
    | (ups + 1, names) => (ups, names)

/-- Dropping the last name and then more from the end is dropping one more from the end. -/
theorem rdrop_dropLast (place : List α) (count : ℕ) :
    place.dropLast.rdrop count = place.rdrop (count + 1) := by
  rw [List.rdrop, List.rdrop, List.length_dropLast, List.dropLast_eq_take, List.take_take]
  congr 1
  omega

/-- A path leads up by the hops left, and then down by the names left. -/
theorem resolve_eq (start : List α) (hops : List (Hop α)) :
    resolve start hops = start.rdrop (cancel hops).1 ++ (cancel hops).2 := by
  induction hops generalizing start with
  | nil => simp [resolve, cancel]
  | cons first hops ih =>
    have onward : resolve start (first :: hops) = resolve (hop start first) hops := rfl
    rw [onward, ih]
    cases first with
    | up => simp only [hop, cancel, rdrop_dropLast]
    | into name =>
      simp only [hop, cancel]
      rcases cancel hops with ⟨_ | ups, names⟩
      · simp
      · simp only [List.rdrop_concat_succ]

/-- A path leads below its start exactly when the names left lead back over the places it went up
from, and further. -/
theorem resolve_below_iff (start : List α) (hops : List (Hop α)) :
    (∃ below, below ≠ [] ∧ resolve start hops = start ++ below) ↔
      ∃ below, below ≠ [] ∧ (cancel hops).2 = start.rtake (cancel hops).1 ++ below := by
  have parts : start.rdrop (cancel hops).1 ++ start.rtake (cancel hops).1 = start :=
    List.take_append_drop _ start
  have same : ∀ below, resolve start hops = start ++ below ↔
      (cancel hops).2 = start.rtake (cancel hops).1 ++ below := by
    intro below
    rw [resolve_eq]
    constructor
    · intro reached
      rw [← List.append_right_inj (start.rdrop (cancel hops).1), reached, ← List.append_assoc,
        parts]
    · intro left
      rw [left, ← List.append_assoc, parts]
  simp only [same]

end Library
