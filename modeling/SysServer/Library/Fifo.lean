import Mathlib.Data.List.Nodup
import Mathlib.Data.List.Infix

/-!
# First in, first out

The queue a list of nodes stands for: values enter at the back and leave from the front. `Before`
is the order in which a history records two values, and a prefix of a history without repetition
records the order of its values as the whole history does. Stages of a pipeline that each hand
their values on in order are composed with it. `latest` is what a history of requests leaves of a
value that each of them sets or does not.
-/

namespace Library

namespace Fifo

variable {α : Type*}

/-- Enter a value at the back. -/
def push (queue : List α) (value : α) : List α := queue ++ [value]

/-- Take the value at the front, when there is one, and the queue behind it. -/
def pop : List α → Option (α × List α)
  | [] => none
  | value :: rest => some (value, rest)

/-- Only the empty queue refuses to give a value. -/
@[simp] theorem pop_eq_none {queue : List α} : pop queue = none ↔ queue = [] := by
  cases queue <;> simp [pop]

/-- A value taken was at the front. -/
@[simp] theorem pop_eq_some {queue rest : List α} {value : α} :
    pop queue = some (value, rest) ↔ queue = value :: rest := by
  cases queue <;> simp [pop]

/-- A value entered is entered in the history as well. -/
theorem history_push {history gone queue : List α} (value : α)
    (balanced : history = gone ++ queue) : push history value = gone ++ push queue value := by
  simp [balanced, push]

end Fifo

variable {α β : Type*}

/-- The history records the first value at an earlier place than the second. -/
def Before (history : List α) (first second : α) : Prop := [first, second].Sublist history

/-- The order of two values in a history of comparable values can be computed. -/
instance [DecidableEq α] (history : List α) (first second : α) :
    Decidable (Before history first second) :=
  inferInstanceAs (Decidable ([first, second].Sublist history))

/-- An order recorded by a prefix is recorded by the whole history. -/
theorem Before.of_prefix {part whole : List α} {first second : α} (start : part <+: whole)
    (recorded : Before part first second) : Before whole first second :=
  recorded.trans start.sublist

/-- A prefix of a history without repetition that has the later value records the order. -/
theorem Before.to_prefix {part whole : List α} {first second : α} (distinct : whole.Nodup)
    (start : part <+: whole) (inside : second ∈ part) (recorded : Before whole first second) :
    Before part first second := by
  obtain ⟨rest, rfl⟩ := start
  have apart : second ∉ rest := fun later => List.disjoint_of_nodup_append distinct inside later
  obtain ⟨front, back, split, left, right⟩ := List.sublist_append_iff.mp recorded
  have empty : back = [] := by
    by_contra nonempty
    have last : back.getLast nonempty = second := by
      have ends : ([first, second] : List α).getLast (by simp) = second := rfl
      rw [← ends]
      simp only [split]
      exact (List.getLast_append_of_right_ne_nil front back nonempty).symm
    exact apart (last ▸ right.subset (List.getLast_mem nonempty))
  subst empty
  rw [List.append_nil] at split
  unfold Before
  rwa [split]

/-- A prefix and the whole history agree on the order of values of the prefix. -/
theorem before_prefix_iff {part whole : List α} {first second : α} (distinct : whole.Nodup)
    (start : part <+: whole) (inside : second ∈ part) :
    Before part first second ↔ Before whole first second :=
  ⟨Before.of_prefix start, Before.to_prefix distinct start inside⟩

/-- The latest value that an entry of the history asks for, or the old one. -/
def latest (asks : α → Option β) (history : List α) (old : β) : β :=
  ((history.filterMap asks).getLast?).getD old

end Library
