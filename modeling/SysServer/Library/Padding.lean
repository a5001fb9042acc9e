import Mathlib.Data.List.Basic

/-!
# Padding to a fixed width

Items filled up at the end with a blank. The width is kept and the blanks at the end of the items
are no longer told from the filling: two lists become equal exactly when one is the other followed
by blanks.
-/

namespace Library

variable {α : Type*} {blank : α} {width : ℕ} {left right : List α}

/-- Fill up with blanks to the width. -/
def pad (blank : α) (width : ℕ) (items : List α) : List α :=
  items ++ List.replicate (width - items.length) blank

/-- One list is the other followed by blanks. -/
def SameUpTo (blank : α) (left right : List α) : Prop :=
  ∃ count, left = right ++ List.replicate count blank ∨ right = left ++ List.replicate count blank

/-- Items that fit are filled up to the width. -/
theorem pad_length {items : List α} (fits : items.length ≤ width) :
    (pad blank width items).length = width := by
  simp only [pad, List.length_append, List.length_replicate]
  omega

/-- Lists of one length that are the same up to blanks are the same. -/
theorem SameUpTo.eq (same : SameUpTo blank left right) (lengths : left.length = right.length) :
    left = right := by
  have whole : ∀ {short long : List α} {count : ℕ}, long.length = short.length →
      long = short ++ List.replicate count blank → long = short := by
    intro short long count lengths longer
    have grown := congrArg List.length longer
    rw [List.length_append, List.length_replicate] at grown
    obtain rfl : count = 0 := by omega
    simpa using longer
  obtain ⟨count, longer | longer⟩ := same
  · exact whole lengths longer
  · exact (whole lengths.symm longer).symm

/-- Items followed by a filling that equals the filled up shorter list end in blanks. -/
theorem blanks_of_append {count more : ℕ} {rest : List α}
    (filled : List.replicate count blank = rest ++ List.replicate more blank) :
    rest = List.replicate rest.length blank :=
  (List.append_eq_replicate_iff.mp filled.symm).2.1

/-- Padding forgets the blanks at the end, and nothing else. -/
theorem pad_eq_iff (leftFits : left.length ≤ width) (rightFits : right.length ≤ width) :
    pad blank width left = pad blank width right ↔ SameUpTo blank left right := by
  constructor
  · intro padded
    rcases List.append_eq_append_iff.mp padded with ⟨rest, longer, filled⟩ | ⟨rest, longer, filled⟩
    · exact ⟨rest.length, .inr (longer.trans (by rw [← blanks_of_append filled]))⟩
    · exact ⟨rest.length, .inl (longer.trans (by rw [← blanks_of_append filled]))⟩
  · rintro ⟨count, rfl | rfl⟩
    all_goals
      simp only [List.length_append, List.length_replicate] at leftFits rightFits
      simp only [pad, List.length_append, List.length_replicate, List.append_assoc,
        List.replicate_append_replicate]
      congr 2
      omega

end Library
