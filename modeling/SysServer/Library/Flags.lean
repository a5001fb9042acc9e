import Mathlib.Data.BitVec

/-!
# Fields of flag words

A word of flags is changed by setting and by clearing bits, and read through masks. A change has a
footprint, the bits it may touch; a field outside the footprint is read as before, and a field
inside is read from the bits set.
-/

namespace Library

variable {w : ℕ} {before middle after bits mask footprint word : BitVec w}

/-- All bits of a mask are set. -/
def IsSet (mask word : BitVec w) : Prop := word &&& mask = mask

/-- Whether a mask is set is computed. -/
instance (mask word : BitVec w) : Decidable (IsSet mask word) :=
  inferInstanceAs (Decidable (word &&& mask = mask))

/-- Two words differ inside a footprint only. -/
def SameOutside (footprint before after : BitVec w) : Prop :=
  after &&& ~~~footprint = before &&& ~~~footprint

/-- A word differs from itself nowhere. -/
theorem SameOutside.refl (footprint word : BitVec w) : SameOutside footprint word word := rfl

/-- Differences accumulate within a footprint. -/
theorem SameOutside.trans (first : SameOutside footprint before middle)
    (second : SameOutside footprint middle after) : SameOutside footprint before after :=
  Eq.trans second first

/-- A footprint may be widened. -/
theorem SameOutside.widen {wider : BitVec w} (same : SameOutside footprint before after)
    (inside : footprint &&& ~~~wider = 0#w) : SameOutside wider before after := by
  ext i bound
  have bit := congrArg (fun other => other[i]) same
  have covered := congrArg (fun other => other[i]) inside
  simp only [BitVec.getElem_and, BitVec.getElem_not, BitVec.getElem_zero] at bit covered ⊢
  grind

/-- Bits inside the footprint may be set. -/
theorem SameOutside.set (word : BitVec w) (inside : bits &&& ~~~footprint = 0#w) :
    SameOutside footprint word (word ||| bits) := by
  rw [SameOutside, BitVec.and_or_distrib_right, inside, BitVec.or_zero]

/-- Bits inside the footprint may be cleared. -/
theorem SameOutside.clear (word : BitVec w) (inside : bits &&& ~~~footprint = 0#w) :
    SameOutside footprint word (word &&& ~~~bits) := by
  have kept : ~~~bits &&& ~~~footprint = ~~~footprint := by
    ext i bound
    have bit := congrArg (fun other => other[i]) inside
    simp only [BitVec.getElem_and, BitVec.getElem_not, BitVec.getElem_zero] at bit ⊢
    grind
  rw [SameOutside, BitVec.and_assoc, kept]

/-- A field outside the footprint is read as before. -/
theorem SameOutside.field (same : SameOutside footprint before after)
    (apart : mask &&& footprint = 0#w) : after &&& mask = before &&& mask := by
  ext i bound
  have bit := congrArg (fun other => other[i]) same
  have outside := congrArg (fun other => other[i]) apart
  simp only [BitVec.getElem_and, BitVec.getElem_not, BitVec.getElem_zero] at bit outside ⊢
  grind

/-- A mask outside the footprint is set as before. -/
theorem SameOutside.isSet_iff (same : SameOutside footprint before after)
    (apart : mask &&& footprint = 0#w) : IsSet mask after ↔ IsSet mask before := by
  rw [IsSet, IsSet, same.field apart]

/-- Clearing the bits of a field leaves none. -/
theorem field_clear (word : BitVec w) (covered : mask &&& ~~~bits = 0#w) :
    (word &&& ~~~bits) &&& mask = 0#w := by
  rw [BitVec.and_assoc, BitVec.and_comm _ mask, covered, BitVec.and_zero]

/-- Bits that were set are set. -/
theorem isSet_set (word : BitVec w) (covered : bits &&& mask = mask) :
    IsSet mask (word ||| bits) := by
  ext i bound
  have bit := congrArg (fun other => other[i]) covered
  simp only [BitVec.getElem_and, BitVec.getElem_or] at bit ⊢
  grind

/-- Bits that were cleared are not set. -/
theorem not_isSet_clear (word : BitVec w) (covered : mask &&& ~~~bits = 0#w) (some : mask ≠ 0#w) :
    ¬ IsSet mask (word &&& ~~~bits) := by
  rw [IsSet, field_clear word covered]
  exact some.symm

end Library
