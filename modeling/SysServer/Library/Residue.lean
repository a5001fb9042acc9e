import Mathlib.Algebra.Field.ZMod
import Mathlib.Data.BitVec
import Mathlib.RingTheory.AdjoinRoot

/-!
# Words as residues

A sequence of bits is a polynomial over the field of two elements, its first bit the highest
coefficient. A word is the sequence of its bits, the most significant first, and exclusive or of
words is addition. A word also stands for the low coefficients of a monic polynomial one degree
higher than the word is wide; modulo that polynomial, words are the residues, each residue once.
-/

namespace Library

open Polynomial

variable {w : ℕ}

/-- A bit as a coefficient. -/
def coefficient (bit : Bool) : ZMod 2 := if bit then 1 else 0

/-- Exclusive or of bits is addition of coefficients. -/
theorem coefficient_xor (left right : Bool) :
    coefficient (left ^^ right) = coefficient left + coefficient right := by
  revert left right
  decide

/-- A coefficient says its bit. -/
theorem coefficient_inj {left right : Bool} :
    coefficient left = coefficient right ↔ left = right := by
  revert left right
  decide

/-- A sequence of bits as a polynomial, the first bit its highest coefficient. -/
noncomputable def message : List Bool → (ZMod 2)[X]
  | [] => 0
  | bit :: bits => C (coefficient bit) * X ^ bits.length + message bits

/-- A sequence after another moves that one up. -/
theorem message_append (front back : List Bool) :
    message (front ++ back) = message front * X ^ back.length + message back := by
  induction front with
  | nil => simp [message]
  | cons bit front ih =>
    simp only [List.cons_append, message, ih, List.length_append]
    ring

/-- The coefficients of a sequence are its bits, the last bit that of degree zero. -/
theorem message_coeff (bits : List Bool) (degree : ℕ) :
    (message bits).coeff degree = coefficient (bits.reverse.getD degree false) := by
  induction bits with
  | nil => simp [message, coefficient]
  | cons bit bits ih =>
    rw [message, coeff_add, coeff_C_mul_X_pow, ih, List.reverse_cons]
    by_cases last : degree = bits.length
    · have beyond : bits.reverse.getD degree false = false := by
        simp [last]
      rw [if_pos last, beyond]
      simp [last, coefficient]
    · rw [if_neg last, zero_add]
      by_cases below : degree < bits.length
      · simp [List.getElem?_append_left, below]
      · have beyond : bits.length + 1 ≤ degree := by omega
        simp [List.getElem?_eq_none, show bits.length ≤ degree by omega, beyond]

/-- The bits of a word, the most significant first. -/
def bitsOf (word : BitVec w) : List Bool := ((List.range w).map word.getLsbD).reverse

/-- A word has as many bits as it is wide. -/
@[simp] theorem bitsOf_length (word : BitVec w) : (bitsOf word).length = w := by
  simp [bitsOf]

/-- A word as a polynomial. -/
noncomputable def polynomial (word : BitVec w) : (ZMod 2)[X] := message (bitsOf word)

/-- The coefficients of a word are its bits, the least significant that of degree zero. -/
theorem polynomial_coeff (word : BitVec w) (degree : ℕ) :
    (polynomial word).coeff degree = coefficient (word.getLsbD degree) := by
  rw [polynomial, message_coeff, bitsOf, List.reverse_reverse]
  by_cases below : degree < w
  · simp [below]
  · simp [show w ≤ degree by omega, BitVec.getLsbD_of_ge]

/-- A word has no coefficient of its width or above. -/
theorem polynomial_degree_lt (word : BitVec w) : (polynomial word).degree < w := by
  apply (degree_lt_iff_coeff_zero _ w).mpr
  intro degree above
  rw [polynomial_coeff, BitVec.getLsbD_of_ge _ _ above]
  rfl

/-- A polynomial is that of at most one word. -/
theorem polynomial_injective : Function.Injective (polynomial (w := w)) := by
  intro left right same
  apply BitVec.eq_of_getLsbD_eq
  intro index _
  have coefficients := congrArg (fun other => other.coeff index) same
  simp only [polynomial_coeff] at coefficients
  exact coefficient_inj.mp coefficients

/-- Different words have different bits. -/
theorem bitsOf_injective : Function.Injective (bitsOf (w := w)) := fun _ _ same =>
  polynomial_injective (congrArg message same)

/-- The bits of a word followed by another are those of both. -/
theorem bitsOf_append {count : ℕ} (front : BitVec w) (back : BitVec count) :
    bitsOf (front ++ back) = bitsOf front ++ bitsOf back := by
  apply List.ext_getElem
  · simp
  · intro index inside _
    rw [bitsOf_length] at inside
    by_cases first : index < w
    · rw [List.getElem_append_left (by simpa using first)]
      simp only [bitsOf, List.getElem_reverse, List.getElem_map, List.getElem_range,
        List.length_map, List.length_range, BitVec.getLsbD_append]
      rw [if_neg (by omega)]
      congr 1
      omega
    · rw [List.getElem_append_right (by simpa using first)]
      simp only [bitsOf, List.getElem_reverse, List.getElem_map, List.getElem_range,
        List.length_map, List.length_range, List.length_reverse, BitVec.getLsbD_append]
      rw [if_pos (by omega)]
      congr 1
      omega

/-- Exclusive or is addition. -/
theorem polynomial_xor (left right : BitVec w) :
    polynomial (left ^^^ right) = polynomial left + polynomial right := by
  ext degree
  rw [coeff_add, polynomial_coeff, polynomial_coeff, polynomial_coeff, BitVec.getLsbD_xor,
    coefficient_xor]

/-- The word of zeros is zero. -/
@[simp] theorem polynomial_zero : polynomial 0#w = 0 := by
  ext degree
  rw [polynomial_coeff, BitVec.getLsbD_zero]
  rfl

/-- The bits of a word above the ones that a shift to the left keeps. -/
def lost (count : ℕ) (word : BitVec w) : BitVec count := (word >>> (w - count)).setWidth count

/-- A shift multiplies by a power of the variable and loses the most significant bits. -/
theorem polynomial_shiftLeft {count : ℕ} (fits : count ≤ w) (word : BitVec w) :
    polynomial (word <<< count) + polynomial (lost count word) * X ^ w =
      polynomial word * X ^ count := by
  ext degree
  rw [coeff_add, coeff_mul_X_pow', coeff_mul_X_pow', polynomial_coeff, polynomial_coeff,
    polynomial_coeff, BitVec.getLsbD_shiftLeft, lost, BitVec.getLsbD_setWidth,
    BitVec.getLsbD_ushiftRight]
  by_cases kept : degree < w
  · have below : ¬ w ≤ degree := by omega
    by_cases moved : degree < count
    · simp [kept, below, moved, coefficient]
    · simp [kept, below, moved, show count ≤ degree by omega]
  · have above : w ≤ degree := by omega
    have moved : count ≤ degree := by omega
    by_cases inside : degree - w < count
    · simp [kept, above, moved, inside, coefficient,
        show w - count + (degree - w) = degree - count by omega]
    · have beyond : word.getLsbD (degree - count) = false :=
        BitVec.getLsbD_of_ge word _ (by omega)
      simp [kept, above, moved, inside, coefficient, beyond]

/-- The monic polynomial of which a word holds the coefficients below the highest. -/
noncomputable def generator (poly : BitVec w) : (ZMod 2)[X] := X ^ w + polynomial poly

/-- The generator is monic. -/
theorem generator_monic (poly : BitVec w) : (generator poly).Monic :=
  monic_X_pow_add (polynomial_degree_lt poly)

/-- The generator's degree is the width. -/
theorem generator_degree (poly : BitVec w) : (generator poly).degree = w := by
  rw [generator, degree_add_eq_left_of_degree_lt, degree_X_pow]
  rw [degree_X_pow]
  exact polynomial_degree_lt poly

/-- The residues modulo a generator. -/
abbrev Residues (poly : BitVec w) : Type := AdjoinRoot (generator poly)

/-- The indeterminate among the residues. -/
noncomputable abbrev indeterminate (poly : BitVec w) : Residues poly :=
  AdjoinRoot.root (generator poly)

/-- The residue of a sequence of bits. -/
noncomputable def residueOf (poly : BitVec w) (bits : List Bool) : Residues poly :=
  AdjoinRoot.mk (generator poly) (message bits)

/-- The residue that a word is. -/
noncomputable def residue (poly word : BitVec w) : Residues poly := residueOf poly (bitsOf word)

/-- The residue of a sequence after another. -/
theorem residueOf_append (poly : BitVec w) (front back : List Bool) :
    residueOf poly (front ++ back) =
      residueOf poly front * indeterminate poly ^ back.length + residueOf poly back := by
  simp only [residueOf, message_append, map_add, map_mul, map_pow, AdjoinRoot.mk_X]

/-- A word is a residue as its polynomial is. -/
theorem residue_eq (poly word : BitVec w) :
    residue poly word = AdjoinRoot.mk (generator poly) (polynomial word) := rfl

/-- Different words are different residues. -/
theorem residue_injective (poly : BitVec w) : Function.Injective (residue poly) := by
  intro left right same
  rw [residue_eq, residue_eq, AdjoinRoot.mk_eq_mk] at same
  have small : (polynomial left - polynomial right).degree < (generator poly).degree := by
    rw [generator_degree]
    exact (degree_sub_le _ _).trans_lt
      (max_lt (polynomial_degree_lt left) (polynomial_degree_lt right))
  apply polynomial_injective
  by_contra different
  exact (generator_monic poly).not_dvd_of_degree_lt (sub_ne_zero.mpr different) small same

/-- Exclusive or of words of any width is addition of residues. -/
theorem residueOf_xor {count : ℕ} (poly : BitVec w) (left right : BitVec count) :
    residueOf poly (bitsOf (left ^^^ right)) =
      residueOf poly (bitsOf left) + residueOf poly (bitsOf right) := by
  have sum := congrArg (AdjoinRoot.mk (generator poly)) (polynomial_xor left right)
  rw [map_add] at sum
  exact sum

/-- Exclusive or is addition of residues. -/
theorem residue_xor (poly left right : BitVec w) :
    residue poly (left ^^^ right) = residue poly left + residue poly right :=
  residueOf_xor poly left right

/-- The word of zeros is the residue zero. -/
@[simp] theorem residue_zero (poly : BitVec w) : residue poly 0#w = 0 := by
  rw [residue_eq, polynomial_zero, map_zero]

/-- The generator's own word is the residue of the power above its word. -/
theorem residue_self (poly : BitVec w) : residue poly poly = indeterminate poly ^ w := by
  have zero : AdjoinRoot.mk (generator poly) (X ^ w + polynomial poly) = 0 := AdjoinRoot.mk_self
  rw [map_add, map_pow, AdjoinRoot.mk_X, ← residue_eq] at zero
  rw [← ZModModule.neg_eq_self (indeterminate poly ^ w)]
  exact eq_neg_of_add_eq_zero_right zero

/-- A shift multiplies by a power of the indeterminate, but for the bits that it loses. -/
theorem residue_shiftLeft (poly word : BitVec w) {count : ℕ} (fits : count ≤ w) :
    residue poly (word <<< count) = residue poly word * indeterminate poly ^ count +
      residueOf poly (bitsOf (lost count word)) * indeterminate poly ^ w := by
  have shifted := congrArg (AdjoinRoot.mk (generator poly)) (polynomial_shiftLeft fits word)
  simp only [map_add, map_mul, map_pow, AdjoinRoot.mk_X, ← residue_eq] at shifted
  rw [← shifted, add_assoc, residueOf, ← polynomial, ZModModule.add_self, add_zero]

/-- A shift by one place loses the most significant bit. -/
theorem residue_shiftLeft_one (poly word : BitVec w) :
    residue poly (word <<< 1) = residue poly word * indeterminate poly +
      residueOf poly [word.msb] * indeterminate poly ^ w := by
  by_cases wide : 1 ≤ w
  · have top : bitsOf (lost 1 word) = [word.msb] := by
      simp [bitsOf, lost, BitVec.msb_eq_getLsbD_last]
    rw [residue_shiftLeft poly word wide, top, pow_one]
  · obtain rfl : w = 0 := by omega
    obtain rfl := BitVec.eq_nil word
    simp [residueOf, message, coefficient]

/-- When the constant term is one, the indeterminate has an inverse. -/
theorem indeterminate_isUnit {poly : BitVec w} (constant : poly.getLsbD 0 = true) :
    IsUnit (indeterminate poly) := by
  have wide : w ≠ 0 := by
    rintro rfl
    simp at constant
  have one : (generator poly).coeff 0 = 1 := by
    rw [generator, coeff_add, polynomial_coeff, constant, coeff_X_pow]
    simp [coefficient, wide.symm]
  have split := congrArg (AdjoinRoot.mk (generator poly)) (X_mul_divX_add (generator poly))
  rw [map_add, map_mul, AdjoinRoot.mk_X, AdjoinRoot.mk_self, one, C_1, map_one] at split
  apply IsUnit.of_mul_eq_one (-AdjoinRoot.mk (generator poly) (generator poly).divX)
  rw [mul_neg]
  exact neg_eq_of_add_eq_zero_right split

end Library
