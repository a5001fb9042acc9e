import Mathlib.Algebra.BigOperators.Ring.Finset
import Mathlib.Data.FinEnum
import Mathlib.Data.Nat.Digits.Defs
import Mathlib.GroupTheory.OrderOfElement
import SysServer.Library.Residue

/-!
# Cyclic redundancy checks

A register takes the bits of a message one after another, the most significant first. It holds the
remainder of the message, moved up by the register's width, modulo the generator. Two messages of
one length are therefore told apart exactly when the powers of the indeterminate at the places
where they differ do not add up to zero. Bursts, odd numbers of errors and pairs of errors within
the order of the indeterminate never do.
-/

namespace Library

open Polynomial

variable {w : ℕ} {poly : BitVec w} {left right : List Bool}

/-- The register after one more bit. -/
def crcStep (poly register : BitVec w) (bit : Bool) : BitVec w :=
  if register.msb ^^ bit then register <<< 1 ^^^ poly else register <<< 1

/-- The register after the bits of a message. -/
def crcFrom (poly register : BitVec w) (bits : List Bool) : BitVec w :=
  bits.foldl (crcStep poly) register

/-- The register after the bits of a message, from zero. -/
def crc (poly : BitVec w) (bits : List Bool) : BitVec w := crcFrom poly 0#w bits

/-- A step multiplies by the indeterminate and adds the bit above the register. -/
theorem residue_crcStep (poly register : BitVec w) (bit : Bool) :
    residue poly (crcStep poly register bit) =
      residue poly register * indeterminate poly +
        residueOf poly [bit] * indeterminate poly ^ w := by
  have fed : residue poly (crcStep poly register bit) = residue poly (register <<< 1) +
      residueOf poly [register.msb ^^ bit] * indeterminate poly ^ w := by
    cases reduced : register.msb ^^ bit with
    | false => simp [crcStep, reduced, residueOf, message, coefficient]
    | true => simp [crcStep, reduced, residueOf, message, coefficient, residue_xor, residue_self]
  have bits : residueOf poly [register.msb ^^ bit] =
      residueOf poly [register.msb] + residueOf poly [bit] := by
    simp [residueOf, message, coefficient_xor]
  rw [fed, bits, residue_shiftLeft_one, add_mul, add_assoc, ← add_assoc (residueOf _ _ * _),
    ZModModule.add_self, zero_add]

/-- A message moves the register's residue up and adds its own, moved up by the width. -/
theorem residue_crcFrom (poly register : BitVec w) (bits : List Bool) :
    residue poly (crcFrom poly register bits) =
      residue poly register * indeterminate poly ^ bits.length +
        residueOf poly bits * indeterminate poly ^ w := by
  induction bits generalizing register with
  | nil => simp [crcFrom, residueOf, message]
  | cons bit bits ih =>
    have whole := residueOf_append poly [bit] bits
    rw [List.singleton_append] at whole
    rw [crcFrom, List.foldl_cons, ← crcFrom, ih, residue_crcStep, whole, List.length_cons]
    ring

/-- From zero, only the message counts. -/
theorem residue_crc (poly : BitVec w) (bits : List Bool) :
    residue poly (crc poly bits) = residueOf poly bits * indeterminate poly ^ w := by
  rw [crc, residue_crcFrom, residue_zero, zero_mul, zero_add]

/-- The register holds the remainder of the message, moved up by the register's width. -/
theorem polynomial_crc (poly : BitVec w) (bits : List Bool) :
    polynomial (crc poly bits) = (message bits * X ^ w) %ₘ generator poly := by
  have small : (polynomial (crc poly bits)).degree < (generator poly).degree := by
    rw [generator_degree]
    exact polynomial_degree_lt _
  have congruent : AdjoinRoot.mk (generator poly) (polynomial (crc poly bits)) =
      AdjoinRoot.mk (generator poly) (message bits * X ^ w) := by
    rw [← residue_eq, residue_crc, map_mul, map_pow, AdjoinRoot.mk_X]
    rfl
  calc polynomial (crc poly bits) = polynomial (crc poly bits) %ₘ generator poly :=
        ((modByMonic_eq_self_iff (generator_monic poly)).mpr small).symm
    _ = (message bits * X ^ w) %ₘ generator poly :=
        modByMonic_eq_of_dvd_sub (generator_monic poly) (AdjoinRoot.mk_eq_mk.mp congruent)

/-- A word is taken in at once by a table of the remainders of single words. -/
theorem crcFrom_word (poly register : BitVec w) {count : ℕ} (fits : count ≤ w)
    (word : BitVec count) :
    crcFrom poly register (bitsOf word) =
      crc poly (bitsOf (lost count register ^^^ word)) ^^^ register <<< count := by
  apply residue_injective poly
  rw [residue_xor, residue_crcFrom, residue_crc, residue_shiftLeft poly register fits,
    residueOf_xor, bitsOf_length, ← sub_eq_zero]
  have twice := ZModModule.add_self
    (residueOf poly (bitsOf (lost count register)) * indeterminate poly ^ w)
  linear_combination -twice

/-! ## Checking with a trailer -/

/-- The indeterminate and its powers may be cancelled. -/
theorem mul_indeterminate_pow_eq_zero (constant : poly.getLsbD 0 = true) (value : Residues poly)
    (exponent : ℕ) : value * indeterminate poly ^ exponent = 0 ↔ value = 0 :=
  ((indeterminate_isUnit constant).pow exponent).mul_left_eq_zero

/-- **A message with a trailer has remainder zero for exactly one trailer**, its own remainder. -/
theorem crc_trailer_iff (constant : poly.getLsbD 0 = true) (bits : List Bool)
    (trailer : BitVec w) :
    crc poly (bits ++ bitsOf trailer) = 0#w ↔ crc poly bits = trailer := by
  have sum : residue poly (crc poly (bits ++ bitsOf trailer)) =
      (residue poly (crc poly bits) - residue poly trailer) * indeterminate poly ^ w := by
    rw [residue_crc, residueOf_append, bitsOf_length, residue_crc, ← residue,
      ← ZModModule.neg_eq_self (residue poly trailer), sub_neg_eq_add,
      ZModModule.neg_eq_self (residue poly trailer)]
  rw [← (residue_injective poly).eq_iff, residue_zero, sum,
    mul_indeterminate_pow_eq_zero constant, sub_eq_zero, (residue_injective poly).eq_iff]

/-! ## Telling messages apart -/

/-- The places where two sequences differ. -/
def errors (left right : List Bool) : Finset ℕ :=
  (Finset.range left.length).filter fun index => left[index]? ≠ right[index]?

/-- Sequences of one length that are not the same differ somewhere. -/
theorem errors_nonempty (lengths : left.length = right.length) (different : left ≠ right) :
    (errors left right).Nonempty := by
  rw [Finset.nonempty_iff_ne_empty]
  intro none_differ
  apply different
  apply List.ext_getElem? 
  intro index
  by_cases inside : index < left.length
  · by_contra differ
    have among : index ∈ errors left right :=
      Finset.mem_filter.mpr ⟨Finset.mem_range.mpr inside, differ⟩
    rw [none_differ] at among
    exact Finset.notMem_empty index among
  · rw [List.getElem?_eq_none (by omega), List.getElem?_eq_none (by omega)]

/-- The sum of two sequences of one length is the sum of the powers at their differences. -/
theorem message_add (lengths : left.length = right.length) :
    message left + message right =
      ∑ index ∈ errors left right, X ^ (left.length - 1 - index) := by
  rw [errors, Finset.sum_filter]
  induction left generalizing right with
  | nil =>
    obtain rfl := List.length_eq_zero_iff.mp lengths.symm
    simp [message]
  | cons bit left ih =>
    obtain ⟨other, right, rfl⟩ := List.exists_cons_of_length_eq_add_one lengths.symm
    have shorter : left.length = right.length := Nat.succ.inj lengths
    have first : C (coefficient bit) * X ^ left.length + C (coefficient other) * X ^ left.length =
        if bit ≠ other then (X : (ZMod 2)[X]) ^ left.length else 0 := by
      cases bit <;> cases other <;> simp [coefficient, ZModModule.add_self]
    have rest := ih shorter
    rw [List.length_cons, Finset.sum_range_succ', message, message, ← shorter,
      add_add_add_comm, first, rest, add_comm]
    congr 1
    · apply Finset.sum_congr rfl
      intro index _
      simp [Nat.sub_sub, Nat.add_comm]
    · simp

/-- The powers of the indeterminate at the differences of two sequences, added up. -/
noncomputable def syndrome (poly : BitVec w) (left right : List Bool) : Residues poly :=
  ∑ index ∈ errors left right, indeterminate poly ^ (left.length - 1 - index)

/-- Sequences of one length have one remainder exactly when their syndrome is zero. -/
theorem crc_eq_iff (constant : poly.getLsbD 0 = true) (lengths : left.length = right.length) :
    crc poly left = crc poly right ↔ syndrome poly left right = 0 := by
  have sum : syndrome poly left right = residueOf poly left - residueOf poly right := by
    have added := congrArg (AdjoinRoot.mk (generator poly)) (message_add lengths)
    simp only [map_add, map_sum, map_pow, AdjoinRoot.mk_X] at added
    rw [syndrome, ← added, sub_eq_add_neg, ZModModule.neg_eq_self]
    rfl
  rw [← (residue_injective poly).eq_iff, residue_crc, residue_crc, ← sub_eq_zero, ← sub_mul,
    mul_indeterminate_pow_eq_zero constant, sum]

/-- A sum of powers below the width, one of them the constant, is not zero. -/
theorem powers_ne_zero {places : Finset ℕ} {last : ℕ} (inside : last ∈ places)
    (near : ∀ index ∈ places, index ≤ last ∧ last < index + w) :
    ∑ index ∈ places, indeterminate poly ^ (last - index) ≠ 0 := by
  intro vanishes
  have divides : generator poly ∣ ∑ index ∈ places, X ^ (last - index) := by
    apply AdjoinRoot.mk_eq_zero.mp
    simpa only [map_sum, map_pow, AdjoinRoot.mk_X] using vanishes
  have small : (∑ index ∈ places, (X : (ZMod 2)[X]) ^ (last - index)).degree <
      (generator poly).degree := by
    rw [generator_degree]
    apply (degree_lt_iff_coeff_zero _ w).mpr
    intro degree above
    rw [finsetSum_coeff]
    apply Finset.sum_eq_zero
    intro index among
    have bounds := near index among
    rw [coeff_X_pow, if_neg (by omega)]
  have constant : (∑ index ∈ places, (X : (ZMod 2)[X]) ^ (last - index)).coeff 0 = 1 := by
    rw [finsetSum_coeff, Finset.sum_eq_single last]
    · simp
    · intro index among different
      have bounds := near index among
      rw [coeff_X_pow, if_neg (by omega)]
    · intro outside
      exact absurd inside outside
  have nonzero : ∑ index ∈ places, (X : (ZMod 2)[X]) ^ (last - index) ≠ 0 := by
    intro zero
    rw [zero, coeff_zero] at constant
    exact absurd constant (by decide)
  exact (generator_monic poly).not_dvd_of_degree_lt nonzero small divides

/-- **Every burst is detected**: differences that lie in a window no wider than the register. -/
theorem crc_burst (constant : poly.getLsbD 0 = true) (lengths : left.length = right.length)
    (some_error : (errors left right).Nonempty) {start : ℕ}
    (window : ∀ index ∈ errors left right, start ≤ index ∧ index < start + w) :
    crc poly left ≠ crc poly right := by
  let last := (errors left right).max' some_error
  have inside : last ∈ errors left right := Finset.max'_mem _ _
  have short : last < left.length := by
    have kept := (Finset.mem_filter.mp inside).1
    exact Finset.mem_range.mp kept
  have near : ∀ index ∈ errors left right, index ≤ last ∧ last < index + w := by
    intro index among
    have below : index ≤ last := Finset.le_max' _ _ among
    have bounds := window index among
    have lastBounds := window last inside
    omega
  intro same
  have zero := (crc_eq_iff constant lengths).mp same
  apply @powers_ne_zero w poly _ _ inside near
  apply (mul_indeterminate_pow_eq_zero constant _ (left.length - 1 - last)).mp
  rw [← zero, syndrome, Finset.sum_mul]
  apply Finset.sum_congr rfl
  intro index among
  have bounds := near index among
  rw [← pow_add, show last - index + (left.length - 1 - last) = left.length - 1 - index by omega]

/-- **Every odd number of errors is detected** by a generator with the root one. -/
theorem crc_odd (constant : poly.getLsbD 0 = true) (even : (generator poly).eval 1 = 0)
    (lengths : left.length = right.length) (odd : Odd (errors left right).card) :
    crc poly left ≠ crc poly right := by
  intro same
  have zero := (crc_eq_iff constant lengths).mp same
  have parity := congrArg (AdjoinRoot.lift (RingHom.id (ZMod 2)) 1 (by simpa using even)) zero
  simp only [syndrome, map_sum, map_pow, AdjoinRoot.lift_root, one_pow, map_zero,
    Finset.sum_const, nsmul_eq_mul, mul_one] at parity
  exact (Nat.not_even_iff_odd.mpr odd) (ZMod.natCast_eq_zero_iff_even.mp parity)

/-- **Every pair of errors is detected** that is not as far apart as the indeterminate's order. -/
theorem crc_double (constant : poly.getLsbD 0 = true) (lengths : left.length = right.length)
    {first second : ℕ} (ordered : first < second)
    (within : second - first < orderOf (indeterminate poly))
    (pair : errors left right = {first, second}) : crc poly left ≠ crc poly right := by
  intro same
  have zero := (crc_eq_iff constant lengths).mp same
  have inside : second ∈ errors left right := by simp [pair]
  have short : second < left.length := Finset.mem_range.mp (Finset.mem_filter.mp inside).1
  have factor : syndrome poly left right =
      (indeterminate poly ^ (second - first) + 1) *
        indeterminate poly ^ (left.length - 1 - second) := by
    rw [syndrome, pair, Finset.sum_pair ordered.ne, add_mul, one_mul, ← pow_add,
      show second - first + (left.length - 1 - second) = left.length - 1 - first by omega]
  rw [factor, mul_indeterminate_pow_eq_zero constant] at zero
  have one : indeterminate poly ^ (second - first) = 1 := by
    rw [eq_neg_of_add_eq_zero_left zero, ZModModule.neg_eq_self]
  have divides := orderOf_dvd_of_pow_eq_one one
  have far := Nat.le_of_dvd (by omega) divides
  omega

/-! ## Which differences are not detected -/

/-- A pair of errors is missed exactly when the indeterminate's order divides the distance. -/
theorem crc_double_iff (constant : poly.getLsbD 0 = true) (lengths : left.length = right.length)
    {first second : ℕ} (ordered : first < second) (pair : errors left right = {first, second}) :
    crc poly left = crc poly right ↔ orderOf (indeterminate poly) ∣ second - first := by
  have inside : second ∈ errors left right := by simp [pair]
  have short : second < left.length := Finset.mem_range.mp (Finset.mem_filter.mp inside).1
  have factor : syndrome poly left right =
      (indeterminate poly ^ (second - first) + 1) *
        indeterminate poly ^ (left.length - 1 - second) := by
    rw [syndrome, pair, Finset.sum_pair ordered.ne, add_mul, one_mul, ← pow_add,
      show second - first + (left.length - 1 - second) = left.length - 1 - first by omega]
  rw [crc_eq_iff constant lengths, factor, mul_indeterminate_pow_eq_zero constant,
    orderOf_dvd_iff_pow_eq_one, ← eq_neg_iff_add_eq_zero, ZModModule.neg_eq_self]

/-- The coefficients of a sum of powers tell the places that it is over. -/
theorem powers_coeff {places : Finset ℕ} {last index : ℕ} (before : ∀ place ∈ places, place ≤ last)
    (inside : index ≤ last) :
    (∑ place ∈ places, (X : (ZMod 2)[X]) ^ (last - place)).coeff (last - index) =
      if index ∈ places then 1 else 0 := by
  rw [finsetSum_coeff, ← Finset.sum_ite_eq' places index fun _ => (1 : ZMod 2)]
  refine Finset.sum_congr rfl fun place among => ?_
  have near := before place among
  rw [coeff_X_pow]
  exact if_congr (by omega) rfl rfl

/-- A polynomial over two elements that is no longer than a monic divisor and not zero is the
divisor. -/
theorem eq_of_dvd_of_degree_le {divisor dividend : (ZMod 2)[X]} (monic : divisor.Monic)
    (nonzero : dividend ≠ 0) (divides : divisor ∣ dividend)
    (short : dividend.natDegree ≤ divisor.natDegree) : divisor = dividend := by
  have leading : dividend.leadingCoeff = 1 := by
    have distinct := leadingCoeff_ne_zero.mpr nonzero
    generalize dividend.leadingCoeff = value at distinct
    revert distinct
    revert value
    decide
  exact (eq_of_monic_of_dvd_of_natDegree_le monic leading divides short).symm

/-- The generator's constant coefficient is that of its word. -/
theorem generator_constant (constant : poly.getLsbD 0 = true) : (generator poly).coeff 0 = 1 := by
  have wide : w ≠ 0 := by
    rintro rfl
    simp at constant
  rw [generator, coeff_add, coeff_X_pow, if_neg wide.symm, polynomial_coeff, constant, zero_add]
  rfl

/-- **The shortest differences that are missed are the generator.** Differences within one place
more than the register is wide are missed exactly when they lie as the generator's powers do. -/
theorem crc_window_iff (constant : poly.getLsbD 0 = true) (lengths : left.length = right.length)
    (some_error : (errors left right).Nonempty) {last : ℕ} {places : Finset ℕ}
    (spelled : generator poly = ∑ place ∈ places, X ^ (last - place))
    (before : ∀ place ∈ places, place ≤ last)
    (window : ∀ index ∈ errors left right, index ≤ last ∧ last ≤ index + w) :
    crc poly left = crc poly right ↔ errors left right = places := by
  have near : ∀ index ∈ errors left right, index < left.length := fun index among =>
    Finset.mem_range.mp (Finset.mem_filter.mp among).1
  by_cases short : left.length ≤ last
  · -- The last place is behind the message, so the differences are a burst.
    have burst : crc poly left ≠ crc poly right := by
      apply @crc_burst w poly left right constant lengths some_error (last - w)
      intro index among
      have bounds := window index among
      have inside := near index among
      omega
    refine iff_of_false burst ?_
    rintro rfl
    have ends := powers_coeff before (Nat.le_refl last)
    rw [← spelled, Nat.sub_self, generator_constant constant] at ends
    have inside : last ∈ errors left right := by
      by_contra outside
      simp [outside] at ends
    exact absurd (near last inside) (by omega)
  · have factor : syndrome poly left right =
        AdjoinRoot.mk (generator poly) (∑ index ∈ errors left right, X ^ (last - index)) *
          indeterminate poly ^ (left.length - 1 - last) := by
      rw [syndrome, map_sum, Finset.sum_mul]
      refine Finset.sum_congr rfl fun index among => ?_
      have bounds := window index among
      rw [map_pow, AdjoinRoot.mk_X, ← pow_add,
        show last - index + (left.length - 1 - last) = left.length - 1 - index by omega]
    rw [crc_eq_iff constant lengths, factor, mul_indeterminate_pow_eq_zero constant,
      AdjoinRoot.mk_eq_zero]
    constructor
    · intro divides
      have within : ∀ index ∈ errors left right, index ≤ last := fun index among =>
        (window index among).1
      have nonzero : ∑ index ∈ errors left right, (X : (ZMod 2)[X]) ^ (last - index) ≠ 0 := by
        intro zero
        obtain ⟨index, among⟩ := some_error
        have one := powers_coeff within (within index among)
        rw [zero, coeff_zero, if_pos among] at one
        exact absurd one (by decide)
      have small : (∑ index ∈ errors left right, (X : (ZMod 2)[X]) ^ (last - index)).natDegree ≤
          (generator poly).natDegree := by
        rw [natDegree_eq_of_degree_eq_some (generator_degree poly)]
        refine natDegree_sum_le_of_forall_le _ _ fun index among => ?_
        have bounds := window index among
        rw [natDegree_X_pow]
        omega
      have same := eq_of_dvd_of_degree_le (generator_monic poly) nonzero divides small
      ext index
      by_cases inside : index ≤ last
      · have mine := powers_coeff within inside
        have its := powers_coeff before inside
        rw [← same, spelled, its] at mine
        by_cases member : index ∈ places <;> simp_all
      · exact iff_of_false (fun among => inside (within index among))
          fun among => inside (before index among)
    · rintro same
      rw [same, ← spelled]

/-! ## Forging -/

/-- The register before a message is known from that after it. -/
theorem crcFrom_injective (constant : poly.getLsbD 0 = true) (bits : List Bool) :
    Function.Injective fun register => crcFrom poly register bits := by
  intro first second same
  have moved := congrArg (residue poly) same
  simp only [residue_crcFrom, add_left_inj] at moved
  have unit := (indeterminate_isUnit constant).pow bits.length
  exact residue_injective poly (unit.mul_right_cancel moved)

/-- Different words bring a register to different values. -/
theorem crcFrom_word_injective (constant : poly.getLsbD 0 = true) (register : BitVec w) :
    Function.Injective fun word : BitVec w => crcFrom poly register (bitsOf word) := by
  intro first second same
  have moved := congrArg (residue poly) same
  simp only [residue_crcFrom, bitsOf_length, add_right_inj] at moved
  have unit := (indeterminate_isUnit constant).pow w
  exact residue_injective poly (unit.mul_right_cancel moved)

/-- **One word brings a message to any remainder**, wherever it stands in the message, and only
one does. -/
theorem crc_forge (constant : poly.getLsbD 0 = true) (front back : List Bool)
    (target : BitVec w) : ∃! word : BitVec w, crc poly (front ++ bitsOf word ++ back) = target := by
  have through : Function.Injective fun word : BitVec w =>
      crc poly (front ++ bitsOf word ++ back) := by
    intro first second same
    simp only [crc, crcFrom, List.foldl_append] at same
    exact crcFrom_word_injective constant _ (crcFrom_injective constant back same)
  exact (Finite.injective_iff_bijective.mp through).existsUnique target

/-! ## Powers of the indeterminate -/

/-- The product of two residues as a word. -/
def multiply (poly first second : BitVec w) : BitVec w :=
  (bitsOf second).foldl
    (fun product bit => crcStep poly product false ^^^ if bit then first else 0#w) 0#w

/-- A power of the indeterminate as a word, for the binary digits of the exponent. -/
def power (poly : BitVec w) : List Bool → BitVec w
  | [] => 1#w
  | bit :: bits =>
    let square := multiply poly (power poly bits) (power poly bits)
    if bit then crcStep poly square false else square

/-- A step without a bit multiplies by the indeterminate. -/
theorem residue_crcStep_false (poly register : BitVec w) :
    residue poly (crcStep poly register false) = residue poly register * indeterminate poly := by
  simp [residue_crcStep, residueOf, message, coefficient]

/-- A product of words is the product of their residues. -/
theorem residue_multiply (poly first second : BitVec w) :
    residue poly (multiply poly first second) = residue poly first * residue poly second := by
  have fold : ∀ (bits : List Bool) (product : BitVec w),
      residue poly (bits.foldl
        (fun product bit => crcStep poly product false ^^^ if bit then first else 0#w) product) =
        residue poly product * indeterminate poly ^ bits.length +
          residue poly first * residueOf poly bits := by
    intro bits
    induction bits with
    | nil =>
      intro product
      simp [residueOf, message]
    | cons bit bits ih =>
      intro product
      have whole := residueOf_append poly [bit] bits
      rw [List.singleton_append] at whole
      have head : residue poly (if bit then first else 0#w) =
          residue poly first * residueOf poly [bit] := by
        cases bit <;> simp [residueOf, message, coefficient]
      rw [List.foldl_cons, ih, residue_xor, residue_crcStep_false, head, whole, List.length_cons]
      ring
  rw [multiply, fold, residue_zero, zero_mul, zero_add]
  rfl

/-- The word one is the residue one. -/
theorem residue_one (poly : BitVec w) (wide : 0 < w) : residue poly 1#w = 1 := by
  have one : polynomial 1#w = 1 := by
    ext degree
    rw [polynomial_coeff, coeff_one, BitVec.getLsbD_one]
    by_cases zero : degree = 0
    · simp [zero, wide, coefficient]
    · simp [zero, coefficient]
  rw [residue_eq, one, map_one]

/-- A power as a word is the power. -/
theorem residue_power (poly : BitVec w) (wide : 0 < w) (bits : List Bool) :
    residue poly (power poly bits) =
      indeterminate poly ^ Nat.ofDigits 2 (bits.map Bool.toNat) := by
  induction bits with
  | nil => simp [power, residue_one poly wide]
  | cons bit bits ih =>
    have square : residue poly (multiply poly (power poly bits) (power poly bits)) =
        indeterminate poly ^ (2 * Nat.ofDigits 2 (bits.map Bool.toNat)) := by
      rw [residue_multiply, ih, ← pow_add, two_mul]
    rw [power, List.map_cons, Nat.ofDigits_cons]
    cases bit with
    | false => simpa using square
    | true => simp [residue_crcStep_false, square, pow_add, mul_comm]

/-- A power is one exactly when its word is. -/
theorem indeterminate_pow_eq_one_iff (wide : 0 < w) (bits : List Bool) :
    indeterminate poly ^ Nat.ofDigits 2 (bits.map Bool.toNat) = 1 ↔ power poly bits = 1#w := by
  rw [← residue_power poly wide, ← residue_one poly wide, (residue_injective poly).eq_iff]

end Library
