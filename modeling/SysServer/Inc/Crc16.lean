import Mathlib.Tactic.NormNum.Prime
import SysServer.Library.Crc

/-!
# The checksum `crc16_1021`

`crc16_1021` takes a buffer in byte by byte: the upper byte of the checksum and the byte select an
entry of a literal table, and the lower byte moves up. C computes in `int` and cuts the result back
to sixteen bits. A read outside of the table or of the buffer gives nothing.
-/

namespace SysServer.Crc16

open Library Polynomial

/-- `unsigned char`. -/
abbrev Byte := BitVec 8

/-- `uint16_t`. -/
abbrev Uint16 := BitVec 16

/-- `crc16_tab`. -/
def crc16Tab : List Uint16 :=
  [0x0000, 0x1021, 0x2042, 0x3063, 0x4084, 0x50a5, 0x60c6, 0x70e7,
    0x8108, 0x9129, 0xa14a, 0xb16b, 0xc18c, 0xd1ad, 0xe1ce, 0xf1ef,
    0x1231, 0x0210, 0x3273, 0x2252, 0x52b5, 0x4294, 0x72f7, 0x62d6,
    0x9339, 0x8318, 0xb37b, 0xa35a, 0xd3bd, 0xc39c, 0xf3ff, 0xe3de,
    0x2462, 0x3443, 0x0420, 0x1401, 0x64e6, 0x74c7, 0x44a4, 0x5485,
    0xa56a, 0xb54b, 0x8528, 0x9509, 0xe5ee, 0xf5cf, 0xc5ac, 0xd58d,
    0x3653, 0x2672, 0x1611, 0x0630, 0x76d7, 0x66f6, 0x5695, 0x46b4,
    0xb75b, 0xa77a, 0x9719, 0x8738, 0xf7df, 0xe7fe, 0xd79d, 0xc7bc,
    0x48c4, 0x58e5, 0x6886, 0x78a7, 0x0840, 0x1861, 0x2802, 0x3823,
    0xc9cc, 0xd9ed, 0xe98e, 0xf9af, 0x8948, 0x9969, 0xa90a, 0xb92b,
    0x5af5, 0x4ad4, 0x7ab7, 0x6a96, 0x1a71, 0x0a50, 0x3a33, 0x2a12,
    0xdbfd, 0xcbdc, 0xfbbf, 0xeb9e, 0x9b79, 0x8b58, 0xbb3b, 0xab1a,
    0x6ca6, 0x7c87, 0x4ce4, 0x5cc5, 0x2c22, 0x3c03, 0x0c60, 0x1c41,
    0xedae, 0xfd8f, 0xcdec, 0xddcd, 0xad2a, 0xbd0b, 0x8d68, 0x9d49,
    0x7e97, 0x6eb6, 0x5ed5, 0x4ef4, 0x3e13, 0x2e32, 0x1e51, 0x0e70,
    0xff9f, 0xefbe, 0xdfdd, 0xcffc, 0xbf1b, 0xaf3a, 0x9f59, 0x8f78,
    0x9188, 0x81a9, 0xb1ca, 0xa1eb, 0xd10c, 0xc12d, 0xf14e, 0xe16f,
    0x1080, 0x00a1, 0x30c2, 0x20e3, 0x5004, 0x4025, 0x7046, 0x6067,
    0x83b9, 0x9398, 0xa3fb, 0xb3da, 0xc33d, 0xd31c, 0xe37f, 0xf35e,
    0x02b1, 0x1290, 0x22f3, 0x32d2, 0x4235, 0x5214, 0x6277, 0x7256,
    0xb5ea, 0xa5cb, 0x95a8, 0x8589, 0xf56e, 0xe54f, 0xd52c, 0xc50d,
    0x34e2, 0x24c3, 0x14a0, 0x0481, 0x7466, 0x6447, 0x5424, 0x4405,
    0xa7db, 0xb7fa, 0x8799, 0x97b8, 0xe75f, 0xf77e, 0xc71d, 0xd73c,
    0x26d3, 0x36f2, 0x0691, 0x16b0, 0x6657, 0x7676, 0x4615, 0x5634,
    0xd94c, 0xc96d, 0xf90e, 0xe92f, 0x99c8, 0x89e9, 0xb98a, 0xa9ab,
    0x5844, 0x4865, 0x7806, 0x6827, 0x18c0, 0x08e1, 0x3882, 0x28a3,
    0xcb7d, 0xdb5c, 0xeb3f, 0xfb1e, 0x8bf9, 0x9bd8, 0xabbb, 0xbb9a,
    0x4a75, 0x5a54, 0x6a37, 0x7a16, 0x0af1, 0x1ad0, 0x2ab3, 0x3a92,
    0xfd2e, 0xed0f, 0xdd6c, 0xcd4d, 0xbdaa, 0xad8b, 0x9de8, 0x8dc9,
    0x7c26, 0x6c07, 0x5c64, 0x4c45, 0x3ca2, 0x2c83, 0x1ce0, 0x0cc1,
    0xef1f, 0xff3e, 0xcf5d, 0xdf7c, 0xaf9b, 0xbfba, 0x8fd9, 0x9ff8,
    0x6e17, 0x7e36, 0x4e55, 0x5e74, 0x2e93, 0x3eb2, 0x0ed1, 0x1ef0]

/-- The body of the loop: operands are promoted to `int`, and the result is cut to `uint16_t`. -/
def fold (cksum : Uint16) (byte : Byte) : Option Uint16 :=
  let promoted := cksum.setWidth 32
  let index := ((promoted >>> 8) ^^^ byte.setWidth 32) &&& 0xFF
  crc16Tab[index.toNat]?.map fun entry => (entry.setWidth 32 ^^^ promoted <<< 8).setWidth 16

/-- The loop, for so many more bytes. -/
def loop (cksum : Uint16) : ℕ → List Byte → Option Uint16
  | 0, _ => some cksum
  | _ + 1, [] => none
  | remaining + 1, byte :: buf => (fold cksum byte).bind fun cksum => loop cksum remaining buf

/-- `crc16_1021` — the checksum of the first `len` bytes; a negative `len` is like zero. -/
def crc16_1021 (buf : List Byte) (len : ℤ) : Option Uint16 := loop 0 len.toNat buf

/-- The polynomial `x^16 + x^12 + x^5 + 1`, without its highest power. -/
def poly1021 : Uint16 := 0x1021

/-- The bits of a buffer in the order of transmission. -/
def transmitted (buf : List Byte) : List Bool := buf.flatMap bitsOf

/-- The table lists the remainders of the bytes. -/
theorem crc16Tab_eq : crc16Tab =
    (List.range 256).map fun value => crc poly1021 (bitsOf (BitVec.ofNat 8 value)) := by
  decide +kernel

/-- The entry of a byte is its remainder. -/
theorem crc16Tab_entry (byte : Byte) :
    crc16Tab[byte.toNat]? = some (crc poly1021 (bitsOf byte)) := by
  have inside : byte.toNat < 256 := byte.isLt
  have same : BitVec.ofNat 8 byte.toNat = byte := BitVec.ofNat_toNat 8 byte
  rw [crc16Tab_eq, List.getElem?_map, List.getElem?_range inside, Option.map_some, same]

/-- The index is the byte and the upper byte of the checksum, and nothing above them. -/
theorem index_eq (cksum : Uint16) (byte : Byte) :
    ((cksum.setWidth 32 >>> 8) ^^^ byte.setWidth 32) &&& 0xFF =
      (lost 8 cksum ^^^ byte).setWidth 32 := by
  apply BitVec.eq_of_getLsbD_eq
  intro place inside
  have mask : (0xFF : BitVec 32).getLsbD place = decide (place < 8) := by
    revert inside
    revert place
    decide
  simp only [BitVec.getLsbD_and, BitVec.getLsbD_xor, BitVec.getLsbD_ushiftRight,
    BitVec.getLsbD_setWidth, lost, mask]
  by_cases low : place < 8
  · simp [low, inside, show 8 + place < 32 by omega]
  · simp [low, BitVec.getLsbD_of_ge byte place (by omega)]

/-- The cut leaves the exclusive or of sixteen bits. -/
theorem cut_eq (entry cksum : Uint16) :
    (entry.setWidth 32 ^^^ cksum.setWidth 32 <<< 8).setWidth 16 = entry ^^^ cksum <<< 8 := by
  apply BitVec.eq_of_getLsbD_eq
  intro place inside
  simp only [BitVec.getLsbD_xor, BitVec.getLsbD_shiftLeft, BitVec.getLsbD_setWidth]
  simp [inside, show place < 32 by omega, show place - 8 < 32 by omega]

/-- The loop's body takes in the bits of its byte. -/
theorem fold_eq (cksum : Uint16) (byte : Byte) :
    fold cksum byte = some (crcFrom poly1021 cksum (bitsOf byte)) := by
  have small : ((lost 8 cksum ^^^ byte).setWidth 32).toNat = (lost 8 cksum ^^^ byte).toNat := by
    rw [BitVec.toNat_setWidth]
    apply Nat.mod_eq_of_lt
    have bound := (lost 8 cksum ^^^ byte).isLt
    omega
  simp only [fold, index_eq, small, crc16Tab_entry, Option.map_some, cut_eq]
  rw [crcFrom_word poly1021 cksum (by decide) byte]

/-- The loop takes in the bits of its bytes. -/
theorem loop_eq (cksum : Uint16) (buf rest : List Byte) :
    loop cksum buf.length (buf ++ rest) = some (crcFrom poly1021 cksum (transmitted buf)) := by
  induction buf generalizing cksum with
  | nil => rfl
  | cons byte buf ih =>
    simp only [List.length_cons, List.cons_append, loop, fold_eq, Option.bind_some, ih]
    simp only [transmitted, List.flatMap_cons, crcFrom, List.foldl_append]

/-- The checksum of a buffer is the register after its bits, whatever follows the buffer. -/
theorem crc16_1021_eq (buf rest : List Byte) :
    crc16_1021 (buf ++ rest) buf.length = some (crc poly1021 (transmitted buf)) := by
  rw [crc16_1021, Int.toNat_natCast, loop_eq]
  rfl

/-- The generator is the polynomial of the source's comment. -/
theorem generator_poly1021 : generator poly1021 = X ^ 16 + X ^ 12 + X ^ 5 + 1 := by
  have bits : bitsOf poly1021 = [false, false, false, true, false, false, false, false,
      false, false, true, false, false, false, false, true] := by decide
  simp [generator, polynomial, bits, message, coefficient, add_assoc]

/-- **The table path computes the polynomial's remainder.** For every buffer, the checksum is that
of the register fed bit by bit, the most significant bit first, and is the remainder of the
message moved up by sixteen places. -/
theorem crc16_1021_remainder (buf rest : List Byte) :
    ∃ cksum, crc16_1021 (buf ++ rest) buf.length = some cksum ∧
      cksum = (transmitted buf).foldl (crcStep poly1021) 0 ∧
      polynomial cksum =
        (message (transmitted buf) * X ^ 16) %ₘ (X ^ 16 + X ^ 12 + X ^ 5 + 1) := by
  refine ⟨crc poly1021 (transmitted buf), crc16_1021_eq buf rest, rfl, ?_⟩
  rw [polynomial_crc, generator_poly1021]

/-! ## What the checksum detects -/

/-- As many bits are transmitted as eight times the bytes. -/
theorem transmitted_length (buf : List Byte) : (transmitted buf).length = 8 * buf.length := by
  induction buf with
  | nil => rfl
  | cons byte buf ih =>
    rw [transmitted, List.flatMap_cons, ← transmitted, List.length_append, bitsOf_length, ih,
      List.length_cons]
    omega

/-- Different buffers of one length are transmitted differently. -/
theorem transmitted_injective {left right : List Byte} (lengths : left.length = right.length)
    (same : transmitted left = transmitted right) : left = right := by
  induction left generalizing right with
  | nil => exact (List.length_eq_zero_iff.mp lengths.symm).symm
  | cons byte left ih =>
    obtain ⟨other, right, rfl⟩ := List.exists_cons_of_length_eq_add_one lengths.symm
    simp only [transmitted, List.flatMap_cons] at same
    have parts := List.append_inj same (by simp)
    rw [bitsOf_injective parts.1, ih (Nat.succ.inj lengths) parts.2]

/-- Checksums are those of the bits. -/
theorem crc16_1021_ne {left right : List Byte}
    (differ : crc poly1021 (transmitted left) ≠ crc poly1021 (transmitted right)) :
    crc16_1021 left left.length ≠ crc16_1021 right right.length := by
  have first := crc16_1021_eq left []
  have second := crc16_1021_eq right []
  rw [List.append_nil] at first second
  rw [first, second]
  exact fun same => differ (Option.some.inj same)

/-- The constant term of the generator is one. -/
theorem poly1021_constant : poly1021.getLsbD 0 = true := by decide

/-- **Every short burst is detected.** Buffers of one length that differ, and only within sixteen
consecutive bits, have different checksums. -/
theorem burst_detected {left right : List Byte} (lengths : left.length = right.length)
    (different : left ≠ right) (start : ℕ)
    (window : ∀ place ∈ errors (transmitted left) (transmitted right),
      start ≤ place ∧ place < start + 16) :
    crc16_1021 left left.length ≠ crc16_1021 right right.length := by
  have bits : (transmitted left).length = (transmitted right).length := by
    rw [transmitted_length, transmitted_length, lengths]
  apply crc16_1021_ne
  apply crc_burst poly1021_constant bits (errors_nonempty bits _) window
  exact fun same => different (transmitted_injective lengths same)

/-- A burst over three bytes, from the last bit of the first to the first bit of the third. -/
theorem burst_detected_straddling :
    crc16_1021 [0x00, 0x5a, 0x00] 3 ≠ crc16_1021 [0x01, 0x3c, 0x80] 3 :=
  @burst_detected [0x00, 0x5a, 0x00] [0x01, 0x3c, 0x80] rfl (by decide) 7 (by decide)

/-- Whether a power of the indeterminate is one is computed from the exponent's binary digits. -/
theorem pow_indeterminate_iff {exponent : ℕ} (bits : List Bool)
    (spelled : Nat.ofDigits 2 (bits.map Bool.toNat) = exponent) :
    indeterminate poly1021 ^ exponent = 1 ↔ power poly1021 bits = 1#16 := by
  have wide : 0 < 16 := by decide
  rw [← spelled, indeterminate_pow_eq_one_iff wide]

/-- The order of the indeterminate is 32767: the power is one, and no power of a maximal divisor
is. -/
theorem orderOf_indeterminate : orderOf (indeterminate poly1021) = 32767 := by
  apply orderOf_eq_of_pow_and_pow_div_prime (by decide)
  · rw [pow_indeterminate_iff (List.replicate 15 true) (by decide)]
    decide +kernel
  · intro prime isPrime divides
    have parts : prime ∣ 7 ∨ prime ∣ 31 ∨ prime ∣ 151 := by
      rw [← isPrime.dvd_mul, ← isPrime.dvd_mul]
      exact divides
    rcases parts with seven | thirtyOne | rest
    · have same : prime = 7 := (Nat.prime_dvd_prime_iff_eq isPrime (by norm_num)).mp seven
      rw [same, Ne, pow_indeterminate_iff [true, false, false, true, false, false, true, false,
        false, true, false, false, true] (by decide)]
      decide +kernel
    · have same : prime = 31 := (Nat.prime_dvd_prime_iff_eq isPrime (by norm_num)).mp thirtyOne
      rw [same, Ne, pow_indeterminate_iff [true, false, false, false, false, true, false, false,
        false, false, true] (by decide)]
      decide +kernel
    · have same : prime = 151 := (Nat.prime_dvd_prime_iff_eq isPrime (by norm_num)).mp rest
      rw [same, Ne, pow_indeterminate_iff [true, false, false, true, true, false, true, true]
        (by decide)]
      decide +kernel

/-- One is a root of the generator. -/
theorem generator_root : (generator poly1021).eval 1 = 0 := by
  rw [generator_poly1021]
  simp only [eval_add, eval_pow, eval_X, eval_one, one_pow]
  decide

/-- **Odd and double errors are detected.** Buffers of one length that differ in an odd number of
bits, or in exactly two that are less than 32767 bits apart, have different checksums. -/
theorem odd_or_double_detected {left right : List Byte} (lengths : left.length = right.length)
    (pattern : Odd (errors (transmitted left) (transmitted right)).card ∨
      ∃ first second, first < second ∧ second - first < 32767 ∧
        errors (transmitted left) (transmitted right) = {first, second}) :
    crc16_1021 left left.length ≠ crc16_1021 right right.length := by
  have bits : (transmitted left).length = (transmitted right).length := by
    rw [transmitted_length, transmitted_length, lengths]
  apply crc16_1021_ne
  rcases pattern with odd | ⟨first, second, ordered, within, pair⟩
  · exact crc_odd poly1021_constant generator_root bits odd
  · rw [← orderOf_indeterminate] at within
    exact crc_double poly1021_constant bits ordered within pair

/-- Three errors in three bytes, and two at the ends of three bytes. -/
theorem odd_and_double_detected :
    crc16_1021 [0x00, 0x00, 0x00] 3 ≠ crc16_1021 [0x80, 0x10, 0x01] 3 ∧
      crc16_1021 [0x00, 0x00, 0x00] 3 ≠ crc16_1021 [0x80, 0x00, 0x01] 3 :=
  ⟨@odd_or_double_detected [0x00, 0x00, 0x00] [0x80, 0x10, 0x01] rfl (.inl (by decide)),
    @odd_or_double_detected [0x00, 0x00, 0x00] [0x80, 0x00, 0x01] rfl
      (.inr ⟨0, 23, by decide, by decide, by decide⟩)⟩

/-- **Checking a frame with its trailer is exact.** A buffer and the buffer with two more bytes have
checksums, and the second one is zero exactly when the two bytes are the first one, the upper byte
first. -/
theorem trailer_exact (buf : List Byte) (high low : Byte) :
    ∃ payload frame, crc16_1021 buf buf.length = some payload ∧
      crc16_1021 (buf ++ [high, low]) (buf ++ [high, low]).length = some frame ∧
      (frame = 0 ↔ 256 * high.toNat + low.toNat = payload.toNat) := by
  have value : (high ++ low).toNat = 256 * high.toNat + low.toNat := by
    rw [BitVec.toNat_append, ← Nat.shiftLeft_add_eq_or_of_lt low.isLt, Nat.shiftLeft_eq,
      Nat.mul_comm]
  have both : bitsOf (high ++ low) = bitsOf high ++ bitsOf low := bitsOf_append high low
  have trailed : transmitted (buf ++ [high, low]) = transmitted buf ++ bitsOf (high ++ low) := by
    simp [transmitted, both]
  have whole := crc16_1021_eq (buf ++ [high, low]) []
  have payload := crc16_1021_eq buf []
  rw [List.append_nil] at whole payload
  refine ⟨_, _, payload, whole, ?_⟩
  rw [← value, trailed, BitVec.toNat_inj, eq_comm (a := high ++ low)]
  exact crc_trailer_iff poly1021_constant (transmitted buf) (high ++ low)

/-! ## What the checksum does not detect -/

/-- Checksums are the same as those of the bits are. -/
theorem crc16_1021_same {left right : List Byte} :
    crc16_1021 left left.length = crc16_1021 right right.length ↔
      crc poly1021 (transmitted left) = crc poly1021 (transmitted right) := by
  have first := crc16_1021_eq left []
  have second := crc16_1021_eq right []
  rw [List.append_nil] at first second
  rw [first, second, Option.some_inj]

/-- The powers of the generator as places behind a first one. -/
theorem generator_places (start : ℕ) :
    generator poly1021 = ∑ place ∈ ({start, start + 4, start + 11, start + 16} : Finset ℕ),
      X ^ (start + 16 - place) := by
  rw [Finset.sum_insert (by simp), Finset.sum_insert (by simp), Finset.sum_pair (by omega),
    generator_poly1021]
  have first : start + 16 - start = 16 := by omega
  have second : start + 16 - (start + 4) = 12 := by omega
  have third : start + 16 - (start + 11) = 5 := by omega
  rw [first, second, third, Nat.sub_self, pow_zero]
  ring

/-- **The shortest error that is missed.** Buffers of one length that differ, and only within
seventeen consecutive bits, have one checksum exactly when they differ in the first, the fifth,
the twelfth and the last of these bits. -/
theorem window_undetected_iff {left right : List Byte} (lengths : left.length = right.length)
    (different : left ≠ right) (start : ℕ)
    (window : ∀ place ∈ errors (transmitted left) (transmitted right),
      start ≤ place ∧ place ≤ start + 16) :
    crc16_1021 left left.length = crc16_1021 right right.length ↔
      errors (transmitted left) (transmitted right) =
        {start, start + 4, start + 11, start + 16} := by
  have bits : (transmitted left).length = (transmitted right).length := by
    rw [transmitted_length, transmitted_length, lengths]
  rw [crc16_1021_same]
  apply crc_window_iff poly1021_constant bits (errors_nonempty bits _) (generator_places start)
  · intro place inside
    simp only [Finset.mem_insert, Finset.mem_singleton] at inside
    omega
  · intro index among
    have bounds := window index among
    omega
  · exact fun same => different (transmitted_injective lengths same)

/-- Four errors over three bytes that are missed. -/
theorem window_undetected :
    crc16_1021 [0x00, 0x00, 0x00] 3 = crc16_1021 [0x88, 0x10, 0x80] 3 :=
  (@window_undetected_iff [0x00, 0x00, 0x00] [0x88, 0x10, 0x80] rfl (by decide) 0
    (by decide)).mpr (by decide)

/-- **Which double errors are missed.** Buffers of one length that differ in exactly two bits have
one checksum exactly when the bits are a multiple of 32767 apart. -/
theorem double_undetected_iff {left right : List Byte} (lengths : left.length = right.length)
    {first second : ℕ} (ordered : first < second)
    (pair : errors (transmitted left) (transmitted right) = {first, second}) :
    crc16_1021 left left.length = crc16_1021 right right.length ↔ 32767 ∣ second - first := by
  have bits : (transmitted left).length = (transmitted right).length := by
    rw [transmitted_length, transmitted_length, lengths]
  rw [crc16_1021_same, crc_double_iff poly1021_constant bits ordered pair,
    orderOf_indeterminate]

/-- The first and the last bit of three bytes are not as far apart. -/
theorem double_undetected_iff_near :
    crc16_1021 [0x00, 0x00, 0x00] 3 = crc16_1021 [0x80, 0x00, 0x01] 3 ↔ 32767 ∣ 23 :=
  @double_undetected_iff [0x00, 0x00, 0x00] [0x80, 0x00, 0x01] rfl 0 23 (by decide) (by decide)

/-- Two bytes are told by the word of both. -/
theorem append_injective {high low high' low' : Byte} (same : high ++ low = high' ++ low') :
    high = high' ∧ low = low' := by
  have bits := congrArg bitsOf same
  rw [bitsOf_append, bitsOf_append] at bits
  have parts := List.append_inj bits (by simp)
  exact ⟨bitsOf_injective parts.1, bitsOf_injective parts.2⟩

/-- Two bytes at any place of a buffer bring it to any checksum, and in one way. -/
theorem trailer_forges (front back : List Byte) (target : Uint16) :
    ∃! trailer : Byte × Byte, crc16_1021 (front ++ trailer.1 :: trailer.2 :: back)
      (front ++ trailer.1 :: trailer.2 :: back).length = some target := by
  have reads : ∀ high low : Byte, crc16_1021 (front ++ high :: low :: back)
      (front ++ high :: low :: back).length = some target ↔
        crc poly1021 (transmitted front ++ bitsOf (high ++ low) ++ transmitted back) = target := by
    intro high low
    have both : bitsOf (high ++ low) = bitsOf high ++ bitsOf low := bitsOf_append high low
    have whole := crc16_1021_eq (front ++ high :: low :: back) []
    rw [List.append_nil] at whole
    rw [whole, Option.some_inj, both]
    simp [transmitted]
  obtain ⟨word, brings, only⟩ :=
    crc_forge poly1021_constant (transmitted front) (transmitted back) target
  have parts : word.extractLsb' 8 8 ++ word.extractLsb' 0 8 = word :=
    BitVec.extractLsb'_append_extractLsb'
  refine ⟨(word.extractLsb' 8 8, word.extractLsb' 0 8), (reads _ _).mpr (by rwa [parts]), ?_⟩
  rintro ⟨high, low⟩ holds
  have same := only (high ++ low) ((reads high low).mp holds)
  obtain ⟨rfl, rfl⟩ := append_injective (same.trans parts.symm)
  rfl

/-- **The checksum spreads evenly.** Two bytes at any place of any buffer can be chosen, in exactly
one way, to bring it to any checksum; so among the buffers of one length, from two bytes on, every
checksum is that of equally many. -/
theorem checksum_spreads (target : Uint16) :
    (∀ front back : List Byte, ∃! trailer : Byte × Byte,
      crc16_1021 (front ++ trailer.1 :: trailer.2 :: back)
        (front ++ trailer.1 :: trailer.2 :: back).length = some target) ∧
    ∀ n : ℕ, Nat.card {buf : List Byte // buf.length = n + 2 ∧
      crc16_1021 buf buf.length = some target} = 256 ^ n := by
  refine ⟨fun front back => trailer_forges front back target, fun n => ?_⟩
  let rest (buf : {buf : List Byte // buf.length = n + 2 ∧
      crc16_1021 buf buf.length = some target}) : List.Vector Byte n :=
    ⟨buf.1.drop 2, by rw [List.length_drop, buf.2.1, Nat.add_sub_cancel]⟩
  have once : Function.Bijective rest := by
    rw [Function.bijective_iff_existsUnique]
    rintro ⟨back, length⟩
    obtain ⟨⟨high, low⟩, holds, only⟩ := trailer_forges [] back target
    refine ⟨⟨high :: low :: back, by simp [length], holds⟩, rfl, ?_⟩
    rintro ⟨buf, long, reads⟩ same
    obtain ⟨high', low', back', rfl⟩ : ∃ high' low' back', buf = high' :: low' :: back' := by
      match buf, long with
      | high' :: low' :: back', _ => exact ⟨high', low', back', rfl⟩
    obtain rfl : back' = back := congrArg Subtype.val same
    obtain ⟨rfl, rfl⟩ := Prod.mk.inj (only (high', low') reads)
    rfl
  have bytes : Fintype.card Byte = 256 := by
    rw [← FinEnum.card_eq_fintypeCard, FinEnum.card_bitVec]
    rfl
  rw [Nat.card_eq_of_bijective rest once, Nat.card_eq_fintype_card, card_vector, bytes]

end SysServer.Crc16
