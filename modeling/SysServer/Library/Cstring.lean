import Mathlib.Data.List.TakeWhile

/-!
# Zero-terminated strings in buffers

A buffer is a block with room for some bytes; the string it holds ends before its first zero byte.
`strcpy` and `strcat` do not ask how much room the destination has, so here they write past its
end as well, and each reports how far it wrote. The strings they leave do not depend on the room.
-/

namespace Library

/-- A string without a zero byte, as C passes strings. -/
abbrev Cstring := { bytes : List UInt8 // 0 ∉ bytes }

/-- The string at the front of a memory: the bytes before the first zero. -/
def cText (memory : List UInt8) : List UInt8 := memory.takeWhile (· ≠ 0)

/-- A string followed by a zero is the string of its memory. -/
@[simp] theorem cText_append_zero (string : Cstring) (rest : List UInt8) :
    cText (string.val ++ 0 :: rest) = string.val := by
  have nonzero : ∀ byte ∈ string.val, decide (byte ≠ 0) = true := by
    intro byte inside
    exact decide_eq_true fun zero => string.property (zero ▸ inside)
  rw [cText, List.takeWhile_append_of_pos nonzero]
  simp

/-- The string of a memory has no zero byte. -/
theorem cText_nonzero (memory : List UInt8) : 0 ∉ cText memory := by
  intro inside
  have passed := List.mem_takeWhile_imp inside
  simp at passed

/-- A memory without zero byte before its end is its own string. -/
theorem cText_eq_self_iff {bytes rest : List UInt8} :
    cText (bytes ++ 0 :: rest) = bytes ↔ 0 ∉ bytes := by
  constructor
  · intro whole
    rw [← whole]
    exact cText_nonzero _
  · intro nonzero
    exact cText_append_zero ⟨bytes, nonzero⟩ rest

/-- A block of memory. -/
structure Buffer where
  /-- The bytes the block has room for. -/
  capacity : ℕ
  /-- The memory from the block's first byte on. -/
  memory : List UInt8

/-- The string a buffer holds. -/
def Buffer.text (buffer : Buffer) : Cstring := ⟨cText buffer.memory, cText_nonzero _⟩

/-- One copy into a buffer: how far it wrote from the buffer's start, and how far it might. -/
structure Copy where
  /-- The end of the bytes written. -/
  reach : ℕ
  /-- The room of the destination. -/
  capacity : ℕ
  deriving DecidableEq

/-- The copy stayed in its destination. -/
def Copy.Fits (copy : Copy) : Prop := copy.reach ≤ copy.capacity

/-- Whether a copy fits is computed. -/
instance (copy : Copy) : Decidable copy.Fits := Nat.decLe _ _

/-- `strdup` — a block of exactly the string's length and its zero byte. -/
def strdup (string : Cstring) : Buffer := ⟨string.val.length + 1, string.val ++ [0]⟩

/-- `strcpy` — the source's string and a zero byte over the front of the destination. -/
def strcpy (destination : Buffer) (source : Cstring) : Buffer × Copy :=
  let reach := source.val.length + 1
  ({ destination with memory := source.val ++ 0 :: destination.memory.drop reach },
    ⟨reach, destination.capacity⟩)

/-- `strcat` — the source's string and a zero byte behind the destination's string. -/
def strcat (destination : Buffer) (source : Cstring) : Buffer × Copy :=
  let string := destination.text.val ++ source.val
  let reach := string.length + 1
  ({ destination with memory := string ++ 0 :: destination.memory.drop reach },
    ⟨reach, destination.capacity⟩)

/-- The string of a duplicate is the original. -/
@[simp] theorem strdup_text (string : Cstring) : (strdup string).text = string :=
  Subtype.ext (cText_append_zero string [])

/-- After `strcpy` the destination holds the source's string. -/
@[simp] theorem strcpy_text (destination : Buffer) (source : Cstring) :
    (strcpy destination source).1.text = source :=
  Subtype.ext (cText_append_zero source _)

/-- After `strcat` the destination holds its own string followed by the source's. -/
@[simp] theorem strcat_text (destination : Buffer) (source : Cstring) :
    (strcat destination source).1.text.val = destination.text.val ++ source.val := by
  have nonzero : 0 ∉ destination.text.val ++ source.val := by
    simp [destination.text.property, source.property]
  exact cText_append_zero ⟨_, nonzero⟩ _

end Library
