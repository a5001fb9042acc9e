import Mathlib.Data.List.Forall2
import SysServer.Library.Padding

/-!
# The message in a pending node

What `event_serial` keeps of the bytes it reads. Each read goes into a cleared buffer, and the first
hundred bytes of the buffer are copied into the node's `command`; how many bytes the read returned
is not kept. So a message is known from its node up to the zeros at its end, and exactly when its
length is known from elsewhere.
-/

namespace SysServer.Serial

open Library

/-- `DATA_SIZE` — the size of the buffer and of `command`. -/
def dataSize : ℕ := 1024 * 8

/-- The bytes asked for in one read, and copied into the node. -/
def readSize : ℕ := 100

/-- What one successful read returned. -/
structure Chunk where
  /-- The bytes. -/
  bytes : List UInt8
  /-- At least one. -/
  nonempty : 0 < bytes.length
  /-- No more than asked for. -/
  bounded : bytes.length ≤ readSize

/-- `pending`, without its list member. Its `action` is never set. -/
structure Pending where
  /-- The memory of `command`. -/
  command : List UInt8

/-- Bytes stored over the front of a memory. -/
def overwrite (memory bytes : List UInt8) : List UInt8 := bytes ++ memory.drop bytes.length

/-- `data` after `memset` and the read. -/
def received (chunk : Chunk) : List UInt8 :=
  overwrite (List.replicate dataSize 0) chunk.bytes

/-- The loop of `event_serial` over its successful reads, each with what `malloc` then gave: no
node, or one whose `command` held anything. The nodes are those passed to `task_pending_add`. -/
def eventSerial : List (Chunk × Option (List UInt8)) → List Pending
  | [] => []
  | (_, none) :: reads => eventSerial reads
  | (chunk, some memory) :: reads =>
    ⟨overwrite memory ((received chunk).take readSize)⟩ :: eventSerial reads

/-- The bytes of a node that `event_serial` has set. -/
def Pending.initialised (node : Pending) : List UInt8 := node.command.take readSize

/-- The reads for which there was a node. -/
def kept (reads : List (Chunk × Option (List UInt8))) : List Chunk :=
  (reads.filter fun read => read.2.isSome).map Prod.fst

/-- A node is set to its message, filled up with zeros. -/
theorem initialised_eq (memory : List UInt8) (chunk : Chunk) :
    Pending.initialised ⟨overwrite memory ((received chunk).take readSize)⟩ =
      pad 0 readSize chunk.bytes := by
  have bounded := chunk.bounded
  have filled : (received chunk).take readSize = pad 0 readSize chunk.bytes := by
    rw [received, overwrite, List.drop_replicate, List.take_append,
      List.take_of_length_le bounded, List.take_replicate, pad]
    congr 2
    simp only [readSize, dataSize] at bounded ⊢
    omega
  rw [Pending.initialised, filled, overwrite]
  exact List.take_left' (pad_length bounded)

/-- The nodes' messages are those read, each filled up with zeros. -/
theorem eventSerial_initialised (reads : List (Chunk × Option (List UInt8))) :
    (eventSerial reads).map Pending.initialised =
      (kept reads).map fun chunk => pad 0 readSize chunk.bytes := by
  induction reads with
  | nil => rfl
  | cons read reads ih =>
    obtain ⟨chunk, _ | memory⟩ := read
    · simpa [eventSerial, kept] using ih
    · simp only [eventSerial, List.map_cons, initialised_eq, ih]
      rfl

/-- The nodes of two sequences of reads carry the same information. -/
def SameNodes (first second : List (Chunk × Option (List UInt8))) : Prop :=
  (eventSerial first).map Pending.initialised = (eventSerial second).map Pending.initialised

/-- Nodes carry the same information when their messages are the same up to zeros at the end. -/
theorem sameNodes_iff (first second : List (Chunk × Option (List UInt8))) :
    SameNodes first second ↔
      List.Forall₂ (fun left right => SameUpTo 0 left.bytes right.bytes)
        (kept first) (kept second) := by
  rw [SameNodes, eventSerial_initialised, eventSerial_initialised, ← List.forall₂_eq_eq_eq,
    List.forall₂_map_left_iff, List.forall₂_map_right_iff]
  have each : ∀ left right : Chunk, pad 0 readSize left.bytes = pad 0 readSize right.bytes ↔
      SameUpTo 0 left.bytes right.bytes := fun left right =>
    pad_eq_iff left.bounded right.bounded
  simp only [each]

/-- Messages that are pairwise the same up to zeros and pairwise of one length are the same. -/
theorem kept_eq {first second : List Chunk}
    (same : List.Forall₂ (fun left right => SameUpTo 0 left.bytes right.bytes) first second)
    (lengths : first.map (fun chunk => chunk.bytes.length) =
      second.map fun chunk => chunk.bytes.length) :
    first.map Chunk.bytes = second.map Chunk.bytes := by
  induction same with
  | nil => rfl
  | cons here _ ih =>
    simp only [List.map_cons, List.cons.injEq] at lengths ⊢
    exact ⟨here.eq lengths.1, ih lengths.2⟩

/-- **What a pending node tells of its message.** Two sequences of reads give nodes of the same
information exactly when they have as many messages and the messages are pairwise the same up to
zeros at the end; where the messages are also pairwise of one length, they are the same. -/
theorem messages_recovered (first second : List (Chunk × Option (List UInt8))) :
    (SameNodes first second ↔
      List.Forall₂ (fun left right => SameUpTo 0 left.bytes right.bytes)
        (kept first) (kept second)) ∧
    (SameNodes first second →
      (kept first).map (fun chunk => chunk.bytes.length) =
        (kept second).map (fun chunk => chunk.bytes.length) →
      (kept first).map Chunk.bytes = (kept second).map Chunk.bytes) := by
  constructor
  · exact sameNodes_iff first second
  · intro same lengths
    exact kept_eq ((sameNodes_iff first second).mp same) lengths

/-- A message of one byte and the same byte followed by a zero give the same node. -/
theorem zero_byte_lost :
    ∃ short long : Chunk, short.bytes = [1] ∧ long.bytes = [1, 0] ∧
      SameNodes [(short, some (List.replicate dataSize 0))]
        [(long, some (List.replicate dataSize 0))] := by
  refine ⟨⟨[1], by decide, by decide⟩, ⟨[1, 0], by decide, by decide⟩, rfl, rfl, ?_⟩
  apply (sameNodes_iff _ _).mpr
  exact .cons ⟨1, .inr rfl⟩ .nil

end SysServer.Serial
