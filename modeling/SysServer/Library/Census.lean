import Mathlib.Algebra.BigOperators.Group.Finset.Piecewise
import Mathlib.Algebra.BigOperators.Group.Multiset.Basic
import Mathlib.Algebra.Order.BigOperators.Group.Finset
import Mathlib.Data.Fintype.Basic

/-!
# Adding up over threads

A concurrent model keeps one phase per thread. What the threads of a model hold together, or how
many of them stand at some point, is a sum over the threads of a weight of their phases. One
thread's step changes one summand, and `tally_update` is the only fact a step needs.
-/

namespace Library

open Function

variable {ι σ M : Type*} [Fintype ι]

section AddCommMonoid

variable [AddCommMonoid M]

/-- The weights of all threads' phases, added up. -/
def tally (weight : σ → M) (phase : ι → σ) : M := ∑ thread, weight (phase thread)

/-- When all threads stand at weightless phases the sum is zero. -/
theorem tally_eq_zero {weight : σ → M} {phase : ι → σ}
    (weightless : ∀ thread, weight (phase thread) = 0) : tally weight phase = 0 :=
  Finset.sum_eq_zero fun thread _ => weightless thread

/-- An additive function of the sum is the sum of its values. -/
theorem tally_hom {N : Type*} [AddCommMonoid N] (image : M →+ N) (weight : σ → M)
    (phase : ι → σ) :
    image (tally weight phase) = tally (fun place => image (weight place)) phase :=
  map_sum image _ _

variable [DecidableEq ι]

/-- Moving one thread exchanges its old weight for its new one. -/
theorem tally_update (weight : σ → M) (phase : ι → σ) (thread : ι) (next : σ) :
    tally weight (update phase thread next) + weight (phase thread) =
      tally weight phase + weight next := by
  have others : ∑ other ∈ Finset.univ.erase thread, weight (update phase thread next other) =
      ∑ other ∈ Finset.univ.erase thread, weight (phase other) :=
    Finset.sum_congr rfl fun other inside => by
      rw [update_of_ne (Finset.ne_of_mem_erase inside)]
  unfold tally
  rw [← Finset.add_sum_erase _ _ (Finset.mem_univ thread), others,
    ← Finset.add_sum_erase _ (fun other => weight (phase other)) (Finset.mem_univ thread),
    update_self, add_right_comm, add_comm (weight next), add_right_comm]

/-- A thread that moves between phases of one weight leaves the sum unchanged. -/
theorem tally_update_same [IsRightCancelAdd M] {weight : σ → M} {phase : ι → σ} {thread : ι}
    {next : σ} (same : weight next = weight (phase thread)) :
    tally weight (update phase thread next) = tally weight phase := by
  have moved := tally_update weight phase thread next
  rw [same] at moved
  exact add_right_cancel moved

/-- A thread that leaves a weightless phase adds the weight of the phase it enters. -/
theorem tally_update_gain (weight : σ → M) (phase : ι → σ) (thread : ι) (next : σ)
    (empty : weight (phase thread) = 0) :
    tally weight (update phase thread next) = tally weight phase + weight next := by
  rw [← tally_update, empty, add_zero]

/-- A thread that enters a weightless phase takes away the weight of the phase it leaves. -/
theorem tally_update_drop (weight : σ → M) (phase : ι → σ) (thread : ι) (next : σ)
    (empty : weight next = 0) :
    tally weight (update phase thread next) + weight (phase thread) = tally weight phase := by
  rw [tally_update, empty, add_zero]

end AddCommMonoid

/-- One thread's weight is at most the sum. -/
theorem le_tally (weight : σ → ℕ) (phase : ι → σ) (thread : ι) :
    weight (phase thread) ≤ tally weight phase :=
  Finset.single_le_sum (f := fun other => weight (phase other)) (fun _ _ => Nat.zero_le _)
    (Finset.mem_univ thread)

/-- When no thread's weight falls the sum does not fall. -/
theorem tally_le_tally {weight : σ → ℕ} {before after : ι → σ}
    (grows : ∀ other, weight (before other) ≤ weight (after other)) :
    tally weight before ≤ tally weight after :=
  Finset.sum_le_sum fun other _ => grows other

/-- No thread's weight falls, and some thread's weight rises: the sum rises. -/
theorem tally_lt_tally {weight : σ → ℕ} {before after : ι → σ} (thread : ι)
    (grows : ∀ other, weight (before other) ≤ weight (after other))
    (more : weight (before thread) < weight (after thread)) :
    tally weight before < tally weight after :=
  Finset.sum_lt_sum (fun other _ => grows other) ⟨thread, Finset.mem_univ thread, more⟩

/-- One thread's items are among the items of all. -/
theorem tally_mem {β : Type*} {weight : σ → Multiset β} {phase : ι → σ} {item : β} :
    item ∈ tally weight phase ↔ ∃ thread, item ∈ weight (phase thread) := by
  simp [tally, Multiset.mem_sum]

/-- What the threads hold together without repetition, no two of them hold, and no thread holds
twice. -/
theorem tally_nodup {β : Type*} {weight : σ → Multiset β} {phase : ι → σ}
    (distinct : (tally weight phase).Nodup) :
    (∀ thread, (weight (phase thread)).Nodup) ∧
      ∀ item ∈ tally weight phase, ∃! thread, item ∈ weight (phase thread) := by
  classical
  have parts : ∀ thread, (weight (phase thread)).Nodup ∧
      ∀ item ∈ weight (phase thread), ∀ other, other ≠ thread →
        item ∉ weight (phase other) := by
    intro thread
    have split : (weight (phase thread) + ∑ other ∈ Finset.univ.erase thread,
        weight (phase other)).Nodup := by
      rwa [Finset.add_sum_erase _ (fun other => weight (phase other)) (Finset.mem_univ thread)]
    obtain ⟨one, -, apart⟩ := Multiset.nodup_add.mp split
    refine ⟨one, fun item held other different again => ?_⟩
    exact Multiset.disjoint_left.mp apart held (Multiset.mem_sum.mpr
      ⟨other, Finset.mem_erase.mpr ⟨different, Finset.mem_univ other⟩, again⟩)
  refine ⟨fun thread => (parts thread).1, fun item inside => ?_⟩
  obtain ⟨thread, held⟩ := tally_mem.mp inside
  refine ⟨thread, held, fun other again => ?_⟩
  by_contra different
  exact (parts thread).2 item held other different again

/-- A thread's part of a history of all threads, in order. -/
def part {β : Type*} [DecidableEq ι] (thread : ι) (history : List (ι × β)) : List β :=
  (history.filter fun entry => entry.1 = thread).map Prod.snd

section Parts

variable {β : Type*} [DecidableEq ι] {thread other : ι} {history : List (ι × β)} {item : β}

omit [Fintype ι] in
/-- An entry of the thread is the last of its part. -/
theorem part_append_self : part thread (history ++ [(thread, item)]) =
    part thread history ++ [item] := by
  simp [part]

omit [Fintype ι] in
/-- An entry of another thread is not in its part. -/
theorem part_append_of_ne (different : thread ≠ other) :
    part thread (history ++ [(other, item)]) = part thread history := by
  simp [part, Ne.symm different]

/-- The parts of all threads together are the whole history. -/
theorem sum_part (history : List (ι × β)) :
    ∑ thread, (part thread history : Multiset β) = (history.map Prod.snd : Multiset β) := by
  induction history with
  | nil => simp [part]
  | cons entry history ih =>
    have head : ∀ thread, (part thread (entry :: history) : Multiset β) =
        (if entry.1 = thread then {entry.2} else 0) + part thread history := by
      intro thread
      by_cases same : entry.1 = thread <;> simp [part, same]
    simp only [head, Finset.sum_add_distrib, ih, Finset.sum_ite_eq, Finset.mem_univ, ↓reduceIte]
    rfl

end Parts

end Library
