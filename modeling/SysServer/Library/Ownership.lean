import Mathlib.Data.List.Nodup
import Mathlib.Logic.Function.Basic

/-!
# Locks, claims and writers

Three disciplines of threads that share a memory. Under a lock, a thread stands inside a critical
section exactly while it is the lock's owner, so no two threads stand inside and behind a lock that
is not free there is one that does. A thread that holds a
block of memory privately claims it: a claimed block is allocated, on no shared list and claimed
by no other thread. Allocating, publishing on a list, taking from a list and freeing move one
block each, and the discipline survives all four. A value with one writer at a time is what the
stage of its writer says, and at rest while nobody writes.
-/

namespace Library

open Function

variable {τ α : Type*}

/-- What holds of the place one thread moves to and of all other threads' places holds of all. -/
theorem all_update {σ : Type*} [DecidableEq τ] {place : τ → σ} {thread : τ} {next : σ}
    {property : σ → Prop} (moved : property next)
    (others : ∀ other, other ≠ thread → property (place other)) (other : τ) :
    property (update place thread next other) :=
  (forall_update_iff place fun _ => property).mpr ⟨moved, others⟩ other

/-- What holds of one thread's place stays true when a thread moves of whose place it does not
hold. -/
theorem stays_update {σ : Type*} [DecidableEq τ] {place : τ → σ} {thread other : τ}
    {before next : σ} {holds : σ → Bool} (here : place other = before)
    (fails : holds before = false) (stands : holds (place thread) = true) :
    holds (update place other next thread) = true := by
  have different : thread ≠ other := by
    rintro rfl
    rw [here, fails] at stands
    cases stands
  rwa [update_of_ne different]

/-! ## One lock -/

/-- Every thread inside a critical section owns the lock. -/
def Excludes (inside : τ → Bool) (owner : Option τ) : Prop :=
  ∀ thread, inside thread = true → owner = some thread

/-- The owner of the lock stands inside a critical section. -/
def Attended (inside : τ → Bool) (owner : Option τ) : Prop :=
  ∀ thread, owner = some thread → inside thread = true

/-- What one step does to the lock, and to where the threads stand. -/
inductive LockStep [DecidableEq τ] (inside : τ → Bool) (owner : Option τ) :
    (τ → Bool) → Option τ → Prop where
  /-- Nothing. -/
  | keep : LockStep inside owner inside owner
  /-- A thread takes the free lock and enters. -/
  | take (thread : τ) (free : owner = none) :
    LockStep inside owner (update inside thread true) (some thread)
  /-- A thread inside leaves and releases the lock. -/
  | release (thread : τ) (place : inside thread = true) :
    LockStep inside owner (update inside thread false) none

namespace Excludes

variable {inside : τ → Bool} {owner : Option τ}

/-- While one thread owns the lock, every other stands outside. -/
theorem outside {thread other : τ} (excludes : Excludes inside (some thread))
    (different : other ≠ thread) : inside other = false := by
  cases place : inside other with
  | false => rfl
  | true => exact absurd (Option.some.inj (excludes other place)).symm different

/-- While the lock is free, every thread stands outside. -/
theorem outside_of_free (excludes : Excludes inside none) (thread : τ) :
    inside thread = false := by
  cases place : inside thread with
  | false => rfl
  | true => exact absurd (excludes thread place) (by simp)

/-- Every step of the lock keeps the exclusion. -/
theorem step [DecidableEq τ] {after : τ → Bool} {next : Option τ}
    (excludes : Excludes inside owner) (step : LockStep inside owner after next) :
    Excludes after next := by
  cases step with
  | keep => exact excludes
  | take thread free =>
    subst free
    intro other place
    by_cases same : other = thread
    · rw [same]
    · rw [update_of_ne same, excludes.outside_of_free] at place
      cases place
  | release thread place =>
    have owned := excludes thread place
    subst owned
    intro other stays
    by_cases same : other = thread
    · rw [same, update_self] at stays
      cases stays
    · rw [update_of_ne same, excludes.outside same] at stays
      cases stays

end Excludes

/-- Every step of the lock leaves an owner inside, if it leaves one. -/
theorem Attended.step [DecidableEq τ] {inside after : τ → Bool} {owner next : Option τ}
    (attended : Attended inside owner) (step : LockStep inside owner after next) :
    Attended after next := by
  cases step with
  | keep => exact attended
  | take thread free =>
    intro other owned
    obtain rfl := Option.some.inj owned
    exact update_self ..
  | release thread place =>
    intro other owned
    cases owned

/-! ## Claims to memory -/

/-- What threads claim is allocated, not shared, and claimed by one thread; what is shared is
allocated. -/
structure Claims (claim : τ → Option α) (shared : List α) (live : α → Prop) : Prop where
  /-- One thread claims a block. -/
  apart : ∀ thread other block, claim thread = some block → claim other = some block →
    thread = other
  /-- A claimed block is not shared. -/
  unshared : ∀ thread block, claim thread = some block → block ∉ shared
  /-- A claimed block is allocated. -/
  claimed : ∀ thread block, claim thread = some block → live block
  /-- A shared block is allocated. -/
  kept : ∀ block ∈ shared, live block
  /-- A block is shared once. -/
  nodup : shared.Nodup

namespace Claims

variable {claim : τ → Option α} {shared : List α} {live : α → Prop}

/-- Blocks that no other thread claims differ from those it does. -/
theorem ne {thread other : τ} {block claimed : α} (claims : Claims claim shared live)
    (different : other ≠ thread) (mine : claim thread = some block)
    (theirs : claim other = some claimed) : claimed ≠ block := by
  rintro rfl
  exact different (claims.apart other thread claimed theirs mine)

variable [DecidableEq τ]

/-- A claim after a thread has gained a block is the gained one or an old one. -/
theorem gained {thread other : τ} {block claimed : α}
    (held : update claim thread (some block) other = some claimed) :
    other = thread ∧ claimed = block ∨ claim other = some claimed := by
  by_cases same : other = thread
  · rw [same, update_self] at held
    exact .inl ⟨same, (Option.some.inj held).symm⟩
  · rw [update_of_ne same] at held
    exact .inr held

/-- A claim after a thread has lost its block is an old one of another thread. -/
theorem lost {thread other : τ} {claimed : α}
    (held : update claim thread none other = some claimed) :
    other ≠ thread ∧ claim other = some claimed := by
  by_cases same : other = thread
  · rw [same, update_self] at held
    cases held
  · rw [update_of_ne same] at held
    exact ⟨same, held⟩

/-- A thread that gains a block that no thread claimed is the only one to claim it. -/
theorem apart_gain {thread : τ} {block : α} (claims : Claims claim shared live)
    (unclaimed : ∀ other, claim other ≠ some block) (left right : τ) (other : α)
    (first : update claim thread (some block) left = some other)
    (second : update claim thread (some block) right = some other) : left = right := by
  rcases gained first with ⟨rfl, rfl⟩ | old
  · rcases gained second with ⟨rfl, -⟩ | old
    · rfl
    · exact absurd old (unclaimed right)
  · rcases gained second with ⟨rfl, rfl⟩ | other
    · exact absurd old (unclaimed left)
    · exact claims.apart left right _ old other

/-- A thread is given a block that was not allocated. -/
theorem allocate {block : α} (claims : Claims claim shared live) (after : α → Prop) (thread : τ)
    (fresh : ¬ live block) (grown : ∀ other, after other ↔ live other ∨ other = block) :
    Claims (update claim thread (some block)) shared after := by
  refine ⟨claims.apart_gain fun other held => fresh (claims.claimed other block held), ?_, ?_,
    fun other inside => (grown other).mpr (.inl (claims.kept other inside)), claims.nodup⟩
  · intro other claimed held inside
    rcases gained held with ⟨-, rfl⟩ | old
    · exact fresh (claims.kept claimed inside)
    · exact claims.unshared other claimed old inside
  · intro other claimed held
    rcases gained held with ⟨-, rfl⟩ | old
    · exact (grown claimed).mpr (.inr rfl)
    · exact (grown claimed).mpr (.inl (claims.claimed other claimed old))

/-- A thread frees the block it claims. -/
theorem free {thread : τ} {block : α} (claims : Claims claim shared live) (after : α → Prop)
    (mine : claim thread = some block)
    (shrunk : ∀ other, after other ↔ live other ∧ other ≠ block) :
    Claims (update claim thread none) shared after := by
  refine ⟨fun left right other first second =>
      claims.apart left right other (lost first).2 (lost second).2,
    fun other claimed held => claims.unshared other claimed (lost held).2, ?_, ?_, claims.nodup⟩
  · intro other claimed held
    obtain ⟨different, old⟩ := lost held
    exact (shrunk claimed).mpr ⟨claims.claimed other claimed old, claims.ne different mine old⟩
  · intro other inside
    refine (shrunk other).mpr ⟨claims.kept other inside, ?_⟩
    rintro rfl
    exact claims.unshared thread other mine inside

/-- A thread puts the block it claims at the back of the shared list. -/
theorem publish {thread : τ} {block : α} (claims : Claims claim shared live)
    (mine : claim thread = some block) :
    Claims (update claim thread none) (shared ++ [block]) live := by
  refine ⟨fun left right other first second =>
      claims.apart left right other (lost first).2 (lost second).2, ?_,
    fun other claimed held => claims.claimed other claimed (lost held).2, ?_, ?_⟩
  · intro other claimed held inside
    obtain ⟨different, old⟩ := lost held
    rcases List.mem_append.mp inside with before | back
    · exact claims.unshared other claimed old before
    · exact claims.ne different mine old (List.mem_singleton.mp back)
  · intro other inside
    rcases List.mem_append.mp inside with before | back
    · exact claims.kept other before
    · exact List.mem_singleton.mp back ▸ claims.claimed thread block mine
  · rw [← List.concat_eq_append]
    exact claims.nodup.concat (claims.unshared thread block mine)

/-- A thread takes the block at the front of the shared list. -/
theorem take {block : α} {rest : List α} (claims : Claims claim (block :: rest) live)
    (thread : τ) :
    Claims (update claim thread (some block)) rest live := by
  obtain ⟨absent, distinct⟩ := List.nodup_cons.mp claims.nodup
  refine ⟨claims.apart_gain fun other held => claims.unshared other block held
      List.mem_cons_self, ?_, ?_,
    fun other inside => claims.kept other (List.mem_cons_of_mem _ inside), distinct⟩
  · intro other claimed held inside
    rcases gained held with ⟨-, rfl⟩ | old
    · exact absent inside
    · exact claims.unshared other claimed old (List.mem_cons_of_mem _ inside)
  · intro other claimed held
    rcases gained held with ⟨-, rfl⟩ | old
    · exact claims.kept claimed List.mem_cons_self
    · exact claims.claimed other claimed old

end Claims

/-! ## One writer -/

/-- While a thread writes, the shared value is what its stage says and no other thread writes;
while nobody does, the value is at rest. -/
structure Sole {σ : Type*} (stage : τ → Option σ) (shared : σ) (rest : σ → Prop) : Prop where
  /-- One thread writes. -/
  single : ∀ thread other, stage thread ≠ none → stage other ≠ none → thread = other
  /-- The value is what its stage says. -/
  shown : ∀ thread value, stage thread = some value → shared = value
  /-- Otherwise the value is at rest. -/
  between : (∀ thread, stage thread = none) → rest shared

namespace Sole

variable {σ : Type*} {stage : τ → Option σ} {shared value : σ} {rest : σ → Prop}

/-- A thread that writes is the only one. -/
theorem others (sole : Sole stage shared rest) {thread other : τ} (writes : stage thread ≠ none)
    (different : other ≠ thread) : stage other = none := by
  by_contra also
  exact different (sole.single other thread also writes)

variable [DecidableEq τ]

/-- When nobody writes, a thread may begin. -/
theorem enter (nobody : ∀ thread, stage thread = none) (thread : τ) :
    Sole (update stage thread (some shared)) shared rest := by
  constructor
  · intro first second writes also
    have here : ∀ other, update stage thread (some shared) other ≠ none → other = thread := by
      intro other begun
      by_contra different
      rw [update_of_ne different] at begun
      exact begun (nobody other)
    rw [here first writes, here second also]
  · intro other value begun
    by_cases same : other = thread
    · rw [same, update_self] at begun
      exact Option.some.inj begun
    · rw [update_of_ne same, nobody other] at begun
      cases begun
  · intro absent
    have present := absent thread
    rw [update_self] at present
    cases present

/-- The writer goes on. -/
theorem advance (sole : Sole stage shared rest) {thread : τ} (writes : stage thread ≠ none)
    (value : σ) : Sole (update stage thread (some value)) value rest := by
  have entered : Sole (update (update stage thread none) thread (some value)) value rest := by
    apply enter
    intro other
    by_cases same : other = thread
    · rw [same, update_self]
    · rw [update_of_ne same, sole.others writes same]
  rwa [update_idem] at entered

/-- The writer ends, and leaves the value at rest. -/
theorem leave (sole : Sole stage shared rest) {thread : τ} (writes : stage thread ≠ none)
    (rests : rest value) : Sole (update stage thread none) value rest := by
  have nobody : ∀ other, update stage thread none other = none := by
    intro other
    by_cases same : other = thread
    · rw [same, update_self]
    · rw [update_of_ne same, sole.others writes same]
  constructor
  · intro first _ begun
    exact absurd (nobody first) begun
  · intro other value begun
    rw [nobody other] at begun
    cases begun
  · exact fun _ => rests

/-- A thread that does not write stays so. -/
theorem pass (sole : Sole stage shared rest) {thread : τ} (outside : stage thread = none) :
    Sole (update stage thread none) shared rest := by
  rw [← outside, update_eq_self]
  exact sole

end Sole

end Library
