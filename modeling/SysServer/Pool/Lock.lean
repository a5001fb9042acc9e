import SysServer.Library.Ownership
import SysServer.Pool.Moves

/-!
# The lock of the pool

A value of every thread's place changes at one thread in each step (`view_worker`, `view_adder`,
`view_destroyer`), except where sleepers are woken. The first such value is whether the thread
stands between `pthread_mutex_lock` and `pthread_mutex_unlock`: only the owner does.
-/

namespace SysServer.Threadpool

open Library Function

variable {n : ℕ} {α δ ρ β γ : Type*}

/-! ## Views of the threads -/

/-- A value of every thread's place. -/
def view (onWorker : WorkerPhase ρ β → γ) (onAdder : AdderPhase ρ β → γ)
    (onDestroyer : DestroyerPhase ρ β → γ) (worker : Fin n → WorkerPhase ρ β)
    (adder : α → AdderPhase ρ β) (destroyer : δ → DestroyerPhase ρ β) : Thread n α δ → γ
  | .worker index => onWorker (worker index)
  | .adder caller => onAdder (adder caller)
  | .destroyer call => onDestroyer (destroyer call)

section Views

variable {onWorker : WorkerPhase ρ β → γ} {onAdder : AdderPhase ρ β → γ}
  {onDestroyer : DestroyerPhase ρ β → γ} {worker workers : Fin n → WorkerPhase ρ β}
  {adder : α → AdderPhase ρ β} {destroyer : δ → DestroyerPhase ρ β}

/-- Moves of workers that keep their values keep every value. -/
theorem view_workers (same : ∀ index, onWorker (workers index) = onWorker (worker index)) :
    view onWorker onAdder onDestroyer workers adder destroyer =
      view onWorker onAdder onDestroyer worker adder destroyer := by
  funext thread
  cases thread with
  | worker index => exact same index
  | _ => rfl

variable [DecidableEq α] [DecidableEq δ]

/-- The move of a worker changes its value. -/
theorem view_worker (index : Fin n) (phase : WorkerPhase ρ β) :
    view onWorker onAdder onDestroyer (update worker index phase) adder destroyer =
      update (view onWorker onAdder onDestroyer worker adder destroyer) (.worker index)
        (onWorker phase) := by
  funext thread
  cases thread with
  | worker other =>
    by_cases same : other = index
    · subst same
      simp [view]
    · simp [view, same]
  | _ => rfl

/-- The move of an adding thread changes its value. -/
theorem view_adder (caller : α) (phase : AdderPhase ρ β) :
    view onWorker onAdder onDestroyer worker (update adder caller phase) destroyer =
      update (view onWorker onAdder onDestroyer worker adder destroyer) (.adder caller)
        (onAdder phase) := by
  funext thread
  cases thread with
  | adder other =>
    by_cases same : other = caller
    · subst same
      simp [view]
    · simp [view, same]
  | _ => rfl

/-- The move of a call of `tpool_destroy` changes its value. -/
theorem view_destroyer (call : δ) (phase : DestroyerPhase ρ β) :
    view onWorker onAdder onDestroyer worker adder (update destroyer call phase) =
      update (view onWorker onAdder onDestroyer worker adder destroyer) (.destroyer call)
        (onDestroyer phase) := by
  funext thread
  cases thread with
  | destroyer other =>
    by_cases same : other = call
    · subst same
      simp [view]
    · simp [view, same]
  | _ => rfl

/-- The move of a worker that keeps its value keeps every value. -/
theorem view_worker_same {index : Fin n} {before after : WorkerPhase ρ β}
    (place : worker index = before) (same : onWorker after = onWorker before) :
    view onWorker onAdder onDestroyer (update worker index after) adder destroyer =
      view onWorker onAdder onDestroyer worker adder destroyer := by
  rw [view_worker, same, ← place]
  exact update_eq_self _ _

/-- The move of an adding thread that keeps its value keeps every value. -/
theorem view_adder_same {caller : α} {before after : AdderPhase ρ β}
    (place : adder caller = before) (same : onAdder after = onAdder before) :
    view onWorker onAdder onDestroyer worker (update adder caller after) destroyer =
      view onWorker onAdder onDestroyer worker adder destroyer := by
  rw [view_adder, same, ← place]
  exact update_eq_self _ _

/-- The move of a call of `tpool_destroy` that keeps its value keeps every value. -/
theorem view_destroyer_same {call : δ} {before after : DestroyerPhase ρ β}
    (place : destroyer call = before) (same : onDestroyer after = onDestroyer before) :
    view onWorker onAdder onDestroyer worker adder (update destroyer call after) =
      view onWorker onAdder onDestroyer worker adder destroyer := by
  rw [view_destroyer, same, ← place]
  exact update_eq_self _ _

end Views

/-! ## Exclusion -/

/-- The worker stands between the lock and its release. -/
def WorkerPhase.inside : WorkerPhase ρ β → Bool
  | .testHead | .testShutdown | .waiting | .checkShutdown | .leaving | .popHead | .popNext _
  | .unlocking _ _ => true
  | _ => false

/-- The adding thread stands between the lock and its release. -/
def AdderPhase.inside : AdderPhase ρ β → Bool
  | .readHead _ _ | .storing _ _ | .walking _ _ _ | .linking _ _ _ | .signalling _
  | .unlocking _ => true
  | _ => false

/-- The call of `tpool_destroy` stands between the lock and its release. -/
def DestroyerPhase.inside : DestroyerPhase ρ β → Bool
  | .broadcasting | .unlocking => true
  | _ => false

/-- Whether each thread stands inside a critical section. -/
abbrev State.inside (state : State n α δ ρ β) : Thread n α δ → Bool :=
  view WorkerPhase.inside AdderPhase.inside DestroyerPhase.inside state.worker state.adder
    state.destroyer

/-- Only the owner of the lock stands inside a critical section. -/
def Exclusive (state : State n α δ ρ β) : Prop := Excludes state.inside state.owner

/-- While one thread stands inside, every other stands outside. -/
theorem Exclusive.outside {state : State n α δ ρ β} (exclusive : Exclusive state)
    {thread : Thread n α δ} (inside : state.inside thread = true) (other : Thread n α δ)
    (different : other ≠ thread) : state.inside other = false := by
  have owned := exclusive thread inside
  rw [Exclusive, owned] at exclusive
  exact Excludes.outside exclusive different

/-- A turn of a worker stays inside or outside. -/
theorem WorkerTurn.inside {state : State n α δ ρ β} {before after : WorkerPhase ρ β}
    (turn : WorkerTurn state before after) : after.inside = before.inside := by
  cases turn <;> rfl

/-- A worker that releases the lock leaves. -/
theorem WorkerRelease.inside {before after : WorkerPhase ρ β}
    (release : WorkerRelease before after) : before.inside = true ∧ after.inside = false := by
  cases release <;> exact ⟨rfl, rfl⟩

/-- A turn of an adding thread stays inside. -/
theorem AdderTurn.inside {state : State n α δ ρ β} {before after : AdderPhase ρ β}
    (turn : AdderTurn state before after) : after.inside = before.inside := by
  cases turn <;> rfl

/-- A turn of a call of `tpool_destroy` stays outside. -/
theorem DestroyerTurn.inside {state : State n α δ ρ β} {before after : DestroyerPhase ρ β}
    (turn : DestroyerTurn state before after) : after.inside = before.inside := by
  cases turn <;> rfl

/-- A worker that is woken stays outside. -/
theorem WorkerPhase.roused_inside (phase : WorkerPhase ρ β) :
    phase.roused.inside = phase.inside := by
  cases phase <;> rfl

/-- A sleeping worker is asleep in `pthread_cond_wait`. -/
theorem WorkerPhase.eq_asleep {phase : WorkerPhase ρ β} (sleeps : phase.sleeps = true) :
    phase = .asleep := by
  cases phase <;> first | rfl | cases sleeps

/-- The value of workers of whom some are woken is that of the workers before, when waking keeps
it. -/
theorem woken_same {worker : Fin n → WorkerPhase ρ β} {woken : Finset (Fin n)}
    (onWorker : WorkerPhase ρ β → γ) (same : onWorker .woken = onWorker .asleep)
    (slept : ∀ index ∈ woken, (worker index).sleeps = true) (index : Fin n) :
    onWorker (if index ∈ woken then .woken else worker index) = onWorker (worker index) := by
  split
  · rename_i inside
    rw [WorkerPhase.eq_asleep (slept index inside), same]
  · rfl

variable [DecidableEq α] [DecidableEq δ] {state next : State n α δ ρ β}

/-- A thread keeps its value through a step of another, when waking keeps it. -/
theorem view_moves {onWorker : WorkerPhase ρ β → γ} {onAdder : AdderPhase ρ β → γ}
    {onDestroyer : DestroyerPhase ρ β → γ} {label : Label n α δ ρ β}
    (moves : Moves state label next) (woken : onWorker .woken = onWorker .asleep)
    {thread : Thread n α δ} (other : thread ≠ label.thread) :
    view onWorker onAdder onDestroyer next.worker next.adder next.destroyer thread =
      view onWorker onAdder onDestroyer state.worker state.adder state.destroyer thread := by
  cases moves with
  | workerTurn actor turn =>
    rw [actor] at other
    simp only [State.workerAt, view_worker]
    exact update_of_ne other ..
  | addNull place => rfl
  | signal place slept nobody =>
    rw [view_workers (woken_same onWorker woken slept)]
    simp only [State.adderAt, view_adder]
    exact update_of_ne other ..
  | broadcast place =>
    have kept : ∀ index, onWorker (state.worker index).roused = onWorker (state.worker index) := by
      intro index
      cases state.worker index with
      | asleep => exact woken
      | _ => rfl
    rw [view_workers kept]
    simp only [State.destroyerAt, view_destroyer]
    exact update_of_ne other ..
  | _ =>
    simp only [State.workerAt, State.adderAt, State.destroyerAt, view_worker, view_adder,
      view_destroyer]
    exact update_of_ne other ..

/-- A worker that stays inside or outside does nothing to the lock. -/
theorem lock_worker {index : Fin n} {before : WorkerPhase ρ β} (after : WorkerPhase ρ β)
    (place : state.worker index = before) (same : after.inside = before.inside) :
    LockStep state.inside state.owner (state.workerAt index after).inside state.owner := by
  unfold State.inside State.workerAt
  rw [view_worker_same place same]
  exact .keep

/-- An adding thread that stays inside or outside does nothing to the lock. -/
theorem lock_adder {caller : α} {before : AdderPhase ρ β} (after : AdderPhase ρ β)
    (place : state.adder caller = before) (same : after.inside = before.inside) :
    LockStep state.inside state.owner (state.adderAt caller after).inside state.owner := by
  unfold State.inside State.adderAt
  rw [view_adder_same place same]
  exact .keep

/-- A call of `tpool_destroy` that stays inside or outside does nothing to the lock. -/
theorem lock_destroyer {call : δ} {before : DestroyerPhase ρ β} (after : DestroyerPhase ρ β)
    (place : state.destroyer call = before) (same : after.inside = before.inside) :
    LockStep state.inside state.owner (state.destroyerAt call after).inside state.owner := by
  unfold State.inside State.destroyerAt
  rw [view_destroyer_same place same]
  exact .keep

/-- A thread enters when it takes the lock, leaves when it releases it, and stays otherwise. -/
theorem lock_moves {label : Label n α δ ρ β} (moves : Moves state label next) :
    LockStep state.inside state.owner next.inside next.owner := by
  cases moves with
  | workerTurn actor turn => exact lock_worker _ rfl turn.inside
  | @workerLock index place free =>
    have entered : LockStep state.inside state.owner _ _ := .take (.worker index) free
    rwa [← show WorkerPhase.testHead.inside = true from rfl, ← view_worker] at entered
  | @workerRelease index phase release =>
    have left : LockStep state.inside state.owner _ _ :=
      .release (.worker index) (by exact release.inside.1)
    rwa [← release.inside.2, ← view_worker] at left
  | popNext place front stored => exact lock_worker _ place rfl
  | free place => exact lock_worker _ place rfl
  | addNull place => exact .keep
  | add place => exact lock_adder _ place rfl
  | mallocFail place => exact lock_adder _ place rfl
  | malloc place fresh => exact lock_adder _ place rfl
  | adderTurn turn => exact lock_adder _ rfl turn.inside
  | @adderLock caller work content place free =>
    have entered : LockStep state.inside state.owner _ _ := .take (.adder caller) free
    rwa [← show (AdderPhase.readHead work content).inside = true from rfl, ← view_adder] at entered
  | storeHead place => exact lock_adder _ place rfl
  | link place stored => exact lock_adder _ place rfl
  | @signal caller content woken place slept nobody =>
    have moved := lock_adder (.unlocking content) place rfl
    unfold State.inside at moved ⊢
    rwa [view_workers (woken_same WorkerPhase.inside rfl slept)]
  | @adderRelease caller content place =>
    have left : LockStep state.inside state.owner _ _ :=
      .release (.adder caller) (by simp only [view, place]; rfl)
    rwa [← show AdderPhase.idle.inside = false from rfl, ← view_adder] at left
  | destroy place => exact lock_destroyer _ place rfl
  | destroyerTurn turn => exact lock_destroyer _ rfl turn.inside
  | storeShutdown place => exact lock_destroyer _ place rfl
  | @destroyerLock call place free =>
    have entered : LockStep state.inside state.owner _ _ := .take (.destroyer call) free
    rwa [← show DestroyerPhase.broadcasting.inside = true from rfl, ← view_destroyer] at entered
  | broadcast place =>
    have moved := lock_destroyer .unlocking place rfl
    unfold State.inside at moved ⊢
    rwa [view_workers fun index => (state.worker index).roused_inside]
  | @destroyerRelease call place =>
    have left : LockStep state.inside state.owner _ _ :=
      .release (.destroyer call) (by simp only [view, place]; rfl)
    rwa [← show (DestroyerPhase.joining 0).inside = false from rfl, ← view_destroyer] at left
  | join inside place gone => exact lock_destroyer _ place rfl
  | freeThreads place => exact lock_destroyer _ place rfl
  | drainNext place front stored => exact lock_destroyer _ place rfl
  | drainFree place => exact lock_destroyer _ place rfl
  | freePool place => exact lock_destroyer _ place rfl

/-- Every step keeps the exclusion. -/
theorem Exclusive.moves {label : Label n α δ ρ β} (exclusive : Exclusive state)
    (moves : Moves state label next) : Exclusive next :=
  Excludes.step exclusive (lock_moves moves)

omit [DecidableEq α] [DecidableEq δ] in
/-- No thread stands inside before the first step. -/
theorem Exclusive.start : Exclusive (State.start : State n α δ ρ β) := by
  intro thread inside
  cases thread <;> cases inside

end SysServer.Threadpool
