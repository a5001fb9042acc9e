import Mathlib.Data.Fintype.Basic
import SysServer.Inc.Dlist
import SysServer.Library.Fifo
import SysServer.Library.Machine

/-!
# The thread pool

`thread_routine`, `tpool_add_work` and `tpool_destroy` as threads that share the pool record, its
lock and its condition variable. Every read and write of `shutdown` and `queue_head`, every step
along the chain of works and every operation on the lock is a step of its own, for any number of
workers, of threads that add works and of calls of `tpool_destroy`.

One statement is a single step although it reads `queue_head` and a node before it stores
`queue_head`: `tpool->queue_head = tpool->queue_head->next`, at `popNext` and `drainNext`. No
other thread touches the chain in between. A worker executes the statement under the lock; a call
of `tpool_destroy` executes it after it has joined every worker, with no thread inside
`tpool_add_work` and no other call in its last loop. In a run of the open pool, or one with nothing
added from the first call of `tpool_destroy` on and each test of `shutdown` made alone, the steps
of the other threads then leave the head and the chain as they are (`OpenPool.steady`,
`Orderly.steady`, `Closed.steady`); of other runs no result says what becomes of the queue.

The condition variable is that of POSIX: a wait releases the lock and sleeps in one step, a signal
wakes at least one sleeper when there is one, a broadcast wakes them all, and a sleeper may wake
at any time by itself. A step that would dereference a null or dangling pointer is not enabled.
-/

namespace SysServer.Threadpool

open Library Function

/-- `TPOOL_DEFAULT_NUM`. -/
def tpoolDefaultNum : ℤ := 64

/-- `TPOOL_MAX_NUM`. -/
def tpoolMaxNum : ℤ := 128

/-- The number of workers that `tpool_create` starts for a requested number. -/
def maxThrNum (requested : ℤ) : ℤ :=
  if requested ≤ 0 then tpoolDefaultNum
  else if tpoolMaxNum < requested then tpoolMaxNum
  else requested

/-- `tpool_work_t` without its next pointer, and the number of its allocation. -/
structure Work (ρ β : Type*) where
  /-- Which call of `tpool_add_work` allocated it. -/
  serial : ℕ
  /-- The routine. -/
  routine : ρ
  /-- Its argument. -/
  arg : β
  deriving DecidableEq

/-- Where a worker stands in `thread_routine`. -/
inductive WorkerPhase (ρ β : Type*) where
  /-- Not yet created by `tpool_create`. -/
  | unborn
  /-- At `pthread_mutex_lock`. -/
  | locking
  /-- At the first condition of the loop, `!tpool->queue_head`. -/
  | testHead
  /-- At the second condition of the loop, `!tpool->shutdown`. -/
  | testShutdown
  /-- At `pthread_cond_wait`. -/
  | waiting
  /-- Asleep in `pthread_cond_wait`. -/
  | asleep
  /-- Woken in `pthread_cond_wait`, before it has the lock again. -/
  | woken
  /-- At `if (tpool->shutdown)`. -/
  | checkShutdown
  /-- At `pthread_mutex_unlock` before `pthread_exit`. -/
  | leaving
  /-- Past `pthread_exit`. -/
  | exited
  /-- At `work = tpool->queue_head`. -/
  | popHead
  /-- At `tpool->queue_head = tpool->queue_head->next`. -/
  | popNext (work : Address)
  /-- At `pthread_mutex_unlock`, with the node and what it holds. -/
  | unlocking (work : Address) (content : Work ρ β)
  /-- Inside the routine. -/
  | running (work : Address) (content : Work ρ β)
  /-- At `free(work)`. -/
  | freeing (work : Address) (content : Work ρ β)

/-- Where a thread stands in `tpool_add_work`. -/
inductive AdderPhase (ρ β : Type*) where
  /-- Not inside the function. -/
  | idle
  /-- At `malloc`. -/
  | allocating (routine : ρ) (arg : β)
  /-- At `pthread_mutex_lock`, with the node filled. -/
  | locking (work : Address) (content : Work ρ β)
  /-- At `member = tpool->queue_head`. -/
  | readHead (work : Address) (content : Work ρ β)
  /-- At `tpool->queue_head = work`. -/
  | storing (work : Address) (content : Work ρ β)
  /-- At `while(member->next)`. -/
  | walking (work : Address) (content : Work ρ β) (member : Address)
  /-- At `member->next = work`. -/
  | linking (work : Address) (content : Work ρ β) (member : Address)
  /-- At `pthread_cond_signal`. -/
  | signalling (content : Work ρ β)
  /-- At `pthread_mutex_unlock`. -/
  | unlocking (content : Work ρ β)

/-- Where a call of `tpool_destroy` stands. -/
inductive DestroyerPhase (ρ β : Type*) where
  /-- Not yet made. -/
  | idle
  /-- At `if (tpool->shutdown)`. -/
  | testing
  /-- At `tpool->shutdown = 1`. -/
  | storing
  /-- At `pthread_mutex_lock`. -/
  | locking
  /-- At `pthread_cond_broadcast`. -/
  | broadcasting
  /-- At `pthread_mutex_unlock`. -/
  | unlocking
  /-- At `pthread_join` of a worker, or past the last. -/
  | joining (index : ℕ)
  /-- At `free(tpool->thr_id)`. -/
  | freeThreads
  /-- At `while(tpool->queue_head)`. -/
  | drainTest
  /-- At `member = tpool->queue_head`. -/
  | drainMember
  /-- At `tpool->queue_head = tpool->queue_head->next`. -/
  | drainNext (member : Address)
  /-- At `free(member)`, with what the unlinked node holds. -/
  | drainFree (member : Address) (content : Work ρ β)
  /-- At `pthread_mutex_destroy` and `pthread_cond_destroy`. -/
  | destroyLocks
  /-- At `free(tpool)`. -/
  | freePool
  /-- Returned. -/
  | returned

/-- A thread of the program. -/
inductive Thread (n : ℕ) (α δ : Type*) where
  /-- A worker of the pool. -/
  | worker (index : Fin n)
  /-- A thread that adds works. -/
  | adder (caller : α)
  /-- A call of `tpool_destroy`. -/
  | destroyer (call : δ)
  deriving DecidableEq

/-- The pool record, its nodes, the threads' places, and what has happened to the works. No step
reads a history. -/
structure State (n : ℕ) (α δ ρ β : Type*) where
  /-- `shutdown`. -/
  shutdown : Bool
  /-- `queue_head`. -/
  queueHead : Option Address
  /-- The allocated nodes, each with its content and its next pointer. -/
  heap : Address → Option (Work ρ β × Option Address)
  /-- The owner of `queue_lock`. -/
  owner : Option (Thread n α δ)
  /-- The workers. -/
  worker : Fin n → WorkerPhase ρ β
  /-- The threads that add works. -/
  adder : α → AdderPhase ρ β
  /-- The calls of `tpool_destroy`. -/
  destroyer : δ → DestroyerPhase ρ β
  /-- Nodes allocated so far. -/
  serials : ℕ
  /-- Works in the order in which they were linked. -/
  accepted : List (Work ρ β)
  /-- What each call of `tpool_add_work` returned, and for which node. -/
  answers : List (Option (Work ρ β) × ℤ)
  /-- Works in the order in which workers took them. -/
  taken : List (Fin n × Work ρ β)
  /-- Works that a worker has run and freed. -/
  finished : List (Fin n × Work ρ β)
  /-- Works that `tpool_destroy` has unlinked. -/
  discarded : List (Work ρ β)
  /-- Works that `tpool_destroy` has freed. -/
  drained : List (Work ρ β)
  /-- Workers joined, in order. -/
  joined : List (Fin n)
  /-- How often the thread array was freed. -/
  threadFrees : ℕ
  /-- How often the pool record was freed. -/
  poolFrees : ℕ

/-- A step of a thread, with what the allocator of memory and the scheduler decide. -/
inductive Label (n : ℕ) (α δ ρ β : Type*) where
  /-- `pthread_create` of a worker. -/
  | spawn (index : Fin n)
  /-- A worker's next step. -/
  | worker (index : Fin n)
  /-- A sleeping worker wakes by itself. -/
  | wake (index : Fin n)
  /-- A call of `tpool_add_work`, whose routine may be null. -/
  | add (caller : α) (routine : Option ρ) (arg : β)
  /-- `malloc` of a node: an unused block or null. -/
  | malloc (caller : α) (block : Option Address)
  /-- An adding thread's next step. -/
  | adder (caller : α)
  /-- `pthread_cond_signal` and the sleepers that it wakes. -/
  | signal (caller : α) (woken : Finset (Fin n))
  /-- A call of `tpool_destroy`. -/
  | destroy (call : δ)
  /-- The next step of a call of `tpool_destroy`. -/
  | destroyer (call : δ)

variable {n : ℕ} {α δ ρ β : Type*}

/-- The thread that a step is of. -/
def Label.thread : Label n α δ ρ β → Thread n α δ
  | .spawn index | .worker index | .wake index => .worker index
  | .add caller _ _ | .malloc caller _ | .adder caller | .signal caller _ => .adder caller
  | .destroy call | .destroyer call => .destroyer call

/-- The worker is asleep in `pthread_cond_wait`. -/
def WorkerPhase.sleeps : WorkerPhase ρ β → Bool
  | .asleep => true
  | _ => false

/-- The worker has left `thread_routine`. -/
def WorkerPhase.gone : WorkerPhase ρ β → Bool
  | .exited => true
  | _ => false

/-- What a broadcast does to a worker. -/
def WorkerPhase.roused (phase : WorkerPhase ρ β) : WorkerPhase ρ β :=
  if phase.sleeps then .woken else phase

/-- The state that `tpool_create` sets up, before it creates the workers. -/
def State.start : State n α δ ρ β where
  shutdown := false
  queueHead := none
  heap := fun _ => none
  owner := none
  worker := fun _ => .unborn
  adder := fun _ => .idle
  destroyer := fun _ => .idle
  serials := 0
  accepted := []
  answers := []
  taken := []
  finished := []
  discarded := []
  drained := []
  joined := []
  threadFrees := 0
  poolFrees := 0

/-- One worker moves. -/
def State.workerAt (state : State n α δ ρ β) (index : Fin n) (phase : WorkerPhase ρ β) :
    State n α δ ρ β :=
  { state with worker := update state.worker index phase }

variable [DecidableEq α] [DecidableEq δ]

/-- One adding thread moves. -/
def State.adderAt (state : State n α δ ρ β) (caller : α) (phase : AdderPhase ρ β) :
    State n α δ ρ β :=
  { state with adder := update state.adder caller phase }

/-- One call of `tpool_destroy` moves. -/
def State.destroyerAt (state : State n α δ ρ β) (call : δ) (phase : DestroyerPhase ρ β) :
    State n α δ ρ β :=
  { state with destroyer := update state.destroyer call phase }

/-- `thread_routine` — a worker's next step. -/
def threadRoutine (state : State n α δ ρ β) (index : Fin n) : Option (State n α δ ρ β) :=
  match state.worker index with
  | .unborn | .asleep | .exited => none
  | .locking | .woken =>
    match state.owner with
    | none => some { state.workerAt index .testHead with owner := some (.worker index) }
    | some _ => none
  | .testHead =>
    match state.queueHead with
    | none => some (state.workerAt index .testShutdown)
    | some _ => some (state.workerAt index .checkShutdown)
  | .testShutdown =>
    some (state.workerAt index (if state.shutdown then .checkShutdown else .waiting))
  | .waiting => some { state.workerAt index .asleep with owner := none }
  | .checkShutdown =>
    some (state.workerAt index (if state.shutdown then .leaving else .popHead))
  | .leaving => some { state.workerAt index .exited with owner := none }
  | .popHead =>
    match state.queueHead with
    | none => none
    | some work => some (state.workerAt index (.popNext work))
  | .popNext work =>
    -- Read and stored in one step: the worker holds the lock.
    match state.queueHead with
    | none => none
    | some head =>
      match state.heap head with
      | none => none
      | some (content, next) =>
        some { state.workerAt index (.unlocking work content) with
          queueHead := next
          taken := state.taken ++ [(index, content)] }
  | .unlocking work content =>
    some { state.workerAt index (.running work content) with owner := none }
  | .running work content => some (state.workerAt index (.freeing work content))
  | .freeing work content =>
    match state.heap work with
    | none => none
    | some _ =>
      some { state.workerAt index .locking with
        heap := update state.heap work none
        finished := state.finished ++ [(index, content)] }

/-- `tpool_add_work` — the next step after the allocation, up to the signal. -/
def tpoolAddWork (state : State n α δ ρ β) (caller : α) : Option (State n α δ ρ β) :=
  match state.adder caller with
  | .idle | .allocating _ _ | .signalling _ => none
  | .locking work content =>
    match state.owner with
    | none =>
      some { state.adderAt caller (.readHead work content) with owner := some (.adder caller) }
    | some _ => none
  | .readHead work content =>
    match state.queueHead with
    | none => some (state.adderAt caller (.storing work content))
    | some member => some (state.adderAt caller (.walking work content member))
  | .storing work content =>
    some { state.adderAt caller (.signalling content) with
      queueHead := some work
      accepted := state.accepted ++ [content] }
  | .walking work content member =>
    match state.heap member with
    | none => none
    | some (_, none) => some (state.adderAt caller (.linking work content member))
    | some (_, some next) => some (state.adderAt caller (.walking work content next))
  | .linking work content member =>
    match state.heap member with
    | none => none
    | some (before, _) =>
      some { state.adderAt caller (.signalling content) with
        heap := update state.heap member (some (before, some work))
        accepted := state.accepted ++ [content] }
  | .unlocking content =>
    some { state.adderAt caller .idle with
      owner := none
      answers := state.answers ++ [(some content, 0)] }

/-- `tpool_destroy` — the next step of a call. -/
def tpoolDestroy (state : State n α δ ρ β) (call : δ) : Option (State n α δ ρ β) :=
  match state.destroyer call with
  | .idle | .returned => none
  | .testing =>
    some (state.destroyerAt call (if state.shutdown then .returned else .storing))
  | .storing => some { state.destroyerAt call .locking with shutdown := true }
  | .locking =>
    match state.owner with
    | none => some { state.destroyerAt call .broadcasting with owner := some (.destroyer call) }
    | some _ => none
  | .broadcasting =>
    some { state.destroyerAt call .unlocking with
      worker := fun index => (state.worker index).roused }
  | .unlocking => some { state.destroyerAt call (.joining 0) with owner := none }
  | .joining index =>
    if inside : index < n then
      if (state.worker ⟨index, inside⟩).gone then
        some { state.destroyerAt call (.joining (index + 1)) with
          joined := state.joined ++ [⟨index, inside⟩] }
      else none
    else some (state.destroyerAt call .freeThreads)
  | .freeThreads =>
    some { state.destroyerAt call .drainTest with threadFrees := state.threadFrees + 1 }
  | .drainTest =>
    match state.queueHead with
    | none => some (state.destroyerAt call .destroyLocks)
    | some _ => some (state.destroyerAt call .drainMember)
  | .drainMember =>
    match state.queueHead with
    | none => none
    | some member => some (state.destroyerAt call (.drainNext member))
  | .drainNext member =>
    -- Read and stored in one step: every worker has exited.
    match state.queueHead with
    | none => none
    | some head =>
      match state.heap head with
      | none => none
      | some (content, next) =>
        some { state.destroyerAt call (.drainFree member content) with
          queueHead := next
          discarded := state.discarded ++ [content] }
  | .drainFree member content =>
    match state.heap member with
    | none => none
    | some _ =>
      some { state.destroyerAt call .drainTest with
        heap := update state.heap member none
        drained := state.drained ++ [content] }
  | .destroyLocks => some (state.destroyerAt call .freePool)
  | .freePool =>
    some { state.destroyerAt call .returned with poolFrees := state.poolFrees + 1 }

/-- One step. -/
def step (state : State n α δ ρ β) : Label n α δ ρ β → Option (State n α δ ρ β)
  | .spawn index =>
    match state.worker index with
    | .unborn => some (state.workerAt index .locking)
    | _ => none
  | .worker index => threadRoutine state index
  | .wake index =>
    match state.worker index with
    | .asleep => some (state.workerAt index .woken)
    | _ => none
  | .add caller routine arg =>
    match state.adder caller, routine with
    | .idle, none => some { state with answers := state.answers ++ [(none, -1)] }
    | .idle, some routine => some (state.adderAt caller (.allocating routine arg))
    | _, _ => none
  | .malloc caller block =>
    match state.adder caller, block with
    | .allocating _ _, none =>
      some { state.adderAt caller .idle with answers := state.answers ++ [(none, -1)] }
    | .allocating routine arg, some work =>
      match state.heap work with
      | some _ => none
      | none =>
        some { state.adderAt caller (.locking work ⟨state.serials, routine, arg⟩) with
          heap := update state.heap work (some (⟨state.serials, routine, arg⟩, none))
          serials := state.serials + 1 }
    | _, _ => none
  | .adder caller => tpoolAddWork state caller
  | .signal caller woken =>
    match state.adder caller with
    | .signalling content =>
      if (∀ index ∈ woken, (state.worker index).sleeps) ∧
          (woken = ∅ → ∀ index, (state.worker index).sleeps = false) then
        some { state.adderAt caller (.unlocking content) with
          worker := fun index => if index ∈ woken then .woken else state.worker index }
      else none
    | _ => none
  | .destroy call =>
    match state.destroyer call with
    | .idle => some (state.destroyerAt call .testing)
    | _ => none
  | .destroyer call => tpoolDestroy state call

/-- The pool from its creation. -/
def machine : Machine (State n α δ ρ β) (Label n α δ ρ β) where
  initial state := state = .start
  step := step

end SysServer.Threadpool
