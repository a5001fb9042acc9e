import SysServer.Pool.Threadpool

/-!
# What a step of the pool can do

The steps of the threads, sorted by what they do to the memory the threads share. Most steps of a
thread only move that thread (a turn), after a read; a few take or release the lock; and eight
change the queue, the nodes or the shutdown flag. `step_moves` says that there is nothing else.
-/

namespace SysServer.Threadpool

open Library Function

variable {n : ℕ} {α δ ρ β : Type*}

/-- The turns of a worker. -/
inductive WorkerTurn (state : State n α δ ρ β) : WorkerPhase ρ β → WorkerPhase ρ β → Prop where
  /-- The worker is created. -/
  | spawn : WorkerTurn state .unborn .locking
  /-- The worker wakes by itself. -/
  | wake : WorkerTurn state .asleep .woken
  /-- The queue is empty. -/
  | empty (head : state.queueHead = none) : WorkerTurn state .testHead .testShutdown
  /-- The queue is not empty. -/
  | ready {node : Address} (head : state.queueHead = some node) :
    WorkerTurn state .testHead .checkShutdown
  /-- The pool is open, so the worker will wait. -/
  | wait (opened : state.shutdown = false) : WorkerTurn state .testShutdown .waiting
  /-- The pool is being shut down, so the loop ends. -/
  | closed (shut : state.shutdown = true) : WorkerTurn state .testShutdown .checkShutdown
  /-- The worker will exit. -/
  | leave (shut : state.shutdown = true) : WorkerTurn state .checkShutdown .leaving
  /-- The worker will take a work. -/
  | stay (opened : state.shutdown = false) : WorkerTurn state .checkShutdown .popHead
  /-- The worker reads the first node. -/
  | popHead {node : Address} (head : state.queueHead = some node) :
    WorkerTurn state .popHead (.popNext node)
  /-- The routine returns. -/
  | run {work : Address} {content : Work ρ β} :
    WorkerTurn state (.running work content) (.freeing work content)

/-- How a worker releases the lock. -/
inductive WorkerRelease : WorkerPhase ρ β → WorkerPhase ρ β → Prop where
  /-- To sleep. -/
  | sleep : WorkerRelease .waiting .asleep
  /-- To exit. -/
  | leave : WorkerRelease .leaving .exited
  /-- To run the routine. -/
  | run {work : Address} {content : Work ρ β} :
    WorkerRelease (.unlocking work content) (.running work content)

/-- The turns of an adding thread. -/
inductive AdderTurn (state : State n α δ ρ β) : AdderPhase ρ β → AdderPhase ρ β → Prop where
  /-- The queue is empty. -/
  | empty {work : Address} {content : Work ρ β} (head : state.queueHead = none) :
    AdderTurn state (.readHead work content) (.storing work content)
  /-- The walk begins at the first node. -/
  | first {work member : Address} {content : Work ρ β} (head : state.queueHead = some member) :
    AdderTurn state (.readHead work content) (.walking work content member)
  /-- The walk goes on. -/
  | next {work member after : Address} {content before : Work ρ β}
    (stored : state.heap member = some (before, some after)) :
    AdderTurn state (.walking work content member) (.walking work content after)
  /-- The walk ends at the last node. -/
  | last {work member : Address} {content before : Work ρ β}
    (stored : state.heap member = some (before, none)) :
    AdderTurn state (.walking work content member) (.linking work content member)

/-- The turns of a call of `tpool_destroy`. -/
inductive DestroyerTurn (state : State n α δ ρ β) :
    DestroyerPhase ρ β → DestroyerPhase ρ β → Prop where
  /-- The pool is already being shut down. -/
  | refuse (shut : state.shutdown = true) : DestroyerTurn state .testing .returned
  /-- The pool is open. -/
  | proceed (opened : state.shutdown = false) : DestroyerTurn state .testing .storing
  /-- All workers have been joined. -/
  | joined {index : ℕ} (last : n ≤ index) : DestroyerTurn state (.joining index) .freeThreads
  /-- The queue is empty. -/
  | empty (head : state.queueHead = none) : DestroyerTurn state .drainTest .destroyLocks
  /-- The queue is not empty. -/
  | more {node : Address} (head : state.queueHead = some node) :
    DestroyerTurn state .drainTest .drainMember
  /-- The first node is read. -/
  | member {node : Address} (head : state.queueHead = some node) :
    DestroyerTurn state .drainMember (.drainNext node)
  /-- The lock and the condition variable are destroyed. -/
  | locks : DestroyerTurn state .destroyLocks .freePool

variable [DecidableEq α] [DecidableEq δ]

/-- Everything a step can do. -/
inductive Moves (state : State n α δ ρ β) : Label n α δ ρ β → State n α δ ρ β → Prop where
  /-- A worker's turn. -/
  | workerTurn {label : Label n α δ ρ β} {index : Fin n} {phase : WorkerPhase ρ β}
    (actor : label.thread = .worker index)
    (turn : WorkerTurn state (state.worker index) phase) :
    Moves state label (state.workerAt index phase)
  /-- A worker takes the lock. -/
  | workerLock {index : Fin n}
    (place : state.worker index = .locking ∨ state.worker index = .woken)
    (free : state.owner = none) :
    Moves state (.worker index)
      { state.workerAt index .testHead with owner := some (.worker index) }
  /-- A worker releases the lock. -/
  | workerRelease {index : Fin n} {phase : WorkerPhase ρ β}
    (release : WorkerRelease (state.worker index) phase) :
    Moves state (.worker index) { state.workerAt index phase with owner := none }
  /-- A worker takes the first work. -/
  | popNext {index : Fin n} {work head : Address} {content : Work ρ β} {next : Option Address}
    (place : state.worker index = .popNext work) (front : state.queueHead = some head)
    (stored : state.heap head = some (content, next)) :
    Moves state (.worker index)
      { state.workerAt index (.unlocking work content) with
        queueHead := next
        taken := state.taken ++ [(index, content)] }
  /-- A worker frees its work. -/
  | free {index : Fin n} {work : Address} {content : Work ρ β}
    (place : state.worker index = .freeing work content) :
    Moves state (.worker index)
      { state.workerAt index .locking with
        heap := update state.heap work none
        finished := state.finished ++ [(index, content)] }
  /-- A call with a null routine. -/
  | addNull {caller : α} {arg : β} (place : state.adder caller = .idle) :
    Moves state (.add caller none arg) { state with answers := state.answers ++ [(none, -1)] }
  /-- A call. -/
  | add {caller : α} {routine : ρ} {arg : β} (place : state.adder caller = .idle) :
    Moves state (.add caller (some routine) arg)
      (state.adderAt caller (.allocating routine arg))
  /-- The allocation fails. -/
  | mallocFail {caller : α} {routine : ρ} {arg : β}
    (place : state.adder caller = .allocating routine arg) :
    Moves state (.malloc caller none)
      { state.adderAt caller .idle with answers := state.answers ++ [(none, -1)] }
  /-- A node is allocated and filled. -/
  | malloc {caller : α} {routine : ρ} {arg : β} {work : Address}
    (place : state.adder caller = .allocating routine arg) (fresh : state.heap work = none) :
    Moves state (.malloc caller (some work))
      { state.adderAt caller (.locking work ⟨state.serials, routine, arg⟩) with
        heap := update state.heap work (some (⟨state.serials, routine, arg⟩, none))
        serials := state.serials + 1 }
  /-- An adding thread's turn. -/
  | adderTurn {caller : α} {phase : AdderPhase ρ β}
    (turn : AdderTurn state (state.adder caller) phase) :
    Moves state (.adder caller) (state.adderAt caller phase)
  /-- An adding thread takes the lock. -/
  | adderLock {caller : α} {work : Address} {content : Work ρ β}
    (place : state.adder caller = .locking work content) (free : state.owner = none) :
    Moves state (.adder caller)
      { state.adderAt caller (.readHead work content) with owner := some (.adder caller) }
  /-- The node becomes the first of the queue. -/
  | storeHead {caller : α} {work : Address} {content : Work ρ β}
    (place : state.adder caller = .storing work content) :
    Moves state (.adder caller)
      { state.adderAt caller (.signalling content) with
        queueHead := some work
        accepted := state.accepted ++ [content] }
  /-- The node is linked behind the last one. -/
  | link {caller : α} {work member : Address} {content before : Work ρ β}
    {next : Option Address} (place : state.adder caller = .linking work content member)
    (stored : state.heap member = some (before, next)) :
    Moves state (.adder caller)
      { state.adderAt caller (.signalling content) with
        heap := update state.heap member (some (before, some work))
        accepted := state.accepted ++ [content] }
  /-- Some sleepers are woken, at least one if there are any. -/
  | signal {caller : α} {content : Work ρ β} {woken : Finset (Fin n)}
    (place : state.adder caller = .signalling content)
    (slept : ∀ index ∈ woken, (state.worker index).sleeps = true)
    (nobody : woken = ∅ → ∀ index, (state.worker index).sleeps = false) :
    Moves state (.signal caller woken)
      { state.adderAt caller (.unlocking content) with
        worker := fun index => if index ∈ woken then .woken else state.worker index }
  /-- An adding thread releases the lock and returns. -/
  | adderRelease {caller : α} {content : Work ρ β}
    (place : state.adder caller = .unlocking content) :
    Moves state (.adder caller)
      { state.adderAt caller .idle with
        owner := none
        answers := state.answers ++ [(some content, 0)] }
  /-- A call of `tpool_destroy`. -/
  | destroy {call : δ} (place : state.destroyer call = .idle) :
    Moves state (.destroy call) (state.destroyerAt call .testing)
  /-- A turn of a call of `tpool_destroy`. -/
  | destroyerTurn {call : δ} {phase : DestroyerPhase ρ β}
    (turn : DestroyerTurn state (state.destroyer call) phase) :
    Moves state (.destroyer call) (state.destroyerAt call phase)
  /-- The shutdown is announced. -/
  | storeShutdown {call : δ} (place : state.destroyer call = .storing) :
    Moves state (.destroyer call) { state.destroyerAt call .locking with shutdown := true }
  /-- A call of `tpool_destroy` takes the lock. -/
  | destroyerLock {call : δ} (place : state.destroyer call = .locking)
    (free : state.owner = none) :
    Moves state (.destroyer call)
      { state.destroyerAt call .broadcasting with owner := some (.destroyer call) }
  /-- All sleepers are woken. -/
  | broadcast {call : δ} (place : state.destroyer call = .broadcasting) :
    Moves state (.destroyer call)
      { state.destroyerAt call .unlocking with
        worker := fun index => (state.worker index).roused }
  /-- A call of `tpool_destroy` releases the lock. -/
  | destroyerRelease {call : δ} (place : state.destroyer call = .unlocking) :
    Moves state (.destroyer call) { state.destroyerAt call (.joining 0) with owner := none }
  /-- A worker is joined. -/
  | join {call : δ} {index : ℕ} (inside : index < n)
    (place : state.destroyer call = .joining index)
    (gone : (state.worker ⟨index, inside⟩).gone = true) :
    Moves state (.destroyer call)
      { state.destroyerAt call (.joining (index + 1)) with
        joined := state.joined ++ [⟨index, inside⟩] }
  /-- The thread array is freed. -/
  | freeThreads {call : δ} (place : state.destroyer call = .freeThreads) :
    Moves state (.destroyer call)
      { state.destroyerAt call .drainTest with threadFrees := state.threadFrees + 1 }
  /-- The first node is unlinked. -/
  | drainNext {call : δ} {member head : Address} {content : Work ρ β} {next : Option Address}
    (place : state.destroyer call = .drainNext member) (front : state.queueHead = some head)
    (stored : state.heap head = some (content, next)) :
    Moves state (.destroyer call)
      { state.destroyerAt call (.drainFree member content) with
        queueHead := next
        discarded := state.discarded ++ [content] }
  /-- The unlinked node is freed. -/
  | drainFree {call : δ} {member : Address} {content : Work ρ β}
    (place : state.destroyer call = .drainFree member content) :
    Moves state (.destroyer call)
      { state.destroyerAt call .drainTest with
        heap := update state.heap member none
        drained := state.drained ++ [content] }
  /-- The pool record is freed. -/
  | freePool {call : δ} (place : state.destroyer call = .freePool) :
    Moves state (.destroyer call)
      { state.destroyerAt call .returned with poolFrees := state.poolFrees + 1 }

variable {state next : State n α δ ρ β}

omit [DecidableEq α] [DecidableEq δ] in
/-- A turn of a worker that stands at the place where the turn begins. -/
theorem WorkerTurn.at {index : Fin n} {before after : WorkerPhase ρ β}
    (place : state.worker index = before) (turn : WorkerTurn state before after) :
    WorkerTurn state (state.worker index) after := place ▸ turn

/-- A step of a worker is one of the moves. -/
theorem threadRoutine_moves {index : Fin n}
    (stepped : threadRoutine state index = some next) : Moves state (.worker index) next := by
  simp only [threadRoutine] at stepped
  split at stepped
  · cases stepped
  · cases stepped
  · cases stepped
  · rename_i place
    split at stepped
    · rename_i free
      exact Option.some.inj stepped ▸ .workerLock (.inl place) free
    · cases stepped
  · rename_i place
    split at stepped
    · rename_i free
      exact Option.some.inj stepped ▸ .workerLock (.inr place) free
    · cases stepped
  · rename_i place
    split at stepped
    · rename_i head
      exact Option.some.inj stepped ▸ .workerTurn rfl ((WorkerTurn.empty head).at place)
    · rename_i head
      exact Option.some.inj stepped ▸ .workerTurn rfl ((WorkerTurn.ready head).at place)
  · rename_i place
    cases flag : state.shutdown with
    | false =>
      rw [flag] at stepped
      exact Option.some.inj stepped ▸ .workerTurn rfl ((WorkerTurn.wait flag).at place)
    | true =>
      rw [flag] at stepped
      exact Option.some.inj stepped ▸ .workerTurn rfl ((WorkerTurn.closed flag).at place)
  · rename_i place
    exact Option.some.inj stepped ▸ .workerRelease (place ▸ .sleep)
  · rename_i place
    cases flag : state.shutdown with
    | false =>
      rw [flag] at stepped
      exact Option.some.inj stepped ▸ .workerTurn rfl ((WorkerTurn.stay flag).at place)
    | true =>
      rw [flag] at stepped
      exact Option.some.inj stepped ▸ .workerTurn rfl ((WorkerTurn.leave flag).at place)
  · rename_i place
    exact Option.some.inj stepped ▸ .workerRelease (place ▸ .leave)
  · rename_i place
    split at stepped
    · cases stepped
    · rename_i head
      exact Option.some.inj stepped ▸ .workerTurn rfl ((WorkerTurn.popHead head).at place)
  · rename_i place
    split at stepped
    · cases stepped
    · rename_i front
      split at stepped
      · cases stepped
      · rename_i stored
        exact Option.some.inj stepped ▸ .popNext place front stored
  · rename_i place
    exact Option.some.inj stepped ▸ .workerRelease (place ▸ .run)
  · rename_i place
    exact Option.some.inj stepped ▸ .workerTurn rfl (WorkerTurn.run.at place)
  · rename_i place
    split at stepped
    · cases stepped
    · exact Option.some.inj stepped ▸ .free place

/-- A step inside `tpool_add_work` is one of the moves. -/
theorem tpoolAddWork_moves {caller : α}
    (stepped : tpoolAddWork state caller = some next) : Moves state (.adder caller) next := by
  simp only [tpoolAddWork] at stepped
  split at stepped
  · cases stepped
  · cases stepped
  · cases stepped
  · rename_i place
    split at stepped
    · rename_i free
      exact Option.some.inj stepped ▸ .adderLock place free
    · cases stepped
  · rename_i place
    split at stepped
    · rename_i head
      exact Option.some.inj stepped ▸ .adderTurn (place ▸ .empty head)
    · rename_i head
      exact Option.some.inj stepped ▸ .adderTurn (place ▸ .first head)
  · rename_i place
    exact Option.some.inj stepped ▸ .storeHead place
  · rename_i place
    split at stepped
    · cases stepped
    · rename_i stored
      exact Option.some.inj stepped ▸ .adderTurn (place ▸ .last stored)
    · rename_i stored
      exact Option.some.inj stepped ▸ .adderTurn (place ▸ .next stored)
  · rename_i place
    split at stepped
    · cases stepped
    · rename_i stored
      exact Option.some.inj stepped ▸ .link place stored
  · rename_i place
    exact Option.some.inj stepped ▸ .adderRelease place

/-- A step inside `tpool_destroy` is one of the moves. -/
theorem tpoolDestroy_moves {call : δ}
    (stepped : tpoolDestroy state call = some next) : Moves state (.destroyer call) next := by
  simp only [tpoolDestroy] at stepped
  split at stepped
  · cases stepped
  · cases stepped
  · rename_i place
    cases flag : state.shutdown with
    | false =>
      rw [flag] at stepped
      exact Option.some.inj stepped ▸ .destroyerTurn (place ▸ .proceed flag)
    | true =>
      rw [flag] at stepped
      exact Option.some.inj stepped ▸ .destroyerTurn (place ▸ .refuse flag)
  · rename_i place
    exact Option.some.inj stepped ▸ .storeShutdown place
  · rename_i place
    split at stepped
    · rename_i free
      exact Option.some.inj stepped ▸ .destroyerLock place free
    · cases stepped
  · rename_i place
    exact Option.some.inj stepped ▸ .broadcast place
  · rename_i place
    exact Option.some.inj stepped ▸ .destroyerRelease place
  · rename_i index place
    split at stepped
    · rename_i inside
      split at stepped
      · rename_i gone
        exact Option.some.inj stepped ▸ .join inside place gone
      · cases stepped
    · rename_i last
      exact Option.some.inj stepped ▸ .destroyerTurn (place ▸ .joined (Nat.le_of_not_lt last))
  · rename_i place
    exact Option.some.inj stepped ▸ .freeThreads place
  · rename_i place
    split at stepped
    · rename_i head
      exact Option.some.inj stepped ▸ .destroyerTurn (place ▸ .empty head)
    · rename_i head
      exact Option.some.inj stepped ▸ .destroyerTurn (place ▸ .more head)
  · rename_i place
    split at stepped
    · cases stepped
    · rename_i head
      exact Option.some.inj stepped ▸ .destroyerTurn (place ▸ .member head)
  · rename_i place
    split at stepped
    · cases stepped
    · rename_i front
      split at stepped
      · cases stepped
      · rename_i stored
        exact Option.some.inj stepped ▸ .drainNext place front stored
  · rename_i place
    split at stepped
    · cases stepped
    · exact Option.some.inj stepped ▸ .drainFree place
  · rename_i place
    exact Option.some.inj stepped ▸ .destroyerTurn (place ▸ .locks)
  · rename_i place
    exact Option.some.inj stepped ▸ .freePool place

/-- A step is one of the moves. -/
theorem step_moves {label : Label n α δ ρ β} (stepped : step state label = some next) :
    Moves state label next := by
  cases label with
  | spawn index =>
    simp only [step] at stepped
    split at stepped
    · rename_i place
      exact Option.some.inj stepped ▸ .workerTurn rfl (WorkerTurn.spawn.at place)
    · cases stepped
  | worker index => exact threadRoutine_moves stepped
  | wake index =>
    simp only [step] at stepped
    split at stepped
    · rename_i place
      exact Option.some.inj stepped ▸ .workerTurn rfl (WorkerTurn.wake.at place)
    · cases stepped
  | add caller routine arg =>
    simp only [step] at stepped
    split at stepped
    · rename_i place
      exact Option.some.inj stepped ▸ .addNull place
    · rename_i place
      exact Option.some.inj stepped ▸ .add place
    · cases stepped
  | malloc caller block =>
    simp only [step] at stepped
    split at stepped
    · rename_i place
      exact Option.some.inj stepped ▸ .mallocFail place
    · rename_i place
      split at stepped
      · cases stepped
      · rename_i fresh
        exact Option.some.inj stepped ▸ .malloc place fresh
    · cases stepped
  | adder caller => exact tpoolAddWork_moves stepped
  | signal caller woken =>
    simp only [step] at stepped
    split at stepped
    · rename_i place
      split at stepped
      · rename_i woke
        exact Option.some.inj stepped ▸ .signal place woke.1 woke.2
      · cases stepped
    · cases stepped
  | destroy call =>
    simp only [step] at stepped
    split at stepped
    · rename_i place
      exact Option.some.inj stepped ▸ .destroy place
    · cases stepped
  | destroyer call => exact tpoolDestroy_moves stepped

end SysServer.Threadpool
