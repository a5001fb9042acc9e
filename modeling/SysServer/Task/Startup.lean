import SysServer.Task.Pipeline

/-!
# The startup of the server

`task_init` starts the allocator and the scheduler, and only then `do_system_server` creates the
pool and adds the first works, so the allocator runs while the pool does not exist. What keeps it
from the pool is a chain: it calls `tpool_add_work` only after it has seen a pending node, only
`event_serial` adds pending nodes, it runs on a worker of the pool, and `tpool_create` creates the
workers last (`Founded`).

The threads of the task pipeline take the steps of that machine, each from the moment it exists;
both lists are set up before any of them does, and the bytes that the allocator reads are only
logged, so their number is enough. The pool is its queue of works, what `tpool_create` has
initialised so far, and the place of each worker. Nothing in the repository writes `running`, so
the loops on it do not end.
-/

namespace SysServer.Startup

open Library Function

/-- What the server is compiled with. -/
structure Build where
  /-- `__BLUETOOTH__`. -/
  bluetooth : Bool
  /-- `__SERIAL__`. -/
  serial : Bool
  /-- `__ETHERNET__`. -/
  ethernet : Bool

/-- The build of `sys_server.h`. -/
def Build.sysServer : Build := ⟨false, true, true⟩

/-- The routines that are given to `tpool_add_work`. `event_deal` is not one of them: its only
user is `event_ethernet_deal`, which nothing calls. -/
inductive Routine where
  /-- `event_bluetooth`. -/
  | eventBluetooth
  /-- `event_serial`. -/
  | eventSerial
  /-- `event_ethernet`. -/
  | eventEthernet
  /-- `serial_write`. -/
  | serialWrite
  /-- `task_allocte_resources`. -/
  | taskAllocteResources
  deriving DecidableEq

/-- `event_trigger` — the works that it adds, in order. -/
def eventTrigger (build : Build) : List Routine :=
  (if build.bluetooth then [.eventBluetooth] else []) ++
    (if build.serial then [.eventSerial] else []) ++
    if build.ethernet then [.eventEthernet] else []

/-- What `tpool_create` has initialised. -/
structure PoolInit where
  /-- `tpool` points to a record. -/
  allocated : Bool
  /-- `shutdown` and `queue_head`. -/
  queue : Bool
  /-- `queue_lock`. -/
  lock : Bool
  /-- `queue_ready`. -/
  cond : Bool
  deriving DecidableEq

/-- The pool can be used. -/
def PoolInit.ready (pool : PoolInit) : Bool :=
  pool.allocated && pool.queue && pool.lock && pool.cond

/-- Where the main thread stands, from `task_init` on. -/
inductive MainPhase where
  /-- In `task_init`, at `malloc`. -/
  | taskMalloc
  /-- At `inface_fifo_init`. -/
  | fifoInit
  /-- At `task_pending_init`. -/
  | pendingInit
  /-- At `task_sched_list_init`, with the locks and semaphores of both lists. -/
  | schedInit
  /-- At `pthread_create` of `task_allocate`. -/
  | createAllocate
  /-- At `pthread_create` of `task_schedule`. -/
  | createSchedule
  /-- In `tpool_create`, at `calloc` of the record. -/
  | poolCalloc
  /-- At `shutdown` and `queue_head`. -/
  | poolFields
  /-- At `pthread_mutex_init`. -/
  | lockInit
  /-- At `pthread_cond_init`. -/
  | condInit
  /-- At `calloc` of the thread array. -/
  | threadCalloc
  /-- At `pthread_create` of a worker, or past the last. -/
  | createWorker (index : ℕ)
  /-- In `event_trigger`, with the works still to be added. -/
  | triggering (rest : List Routine)
  /-- In the loop of `do_system_server`. -/
  | serving
  /-- In `exit`, while the other threads may still run. -/
  | exiting
  deriving DecidableEq

/-- Where a worker of the pool stands. -/
inductive WorkerPhase where
  /-- Not yet created. -/
  | unborn
  /-- In `thread_routine`, without a work. -/
  | waiting
  /-- In `event_bluetooth`. -/
  | bluetooth
  /-- In `event_ethernet`. -/
  | ethernet
  /-- In `event_serial`, at `evop_start`. -/
  | serialStart
  /-- In `event_serial`, at `tpool_add_work`. -/
  | serialAdd (started : Bool)
  /-- In the loop of `event_serial`. -/
  | serialLoop
  /-- At the end of `event_serial`, as the serial line did not start. -/
  | serialEnd
  /-- In `serial_write`. -/
  | serialWrite
  /-- In `task_allocte_resources`. -/
  | allocte
  deriving DecidableEq

/-- Where a worker begins a routine. -/
def Routine.begin : Routine → WorkerPhase
  | .eventBluetooth => .bluetooth
  | .eventSerial => .serialStart
  | .eventEthernet => .ethernet
  | .serialWrite => .serialWrite
  | .taskAllocteResources => .allocte

/-- The server during its startup and afterwards. -/
structure State (n : ℕ) where
  /-- The main thread. -/
  main : MainPhase
  /-- The thread of `task_allocate` exists. -/
  allocator : Bool
  /-- The thread of `task_schedule` exists. -/
  scheduler : Bool
  /-- The task pipeline. -/
  tasks : Pipeline.State (Fin n)
  /-- The pool record. -/
  pool : PoolInit
  /-- The works queued in the pool. -/
  queue : List Routine
  /-- The workers of the pool. -/
  worker : Fin n → WorkerPhase
  /-- The calls of `tpool_add_work` in order, each with the pool it found. No step reads them. -/
  adds : List (Routine × PoolInit)

/-- A step of a thread, with what the system answers. -/
inductive Label (n : ℕ) where
  /-- The main thread's next step. -/
  | main (ok : Bool)
  /-- A worker takes the first work. -/
  | take (index : Fin n)
  /-- `evop_start`. -/
  | serialStart (index : Fin n) (ok : Bool)
  /-- `tpool_add_work` in `event_serial`. -/
  | serialAdd (index : Fin n) (ok : Bool)
  /-- A step in the loop of `event_serial`. -/
  | serial (index : Fin n) (inner : Pipeline.Label (Fin n))
  /-- A routine returns. -/
  | finish (index : Fin n)
  /-- `tpool_add_work` in `task_allocate`. -/
  | dispatch (ok : Bool)
  /-- Any other step of the task pipeline, or of another process. -/
  | task (inner : Pipeline.Label (Fin n))

variable {n : ℕ}

/-- The server when the main thread enters `task_init`. -/
def State.start : State n where
  main := .taskMalloc
  allocator := false
  scheduler := false
  tasks := .start
  pool := ⟨false, false, false, false⟩
  queue := []
  worker := fun _ => .unborn
  adds := []

/-- `tpool_add_work`, whose `malloc` may fail. -/
def tpoolAddWork (state : State n) (routine : Routine) (ok : Bool) : State n :=
  { state with
    queue := if ok then state.queue ++ [routine] else state.queue
    adds := state.adds ++ [(routine, state.pool)] }

/-- `task_init`, `tpool_create` and `event_trigger` — the main thread's next step. In `task_init` a
failure of `pthread_create` goes unnoticed, as its result is only tested for being negative. -/
def mainStep (build : Build) (state : State n) (ok : Bool) : Option (State n) :=
  match state.main with
  | .taskMalloc => some { state with main := if ok then .fifoInit else .exiting }
  | .fifoInit => some { state with main := if ok then .pendingInit else .exiting }
  | .pendingInit => some { state with main := .schedInit }
  | .schedInit => some { state with main := if ok then .createAllocate else .exiting }
  | .createAllocate => some { state with main := .createSchedule, allocator := ok }
  | .createSchedule => some { state with main := .poolCalloc, scheduler := ok }
  | .poolCalloc =>
    if ok then
      some { state with main := .poolFields, pool := { state.pool with allocated := true } }
    else some { state with main := .exiting }
  | .poolFields =>
    some { state with main := .lockInit, pool := { state.pool with queue := true }, queue := [] }
  | .lockInit =>
    if ok then some { state with main := .condInit, pool := { state.pool with lock := true } }
    else some { state with main := .exiting }
  | .condInit =>
    if ok then some { state with main := .threadCalloc, pool := { state.pool with cond := true } }
    else some { state with main := .exiting }
  | .threadCalloc => some { state with main := if ok then .createWorker 0 else .exiting }
  | .createWorker index =>
    if inside : index < n then
      if ok then
        some { state with
          main := .createWorker (index + 1)
          worker := update state.worker ⟨index, inside⟩ .waiting }
      else some { state with main := .exiting }
    else some { state with main := .triggering (eventTrigger build) }
  | .triggering [] => some { state with main := .serving }
  | .triggering (routine :: rest) =>
    some { tpoolAddWork state routine ok with main := .triggering rest }
  | .serving => some state
  | .exiting => none

/-- The step is one of the loop of `event_serial`. -/
def isSerial : Pipeline.Label (Fin n) → Bool
  | .serialRead _ | .serialMalloc _ | .pendingAdd | .trigger _ => true
  | _ => false

/-- The worker is in `task_allocte_resources`. -/
def WorkerPhase.alloctes : WorkerPhase → Bool
  | .allocte => true
  | _ => false

/-- The thread that takes the step of the pipeline exists and is in the routine that takes it. -/
def State.runs (state : State n) : Pipeline.Label (Fin n) → Bool
  | .stray _ => true
  | .fifoRead _ | .testPending => state.allocator
  | .taskMalloc index _ | .acquire index | .schedule (.waitEmpty index)
  | .schedule (.insert index) | .schedule (.postFull index) => (state.worker index).alloctes
  | .schedule _ | .excute | .recycle => state.scheduler
  | _ => false

/-- The routine of the worker may return. `event_bluetooth` and `serial_write` return when their
flag is cleared, and `event_ethernet` when it has started its thread. -/
def State.mayReturn (state : State n) (index : Fin n) : Bool :=
  match state.worker index with
  | .bluetooth | .ethernet | .serialWrite | .serialEnd => true
  | .serialLoop => state.tasks.producer = .stopped
  | .allocte =>
    match state.tasks.job index, state.tasks.schedule.adder index with
    | .idle, .outside => true
    | _, _ => false
  | _ => false

/-- One step. -/
def step (build : Build) (state : State n) : Label n → Option (State n)
  | .main ok => mainStep build state ok
  | .take index =>
    match state.worker index, state.queue with
    | .waiting, .taskAllocteResources :: rest =>
      (Pipeline.step state.tasks (.takeJob index)).map fun tasks =>
        { state with tasks, queue := rest, worker := update state.worker index .allocte }
    | .waiting, routine :: rest =>
      some { state with queue := rest, worker := update state.worker index routine.begin }
    | _, _ => none
  | .serialStart index ok =>
    match state.worker index with
    | .serialStart => some { state with worker := update state.worker index (.serialAdd ok) }
    | _ => none
  | .serialAdd index ok =>
    match state.worker index with
    | .serialAdd started =>
      some { tpoolAddWork state .serialWrite ok with
        worker := update state.worker index (if started then .serialLoop else .serialEnd) }
    | _ => none
  | .serial index inner =>
    if state.worker index = .serialLoop ∧ isSerial inner = true then
      (Pipeline.step state.tasks inner).map fun tasks => { state with tasks }
    else none
  | .finish index =>
    if state.mayReturn index then
      some { state with worker := update state.worker index .waiting }
    else none
  | .dispatch ok =>
    if state.allocator then
      (Pipeline.step state.tasks (.dispatch ok)).map fun tasks =>
        { tpoolAddWork state .taskAllocteResources ok with tasks }
    else none
  | .task inner =>
    if state.runs inner then
      (Pipeline.step state.tasks inner).map fun tasks => { state with tasks }
    else none

/-- The server from `task_init` on. -/
def machine (build : Build) : Machine (State n) (Label n) where
  initial state := state = .start
  step := step build

/-! ## What a step can do -/

/-- The steps of the main thread that only move it. -/
inductive MainTurn (n : ℕ) (build : Build) : MainPhase → MainPhase → Prop where
  /-- Something fails. -/
  | fail {phase : MainPhase} : MainTurn n build phase .exiting
  /-- The manager is allocated. -/
  | taskMalloc : MainTurn n build .taskMalloc .fifoInit
  /-- The FIFO is open. -/
  | fifoInit : MainTurn n build .fifoInit .pendingInit
  /-- The pending list is empty. -/
  | pendingInit : MainTurn n build .pendingInit .schedInit
  /-- The schedule list is empty. -/
  | schedInit : MainTurn n build .schedInit .createAllocate
  /-- The thread array is allocated. -/
  | threadCalloc : MainTurn n build .threadCalloc (.createWorker 0)
  /-- All workers are created. -/
  | created {index : ℕ} (last : n ≤ index) :
    MainTurn n build (.createWorker index) (.triggering (eventTrigger build))
  /-- All works are added. -/
  | triggered : MainTurn n build (.triggering []) .serving
  /-- The server sleeps. -/
  | serve : MainTurn n build .serving .serving

/-- Everything a step can do. -/
inductive Moves (build : Build) (state : State n) : Label n → State n → Prop where
  /-- A turn of the main thread. -/
  | mainTurn {ok : Bool} {phase : MainPhase} (turn : MainTurn n build state.main phase) :
    Moves build state (.main ok) { state with main := phase }
  /-- The allocator is created, or not. -/
  | createAllocate {ok : Bool} (place : state.main = .createAllocate) :
    Moves build state (.main ok) { state with main := .createSchedule, allocator := ok }
  /-- The scheduler is created, or not. -/
  | createSchedule {ok : Bool} (place : state.main = .createSchedule) :
    Moves build state (.main ok) { state with main := .poolCalloc, scheduler := ok }
  /-- The pool record is allocated. -/
  | poolCalloc (place : state.main = .poolCalloc) :
    Moves build state (.main true)
      { state with main := .poolFields, pool := { state.pool with allocated := true } }
  /-- The queue is empty and open. -/
  | poolFields {ok : Bool} (place : state.main = .poolFields) :
    Moves build state (.main ok)
      { state with main := .lockInit, pool := { state.pool with queue := true }, queue := [] }
  /-- The lock is initialised. -/
  | lockInit (place : state.main = .lockInit) :
    Moves build state (.main true)
      { state with main := .condInit, pool := { state.pool with lock := true } }
  /-- The condition variable is initialised. -/
  | condInit (place : state.main = .condInit) :
    Moves build state (.main true)
      { state with main := .threadCalloc, pool := { state.pool with cond := true } }
  /-- A worker is created. -/
  | createWorker {index : Fin n} (place : state.main = .createWorker index) :
    Moves build state (.main true)
      { state with
        main := .createWorker (index + 1)
        worker := update state.worker index .waiting }
  /-- The main thread adds a work. -/
  | trigger {ok : Bool} {routine : Routine} {rest : List Routine}
    (place : state.main = .triggering (routine :: rest)) :
    Moves build state (.main ok)
      { tpoolAddWork state routine ok with main := .triggering rest }
  /-- A worker takes a job of the pipeline. -/
  | takeJob {index : Fin n} {rest : List Routine} {tasks : Pipeline.State (Fin n)}
    (place : state.worker index = .waiting) (front : state.queue = .taskAllocteResources :: rest)
    (inner : Pipeline.step state.tasks (.takeJob index) = some tasks) :
    Moves build state (.take index)
      { state with tasks, queue := rest, worker := update state.worker index .allocte }
  /-- A worker takes another work. -/
  | take {index : Fin n} {routine : Routine} {rest : List Routine}
    (place : state.worker index = .waiting) (front : state.queue = routine :: rest)
    (other : routine ≠ .taskAllocteResources) :
    Moves build state (.take index)
      { state with queue := rest, worker := update state.worker index routine.begin }
  /-- The serial line starts, or not. -/
  | serialStart {index : Fin n} {ok : Bool} (place : state.worker index = .serialStart) :
    Moves build state (.serialStart index ok)
      { state with worker := update state.worker index (.serialAdd ok) }
  /-- `event_serial` adds its work. -/
  | serialAdd {index : Fin n} {ok started : Bool}
    (place : state.worker index = .serialAdd started) :
    Moves build state (.serialAdd index ok)
      { tpoolAddWork state .serialWrite ok with
        worker := update state.worker index (if started then .serialLoop else .serialEnd) }
  /-- `event_serial` moves in its loop. -/
  | serial {index : Fin n} {inner : Pipeline.Label (Fin n)} {tasks : Pipeline.State (Fin n)}
    (place : state.worker index = .serialLoop) (kind : isSerial inner = true)
    (moves : Pipeline.step state.tasks inner = some tasks) :
    Moves build state (.serial index inner) { state with tasks }
  /-- A routine returns. -/
  | finish {index : Fin n} (ended : state.mayReturn index = true) :
    Moves build state (.finish index)
      { state with worker := update state.worker index .waiting }
  /-- The allocator adds a job. -/
  | dispatch {ok : Bool} {tasks : Pipeline.State (Fin n)}
    (inner : Pipeline.step state.tasks (.dispatch ok) = some tasks) :
    Moves build state (.dispatch ok)
      { tpoolAddWork state .taskAllocteResources ok with tasks }
  /-- The pipeline moves otherwise. -/
  | task {inner : Pipeline.Label (Fin n)} {tasks : Pipeline.State (Fin n)}
    (runs : state.runs inner = true) (moves : Pipeline.step state.tasks inner = some tasks) :
    Moves build state (.task inner) { state with tasks }

variable {build : Build} {state next : State n} {label : Label n}

/-- A turn of the main thread from where it stands. -/
theorem MainTurn.at {before after : MainPhase} (place : state.main = before)
    (turn : MainTurn n build before after) : MainTurn n build state.main after := place ▸ turn

/-- A step of the main thread is one of the moves. -/
theorem mainStep_moves {ok : Bool} (stepped : mainStep build state ok = some next) :
    Moves build state (.main ok) next := by
  simp only [mainStep] at stepped
  split at stepped
  · rename_i place
    cases ok with
    | true => exact Option.some.inj stepped ▸ .mainTurn (MainTurn.taskMalloc.at place)
    | false => exact Option.some.inj stepped ▸ .mainTurn .fail
  · rename_i place
    cases ok with
    | true => exact Option.some.inj stepped ▸ .mainTurn (MainTurn.fifoInit.at place)
    | false => exact Option.some.inj stepped ▸ .mainTurn .fail
  · rename_i place
    exact Option.some.inj stepped ▸ .mainTurn (MainTurn.pendingInit.at place)
  · rename_i place
    cases ok with
    | true => exact Option.some.inj stepped ▸ .mainTurn (MainTurn.schedInit.at place)
    | false => exact Option.some.inj stepped ▸ .mainTurn .fail
  · rename_i place
    exact Option.some.inj stepped ▸ .createAllocate place
  · rename_i place
    exact Option.some.inj stepped ▸ .createSchedule place
  · rename_i place
    cases ok with
    | true => exact Option.some.inj stepped ▸ .poolCalloc place
    | false => exact Option.some.inj stepped ▸ .mainTurn .fail
  · rename_i place
    exact Option.some.inj stepped ▸ .poolFields place
  · rename_i place
    cases ok with
    | true => exact Option.some.inj stepped ▸ .lockInit place
    | false => exact Option.some.inj stepped ▸ .mainTurn .fail
  · rename_i place
    cases ok with
    | true => exact Option.some.inj stepped ▸ .condInit place
    | false => exact Option.some.inj stepped ▸ .mainTurn .fail
  · rename_i place
    cases ok with
    | true => exact Option.some.inj stepped ▸ .mainTurn (MainTurn.threadCalloc.at place)
    | false => exact Option.some.inj stepped ▸ .mainTurn .fail
  · rename_i index place
    split at stepped
    · rename_i inside
      cases ok with
      | true =>
        exact Option.some.inj stepped ▸ @Moves.createWorker n build state ⟨index, inside⟩ place
      | false => exact Option.some.inj stepped ▸ .mainTurn .fail
    · rename_i last
      have past : n ≤ index := Nat.le_of_not_lt last
      exact Option.some.inj stepped ▸ .mainTurn ((MainTurn.created past).at place)
  · rename_i place
    exact Option.some.inj stepped ▸ .mainTurn (MainTurn.triggered.at place)
  · rename_i place
    exact Option.some.inj stepped ▸ .trigger place
  · rename_i place
    have stays : { state with main := .serving } = state := by rw [← place]
    have turned : Moves build state (.main ok) { state with main := .serving } :=
      .mainTurn (MainTurn.serve.at place)
    rw [stays] at turned
    exact Option.some.inj stepped ▸ turned
  · cases stepped

/-- A step is one of the moves. -/
theorem step_moves (stepped : step build state label = some next) :
    Moves build state label next := by
  cases label with
  | main ok => exact mainStep_moves stepped
  | take index =>
    simp only [step] at stepped
    split at stepped
    · rename_i place front
      obtain ⟨tasks, inner, rfl⟩ := Option.map_eq_some_iff.mp stepped
      exact .takeJob place front inner
    · rename_i other place front
      exact Option.some.inj stepped ▸ .take place front other
    · cases stepped
  | serialStart index ok =>
    simp only [step] at stepped
    split at stepped
    · rename_i place
      exact Option.some.inj stepped ▸ .serialStart place
    · cases stepped
  | serialAdd index ok =>
    simp only [step] at stepped
    split at stepped
    · rename_i place
      exact Option.some.inj stepped ▸ .serialAdd place
    · cases stepped
  | serial index inner =>
    simp only [step] at stepped
    split at stepped
    · rename_i place
      obtain ⟨tasks, moves, rfl⟩ := Option.map_eq_some_iff.mp stepped
      exact .serial place.1 place.2 moves
    · cases stepped
  | finish index =>
    simp only [step] at stepped
    split at stepped
    · rename_i ended
      exact Option.some.inj stepped ▸ .finish ended
    · cases stepped
  | dispatch ok =>
    simp only [step] at stepped
    split at stepped
    · obtain ⟨tasks, inner, rfl⟩ := Option.map_eq_some_iff.mp stepped
      exact .dispatch inner
    · cases stepped
  | task inner =>
    simp only [step] at stepped
    split at stepped
    · rename_i runs
      obtain ⟨tasks, moves, rfl⟩ := Option.map_eq_some_iff.mp stepped
      exact .task runs moves
    · cases stepped

/-! ## The pipeline -/

/-- The threads of the pipeline take its steps, and no other thread does. -/
theorem follows_pipeline (build : Build) :
    Machine.Follows (machine build) (Pipeline.machine (ω := Fin n)) State.tasks where
  initial := by
    rintro _ rfl
    rfl
  step state label next stepped := by
    have moves : Moves build state label next := step_moves stepped
    cases moves with
    | @takeJob index rest tasks place front inner => exact .inr ⟨.takeJob index, inner⟩
    | @serial index inner tasks place kind moves => exact .inr ⟨inner, moves⟩
    | @dispatch ok tasks inner => exact .inr ⟨.dispatch ok, inner⟩
    | @task inner tasks runs moves => exact .inr ⟨inner, moves⟩
    | _ => exact .inl rfl

/-- The steps of `event_serial` are taken by its worker only. -/
theorem isSerial_of_runs {inner : Pipeline.Label (Fin n)} (runs : state.runs inner = true) :
    isSerial inner = false := by
  cases inner <;> first | rfl | cases runs

/-- The pending list gets its first node from `event_serial`. -/
theorem pending_moves {tasks after : Pipeline.State (Fin n)} {inner : Pipeline.Label (Fin n)}
    (moves : Pipeline.Moves tasks inner after) (filled : after.pending ≠ []) :
    tasks.pending ≠ [] ∨ isSerial inner = true := by
  cases moves with
  | pendingAdd place => exact .inr rfl
  | acquire place front inner =>
    rw [front]
    exact .inl (List.cons_ne_nil _ _)
  | _ => exact .inl filled

/-- The allocator gets to `tpool_add_work` by seeing a pending node. -/
theorem dispatching_moves {tasks after : Pipeline.State (Fin n)}
    {inner : Pipeline.Label (Fin n)} (moves : Pipeline.Moves tasks inner after)
    (dispatches : after.allocator = .dispatching) :
    tasks.allocator = .dispatching ∨ tasks.pending ≠ [] := by
  cases moves with
  | testPending place =>
    refine .inr fun empty => ?_
    rw [if_pos empty] at dispatches
    cases dispatches
  | fifoFail place => cases dispatches
  | fifoRead place some_bytes limit available => cases dispatches
  | dispatch place => cases dispatches
  | _ => exact .inl dispatches

/-- The allocator calls `tpool_add_work` where it has seen a pending node. -/
theorem dispatch_place {tasks after : Pipeline.State (Fin n)} {ok : Bool}
    (stepped : Pipeline.step tasks (.dispatch ok) = some after) :
    tasks.allocator = .dispatching := by
  have moves := Pipeline.step_moves stepped
  cases moves with
  | dispatch place => exact place

/-! ## The chain that leads to the pool -/

/-- What `tpool_create` has initialised when the main thread stands at a place. -/
def MainPhase.pool : MainPhase → Option PoolInit
  | .poolFields => some ⟨true, false, false, false⟩
  | .lockInit => some ⟨true, true, false, false⟩
  | .condInit => some ⟨true, true, true, false⟩
  | .threadCalloc | .createWorker _ | .triggering _ | .serving => some ⟨true, true, true, true⟩
  | .exiting => none
  | _ => some ⟨false, false, false, false⟩

/-- Whatever can lead to a use of the pool has it initialised. -/
structure Founded (state : State n) : Prop where
  /-- The main thread initialises the pool in order. -/
  main : ∀ pool, state.main.pool = some pool → state.pool = pool
  /-- The workers are created last. -/
  worker : ∀ index, state.worker index ≠ .unborn → state.pool.ready = true
  /-- The works are queued in the pool. -/
  queue : state.queue ≠ [] → state.pool.ready = true
  /-- The pending nodes come from a worker. -/
  pending : state.tasks.pending ≠ [] → state.pool.ready = true
  /-- The allocator has seen one. -/
  allocator : state.tasks.allocator = .dispatching → state.pool.ready = true
  /-- Every call of `tpool_add_work` has found the pool initialised. -/
  adds : ∀ add ∈ state.adds, add.2.ready = true

namespace Founded

/-- A turn of the main thread initialises nothing. -/
theorem turn {before after : MainPhase} (turn : MainTurn n build before after) {pool : PoolInit}
    (place : after.pool = some pool) : before.pool = some pool := by
  cases turn with
  | fail => cases place
  | _ => exact place

/-- The main thread goes on to a place that stands on nothing new. -/
theorem advance {phase : MainPhase} (founded : Founded state)
    (kept : ∀ pool, phase.pool = some pool → state.main.pool = some pool) :
    Founded { state with main := phase } :=
  ⟨fun pool place => founded.main pool (kept pool place), founded.worker, founded.queue,
    founded.pending, founded.allocator, founded.adds⟩

/-- A worker of an initialised pool moves. -/
theorem move (founded : Founded state) (index : Fin n) (phase : WorkerPhase)
    (ready : state.pool.ready = true) :
    Founded { state with worker := update state.worker index phase } :=
  ⟨founded.main, fun _ _ => ready, founded.queue, founded.pending, founded.allocator,
    founded.adds⟩

/-- The queue of an initialised pool changes. -/
theorem requeue (founded : Founded state) (queue : List Routine)
    (ready : state.pool.ready = true) : Founded { state with queue } :=
  ⟨founded.main, founded.worker, fun _ => ready, founded.pending, founded.allocator, founded.adds⟩

/-- The threads of the pipeline are created. -/
theorem record {allocator scheduler : Bool} (founded : Founded state) :
    Founded { state with allocator, scheduler } :=
  ⟨founded.main, founded.worker, founded.queue, founded.pending, founded.allocator, founded.adds⟩

/-- A call of `tpool_add_work` that finds the pool initialised. -/
theorem add {routine : Routine} {ok : Bool} (founded : Founded state)
    (ready : state.pool.ready = true) : Founded (tpoolAddWork state routine ok) := by
  refine ⟨founded.main, founded.worker, fun _ => ready, founded.pending, founded.allocator, ?_⟩
  intro add inside
  rcases List.mem_append.mp inside with before | now
  · exact founded.adds add before
  · rw [List.mem_singleton.mp now]
    exact ready

/-- A step of the pipeline whose pending nodes come from a worker. -/
theorem tasks {tasks : Pipeline.State (Fin n)} {inner : Pipeline.Label (Fin n)}
    (founded : Founded state) (moves : Pipeline.Moves state.tasks inner tasks)
    (source : isSerial inner = true → state.pool.ready = true) :
    Founded { state with tasks } := by
  refine ⟨founded.main, founded.worker, founded.queue, fun filled => ?_, fun dispatches => ?_,
    founded.adds⟩
  · rcases pending_moves moves filled with before | serial
    · exact founded.pending before
    · exact source serial
  · rcases dispatching_moves moves dispatches with before | seen
    · exact founded.allocator before
    · exact founded.pending seen

/-- `tpool_create` initialises a part of the pool, which nothing uses yet. -/
theorem init {phase : MainPhase} {before after : PoolInit} (founded : Founded state)
    (place : state.main.pool = some before) (unready : before.ready = false)
    (stands : state.pool = before → phase.pool = some after) :
    Founded { state with main := phase, pool := after } := by
  have same := founded.main before place
  have unused : state.pool.ready ≠ true := by simp [same, unready]
  refine ⟨fun pool expected => Option.some.inj ((stands same).symm.trans expected), ?_, ?_, ?_, ?_,
    ?_⟩
  · exact fun index born => absurd (founded.worker index born) unused
  · exact fun filled => absurd (founded.queue filled) unused
  · exact fun filled => absurd (founded.pending filled) unused
  · exact fun dispatches => absurd (founded.allocator dispatches) unused
  · exact founded.adds

/-- Where the main thread has initialised the pool. -/
theorem ready (founded : Founded state)
    (place : state.main.pool = some ⟨true, true, true, true⟩) : state.pool.ready = true := by
  rw [founded.main _ place]
  rfl

/-- Every step keeps the chain. -/
theorem moves (founded : Founded state) (moves : Moves build state label next) :
    Founded next := by
  cases moves with
  | mainTurn turn => exact founded.advance fun _ place => Founded.turn turn place
  | createAllocate place => exact (founded.advance fun _ same => by rw [place]; exact same).record
  | createSchedule place => exact (founded.advance fun _ same => by rw [place]; exact same).record
  | poolCalloc place =>
    exact founded.init (by rw [place]; rfl) rfl fun same => by rw [same]; rfl
  | poolFields place =>
    have set : Founded
        { state with main := .lockInit, pool := { state.pool with queue := true } } :=
      founded.init (by rw [place]; rfl) rfl fun same => by rw [same]; rfl
    exact ⟨set.main, set.worker, fun filled => absurd rfl filled, set.pending, set.allocator,
      set.adds⟩
  | lockInit place =>
    exact founded.init (by rw [place]; rfl) rfl fun same => by rw [same]; rfl
  | condInit place =>
    exact founded.init (by rw [place]; rfl) rfl fun same => by rw [same]; rfl
  | @createWorker index place =>
    have ready := founded.ready (by rw [place]; rfl)
    have born := founded.move index .waiting ready
    exact born.advance fun _ same => by rw [place]; exact same
  | @trigger ok routine rest place =>
    have added : Founded (tpoolAddWork state routine ok) :=
      founded.add (founded.ready (by rw [place]; rfl))
    refine added.advance fun pool same => ?_
    change state.main.pool = some pool
    rw [place]
    exact same
  | @takeJob index rest tasks place front inner =>
    have ready := founded.worker index (by simp [place])
    have worked := founded.tasks (Pipeline.step_moves inner) fun _ => ready
    exact (worked.requeue rest ready).move index .allocte ready
  | @take index routine rest place front other =>
    have ready := founded.worker index (by simp [place])
    exact (founded.requeue rest ready).move index routine.begin ready
  | @serialStart index ok place =>
    exact founded.move index (.serialAdd ok) (founded.worker index (by simp [place]))
  | @serialAdd index ok started place =>
    have ready := founded.worker index (by simp [place])
    have added : Founded (tpoolAddWork state .serialWrite ok) := founded.add ready
    exact added.move index _ ready
  | @serial index inner tasks place kind moves =>
    have ready := founded.worker index (by simp [place])
    exact founded.tasks (Pipeline.step_moves moves) fun _ => ready
  | @finish index ended =>
    have born : state.worker index ≠ .unborn := by
      intro unborn
      simp [State.mayReturn, unborn] at ended
    exact founded.move index .waiting (founded.worker index born)
  | @dispatch ok tasks inner =>
    have ready := founded.allocator (dispatch_place inner)
    have added : Founded (tpoolAddWork state .taskAllocteResources ok) := founded.add ready
    exact added.tasks (Pipeline.step_moves inner) fun _ => ready
  | @task inner tasks runs moves =>
    refine founded.tasks (Pipeline.step_moves moves) fun serial => ?_
    simp [isSerial_of_runs runs] at serial

/-- Nothing leads to the pool when the main thread enters `task_init`. -/
theorem start : Founded (State.start : State n) where
  main pool expected := Option.some.inj expected
  worker index born := absurd rfl born
  queue filled := absurd rfl filled
  pending filled := absurd rfl filled
  allocator dispatches := by cases dispatches
  adds add inside := by cases inside

end Founded

/-! ## The jobs in the pool -/

/-- How many workers have been created when the main thread stands at a place that can still
create some. -/
def MainPhase.created : MainPhase → Option ℕ
  | .createWorker index => some index
  | .triggering _ | .serving | .exiting => none
  | _ => some 0

/-- The pool has as many jobs queued as the pipeline counts, and a worker outside
`task_allocte_resources` takes no step of the pipeline. -/
structure Fits (state : State n) : Prop where
  /-- The queue. -/
  queued : state.tasks.queued = state.queue.count .taskAllocteResources
  /-- The workers. -/
  jobs : ∀ index, state.worker index ≠ .allocte →
    state.tasks.job index = .idle ∧ state.tasks.schedule.adder index = .outside
  /-- The main thread adds no job. -/
  main : ∀ rest, state.main = .triggering rest → .taskAllocteResources ∉ rest
  /-- The main thread creates a worker once. -/
  unborn : ∀ count, state.main.created = some count → ∀ index, count ≤ index.val →
    state.worker index = .unborn

/-- A worker outside `task_schedule_add` stays there until it calls it. -/
theorem outside_moves {index : Fin n} {schedule after : Schedule.State (Fin n) Pipeline.TaskNode}
    {inner : Schedule.Label (Fin n) Pipeline.TaskNode}
    (moves : Schedule.Moves schedule inner after) (outside : schedule.adder index = .outside)
    (silent : ∀ task, inner ≠ .call index task) : after.adder index = .outside := by
  have apart {worker : Fin n} (busy : schedule.adder worker ≠ .outside) : index ≠ worker := by
    rintro rfl
    exact busy outside
  cases moves with
  | @call worker task place =>
    have different : index ≠ worker := by
      rintro rfl
      exact silent task rfl
    exact (update_of_ne different ..).trans outside
  | waitEmpty place count => exact (update_of_ne (apart (by simp [place])) ..).trans outside
  | insert place => exact (update_of_ne (apart (by simp [place])) ..).trans outside
  | postFull place => exact (update_of_ne (apart (by simp [place])) ..).trans outside
  | _ => exact outside

/-- A worker outside `task_allocte_resources` stays there until it takes a job. -/
theorem idle_moves {index : Fin n} {tasks after : Pipeline.State (Fin n)}
    {inner : Pipeline.Label (Fin n)} (moves : Pipeline.Moves tasks inner after)
    (idle : tasks.job index = .idle ∧ tasks.schedule.adder index = .outside)
    (silent : inner ≠ .takeJob index) :
    after.job index = .idle ∧ after.schedule.adder index = .outside := by
  have apart {worker : Fin n} (busy : tasks.job worker ≠ .idle) : index ≠ worker := by
    rintro rfl
    exact busy idle.1
  cases moves with
  | @takeJob worker rest place free count =>
    have different : index ≠ worker := by
      rintro rfl
      exact silent rfl
    exact ⟨(update_of_ne different ..).trans idle.1, idle.2⟩
  | taskDrop place => exact ⟨(update_of_ne (apart (by simp [place])) ..).trans idle.1, idle.2⟩
  | taskMalloc place => exact ⟨(update_of_ne (apart (by simp [place])) ..).trans idle.1, idle.2⟩
  | acquireNone place empty =>
    exact ⟨(update_of_ne (apart (by simp [place])) ..).trans idle.1, idle.2⟩
  | @acquire worker node first rest schedule place front inner =>
    have different : index ≠ worker := apart (by simp [place])
    refine ⟨(update_of_ne different ..).trans idle.1, outside_moves inner idle.2 ?_⟩
    rintro task same
    exact different (Schedule.Label.call.inj same).1.symm
  | @schedule inner schedule inside moved =>
    refine ⟨idle.1, outside_moves moved idle.2 ?_⟩
    rintro task rfl
    cases inside
  | recycle place printed moved =>
    exact ⟨idle.1, outside_moves moved idle.2 fun task same => by cases same⟩
  | _ => exact idle

/-- The queued jobs change when one is added or taken. -/
theorem queued_moves {tasks after : Pipeline.State (Fin n)} {inner : Pipeline.Label (Fin n)}
    (moves : Pipeline.Moves tasks inner after) (kept : ∀ ok, inner ≠ .dispatch ok)
    (left : ∀ index, inner ≠ .takeJob index) : after.queued = tasks.queued := by
  cases moves with
  | @dispatch ok place => exact absurd rfl (kept ok)
  | @takeJob index rest place free count => exact absurd rfl (left index)
  | _ => rfl

/-- The main thread adds no job. -/
theorem MainTurn.works {before after : MainPhase} (turn : MainTurn n build before after)
    (rest : List Routine) (place : after = .triggering rest) : .taskAllocteResources ∉ rest := by
  cases turn with
  | created last =>
    obtain rfl := MainPhase.triggering.inj place
    simp [eventTrigger]
  | _ => cases place

/-- A turn of the main thread creates no worker. -/
theorem MainTurn.created_same {before after : MainPhase} (turn : MainTurn n build before after)
    {count : ℕ} (place : after.created = some count) : before.created = some count := by
  cases turn with
  | fail => cases place
  | created last => cases place
  | triggered => cases place
  | _ => exact place

namespace Fits

/-- A step of the pipeline that neither adds nor takes a job. -/
theorem tasks {tasks : Pipeline.State (Fin n)} {inner : Pipeline.Label (Fin n)}
    (fits : Fits state) (moves : Pipeline.Moves state.tasks inner tasks)
    (kept : ∀ ok, inner ≠ .dispatch ok) (left : ∀ index, inner ≠ .takeJob index) :
    Fits { state with tasks } :=
  ⟨(queued_moves moves kept left).trans fits.queued,
    fun index away => idle_moves moves (fits.jobs index away) (left index), fits.main,
    fits.unborn⟩

/-- A worker outside `task_allocte_resources` moves. -/
theorem move {index : Fin n} (fits : Fits state) (phase : WorkerPhase)
    (born : state.worker index ≠ .unborn)
    (idle : state.tasks.job index = .idle ∧ state.tasks.schedule.adder index = .outside) :
    Fits { state with worker := update state.worker index phase } := by
  refine ⟨fits.queued, fun other away => ?_, fits.main, fun count place other past => ?_⟩
  · by_cases same : other = index
    · exact same ▸ idle
    · exact fits.jobs other (by simpa [same] using away)
  · have unborn := fits.unborn count place other past
    have different : other ≠ index := by
      rintro rfl
      exact born unborn
    exact (update_of_ne different ..).trans unborn

/-- A call of `tpool_add_work` that adds no job. -/
theorem add {routine : Routine} {ok : Bool} (fits : Fits state)
    (other : routine ≠ .taskAllocteResources) : Fits (tpoolAddWork state routine ok) := by
  refine ⟨?_, fits.jobs, fits.main, fits.unborn⟩
  cases ok with
  | false => exact fits.queued
  | true => simpa [tpoolAddWork, List.count_append, other] using fits.queued

/-- A worker that may return is outside `task_allocte_resources`. -/
theorem returns {index : Fin n} (fits : Fits state) (ended : state.mayReturn index = true) :
    state.tasks.job index = .idle ∧ state.tasks.schedule.adder index = .outside := by
  by_cases inside : state.worker index = .allocte
  · simp only [State.mayReturn, inside] at ended
    split at ended
    · rename_i job outside
      exact ⟨job, outside⟩
    · cases ended
  · exact fits.jobs index inside

/-- Every step keeps the fit. -/
theorem moves (fits : Fits state) (founded : Founded state)
    (moves : Moves build state label next) : Fits next := by
  cases moves with
  | mainTurn turn =>
    exact ⟨fits.queued, fits.jobs, turn.works,
      fun count place => fits.unborn count (turn.created_same place)⟩
  | @poolFields ok place =>
    have empty : state.queue = [] := by
      by_contra filled
      have ready := founded.queue filled
      rw [founded.main ⟨true, false, false, false⟩ (by rw [place]; rfl)] at ready
      cases ready
    have queued := fits.queued
    rw [empty] at queued
    exact ⟨queued, fits.jobs, fun rest same => (by cases same),
      fun count same => fits.unborn count (by rw [place]; exact same)⟩
  | @createWorker index place =>
    have unborn := fits.unborn index.val (by rw [place]; rfl)
    have here := unborn index le_rfl
    refine ⟨fits.queued, fun other away => ?_, fun rest same => (by cases same), ?_⟩
    · by_cases same : other = index
      · exact same ▸ fits.jobs index (by simp [here])
      · exact fits.jobs other (by simpa [same] using away)
    · intro count same other past
      obtain rfl := Option.some.inj same
      have different : other ≠ index := by
        rintro rfl
        omega
      exact (update_of_ne different ..).trans (unborn other (by omega))
  | @trigger ok routine rest place =>
    have works := fits.main _ place
    have other : routine ≠ .taskAllocteResources := by
      rintro rfl
      exact works List.mem_cons_self
    have added : Fits (tpoolAddWork state routine ok) := fits.add other
    refine ⟨added.queued, added.jobs, fun later same inside => ?_,
      fun count same => by cases same⟩
    obtain rfl := MainPhase.triggering.inj same
    exact works (List.mem_cons_of_mem routine inside)
  | @takeJob index rest tasks place front inner =>
    have moved := Pipeline.step_moves inner
    have queued := fits.queued
    rw [front, List.count_cons_self] at queued
    refine ⟨?_, fun other away => ?_, fits.main, fun count same other past => ?_⟩
    · cases moved with
      | takeJob idle free count => exact Nat.succ.inj (count.symm.trans queued)
    · have different : other ≠ index := by
        rintro rfl
        exact away (update_self ..)
      refine idle_moves moved (fits.jobs other (by simpa [different] using away)) fun same => ?_
      exact different (Pipeline.Label.takeJob.inj same).symm
    · have unborn := fits.unborn count same other past
      have different : other ≠ index := by
        rintro rfl
        simp [place] at unborn
      exact (update_of_ne different ..).trans unborn
  | @take index routine rest place front other =>
    have moved := fits.move routine.begin (by simp [place]) (fits.jobs index (by simp [place]))
    have queued := fits.queued
    rw [front, List.count_cons_of_ne other] at queued
    exact ⟨queued, moved.jobs, moved.main, moved.unborn⟩
  | @serialStart index ok place =>
    exact fits.move _ (by simp [place]) (fits.jobs index (by simp [place]))
  | @serialAdd index ok started place =>
    have added : Fits (tpoolAddWork state .serialWrite ok) := fits.add (by decide)
    have born : (tpoolAddWork state .serialWrite ok).worker index ≠ .unborn := by
      simp [tpoolAddWork, place]
    exact added.move _ born (fits.jobs index (by simp [place]))
  | @serial index inner tasks place kind moves =>
    refine fits.tasks (Pipeline.step_moves moves) (fun ok same => ?_) fun worker same => ?_
    · subst same
      cases kind
    · subst same
      cases kind
  | @finish index ended =>
    refine fits.move _ (fun unborn => ?_) (fits.returns ended)
    simp [State.mayReturn, unborn] at ended
  | @dispatch ok tasks inner =>
    have moved := Pipeline.step_moves inner
    refine ⟨?_, fun index away => idle_moves moved (fits.jobs index away) (by simp), fits.main,
      fits.unborn⟩
    have queued := fits.queued
    cases moved with
    | dispatch place =>
      cases ok with
      | false => exact queued
      | true => simp [tpoolAddWork, List.count_append, queued]
  | @task inner tasks runs moves =>
    refine fits.tasks (Pipeline.step_moves moves) (fun ok same => ?_) fun worker same => ?_
    · subst same
      cases runs
    · subst same
      cases runs
  | createAllocate place | createSchedule place | poolCalloc place | lockInit place
  | condInit place =>
    exact ⟨fits.queued, fits.jobs, fun rest same => (by cases same),
      fun count same => fits.unborn count (by rw [place]; exact same)⟩

/-- No worker has a job when the main thread enters `task_init`. -/
theorem start : Fits (State.start : State n) where
  queued := rfl
  jobs index away := ⟨rfl, rfl⟩
  main rest place := by cases place
  unborn count place index past := rfl

end Fits

/-- A worker that waits takes the first work of the queue, whichever it is. -/
theorem take_enabled (reached : (machine build).Reachable state) {index : Fin n}
    {routine : Routine} {rest : List Routine} (place : state.worker index = .waiting)
    (front : state.queue = routine :: rest) :
    ∃ next, step build state (.take index) = some next := by
  obtain ⟨-, fits⟩ : Founded state ∧ Fits state := by
    refine Machine.Reachable.invariant (machine build) (fun state => Founded state ∧ Fits state)
      ?_ ?_ reached
    · rintro _ rfl
      exact ⟨.start, .start⟩
    · exact fun _ _ _ held stepped =>
        ⟨held.1.moves (step_moves stepped), held.2.moves held.1 (step_moves stepped)⟩
  by_cases job : routine = .taskAllocteResources
  · subst job
    have queued := fits.queued
    rw [front, List.count_cons_self] at queued
    obtain ⟨idle, outside⟩ := fits.jobs index (by simp [place])
    simp [step, place, front, Pipeline.step, idle, outside, queued]
  · cases routine with
    | taskAllocteResources => exact absurd rfl job
    | _ => simp [step, place, front]

/-- **The pool is never used before it exists.** For every build, any number of workers and every
interleaving of the main thread, the allocator, the scheduler and the workers, whatever other
processes write to the FIFO and however reads of it fail: every call of `tpool_add_work` finds the
lock, the condition variable and the queue of the pool initialised, and so does every worker. -/
theorem pool_used_after_creation (reached : (machine build).Reachable state) :
    (∀ add ∈ state.adds, add.2.ready = true) ∧
      ∀ index, state.worker index ≠ .unborn → state.pool.ready = true := by
  have founded : Founded state := by
    refine Machine.Reachable.invariant (machine build) Founded ?_ ?_ reached
    · rintro _ rfl
      exact .start
    · exact fun _ _ _ founded stepped => founded.moves (step_moves stepped)
  exact ⟨founded.adds, founded.worker⟩

/-- The allocator is woken by another process and by a failing read before the pool exists, and by
`event_serial` after it does. -/
def earlyTriggers (index : Fin n) : List (Label n) :=
  [.task (.stray 3), .main true, .main true, .main true, .main true, .main true,
    .task (.fifoRead (some 2)), .task .testPending, .main true, .task (.fifoRead none),
    .task .testPending, .main true, .main true, .main true, .main true, .main true, .main true,
    .main true, .main true, .main true, .take index, .serialStart index true,
    .serialAdd index true, .serial index (.serialRead true), .serial index (.serialMalloc true),
    .serial index .pendingAdd, .serial index (.trigger true), .task (.fifoRead (some 2)),
    .task .testPending, .dispatch true]

/-- In that run four works are added, the last one by the allocator. -/
theorem pool_used_after_creation_run :
    ∃ state : State 1, state.adds.map Prod.fst =
        [.eventSerial, .eventEthernet, .serialWrite, .taskAllocteResources] ∧
      (∀ add ∈ state.adds, add.2.ready = true) ∧
      ∀ index, state.worker index ≠ .unborn → state.pool.ready = true := by
  obtain ⟨state, ran, adds⟩ : ∃ state : State 1,
      (machine .sysServer).run .start (earlyTriggers 0) = some state ∧ state.adds.map Prod.fst =
        [.eventSerial, .eventEthernet, .serialWrite, .taskAllocteResources] := ⟨_, rfl, rfl⟩
  exact ⟨state, adds, pool_used_after_creation ⟨.start, earlyTriggers 0, rfl, ran⟩⟩

end SysServer.Startup
