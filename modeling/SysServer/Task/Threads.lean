import Mathlib.Tactic.DeriveFintype
import Mathlib.Tactic.FinCases
import SysServer.Pool.Atomic
import SysServer.Task.Serving

/-!
# The server on its pool

The server model takes the pool for a queue of works whose operations are single steps. Here its
threads run the code of the pool instead: the main thread, the allocator and `event_serial` go
through `tpool_add_work`, with its lock, its walk along the chain and its signal, and the workers
through `thread_routine`. A thread that has called `tpool_add_work` does nothing else until it
returns, and a worker is in a routine from the unlock before it to its return.

`outline` forgets the code of the pool. Every run is seen through it as a run of the server model
(`simulates_server`): each call of `tpool_add_work` as one step at the link of its work, and each
take as one at the unlink.
-/

namespace SysServer.Threads

open Library Function

/-- The threads that call `tpool_add_work`. -/
inductive Caller (n : ℕ) where
  /-- The main thread, in `event_trigger`. -/
  | main
  /-- `task_allocate`. -/
  | allocator
  /-- A worker, in `event_serial`. -/
  | worker (index : Fin n)
  deriving DecidableEq, Fintype

/-- The pool. Nothing clears `running`, so `tpool_destroy` is not called. -/
abbrev Pool (n : ℕ) : Type := Threadpool.State n (Caller n) Empty Startup.Routine Unit

/-- A step in the code of the pool. -/
abbrev PoolLabel (n : ℕ) : Type := Threadpool.Label n (Caller n) Empty Startup.Routine Unit

/-- What a step in the code of the pool is to the threads outside. -/
abbrev PoolEvent (n : ℕ) : Type := Threadpool.Event n (Caller n) Startup.Routine Unit

/-- The server and its pool. -/
structure State (n : ℕ) where
  /-- The places of the threads outside the code of the pool. Its queue is not used. -/
  server : Startup.State n
  /-- The pool. -/
  pool : Pool n

/-- A step of a thread. -/
inductive Label (n : ℕ) where
  /-- A step outside the code of the pool. -/
  | server (label : Startup.Label n)
  /-- A step in the code of the pool. -/
  | pool (label : PoolLabel n)

variable {n : ℕ}

/-- The server when the main thread enters `task_init`. -/
def State.start : State n := ⟨.start, .start⟩

/-- The routine that the thread adds where it stands. -/
def calls (server : Startup.State n) : Caller n → Option Startup.Routine
  | .main =>
    match server.main with
    | .triggering (routine :: _) => some routine
    | _ => none
  | .allocator =>
    if server.allocator ∧ server.tasks.allocator = .dispatching then some .taskAllocteResources
    else none
  | .worker index =>
    match server.worker index with
    | .serialAdd _ => some .serialWrite
    | _ => none

/-- What the thread does with the result of `tpool_add_work`, which nobody tests. -/
def answered (server : Startup.State n) (caller : Caller n) (ok : Bool) : Startup.State n :=
  match caller with
  | .main =>
    match server.main with
    | .triggering (routine :: rest) =>
      { server with main := .triggering rest, adds := server.adds ++ [(routine, server.pool)] }
    | _ => server
  | .allocator =>
    { server with
      tasks := { server.tasks with
        allocator := .reading
        queued := server.tasks.queued + if ok then 1 else 0 }
      adds := server.adds ++ [(.taskAllocteResources, server.pool)] }
  | .worker index =>
    match server.worker index with
    | .serialAdd started =>
      { server with
        worker := update server.worker index (if started then .serialLoop else .serialEnd)
        adds := server.adds ++ [(.serialWrite, server.pool)] }
    | _ => server

/-- A worker begins a routine. -/
def entered (server : Startup.State n) (index : Fin n) (routine : Startup.Routine) :
    Startup.State n :=
  { server with
    tasks :=
      if routine = .taskAllocteResources then
        { server.tasks with
          queued := server.tasks.queued - 1
          job := update server.tasks.job index .running }
      else server.tasks
    worker := update server.worker index routine.begin }

/-- How a step in the code of the pool carries its thread on. -/
def carries (server : Startup.State n) : PoolEvent n → Startup.State n
  | .spawned index =>
    { server with
      main := .createWorker (index + 1)
      worker := update server.worker index .waiting }
  | .took index content => entered server index content.routine
  | .returned index => { server with worker := update server.worker index .waiting }
  | .called _ _ => server
  | .refused caller => answered server caller false
  | .accepted caller _ => answered server caller true

/-- The thread is outside the code of the pool. -/
def State.outside (state : State n) : Caller n → Bool
  | .worker index => (state.pool.worker index).runs && (state.pool.adder (.worker index)).rests
  | caller => (state.pool.adder caller).rests

/-- The thread that takes a step of the pipeline, if it can be in the code of the pool. -/
def performer : Pipeline.Label (Fin n) → Option (Caller n)
  | .fifoRead _ | .testPending => some .allocator
  | .taskMalloc index _ | .acquire index | .schedule (.waitEmpty index)
  | .schedule (.insert index) | .schedule (.postFull index) => some (.worker index)
  | _ => none

/-- The next step of the main thread is outside the code of the pool. -/
def turns (n : ℕ) (main : Startup.MainPhase) (ok : Bool) : Bool :=
  match main with
  | .createWorker index => !ok || n ≤ index
  | .triggering (_ :: _) => false
  | _ => true

/-- The step is outside the code of the pool, and so is its thread. -/
def State.steps (state : State n) : Startup.Label n → Bool
  | .main ok => state.outside .main && turns n state.server.main ok
  | .serialStart index _ | .serial index _ => state.outside (.worker index)
  | .task inner => (performer inner).all state.outside
  | _ => false

/-- The thread is where it takes the step in the code of the pool: the main thread creates workers
in order, a routine runs until it may return, and `tpool_add_work` is called with a routine. -/
def State.permits (state : State n) : PoolLabel n → Bool
  | .spawn index => state.server.main = .createWorker index
  | .worker index =>
    match state.pool.worker index with
    | .running _ _ => state.outside (.worker index) && state.server.mayReturn index
    | _ => true
  | .add caller routine _ =>
    state.outside caller && routine.isSome && decide (calls state.server caller = routine)
  | _ => true

/-- One step. -/
def step (build : Startup.Build) (state : State n) : Label n → Option (State n)
  | .server label =>
    if state.steps label then
      (Startup.step build state.server label).map fun server => { state with server }
    else none
  | .pool label =>
    if state.permits label then
      (Threadpool.step state.pool label).map fun pool =>
        { server := (state.pool.event label).elim state.server (carries state.server), pool }
    else none

/-- The server from `task_init` on. -/
def machine (build : Startup.Build) : Machine (State n) (Label n) where
  initial state := state = .start
  step := step build

/-! ## The server model -/

/-- The server without the code of its pool. -/
def State.outline (state : State n) : Startup.State n :=
  { state.server with queue := state.pool.queued.map Threadpool.Work.routine }

/-- The step at which a call of `tpool_add_work` takes effect. -/
def answer (ok : Bool) : Caller n → Startup.Label n
  | .main => .main ok
  | .allocator => .dispatch ok
  | .worker index => .serialAdd index ok

/-- What a step in the code of the pool is to the server model. -/
def told : PoolEvent n → List (Startup.Label n)
  | .spawned _ => [.main true]
  | .took index _ => [.take index]
  | .returned index => [.finish index]
  | .called _ _ => []
  | .refused caller => [answer false caller]
  | .accepted caller _ => [answer true caller]

/-- What a step is to the server model. -/
def tells (state : State n) : Label n → List (Startup.Label n)
  | .server label => [label]
  | .pool label => (state.pool.event label).elim [] told

variable {build : Startup.Build} {server after : Startup.State n} {state next : State n}
  {queue : List Startup.Routine}

/-- The works in the queue do not matter to a step outside the code of the pool, but for the one
that empties it. -/
theorem step_queue {label : Startup.Label n} (steps : state.steps label = true)
    (set : state.server.main = .poolFields → queue = []) :
    Startup.step build { state.server with queue } label =
      (Startup.step build state.server label).map fun after => { after with queue } := by
  cases label with
  | take | serialAdd | finish | dispatch => cases steps
  | main ok =>
    have turned : turns n state.server.main ok = true := by
      simp only [State.steps, Bool.and_eq_true] at steps
      exact steps.2
    cases place : state.server.main with
    | poolFields => simp [Startup.step, Startup.mainStep, place, set place]
    | createWorker index =>
      rw [place] at turned
      by_cases inside : index < n
      · have failed : ok = false := by simpa [turns, Nat.not_le.mpr inside] using turned
        simp [Startup.step, Startup.mainStep, place, inside, failed]
      · simp [Startup.step, Startup.mainStep, place, inside]
    | triggering rest =>
      rw [place] at turned
      cases rest with
      | nil => simp [Startup.step, Startup.mainStep, place]
      | cons routine rest => cases turned
    | exiting => simp [Startup.step, Startup.mainStep, place]
    | _ => cases ok <;> simp [Startup.step, Startup.mainStep, place]
  | serialStart index ok =>
    cases place : state.server.worker index <;> simp [Startup.step, place]
  | serial index inner =>
    simp only [Startup.step]
    split
    · cases Pipeline.step state.server.tasks inner <;> rfl
    · rfl
  | task inner =>
    have same : Startup.State.runs { state.server with queue } inner =
        state.server.runs inner := by
      unfold Startup.State.runs
      rfl
    simp only [Startup.step, same]
    split
    · cases Pipeline.step state.server.tasks inner <;> rfl
    · rfl

/-- A call of `tpool_add_work` is to the server model what its thread makes of the answer. -/
theorem step_answer {caller : Caller n} {routine : Startup.Routine} {ok : Bool}
    (called : calls server caller = some routine) :
    Startup.step build { server with queue } (answer ok caller) =
      some { answered server caller ok with
        queue := if ok then queue ++ [routine] else queue } := by
  cases caller with
  | main =>
    simp only [calls] at called
    split at called
    · rename_i first rest place
      obtain rfl := Option.some.inj called
      simp [answer, answered, Startup.step, Startup.mainStep, Startup.tpoolAddWork, place]
    · cases called
  | allocator =>
    simp only [calls] at called
    split at called
    · rename_i place
      obtain rfl := Option.some.inj called
      simp [answer, answered, Startup.step, Pipeline.step, Startup.tpoolAddWork, place.1, place.2]
    · cases called
  | worker index =>
    simp only [calls] at called
    split at called
    · rename_i started place
      obtain rfl := Option.some.inj called
      simp [answer, answered, Startup.step, Startup.tpoolAddWork, place]
    · cases called

/-- A worker that unlinks the first work is to the server model one that takes it. -/
theorem step_entered {index : Fin n} {routine : Startup.Routine}
    (fits : Startup.Fits { server with queue := routine :: queue })
    (place : server.worker index = .waiting) :
    Startup.step build { server with queue := routine :: queue } (.take index) =
      some { entered server index routine with queue } := by
  by_cases job : routine = .taskAllocteResources
  · subst job
    obtain ⟨idle, outside⟩ := fits.jobs index (by simp [place])
    have queued := fits.queued
    rw [List.count_cons_self] at queued
    simp only at idle outside queued
    simp [Startup.step, place, Pipeline.step, idle, outside, queued, entered, Startup.Routine.begin]
  · cases routine with
    | taskAllocteResources => exact absurd rfl job
    | _ => simp [Startup.step, place, entered]

/-! ## Where the threads stand -/

/-- Whether the worker has a work, once it is created. -/
def engaged : Startup.WorkerPhase → Option Bool
  | .unborn => none
  | .waiting => some false
  | _ => some true

/-- A worker that begins a routine has a work. -/
theorem engaged_begin (routine : Startup.Routine) : engaged routine.begin = some true := by
  cases routine <;> rfl

/-- The places of the threads in the code of the pool fit those outside it. -/
structure Engaged (state : State n) : Prop where
  /-- The pool has run by itself. -/
  pool : Threadpool.machine.Reachable state.pool
  /-- A worker is in a routine while it has a work. -/
  worker : ∀ index, state.pool.shown.worker index = engaged (state.server.worker index)
  /-- A thread stands at its call until the call takes effect. -/
  adder : ∀ caller routine, state.pool.shown.adder caller = some routine →
    calls state.server caller = some routine

/-- The answer to one thread leaves the others at their calls. -/
theorem calls_answered {caller other : Caller n} {ok : Bool} (different : other ≠ caller) :
    calls (answered server caller ok) other = calls server other := by
  cases caller with
  | main =>
    cases other with
    | main => exact absurd rfl different
    | _ =>
      simp only [answered]
      split <;> rfl
  | allocator =>
    cases other with
    | allocator => exact absurd rfl different
    | _ => rfl
  | worker index =>
    simp only [answered]
    split
    · cases other with
      | worker other =>
        have apart : other ≠ index := fun same => different (congrArg Caller.worker same)
        simp [calls, apart]
      | _ => rfl
    · rfl

/-- A worker that moves and stays in its routine. -/
theorem engaged_update {worker : Fin n → Startup.WorkerPhase} {actor : Fin n}
    {phase : Startup.WorkerPhase} (same : engaged phase = engaged (worker actor))
    (index : Fin n) : engaged (update worker actor phase index) = engaged (worker index) := by
  by_cases moved : index = actor
  · rw [moved, update_self, same]
  · rw [update_of_ne moved]

/-- A worker that is answered stays in its routine. -/
theorem engaged_answered (caller : Caller n) (ok : Bool) (index : Fin n) :
    engaged ((answered server caller ok).worker index) = engaged (server.worker index) := by
  cases caller with
  | main =>
    simp only [answered]
    split <;> rfl
  | allocator => rfl
  | worker actor =>
    simp only [answered]
    split
    · rename_i started place
      exact engaged_update (by rw [place]; cases started <;> rfl) index
    · rfl

/-- A step of the pipeline leaves the threads at their calls. -/
theorem calls_tasks {tasks : Pipeline.State (Fin n)} {inner : Pipeline.Label (Fin n)}
    {caller : Caller n} {routine : Startup.Routine}
    (moves : Pipeline.Moves server.tasks inner tasks) (other : ∀ ok, inner ≠ .dispatch ok)
    (called : calls server caller = some routine) :
    calls { server with tasks } caller = some routine := by
  cases caller with
  | allocator =>
    simp only [calls] at called ⊢
    split at called
    · rename_i place
      have stays : tasks.allocator = .dispatching := by
        cases moves with
        | @dispatch ok => exact absurd rfl (other ok)
        | fifoFail reading | fifoRead reading | testPending reading => simp [reading] at place
        | _ => exact place.2
      rw [if_pos ⟨place.1, stays⟩]
      exact called
    · cases called
  | _ => exact called

/-- While a thread is at its call it is in the code of the pool. -/
theorem outside_request {caller : Caller n} {routine : Startup.Routine}
    (asks : state.pool.shown.adder caller = some routine) : state.outside caller ≠ true := by
  have busy : (state.pool.adder caller).rests = false := by
    change (state.pool.adder caller).request = some routine at asks
    cases place : state.pool.adder caller with
    | idle =>
      rw [place] at asks
      cases asks
    | _ => rfl
  cases caller <;> simp [State.outside, busy]

/-- A step outside the code of the pool leaves the threads inside at their calls. -/
theorem calls_server {label : Startup.Label n} (founded : Startup.Founded state.outline)
    (steps : state.steps label = true) (moves : Startup.Moves build state.server label after)
    {caller : Caller n} {routine : Startup.Routine}
    (asks : state.pool.shown.adder caller = some routine)
    (called : calls state.server caller = some routine) : calls after caller = some routine := by
  have inside := outside_request asks
  cases moves with
  | takeJob | take | serialAdd | finish | dispatch => cases steps
  | createWorker place =>
    simp only [State.steps, turns, place, Bool.and_eq_true] at steps
    simp at steps
    omega
  | trigger place => simp [State.steps, turns, place] at steps
  | mainTurn turn | poolCalloc place | poolFields place | lockInit place | condInit place
  | createSchedule place =>
    simp only [State.steps, Bool.and_eq_true] at steps
    cases caller with
    | main => exact absurd steps.1 inside
    | _ => exact called
  | createAllocate place =>
    simp only [State.steps, Bool.and_eq_true] at steps
    cases caller with
    | main => exact absurd steps.1 inside
    | worker index => exact called
    | allocator =>
      -- The allocator has seen no pending node yet.
      simp only [calls] at called
      split at called
      · rename_i seen
        have ready := founded.allocator seen.2
        rw [founded.main _ (congrArg Startup.MainPhase.pool place)] at ready
        cases ready
      · cases called
  | @serialStart index ok place =>
    cases caller with
    | worker other =>
      have apart : other ≠ index := by
        rintro rfl
        exact inside steps
      simpa [calls, apart] using called
    | _ => exact called
  | serial place kind stepped =>
    exact calls_tasks (Pipeline.step_moves stepped) (by rintro ok rfl; cases kind) called
  | task runs stepped =>
    exact calls_tasks (Pipeline.step_moves stepped) (by rintro ok rfl; cases runs) called

/-- A step outside the code of the pool takes no worker into a routine or out of it. -/
theorem engaged_server {label : Startup.Label n} (steps : state.steps label = true)
    (moves : Startup.Moves build state.server label after) (index : Fin n) :
    engaged (after.worker index) = engaged (state.server.worker index) := by
  cases moves with
  | takeJob | take | serialAdd | finish | dispatch => cases steps
  | createWorker place =>
    simp only [State.steps, turns, place, Bool.and_eq_true] at steps
    simp at steps
    omega
  | serialStart place => exact engaged_update (by rw [place]; rfl) index
  | _ => rfl

/-- Where the thread stands that takes such a step in the code of the pool. -/
def Allows (server : Startup.State n) : PoolEvent n → Prop
  | .spawned index => server.main = .createWorker index
  | .returned index => server.mayReturn index = true
  | .called caller routine => calls server caller = some routine
  | _ => True

/-- A permitted step is taken where the thread stands. -/
theorem allows_event {label : PoolLabel n} {event : PoolEvent n}
    (permits : state.permits label = true) (happened : state.pool.event label = some event) :
    Allows state.server event := by
  cases label with
  | spawn index =>
    obtain rfl := Option.some.inj happened
    have place : state.server.main = .createWorker index := of_decide_eq_true permits
    exact place
  | worker index =>
    simp only [Threadpool.State.event] at happened
    split at happened
    · obtain ⟨node, -, rfl⟩ := Option.map_eq_some_iff.mp happened
      trivial
    · rename_i place
      obtain rfl := Option.some.inj happened
      simp only [State.permits, place, Bool.and_eq_true] at permits
      exact permits.2
    · cases happened
  | add caller routine arg =>
    cases routine with
    | none => cases happened
    | some routine =>
      obtain rfl := Option.some.inj happened
      simp only [State.permits, Bool.and_eq_true, decide_eq_true_eq] at permits
      exact permits.2
  | malloc caller block =>
    cases block with
    | some work => cases happened
    | none =>
      obtain rfl := Option.some.inj happened
      trivial
  | adder caller =>
    simp only [Threadpool.State.event] at happened
    split at happened
    · obtain rfl := Option.some.inj happened
      trivial
    · obtain rfl := Option.some.inj happened
      trivial
    · cases happened
  | _ => cases happened

/-- A worker at no call moves, and the other threads stay at theirs. -/
theorem calls_move {index : Fin n} {phase : Startup.WorkerPhase} {caller : Caller n}
    {routine : Startup.Routine} (idle : calls server (.worker index) = none)
    (moved : after.worker = update server.worker index phase)
    (exists_same : after.allocator = server.allocator)
    (allocator : after.tasks.allocator = server.tasks.allocator)
    (main : caller = .main → after.main = server.main)
    (called : calls server caller = some routine) : calls after caller = some routine := by
  cases caller with
  | main => simpa only [calls, main rfl] using called
  | allocator => simpa only [calls, exists_same, allocator] using called
  | worker other =>
    have apart : other ≠ index := by
      rintro rfl
      rw [idle] at called
      cases called
    simpa [calls, moved, apart] using called

/-- A pool that is never destroyed stays open. -/
theorem pool_open {pool : Pool n} (reached : Threadpool.machine.Reachable pool) :
    pool.shutdown = false := by
  refine Machine.Reachable.invariant Threadpool.machine (fun pool : Pool n => pool.shutdown = false)
    (fun _ initial => initial ▸ rfl) (fun pool label next opened stepped => ?_) reached
  cases Threadpool.step_moves stepped with
  | @storeShutdown call place => exact call.elim
  | _ => exact opened

namespace Engaged

/-- A step outside the code of the pool keeps the fit. -/
theorem turn {label : Startup.Label n} (fits : Engaged state)
    (founded : Startup.Founded state.outline) (steps : state.steps label = true)
    (stepped : Startup.step build state.server label = some after) :
    Engaged { state with server := after } := by
  have moves := Startup.step_moves stepped
  exact ⟨fits.pool, fun index => (fits.worker index).trans (engaged_server steps moves index).symm,
    fun caller routine asks =>
      calls_server founded steps moves asks (fits.adder caller routine asks)⟩

/-- A worker without a work is at no call. -/
theorem calls_worker (fits : Engaged state) {index : Fin n}
    (place : state.pool.shown.worker index ≠ some true) :
    calls state.server (.worker index) = none := by
  rw [fits.worker index] at place
  cases stood : state.server.worker index with
  | serialAdd started =>
    rw [stood] at place
    exact absurd rfl place
  | _ => simp only [calls, stood]

/-- A worker moves in the code of the pool and outside. -/
theorem worker_update (fits : Engaged state) (index : Fin n) (phase : Startup.WorkerPhase)
    (other : Fin n) : update state.pool.shown.worker index (engaged phase) other =
      engaged (update state.server.worker index phase other) := by
  by_cases same : other = index
  · subst same
    rw [update_self, update_self]
  · rw [update_of_ne same, update_of_ne same]
    exact fits.worker other

/-- The answer to a call fits its thread. -/
theorem answer (fits : Engaged state) (caller : Caller n) (ok : Bool) :
    (∀ index, state.pool.shown.worker index =
        engaged ((answered state.server caller ok).worker index)) ∧
      ∀ other routine, update state.pool.shown.adder caller none other = some routine →
        calls (answered state.server caller ok) other = some routine := by
  refine ⟨fun index => (fits.worker index).trans (engaged_answered caller ok index).symm,
    fun other routine asks => ?_⟩
  by_cases same : other = caller
  · simp [same] at asks
  · rw [calls_answered same]
    exact fits.adder other routine (by simpa [same] using asks)

/-- What the pool shows fits the threads that its step carries on. -/
theorem event {event : PoolEvent n} {seen : Threadpool.Shown n (Caller n) Startup.Routine Unit}
    (fits : Engaged state) (allows : Allows state.server event)
    (moves : Threadpool.Shown.Moves state.pool.shown event seen) :
    (∀ index, seen.worker index = engaged ((carries state.server event).worker index)) ∧
      ∀ caller routine, seen.adder caller = some routine →
        calls (carries state.server event) caller = some routine := by
  cases moves with
  | @spawned index place =>
    refine ⟨fits.worker_update index .waiting, fun caller routine asks => ?_⟩
    have called := fits.adder caller routine asks
    have stands : state.server.main = .createWorker index := allows
    refine calls_move (fits.calls_worker (by simp [place])) rfl rfl rfl ?_ called
    rintro rfl
    simp [calls, stands] at called
  | @took index content rest place front =>
    refine ⟨fun other => ?_, fun caller routine asks => ?_⟩
    · have moved := fits.worker_update index content.routine.begin other
      rwa [engaged_begin] at moved
    · have same : (entered state.server index content.routine).tasks.allocator =
          state.server.tasks.allocator := by
        simp only [entered]
        split <;> rfl
      exact calls_move (fits.calls_worker (by simp [place])) rfl rfl same (fun _ => rfl)
        (fits.adder caller routine asks)
  | @returned index place =>
    refine ⟨fits.worker_update index .waiting, fun caller routine asks => ?_⟩
    have ended : state.server.mayReturn index = true := allows
    refine calls_move ?_ rfl rfl rfl (fun _ => rfl) (fits.adder caller routine asks)
    cases stood : state.server.worker index with
    | serialAdd started => simp [Startup.State.mayReturn, stood] at ended
    | _ => simp only [calls, stood]
  | @called caller routine place =>
    refine ⟨fits.worker, fun other asked asks => ?_⟩
    by_cases same : other = caller
    · subst same
      obtain rfl : routine = asked := by simpa using asks
      exact allows
    · exact fits.adder other asked (by simpa [same] using asks)
  | @refused caller routine place => exact fits.answer caller false
  | @accepted caller content place => exact fits.answer caller true

/-- A step in the code of the pool keeps the fit. -/
theorem code {label : PoolLabel n} {pool : Pool n} (fits : Engaged state)
    (permits : state.permits label = true)
    (stepped : Threadpool.step state.pool label = some pool)
    (shows : Threadpool.Shows state.pool label pool) :
    Engaged ⟨(state.pool.event label).elim state.server (carries state.server), pool⟩ := by
  have reached := Machine.Reachable.step Threadpool.machine fits.pool stepped
  rcases shows with ⟨silent, same⟩ | ⟨event, happened, moves⟩
  · rw [silent]
    refine ⟨reached, ?_, ?_⟩
    · rw [same]
      exact fits.worker
    · rw [same]
      exact fits.adder
  · obtain ⟨worker, adder⟩ := fits.event (allows_event permits happened) moves
    rw [happened]
    exact ⟨reached, worker, adder⟩

/-- A step in the code of the pool is an atomic operation, or it is not seen. -/
theorem shows {label : PoolLabel n} {pool : Pool n} (fits : Engaged state)
    (stepped : Threadpool.step state.pool label = some pool) :
    Threadpool.Shows state.pool label pool := by
  obtain ⟨kept, -⟩ := Threadpool.open_reachable fits.pool
  obtain ⟨opened, ⟨queue, linked⟩, -⟩ := kept.2 (pool_open fits.pool)
  exact Threadpool.shown_step linked opened stepped

/-- An atomic operation of the pool is a run of the server model, from a state that it reaches. -/
theorem run_told {event : PoolEvent n}
    {seen : Threadpool.Shown n (Caller n) Startup.Routine Unit} (fits : Engaged state)
    (reached : (Startup.machine build).Reachable state.outline)
    (allows : Allows state.server event)
    (moves : Threadpool.Shown.Moves state.pool.shown event seen) :
    (Startup.machine build).run state.outline (told event) =
      some { carries state.server event with queue := seen.queue.map Threadpool.Work.routine } := by
  have one {label : Startup.Label n} {last : Startup.State n}
      (stepped : Startup.step build state.outline label = some last) :
      (Startup.machine build).run state.outline [label] = some last :=
    (Machine.run_cons _).mpr ⟨last, stepped, rfl⟩
  cases moves with
  | @spawned index place =>
    have stands : state.outline.main = .createWorker index := allows
    refine one ?_
    simp only [Startup.step, Startup.mainStep, stands, index.isLt, ↓reduceDIte, ↓reduceIte]
    rfl
  | @took index content rest place front =>
    obtain ⟨-, manned, -⟩ := Startup.manned_reachable reached
    have queue : state.outline =
        { state.server with
          queue := content.routine :: rest.map Threadpool.Work.routine } := by
      rw [← List.map_cons, ← front]
      rfl
    have waits : state.server.worker index = .waiting := by
      rw [fits.worker index] at place
      cases stood : state.server.worker index <;> simp [engaged, stood] at place
      rfl
    have works := manned.fits
    rw [queue] at works one ⊢
    exact one (step_entered works waits)
  | @returned index place =>
    have ended : state.outline.mayReturn index = true := allows
    refine one ?_
    simp only [Startup.step, ended, ↓reduceIte]
    rfl
  | called place => rfl
  | @refused caller routine place => exact one (step_answer (fits.adder caller routine place))
  | @accepted caller content place =>
    have stepped := @step_answer n build state.server state.outline.queue caller _ true
      (fits.adder caller _ place)
    rw [List.map_append]
    exact one stepped

end Engaged

/-- What a step can do. -/
inductive Moves (build : Startup.Build) (state : State n) : Label n → State n → Prop where
  /-- A thread outside the code of the pool moves. -/
  | server {label : Startup.Label n} {after : Startup.State n}
    (steps : state.steps label = true)
    (stepped : Startup.step build state.server label = some after) :
    Moves build state (.server label) { state with server := after }
  /-- A thread in the code of the pool moves. -/
  | pool {label : PoolLabel n} {pool : Pool n} (permits : state.permits label = true)
    (stepped : Threadpool.step state.pool label = some pool) :
    Moves build state (.pool label)
      ⟨(state.pool.event label).elim state.server (carries state.server), pool⟩

/-- A step is one of the moves. -/
theorem step_moves {label : Label n} (stepped : step build state label = some next) :
    Moves build state label next := by
  cases label with
  | server label =>
    simp only [step] at stepped
    split at stepped
    · rename_i steps
      obtain ⟨after, moved, rfl⟩ := Option.map_eq_some_iff.mp stepped
      exact .server steps moved
    · cases stepped
  | pool label =>
    simp only [step] at stepped
    split at stepped
    · rename_i permits
      obtain ⟨pool, moved, rfl⟩ := Option.map_eq_some_iff.mp stepped
      exact .pool permits moved
    · cases stepped

/-- The queue is empty where the main thread empties it. -/
theorem queue_set (founded : Startup.Founded state.outline)
    (place : state.server.main = .poolFields) : state.outline.queue = [] := by
  by_contra filled
  have ready := founded.queue filled
  rw [founded.main _ (congrArg Startup.MainPhase.pool place)] at ready
  cases ready

/-- A run of the server on its pool is seen as a run of the server model. -/
theorem simulates_server (build : Startup.Build) :
    Machine.Simulates (machine (n := n) build) (Startup.machine build) State.outline tells
      Engaged where
  initial := by
    rintro _ rfl
    exact ⟨rfl, ⟨.start, [], rfl, rfl⟩, fun _ => rfl, nofun⟩
  kept state label next reached fits stepped := by
    obtain ⟨founded, -⟩ := Startup.manned_reachable reached
    cases step_moves stepped with
    | server steps moved => exact fits.turn founded steps moved
    | pool permits moved => exact fits.code permits moved (fits.shows moved)
  step state label next reached fits stepped := by
    obtain ⟨founded, -⟩ := Startup.manned_reachable reached
    cases step_moves stepped with
    | @server label after steps moved =>
      refine (Machine.run_cons _).mpr ⟨_, ?_, rfl⟩
      have seen := @step_queue n build state state.outline.queue label steps (queue_set founded)
      rw [moved] at seen
      exact seen
    | @pool label pool permits moved =>
      rcases fits.shows moved with ⟨silent, same⟩ | ⟨event, happened, moves⟩
      · have queue : pool.queued = state.pool.queued := congrArg Threadpool.Shown.queue same
        simp only [tells, State.outline, silent, queue]
        rfl
      · have seen := fits.run_told reached (allows_event permits happened) moves
        simp only [tells, happened]
        exact seen

/-! ## Where only input can move the server -/

/-- The step is not the server's own: it is none in the server model, a worker wakes by itself, or
a routine returns that may keep its worker. -/
def State.waits (state : State n) : Label n → Prop
  | .server label => state.server.waits label
  | .pool (.wake _) => True
  | .pool (.worker index) =>
    (state.pool.worker index).runs = true ∧ (state.server.worker index).stays = true
  | .pool _ => False

/-- Only the world and the routines that may keep their workers can move the server. -/
def Resting (build : Startup.Build) (state : State n) : Prop :=
  ∀ label, ¬ state.waits label → step build state label = none

/-- No thread moves in the code of the pool. -/
structure Still (state : State n) : Prop where
  /-- No thread is inside `tpool_add_work`. -/
  adder : ∀ caller, (state.pool.adder caller).rests = true
  /-- Every worker sleeps or is in a routine. -/
  worker : ∀ index, state.pool.worker index = .asleep ∨ (state.pool.worker index).runs = true

namespace Engaged

/-- The chain of the pool spells the works that are seen. -/
theorem linked (fits : Engaged state) : ∃ queue, Threadpool.Linked state.pool queue ∧
    Threadpool.works queue = state.pool.queued := by
  obtain ⟨kept, -⟩ := Threadpool.open_reachable fits.pool
  obtain ⟨opened, ⟨queue, linked⟩, -⟩ := kept.2 (pool_open fits.pool)
  exact ⟨queue, linked, (linked.queued opened).symm⟩

/-- In a still pool, a worker in a routine is outside the code of the pool. -/
theorem outside (fits : Engaged state) (still : Still state) {index : Fin n}
    (busy : engaged (state.server.worker index) = some true) :
    state.outside (.worker index) = true := by
  have runs : (state.pool.worker index).runs = true := by
    refine (still.worker index).resolve_left fun asleep => ?_
    rw [← fits.worker index] at busy
    simp [Threadpool.State.shown, asleep, Threadpool.WorkerPhase.engaged] at busy
  simp [State.outside, runs, still.adder]

/-- In a still pool with a sleeper no work is queued. -/
theorem empty (fits : Engaged state) (still : Still state) {index : Fin n}
    (asleep : state.pool.worker index = .asleep) : state.pool.queued = [] := by
  obtain ⟨kept, -⟩ := Threadpool.open_reachable fits.pool
  obtain ⟨-, -, covered⟩ := kept.2 (pool_open fits.pool)
  have bound := covered ⟨index, by rw [asleep]; rfl⟩
  have ready : tally Threadpool.WorkerPhase.ready state.pool.worker = 0 := by
    refine tally_eq_zero fun other => ?_
    rcases still.worker other with place | runs
    · rw [place]
      rfl
    · cases place : state.pool.worker other with
      | running work content => rfl
      | _ =>
        rw [place] at runs
        cases runs
  have signals : tally Threadpool.AdderPhase.signals state.pool.adder = 0 :=
    tally_eq_zero fun caller => by
      rw [Threadpool.AdderPhase.eq_idle (still.adder caller)]
      rfl
  rw [ready, signals] at bound
  exact List.drop_eq_nil_of_le bound

end Engaged

namespace Resting

/-- Where the server rests, no step of its own in the code of the pool is enabled. -/
theorem code {label : PoolLabel n} (resting : Resting build state)
    (permits : state.permits label = true) (own : ¬ state.waits (.pool label)) :
    Threadpool.step state.pool label = none := by
  simpa [step, permits] using resting (.pool label) own

/-- Where the server rests, no step of its own outside the code of the pool is enabled. -/
theorem beyond {label : Startup.Label n} (resting : Resting build state)
    (steps : state.steps label = true) (own : ¬ state.server.waits label) :
    Startup.step build state.server label = none := by
  simpa [step, steps] using resting (.server label) own

/-- Where the server rests, a worker outside its routine cannot take a step. -/
theorem stuck {index : Fin n} (resting : Resting build state)
    (away : (state.pool.worker index).runs = false) :
    Threadpool.threadRoutine state.pool index = none := by
  have permits : state.permits (.worker index) = true := by
    simp only [State.permits]
    split
    · rename_i place
      rw [place] at away
      cases away
    · rfl
  exact resting.code permits (by simp [State.waits, away])

/-- Where the server rests, a thread that has the lock or finds it free is not inside
`tpool_add_work`. -/
theorem rests {caller : Caller n} (resting : Resting build state) (fits : Engaged state)
    (able : (state.pool.adder caller).inside = true ∨ state.pool.owner = none) :
    (state.pool.adder caller).rests = true := by
  obtain ⟨queue, linked, -⟩ := fits.linked
  by_contra busy
  rcases linked.adder_steps able (by simpa using busy) with moves | moves | ⟨woken, moves⟩
  · exact moves (resting.code rfl id)
  · exact moves (resting.code rfl id)
  · exact moves (resting.code rfl id)

/-- Where the server rests, nobody has the lock. -/
theorem free (resting : Resting build state) (fits : Engaged state) :
    state.pool.owner = none := by
  obtain ⟨queue, linked, -⟩ := fits.linked
  obtain ⟨-, attended, -⟩ := Threadpool.open_reachable fits.pool
  cases owned : state.pool.owner with
  | none => rfl
  | some thread =>
    have inside := attended thread owned
    cases thread with
    | worker index =>
      have within : (state.pool.worker index).inside = true := inside
      refine absurd (resting.stuck ?_) (linked.inside_steps within)
      cases place : state.pool.worker index with
      | running work content =>
        rw [place] at within
        cases within
      | _ => rfl
    | adder caller =>
      have within : (state.pool.adder caller).inside = true := inside
      rw [Threadpool.AdderPhase.eq_idle (resting.rests fits (.inl within))] at within
      cases within
    | destroyer call => exact call.elim

/-- Where the server rests, no thread moves in the code of the pool. -/
theorem still (resting : Resting build state) (fits : Engaged state)
    (hired : ∀ index, state.server.worker index ≠ .unborn) : Still state := by
  have free := resting.free fits
  refine ⟨fun caller => resting.rests fits (.inr free), fun index => ?_⟩
  obtain ⟨queue, linked, -⟩ := fits.linked
  obtain ⟨-, -, stays⟩ := Threadpool.open_reachable fits.pool
  by_contra awake
  push Not at awake
  refine linked.worker_steps free (fun unborn => ?_) awake.1 (stays (pool_open fits.pool) index)
    (resting.stuck (by simpa using awake.2))
  have place := fits.worker index
  simp only [Threadpool.State.shown, comp_apply, unborn, Threadpool.WorkerPhase.engaged] at place
  cases stood : state.server.worker index with
  | unborn => exact hired index stood
  | _ =>
    rw [stood] at place
    cases place

/-- Where the server rests, no thread is at a call of `tpool_add_work`. -/
theorem calls (resting : Resting build state) (fits : Engaged state) (still : Still state)
    (caller : Caller n) : calls state.server caller = none := by
  cases called : Threads.calls state.server caller with
  | none => rfl
  | some routine =>
    have outside : state.outside caller = true := by
      cases caller with
      | worker index =>
        refine fits.outside still ?_
        cases place : state.server.worker index with
        | serialAdd started => rfl
        | _ => simp [Threads.calls, place] at called
      | _ => exact still.adder _
    have permits : state.permits (.add caller (some routine) ()) = true := by
      simp [State.permits, outside, called]
    have moved := resting.code permits id
    simp [Threadpool.step, Threadpool.AdderPhase.eq_idle (still.adder caller)] at moved

/-- Where the server rests, no step of its own outside the code of the pool is enabled in the
server model. -/
theorem beyond_outline {label : Startup.Label n} (resting : Resting build state)
    (served : state.server.main = .serving) (steps : state.steps label = true)
    (own : ¬ state.server.waits label) : Startup.step build state.outline label = none := by
  have seen := @step_queue n build state state.outline.queue label steps fun place => by
    rw [served] at place
    cases place
  rw [resting.beyond steps own] at seen
  exact seen

/-- In a still server, a thread of the pipeline is outside the code of the pool. -/
theorem performs (fits : Engaged state) (still : Still state) {inner : Pipeline.Label (Fin n)}
    (runs : state.server.runs inner = true) : state.steps (.task inner) = true := by
  have inside {index : Fin n} (alloctes : (state.server.worker index).alloctes = true) :
      state.outside (.worker index) = true := by
    refine fits.outside still ?_
    cases place : state.server.worker index with
    | allocte => rfl
    | _ =>
      rw [place] at alloctes
      cases alloctes
  cases inner with
  | fifoRead result | testPending => exact still.adder .allocator
  | taskMalloc index raw | acquire index => exact inside runs
  | schedule inner =>
    cases inner with
    | waitEmpty index | insert index | postFull index => exact inside runs
    | _ => rfl
  | _ => rfl

/-- Where the server rests, so does the server model. -/
theorem outline (resting : Resting build state) (fits : Engaged state) (still : Still state)
    (served : state.server.main = .serving) : Startup.Resting build state.outline := by
  have calls := resting.calls fits still
  intro label own
  cases label with
  | main ok => exact absurd trivial own
  | take index =>
    cases place : state.server.worker index with
    | waiting =>
      have asleep : state.pool.worker index = .asleep := by
        refine (still.worker index).resolve_right fun runs => ?_
        have same := fits.worker index
        cases stood : state.pool.worker index with
        | running work content =>
          simp [Threadpool.State.shown, stood, place, engaged, Threadpool.WorkerPhase.engaged]
            at same
        | _ =>
          rw [stood] at runs
          cases runs
      have empty := fits.empty still asleep
      simp [Startup.step, State.outline, place, empty]
    | _ => simp [Startup.step, State.outline, place]
  | serialStart index ok =>
    cases place : state.server.worker index with
    | serialStart =>
      exact resting.beyond_outline served (fits.outside still (by rw [place]; rfl)) own
    | _ => simp [Startup.step, State.outline, place]
  | serialAdd index ok =>
    have away := calls (.worker index)
    cases place : state.server.worker index with
    | serialAdd started => simp [Threads.calls, place] at away
    | _ => simp [Startup.step, State.outline, place]
  | serial index inner =>
    by_cases place : state.server.worker index = .serialLoop
    · exact resting.beyond_outline served (fits.outside still (by rw [place]; rfl)) own
    · simp [Startup.step, State.outline, place]
  | finish index =>
    by_cases ended : state.server.mayReturn index = true
    · have busy : engaged (state.server.worker index) = some true := by
        cases place : state.server.worker index with
        | unborn | waiting => simp [Startup.State.mayReturn, place] at ended
        | _ => rfl
      have outside := fits.outside still busy
      have permits : state.permits (.worker index) = true := by
        simp only [State.permits]
        split
        · rw [outside, ended]
          rfl
        · rfl
      have moved := resting.code permits fun waits => own waits.2
      simp only [State.outside, Bool.and_eq_true] at outside
      cases place : state.pool.worker index with
      | running work content => simp [Threadpool.step, Threadpool.threadRoutine, place] at moved
      | _ =>
        rw [place] at outside
        cases outside.1
    · have stays : state.outline.mayReturn index ≠ true := ended
      simp [Startup.step, stays]
  | dispatch ok =>
    have away := calls .allocator
    cases place : state.server.tasks.allocator with
    | dispatching =>
      have lacks : state.server.allocator = false := by simpa [Threads.calls, place] using away
      simp [Startup.step, State.outline, lacks]
    | _ => simp [Startup.step, State.outline, Pipeline.step, place]
  | task inner =>
    by_cases runs : state.server.runs inner = true
    · exact resting.beyond_outline served (performs fits still runs) own
    · have stands : state.outline.runs inner ≠ true := runs
      simp [Startup.step, stands]

/-- Where a server rests that has started up with more workers than its routines may keep, there is
nothing left to do. -/
theorem settled (resting : Resting build state)
    (reached : (Startup.machine build).Reachable state.outline) (fits : Engaged state)
    (served : state.server.main = .serving) (allocator : state.server.allocator = true)
    (scheduler : state.server.scheduler = true) (enough : build.resides < n) :
    Startup.Calm state.outline ∧ Still state := by
  obtain ⟨-, manned, -⟩ := Startup.manned_reachable reached
  have hired : ∀ index, state.server.worker index ≠ .unborn := by
    intro index
    refine manned.hired index ?_
    change index.val < state.server.main.hired n
    rw [served]
    exact index.isLt
  have still := resting.still fits hired
  have rests := resting.outline fits still served
  exact ⟨rests.calm reached served allocator scheduler enough, still⟩

end Resting

/-- In a calm server no thread is at a call of `tpool_add_work`. -/
theorem calls_calm (calm : Startup.Calm state.outline) (served : state.server.main = .serving)
    (caller : Caller n) : calls state.server caller = none := by
  cases caller with
  | main => simp [calls, served]
  | allocator =>
    have reads : state.server.tasks.allocator = .reading := calm.tasks.allocator
    simp [calls, reads]
  | worker index =>
    have worker : state.server.worker index = .waiting ∨
        (state.server.worker index).stays = true := calm.worker index
    cases place : state.server.worker index with
    | serialAdd started => simp [place, Startup.WorkerPhase.stays] at worker
    | _ => simp only [calls, place]

/-- A calm server in whose pool no thread moves rests. -/
theorem resting_of_calm (calm : Startup.Calm state.outline) (still : Still state)
    (fits : Engaged state) (reached : (Startup.machine build).Reachable state.outline)
    (served : state.server.main = .serving) : Resting build state := by
  have idle := fun caller => Threadpool.AdderPhase.eq_idle (still.adder caller)
  intro label own
  cases label with
  | server label =>
    by_cases steps : state.steps label = true
    · have seen := @step_queue n build state state.outline.queue label steps fun place => by
        rw [served] at place
        cases place
      have rests : Startup.step build state.outline label = none := by
        refine calm.resting reached label ?_
        cases label <;> exact own
      have blocked : Startup.step build state.server label = none :=
        Option.map_eq_none_iff.mp (seen.symm.trans rests)
      simp [step, blocked]
    · simp [step, steps]
  | pool label =>
    cases label with
    | spawn index => simp [step, State.permits, served]
    | wake index => exact absurd trivial own
    | worker index =>
      rcases still.worker index with asleep | runs
      · simp [step, Threadpool.step, Threadpool.threadRoutine, asleep]
      · refine absurd ⟨runs, ?_⟩ own
        have worker : state.server.worker index = .waiting ∨
            (state.server.worker index).stays = true := calm.worker index
        refine worker.resolve_left fun waits => ?_
        have same := fits.worker index
        cases place : state.pool.worker index with
        | running work content =>
          simp [Threadpool.State.shown, place, waits, engaged, Threadpool.WorkerPhase.engaged]
            at same
        | _ =>
          rw [place] at runs
          cases runs
    | add caller routine arg =>
      have away := calls_calm calm served caller
      cases routine <;> simp [step, State.permits, away]
    | malloc caller block => cases block <;> simp [step, Threadpool.step, idle]
    | adder caller => simp [step, Threadpool.step, Threadpool.tpoolAddWork, idle]
    | signal caller woken => simp [step, Threadpool.step, idle]
    | destroy call | destroyer call => exact call.elim

/-- **The server on its pool is the server, and does not get stuck.** Every run in which the
threads go through the code of the pool, step by step and in any order, is a run of the server
model, and the chain of the pool spells the works that are queued there. Once the server has
started up with both threads of the pipeline and with more workers than its routines may keep,
only the world and such routines can move it exactly where the server model is calm, no thread is
inside `tpool_add_work`, and every worker sleeps or is in its routine. -/
theorem server_on_pool {labels : List (Label n)}
    (ran : (machine build).run .start labels = some state) :
    (Startup.machine build).run .start ((machine build).output tells .start labels) =
        some state.outline ∧
      (∃ queue, Chain state.pool.heap state.pool.queueHead queue ∧
        (Threadpool.works queue).map Threadpool.Work.routine = state.outline.queue) ∧
      (state.server.main = .serving → state.server.allocator = true →
        state.server.scheduler = true → build.resides < n →
        (Resting build state ↔ Startup.Calm state.outline ∧ Still state)) := by
  have simulates := simulates_server (n := n) build
  obtain ⟨begins, fits⟩ := simulates.initial .start rfl
  obtain ⟨seen, fits⟩ := simulates.run ⟨_, [], begins, rfl⟩ fits ran
  have reached : (Startup.machine build).Reachable state.outline := ⟨_, _, begins, seen⟩
  refine ⟨seen, ?_, fun served allocator scheduler enough => ⟨fun resting => ?_, fun held => ?_⟩⟩
  · obtain ⟨queue, linked, same⟩ := fits.linked
    exact ⟨queue, linked.chain, congrArg (List.map Threadpool.Work.routine) same⟩
  · exact resting.settled reached fits served allocator scheduler enough
  · exact resting_of_calm held.1 held.2 fits reached served

/-- A thread goes through `tpool_add_work`, past so many works. -/
def adds (caller : Caller n) (routine : Startup.Routine) (work : Address) (others : ℕ) :
    List (Label n) :=
  .pool (.add caller (some routine) ()) :: .pool (.malloc caller (some work)) ::
    (List.replicate (others + 3) (.pool (.adder caller)) ++
      [.pool (.signal caller ∅), .pool (.adder caller)])

/-- A worker goes from the lock into a routine, or from the end of one to its sleep. -/
def rounds (index : Fin n) : List (Label n) := List.replicate 6 (.pool (.worker index))

/-- The main thread starts up with four workers, and the fourth brings one command to its end and
goes to sleep. -/
def served (first second third fourth : Fin n) : List (Label n) :=
  [List.replicate 11 (.server (.main true)),
    [.pool (.spawn first), .pool (.spawn second), .pool (.spawn third), .pool (.spawn fourth),
      .server (.main true)],
    adds .main .eventSerial 16 0, adds .main .eventEthernet 32 1, [.server (.main true)],
    rounds first, rounds second, [.server (.serialStart first true)],
    adds (.worker first) .serialWrite 48 0, rounds third,
    [.server (.serial first (.serialRead true)), .server (.serial first (.serialMalloc true)),
      .server (.serial first .pendingAdd), .server (.serial first (.trigger true)),
      .server (.task (.fifoRead (some 1))), .server (.task .testPending)],
    adds .allocator .taskAllocteResources 64 0, rounds fourth,
    [.server (.task (.taskMalloc fourth (some ⟨0, 0, 0, none, none, none⟩))),
      .server (.task (.acquire fourth)), .server (.task (.schedule (.waitEmpty fourth))),
      .server (.task (.schedule (.insert fourth))),
      .server (.task (.schedule (.postFull fourth)))],
    rounds fourth,
    [.server (.task (.schedule .waitFull)), .server (.task (.schedule .remove)),
      .server (.task (.schedule .postEmpty)), .server (.task .excute),
      .server (.task .recycle)]].flatten

/-- After that run the server rests, with the command executed. -/
theorem server_on_pool_run :
    ∃ state : State 4, (machine .sysServer).run .start (served 0 1 2 3) = some state ∧
      state.server.tasks.added = [0] ∧ state.server.tasks.excuted = [0] ∧
      (Startup.machine .sysServer).run .start
        ((machine .sysServer).output tells .start (served 0 1 2 3)) = some state.outline ∧
      Resting .sysServer state := by
  obtain ⟨state, ran, main, allocator, scheduler, added, excuted, calm, still⟩ :
      ∃ state : State 4, (machine .sysServer).run .start (served 0 1 2 3) = some state ∧
        state.server.main = .serving ∧ state.server.allocator = true ∧
        state.server.scheduler = true ∧ state.server.tasks.added = [0] ∧
        state.server.tasks.excuted = [0] ∧ Startup.Calm state.outline ∧ Still state := by
    refine ⟨_, rfl, rfl, rfl, rfl, rfl, rfl,
      ⟨rfl, ⟨rfl, rfl, rfl, ?_, ?_, ?_, rfl, rfl⟩, rfl, ?_⟩, ?_, ?_⟩
    · exact fun index => by fin_cases index <;> rfl
    · exact fun index => by fin_cases index <;> rfl
    · exact Pipeline.Producer.noConfusion
    · exact fun index => by fin_cases index <;> first | exact .inl rfl | exact .inr rfl
    · rintro (_ | _ | index)
      · rfl
      · rfl
      · fin_cases index <;> rfl
    · exact fun index => by fin_cases index <;> first | exact .inl rfl | exact .inr rfl
  obtain ⟨seen, -, rests⟩ := server_on_pool ran
  exact ⟨state, ran, added, excuted, seen,
    (rests main allocator scheduler (by decide)).mpr ⟨calm, still⟩⟩

end SysServer.Threads
