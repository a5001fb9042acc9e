import SysServer.Task.Schedule

/-!
# The task pipeline

From the serial line to execution: `event_serial` adds a pending node and writes one trigger byte
to the FIFO; the allocator thread reads trigger bytes, looks at the pending list without its lock
and dispatches one `task_allocte_resources` job; a pool worker running the job takes the first
pending node into a task node and hands it to the schedule list; the scheduler thread takes task
nodes, executes them and recycles them. Every thread's steps are interleaved freely.

The pending list is the queue that its ring refines, the schedule list comes with its semaphores,
and the pool is a count of queued jobs for any idle worker. The contents of a message and of a
trigger byte decide nothing here and are left out; the contents of a task node's memory are not,
because `task_parse` sets one field of five.

Blocks of the heap are named by their allocation, so one name is never given out twice, and a
`free` is recorded but touches no list. The runs of this machine, and of every machine on top of
it, are therefore those of the program as long as it uses no memory that it has freed. A stale
`dev_latest` can make it do so: what it does up to there is in `Conservation` and `WellFormed`, and
the results about where the pipeline ends are meant for runs without one.
-/

namespace SysServer.Pipeline

open Library Function

/-- A block of the heap. The pipeline allocates the first two kinds and lives on the next three. -/
inductive Block where
  /-- The numbered pending node. -/
  | pending (number : ℕ)
  /-- The numbered task node. -/
  | task (number : ℕ)
  /-- The task manager, with the head of the pending list in it. -/
  | manager
  /-- The head of the schedule list, which is a task node as well. -/
  | schedHead
  /-- The numbered work of the pool. -/
  | work (number : ℕ)
  /-- Memory that does not belong to the pipeline. -/
  | other (number : ℕ)
  deriving DecidableEq

/-- The pending node that a block is. -/
def Block.pending? : Block → Option ℕ
  | .pending number => some number
  | _ => none

/-- The task node that a block is. -/
def Block.task? : Block → Option ℕ
  | .task number => some number
  | _ => none

/-- `taskl` without its list member, and which task node it is. -/
structure TaskNode where
  /-- The block of this node. -/
  number : ℕ
  /-- Task type. -/
  type : UInt32
  /-- Task status. -/
  status : UInt8
  /-- The pending node to be parsed. -/
  taskcom : Option ℕ
  /-- The latest information of the device. -/
  devLatest : Option Block
  /-- The current information of the device. -/
  devCurrt : Option Block
  deriving DecidableEq

/-- Where `event_serial` stands. -/
inductive Producer where
  /-- At `evop_read`. -/
  | reading
  /-- Data has been read; at `malloc`. -/
  | received
  /-- The pending node is filled; at `task_pending_add`. -/
  | filled (node : ℕ)
  /-- The pending node is added; at `trigger`. -/
  | added
  /-- The loop has ended. -/
  | stopped
  deriving DecidableEq

/-- Where `task_allocate` stands. -/
inductive Allocator where
  /-- In `triggered`, at the read of the FIFO. -/
  | reading
  /-- The read has returned; at the unlocked `list_empty`. -/
  | returned
  /-- The list was not empty; at `tpool_add_work`. -/
  | dispatching
  deriving DecidableEq

/-- Where a pool worker stands in `task_allocte_resources`, up to its call of
`task_schedule_add`. -/
inductive Job where
  /-- Not running the job. -/
  | idle
  /-- In `task_parse`, at `malloc`. -/
  | running
  /-- In `task_parse`, at `task_pending_acquire`. -/
  | allocated (node : TaskNode)
  deriving DecidableEq

/-- The shared state, the threads' places, and the histories of the commands. No step reads a
history. -/
structure State (ω : Type*) where
  /-- The serial thread. -/
  producer : Producer
  /-- Unread bytes of the FIFO. -/
  fifo : ℕ
  /-- The allocator thread. -/
  allocator : Allocator
  /-- The pending list. -/
  pending : List ℕ
  /-- Jobs queued in the pool. -/
  queued : ℕ
  /-- Each worker's place before `task_schedule_add`. -/
  job : ω → Job
  /-- The schedule list, its semaphores, the workers inside `task_schedule_add` and the
  scheduler. -/
  schedule : Schedule.State ω TaskNode
  /-- The scheduler has printed its task and is at `task_node_recycle`. -/
  recycling : Bool
  /-- Pending nodes allocated so far. -/
  pendingCount : ℕ
  /-- Task nodes allocated so far. -/
  taskCount : ℕ
  /-- Pending nodes in order of `task_pending_add`. -/
  added : List ℕ
  /-- Pending nodes in order of `task_pending_acquire`. -/
  acquired : List ℕ
  /-- Pending nodes in order of `task_excute`. -/
  excuted : List ℕ
  /-- Blocks in order of `free`. -/
  freed : List Block

/-- A step of a thread, with what the allocator of memory and the kernel answer. -/
inductive Label (ω : Type*) where
  /-- `evop_read` returns data, or fails and ends the loop. -/
  | serialRead (ok : Bool)
  /-- `malloc` of a pending node. -/
  | serialMalloc (ok : Bool)
  /-- `task_pending_add`. -/
  | pendingAdd
  /-- `task_trigger` writes its byte, or the write fails. -/
  | trigger (ok : Bool)
  /-- Another process writes bytes to the FIFO. -/
  | stray (count : ℕ)
  /-- `read` in `task_triggered` returns a number of bytes, or fails. -/
  | fifoRead (result : Option ℕ)
  /-- The allocator's `list_empty`. -/
  | testPending
  /-- `tpool_add_work` of the job, which fails when its `malloc` does. -/
  | dispatch (ok : Bool)
  /-- An idle worker takes a queued job. -/
  | takeJob (worker : ω)
  /-- `malloc` of a task node: the block with the contents it happens to have, or null. -/
  | taskMalloc (worker : ω) (raw : Option TaskNode)
  /-- `task_pending_acquire` and what `task_parse` does with its result. -/
  | acquire (worker : ω)
  /-- A semaphore operation or critical section of the schedule list. -/
  | schedule (inner : Schedule.Label ω TaskNode)
  /-- `task_excute` prints the task. -/
  | excute
  /-- `task_node_recycle`. -/
  | recycle

/-- The steps of the schedule list other than the call and the return that the pipeline makes. -/
def internal {ω : Type*} : Schedule.Label ω TaskNode → Bool
  | .call _ _ | .finish => false
  | _ => true

/-- `task_node_recycle` — free the pending node, the device information and the task node, each
unless it is null. -/
def taskNodeRecycle (tasknode : TaskNode) : List Block :=
  (tasknode.taskcom.map Block.pending).toList ++ tasknode.devLatest.toList ++
    [.task tasknode.number]

variable {ω : Type*} [DecidableEq ω]

/-- All threads at the start of their loops, both lists empty. -/
def State.start : State ω where
  producer := .reading
  fifo := 0
  allocator := .reading
  pending := []
  queued := 0
  job := fun _ => .idle
  schedule := .start Schedule.elexsmrtTaskMaxnum
  recycling := false
  pendingCount := 0
  taskCount := 0
  added := []
  acquired := []
  excuted := []
  freed := []

/-- One step. A failed write or read of the FIFO is reported and the thread goes on, and a failed
`malloc` drops the message, the job or the dispatch. -/
def step (state : State ω) : Label ω → Option (State ω)
  | .serialRead ok =>
    match state.producer with
    | .reading => some { state with producer := if ok then .received else .stopped }
    | _ => none
  | .serialMalloc ok =>
    match state.producer with
    | .received =>
      if ok then
        some { state with
          producer := .filled state.pendingCount
          pendingCount := state.pendingCount + 1 }
      else some { state with producer := .reading }
    | _ => none
  | .pendingAdd =>
    match state.producer with
    | .filled node =>
      some { state with
        producer := .added
        pending := Fifo.push state.pending node
        added := Fifo.push state.added node }
    | _ => none
  | .trigger ok =>
    match state.producer with
    | .added =>
      some { state with producer := .reading, fifo := state.fifo + if ok then 1 else 0 }
    | _ => none
  | .stray count => some { state with fifo := state.fifo + count }
  | .fifoRead result =>
    match state.allocator, result with
    | .reading, none => some { state with allocator := .returned }
    | .reading, some count =>
      -- The buffer of `task_allocate` is read with a limit of 127 bytes.
      if 1 ≤ count ∧ count ≤ 127 ∧ count ≤ state.fifo then
        some { state with allocator := .returned, fifo := state.fifo - count }
      else none
    | _, _ => none
  | .testPending =>
    match state.allocator with
    | .returned =>
      some { state with allocator := if state.pending = [] then .reading else .dispatching }
    | _ => none
  | .dispatch ok =>
    match state.allocator with
    | .dispatching =>
      some { state with allocator := .reading, queued := state.queued + if ok then 1 else 0 }
    | _ => none
  | .takeJob worker =>
    match state.job worker, state.schedule.adder worker, state.queued with
    | .idle, .outside, rest + 1 =>
      some { state with queued := rest, job := update state.job worker .running }
    | _, _, _ => none
  | .taskMalloc worker raw =>
    match state.job worker, raw with
    | .running, none => some { state with job := update state.job worker .idle }
    | .running, some raw =>
      some { state with
        job := update state.job worker (.allocated { raw with number := state.taskCount })
        taskCount := state.taskCount + 1 }
    | _, _ => none
  | .acquire worker =>
    match state.job worker with
    | .allocated node =>
      match Fifo.pop state.pending with
      | none =>
        some { state with
          job := update state.job worker .idle
          freed := state.freed ++ [.task node.number] }
      | some (first, rest) =>
        (Schedule.step state.schedule (.call worker { node with taskcom := some first })).map
          fun schedule =>
            { state with
              job := update state.job worker .idle
              pending := rest
              acquired := Fifo.push state.acquired first
              schedule }
    | _ => none
  | .schedule inner =>
    if internal inner then
      (Schedule.step state.schedule inner).map fun schedule => { state with schedule }
    else none
  | .excute =>
    match state.schedule.taker, state.recycling with
    | .returned tasknode, false =>
      some { state with
        recycling := true
        excuted := state.excuted ++ tasknode.taskcom.toList }
    | _, _ => none
  | .recycle =>
    match state.schedule.taker, state.recycling with
    | .returned tasknode, true =>
      (Schedule.step state.schedule .finish).map fun schedule =>
        { state with
          recycling := false
          freed := state.freed ++ taskNodeRecycle tasknode
          schedule }
    | _, _ => none

/-- The pipeline from its start. -/
def machine : Machine (State ω) (Label ω) where
  initial state := state = .start
  step := step

/-- Everything a step can do. -/
inductive Moves (state : State ω) : Label ω → State ω → Prop where
  /-- A message arrives or the serial line fails. -/
  | serialRead {ok : Bool} (place : state.producer = .reading) :
    Moves state (.serialRead ok)
      { state with producer := if ok then .received else .stopped }
  /-- A pending node is allocated and filled. -/
  | serialMalloc (place : state.producer = .received) :
    Moves state (.serialMalloc true)
      { state with
        producer := .filled state.pendingCount
        pendingCount := state.pendingCount + 1 }
  /-- The message is dropped. -/
  | serialDrop (place : state.producer = .received) :
    Moves state (.serialMalloc false) { state with producer := .reading }
  /-- The pending node is added. -/
  | pendingAdd {node : ℕ} (place : state.producer = .filled node) :
    Moves state .pendingAdd
      { state with
        producer := .added
        pending := Fifo.push state.pending node
        added := Fifo.push state.added node }
  /-- The trigger byte is written, or not. -/
  | trigger {ok : Bool} (place : state.producer = .added) :
    Moves state (.trigger ok)
      { state with producer := .reading, fifo := state.fifo + if ok then 1 else 0 }
  /-- Other bytes arrive. -/
  | stray {count : ℕ} : Moves state (.stray count) { state with fifo := state.fifo + count }
  /-- The read fails. -/
  | fifoFail (place : state.allocator = .reading) :
    Moves state (.fifoRead none) { state with allocator := .returned }
  /-- The read returns a number of bytes. -/
  | fifoRead {count : ℕ} (place : state.allocator = .reading) (some_bytes : 1 ≤ count)
    (limit : count ≤ 127) (available : count ≤ state.fifo) :
    Moves state (.fifoRead (some count))
      { state with allocator := .returned, fifo := state.fifo - count }
  /-- The unlocked test. -/
  | testPending (place : state.allocator = .returned) :
    Moves state .testPending
      { state with allocator := if state.pending = [] then .reading else .dispatching }
  /-- The dispatch succeeds or fails. -/
  | dispatch {ok : Bool} (place : state.allocator = .dispatching) :
    Moves state (.dispatch ok)
      { state with allocator := .reading, queued := state.queued + if ok then 1 else 0 }
  /-- A worker begins the job. -/
  | takeJob {worker : ω} {rest : ℕ} (place : state.job worker = .idle)
    (free : state.schedule.adder worker = .outside) (count : state.queued = rest + 1) :
    Moves state (.takeJob worker)
      { state with queued := rest, job := update state.job worker .running }
  /-- The job ends without a task node. -/
  | taskDrop {worker : ω} (place : state.job worker = .running) :
    Moves state (.taskMalloc worker none) { state with job := update state.job worker .idle }
  /-- A task node is allocated. -/
  | taskMalloc {worker : ω} {raw : TaskNode} (place : state.job worker = .running) :
    Moves state (.taskMalloc worker (some raw))
      { state with
        job := update state.job worker (.allocated { raw with number := state.taskCount })
        taskCount := state.taskCount + 1 }
  /-- The pending list is empty and the task node is freed. -/
  | acquireNone {worker : ω} {node : TaskNode} (place : state.job worker = .allocated node)
    (empty : state.pending = []) :
    Moves state (.acquire worker)
      { state with
        job := update state.job worker .idle
        freed := state.freed ++ [.task node.number] }
  /-- The first pending node is taken and brought to `task_schedule_add`. -/
  | acquire {worker : ω} {node : TaskNode} {first : ℕ} {rest : List ℕ}
    {schedule : Schedule.State ω TaskNode} (place : state.job worker = .allocated node)
    (front : state.pending = first :: rest)
    (moves : Schedule.Moves state.schedule (.call worker { node with taskcom := some first })
      schedule) :
    Moves state (.acquire worker)
      { state with
        job := update state.job worker .idle
        pending := rest
        acquired := Fifo.push state.acquired first
        schedule }
  /-- The schedule list moves. -/
  | schedule {inner : Schedule.Label ω TaskNode} {schedule : Schedule.State ω TaskNode}
    (inside : internal inner = true) (moves : Schedule.Moves state.schedule inner schedule) :
    Moves state (.schedule inner) { state with schedule }
  /-- The scheduler prints its task. -/
  | excute {tasknode : TaskNode} (place : state.schedule.taker = .returned tasknode)
    (fresh : state.recycling = false) :
    Moves state .excute
      { state with
        recycling := true
        excuted := state.excuted ++ tasknode.taskcom.toList }
  /-- The scheduler frees its task. -/
  | recycle {tasknode : TaskNode} {schedule : Schedule.State ω TaskNode}
    (place : state.schedule.taker = .returned tasknode) (printed : state.recycling = true)
    (moves : Schedule.Moves state.schedule .finish schedule) :
    Moves state .recycle
      { state with
        recycling := false
        freed := state.freed ++ taskNodeRecycle tasknode
        schedule }

/-- A step is one of the moves. -/
theorem step_moves {state next : State ω} {label : Label ω}
    (stepped : step state label = some next) : Moves state label next := by
  cases label with
  | serialRead ok =>
    simp only [step] at stepped
    split at stepped
    · rename_i place
      exact Option.some.inj stepped ▸ .serialRead place
    · cases stepped
  | serialMalloc ok =>
    simp only [step] at stepped
    split at stepped
    · rename_i place
      cases ok with
      | true => exact Option.some.inj stepped ▸ .serialMalloc place
      | false => exact Option.some.inj stepped ▸ .serialDrop place
    · cases stepped
  | pendingAdd =>
    simp only [step] at stepped
    split at stepped
    · rename_i place
      exact Option.some.inj stepped ▸ .pendingAdd place
    · cases stepped
  | trigger ok =>
    simp only [step] at stepped
    split at stepped
    · rename_i place
      exact Option.some.inj stepped ▸ .trigger place
    · cases stepped
  | stray count => exact Option.some.inj stepped ▸ .stray
  | fifoRead result =>
    simp only [step] at stepped
    split at stepped
    · rename_i place
      exact Option.some.inj stepped ▸ .fifoFail place
    · rename_i place
      split at stepped
      · rename_i bounds
        exact Option.some.inj stepped ▸ .fifoRead place bounds.1 bounds.2.1 bounds.2.2
      · cases stepped
    · cases stepped
  | testPending =>
    simp only [step] at stepped
    split at stepped
    · rename_i place
      exact Option.some.inj stepped ▸ .testPending place
    · cases stepped
  | dispatch ok =>
    simp only [step] at stepped
    split at stepped
    · rename_i place
      exact Option.some.inj stepped ▸ .dispatch place
    · cases stepped
  | takeJob worker =>
    simp only [step] at stepped
    split at stepped
    · rename_i place free count
      exact Option.some.inj stepped ▸ .takeJob place free count
    · cases stepped
  | taskMalloc worker raw =>
    simp only [step] at stepped
    split at stepped
    · rename_i place
      exact Option.some.inj stepped ▸ .taskDrop place
    · rename_i place
      exact Option.some.inj stepped ▸ .taskMalloc place
    · cases stepped
  | acquire worker =>
    simp only [step] at stepped
    split at stepped
    · rename_i place
      split at stepped
      · rename_i taken
        exact Option.some.inj stepped ▸ .acquireNone place (Fifo.pop_eq_none.mp taken)
      · rename_i taken
        obtain ⟨schedule, called, rfl⟩ := Option.map_eq_some_iff.mp stepped
        exact .acquire place (Fifo.pop_eq_some.mp taken) (Schedule.step_moves called)
    · cases stepped
  | schedule inner =>
    simp only [step] at stepped
    split at stepped
    · rename_i inside
      obtain ⟨schedule, moved, rfl⟩ := Option.map_eq_some_iff.mp stepped
      exact .schedule inside (Schedule.step_moves moved)
    · cases stepped
  | excute =>
    simp only [step] at stepped
    split at stepped
    · rename_i place fresh
      exact Option.some.inj stepped ▸ .excute place fresh
    · cases stepped
  | recycle =>
    simp only [step] at stepped
    split at stepped
    · rename_i place printed
      obtain ⟨schedule, moved, rfl⟩ := Option.map_eq_some_iff.mp stepped
      exact .recycle place printed (Schedule.step_moves moved)
    · cases stepped

/-- Every step of the pipeline is a step of its schedule list or leaves it alone. -/
theorem follows_schedule : Machine.Follows (machine (ω := ω))
    (Schedule.machine Schedule.elexsmrtTaskMaxnum) State.schedule where
  initial := by
    rintro _ rfl
    rfl
  step state label next stepped := by
    have moves : Moves state label next := step_moves stepped
    cases moves with
    | acquire place front inner => exact .inr ⟨.call _ _, inner.step⟩
    | @schedule label _ inside inner => exact .inr ⟨label, inner.step⟩
    | recycle place printed inner => exact .inr ⟨.finish, inner.step⟩
    | _ => exact .inl rfl

end SysServer.Pipeline
