import SysServer.Task.Accounting

/-!
# The pipeline comes to rest

Every message, every byte that another process writes to the FIFO and every failed read of it
gives the threads a bounded number of steps to take, and no step of theirs gives more: a trigger
byte is worth the fourteen steps from its read to `task_node_recycle` (`State.toil`). So the
threads cannot be busy for ever without input, whatever fails and however they are interleaved.
And they cannot block each other: where only input can move the pipeline it is quiescent, and what
is still pending there was lost to a failure or to a read of several triggers (`Label.loses`).
-/

namespace SysServer.Schedule

variable {ω τ : Type*}

/-- The steps that a worker in `task_schedule_add` still causes, up to the end of the task's
loop in the scheduler. -/
def AddPhase.toil : AddPhase τ → ℕ
  | .outside => 0
  | .waiting _ => 8
  | .slotted _ => 7
  | .inserted => 6

/-- The steps that the scheduler takes until it has the task. -/
def TakePhase.toil : TakePhase τ → ℕ
  | .waiting | .returned _ => 0
  | .granted => 4
  | .removed _ => 3

end SysServer.Schedule

namespace SysServer.Pipeline

open Library Function

/-- The steps that `event_serial` still causes. -/
def Producer.toil : Producer → ℕ
  | .reading | .stopped => 0
  | .received => 17
  | .filled _ => 16
  | .added => 15

/-- The steps that the allocator still causes. -/
def Allocator.toil : Allocator → ℕ
  | .reading => 0
  | .returned => 13
  | .dispatching => 12

/-- The steps that a worker's job still causes. -/
def Job.toil : Job → ℕ
  | .idle => 0
  | .running => 10
  | .allocated _ => 9

variable {ω : Type*}

/-- The steps that the scheduler takes with the task it has. -/
def State.executing (state : State ω) : ℕ :=
  match state.schedule.taker with
  | .returned _ => if state.recycling then 1 else 2
  | _ => 0

/-- The steps that the threads can take without input. -/
def State.toil [Fintype ω] (state : State ω) : ℕ :=
  state.producer.toil + 14 * state.fifo + state.allocator.toil + 11 * state.queued +
    tally Job.toil state.job +
    (tally Schedule.AddPhase.toil state.schedule.adder + 5 * state.schedule.tasksemFull +
      state.schedule.taker.toil) + state.executing

/-- Every step of the threads' own costs one. The world's cost nothing: a message or an error of
the serial line, another process's bytes, or a failed read of the FIFO. -/
def Label.cost : Label ω → ℕ
  | .serialRead _ | .stray _ | .fifoRead none => 0
  | _ => 1

/-- The steps that input causes. -/
def Label.brings : Label ω → ℕ
  | .serialRead true => 17
  | .stray count => 14 * count
  | .fifoRead none => 13
  | _ => 0

/-- The pending nodes that a step leaves without a trigger or a job: a failed write of the trigger,
a failed dispatch, a job without a task node, and the bytes of a read beyond its first. -/
def Label.loses : Label ω → ℕ
  | .trigger false | .dispatch false | .taskMalloc _ none => 1
  | label => label.surplus

variable [Fintype ω] [DecidableEq ω]

/-- A step inside the schedule list takes one step off. -/
theorem internal_toil {state : State ω} {schedule : Schedule.State ω TaskNode}
    {inner : Schedule.Label ω TaskNode} (inside : internal inner = true)
    (moves : Schedule.Moves state.schedule inner schedule) :
    ({ state with schedule } : State ω).toil + 1 ≤ state.toil := by
  have moved := fun worker phase =>
    tally_update Schedule.AddPhase.toil state.schedule.adder worker phase
  cases moves with
  | call place => cases inside
  | finish place => cases inside
  | @waitEmpty worker task free place count =>
    have moved := moved worker (.slotted task)
    simp only [place, Schedule.AddPhase.toil] at moved
    simp only [State.toil, State.executing]
    omega
  | @insert worker task place =>
    have moved := moved worker .inserted
    simp only [place, Schedule.AddPhase.toil] at moved
    simp only [State.toil, State.executing]
    omega
  | @postFull worker place =>
    have moved := moved worker .outside
    simp only [place, Schedule.AddPhase.toil] at moved
    simp only [State.toil, State.executing]
    omega
  | waitFull place count =>
    simp only [State.toil, State.executing, place, count, Schedule.TakePhase.toil]
    omega
  | miss place empty =>
    simp only [State.toil, State.executing, place, Schedule.TakePhase.toil]
    omega
  | remove place front =>
    simp only [State.toil, State.executing, place, Schedule.TakePhase.toil]
    omega
  | postEmpty place =>
    simp only [State.toil, State.executing, place, Schedule.TakePhase.toil]
    split <;> omega

/-- A call of `task_schedule_add` brings eight steps into the schedule list. -/
theorem call_toil {state : State ω} {schedule : Schedule.State ω TaskNode} {worker : ω}
    {tasknode : TaskNode} (moves : Schedule.Moves state.schedule (.call worker tasknode) schedule) :
    ({ state with schedule } : State ω).toil = state.toil + 8 := by
  cases moves with
  | call place =>
    have moved := tally_update Schedule.AddPhase.toil state.schedule.adder worker
      (.waiting tasknode)
    simp only [place, Schedule.AddPhase.toil] at moved
    simp only [State.toil, State.executing]
    omega

/-- A step is paid for by the steps that it or earlier input has brought. -/
theorem toil_moves {state next : State ω} {label : Label ω} (moves : Moves state label next) :
    next.toil + label.cost ≤ state.toil + label.brings := by
  have moved := fun worker phase => tally_update Job.toil state.job worker phase
  cases moves with
  | @serialRead ok place =>
    cases ok <;> simp [State.toil, State.executing, place, Producer.toil, Label.cost, Label.brings]
    omega
  | serialMalloc place | serialDrop place | pendingAdd place =>
    simp only [State.toil, State.executing, place, Producer.toil, Label.cost, Label.brings]
    omega
  | @trigger ok place =>
    simp only [State.toil, State.executing, place, Producer.toil, Label.cost, Label.brings]
    split <;> omega
  | stray =>
    simp only [State.toil, State.executing, Label.cost, Label.brings]
    omega
  | fifoFail place | fifoRead place some_bytes limit available =>
    simp only [State.toil, State.executing, place, Allocator.toil, Label.cost, Label.brings]
    omega
  | testPending place =>
    simp only [State.toil, State.executing, place, Label.cost, Label.brings]
    split <;> simp only [Allocator.toil] <;> omega
  | @dispatch ok place =>
    simp only [State.toil, State.executing, place, Allocator.toil, Label.cost, Label.brings]
    split <;> omega
  | @takeJob worker rest place free count =>
    have moved := moved worker .running
    simp only [place, Job.toil] at moved
    simp only [State.toil, State.executing, count, Label.cost, Label.brings]
    omega
  | @taskDrop worker place | @acquireNone worker node place empty =>
    have moved := moved worker .idle
    simp only [place, Job.toil] at moved
    simp only [State.toil, State.executing, Label.cost, Label.brings]
    omega
  | @taskMalloc worker raw place =>
    have moved := moved worker (.allocated { raw with number := state.taskCount })
    simp only [place, Job.toil] at moved
    simp only [State.toil, State.executing, Label.cost, Label.brings]
    omega
  | @acquire worker node first rest schedule place front inner =>
    have moved := moved worker .idle
    have called := call_toil inner
    simp only [place, Job.toil] at moved
    simp only [State.toil, Label.cost, Label.brings] at called ⊢
    simp only [State.executing] at called ⊢
    omega
  | schedule inside inner => exact internal_toil inside inner
  | excute place fresh =>
    simp only [State.toil, State.executing, place, fresh, Label.cost, Label.brings]
    simp
  | recycle place printed inner =>
    obtain rfl := finish_moves place inner
    simp [State.toil, State.executing, place, printed, Label.cost, Label.brings,
      Schedule.TakePhase.toil]

omit [DecidableEq ω] in
/-- No thread has a step to take before the first input. -/
theorem toil_start : (State.start : State ω).toil = 0 := by
  have idle : tally Job.toil (fun _ : ω => Job.idle) = 0 := tally_eq_zero fun _ => rfl
  have outside : tally Schedule.AddPhase.toil
      (fun _ : ω => (.outside : Schedule.AddPhase TaskNode)) = 0 := tally_eq_zero fun _ => rfl
  simp [State.toil, State.start, Schedule.State.start, State.executing, idle, outside,
    Producer.toil, Allocator.toil, Schedule.TakePhase.toil]

/-! ## What is left behind -/

/-- Every pending node is claimed or lost. -/
def Traced (state : State ω) (lost : ℕ) : Prop := state.pending.length ≤ state.claims + lost

/-- A step leaves no pending node without a claim but the ones that it loses. -/
theorem Traced.moves {state next : State ω} {label : Label ω} {lost : ℕ}
    (traced : Traced state lost) (moves : Moves state label next) :
    Traced next (lost + label.loses) := by
  have counted : state.pending.length ≤ state.claims + lost := traced
  have moved := fun worker phase => tally_update Job.claims state.job worker phase
  simp only [State.claims] at counted
  cases moves with
  | @serialRead ok place =>
    simp only [place, Producer.owes] at counted
    cases ok <;> exact counted
  | serialMalloc place | serialDrop place =>
    simp only [place, Producer.owes] at counted
    exact counted
  | pendingAdd place =>
    simp only [place, Producer.owes] at counted
    simp only [Traced, State.claims, Producer.owes, Label.loses, Label.surplus, Fifo.push,
      List.length_append, List.length_singleton]
    omega
  | @trigger ok place =>
    simp only [place, Producer.owes] at counted
    cases ok <;> simp [Traced, State.claims, Producer.owes, Label.loses, Label.surplus] <;> omega
  | stray =>
    simp only [Traced, State.claims, Label.loses, Label.surplus]
    omega
  | fifoFail place | fifoRead place some_bytes limit available =>
    simp only [place, Allocator.owes] at counted
    simp only [Traced, State.claims, Allocator.owes, Label.loses, Label.surplus]
    omega
  | testPending place =>
    simp only [place, Allocator.owes] at counted
    split
    · -- Nothing is pending, so nothing is lost with the allocator's claim.
      rename_i empty
      simp [Traced, empty]
    · exact counted
  | @dispatch ok place =>
    simp only [place, Allocator.owes] at counted
    cases ok <;> simp [Traced, State.claims, Allocator.owes, Label.loses, Label.surplus] <;> omega
  | @takeJob worker rest place free count =>
    have moved := moved worker .running
    simp only [place, Job.claims] at moved
    simp only [Traced, State.claims, Label.loses, Label.surplus]
    omega
  | @taskDrop worker place =>
    have moved := moved worker .idle
    simp only [place, Job.claims] at moved
    simp only [Traced, State.claims, Label.loses]
    omega
  | @taskMalloc worker raw place =>
    have moved := moved worker (.allocated { raw with number := state.taskCount })
    simp only [place, Job.claims] at moved
    simp only [Traced, State.claims, Label.loses, Label.surplus]
    omega
  | acquireNone place empty => simp [Traced, empty]
  | @acquire worker node first rest schedule place front inner =>
    have moved := moved worker .idle
    simp only [place, Job.claims] at moved
    simp only [front, List.length_cons] at counted
    simp only [Traced, State.claims, Label.loses, Label.surplus]
    omega
  | _ => exact counted

omit [DecidableEq ω] in
/-- Nothing is lost before the first step. -/
theorem Traced.start : Traced (State.start : State ω) 0 := Nat.zero_le _

/-! ## Where only input can move the pipeline -/

/-- A worker inside the first half of its job is not inside `task_schedule_add`. -/
def Seated {ω : Type*} (state : State ω) : Prop :=
  ∀ worker, state.job worker = .idle ∨ state.schedule.adder worker = .outside

namespace Seated

variable {state next : State ω}

omit [Fintype ω] in
/-- A worker moves on in the first half of its job. -/
theorem job {worker : ω} {phase : Job} (seated : Seated state)
    (free : phase = .idle ∨ state.schedule.adder worker = .outside) (other : ω) :
    update state.job worker phase other = .idle ∨ state.schedule.adder other = .outside := by
  rcases eq_or_ne other worker with rfl | different
  · rwa [update_self]
  · rw [update_of_ne different]
    exact seated other

omit [Fintype ω] in
/-- A worker moves on in `task_schedule_add`. -/
theorem adder {worker : ω} {phase : Schedule.AddPhase TaskNode} (seated : Seated state)
    (busy : state.schedule.adder worker ≠ .outside) (other : ω) :
    state.job other = .idle ∨ update state.schedule.adder worker phase other = .outside := by
  rcases eq_or_ne other worker with rfl | different
  · exact .inl ((seated other).resolve_right busy)
  · rw [update_of_ne different]
    exact seated other

omit [Fintype ω] in
/-- Every step keeps every worker in one place. -/
theorem moves {label : Label ω} (seated : Seated state) (moves : Moves state label next) :
    Seated next := by
  cases moves with
  | takeJob place free count => exact seated.job (.inr free)
  | @taskMalloc worker raw place =>
    exact seated.job (.inr ((seated worker).resolve_left (by simp [place])))
  | taskDrop place | acquireNone place empty => exact seated.job (.inl rfl)
  | @acquire worker node first rest schedule place front inner =>
    cases inner with
    | call outside =>
      intro other
      rcases eq_or_ne other worker with rfl | different
      · exact .inl (update_self ..)
      · simpa only [update_of_ne different] using seated other
  | schedule inside inner =>
    cases inner with
    | call place => cases inside
    | finish place => cases inside
    | waitEmpty place count => exact seated.adder (by simp [place])
    | insert place | postFull place => exact seated.adder (by simp [place])
    | _ => exact seated
  | recycle place printed inner =>
    obtain rfl := finish_moves place inner
    exact seated
  | _ => exact seated

end Seated

omit [Fintype ω] in
/-- In every reachable state every worker is in one place. -/
theorem seated_reachable {state : State ω} (reached : machine.Reachable state) : Seated state :=
  Machine.Reachable.invariant machine Seated (fun _ initial => initial ▸ fun _ => .inl rfl)
    (fun _ _ _ seated stepped => seated.moves (step_moves stepped)) reached

/-- Only input and workers that take jobs can move the pipeline. -/
def Blocked (state : State ω) : Prop :=
  ∀ label : Label ω, label.cost = 1 → (∀ worker, label ≠ .takeJob worker) →
    step state label = none

namespace Blocked

variable {state : State ω}

omit [Fintype ω] in
/-- `event_serial` waits for a message or has stopped. -/
theorem producer (blocked : Blocked state) : state.producer.toil = 0 := by
  cases place : state.producer with
  | reading | stopped => rfl
  | received =>
    have moved := blocked (.serialMalloc true) rfl (by simp)
    simp [step, place] at moved
  | filled node =>
    have moved := blocked .pendingAdd rfl (by simp)
    simp [step, place] at moved
  | added =>
    have moved := blocked (.trigger true) rfl (by simp)
    simp [step, place] at moved

omit [Fintype ω] in
/-- The allocator waits for a trigger. -/
theorem allocator (blocked : Blocked state) : state.allocator = .reading := by
  cases place : state.allocator with
  | reading => rfl
  | returned =>
    have moved := blocked .testPending rfl (by simp)
    simp [step, place] at moved
  | dispatching =>
    have moved := blocked (.dispatch true) rfl (by simp)
    simp [step, place] at moved

omit [Fintype ω] in
/-- Every trigger has been read. -/
theorem fifo (blocked : Blocked state) : state.fifo = 0 := by
  by_contra unread
  have moved := blocked (.fifoRead (some 1)) rfl (by simp)
  simp [step, blocked.allocator, Nat.one_le_iff_ne_zero, unread] at moved

omit [Fintype ω] in
/-- No worker is inside the first half of its job. -/
theorem job (blocked : Blocked state) (seated : Seated state) (worker : ω) :
    state.job worker = .idle := by
  cases place : state.job worker with
  | idle => rfl
  | running =>
    have moved := blocked (.taskMalloc worker none) rfl (by simp)
    simp [step, place] at moved
  | allocated node =>
    have outside := (seated worker).resolve_left (by simp [place])
    have moved := blocked (.acquire worker) rfl (by simp)
    simp only [step, place] at moved
    cases taken : Fifo.pop state.pending <;> simp [Schedule.step, outside, taken] at moved

omit [Fintype ω] in
/-- The scheduler waits for a task. -/
theorem taker (blocked : Blocked state) : state.schedule.taker = .waiting := by
  cases place : state.schedule.taker with
  | waiting => rfl
  | granted =>
    have moved := blocked (.schedule .remove) rfl (by simp)
    simp only [step, internal, ↓reduceIte, Schedule.step, place] at moved
    cases taken : Fifo.pop state.schedule.tasklist <;> simp [taken] at moved
  | removed task =>
    have moved := blocked (.schedule .postEmpty) rfl (by simp)
    simp [step, internal, Schedule.step, place] at moved
  | returned task =>
    cases recycling : state.recycling with
    | false =>
      have moved := blocked .excute rfl (by simp)
      simp [step, place, recycling] at moved
    | true =>
      have moved := blocked .recycle rfl (by simp)
      simp [step, place, recycling, Schedule.step] at moved

omit [Fintype ω] in
/-- Every worker in `task_schedule_add` waits for a slot. -/
theorem adder (blocked : Blocked state) (worker : ω) :
    state.schedule.adder worker = .outside ∨
      ∃ task, state.schedule.adder worker = .waiting task := by
  cases place : state.schedule.adder worker with
  | outside => exact .inl rfl
  | waiting task => exact .inr ⟨task, rfl⟩
  | slotted task =>
    have moved := blocked (.schedule (.insert worker)) rfl (by simp)
    simp [step, internal, Schedule.step, place] at moved
  | inserted =>
    have moved := blocked (.schedule (.postFull worker)) rfl (by simp)
    simp [step, internal, Schedule.step, place] at moved

/-- The schedule list is empty, and every slot is free. -/
theorem slots (blocked : Blocked state) {capacity : ℕ}
    (balanced : Schedule.Balanced capacity state.schedule) :
    state.schedule.tasklist = [] ∧ state.schedule.tasksemEmpty = capacity := by
  obtain ⟨slots, announced⟩ := balanced
  have unfilled := Schedule.tally_blocked blocked.adder Schedule.AddPhase.slots rfl fun _ => rfl
  have unannounced := Schedule.tally_blocked blocked.adder Schedule.AddPhase.posts rfl fun _ => rfl
  have untaken : state.schedule.tasksemFull = 0 := by
    cases count : state.schedule.tasksemFull with
    | zero => rfl
    | succ ready =>
      have moved := blocked (.schedule .waitFull) rfl (by simp)
      simp [step, internal, Schedule.step, blocked.taker, count] at moved
  simp only [blocked.taker, Schedule.TakePhase.owes, Schedule.TakePhase.grants] at slots announced
  refine ⟨List.length_eq_zero_iff.mp ?_, ?_⟩ <;> omega

/-- No worker is inside `task_schedule_add`: there is a slot for each. -/
theorem outside (blocked : Blocked state) (reached : machine.Reachable state) (worker : ω) :
    state.schedule.adder worker = .outside := by
  obtain ⟨-, free⟩ := blocked.slots
    (Schedule.balanced_reachable (follows_schedule.reachable reached))
  refine (blocked.adder worker).resolve_right ?_
  rintro ⟨task, place⟩
  have moved := blocked (.schedule (.waitEmpty worker)) rfl (by simp)
  simp [step, internal, Schedule.step, place, free, Schedule.elexsmrtTaskMaxnum] at moved

end Blocked

/-- Only input can move the pipeline. -/
def Stuck (state : State ω) : Prop := ∀ label : Label ω, label.cost = 1 → step state label = none

omit [Fintype ω] in
/-- Where only input can move the pipeline, no worker takes a job. -/
theorem Stuck.blocked {state : State ω} (stuck : Stuck state) : Blocked state :=
  fun label own _ => stuck label own

/-- Where only input can move it, the pipeline is quiescent. -/
theorem Stuck.quiescent [Nonempty ω] {state : State ω} (stuck : Stuck state)
    (reached : machine.Reachable state) : Quiescent state := by
  have blocked := stuck.blocked
  have job := blocked.job (seated_reachable reached)
  have adder := blocked.outside reached
  have queued : state.queued = 0 := by
    cases count : state.queued with
    | zero => rfl
    | succ rest =>
      obtain ⟨worker⟩ := ‹Nonempty ω›
      have moved := stuck (.takeJob worker) rfl
      simp [step, job worker, adder worker, count] at moved
  exact {
    fifo := blocked.fifo
    allocator := blocked.allocator
    queued
    job
    adder
    producer := fun place => absurd (place ▸ blocked.producer) (by decide)
    tasklist := (blocked.slots
      (Schedule.balanced_reachable (follows_schedule.reachable reached))).1
    taker := blocked.taker }

/-- Where the pipeline is quiescent and `event_serial` waits or has stopped, only input can move
it. -/
theorem Quiescent.stuck {state : State ω} (quiescent : Quiescent state)
    (reached : machine.Reachable state) (rests : state.producer.toil = 0) : Stuck state := by
  have untaken : state.schedule.tasksemFull = 0 := by
    have announced := (Schedule.balanced_reachable (follows_schedule.reachable reached)).announced
    simp only [quiescent.tasklist, List.length_nil] at announced
    omega
  intro label own
  cases label with
  | serialRead ok | stray count => cases own
  | serialMalloc ok | pendingAdd | trigger ok =>
    cases place : state.producer with
    | reading | stopped => simp [step, place]
    | _ => simp [place, Producer.toil] at rests
  | fifoRead result =>
    cases result with
    | none => cases own
    | some count =>
      simp only [step, quiescent.allocator, quiescent.fifo]
      exact if_neg (by omega)
  | testPending | dispatch ok => simp [step, quiescent.allocator]
  | takeJob worker => simp [step, quiescent.queued]
  | taskMalloc worker raw | acquire worker => simp [step, quiescent.job worker]
  | excute | recycle => simp [step, quiescent.taker]
  | schedule inner =>
    cases inner with
    | waitEmpty worker | insert worker | postFull worker =>
      simp [step, Schedule.step, quiescent.adder worker]
    | waitFull => simp [step, Schedule.step, untaken]
    | remove | postEmpty => simp [step, Schedule.step, quiescent.taker]
    | call worker task | finish => simp [step, internal]

/-- **The pipeline comes to rest.** In every run of at least one worker, whatever fails in it and
whoever else writes to the FIFO, the threads take no more steps of their own than the input has
brought; only input can move the pipeline exactly where it is quiescent and `event_serial` waits
or has stopped; and a quiescent pipeline has executed every command that a job has acquired, and
has no more commands pending than the run has lost to failures and to reads of several
triggers. (No memory is used after it was freed.) -/
theorem pipeline_settles [Nonempty ω] {labels : List (Label ω)} {state : State ω}
    (ran : machine.run .start labels = some state) :
    state.toil + Machine.weigh Label.cost labels ≤ Machine.weigh Label.brings labels ∧
      (Stuck state ↔ Quiescent state ∧ state.producer.toil = 0) ∧
      (Quiescent state → state.excuted.Perm state.acquired ∧
        state.added = state.acquired ++ state.pending ∧
        state.pending.length ≤ Machine.weigh Label.loses labels) := by
  have reached : machine.Reachable state := ⟨_, labels, rfl, ran⟩
  have everything : machine.Obeys (fun _ _ => True) .start labels :=
    machine.obeys_of_labels (fun _ _ => trivial) .start
  obtain ⟨-, paid⟩ := machine.run_pays (fun _ => True) State.toil
    (fun _ _ _ _ _ _ => trivial) (fun _ _ _ _ _ stepped => toil_moves (step_moves stepped))
    everything trivial ran
  rw [toil_start, Nat.zero_add] at paid
  have traced : state.pending.length ≤ state.claims + _ := machine.run_accumulates Traced
    (fun _ _ _ _ _ traced stepped => traced.moves (step_moves stepped)) everything .start ran
  refine ⟨paid, ⟨fun stuck => ⟨stuck.quiescent reached, stuck.blocked.producer⟩,
    fun rests => rests.1.stuck reached rests.2⟩, fun quiescent => ?_⟩
  rw [quiescent.claims, Nat.zero_add, Nat.zero_add] at traced
  exact ⟨quiescent.excuted reached, (recorded_reachable reached).arrived, traced⟩

/-- Two commands arrive; one read takes both triggers, and the one job takes the first command. -/
def batch {ω : Type*} (worker : ω) : List (Label ω) :=
  [.serialRead true, .serialMalloc true, .pendingAdd, .trigger true, .serialRead true,
    .serialMalloc true, .pendingAdd, .trigger true, .fifoRead (some 2), .testPending,
    .dispatch true, .takeJob worker, .taskMalloc worker (some ⟨0, 0, 0, none, none, none⟩),
    .acquire worker, .schedule (.waitEmpty worker), .schedule (.insert worker),
    .schedule (.postFull worker), .schedule .waitFull, .schedule .remove, .schedule .postEmpty,
    .excute, .recycle]

/-- After that run only input can move the pipeline, and one command is pending: the one that the
read of two triggers has lost. -/
theorem pipeline_settles_run :
    ∃ state : State (Fin 1), machine.run .start (batch 0) = some state ∧ Stuck state ∧
      state.pending = [1] ∧ state.excuted.Perm state.acquired ∧
      state.added = state.acquired ++ state.pending ∧
      state.pending.length ≤ Machine.weigh Label.loses (batch (0 : Fin 1)) := by
  obtain ⟨state, ran, pending, rests, quiescent⟩ : ∃ state : State (Fin 1),
      machine.run .start (batch 0) = some state ∧ state.pending = [1] ∧
        state.producer.toil = 0 ∧ Quiescent state :=
    ⟨_, rfl, rfl, rfl, rfl, rfl, rfl, Fin.forall_fin_one.mpr rfl, Fin.forall_fin_one.mpr rfl,
      Producer.noConfusion, rfl, rfl⟩
  obtain ⟨-, stuck, left⟩ := pipeline_settles ran
  exact ⟨state, ran, stuck.mpr ⟨quiescent, rests⟩, pending, left quiescent⟩

end SysServer.Pipeline
