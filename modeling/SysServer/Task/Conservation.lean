import Mathlib.Data.Fintype.BigOperators
import Mathlib.Tactic.Abel
import SysServer.Task.Custody

/-!
# No command lost, none released twice

Each added pending node is to be in one place: pending, owned by a task node of one worker,
scheduled, being executed, or released. The records of `Custody` already place it once as long as
`task_node_recycle` releases what the task node owns. It also frees `dev_latest`, which
`task_parse` leaves as `malloc` returned it. Whatever it frees then, `malloc` may give out again
while it is still in use: a pending node or a task node, but as well the head of a list, the task
manager or a queued work. `Clean` is the condition that the pointer is null; for what the model
itself records it is enough that it names no block of the pipeline (`Harmless`).
-/

namespace SysServer.Pipeline

open Library Function

/-- The places of a command that are not a worker. -/
inductive Station where
  /-- On the pending list. -/
  | pending
  /-- Owned by a task node on the schedule list. -/
  | scheduled
  /-- Owned by the task node that the scheduler has taken. -/
  | executing
  /-- Freed by `task_node_recycle`. -/
  | released
  deriving DecidableEq

/-- There are four stations. -/
instance : Fintype Station where
  elems := {.pending, .scheduled, .executing, .released}
  complete station := by cases station <;> decide

/-- The places of a command: a worker that holds its task node, or a station. -/
abbrev Place (ω : Type*) := ω ⊕ Station

/-- The pending nodes in a place, each as often as it is there. -/
def State.owned {ω : Type*} (state : State ω) : Place ω → Multiset ℕ
  | .inl worker => (state.schedule.adder worker).tasks.filterMap TaskNode.taskcom
  | .inr .pending => state.pending
  | .inr .scheduled => commands state.schedule.tasklist
  | .inr .executing => commands state.schedule.taker.tasks
  | .inr .released => state.freed.filterMap Block.pending?

/-- The task nodes that a job has allocated and not brought to `task_schedule_add`. -/
def Job.numbers : Job → Multiset ℕ
  | .allocated node => {node.number}
  | _ => 0

/-- `task_node_recycle` is not given a `dev_latest` that names a block of the pipeline: a pending
node, a task node, a list head, the task manager or a queued work. -/
def Harmless {ω : Type*} (state : State ω) : Label ω → Prop
  | .recycle => ∀ tasknode block, state.schedule.taker = .returned tasknode →
      tasknode.devLatest = some block → ∃ number, block = .other number
  | _ => True

/-- `task_node_recycle` is given a null `dev_latest`, so it frees what the task node owns and
nothing else. -/
def Clean {ω : Type*} (state : State ω) : Label ω → Prop
  | .recycle => ∀ tasknode, state.schedule.taker = .returned tasknode → tasknode.devLatest = none
  | _ => True

/-- A null pointer names no block. -/
theorem Clean.harmless {ω : Type*} {state : State ω} {label : Label ω}
    (clean : Clean state label) : Harmless state label := by
  cases label with
  | recycle =>
    intro tasknode block place stale
    rw [clean tasknode place] at stale
    cases stale
  | _ => trivial

/-- The released pending nodes are the freed blocks that are pending nodes. -/
theorem mem_freed_pending {freed : List Block} {node : ℕ} :
    node ∈ freed.filterMap Block.pending? ↔ .pending node ∈ freed := by
  simp only [List.mem_filterMap]
  constructor
  · rintro ⟨block, inside, named⟩
    cases block <;> simp_all [Block.pending?]
  · exact fun inside => ⟨_, inside, rfl⟩

/-- The released task nodes are the freed blocks that are task nodes. -/
theorem mem_freed_task {freed : List Block} {node : ℕ} :
    node ∈ freed.filterMap Block.task? ↔ .task node ∈ freed := by
  simp only [List.mem_filterMap]
  constructor
  · rintro ⟨block, inside, named⟩
    cases block <;> simp_all [Block.task?]
  · exact fun inside => ⟨_, inside, rfl⟩

/-- The blocks of one kind that a task node releases, when its device information is of no kind. -/
theorem taskNodeRecycle_filterMap {tasknode : TaskNode} (kind : Block → Option ℕ)
    (other : ∀ number, kind (.other number) = none)
    (harmless : ∀ block, tasknode.devLatest = some block → ∃ number, block = .other number) :
    (taskNodeRecycle tasknode).filterMap kind =
      (tasknode.taskcom.map Block.pending).toList.filterMap kind ++
        [Block.task tasknode.number].filterMap kind := by
  have latest : tasknode.devLatest.toList.filterMap kind = [] := by
    cases stale : tasknode.devLatest with
    | none => rfl
    | some block =>
      obtain ⟨number, rfl⟩ := harmless block stale
      simp [other]
  rw [taskNodeRecycle, List.filterMap_append, List.filterMap_append, latest, List.append_nil]

/-- A task node without a stale pointer releases the command it owns. -/
theorem taskNodeRecycle_pending {tasknode : TaskNode}
    (harmless : ∀ block, tasknode.devLatest = some block → ∃ number, block = .other number) :
    (taskNodeRecycle tasknode).filterMap Block.pending? = tasknode.taskcom.toList := by
  rw [taskNodeRecycle_filterMap Block.pending? (fun _ => rfl) harmless]
  cases tasknode.taskcom with
  | none => rfl
  | some node => rfl

/-- A task node without a stale pointer releases itself. -/
theorem taskNodeRecycle_task {tasknode : TaskNode}
    (harmless : ∀ block, tasknode.devLatest = some block → ∃ number, block = .other number) :
    (taskNodeRecycle tasknode).filterMap Block.task? = [tasknode.number] := by
  rw [taskNodeRecycle_filterMap Block.task? (fun _ => rfl) harmless]
  cases tasknode.taskcom with
  | none => rfl
  | some node => rfl

variable {ω : Type*} [Fintype ω] [DecidableEq ω]

/-- What has been freed is what the finished tasks owned and were, and the task nodes of failed
jobs. -/
structure Released (state : State ω) : Prop where
  /-- The commands of the finished tasks, in order. -/
  pendings : state.freed.filterMap Block.pending? = commands state.schedule.finished
  /-- Every allocated task node is with a job, in `task_schedule_add` or past it, or freed; the
  finished ones, which are past it, are freed as well. -/
  tasks : tally Job.numbers state.job +
      (tally Schedule.AddPhase.tasks state.schedule.adder +
        (state.schedule.inserted : Multiset TaskNode)).map TaskNode.number +
      (state.freed.filterMap Block.task? : Multiset ℕ) =
    Multiset.range state.taskCount + (state.schedule.finished : Multiset TaskNode).map
      TaskNode.number

/-- Every harmless step keeps the account of what has been freed. -/
theorem Released.moves {state next : State ω} {label : Label ω} (released : Released state)
    (harmless : Harmless state label) (moves : Moves state label next) : Released next := by
  obtain ⟨pendings, tasks⟩ := released
  cases moves with
  | @takeJob worker rest place free count =>
    refine ⟨pendings, ?_⟩
    rwa [tally_update_same (by rw [place]; rfl)]
  | @taskDrop worker place =>
    refine ⟨pendings, ?_⟩
    rwa [tally_update_same (by rw [place]; rfl)]
  | @taskMalloc worker raw place =>
    refine ⟨pendings, ?_⟩
    have gain := tally_update_gain Job.numbers state.job worker
      (.allocated { raw with number := state.taskCount }) (by rw [place]; rfl)
    simp only [Job.numbers] at gain
    simp only [gain, Multiset.range_succ, ← Multiset.singleton_add]
    rw [add_assoc _ (Multiset.range state.taskCount), ← tasks]
    abel
  | @acquireNone worker node place empty =>
    have drop := tally_update_drop Job.numbers state.job worker .idle rfl
    simp only [place, Job.numbers] at drop
    constructor
    · simp only [List.filterMap_append, List.filterMap_cons, List.filterMap_nil, Block.pending?,
        List.append_nil]
      exact pendings
    · rw [← tasks, ← drop]
      simp only [List.filterMap_append, List.filterMap_cons, List.filterMap_nil, Block.task?,
        ← Multiset.coe_add, Multiset.coe_singleton]
      abel
  | @acquire worker node first rest schedule place front inner =>
    have drop := tally_update_drop Job.numbers state.job worker .idle rfl
    simp only [place, Job.numbers] at drop
    obtain ⟨finished, -, -, -⟩ := call_keeps inner
    constructor
    · simpa only [finished] using pendings
    · simp only [finished]
      rw [Schedule.custody_moves inner, ← tasks, ← drop]
      simp only [Schedule.Label.enters, Multiset.map_add, Multiset.map_singleton]
      abel
  | schedule inside inner =>
    obtain ⟨finished, -⟩ := internal_keeps inside inner
    constructor
    · simpa only [finished] using pendings
    · simp only [finished]
      rw [Schedule.custody_moves inner, internal_enters inside, add_zero, tasks]
  | @recycle tasknode schedule place printed inner =>
    obtain rfl := finish_moves place inner
    constructor
    · have own := taskNodeRecycle_pending fun block => harmless tasknode block place
      simp only [List.filterMap_append, own, pendings, commands_append, commands_singleton]
    · have own := taskNodeRecycle_task fun block => harmless tasknode block place
      simp only [List.filterMap_append, own, ← Multiset.coe_add, Multiset.map_add]
      rw [← add_assoc, ← Multiset.map_add, tasks, add_assoc]
      rfl
  | _ => exact ⟨pendings, tasks⟩

omit [DecidableEq ω] in
/-- Nothing is allocated and nothing freed before the first step. -/
theorem Released.start : Released (State.start : State ω) := by
  have idle : tally Job.numbers (fun _ : ω => Job.idle) = 0 := tally_eq_zero fun _ => rfl
  have outside : tally Schedule.AddPhase.tasks
      (fun _ : ω => (.outside : Schedule.AddPhase TaskNode)) = 0 := tally_eq_zero fun _ => rfl
  constructor <;> simp [State.start, Schedule.State.start, idle, outside]

omit [DecidableEq ω] in
/-- What is in all places together. -/
theorem owned_total (state : State ω) :
    tally id state.owned =
      commandsHom (tally Schedule.AddPhase.tasks state.schedule.adder) +
        (state.pending + (commands state.schedule.tasklist +
          (commands state.schedule.taker.tasks + state.freed.filterMap Block.pending?))) := by
  have stations : (Finset.univ : Finset Station) =
    {.pending, .scheduled, .executing, .released} := rfl
  rw [tally_hom, tally, Fintype.sum_sum_type, stations]
  simp [State.owned, tally]

omit [DecidableEq ω] in
/-- All places together hold the added nodes. -/
theorem owned_added {state : State ω} (recorded : Recorded state) (released : Released state)
    (inserted : state.schedule.inserted = state.schedule.removed ++ state.schedule.tasklist)
    (removed : state.schedule.removed = state.schedule.finished ++ state.schedule.taker.tasks) :
    tally id state.owned = (state.added : Multiset ℕ) := by
  rw [owned_total, released.pendings, recorded.arrived, ← Multiset.coe_add,
    recorded.acquired_eq, inserted, removed]
  simp only [commands_append, ← Multiset.coe_add]
  abel

omit [DecidableEq ω] in
/-- The task nodes with a job, in `task_schedule_add`, with the scheduler, on the schedule list
and freed are all the allocated ones. -/
theorem Released.total {state : State ω} (released : Released state)
    (inserted : state.schedule.inserted = state.schedule.removed ++ state.schedule.tasklist)
    (removed : state.schedule.removed = state.schedule.finished ++ state.schedule.taker.tasks) :
    (tally Job.numbers state.job +
        (tally Schedule.AddPhase.tasks state.schedule.adder).map TaskNode.number +
        (state.schedule.taker.tasks.map TaskNode.number : Multiset ℕ)) +
      ((state.schedule.tasklist.map TaskNode.number : Multiset ℕ) +
        (state.freed.filterMap Block.task? : Multiset ℕ)) = Multiset.range state.taskCount := by
  have tasks := released.tasks
  rw [inserted, removed] at tasks
  simp only [Multiset.map_add, Multiset.map_coe, ← Multiset.coe_add] at tasks
  apply add_right_cancel (b := (state.schedule.finished.map TaskNode.number : Multiset ℕ))
  rw [← tasks]
  abel

omit [Fintype ω] in
/-- A job that ends outside `task_schedule_add` leaves the pending list as it was. -/
theorem parse_failed {state next : State ω} {label : Label ω} {worker : ω}
    (moves : Moves state label next) (begun : state.job worker ≠ .idle)
    (ended : next.job worker = .idle) (outside : next.schedule.adder worker = .outside) :
    next.pending = state.pending := by
  cases moves with
  | pendingAdd place => exact absurd ended begun
  | @acquire other node first rest schedule place front inner =>
    cases inner with
    | call free =>
      by_cases same : worker = other
      · subst same
        simp at outside
      · simp only [update_of_ne same] at ended
        exact absurd ended begun
  | _ => rfl

/-- The places of the commands, and what follows from them. -/
structure Conserved (state : State ω) : Prop where
  /-- Every added node is in exactly one place. -/
  place : ∀ node ∈ state.added, ∃! place, node ∈ state.owned place
  /-- It is there once, so one task node at most owns it. -/
  once : ∀ place, (state.owned place).Nodup
  /-- No other node is in any place. -/
  added : ∀ place, ∀ node ∈ state.owned place, node ∈ state.added
  /-- No command is executed twice. -/
  excuted : state.excuted.Nodup
  /-- No block of the pipeline is freed twice. -/
  freed : (state.freed.filterMap Block.pending?).Nodup ∧
    (state.freed.filterMap Block.task?).Nodup
  /-- No command is released without having been executed. -/
  vanished : ∀ node, .pending node ∈ state.freed → node ∈ state.excuted
  /-- No released node is on the pending list. -/
  pending : ∀ node ∈ state.pending, .pending node ∉ state.freed
  /-- No released node is on the schedule list, and none is owned by a node of it. -/
  scheduled : ∀ tasknode ∈ state.schedule.tasklist, .task tasknode.number ∉ state.freed ∧
    ∀ node, tasknode.taskcom = some node → .pending node ∉ state.freed
  /-- A worker whose job ends without a task node for `task_schedule_add` has left the pending
  list as it was. -/
  parse : ∀ label worker next, step state label = some next → state.job worker ≠ .idle →
    next.job worker = .idle → next.schedule.adder worker = .outside →
    next.pending = state.pending

/-- **Commands are conserved while no stale pointer is freed.** In every run, with any failures of
memory and of the FIFO and any foreign bytes in it, in which every task node that reaches
`task_node_recycle` happens to have a null `dev_latest`, every added pending node is in exactly one
place in every state. -/
theorem commands_conserved {labels : List (Label ω)} {state : State ω}
    (clean : machine.Obeys Clean .start labels) (ran : machine.run .start labels = some state) :
    Conserved state := by
  have reached : machine.Reachable state := ⟨_, labels, rfl, ran⟩
  have recorded := recorded_reachable reached
  obtain ⟨inserted, removed⟩ := Schedule.histories_reachable (follows_schedule.reachable reached)
  have released : Released state := machine.run_obeys_invariant Released
    (fun _ _ _ clean released stepped => released.moves clean.harmless (step_moves stepped))
    clean .start ran
  have total := owned_added recorded released inserted removed
  have distinct : (tally id state.owned).Nodup := total ▸ Multiset.coe_nodup.mpr recorded.nodup
  obtain ⟨once, one⟩ := tally_nodup distinct
  have apart : ∀ left right node, node ∈ state.owned left → node ∈ state.owned right →
      left = right := fun left right node first second =>
    (one node (tally_mem.mpr ⟨left, first⟩)).unique first second
  have numbers := released.total inserted removed ▸ Multiset.nodup_range state.taskCount
  obtain ⟨-, later, -⟩ := Multiset.nodup_add.mp numbers
  obtain ⟨-, freed, unlisted⟩ := Multiset.nodup_add.mp later
  have gone : ∀ node, .pending node ∈ state.freed → node ∈ state.owned (.inr .released) :=
    fun node inside => mem_freed_pending.mpr inside
  refine ⟨?_, once, ?_, ?_, ⟨once (.inr .released), freed⟩, ?_, ?_, ?_, ?_⟩
  · intro node inside
    exact one node (total ▸ Multiset.mem_coe.mpr inside)
  · intro place node inside
    exact Multiset.mem_coe.mp (total ▸ tally_mem.mpr ⟨place, inside⟩)
  · exact (recorded.excuted_prefix inserted removed).sublist.nodup recorded.inserted_nodup
  · intro node inside
    rw [recorded.printed, commands_append, ← released.pendings]
    exact List.mem_append_left _ (mem_freed_pending.mpr inside)
  · intro node inside again
    exact absurd (apart (.inr .pending) (.inr .released) node inside (gone node again)) (by simp)
  · intro tasknode inside
    refine ⟨fun again => ?_, fun node taken again => ?_⟩
    · exact Multiset.disjoint_left.mp unlisted
        (Multiset.mem_coe.mpr (List.mem_map_of_mem inside)) (mem_freed_task.mpr again)
    · have listed : node ∈ state.owned (.inr .scheduled) :=
        List.mem_filterMap.mpr ⟨tasknode, inside, taken⟩
      exact absurd (apart (.inr .scheduled) (.inr .released) node listed (gone node again))
        (by simp)
  · exact fun label worker next stepped => parse_failed (step_moves stepped)

/-- Foreign bytes bring a job that finds no command, and the command that comes later is executed
and released. -/
theorem commands_conserved_run :
    ∃ state : State (Fin 2), state.freed = [.task 0, .pending 0, .task 1] ∧
      Conserved state := by
  refine ⟨_, rfl, commands_conserved ?_ (show machine.run .start [.stray 9, .serialRead true,
    .serialMalloc true, .pendingAdd, .trigger false, .fifoRead (some 4), .testPending,
    .dispatch true, .fifoRead (some 5), .testPending, .dispatch true, .takeJob 0, .takeJob 1,
    .taskMalloc 0 (some ⟨0, 0, 0, none, none, none⟩),
    .taskMalloc 1 (some ⟨0, 0, 0, none, none, none⟩), .acquire 1, .acquire 0,
    .schedule (.waitEmpty 1), .schedule (.insert 1), .schedule (.postFull 1),
    .schedule .waitFull, .schedule .remove, .schedule .postEmpty, .excute, .recycle] =
      some _ from rfl)⟩
  iterate 24 refine .cons trivial rfl ?_
  refine .cons ?_ rfl trivial
  intro tasknode place
  cases place
  rfl

/-- The memory of the first task node happens to name the second pending node where `dev_latest`
is read: recycling the first frees the second while it is still on the pending list. -/
theorem stale_latest_released :
    ¬ ∀ (labels : List (Label (Fin 1))) (state : State (Fin 1)),
      machine.run .start labels = some state → Conserved state := by
  intro always
  have conserved := always [.serialRead true, .serialMalloc true, .pendingAdd, .trigger true,
    .serialRead true, .serialMalloc true, .pendingAdd, .trigger true, .fifoRead (some 1),
    .testPending, .dispatch true, .takeJob 0,
    .taskMalloc 0 (some ⟨0, 0, 0, none, some (.pending 1), none⟩), .acquire 0,
    .schedule (.waitEmpty 0), .schedule (.insert 0), .schedule (.postFull 0),
    .schedule .waitFull, .schedule .remove, .schedule .postEmpty, .excute, .recycle] _ rfl
  exact conserved.pending 1 List.mem_cons_self
    (List.mem_cons_of_mem _ List.mem_cons_self)

end SysServer.Pipeline
