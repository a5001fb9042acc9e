import Mathlib.Data.Multiset.Filter
import Mathlib.Data.Multiset.Range
import SysServer.Task.Pipeline

/-!
# Where the commands are

A pending node passes through five hands: `event_serial` adds it, a worker acquires it into a task
node, the worker inserts the task node, the scheduler removes it, prints it and frees it. Each
hand-over is recorded, and `Recorded` says how the records fit: each one continues the record of
the hand before it, in order where a list is first in, first out, and as a collection where the
workers' steps may overtake each other. These laws hold in every run, whatever fails in it.
-/

namespace SysServer.Pipeline

open Library Function

/-- The pending node that `event_serial` holds. -/
def Producer.nodes : Producer → List ℕ
  | .filled node => [node]
  | _ => []

/-- The commands that task nodes own, in order. -/
def commands (tasks : List TaskNode) : List ℕ := tasks.filterMap TaskNode.taskcom

/-- Task nodes one after another own their commands one after another. -/
@[simp] theorem commands_append (front back : List TaskNode) :
    commands (front ++ back) = commands front ++ commands back := List.filterMap_append

/-- No task node owns no command. -/
@[simp] theorem commands_nil : commands [] = [] := rfl

/-- A task node owns the command it points to. -/
theorem commands_singleton (tasknode : TaskNode) :
    commands [tasknode] = tasknode.taskcom.toList := by
  cases taken : tasknode.taskcom <;> simp [commands, taken]

/-- The commands of a collection of task nodes, as an additive function. -/
def commandsHom : Multiset TaskNode →+ Multiset ℕ where
  toFun := Multiset.filterMap TaskNode.taskcom
  map_zero' := Multiset.filterMap_zero _
  map_add' := Multiset.filterMap_add _

/-- That function takes the command of each task node. -/
@[simp] theorem commandsHom_apply (tasks : Multiset TaskNode) :
    commandsHom tasks = tasks.filterMap TaskNode.taskcom := rfl

/-- The task node that the scheduler has printed and not yet recycled. -/
def State.printing {ω : Type*} (state : State ω) : List TaskNode :=
  if state.recycling then state.schedule.taker.tasks else []

/-- A step of the schedule list that the pipeline does not make brings in no task node. -/
theorem internal_enters {ω : Type*} {label : Schedule.Label ω TaskNode}
    (inside : internal label = true) : label.enters = 0 := by
  cases label <;> first | rfl | cases inside

variable {ω : Type*} [DecidableEq ω]

/-- A step of the schedule list that the pipeline does not make finishes no task, and the
scheduler keeps a task it has been given. -/
theorem internal_keeps {label : Schedule.Label ω TaskNode}
    {before after : Schedule.State ω TaskNode} (inside : internal label = true)
    (moves : Schedule.Moves before label after) :
    after.finished = before.finished ∧
      ∀ tasknode, before.taker = .returned tasknode → after.taker = .returned tasknode := by
  cases moves with
  | call place => cases inside
  | finish place => cases inside
  | waitFull place count => exact ⟨rfl, fun _ held => by simp [place] at held⟩
  | miss place empty => exact ⟨rfl, fun _ held => by simp [place] at held⟩
  | remove place front => exact ⟨rfl, fun _ held => by simp [place] at held⟩
  | postEmpty place => exact ⟨rfl, fun _ held => by simp [place] at held⟩
  | _ => exact ⟨rfl, fun _ held => held⟩

/-- A call of `task_schedule_add` leaves the scheduler alone. -/
theorem call_keeps {worker : ω} {tasknode : TaskNode} {before after : Schedule.State ω TaskNode}
    (moves : Schedule.Moves before (.call worker tasknode) after) :
    after.finished = before.finished ∧ after.taker = before.taker ∧
      after.tasklist = before.tasklist ∧ after.inserted = before.inserted := by
  cases moves
  exact ⟨rfl, rfl, rfl, rfl⟩

/-- The end of the scheduler's loop finishes the task it held. -/
theorem finish_moves {tasknode : TaskNode} {before after : Schedule.State ω TaskNode}
    (place : before.taker = .returned tasknode) (moves : Schedule.Moves before .finish after) :
    after = { before with finished := before.finished ++ [tasknode], taker := .waiting } := by
  cases moves with
  | finish held =>
    obtain rfl := Schedule.TakePhase.returned.inj (place.symm.trans held)
    rfl

variable [Fintype ω]

/-- How the records of the hands fit together. -/
structure Recorded (state : State ω) : Prop where
  /-- Pending nodes are added in the order of their allocation, each once. -/
  received : state.added ++ state.producer.nodes = List.range state.pendingCount
  /-- Pending nodes are acquired in the order of their addition. -/
  arrived : state.added = state.acquired ++ state.pending
  /-- The task nodes inside and past `task_schedule_add` own the acquired nodes. -/
  carried : (tally Schedule.AddPhase.tasks state.schedule.adder +
      (state.schedule.inserted : Multiset TaskNode)).map TaskNode.taskcom =
    (state.acquired : Multiset ℕ).map some
  /-- What is printed has been given to the scheduler. -/
  given : state.recycling = true → ∃ tasknode, state.schedule.taker = .returned tasknode
  /-- The commands of the finished tasks and of the printed one have been executed. -/
  printed : state.excuted = commands (state.schedule.finished ++ state.printing)

/-- Every step keeps the records. -/
theorem Recorded.moves {state next : State ω} {label : Label ω} (recorded : Recorded state)
    (moves : Moves state label next) : Recorded next := by
  obtain ⟨received, arrived, carried, given, printed⟩ := recorded
  cases moves with
  | @serialRead ok place =>
    refine ⟨?_, arrived, carried, given, printed⟩
    simp only [place, Producer.nodes] at received
    cases ok <;> exact received
  | serialMalloc place =>
    refine ⟨?_, arrived, carried, given, printed⟩
    simp only [place, Producer.nodes, List.append_nil] at received
    simp only [Producer.nodes, received, List.range_succ]
  | serialDrop place =>
    refine ⟨?_, arrived, carried, given, printed⟩
    simpa only [place, Producer.nodes] using received
  | pendingAdd place =>
    refine ⟨?_, Fifo.history_push _ arrived, carried, given, printed⟩
    simpa only [place, Producer.nodes, Fifo.push, List.append_nil] using received
  | trigger place =>
    refine ⟨?_, arrived, carried, given, printed⟩
    simpa only [place, Producer.nodes] using received
  | acquire place front inner =>
    obtain ⟨finished, taker, -, -⟩ := call_keeps inner
    refine ⟨received, ?_, ?_, ?_, ?_⟩
    · simpa [front, Fifo.push] using arrived
    · rw [Schedule.custody_moves inner, Multiset.map_add, carried]
      simp [Schedule.Label.enters, Fifo.push, ← Multiset.coe_add]
    · rwa [taker]
    · simpa only [State.printing, finished, taker] using printed
  | schedule inside inner =>
    obtain ⟨finished, keeps⟩ := internal_keeps inside inner
    refine ⟨received, arrived, ?_, ?_, ?_⟩
    · rw [Schedule.custody_moves inner, internal_enters inside, add_zero]
      exact carried
    · intro recycling
      obtain ⟨tasknode, held⟩ := given recycling
      exact ⟨tasknode, keeps tasknode held⟩
    · rw [printed, finished]
      cases recycling : state.recycling with
      | false => simp only [State.printing, recycling]; rfl
      | true =>
        obtain ⟨tasknode, held⟩ := given recycling
        simp only [State.printing, recycling, held, keeps tasknode held]
  | excute place fresh =>
    refine ⟨received, arrived, carried, fun _ => ⟨_, place⟩, ?_⟩
    simp [State.printing, fresh, place, printed, Schedule.TakePhase.tasks, commands_singleton]
  | recycle place printed' inner =>
    obtain rfl := finish_moves place inner
    refine ⟨received, arrived, carried, fun impossible => absurd impossible (by simp), ?_⟩
    simp [State.printing, printed', place, printed, Schedule.TakePhase.tasks]
  | _ => exact ⟨received, arrived, carried, given, printed⟩

omit [DecidableEq ω] in
/-- The records fit before the first step. -/
theorem Recorded.start : Recorded (State.start : State ω) := by
  refine ⟨rfl, rfl, ?_, fun impossible => absurd impossible (by simp [State.start]), rfl⟩
  have empty : tally Schedule.AddPhase.tasks
      (fun _ : ω => (.outside : Schedule.AddPhase TaskNode)) = 0 := tally_eq_zero fun _ => rfl
  simp [State.start, Schedule.State.start, empty]

/-- The records fit in every reachable state. -/
theorem recorded_reachable {state : State ω} (reached : machine.Reachable state) :
    Recorded state := by
  refine Machine.Reachable.invariant _ Recorded ?_ ?_ reached
  · rintro _ rfl
    exact .start
  · exact fun _ _ _ recorded stepped => recorded.moves (step_moves stepped)

omit [DecidableEq ω] in
/-- No pending node is added twice. -/
theorem Recorded.nodup {state : State ω} (recorded : Recorded state) : state.added.Nodup :=
  (List.nodup_append.mp (recorded.received ▸ List.nodup_range)).1

omit [DecidableEq ω] in
/-- The acquired nodes are carried by workers or have been inserted. -/
theorem Recorded.acquired_eq {state : State ω} (recorded : Recorded state) :
    (state.acquired : Multiset ℕ) =
      commandsHom (tally Schedule.AddPhase.tasks state.schedule.adder) +
        (commands state.schedule.inserted : Multiset ℕ) := by
  have owned := congrArg (Multiset.filterMap id) recorded.carried
  simp only [Multiset.filterMap_map, Function.id_comp] at owned
  have same : (state.acquired : Multiset ℕ).filterMap some = state.acquired :=
    Multiset.filterMap_some _
  rw [← same, ← owned, Multiset.filterMap_add]
  rfl

omit [DecidableEq ω] in
/-- No pending node is inserted twice. -/
theorem Recorded.inserted_nodup {state : State ω} (recorded : Recorded state) :
    (commands state.schedule.inserted).Nodup := by
  have acquired : state.acquired.Nodup :=
    (List.nodup_append.mp (recorded.arrived ▸ recorded.nodup)).1
  have most : (commands state.schedule.inserted : Multiset ℕ) ≤ state.acquired :=
    recorded.acquired_eq ▸ Multiset.le_add_left _ _
  exact Multiset.coe_nodup.mp (Multiset.nodup_of_le most (Multiset.coe_nodup.mpr acquired))

omit [DecidableEq ω] in
/-- What has been executed is a first part of what has been inserted. -/
theorem Recorded.excuted_prefix {state : State ω} (recorded : Recorded state)
    (inserted : state.schedule.inserted = state.schedule.removed ++ state.schedule.tasklist)
    (removed : state.schedule.removed = state.schedule.finished ++ state.schedule.taker.tasks) :
    state.excuted <+: commands state.schedule.inserted := by
  rw [recorded.printed, inserted, removed, List.append_assoc]
  apply List.IsPrefix.filterMap
  apply (List.prefix_append_right_inj _).mpr
  unfold State.printing
  split
  · exact List.prefix_append _ _
  · exact List.nil_prefix

end SysServer.Pipeline
