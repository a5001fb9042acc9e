import SysServer.Task.Conservation

/-!
# Well-formed task nodes

What `task_node_recycle` relies on in the node it is given: the pending node it owns, the device
information, and the status. `task_parse` sets the first and leaves the others as `malloc` returned
them, and nothing between it and the scheduler sets them, so they are well formed exactly when the
memory already was.
-/

namespace SysServer.Pipeline

open Library Function

/-- `START` of `enum TASK_STATUS`. -/
def taskStart : UInt8 := 2

/-- The task nodes that have been given a command and not been recycled. -/
def State.owners {ω : Type*} [Fintype ω] (state : State ω) : Multiset TaskNode :=
  tally Schedule.AddPhase.tasks state.schedule.adder +
    ((state.schedule.taker.tasks ++ state.schedule.tasklist : List TaskNode) : Multiset TaskNode)

/-- A task node as the scheduler should be given it. -/
structure WellFormed {ω : Type*} [Fintype ω] (state : State ω) (tasknode : TaskNode) : Prop where
  /-- It points to a pending node that was added, is not freed and on no list, and that no other
  task node owns. -/
  taskcom : ∃ node, tasknode.taskcom = some node ∧ node ∈ state.added ∧
    .pending node ∉ state.freed ∧ node ∉ state.pending ∧
    state.owners.filter (fun other => other.taskcom = some node) = {tasknode}
  /-- It has no device information: the pipeline allocates none. -/
  devLatest : tasknode.devLatest = none
  /-- Its status is that of a task to be executed. -/
  status : tasknode.status = taskStart

/-- The memory of a task node that is given a command happens to hold no device information and the
right status. -/
def Blank {ω : Type*} (state : State ω) : Label ω → Prop
  | .acquire worker => ∀ node, state.job worker = .allocated node → state.pending ≠ [] →
      node.devLatest = none ∧ node.status = taskStart
  | _ => True

variable {ω : Type*} [Fintype ω] [DecidableEq ω]

/-- Every task node that was given a command, the recycled ones included. -/
def State.carriers {ω : Type*} [Fintype ω] (state : State ω) : Multiset TaskNode :=
  tally Schedule.AddPhase.tasks state.schedule.adder +
    (state.schedule.inserted : Multiset TaskNode)

/-- Every task node that was given a command has the two members that nothing sets right. -/
def Tidy (state : State ω) : Prop :=
  ∀ tasknode ∈ state.carriers, tasknode.devLatest = none ∧ tasknode.status = taskStart

/-- A step over blank memory keeps the task nodes tidy. -/
theorem Tidy.moves {state next : State ω} {label : Label ω} (tidy : Tidy state)
    (blank : Blank state label) (moves : Moves state label next) : Tidy next := by
  cases moves with
  | @acquire worker node first rest schedule place front inner =>
    intro tasknode inside
    rw [State.carriers, Schedule.custody_moves inner] at inside
    rcases Multiset.mem_add.mp inside with before | entered
    · exact tidy tasknode before
    · obtain rfl := Multiset.mem_singleton.mp entered
      exact blank node place (by simp [front])
  | schedule inside inner =>
    intro tasknode among
    rw [State.carriers, Schedule.custody_moves inner, internal_enters inside, add_zero] at among
    exact tidy tasknode among
  | recycle place printed inner =>
    have none : (Schedule.Label.finish : Schedule.Label ω TaskNode).enters = 0 := rfl
    intro tasknode among
    rw [State.carriers, Schedule.custody_moves inner, none, add_zero] at among
    exact tidy tasknode among
  | _ => exact tidy

omit [DecidableEq ω] in
/-- The scheduler's task node has been given a command. -/
theorem Tidy.clean {state : State ω} (tidy : Tidy state)
    (inserted : state.schedule.inserted = state.schedule.removed ++ state.schedule.tasklist)
    (removed : state.schedule.removed = state.schedule.finished ++ state.schedule.taker.tasks)
    (label : Label ω) : Clean state label := by
  cases label with
  | recycle =>
    intro tasknode place
    have among : tasknode ∈ state.carriers := by
      apply Multiset.mem_add.mpr
      right
      simp [inserted, removed, place, Schedule.TakePhase.tasks]
    exact (tidy tasknode among).1
  | _ => trivial

omit [DecidableEq ω] in
/-- No task node has been given a command before the first step. -/
theorem Tidy.start : Tidy (State.start : State ω) := by
  have outside : tally Schedule.AddPhase.tasks
      (fun _ : ω => (.outside : Schedule.AddPhase TaskNode)) = 0 := tally_eq_zero fun _ => rfl
  simp [Tidy, State.carriers, State.start, Schedule.State.start, outside]

/-- What holds of the pipeline while the memory of its task nodes is blank. -/
structure Orderly (state : State ω) : Prop where
  /-- The state is reached by a run. -/
  reached : machine.Reachable state
  /-- The task nodes are tidy. -/
  tidy : Tidy state
  /-- What is freed is what was owned. -/
  released : Released state

/-- A step over blank memory keeps the order. -/
theorem Orderly.step {state next : State ω} {label : Label ω} (orderly : Orderly state)
    (blank : Blank state label) (stepped : step state label = some next) : Orderly next := by
  obtain ⟨inserted, removed⟩ :=
    Schedule.histories_reachable (follows_schedule.reachable orderly.reached)
  have moves := step_moves stepped
  constructor
  · exact Machine.Reachable.step machine orderly.reached stepped
  · exact orderly.tidy.moves blank moves
  · exact orderly.released.moves (orderly.tidy.clean inserted removed label).harmless moves

omit [DecidableEq ω] in
/-- No two task nodes are given one command. -/
theorem carriers_nodup {state : State ω} (recorded : Recorded state) :
    (state.carriers.map TaskNode.taskcom).Nodup := by
  have acquired : state.acquired.Nodup :=
    (List.nodup_append.mp (recorded.arrived ▸ recorded.nodup)).1
  rw [State.carriers, recorded.carried]
  exact (Multiset.coe_nodup.mpr acquired).map (Option.some_injective ℕ)

/-- Among items with distinct values one alone has the value of any. -/
theorem filter_eq_singleton {α β : Type*} [DecidableEq β] {items : Multiset α} {value : α → β}
    (distinct : (items.map value).Nodup) {item : α} (inside : item ∈ items) :
    items.filter (fun other => value other = value item) = {item} := by
  have each : items.Nodup := Multiset.Nodup.of_map value distinct
  apply (Multiset.Nodup.ext (each.filter _) (Multiset.nodup_singleton item)).mpr
  intro other
  rw [Multiset.mem_filter, Multiset.mem_singleton]
  constructor
  · rintro ⟨among, same⟩
    exact Multiset.inj_on_of_nodup_map distinct other among item inside same
  · rintro rfl
    exact ⟨inside, rfl⟩

/-- **Task nodes are well formed while their memory is.** In every run in which every task node
that is given a command lies in memory that happens to hold no device information and the status
of a task to be executed, every task node on the schedule list and with the scheduler is well
formed in every state. -/
theorem scheduled_wellFormed {labels : List (Label ω)} {state : State ω}
    (blank : machine.Obeys Blank .start labels) (ran : machine.run .start labels = some state) :
    ∀ tasknode ∈ state.schedule.taker.tasks ++ state.schedule.tasklist,
      WellFormed state tasknode := by
  have begins : Orderly (State.start : State ω) := ⟨⟨_, [], rfl, rfl⟩, Tidy.start, Released.start⟩
  have orderly : Orderly state := machine.run_obeys_invariant Orderly
    (fun _ _ _ blank orderly stepped => orderly.step blank stepped) blank begins ran
  have recorded := recorded_reachable orderly.reached
  obtain ⟨inserted, removed⟩ :=
    Schedule.histories_reachable (follows_schedule.reachable orderly.reached)
  have order : state.schedule.inserted = state.schedule.finished ++
      (state.schedule.taker.tasks ++ state.schedule.tasklist) := by
    rw [inserted, removed, List.append_assoc]
  intro tasknode inside
  have owner : tasknode ∈ state.owners := Multiset.mem_add.mpr (.inr (Multiset.mem_coe.mpr inside))
  have fewer : state.owners ≤ state.carriers := by
    rw [State.owners, State.carriers, order]
    apply Multiset.add_le_add_left
    exact Multiset.coe_le.mpr (List.sublist_append_right _ _).subperm
  have carrier := Multiset.mem_of_le fewer owner
  obtain ⟨latest, status⟩ := orderly.tidy tasknode carrier
  have command := Multiset.mem_map_of_mem TaskNode.taskcom carrier
  rw [State.carriers, recorded.carried] at command
  obtain ⟨node, acquired, taken⟩ := Multiset.mem_map.mp command
  have arrived := recorded.nodup
  rw [recorded.arrived] at arrived
  refine ⟨⟨node, taken.symm, ?_, ?_, ?_, ?_⟩, latest, status⟩
  · rw [recorded.arrived]
    exact List.mem_append_left _ acquired
  · intro freed
    -- a freed pending node belongs to a finished task node, and no two own it
    have finished := mem_freed_pending.mpr freed
    rw [orderly.released.pendings] at finished
    have distinct := recorded.inserted_nodup
    rw [order, commands_append] at distinct
    have mine : node ∈ commands (state.schedule.taker.tasks ++ state.schedule.tasklist) :=
      List.mem_filterMap.mpr ⟨tasknode, inside, taken.symm⟩
    exact (List.nodup_append.mp distinct).2.2 node finished node mine rfl
  · intro pending
    exact (List.nodup_append.mp arrived).2.2 node acquired node pending rfl
  · have distinct := Multiset.nodup_of_le (Multiset.map_le_map fewer) (carriers_nodup recorded)
    rw [taken]
    exact filter_eq_singleton distinct owner

/-- A message whose task node lies in blank memory is scheduled in a well-formed task node. -/
theorem scheduled_wellFormed_run :
    ∃ state : State (Fin 1), state.schedule.tasklist = [⟨0, 0, taskStart, some 0, none, none⟩] ∧
      ∀ tasknode ∈ state.schedule.taker.tasks ++ state.schedule.tasklist,
        WellFormed state tasknode := by
  refine ⟨_, rfl, scheduled_wellFormed ?_ (show machine.run .start [.serialRead true,
    .serialMalloc true, .pendingAdd, .trigger true, .fifoRead (some 1), .testPending,
    .dispatch true, .takeJob 0, .taskMalloc 0 (some ⟨9, 0, taskStart, none, none, none⟩),
    .acquire 0, .schedule (.waitEmpty 0), .schedule (.insert 0)] = some _ from rfl)⟩
  iterate 9 refine .cons trivial rfl ?_
  refine .cons ?_ rfl ?_
  · intro node place _
    cases place
    exact ⟨rfl, rfl⟩
  · iterate 2 refine .cons trivial rfl ?_
    trivial

/-- Memory that held anything else is scheduled as it is: a wild pointer, which the scheduler will
free, and a status that says nothing. -/
theorem wild_latest_scheduled :
    ∃ state : State (Fin 1), machine.run .start [.serialRead true, .serialMalloc true,
        .pendingAdd, .trigger true, .fifoRead (some 1), .testPending, .dispatch true, .takeJob 0,
        .taskMalloc 0 (some ⟨9, 0, 0, none, some (.other 7), none⟩), .acquire 0,
        .schedule (.waitEmpty 0), .schedule (.insert 0)] = some state ∧
      state.schedule.tasklist = [⟨0, 0, 0, some 0, some (.other 7), none⟩] ∧
      ¬ WellFormed state ⟨0, 0, 0, some 0, some (.other 7), none⟩ := by
  refine ⟨_, rfl, rfl, ?_⟩
  intro wellFormed
  exact absurd wellFormed.devLatest (by decide)

end SysServer.Pipeline
