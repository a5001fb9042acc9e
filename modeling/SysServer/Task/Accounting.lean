import SysServer.Task.Custody

/-!
# Triggers against pending nodes

Every pending node is announced by one trigger byte, and every dispatched job takes one pending
node; but one read of the FIFO may take many trigger bytes, and the allocator dispatches one job
for it. `Accounted` counts both sides: a pending node is claimed by a job, by an unread byte, by
`event_serial` on its way to its trigger, by the allocator on its way to its dispatch, or by
nothing any more, which is one node for every byte a read returned beyond its first.
-/

namespace SysServer.Pipeline

open Library Function

/-- Memory is available, the FIFO is written by `task_trigger` alone, and its reads and writes
succeed. -/
def Label.Sound {ω : Type*} : Label ω → Prop
  | .serialMalloc ok | .trigger ok | .dispatch ok => ok = true
  | .stray _ => False
  | .fifoRead result => result ≠ none
  | .taskMalloc _ raw => raw ≠ none
  | _ => True

/-- The bytes that a read returned beyond its first. -/
def Label.surplus {ω : Type*} : Label ω → ℕ
  | .fifoRead (some count) => count - 1
  | _ => 0

/-- One for `event_serial` between `task_pending_add` and its trigger. -/
def Producer.owes : Producer → ℕ
  | .added => 1
  | _ => 0

/-- One for the allocator between a read and its dispatch. -/
def Allocator.owes : Allocator → ℕ
  | .reading => 0
  | .returned | .dispatching => 1

/-- One for a job that has not yet passed `task_pending_acquire`. -/
def Job.claims : Job → ℕ
  | .idle => 0
  | .running | .allocated _ => 1

variable {ω : Type*} [Fintype ω]

/-- The pending nodes that a job, a trigger byte, or a thread on its way to one will claim. -/
def State.claims (state : State ω) : ℕ :=
  state.queued + tally Job.claims state.job + state.fifo + state.producer.owes +
    state.allocator.owes

/-- The pending nodes that nothing will claim. -/
def State.unclaimed (state : State ω) : ℕ := state.pending.length - state.claims

/-- Every pending node is claimed or surplus. -/
def Accounted (state : State ω) (surplus : ℕ) : Prop :=
  state.pending.length = state.claims + surplus

/-- A job that has not passed `task_pending_acquire` finds a pending node. -/
theorem Accounted.job {state : State ω} {surplus : ℕ} (accounted : Accounted state surplus)
    (worker : ω) (claims : (state.job worker).claims = 1) : state.pending ≠ [] := by
  intro empty
  have one := le_tally Job.claims state.job worker
  simp only [Accounted, State.claims, empty, List.length_nil] at accounted
  omega

/-- The allocator's test after a read finds a pending node. -/
theorem Accounted.returned {state : State ω} {surplus : ℕ} (accounted : Accounted state surplus)
    (place : state.allocator = .returned) : state.pending ≠ [] := by
  intro empty
  simp only [Accounted, State.claims, place, Allocator.owes, empty, List.length_nil] at accounted
  omega

variable [DecidableEq ω]

/-- Every sound step keeps the account and adds its surplus. -/
theorem Accounted.moves {state next : State ω} {label : Label ω} {surplus : ℕ}
    (accounted : Accounted state surplus) (sound : label.Sound) (moves : Moves state label next) :
    Accounted next (surplus + label.surplus) := by
  have counted : state.pending.length = state.claims + surplus := accounted
  simp only [State.claims] at counted
  cases moves with
  | @serialRead ok place =>
    simp only [place, Producer.owes] at counted
    cases ok <;> exact counted
  | serialMalloc place =>
    simp only [place, Producer.owes] at counted
    exact counted
  | serialDrop place => cases sound
  | pendingAdd place =>
    simp only [place, Producer.owes] at counted
    simp only [Accounted, State.claims, Producer.owes, Label.surplus, Fifo.push,
      List.length_append, List.length_singleton]
    omega
  | trigger place =>
    obtain rfl : _ = true := sound
    simp only [place, Producer.owes] at counted
    simp only [Accounted, State.claims, Producer.owes, Label.surplus, ↓reduceIte]
    omega
  | stray => exact sound.elim
  | fifoFail place => exact absurd rfl sound
  | fifoRead place some_bytes limit available =>
    simp only [place, Allocator.owes] at counted
    simp only [Accounted, State.claims, Allocator.owes, Label.surplus]
    omega
  | testPending place =>
    -- The list is not empty, so the read is never wasted.
    simp only [place, Allocator.owes] at counted
    rw [if_neg (accounted.returned place)]
    exact counted
  | dispatch place =>
    obtain rfl : _ = true := sound
    simp only [place, Allocator.owes] at counted
    simp only [Accounted, State.claims, Allocator.owes, Label.surplus, ↓reduceIte]
    omega
  | @takeJob worker rest place free count =>
    have gain := tally_update_gain Job.claims state.job worker .running (by rw [place]; rfl)
    simp only [Job.claims] at gain
    simp only [Accounted, State.claims, Label.surplus]
    omega
  | taskDrop place => exact absurd rfl sound
  | @taskMalloc worker raw place =>
    have same : tally Job.claims (update state.job worker
        (.allocated { raw with number := state.taskCount })) = tally Job.claims state.job :=
      tally_update_same (by rw [place]; rfl)
    simp only [Accounted, State.claims, Label.surplus, same]
    exact counted
  | @acquireNone worker node place empty =>
    exact absurd empty (accounted.job worker (by rw [place]; rfl))
  | @acquire worker node first rest schedule place front inner =>
    have drop := tally_update_drop Job.claims state.job worker .idle rfl
    simp only [place, Job.claims] at drop
    simp only [front, List.length_cons] at counted
    simp only [Accounted, State.claims, Label.surplus]
    omega
  | _ => exact counted

/-- A sound run keeps the account and adds its surplus. -/
theorem Accounted.run {state last : State ω} {labels : List (Label ω)} {surplus : ℕ}
    (accounted : Accounted state surplus) (sound : ∀ label ∈ labels, label.Sound)
    (ran : machine.run state labels = some last) :
    Accounted last (surplus + Machine.weigh Label.surplus labels) :=
  machine.run_accumulates Accounted
    (fun _ _ _ _ sound accounted stepped => accounted.moves sound (step_moves stepped))
    (machine.obeys_of_labels sound state) accounted ran

omit [DecidableEq ω] in
/-- Nothing is pending and nothing is claimed before the first step. -/
theorem Accounted.start : Accounted (State.start : State ω) 0 := by
  have idle : tally Job.claims (fun _ : ω => Job.idle) = 0 := tally_eq_zero fun _ => rfl
  simp [Accounted, State.claims, State.start, Producer.owes, Allocator.owes, idle]

/-- **Trigger accounting.** In every run in which only `task_trigger` writes to the FIFO and
memory, reads and writes do not fail, the pending list is as long as the jobs, the unread bytes,
the two threads on their way and the bytes read beyond the first of each read add up to. So the
allocator's unlocked test and every job find a pending node, and the number of pending nodes that
nothing will claim never decreases. -/
theorem trigger_accounting {labels : List (Label ω)} {state : State ω}
    (sound : ∀ label ∈ labels, label.Sound)
    (ran : machine.run .start labels = some state) :
    state.pending.length = state.queued + tally Job.claims state.job + state.fifo +
        state.producer.owes + state.allocator.owes + Machine.weigh Label.surplus labels ∧
      (state.allocator = .returned → state.pending ≠ []) ∧
      (∀ worker node, state.job worker = .allocated node → state.pending ≠ []) ∧
      ∀ more last, (∀ label ∈ more, label.Sound) → machine.run state more = some last →
        state.unclaimed ≤ last.unclaimed := by
  have accounted := Accounted.run .start sound ran
  rw [Nat.zero_add] at accounted
  refine ⟨accounted, accounted.returned, ?_, ?_⟩
  · intro worker node place
    exact accounted.job worker (by rw [place]; rfl)
  · intro more last soundMore ranMore
    have later := accounted.run soundMore ranMore
    simp only [Accounted] at accounted later
    simp only [State.unclaimed]
    omega

/-- Two messages arrive before the allocator reads: it takes both bytes with one read, and the
one job it dispatches for them leaves the second node to nobody. -/
theorem trigger_accounting_run :
    ∃ state : State (Fin 2), state.pending = [1] ∧ state.queued = 0 ∧
      (state.pending.length = state.queued + tally Job.claims state.job + state.fifo +
          state.producer.owes + state.allocator.owes +
          Machine.weigh (Label.surplus (ω := Fin 2)) [.serialRead true, .serialMalloc true,
            .pendingAdd, .trigger true, .serialRead true, .serialMalloc true, .pendingAdd,
            .trigger true, .fifoRead (some 2), .testPending, .dispatch true, .takeJob 0,
            .taskMalloc 0 (some ⟨0, 0, 0, none, none, none⟩), .acquire 0] ∧
        (state.allocator = .returned → state.pending ≠ []) ∧
        (∀ worker node, state.job worker = .allocated node → state.pending ≠ []) ∧
        ∀ more last, (∀ label ∈ more, label.Sound) → machine.run state more = some last →
          state.unclaimed ≤ last.unclaimed) :=
  ⟨_, rfl, rfl, trigger_accounting (by simp [Label.Sound]) rfl⟩

/-! ## Stranded commands -/

/-- No trigger byte is unread, the allocator is blocked in its read, no job is queued or running,
`event_serial` is not between its add and its trigger, the schedule list is empty and the
scheduler waits for a task. -/
structure Quiescent (state : State ω) : Prop where
  /-- No unread byte. -/
  fifo : state.fifo = 0
  /-- The allocator waits for one. -/
  allocator : state.allocator = .reading
  /-- No queued job. -/
  queued : state.queued = 0
  /-- No job before `task_schedule_add`. -/
  job : ∀ worker, state.job worker = .idle
  /-- No job inside `task_schedule_add`. -/
  adder : ∀ worker, state.schedule.adder worker = .outside
  /-- No trigger on its way. -/
  producer : state.producer ≠ .added
  /-- Nothing is scheduled. -/
  tasklist : state.schedule.tasklist = []
  /-- Nothing is being executed. -/
  taker : state.schedule.taker = .waiting

omit [DecidableEq ω] in
/-- In a quiescent state nothing will claim a pending node. -/
theorem Quiescent.claims {state : State ω} (quiescent : Quiescent state) : state.claims = 0 := by
  have idle : tally Job.claims state.job = 0 :=
    tally_eq_zero fun worker => by rw [quiescent.job worker]; rfl
  have settled : state.producer.owes = 0 := by
    have apart := quiescent.producer
    cases place : state.producer with
    | added => exact absurd place apart
    | _ => rfl
  simp [State.claims, quiescent.queued, idle, quiescent.fifo, settled, quiescent.allocator,
    Allocator.owes]

/-- In a quiescent state every acquired command has been executed. -/
theorem Quiescent.excuted {state : State ω} (quiescent : Quiescent state)
    (reached : machine.Reachable state) : state.excuted.Perm state.acquired := by
  have recorded := recorded_reachable reached
  obtain ⟨inserted, removed⟩ := Schedule.histories_reachable (follows_schedule.reachable reached)
  have outside : tally Schedule.AddPhase.tasks state.schedule.adder = 0 :=
    tally_eq_zero fun worker => by rw [quiescent.adder worker]; rfl
  have nothing : state.printing = [] := by
    simp [State.printing, quiescent.taker, Schedule.TakePhase.tasks]
  have finished : state.schedule.inserted = state.schedule.finished := by
    simp [inserted, removed, quiescent.tasklist, quiescent.taker, Schedule.TakePhase.tasks]
  rw [← Multiset.coe_eq_coe, recorded.acquired_eq, recorded.printed, outside, map_zero, zero_add,
    nothing, List.append_nil, finished]

/-- **Quiescent pipelines have nothing pending exactly when no read took two triggers.** In a run
in which memory, reads and writes do not fail and only `task_trigger` writes to the FIFO, a
quiescent state has an empty pending list and has executed every command exactly when each
completed read of the FIFO returned a single byte. (No memory is used after it was freed.) -/
theorem quiescent_executed_iff {labels : List (Label ω)} {state : State ω}
    (sound : ∀ label ∈ labels, label.Sound) (ran : machine.run .start labels = some state)
    (quiescent : Quiescent state) :
    (state.pending = [] ∧ state.excuted.Perm state.added) ↔
      ∀ count, .fifoRead (some count) ∈ labels → count ≤ 1 := by
  have reached : machine.Reachable state := ⟨_, labels, rfl, ran⟩
  have arrived := (recorded_reachable reached).arrived
  have accounted := Accounted.run .start sound ran
  have unread : Machine.weigh Label.surplus labels = 0 ↔
      ∀ count, Label.fifoRead (some count) ∈ labels → count ≤ 1 := by
    rw [Machine.weigh_eq_zero]
    constructor
    · intro none_surplus count inside
      have surplus := none_surplus _ inside
      simp only [Label.surplus] at surplus
      omega
    · intro single label inside
      cases label with
      | fifoRead result =>
        cases result with
        | none => rfl
        | some count =>
          have one := single count inside
          simp only [Label.surplus]
          omega
      | _ => rfl
  simp only [Accounted, quiescent.claims, Nat.zero_add] at accounted
  rw [← unread, ← accounted, List.length_eq_zero_iff]
  constructor
  · exact And.left
  · intro empty
    refine ⟨empty, ?_⟩
    rw [arrived, empty, List.append_nil]
    exact quiescent.excuted reached

/-- A command received, announced, read and executed on its own leaves nothing behind. -/
theorem quiescent_executed_iff_run :
    ∃ state : State (Fin 2), state.added = [0] ∧ state.excuted = [0] ∧
      ((state.pending = [] ∧ state.excuted.Perm state.added) ↔
        ∀ count, .fifoRead (some count) ∈ ([.serialRead true, .serialMalloc true, .pendingAdd,
          .trigger true, .fifoRead (some 1), .testPending, .dispatch true, .takeJob 1,
          .taskMalloc 1 (some ⟨0, 0, 0, none, none, none⟩), .acquire 1, .schedule (.waitEmpty 1),
          .schedule (.insert 1), .schedule (.postFull 1), .schedule .waitFull, .schedule .remove,
          .schedule .postEmpty, .excute, .recycle] : List (Label (Fin 2))) → count ≤ 1) :=
  ⟨_, rfl, rfl, quiescent_executed_iff (by simp [Label.Sound]) rfl
    ⟨rfl, rfl, rfl, Fin.forall_fin_two.mpr ⟨rfl, rfl⟩, Fin.forall_fin_two.mpr ⟨rfl, rfl⟩,
      Producer.noConfusion, rfl, rfl⟩⟩

/-- Two commands arrive before the allocator reads both their trigger bytes at once. The first is
executed, every thread comes to rest, and the second is still pending. -/
theorem trigger_batch_strands :
    ¬ ∀ (labels : List (Label (Fin 1))) (state : State (Fin 1)),
      (∀ label ∈ labels, label.Sound) → machine.run .start labels = some state →
        Quiescent state → state.pending = [] ∧ state.excuted.Perm state.added := by
  intro always
  have ends := always [.serialRead true, .serialMalloc true, .pendingAdd, .trigger true,
    .serialRead true, .serialMalloc true, .pendingAdd, .trigger true, .fifoRead (some 2),
    .testPending, .dispatch true, .takeJob 0, .taskMalloc 0 (some ⟨0, 0, 0, none, none, none⟩),
    .acquire 0, .schedule (.waitEmpty 0), .schedule (.insert 0), .schedule (.postFull 0),
    .schedule .waitFull, .schedule .remove, .schedule .postEmpty, .excute, .recycle] _
    (by simp [Label.Sound]) rfl
    ⟨rfl, rfl, rfl, Fin.forall_fin_one.mpr rfl, Fin.forall_fin_one.mpr rfl,
      Producer.noConfusion, rfl, rfl⟩
  exact List.cons_ne_nil 1 [] ends.1

end SysServer.Pipeline
