import Mathlib.Tactic.FinCases
import SysServer.Pool.Threadpool
import SysServer.Task.Settling
import SysServer.Task.Startup

/-!
# The server at work

The pool runs two kinds of works: routines that may keep their worker for as long as the server
runs, and the jobs of the task pipeline. The first kind is added by `event_trigger` once, and once
more by `event_serial`, so at most `Build.resides` workers are kept; with more workers than that
the server brings every command to its end (`server_rests`). A thread that `task_init` could not
create goes unnoticed, and then it does not (`server_lacks_thread`).
-/

namespace SysServer.Startup

open Library Function

/-- What a worker in a routine weighs, where a worker that may be kept weighs `stay` and a step
`price`: the steps up to its return, and those of the work that `event_serial` adds. -/
def WorkerPhase.weight (stay price : ℕ) : WorkerPhase → ℕ
  | .unborn | .waiting => 0
  | .allocte => price
  | .bluetooth | .ethernet | .serialLoop | .serialEnd | .serialWrite => stay + price
  | .serialAdd _ => 2 * stay + 4 * price
  | .serialStart => 2 * stay + 5 * price

/-- What a queued work weighs. The steps of a job are counted with the pipeline. -/
def Routine.weight (stay price : ℕ) : Routine → ℕ
  | .taskAllocteResources => 0
  | routine => routine.begin.weight stay price + price

/-- What a list of works weighs. -/
def weighs (stay price : ℕ) (works : List Routine) : ℕ :=
  (works.map (Routine.weight stay price)).sum

/-- What the works of `event_trigger` weigh that the main thread has still to add. -/
def MainPhase.weight (build : Build) (stay price : ℕ) : MainPhase → ℕ
  | .triggering rest => weighs stay price rest
  | .serving | .exiting => 0
  | _ => weighs stay price (eventTrigger build)

/-- The workers that the routines of a build may keep. -/
def Build.resides (build : Build) : ℕ := weighs 1 0 (eventTrigger build)

/-- The steps that the routines of a build take outside the pipeline. -/
def Build.toil (build : Build) : ℕ := weighs 0 1 (eventTrigger build)

/-- The most workers are kept with bluetooth: one each, and one for the writer of the serial
line. -/
example : Build.sysServer.resides = 3 ∧ (⟨true, true, true⟩ : Build).resides = 4 := by decide

/-- `ELEXSMRT_TPOOL_MAXNUM`, the number of workers that `do_system_server` asks for. -/
def elexsmrtTpoolMaxnum : ℤ := 128

/-- `tpool_create` gives every build more workers than its routines may keep exactly where it is
asked for more than four, or leaves the number to `TPOOL_DEFAULT_NUM`. -/
theorem resides_lt_maxThrNum (requested : ℤ) :
    (∀ build : Build, build.resides < (Threadpool.maxThrNum requested).toNat) ↔
      requested ≤ 0 ∨ 4 < requested := by
  have most (build : Build) : build.resides ≤ 4 := by
    obtain ⟨bluetooth, serial, ethernet⟩ := build
    cases bluetooth <;> cases serial <;> cases ethernet <;> decide
  have all : (⟨true, true, true⟩ : Build).resides = 4 := rfl
  unfold Threadpool.maxThrNum Threadpool.tpoolDefaultNum Threadpool.tpoolMaxNum
  constructor
  · intro enough
    have four := enough ⟨true, true, true⟩
    rw [all] at four
    split at four
    · omega
    · split at four <;> omega
  · intro many build
    have few := most build
    split
    · omega
    · split <;> omega

/-- The server asks for enough workers, whatever it is compiled with. -/
theorem resides_lt_tpoolMaxnum (build : Build) :
    build.resides < (Threadpool.maxThrNum elexsmrtTpoolMaxnum).toNat :=
  (resides_lt_maxThrNum elexsmrtTpoolMaxnum).mpr (.inr (by decide)) build

variable {n : ℕ}

/-- What the server weighs. Each step of the pipeline weighs two prices, as the job that it brings
nearer to its end has a worker that returns from it. -/
def State.weight (build : Build) (stay price : ℕ) (state : State n) : ℕ :=
  2 * (price * state.tasks.toil) + state.main.weight build stay price +
    weighs stay price state.queue + tally (WorkerPhase.weight stay price) state.worker

/-- Every step costs one, but for those of the main thread and of the world. -/
def Label.cost : Label n → ℕ
  | .main _ => 0
  | .serial _ inner | .task inner => inner.cost
  | _ => 1

/-- The steps that input causes: those of the pipeline, each with a worker's return. -/
def Label.brings : Label n → ℕ
  | .serial _ inner | .task inner => 2 * inner.brings
  | _ => 0

/-- The pending nodes that a step leaves without a trigger or a job. -/
def Label.loses : Label n → ℕ
  | .serial _ inner | .task inner => inner.loses
  | .dispatch ok => (Pipeline.Label.dispatch ok : Pipeline.Label (Fin n)).loses
  | _ => 0

variable {build : Build} {stay price : ℕ} {state next : State n} {label : Label n}

/-- A worker that waits for a work weighs nothing. -/
@[simp] theorem weight_waiting : WorkerPhase.waiting.weight stay price = 0 := rfl

/-- A turn of the main thread adds no weight. -/
theorem MainTurn.weight {before after : MainPhase} (turn : MainTurn n build before after) :
    after.weight build stay price ≤ before.weight build stay price := by
  cases turn with
  | fail => exact Nat.zero_le _
  | _ => exact Nat.le_refl _

/-- A work weighs what a worker in it weighs, and a step. -/
theorem Routine.weight_begin {routine : Routine} (other : routine ≠ .taskAllocteResources) :
    routine.weight stay price = routine.begin.weight stay price + price := by
  cases routine with
  | taskAllocteResources => exact absurd rfl other
  | _ => rfl

/-- Works weigh what they weigh one by one. -/
@[simp] theorem weighs_cons (routine : Routine) (rest : List Routine) :
    weighs stay price (routine :: rest) = routine.weight stay price + weighs stay price rest := by
  simp [weighs]

/-- `tpool_add_work` adds the weight of its work at most. -/
theorem weighs_add (works : List Routine) (routine : Routine) (ok : Bool) :
    weighs stay price (if ok then works ++ [routine] else works) ≤
      weighs stay price works + routine.weight stay price := by
  cases ok <;> simp [weighs]

/-- Before the first step the server weighs what the works of `event_trigger` weigh. -/
theorem weight_start (build : Build) (stay price : ℕ) :
    (State.start : State n).weight build stay price = weighs stay price (eventTrigger build) := by
  have unborn : tally (WorkerPhase.weight stay price) (fun _ : Fin n => .unborn) = 0 :=
    tally_eq_zero fun _ => rfl
  simp [State.weight, State.start, unborn, weighs, MainPhase.weight, Pipeline.toil_start]

/-- Two prices for each step of the pipeline. -/
theorem price_pays {tasks after : Pipeline.State (Fin n)} {inner : Pipeline.Label (Fin n)}
    (price : ℕ) (stepped : Pipeline.step tasks inner = some after) :
    2 * (price * after.toil) + 2 * (price * inner.cost) ≤
      2 * (price * tasks.toil) + price * (2 * inner.brings) := by
  have pays := Nat.mul_le_mul_left price
    (Pipeline.toil_moves (Pipeline.step_moves stepped))
  rw [Nat.mul_add, Nat.mul_add] at pays
  rw [Nat.mul_left_comm price 2]
  omega

/-- A step is paid for by what the server weighs and what input has brought. -/
theorem weight_moves (moves : Moves build state label next) :
    next.weight build stay price + price * label.cost ≤
      state.weight build stay price + price * label.brings := by
  have moved := fun index phase =>
    tally_update (WorkerPhase.weight stay price) state.worker index phase
  cases moves with
  | @mainTurn ok phase turn =>
    have less : phase.weight build stay price ≤ state.main.weight build stay price := turn.weight
    simp only [State.weight, Label.cost, Label.brings]
    omega
  | createAllocate place | createSchedule place | poolCalloc place | lockInit place
  | condInit place =>
    simp only [State.weight, place, Label.cost, Label.brings, MainPhase.weight]
    omega
  | poolFields place =>
    simp only [State.weight, place, Label.cost, Label.brings, MainPhase.weight]
    simp [weighs]
  | @createWorker index place =>
    have moved := moved index .waiting
    simp only [WorkerPhase.weight] at moved
    simp only [State.weight, place, Label.cost, Label.brings, MainPhase.weight]
    omega
  | @trigger ok routine rest place =>
    have added := @weighs_add stay price state.queue routine ok
    simp only [State.weight, place, Label.cost, Label.brings, MainPhase.weight, tpoolAddWork,
      weighs_cons]
    omega
  | @takeJob index rest tasks place front inner =>
    have moved := moved index .allocte
    have pays := price_pays price inner
    simp only [place, WorkerPhase.weight, Pipeline.Label.cost, Pipeline.Label.brings] at moved pays
    simp only [State.weight, front, Label.cost, Label.brings, weighs_cons, Routine.weight]
    omega
  | @take index routine rest place front other =>
    have moved := moved index routine.begin
    rw [place, weight_waiting] at moved
    simp only [State.weight, front, Label.cost, Label.brings, weighs_cons,
      Routine.weight_begin other]
    omega
  | @serialStart index ok place =>
    have moved := moved index (.serialAdd ok)
    simp only [place, WorkerPhase.weight] at moved
    simp only [State.weight, Label.cost, Label.brings]
    omega
  | @serialAdd index ok started place =>
    have added := @weighs_add stay price state.queue .serialWrite ok
    have moved := moved index (if started then .serialLoop else .serialEnd)
    have kept : (if started then WorkerPhase.serialLoop else .serialEnd).weight stay price =
        stay + price := by cases started <;> rfl
    rw [place, kept, WorkerPhase.weight] at moved
    simp only [Routine.weight, Routine.begin, WorkerPhase.weight] at added
    simp only [State.weight, Label.cost, Label.brings, tpoolAddWork]
    omega
  | serial place kind stepped | task runs stepped =>
    have pays := price_pays price stepped
    simp only [State.weight, Label.cost, Label.brings]
    omega
  | @finish index ended =>
    have moved := moved index .waiting
    have held : price ≤ (state.worker index).weight stay price := by
      cases place : state.worker index with
      | unborn | waiting | serialStart | serialAdd => simp [State.mayReturn, place] at ended
      | _ =>
        simp only [WorkerPhase.weight]
        omega
    rw [weight_waiting] at moved
    simp only [State.weight, Label.cost, Label.brings]
    omega
  | @dispatch ok tasks inner =>
    have added := @weighs_add stay price state.queue .taskAllocteResources ok
    have pays := price_pays price inner
    simp only [Pipeline.Label.cost, Pipeline.Label.brings, Routine.weight] at pays added
    simp only [State.weight, Label.cost, Label.brings, tpoolAddWork]
    omega

/-! ## Who does the work -/

/-- How many workers exist where the main thread stands. -/
def MainPhase.hired (n : ℕ) : MainPhase → ℕ
  | .createWorker index => index
  | .triggering _ | .serving => n
  | _ => 0

/-- A turn of the main thread needs no new worker. -/
theorem MainTurn.hired {before after : MainPhase} (turn : MainTurn n build before after)
    {index : Fin n} (within : index.val < after.hired n) : index.val < before.hired n := by
  cases turn with
  | created last => exact Nat.lt_of_lt_of_le index.isLt last
  | triggered | serve => exact within
  | _ => exact absurd within (Nat.not_lt_zero _)

/-- `event_serial` moves by the steps of its loop only. -/
theorem producer_moves {tasks after : Pipeline.State (Fin n)} {inner : Pipeline.Label (Fin n)}
    (moves : Pipeline.Moves tasks inner after) (silent : isSerial inner = false) :
    after.producer = tasks.producer := by
  cases moves with
  | serialRead | serialMalloc | serialDrop | pendingAdd | trigger => cases silent
  | _ => rfl

/-- The workers exist once they are created, and `event_serial` runs on one of them. -/
structure Manned (state : State n) : Prop where
  /-- The pool and its works. -/
  fits : Fits state
  /-- The workers. -/
  hired : ∀ index : Fin n, index.val < state.main.hired n → state.worker index ≠ .unborn
  /-- `event_serial` has something to do. -/
  speaks : state.tasks.producer.toil ≠ 0 → ∃ index, state.worker index = .serialLoop

namespace Manned

/-- A worker outside the loop of `event_serial` moves. -/
theorem hired_move {index : Fin n} {phase : WorkerPhase} (manned : Manned state)
    (born : phase ≠ .unborn) (other : Fin n) (within : other.val < state.main.hired n) :
    update state.worker index phase other ≠ .unborn := by
  rcases eq_or_ne other index with rfl | different
  · rwa [update_self]
  · rw [update_of_ne different]
    exact manned.hired other within

/-- A worker that is not in the loop of `event_serial` leaves it to the one that is. -/
theorem speaks_move {index : Fin n} {phase : WorkerPhase} (manned : Manned state)
    (away : state.worker index ≠ .serialLoop) (busy : state.tasks.producer.toil ≠ 0) :
    ∃ other, update state.worker index phase other = .serialLoop := by
  obtain ⟨other, place⟩ := manned.speaks busy
  have different : other ≠ index := by
    rintro rfl
    exact away place
  exact ⟨other, (update_of_ne different ..).trans place⟩

/-- Every step keeps this. -/
theorem moves (manned : Manned state) (founded : Founded state)
    (moves : Moves build state label next) : Manned next := by
  refine ⟨manned.fits.moves founded moves, ?_, ?_⟩
  · cases moves with
    | mainTurn turn => exact fun index within => manned.hired index (turn.hired within)
    | createAllocate | createSchedule | poolCalloc | poolFields | lockInit | condInit =>
      exact fun index within => absurd within (Nat.not_lt_zero _)
    | @createWorker index place =>
      intro other within
      rcases eq_or_ne other index with rfl | different
      · exact fun unborn => by simp at unborn
      · have before : other.val < index.val :=
          lt_of_le_of_ne (Nat.le_of_lt_succ within) fun same => different (Fin.ext same)
        have born := manned.hired other (by rw [place]; exact before)
        exact fun unborn => born ((update_of_ne different ..).symm.trans unborn)
    | trigger place => exact fun index within => manned.hired index (by rw [place]; exact within)
    | take place front other =>
      exact manned.hired_move (by rename_i routine _; cases routine <;> nofun)
    | @serialAdd index ok started place => exact manned.hired_move (by cases started <;> nofun)
    | takeJob | serialStart | finish => exact manned.hired_move nofun
    | _ => exact manned.hired
  · cases moves with
    | @createWorker index place =>
      have unborn := manned.fits.unborn index.val (by rw [place]; rfl) index (Nat.le_refl _)
      exact manned.speaks_move (by simp [unborn])
    | takeJob place front inner =>
      have same := producer_moves (Pipeline.step_moves inner) rfl
      intro busy
      exact manned.speaks_move (by simp [place]) (same ▸ busy)
    | take place | serialStart place | serialAdd place =>
      exact manned.speaks_move (by simp [place])
    | @serial index inner tasks place kind stepped => exact fun _ => ⟨index, place⟩
    | @finish index ended =>
      intro busy
      refine manned.speaks_move (fun place => ?_) busy
      simp only [State.mayReturn, place, decide_eq_true_eq] at ended
      exact busy (by rw [ended]; rfl)
    | dispatch inner =>
      intro busy
      exact manned.speaks (producer_moves (Pipeline.step_moves inner) rfl ▸ busy)
    | task runs stepped =>
      intro busy
      have silent := isSerial_of_runs runs
      exact manned.speaks (producer_moves (Pipeline.step_moves stepped) silent ▸ busy)
    | _ => exact manned.speaks

end Manned

/-- What holds of every reachable state of the server. -/
theorem manned_reachable (reached : (machine build).Reachable state) :
    Founded state ∧ Manned state ∧ state.weight build 1 0 ≤ build.resides := by
  apply Machine.Reachable.invariant (machine build) (fun state => Founded state ∧
    Manned state ∧ state.weight build 1 0 ≤ build.resides) _ _ reached
  · rintro _ rfl
    exact ⟨.start, ⟨.start, fun _ within => absurd within (Nat.not_lt_zero _), nofun⟩,
      (weight_start build 1 0).le⟩
  · rintro state label next ⟨founded, manned, few⟩ stepped
    have moves := step_moves stepped
    have weight := @weight_moves n build 1 0 state next label moves
    exact ⟨founded.moves moves, manned.moves founded moves, by omega⟩

/-! ## Where only input can move the server -/

/-- The worker is in a routine that may keep it. -/
def WorkerPhase.stays : WorkerPhase → Bool
  | .bluetooth | .ethernet | .serialLoop | .serialWrite => true
  | _ => false

/-- The step is not the server's own: the main thread sleeps, the pipeline needs input, or a
routine that may keep its worker returns. -/
def State.waits (state : State n) : Label n → Prop
  | .main _ => True
  | .serial _ inner | .task inner => inner.cost = 0
  | .finish index => (state.worker index).stays = true
  | _ => False

/-- Only the world and the routines that may keep their workers can move the server. -/
def Resting (build : Build) (state : State n) : Prop :=
  ∀ label, ¬ state.waits label → step build state label = none

/-- There is no work and no command on its way. -/
structure Calm (state : State n) : Prop where
  /-- No work is queued. -/
  queue : state.queue = []
  /-- The pipeline is quiescent. -/
  tasks : Pipeline.Quiescent state.tasks
  /-- `event_serial` waits for a message or has stopped. -/
  producer : state.tasks.producer.toil = 0
  /-- Every worker waits for a work or is in a routine that may keep it. -/
  worker : ∀ index, state.worker index = .waiting ∨ (state.worker index).stays = true

/-- Of more workers than its routines may keep, some worker is in none of them. -/
theorem exists_leaving (reached : (machine build).Reachable state) (enough : build.resides < n) :
    ∃ index, (state.worker index).stays = false := by
  by_contra busy
  push Not at busy
  have each : ∀ index ∈ Finset.univ, 1 ≤ (state.worker index).weight 1 0 := by
    intro index _
    have stays := busy index
    cases place : state.worker index with
    | bluetooth | ethernet | serialLoop | serialWrite => exact Nat.le_refl _
    | _ => simp [place, WorkerPhase.stays] at stays
  have many : n ≤ tally (WorkerPhase.weight 1 0) state.worker := by
    simpa [tally] using Finset.sum_le_sum each
  have few := (manned_reachable reached).2.2
  simp only [State.weight] at few
  omega

/-- A calm server rests. -/
theorem Calm.resting (calm : Calm state) (reached : (machine build).Reachable state) :
    Resting build state := by
  have stuck := calm.tasks.stuck ((follows_pipeline build).reachable reached) calm.producer
  have blocked : ∀ inner : Pipeline.Label (Fin n), ¬ inner.cost = 0 →
      Pipeline.step state.tasks inner = none := by
    refine fun inner own => stuck inner ?_
    cases inner with
    | fifoRead result => cases result <;> simp_all [Pipeline.Label.cost]
    | _ => simp_all [Pipeline.Label.cost]
  intro label own
  cases label with
  | main ok => exact absurd trivial own
  | take index => simp [step, calm.queue]
  | serialStart index ok | serialAdd index ok =>
    rcases calm.worker index with place | stays
    · simp [step, place]
    · cases place : state.worker index with
      | serialStart | serialAdd started =>
        rw [place] at stays
        cases stays
      | _ => simp [step, place]
  | serial index inner | task inner => simp [step, blocked inner own]
  | finish index =>
    have place := (calm.worker index).resolve_right own
    simp [step, State.mayReturn, place]
  | dispatch ok => simp [step, stuck (.dispatch ok) rfl]

namespace Resting

/-- Where the server rests, the steps of the pipeline that its threads take are not enabled. -/
theorem runs (resting : Resting build state) {inner : Pipeline.Label (Fin n)}
    (own : inner.cost = 1) (runs : state.runs inner = true) :
    Pipeline.step state.tasks inner = none := by
  have moved := resting (.task inner) (by simp [State.waits, own])
  simpa [step, runs] using moved

/-- Where the server rests, `event_serial` waits for a message or has stopped. -/
theorem speaks (resting : Resting build state) (manned : Manned state)
    {inner : Pipeline.Label (Fin n)} (own : inner.cost = 1) (kind : isSerial inner = true) :
    Pipeline.step state.tasks inner = none := by
  by_contra moves
  obtain ⟨next, moves⟩ := Option.ne_none_iff_exists'.mp moves
  have busy : state.tasks.producer.toil ≠ 0 := by
    cases Pipeline.step_moves moves with
    | serialMalloc place | serialDrop place | pendingAdd place | trigger place =>
      simp [place, Pipeline.Producer.toil]
    | serialRead place => cases own
    | _ => cases kind
  obtain ⟨index, place⟩ := manned.speaks busy
  have moved := resting (.serial index inner) (by simp [State.waits, own])
  simp [step, place, kind, moves] at moved

/-- Where the server rests, a worker in its job cannot move on, and the others have none. -/
theorem works (resting : Resting build state) (manned : Manned state) {index : Fin n}
    {inner : Pipeline.Label (Fin n)} (own : inner.cost = 1)
    (runs : (state.worker index).alloctes = true → state.runs inner = true)
    (idle : state.tasks.job index = .idle → state.tasks.schedule.adder index = .outside →
      Pipeline.step state.tasks inner = none) : Pipeline.step state.tasks inner = none := by
  by_cases inside : state.worker index = .allocte
  · exact resting.runs own (runs (by rw [inside]; rfl))
  · obtain ⟨job, outside⟩ := manned.fits.jobs index inside
    exact idle job outside

/-- Where the server rests and both threads of the pipeline exist, only input and workers that
take jobs can move the pipeline. -/
theorem blocked (resting : Resting build state) (manned : Manned state)
    (allocator : state.allocator = true) (scheduler : state.scheduler = true) :
    Pipeline.Blocked state.tasks := by
  intro label own other
  cases label with
  | serialRead ok | stray count => cases own
  | serialMalloc ok | pendingAdd | trigger ok => exact resting.speaks manned own rfl
  | fifoRead result => exact resting.runs own allocator
  | testPending => exact resting.runs own allocator
  | dispatch ok =>
    have moved := resting (.dispatch ok) nofun
    simpa [step, allocator] using moved
  | takeJob worker => exact absurd rfl (other worker)
  | taskMalloc worker raw | acquire worker =>
    exact resting.works manned own id fun job _ => by simp [Pipeline.step, job]
  | schedule inner =>
    cases inner with
    | call worker task | finish => simp [Pipeline.step, Pipeline.internal]
    | waitEmpty worker | insert worker | postFull worker =>
      exact resting.works manned own id fun _ outside => by
        simp [Pipeline.step, Schedule.step, outside]
    | waitFull | remove | postEmpty => exact resting.runs own scheduler
  | excute | recycle => exact resting.runs own scheduler

/-- Where a server rests that has started up with both threads of the pipeline, every worker waits
for a work or is in a routine that may keep it. -/
theorem worker (resting : Resting build state) (reached : (machine build).Reachable state)
    (served : state.main = .serving) (allocator : state.allocator = true)
    (scheduler : state.scheduler = true) (index : Fin n) :
    state.worker index = .waiting ∨ (state.worker index).stays = true := by
  obtain ⟨-, manned, -⟩ := manned_reachable reached
  have tasks := (follows_pipeline build).reachable reached
  cases place : state.worker index with
  | unborn => exact absurd place (manned.hired index (by rw [served]; exact index.isLt))
  | waiting => exact .inl rfl
  | serialStart =>
    have moved := resting (.serialStart index true) (by simp [State.waits])
    simp [step, place] at moved
  | serialAdd started =>
    have moved := resting (.serialAdd index true) (by simp [State.waits])
    simp [step, place] at moved
  | serialEnd =>
    have moved := resting (.finish index) (by simp [State.waits, place, WorkerPhase.stays])
    simp [step, State.mayReturn, place] at moved
  | allocte =>
    -- Its job is done, so it returns.
    have blocked := resting.blocked manned allocator scheduler
    have moved := resting (.finish index) (by simp [State.waits, place, WorkerPhase.stays])
    have job := blocked.job (Pipeline.seated_reachable tasks) index
    simp [step, State.mayReturn, place, job, blocked.outside tasks index] at moved
  | _ => exact .inr rfl

/-- Where it has more workers than its routines may keep, some worker waits for a work. -/
theorem waiting (resting : Resting build state) (reached : (machine build).Reachable state)
    (served : state.main = .serving) (allocator : state.allocator = true)
    (scheduler : state.scheduler = true) (enough : build.resides < n) :
    ∃ index, state.worker index = .waiting := by
  obtain ⟨index, leaves⟩ := exists_leaving reached enough
  have worker := resting.worker reached served allocator scheduler index
  exact ⟨index, worker.resolve_right (by simp [leaves])⟩

/-- A server that rests with more workers than its routines may keep is calm. -/
theorem calm (resting : Resting build state) (reached : (machine build).Reachable state)
    (served : state.main = .serving) (allocator : state.allocator = true)
    (scheduler : state.scheduler = true) (enough : build.resides < n) : Calm state := by
  obtain ⟨-, manned, -⟩ := manned_reachable reached
  have tasks := (follows_pipeline build).reachable reached
  have blocked := resting.blocked manned allocator scheduler
  obtain ⟨idler, place⟩ := resting.waiting reached served allocator scheduler enough
  have empty : state.queue = [] := by
    cases works : state.queue with
    | nil => rfl
    | cons routine rest =>
      obtain ⟨next, moved⟩ := take_enabled reached place works
      rw [resting (.take idler) nofun] at moved
      cases moved
  have stuck : Pipeline.Stuck state.tasks := by
    have none : state.tasks.queued = 0 := by rw [manned.fits.queued, empty]; rfl
    intro label own
    by_cases takes : ∃ worker, label = .takeJob worker
    · obtain ⟨worker, rfl⟩ := takes
      simp [Pipeline.step, none]
    · exact blocked label own fun worker same => takes ⟨worker, same⟩
  have : Nonempty (Fin n) := ⟨idler⟩
  exact ⟨empty, stuck.quiescent tasks, blocked.producer,
    resting.worker reached served allocator scheduler⟩

end Resting

/-- A step of the server is a step of the pipeline that loses as much, or leaves its claims. -/
theorem traced_moves {lost : ℕ} (traced : Pipeline.Traced state.tasks lost)
    (moves : Moves build state label next) : Pipeline.Traced next.tasks (lost + label.loses) := by
  cases moves with
  | takeJob place front inner => exact traced.moves (Pipeline.step_moves inner)
  | serial place kind stepped | task runs stepped =>
    exact traced.moves (Pipeline.step_moves stepped)
  | dispatch inner => exact traced.moves (Pipeline.step_moves inner)
  | _ => exact traced

/-- **The server brings its commands to their end.** In every run of every build, the threads but
for the main one take no more steps than the routines of the build and the input cause; the steps
of the main thread, in its startup and in its sleep, are not counted. Once the server has started
up with both threads of the pipeline and with more workers than its routines may keep, only the
world and such routines can move it exactly where it is calm; and there every acquired command has
been executed, and no more are pending than the run has lost. (No memory is used after it was
freed.) -/
theorem server_rests {labels : List (Label n)}
    (ran : (machine build).run .start labels = some state) :
    Machine.weigh Label.cost labels ≤ build.toil + Machine.weigh Label.brings labels ∧
      (state.main = .serving → state.allocator = true → state.scheduler = true →
        build.resides < n → (Resting build state ↔ Calm state)) ∧
      (Calm state → state.tasks.excuted.Perm state.tasks.acquired ∧
        state.tasks.added = state.tasks.acquired ++ state.tasks.pending ∧
        state.tasks.pending.length ≤ Machine.weigh Label.loses labels) := by
  have reached : (machine build).Reachable state := ⟨_, labels, rfl, ran⟩
  have tasks := (follows_pipeline build).reachable reached
  have everything : (machine build).Obeys (fun _ _ => True) .start labels :=
    (machine build).obeys_of_labels (fun _ _ => trivial) .start
  obtain ⟨-, paid⟩ := (machine build).run_pays (fun _ => True) (State.weight build 0 1)
    (fun _ _ _ _ _ _ => trivial)
    (fun _ _ _ _ _ stepped => by
      simpa only [Nat.one_mul] using
        @weight_moves n build 0 1 _ _ _ (step_moves stepped)) everything trivial ran
  have traced : state.tasks.pending.length ≤ state.tasks.claims + _ :=
    (machine build).run_accumulates (fun state lost => Pipeline.Traced state.tasks lost)
      (fun _ _ _ _ _ traced stepped => traced_moves traced (step_moves stepped)) everything
      Pipeline.Traced.start ran
  rw [weight_start] at paid
  refine ⟨Nat.le_trans (Nat.le_add_left _ _) paid, fun served allocator scheduler enough =>
    ⟨fun resting => resting.calm reached served allocator scheduler enough,
      fun calm => calm.resting reached⟩, fun calm => ?_⟩
  rw [calm.tasks.claims, Nat.zero_add, Nat.zero_add] at traced
  exact ⟨calm.tasks.excuted tasks, (Pipeline.recorded_reachable tasks).arrived, traced⟩

/-- The main thread starts up with four workers, and the fourth brings one command to its end. -/
def served : List (Label 4) :=
  List.replicate 19 (.main true) ++ [.take 0, .serialStart 0 true, .serialAdd 0 true, .take 1,
    .take 2, .serial 0 (.serialRead true), .serial 0 (.serialMalloc true), .serial 0 .pendingAdd,
    .serial 0 (.trigger true), .task (.fifoRead (some 1)), .task .testPending, .dispatch true,
    .take 3, .task (.taskMalloc 3 (some ⟨0, 0, 0, none, none, none⟩)), .task (.acquire 3),
    .task (.schedule (.waitEmpty 3)), .task (.schedule (.insert 3)),
    .task (.schedule (.postFull 3)), .finish 3, .task (.schedule .waitFull),
    .task (.schedule .remove), .task (.schedule .postEmpty), .task .excute, .task .recycle]

/-- After that run the server rests, with the command executed and nothing lost. -/
theorem server_rests_run :
    ∃ state : State 4, (machine .sysServer).run .start served = some state ∧
      Resting .sysServer state ∧ state.tasks.added = [0] ∧
      state.tasks.excuted.Perm state.tasks.acquired ∧
      state.tasks.added = state.tasks.acquired ++ state.tasks.pending ∧
      state.tasks.pending.length ≤ Machine.weigh Label.loses served := by
  obtain ⟨state, ran, main, allocator, scheduler, added, calm⟩ : ∃ state : State 4,
      (machine .sysServer).run .start served = some state ∧ state.main = .serving ∧
        state.allocator = true ∧ state.scheduler = true ∧ state.tasks.added = [0] ∧
        Calm state := by
    refine ⟨_, rfl, rfl, rfl, rfl, rfl, rfl, ⟨rfl, rfl, rfl, ?_, ?_, ?_, rfl, rfl⟩, rfl, ?_⟩
    · exact fun index => by fin_cases index <;> rfl
    · exact fun index => by fin_cases index <;> rfl
    · exact Pipeline.Producer.noConfusion
    · exact fun index => by fin_cases index <;> first | exact .inl rfl | exact .inr rfl
  obtain ⟨-, resting, ended⟩ := server_rests ran
  exact ⟨state, ran, (resting main allocator scheduler (by decide)).mpr calm, added, ended calm⟩

/-! ## A thread that could not be created -/

/-- Nothing has passed the scheduler. -/
structure Unscheduled (tasks : Pipeline.State (Fin n)) : Prop where
  /-- The scheduler has not moved. -/
  taker : tasks.schedule.taker = .waiting
  /-- No task was taken. -/
  removed : tasks.schedule.removed = []
  /-- No command was executed. -/
  excuted : tasks.excuted = []

/-- Nothing has passed the allocator. -/
structure Unallocated (tasks : Pipeline.State (Fin n)) : Prop where
  /-- The allocator has not moved. -/
  allocator : tasks.allocator = .reading
  /-- No job is queued. -/
  queued : tasks.queued = 0
  /-- No job runs. -/
  job : ∀ index, tasks.job index = .idle
  /-- No command was acquired. -/
  acquired : tasks.acquired = []

/-- Only a task that it is told of moves the scheduler. -/
theorem Unscheduled.moves {tasks after : Pipeline.State (Fin n)}
    {inner : Pipeline.Label (Fin n)} (idle : Unscheduled tasks)
    (moves : Pipeline.Moves tasks inner after) (silent : inner ≠ .schedule .waitFull) :
    Unscheduled after := by
  obtain ⟨taker, removed, excuted⟩ := idle
  cases moves with
  | acquire place front called => cases called with
    | call outside => exact ⟨taker, removed, excuted⟩
  | schedule inside moved =>
    cases moved with
    | waitFull place count => exact absurd rfl silent
    | miss place empty => simp [taker] at place
    | remove place front => simp [taker] at place
    | postEmpty place => simp [taker] at place
    | finish place => simp [taker] at place
    | _ => exact ⟨taker, removed, excuted⟩
  | excute place fresh => simp [taker] at place
  | recycle place printed moved => simp [taker] at place
  | _ => exact ⟨taker, removed, excuted⟩

/-- Only a read of the FIFO moves the allocator, and only the allocator adds jobs. -/
theorem Unallocated.moves {tasks after : Pipeline.State (Fin n)}
    {inner : Pipeline.Label (Fin n)} (idle : Unallocated tasks)
    (moves : Pipeline.Moves tasks inner after) (silent : ∀ result, inner ≠ .fifoRead result) :
    Unallocated after := by
  obtain ⟨allocator, queued, job, acquired⟩ := idle
  cases moves with
  | fifoFail place => exact absurd rfl (silent _)
  | fifoRead place some_bytes limit available => exact absurd rfl (silent _)
  | testPending place => simp [allocator] at place
  | dispatch place => simp [allocator] at place
  | takeJob place free count => simp [queued] at count
  | taskDrop place => simp [job] at place
  | taskMalloc place => simp [job] at place
  | acquireNone place empty => simp [job] at place
  | acquire place front called => simp [job] at place
  | _ => exact ⟨allocator, queued, job, acquired⟩

/-- The main thread has still to create the allocator. -/
def MainPhase.allocates : MainPhase → Bool
  | .taskMalloc | .fifoInit | .pendingInit | .schedInit | .createAllocate => true
  | _ => false

/-- The main thread has still to create the scheduler. -/
def MainPhase.schedules : MainPhase → Bool
  | .createSchedule => true
  | phase => phase.allocates

/-- A turn of the main thread creates no thread. -/
theorem MainTurn.creates {before after : MainPhase} (turn : MainTurn n build before after) :
    (after.allocates = true → before.allocates = true) ∧
      (after.schedules = true → before.schedules = true) := by
  cases turn <;> simp [MainPhase.allocates, MainPhase.schedules]

/-- A thread that does not exist has done nothing. -/
structure Lacking (state : State n) : Prop where
  /-- The allocator is created by the main thread. -/
  allocates : state.main.allocates = true → state.allocator = false
  /-- So is the scheduler. -/
  schedules : state.main.schedules = true → state.scheduler = false
  /-- Without the allocator. -/
  unallocated : state.allocator = false → Unallocated state.tasks
  /-- Without the scheduler. -/
  unscheduled : state.scheduler = false → Unscheduled state.tasks

/-- Every step keeps this. -/
theorem Lacking.moves (lacking : Lacking state) (moves : Moves build state label next) :
    Lacking next := by
  obtain ⟨allocates, schedules, unallocated, unscheduled⟩ := lacking
  cases moves with
  | mainTurn turn =>
    exact ⟨fun early => allocates (turn.creates.1 early),
      fun early => schedules (turn.creates.2 early), unallocated, unscheduled⟩
  | createAllocate place =>
    exact ⟨nofun, fun _ => schedules (by rw [place]; rfl),
      fun _ => unallocated (allocates (by rw [place]; rfl)), unscheduled⟩
  | createSchedule place =>
    exact ⟨nofun, nofun, unallocated, fun _ => unscheduled (schedules (by rw [place]; rfl))⟩
  | poolCalloc | poolFields | lockInit | condInit | createWorker | trigger =>
    exact ⟨nofun, nofun, unallocated, unscheduled⟩
  | takeJob place front inner =>
    have moved := Pipeline.step_moves inner
    exact ⟨allocates, schedules, fun lacks => (unallocated lacks).moves moved nofun,
      fun lacks => (unscheduled lacks).moves moved nofun⟩
  | dispatch inner =>
    have moved := Pipeline.step_moves inner
    exact ⟨allocates, schedules, fun lacks => (unallocated lacks).moves moved nofun,
      fun lacks => (unscheduled lacks).moves moved nofun⟩
  | serial place kind stepped =>
    have moved := Pipeline.step_moves stepped
    refine ⟨allocates, schedules, fun lacks => (unallocated lacks).moves moved ?_,
      fun lacks => (unscheduled lacks).moves moved ?_⟩
    · rintro result rfl
      cases kind
    · rintro rfl
      cases kind
  | task runs stepped =>
    have moved := Pipeline.step_moves stepped
    refine ⟨allocates, schedules, fun lacks => (unallocated lacks).moves moved ?_,
      fun lacks => (unscheduled lacks).moves moved ?_⟩
    · rintro result rfl
      cases lacks.symm.trans runs
    · rintro rfl
      cases lacks.symm.trans runs
  | _ => exact ⟨allocates, schedules, unallocated, unscheduled⟩

/-- Nothing has been done before the first step. -/
theorem Lacking.start : Lacking (State.start : State n) :=
  ⟨fun _ => rfl, fun _ => rfl, fun _ => ⟨rfl, rfl, fun _ => rfl, rfl⟩, fun _ => ⟨rfl, rfl, rfl⟩⟩

/-- Without the scheduler no more commands are acquired than the schedule list has slots and the
pool has workers. -/
theorem Unscheduled.acquired {tasks : Pipeline.State (Fin n)} (idle : Unscheduled tasks)
    (reached : Pipeline.machine.Reachable tasks) :
    tasks.acquired.length ≤ Schedule.elexsmrtTaskMaxnum + n := by
  have schedule := Pipeline.follows_schedule.reachable reached
  have entered := (Schedule.histories_reachable schedule).1
  have slots := (Schedule.balanced_reachable schedule).slots
  rw [idle.removed, List.nil_append] at entered
  have held : Multiset.card (tally Schedule.AddPhase.tasks tasks.schedule.adder) ≤ n := by
    have each : ∀ index ∈ Finset.univ,
        Multiset.card (tasks.schedule.adder index).tasks ≤ 1 := by
      intro index _
      cases tasks.schedule.adder index <;> simp [Schedule.AddPhase.tasks]
    simpa [tally] using Finset.sum_le_sum each
  have carried := congrArg Multiset.card (Pipeline.recorded_reachable reached).carried
  simp only [Multiset.card_map, Multiset.card_add, Multiset.coe_card, entered] at carried
  omega

/-- What does not exist when the server has started up will never exist. -/
theorem serving_moves (late : state.main = .serving ∨ state.main = .exiting)
    (moves : Moves build state label next) : (next.main = .serving ∨ next.main = .exiting) ∧
      next.allocator = state.allocator ∧ next.scheduler = state.scheduler := by
  cases moves with
  | @mainTurn ok phase turn =>
    refine ⟨?_, rfl, rfl⟩
    generalize state.main = stood at late turn
    cases turn with
    | fail => exact .inr rfl
    | serve => exact .inl rfl
    | _ => simp at late
  | createAllocate place | createSchedule place | poolCalloc place | poolFields place
  | lockInit place | condInit place | createWorker place | trigger place => simp [place] at late
  | _ => exact ⟨late, rfl, rfl⟩

/-- **A thread that could not be created goes unnoticed.** `task_init` tests the results of
`pthread_create` for being negative, which they never are. In every run of a server that has
started up without the scheduler, no command is ever executed, and all received commands but as
many as the schedule list and the workers can hold stay pending; without the allocator, all of
them do. -/
theorem server_lacks_thread {last : State n} {labels : List (Label n)}
    (reached : (machine build).Reachable state) (served : state.main = .serving)
    (ran : (machine build).run state labels = some last) :
    (state.scheduler = false → last.tasks.excuted = [] ∧
      last.tasks.added.length ≤ last.tasks.pending.length + Schedule.elexsmrtTaskMaxnum + n) ∧
    (state.allocator = false → last.tasks.excuted = [] ∧
      last.tasks.pending = last.tasks.added) := by
  have later := Machine.Reachable.run (machine build) reached ran
  have tasks := (follows_pipeline build).reachable later
  have recorded := Pipeline.recorded_reachable tasks
  have lacking : Lacking last := Machine.Reachable.invariant (machine build) Lacking
    (fun _ initial => initial ▸ .start)
    (fun _ _ _ lacking stepped => lacking.moves (step_moves stepped)) later
  obtain ⟨-, allocator, scheduler⟩ := (machine build).run_invariant
    (fun later => (later.main = .serving ∨ later.main = .exiting) ∧
      later.allocator = state.allocator ∧ later.scheduler = state.scheduler)
    (fun _ _ _ held stepped => by
      obtain ⟨late, allocator, scheduler⟩ := serving_moves held.1 (step_moves stepped)
      exact ⟨late, allocator.trans held.2.1, scheduler.trans held.2.2⟩)
    ⟨.inl served, rfl, rfl⟩ ran
  constructor
  · intro lacks
    have idle := lacking.unscheduled (scheduler.trans lacks)
    have bound := idle.acquired tasks
    refine ⟨idle.excuted, ?_⟩
    rw [recorded.arrived, List.length_append]
    omega
  · intro lacks
    have idle := lacking.unallocated (allocator.trans lacks)
    refine ⟨?_, by rw [recorded.arrived, idle.acquired, List.nil_append]⟩
    have parts := recorded.acquired_eq
    rw [idle.acquired] at parts
    have most : (Pipeline.commands last.tasks.schedule.inserted : Multiset ℕ) ≤ ([] : List ℕ) :=
      parts ▸ Multiset.le_add_left _ _
    have entered : Pipeline.commands last.tasks.schedule.inserted = [] :=
      (Multiset.coe_eq_zero _).mp (Multiset.le_zero.mp most)
    obtain ⟨inserted, removed⟩ :=
      Schedule.histories_reachable (Pipeline.follows_schedule.reachable tasks)
    have first := recorded.excuted_prefix inserted removed
    rwa [entered, List.prefix_nil] at first

/-- The main thread starts up with four workers and without the scheduler. -/
def unscheduled : List (Label 4) :=
  List.replicate 5 (.main true) ++ .main false :: List.replicate 13 (.main true)

/-- The worker receives a command. -/
def receives : List (Label 4) :=
  [.take 0, .serialStart 0 true, .serialAdd 0 true, .serial 0 (.serialRead true),
    .serial 0 (.serialMalloc true), .serial 0 .pendingAdd, .serial 0 (.trigger true)]

/-- Without the scheduler the command is not executed. -/
theorem server_lacks_thread_run :
    ∃ state last : State 4, (machine .sysServer).run .start unscheduled = some state ∧
      (machine .sysServer).run state receives = some last ∧ last.tasks.added = [0] ∧
      last.tasks.excuted = [] ∧
      last.tasks.added.length ≤
        last.tasks.pending.length + Schedule.elexsmrtTaskMaxnum + 4 := by
  obtain ⟨state, last, started, received, served, lacks, added⟩ : ∃ state last : State 4,
      (machine .sysServer).run .start unscheduled = some state ∧
        (machine .sysServer).run state receives = some last ∧ state.main = .serving ∧
        state.scheduler = false ∧ last.tasks.added = [0] := ⟨_, _, rfl, rfl, rfl, rfl, rfl⟩
  exact ⟨state, last, started, received, added,
    (server_lacks_thread ⟨.start, unscheduled, rfl, started⟩ served received).1 lacks⟩

end SysServer.Startup
