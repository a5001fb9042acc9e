import SysServer.Task.Serving
import SysServer.Task.Starvation

/-!
# Traffic carries every command on

A read of several trigger bytes gives one job for all of them, so commands are left pending while
their bytes are gone. They wait for the next traffic: each later read of the FIFO brings a job,
which takes the first pending command. In every endless run of a server that has started up with
more workers than its routines may keep, has memory for its jobs and treats its threads fairly, a
queued job comes to a worker (`job_taken`); and if there is a byte to be read again and again, every
command that was received is executed (`traffic_excutes`).
-/

namespace SysServer.Startup

open Library Function Machine

variable {n : ℕ} {build : Build} {state next : State n} {label : Label n}

/-! ## A server that has started up -/

/-- There is memory for the job that the step allocates. -/
def Label.granted : Label n → Bool
  | .dispatch ok => ok
  | .task (.taskMalloc _ raw) => raw.isSome
  | _ => true

/-- The server once it has started up with both threads of the pipeline, while there is memory for
its jobs. -/
def started (build : Build) : Machine (State n) (Label n) where
  initial state := (machine build).Reachable state ∧ state.main = .serving ∧
    state.allocator = true ∧ state.scheduler = true
  step state label := if label.granted then step build state label else none

/-- What holds of a server that has started up. -/
structure Up (build : Build) (state : State n) : Prop where
  /-- It is a server. -/
  reached : (machine build).Reachable state
  /-- The main thread is in its loop. -/
  main : state.main = .serving
  /-- The allocator exists. -/
  allocator : state.allocator = true
  /-- The scheduler exists. -/
  scheduler : state.scheduler = true

/-- A step of the server that has started up is one of the server. -/
theorem started_step (stepped : (started build).step state label = some next) :
    label.granted = true ∧ step build state label = some next := by
  simp only [started] at stepped
  split at stepped
  · rename_i granted
    exact ⟨granted, stepped⟩
  · cases stepped

/-- The main thread stays in its loop. -/
theorem serving_step (served : state.main = .serving)
    (stepped : step build state label = some next) : next.main = .serving := by
  cases label with
  | main ok =>
    simp only [step, mainStep, served, Option.some.injEq] at stepped
    exact stepped ▸ served
  | _ => cases step_moves stepped <;> exact served

/-- A server that has started up stays so. -/
theorem up_reachable (reached : (started build).Reachable state) : Up build state := by
  refine Machine.Reachable.invariant (started build) (Up build)
    (fun _ initial => ⟨initial.1, initial.2.1, initial.2.2.1, initial.2.2.2⟩)
    (fun state label next up stepped => ?_) reached
  obtain ⟨-, stepped⟩ := started_step stepped
  obtain ⟨-, allocator, scheduler⟩ := serving_moves (.inl up.main) (step_moves stepped)
  exact ⟨up.reached.step _ stepped, serving_step up.main stepped, allocator.trans up.allocator,
    scheduler.trans up.scheduler⟩

/-! ## Its pipeline -/

/-- What a step is to the pipeline, if anything. -/
def tells (state : State n) : Label n → Option (Pipeline.Label (Fin n))
  | .take index =>
    if state.queue.head? = some .taskAllocteResources then some (.takeJob index) else none
  | .serial _ inner | .task inner => some inner
  | .dispatch ok => some (.dispatch ok)
  | _ => none

/-- A step is seen as a step of the pipeline or leaves it alone. -/
theorem tells_moves (moves : Moves build state label next) :
    (tells state label = none ∧ next.tasks = state.tasks) ∨
      ∃ inner, tells state label = some inner ∧
        Pipeline.step state.tasks inner = some next.tasks := by
  cases moves with
  | takeJob place front inner => exact .inr ⟨_, by simp [tells, front], inner⟩
  | take place front other => exact .inl ⟨by simp [tells, front, other], rfl⟩
  | serial place kind stepped | task runs stepped => exact .inr ⟨_, rfl, stepped⟩
  | dispatch inner => exact .inr ⟨_, rfl, inner⟩
  | _ => exact .inl ⟨rfl, rfl⟩

/-- The allocator takes the step. -/
def Label.allocates : Label n → Bool
  | .task (.fifoRead (some _)) | .task .testPending | .dispatch _ => true
  | _ => false

/-- The worker takes the step, outside its jobs. -/
def Label.serves (index : Fin n) : Label n → Bool
  | .take actor | .serialStart actor _ | .serialAdd actor _ | .finish actor => actor = index
  | _ => false

/-- The threads of the server are treated fairly. A routine that may keep its worker need not
return. -/
structure Fairly (run : (started (n := n) build).Endless) : Prop where
  /-- The allocator. -/
  allocator : run.Fair fun _ label => label.allocates = true
  /-- The scheduler. -/
  scheduler : run.Fair fun _ label => ∃ inner, label = .task inner ∧ inner.schedules = true
  /-- Each worker in its job. -/
  jobs : ∀ index, run.Fair fun _ label => ∃ inner, label = .task inner ∧ inner.worker = some index
  /-- Each worker outside its jobs. -/
  workers : ∀ index, run.Fair fun state label => label.serves index = true ∧ ¬ state.waits label

variable {run : (started (n := n) build).Endless}

/-- The run of the pipeline. -/
def pipeline (run : (started (n := n) build).Endless) :
    (Pipeline.machine (ω := Fin n)).Endless :=
  run.seen State.tasks tells
    (fun _ reached => (follows_pipeline build).reachable (up_reachable reached).reached)
    fun state label next _ stepped => by
      have moves := step_moves (started_step stepped).2
      rcases tells_moves moves with ⟨silent, same⟩ | ⟨_, told, moved⟩
      · rw [silent, same]
        rfl
      · rw [told]
        exact moved

/-- A step of the pipeline that its threads take is enabled, if there is memory for it. -/
theorem able_task {inner : Pipeline.Label (Fin n)} (runs : state.runs inner = true)
    (granted : (Label.task inner : Label n).granted = true)
    (enabled : Pipeline.step state.tasks inner ≠ none) :
    (started build).step state (.task inner) ≠ none := by
  simpa [started, granted, step, runs] using enabled

/-- A worker that can move in its job can do so in the server. -/
theorem able_jobs (up : Up build state) {index : Fin n}
    (able : Pipeline.machine.Able (fun _ label => label.worker = some index) state.tasks) :
    (started build).Able (fun _ label => ∃ inner, label = .task inner ∧ inner.worker = some index)
      state := by
  obtain ⟨inner, own, enabled⟩ := able
  change Pipeline.step state.tasks inner ≠ none at enabled
  obtain ⟨after, stepped⟩ := Option.ne_none_iff_exists'.mp enabled
  have moves := Pipeline.step_moves stepped
  obtain ⟨-, manned, -⟩ := manned_reachable up.reached
  have inside : state.worker index = .allocte := by
    by_contra outside
    obtain ⟨idle, away⟩ := manned.fits.jobs index outside
    cases moves with
    | taskDrop place | taskMalloc place | acquireNone place | acquire place =>
      obtain rfl := Option.some.inj own
      rw [idle] at place
      cases place
    | schedule _ moved =>
      cases moved with
      | waitEmpty place | insert place | postFull place =>
        obtain rfl := Option.some.inj own
        rw [away] at place
        cases place
      | _ => cases own
    | _ => cases own
  have runs : state.runs inner = true := by
    cases inner with
    | taskMalloc | acquire =>
      obtain rfl := Option.some.inj own
      simp only [State.runs, inside, WorkerPhase.alloctes]
    | schedule moved =>
      cases moved with
      | waitEmpty | insert | postFull =>
        obtain rfl := Option.some.inj own
        simp only [State.runs, inside, WorkerPhase.alloctes]
      | _ => cases own
    | _ => cases own
  cases moves with
  | taskDrop place =>
    -- The job that would be dropped gets its memory instead.
    refine ⟨.task (.taskMalloc _ (some ⟨0, 0, 0, none, none, none⟩)), ⟨_, rfl, own⟩,
      able_task runs rfl ?_⟩
    simp [Pipeline.step, place]
  | _ => exact ⟨_, ⟨_, rfl, own⟩, able_task runs rfl enabled⟩

/-- A scheduler that can move can do so in the server. -/
theorem able_scheduler (up : Up build state)
    (able : Pipeline.machine.Able (fun _ label => label.schedules = true) state.tasks) :
    (started build).Able (fun _ label => ∃ inner, label = .task inner ∧ inner.schedules = true)
      state := by
  obtain ⟨inner, own, enabled⟩ := able
  refine ⟨.task inner, ⟨inner, rfl, own⟩, able_task ?_ ?_ enabled⟩
  · cases inner with
    | schedule moved => cases moved <;> first | exact up.scheduler | cases own
    | excute | recycle => exact up.scheduler
    | _ => cases own
  · cases inner <;> first | rfl | cases own

/-- The pipeline treats its threads fairly. -/
theorem Fairly.pipeline (fairly : Fairly run) : Pipeline.Fairly (pipeline run) := by
  refine ⟨fun index => (fairly.jobs index).seen
    (fun _ reached able => able_jobs (up_reachable reached) able) ?_,
    fairly.scheduler.seen (fun _ reached able => able_scheduler (up_reachable reached) able) ?_⟩
  · rintro state _ ⟨inner, rfl, own⟩
    exact ⟨inner, rfl, own⟩
  · rintro state _ ⟨inner, rfl, own⟩
    exact ⟨inner, rfl, own⟩

/-! ## A queued job comes to a worker -/

/-- A job is queued behind so many other works. -/
def Queued (others : ℕ) (state : State n) : Prop :=
  .taskAllocteResources ∈ state.queue ∧ state.queue.idxOf .taskAllocteResources = others

/-- A worker is in the first half of a job. -/
def Begun (state : State n) : Prop := ∃ index, state.tasks.job index ≠ .idle

/-- A work that is added leaves a queued job where it is. -/
theorem Queued.add {others : ℕ} (queued : Queued others state) (routine : Routine) (ok : Bool) :
    Queued others { state with queue := if ok then state.queue ++ [routine] else state.queue } := by
  obtain ⟨inside, place⟩ := queued
  cases ok with
  | false => exact ⟨inside, place⟩
  | true => exact ⟨List.mem_append_left _ inside, (List.idxOf_append_of_mem inside).trans place⟩

/-- A worker changes its routine by its own steps outside its jobs only. -/
theorem worker_frame {index : Fin n} (served : state.main = .serving)
    (moves : Moves build state label next) (other : label.serves index = false) :
    next.worker index = state.worker index := by
  have apart {actor : Fin n} (own : decide (actor = index) = false) : index ≠ actor := by
    rintro rfl
    simp at own
  cases moves with
  | createWorker place => simp [served] at place
  | takeJob | take | serialStart | serialAdd | finish => exact update_of_ne (apart other) ..
  | _ => rfl

/-- No worker gets further from its next work, and one that takes a step outside its jobs comes
nearer to it. -/
def Approaches (state : State n) (label : Label n) (next : State n) : Prop :=
  tally (WorkerPhase.weight 0 1) next.worker ≤ tally (WorkerPhase.weight 0 1) state.worker ∧
    ∀ index, label.serves index = true →
      tally (WorkerPhase.weight 0 1) next.worker < tally (WorkerPhase.weight 0 1) state.worker

/-- Where no worker takes a step outside its jobs, they stay where they are. -/
theorem approaches_of_same (same : next.worker = state.worker)
    (other : ∀ index, label.serves index = false) : Approaches state label next := by
  refine ⟨by rw [same], fun index own => ?_⟩
  rw [other index] at own
  cases own

/-- A worker that comes nearer to its next work. -/
theorem approaches_of_lt (less : tally (WorkerPhase.weight 0 1) next.worker <
    tally (WorkerPhase.weight 0 1) state.worker) : Approaches state label next :=
  ⟨less.le, fun _ _ => less⟩

/-- A queued job comes to a worker, or its turn comes nearer: a work before it is taken, or a worker
comes nearer to its next work. -/
theorem turn_nears {others : ℕ} (up : Up build state) (queued : Queued others state)
    (moves : Moves build state label next) :
    Begun next ∨ (∃ fewer < others, Queued fewer next) ∨
      Queued others next ∧ Approaches state label next := by
  have served := up.main
  have moved := fun index phase => tally_update (WorkerPhase.weight 0 1) state.worker index phase
  cases moves with
  | createAllocate place | createSchedule place | poolCalloc place | poolFields place
  | lockInit place | condInit place | createWorker place | trigger place =>
    simp [served] at place
  | mainTurn turn => exact .inr (.inr ⟨queued, approaches_of_same rfl fun _ => rfl⟩)
  | @takeJob index rest tasks place front inner =>
    refine .inl ⟨index, ?_⟩
    cases Pipeline.step_moves inner with
    | takeJob => simp
  | @take index routine rest place front other =>
    obtain ⟨inside, ahead⟩ := queued
    rw [front, List.idxOf_cons_ne _ other] at ahead
    rw [front] at inside
    exact .inr (.inl ⟨_, Nat.lt_of_succ_le ahead.le,
      (List.mem_cons.mp inside).resolve_left fun same => other same.symm, rfl⟩)
  | @serialStart index ok place =>
    have moved := moved index (.serialAdd ok)
    simp only [place, WorkerPhase.weight] at moved
    exact .inr (.inr ⟨queued, approaches_of_lt (by simp only; omega)⟩)
  | @serialAdd index ok started place =>
    have moved := moved index (if started then .serialLoop else .serialEnd)
    have kept : (if started then WorkerPhase.serialLoop else .serialEnd).weight 0 1 = 1 := by
      cases started <;> rfl
    rw [place, kept, WorkerPhase.weight] at moved
    exact .inr (.inr ⟨queued.add .serialWrite ok, approaches_of_lt (by simp only; omega)⟩)
  | @finish index ended =>
    have moved := moved index .waiting
    have held : 1 ≤ (state.worker index).weight 0 1 := by
      cases place : state.worker index with
      | unborn | waiting => simp [State.mayReturn, place] at ended
      | _ =>
        simp only [WorkerPhase.weight]
        omega
    rw [weight_waiting] at moved
    exact .inr (.inr ⟨queued, approaches_of_lt (by simp only; omega)⟩)
  | @dispatch ok tasks inner =>
    exact .inr (.inr ⟨queued.add .taskAllocteResources ok, approaches_of_same rfl fun _ => rfl⟩)
  | serial | task => exact .inr (.inr ⟨queued, approaches_of_same rfl fun _ => rfl⟩)

/-- A worker that may not be kept can take its next step outside its jobs, once it is back from
them. -/
theorem able_serves (up : Up build state) {index : Fin n}
    (leaves : (state.worker index).stays = false)
    (home : Pipeline.Home index state.tasks) (works : state.queue ≠ []) :
    (started build).Able (fun state label => label.serves index = true ∧ ¬ state.waits label)
      state := by
  obtain ⟨-, manned, -⟩ := manned_reachable up.reached
  have waits : ¬ state.waits (.finish index) := by simp [State.waits, leaves]
  cases place : state.worker index with
  | unborn => exact absurd place (manned.hired index (by rw [up.main]; exact index.isLt))
  | bluetooth | ethernet | serialLoop | serialWrite =>
    rw [place] at leaves
    cases leaves
  | waiting =>
    obtain ⟨routine, rest, front⟩ := List.exists_cons_of_ne_nil works
    obtain ⟨next, stepped⟩ := take_enabled up.reached place front
    exact ⟨.take index, ⟨by simp [Label.serves], by simp [State.waits]⟩,
      by simp [started, Label.granted, stepped]⟩
  | serialStart =>
    exact ⟨.serialStart index true, ⟨by simp [Label.serves], by simp [State.waits]⟩,
      by simp [started, Label.granted, step, place]⟩
  | serialAdd begun =>
    exact ⟨.serialAdd index true, ⟨by simp [Label.serves], by simp [State.waits]⟩,
      by simp [started, Label.granted, step, place]⟩
  | serialEnd =>
    exact ⟨.finish index, ⟨by simp [Label.serves], waits⟩,
      by simp [started, Label.granted, step, State.mayReturn, place]⟩
  | allocte =>
    obtain ⟨idle, outside⟩ := home
    exact ⟨.finish index, ⟨by simp [Label.serves], waits⟩,
      by simp [started, Label.granted, step, State.mayReturn, place, idle, outside]⟩

/-- With more workers than the routines may keep, a queued job comes to a worker, or its turn comes
nearer. -/
theorem turn_comes (enough : build.resides < n) (fairly : Fairly run) (others : ℕ) :
    run.Leads (Queued others)
      (fun state => Begun state ∨ ∃ fewer < others, Queued fewer state) := by
  refine .of_rank (fun state => tally (WorkerPhase.weight 0 1) state.worker) fun height => ?_
  intro moment held
  -- Some worker is in no routine that may keep it, and moves on.
  have up := up_reachable (run.reachable moment)
  obtain ⟨index, leaves⟩ := exists_leaving up.reached enough
  generalize place : (run.state moment).worker index = phase at leaves
  have goes : run.Leads
      (fun state => (Queued others state ∧
        tally (WorkerPhase.weight 0 1) state.worker = height) ∧ state.worker index = phase)
      (fun state => (Begun state ∨ ∃ fewer < others, Queued fewer state) ∨
        Queued others state ∧ tally (WorkerPhase.weight 0 1) state.worker < height) := by
    refine .of_fair (fairly.workers index) ?_ fun start => ?_
    · rintro state label next reached ⟨⟨queued, weight⟩, place⟩ stepped
      have up := up_reachable reached
      have moves := step_moves (started_step stepped).2
      rcases turn_nears up queued moves with begun | fewer | ⟨queued, less, steps⟩
      · exact .inr (.inl (.inl begun))
      · exact .inr (.inl (.inr fewer))
      · rw [weight] at less steps
        rcases Nat.lt_or_eq_of_le less with less | same
        · exact .inr (.inr ⟨queued, less⟩)
        · have other : ¬ label.serves index = true := fun own => Nat.ne_of_lt (steps index own) same
          refine .inl ⟨fun own => other own.1, ⟨queued, same⟩, ?_⟩
          exact (worker_frame up.main moves (Bool.eq_false_iff.mpr other)).trans place
    · obtain ⟨later, order, home⟩ := Pipeline.returns fairly.pipeline index start trivial
      refine ⟨later, order, ?_⟩
      rintro ⟨⟨queued, -⟩, place⟩
      exact able_serves (up_reachable (run.reachable later)) (place ▸ leaves) home
        (List.ne_nil_of_mem queued.1)
  exact goes moment ⟨held, place⟩

/-- With more workers than the routines may keep, a queued job comes to a worker. -/
theorem job_taken (enough : build.resides < n) (fairly : Fairly run) :
    run.Leads (fun state => .taskAllocteResources ∈ state.queue) Begun := by
  refine .of_rank (fun state => state.queue.idxOf .taskAllocteResources) fun others => ?_
  refine Endless.Leads.imp (turn_comes enough fairly others) fun state reached => ?_
  rcases reached with begun | ⟨fewer, less, inside, place⟩
  · exact .inl begun
  · exact .inr ⟨inside, place ▸ less⟩

/-! ## Pending commands get a job -/

/-- So many commands were acquired, and another one is pending. -/
def Left (count : ℕ) (state : State n) : Prop :=
  state.tasks.pending ≠ [] ∧ state.tasks.acquired.length = count

/-- More commands than so many were acquired. -/
def Fetched (count : ℕ) (state : State n) : Prop := count < state.tasks.acquired.length

/-- Where `task_allocate` goes on while commands are pending. -/
def goesOn : Pipeline.Allocator → Pipeline.Allocator
  | .reading => .returned
  | .returned => .dispatching
  | .dispatching => .reading

/-- A pending command stays until the next one is acquired. -/
theorem left_moves {count : ℕ} (left : Left count state) (moves : Moves build state label next) :
    Left count next ∨ Fetched count next := by
  rcases tells_moves moves with ⟨-, same⟩ | ⟨inner, -, stepped⟩
  · exact .inl (by simpa only [Left, same] using left)
  · obtain ⟨filled, length⟩ := left
    simp only [Left, Fetched]
    generalize next.tasks = after at stepped ⊢
    cases Pipeline.step_moves stepped with
    | pendingAdd place => exact .inl ⟨by simp [Fifo.push], length⟩
    | acquireNone place empty => exact absurd empty filled
    | acquire place front inner => exact .inr (by simp [Fifo.push, length])
    | _ => exact .inl ⟨filled, length⟩

/-- While a command is pending, the allocator stays where it is or goes on, and from
`tpool_add_work` it leaves a job behind. -/
theorem allocator_moves {phase : Pipeline.Allocator} (filled : state.tasks.pending ≠ [])
    (place : state.tasks.allocator = phase) (granted : label.granted = true)
    (moves : Moves build state label next) :
    (label.allocates = false ∧ next.tasks.allocator = phase) ∨ next.tasks.allocator = goesOn phase ∧
      (phase = .dispatching → .taskAllocteResources ∈ next.queue) := by
  cases moves with
  | takeJob idle front inner =>
    cases Pipeline.step_moves inner with
    | takeJob => exact .inl ⟨rfl, place⟩
  | serial looping kind stepped =>
    cases Pipeline.step_moves stepped with
    | serialRead | serialMalloc | serialDrop | pendingAdd | trigger => exact .inl ⟨rfl, place⟩
    | _ => cases kind
  | @dispatch ok tasks inner =>
    obtain rfl : ok = true := granted
    cases Pipeline.step_moves inner with
    | dispatch held =>
      obtain rfl := held.symm.trans place
      exact .inr ⟨rfl, fun _ => by simp [tpoolAddWork]⟩
  | task runs stepped =>
    cases Pipeline.step_moves stepped with
    | fifoFail held | fifoRead held =>
      obtain rfl := held.symm.trans place
      exact .inr ⟨rfl, by simp⟩
    | testPending held =>
      obtain rfl := held.symm.trans place
      exact .inr ⟨if_neg filled, by simp⟩
    | dispatch | takeJob => cases runs
    | _ => exact .inl ⟨rfl, place⟩
  | _ => exact .inl ⟨rfl, place⟩

/-- Where a byte can be read, the allocator can move while a command is pending. -/
theorem able_allocates (up : Up build state) (unread : 0 < state.tasks.fifo) :
    (started build).Able (fun _ label => label.allocates = true) state := by
  cases place : state.tasks.allocator with
  | reading =>
    exact ⟨.task (.fifoRead (some 1)), rfl, able_task up.allocator rfl
      (by simp [Pipeline.step, place, Nat.succ_le_of_lt unread])⟩
  | returned =>
    exact ⟨.task .testPending, rfl, able_task up.allocator rfl (by simp [Pipeline.step, place])⟩
  | dispatching =>
    exact ⟨.dispatch true, rfl,
      by simp [started, Label.granted, step, up.allocator, Pipeline.step, place]⟩

/-- Again and again there is a byte to be read. -/
def Traffic (run : (started (n := n) build).Endless) : Prop :=
  ∀ moment, ∃ later ≥ moment, 0 < (run.state later).tasks.fifo

/-- While a command is pending, traffic makes the allocator go on. -/
theorem allocator_goes (fairly : Fairly run) (traffic : Traffic run) (count : ℕ)
    (phase : Pipeline.Allocator) :
    run.Leads (fun state => Left count state ∧ state.tasks.allocator = phase)
      (fun state => Fetched count state ∨ Left count state ∧
        state.tasks.allocator = goesOn phase ∧
          (phase = .dispatching → .taskAllocteResources ∈ state.queue)) := by
  refine .of_fair fairly.allocator ?_ fun moment => ?_
  · rintro state label next - ⟨left, place⟩ stepped
    obtain ⟨granted, stepped⟩ := started_step stepped
    have moves := step_moves stepped
    rcases left_moves left moves with kept | fetched
    · rcases allocator_moves left.1 place granted moves with ⟨other, same⟩ | gone
      · exact .inl ⟨by simp [other], kept, same⟩
      · exact .inr (.inr ⟨kept, gone⟩)
    · exact .inr (.inl fetched)
  · obtain ⟨later, order, unread⟩ := traffic moment
    exact ⟨later, order, fun _ => able_allocates (up_reachable (run.reachable later)) unread⟩

/-- While a command is pending, traffic brings a job. -/
theorem job_added (fairly : Fairly run) (traffic : Traffic run) (count : ℕ) :
    run.Leads (Left count) (fun state => Fetched count state ∨
      Left count state ∧ .taskAllocteResources ∈ state.queue) := by
  have goes (phase : Pipeline.Allocator) : run.Leads
      (fun state => Left count state ∧ state.tasks.allocator = phase)
      (fun state => (Fetched count state ∨
        Left count state ∧ .taskAllocteResources ∈ state.queue) ∨
          Left count state ∧ state.tasks.allocator = goesOn phase) :=
    (allocator_goes fairly traffic count phase).imp fun _ held =>
      held.imp .inl fun held => ⟨held.1, held.2.1⟩
  have dispatches : run.Leads
      (fun state => Left count state ∧ state.tasks.allocator = .dispatching)
      (fun state => Fetched count state ∨
        Left count state ∧ .taskAllocteResources ∈ state.queue) :=
    (allocator_goes fairly traffic count .dispatching).imp fun _ held =>
      held.imp_right fun held => ⟨held.1, held.2.2 rfl⟩
  have tests := (goes .returned).trans (.or .refl dispatches)
  have reads := (goes .reading).trans (.or .refl tests)
  intro moment left
  cases place : (run.state moment).tasks.allocator with
  | reading => exact reads moment ⟨left, place⟩
  | returned => exact tests moment ⟨left, place⟩
  | dispatching => exact dispatches moment ⟨left, place⟩

/-- What was received and what was acquired stays on record. -/
theorem record_grows (moves : Moves build state label next) :
    state.tasks.added <+: next.tasks.added ∧ state.tasks.acquired <+: next.tasks.acquired := by
  rcases tells_moves moves with ⟨-, same⟩ | ⟨inner, -, stepped⟩
  · rw [same]
    exact ⟨List.prefix_refl _, List.prefix_refl _⟩
  · generalize next.tasks = after at stepped ⊢
    cases Pipeline.step_moves stepped with
    | pendingAdd => exact ⟨List.prefix_append .., List.prefix_refl _⟩
    | acquire => exact ⟨List.prefix_refl _, List.prefix_append ..⟩
    | _ => exact ⟨List.prefix_refl _, List.prefix_refl _⟩

/-! ## A job fetches a pending command -/

/-- A worker in the first half of a job stays where it is, gets its task node, or fetches a pending
command. -/
theorem job_moves {count : ℕ} {index : Fin n} {phase : Pipeline.Job} (up : Up build state)
    (left : Left count state) (place : state.tasks.job index = phase) (busy : phase ≠ .idle)
    (granted : label.granted = true) (moves : Moves build state label next) :
    Fetched count next ∨ Left count next ∧
      ((next.tasks.job index = phase ∧
          ¬ ∃ inner, label = .task inner ∧ inner.worker = some index) ∨
        phase = .running ∧ ∃ node, next.tasks.job index = .allocated node) := by
  subst place
  have outside := (Pipeline.seated_reachable ((follows_pipeline build).reachable up.reached)
    index).resolve_left busy
  rcases left_moves left moves with kept | fetched
  · refine .inr ⟨kept, ?_⟩
    cases moves with
    | takeJob waits front inner =>
      exact .inl ⟨Pipeline.job_frame (Pipeline.step_moves inner)
        (by simp [Pipeline.Label.worker]) busy, by simp⟩
    | @serial actor inner tasks looping kind stepped =>
      have other : inner.worker = none := by cases inner <;> first | rfl | cases kind
      exact .inl ⟨Pipeline.job_frame (Pipeline.step_moves stepped) (by simp [other]) busy, by simp⟩
    | dispatch inner =>
      exact .inl ⟨Pipeline.job_frame (Pipeline.step_moves inner)
        (by simp [Pipeline.Label.worker]) busy, by simp⟩
    | @task inner tasks runs stepped =>
      have moved := Pipeline.step_moves stepped
      by_cases own : inner.worker = some index
      · cases moved with
        | taskDrop => cases granted
        | taskMalloc held =>
          obtain rfl := Option.some.inj own
          exact .inr ⟨held, _, update_self ..⟩
        | acquireNone held empty => exact absurd empty left.1
        | acquire held front called =>
          have longer := kept.2
          simp [Fifo.push, left.2] at longer
        | schedule inside called =>
          cases called with
          | waitEmpty held | insert held | postFull held =>
            obtain rfl := Option.some.inj own
            simp [outside] at held
          | _ => cases own
        | _ => cases own
      · refine .inl ⟨Pipeline.job_frame moved own busy, ?_⟩
        rintro ⟨_, same, mine⟩
        exact own (Label.task.inj same ▸ mine)
    | _ => exact .inl ⟨rfl, by simp⟩
  · exact .inl fetched

/-- A worker in the first half of a job gets its task node or fetches a pending command. -/
theorem job_goes (fairly : Fairly run) (count : ℕ) (index : Fin n) (phase : Pipeline.Job)
    (busy : phase ≠ .idle) :
    run.Leads (fun state => Left count state ∧ state.tasks.job index = phase)
      (fun state => Fetched count state ∨ Left count state ∧ phase = .running ∧
        ∃ node, state.tasks.job index = .allocated node) := by
  refine .of_able (fairly.jobs index) ?_ ?_
  · rintro state label next reached ⟨left, place⟩ stepped
    obtain ⟨granted, stepped⟩ := started_step stepped
    rcases job_moves (up_reachable reached) left place busy granted (step_moves stepped) with
      fetched | ⟨kept, ⟨same, other⟩ | gone⟩
    · exact .inr (.inl fetched)
    · exact .inl ⟨other, kept, same⟩
    · exact .inr (.inr ⟨kept, gone⟩)
  · rintro state reached ⟨-, place⟩
    have up := up_reachable reached
    have seated := Pipeline.seated_reachable ((follows_pipeline build).reachable up.reached)
    exact able_jobs up (Pipeline.able_job seated (place ▸ busy))

/-- A worker in the first half of a job fetches a pending command. -/
theorem job_fetches (fairly : Fairly run) (count : ℕ) :
    run.Leads (fun state => Left count state ∧ Begun state) (Fetched count) := by
  have allocated (index : Fin n) : run.Leads (fun state => ∃ node, Left count state ∧
      state.tasks.job index = .allocated node) (Fetched count) :=
    .of_exists fun node => (job_goes fairly count index (.allocated node) (by simp)).imp
      fun _ held => held.resolve_right (by simp)
  have running (index : Fin n) : run.Leads
      (fun state => Left count state ∧ state.tasks.job index = .running) (Fetched count) := by
    refine ((job_goes fairly count index .running (by simp)).imp fun state held => ?_).trans
      (.or .refl (allocated index))
    rcases held with fetched | ⟨left, -, node, place⟩
    · exact .inl fetched
    · exact .inr ⟨node, left, place⟩
  rintro moment ⟨left, index, busy⟩
  cases place : (run.state moment).tasks.job index with
  | idle => exact absurd place busy
  | running => exact running index moment ⟨left, place⟩
  | allocated node => exact allocated index moment ⟨node, left, place⟩

/-- A queued job comes to a worker while a command is pending, or another one has fetched it. -/
theorem job_begins (enough : build.resides < n) (fairly : Fairly run) (count : ℕ) :
    run.Leads (fun state => Left count state ∧ .taskAllocteResources ∈ state.queue)
      (fun state => Fetched count state ∨ Left count state ∧ Begun state) := by
  rintro moment ⟨left, queued⟩
  obtain ⟨later, order, begun⟩ := job_taken enough fairly moment queued
  have held : Left count (run.state later) ∨ Fetched count (run.state later) := by
    refine @Endless.keeps _ _ _ run (fun state => Left count state ∨ Fetched count state)
      _ _ (.inl left) order fun state label next _ held stepped => ?_
    have moves := step_moves (started_step stepped).2
    rcases held with left | fetched
    · exact left_moves left moves
    · exact .inr (Nat.lt_of_lt_of_le fetched (record_grows moves).2.length_le)
  exact ⟨later, order, held.symm.imp_right fun left => ⟨left, begun⟩⟩

/-- While a command is pending, traffic brings a worker that fetches the next one. -/
theorem command_fetched (enough : build.resides < n) (fairly : Fairly run)
    (traffic : Traffic run) (count : ℕ) : run.Leads (Left count) (Fetched count) := by
  have begins := (job_begins enough fairly count).trans (.or .refl (job_fetches fairly count))
  exact (job_added fairly traffic count).trans (.or .refl begins)

/-- A command that was received is acquired. -/
theorem received_acquired (enough : build.resides < n) (fairly : Fairly run)
    (traffic : Traffic run) (index command : ℕ) :
    run.Leads (fun state => state.tasks.added[index]? = some command)
      (fun state => command ∈ state.tasks.acquired) := by
  refine .of_rank (fun state => index + 1 - state.tasks.acquired.length) fun height => ?_
  rintro moment ⟨entered, ahead⟩
  have tasks := (follows_pipeline build).reachable (up_reachable (run.reachable moment)).reached
  have arrived := (Pipeline.recorded_reachable tasks).arrived
  by_cases gone : index < (run.state moment).tasks.acquired.length
  · rw [arrived, List.getElem?_append_left gone] at entered
    exact ⟨moment, Nat.le_refl _, .inl (List.mem_of_getElem? entered)⟩
  · have filled : (run.state moment).tasks.pending ≠ [] := by
      intro empty
      have inside := (List.getElem?_eq_some_iff.mp entered).1
      simp only [arrived, empty, List.append_nil] at inside
      exact gone inside
    obtain ⟨later, order, fetched⟩ := command_fetched enough fairly traffic _ moment ⟨filled, rfl⟩
    have kept : (run.state later).tasks.added[index]? = some command := by
      refine @Endless.keeps _ _ _ run
        (fun state => state.tasks.added[index]? = some command) _ _ entered order
        fun state label next _ held stepped => ?_
      obtain ⟨new, grown⟩ := (record_grows (step_moves (started_step stepped).2)).1
      have inside := (List.getElem?_eq_some_iff.mp held).1
      rw [← grown, List.getElem?_append_left inside, held]
    simp only [Fetched] at fetched
    exact ⟨later, order, .inr ⟨kept, by omega⟩⟩

/-! ## A server that is only kept reading -/

/-- Neither the scheduler nor a worker has anything to do. -/
structure Asleep (state : State n) : Prop where
  /-- No work is queued. -/
  queue : state.queue = []
  /-- Every worker waits for a work or is in a routine that may keep it. -/
  worker : ∀ index, state.worker index = .waiting ∨ (state.worker index).stays = true
  /-- No worker is in a job. -/
  home : ∀ index, Pipeline.Home index state.tasks
  /-- The scheduler waits. -/
  taker : state.tasks.schedule.taker = .waiting
  /-- No task is announced. -/
  full : state.tasks.schedule.tasksemFull = 0

namespace Asleep

/-- The scheduler cannot move. -/
theorem scheduler (asleep : Asleep state) : ¬ (started build).Able
    (fun _ label => ∃ inner, label = .task inner ∧ inner.schedules = true) state := by
  rintro ⟨_, ⟨inner, rfl, own⟩, moves⟩
  obtain ⟨next, stepped⟩ := Option.ne_none_iff_exists'.mp moves
  cases step_moves (started_step stepped).2 with
  | task runs inside =>
    cases Pipeline.step_moves inside with
    | schedule _ moved =>
      cases moved with
      | waitFull place ready => simp [asleep.full] at ready
      | miss place | remove place | postEmpty place => simp [asleep.taker] at place
      | _ => cases own
    | excute place | recycle place => simp [asleep.taker] at place
    | _ => cases own

/-- No worker can move in a job. -/
theorem jobs (asleep : Asleep state) (index : Fin n) : ¬ (started build).Able
    (fun _ label => ∃ inner, label = .task inner ∧ inner.worker = some index) state := by
  rintro ⟨_, ⟨inner, rfl, own⟩, moves⟩
  obtain ⟨next, stepped⟩ := Option.ne_none_iff_exists'.mp moves
  obtain ⟨idle, outside⟩ := asleep.home index
  cases step_moves (started_step stepped).2 with
  | task runs inside =>
    cases Pipeline.step_moves inside with
    | taskDrop place | taskMalloc place | acquireNone place | acquire place =>
      obtain rfl := Option.some.inj own
      simp [idle] at place
    | schedule _ moved =>
      cases moved with
      | waitEmpty place | insert place | postFull place =>
        obtain rfl := Option.some.inj own
        simp [outside] at place
      | _ => cases own
    | _ => cases own

/-- No worker can move outside its jobs, but by leaving a routine that may keep it. -/
theorem workers (asleep : Asleep state) (index : Fin n) : ¬ (started build).Able
    (fun state label => label.serves index = true ∧ ¬ state.waits label) state := by
  rintro ⟨label, ⟨own, waits⟩, moves⟩
  obtain ⟨next, stepped⟩ := Option.ne_none_iff_exists'.mp moves
  cases step_moves (started_step stepped).2 with
  | takeJob place front | take place front => simp [asleep.queue] at front
  | @serialStart actor _ place | @serialAdd actor _ _ place =>
    rcases asleep.worker actor with held | held <;> simp [place, WorkerPhase.stays] at held
  | @finish actor ended =>
    rcases asleep.worker actor with held | held
    · simp [State.mayReturn, held] at ended
    · exact waits held
  | _ => cases own

/-- It sleeps on while bytes come and are read. -/
theorem reads (asleep : Asleep state) (moves : Moves build state label next)
    (reads : label ∈ [.task (.stray 1), .task (.fifoRead (some 1)), .task .testPending]) :
    Asleep next := by
  obtain ⟨queue, worker, home, taker, full⟩ := asleep
  cases moves with
  | task runs moved =>
    cases Pipeline.step_moves moved with
    | stray | fifoRead | testPending => exact ⟨queue, worker, home, taker, full⟩
    | _ => simp at reads
  | _ => simp at reads

/-- Where nothing is pending, bytes can come and be read for ever. -/
theorem exists_traffic (asleep : Asleep state) (reached : (started build).Reachable state)
    (unread : state.tasks.fifo = 0) (reading : state.tasks.allocator = .reading)
    (empty : state.tasks.pending = []) :
    ∃ run : (started build).Endless, run.state 0 = state ∧ Fairly run ∧ Traffic run := by
  have up := up_reachable reached
  have whole : { state with tasks := { state.tasks with fifo := 0, allocator := .reading } } =
      state := by
    rw [← unread, ← reading]
  have tests : step build
      { state with tasks := { state.tasks with fifo := 0, allocator := .returned } }
      (.task .testPending) = some { state with
        tasks := { state.tasks with
          fifo := 0
          allocator := if state.tasks.pending = [] then .reading else .dispatching } } := by
    simp [step, State.runs, Pipeline.step, up.allocator]
  rw [if_pos empty, whole] at tests
  have ran : (started build).run state
      [.task (.stray 1), .task (.fifoRead (some 1)), .task .testPending] = some state := by
    refine (started build).run_cons.mpr
      ⟨{ state with tasks := { state.tasks with fifo := 1 } }, ?_, (started build).run_cons.mpr
        ⟨{ state with tasks := { state.tasks with fifo := 0, allocator := .returned } }, ?_,
          (started build).run_cons.mpr ⟨state, tests, rfl⟩⟩⟩
    · simp [started, Label.granted, step, State.runs, Pipeline.step, unread]
    · simp [started, Label.granted, step, State.runs, Pipeline.step, up.allocator, reading]
  have positive : 0 < [(.task (.stray 1) : Label n), .task (.fifoRead (some 1)),
    .task .testPending].length := by simp
  let run := Endless.loop reached ran positive
  have sleeps (moment : ℕ) : Asleep (run.state moment) :=
    Endless.loop_keeps asleep (fun _ _ _ inside asleep stepped =>
      asleep.reads (step_moves (started_step stepped).2) inside) moment
  have reads (moment : ℕ) : ∃ later ≥ moment,
      run.label later = some (.task (.fifoRead (some 1))) := Endless.loop_takes (by simp) moment
  refine ⟨run, by simp [run, Endless.loop], ⟨fun _ moment => ?_, ?_, ?_, ?_⟩,
    fun moment => ?_⟩
  · obtain ⟨later, order, taken⟩ := reads moment
    exact ⟨later, order, _, taken, rfl⟩
  · exact Endless.fair_of_disabled fun moment => (sleeps moment).scheduler
  · exact fun index => Endless.fair_of_disabled fun moment => (sleeps moment).jobs index
  · exact fun index => Endless.fair_of_disabled fun moment => (sleeps moment).workers index
  · obtain ⟨later, order, taken⟩ := reads moment
    refine ⟨later, order, ?_⟩
    have stepped := (started_step (Endless.step taken)).2
    generalize run.state (later + 1) = next at stepped
    cases step_moves stepped with
    | task runs moved =>
      cases Pipeline.step_moves moved with
      | fifoRead place least limit available => exact available

end Asleep

/-! ## Every command -/

/-- **Traffic carries every command on.** In every endless run of a server that has started up with
more workers than its routines may keep, has memory for its jobs and treats its threads fairly:
where there is a byte to be read again and again, every command that was received is executed. (No
memory is used after it was freed.) -/
theorem traffic_excutes (enough : build.resides < n) (run : (started (n := n) build).Endless)
    (fairly : Fairly run) (traffic : Traffic run) (moment : ℕ) :
    ∀ command ∈ (run.state moment).tasks.added,
      ∃ later ≥ moment, command ∈ (run.state later).tasks.excuted := by
  intro command inside
  obtain ⟨index, entered⟩ := List.mem_iff_getElem?.mp inside
  obtain ⟨later, order, acquired⟩ :=
    received_acquired enough fairly traffic index command moment entered
  obtain ⟨last, further, excuted⟩ :=
    Pipeline.acquired_leads fairly.pipeline command later acquired
  exact ⟨last, Nat.le_trans order further, excuted⟩

/-- Of two commands that are received one read takes both trigger bytes, so one job is added, and
the second command is left pending. -/
def stranded : List (Label 4) :=
  served.take 28 ++ (served.drop 24).take 4 ++ .task (.fifoRead (some 2)) :: served.drop 29

/-- A stray byte brings the second of two commands to its end. -/
theorem traffic_excutes_run : ∃ run : (started (n := 4) .sysServer).Endless,
    (run.state 0).tasks.added = [0, 1] ∧ (run.state 0).tasks.excuted = [0] ∧
      (run.state 0).tasks.fifo = 0 ∧ ∃ later ≥ 0, 1 ∈ (run.state later).tasks.excuted := by
  obtain ⟨first, last, began, main, allocator, scheduler, added, excuted, unread, ran, calm⟩ :
      ∃ first last : State 4, (machine .sysServer).run .start stranded = some first ∧
        first.main = .serving ∧ first.allocator = true ∧ first.scheduler = true ∧
        first.tasks.added = [0, 1] ∧ first.tasks.excuted = [0] ∧ first.tasks.fifo = 0 ∧
        (started .sysServer).run first
          (.task (.stray 1) :: .task (.fifoRead (some 1)) :: served.drop 29) = some last ∧
        (Asleep last ∧ last.tasks.fifo = 0 ∧ last.tasks.allocator = .reading ∧
          last.tasks.pending = []) := by
    refine ⟨_, _, rfl, rfl, rfl, rfl, rfl, rfl, rfl, rfl, ⟨rfl, ?_, ?_, rfl, rfl⟩, rfl, rfl, rfl⟩
    · exact fun index => by fin_cases index <;> first | exact .inl rfl | exact .inr rfl
    · exact fun index => by fin_cases index <;> exact ⟨rfl, rfl⟩
  have reached : (started .sysServer).Reachable first :=
    ⟨first, [], ⟨⟨_, stranded, rfl, began⟩, main, allocator, scheduler⟩, rfl⟩
  obtain ⟨asleep, empty, reading, nothing⟩ := calm
  obtain ⟨reads, rfl, fairly, traffic⟩ :=
    asleep.exists_traffic (reached.run _ ran) empty reading nothing
  obtain ⟨run, rfl, follows, fair⟩ := reads.exists_behind reached ran
  have held : Fairly run := ⟨fair _ fairly.allocator, fair _ fairly.scheduler,
    fun index => fair _ (fairly.jobs index), fun index => fair _ (fairly.workers index)⟩
  refine ⟨run, added, excuted, unread,
    traffic_excutes (by decide) run held (fun moment => ?_) 0 1 (by simp [added])⟩
  obtain ⟨later, order, byte⟩ := traffic moment
  exact ⟨_, Nat.le_add_right_of_le order, by rw [follows later]; exact byte⟩

end SysServer.Startup
