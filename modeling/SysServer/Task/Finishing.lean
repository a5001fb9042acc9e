import Mathlib.Data.Prod.Lex
import SysServer.Pool.Effort
import SysServer.Task.Threads

/-!
# The server comes to rest

Left to themselves, the threads of the server on its pool stop after finitely many steps, in
whatever order they are scheduled (`server_comes_to_rest`). A step that the server model sees takes
something off what is left of its works and of the errands of the main thread; a call of
`tpool_add_work` takes its thread into the code of the pool; and every other step in that code
brings the next step nearer that the server model sees.
-/

namespace SysServer

open Library Function

variable {n : ℕ} {build : Startup.Build}

namespace Startup

/-- The steps that the main thread takes in the code of the pool. -/
def MainPhase.errands (n : ℕ) : MainPhase → ℕ
  | .createWorker index => n - index
  | .triggering rest => rest.length
  | _ => 0

/-- The steps of its own that are left to the server. -/
def State.errands (build : Build) (state : State n) : ℕ :=
  state.weight build 0 1 + state.main.errands n

/-- The step is the server's own, or an errand of the main thread. -/
def State.errand (state : State n) (label : Label n) : Prop :=
  ¬ state.waits label ∨ ∃ ok, label = .main ok ∧ Threads.turns n state.main ok = false

variable {state next : State n} {label : Label n}

/-- A step of the server's own costs one, and no input is behind it. -/
theorem cost_own (own : ¬ state.waits label) : label.cost = 1 ∧ label.brings = 0 := by
  have pipeline : ∀ inner : Pipeline.Label (Fin n), inner.cost ≠ 0 →
      inner.cost = 1 ∧ 2 * inner.brings = 0 := by
    intro inner costs
    cases inner with
    | serialRead | stray => exact absurd rfl costs
    | fifoRead result =>
      cases result with
      | none => exact absurd rfl costs
      | some count => exact ⟨rfl, rfl⟩
    | _ => exact ⟨rfl, rfl⟩
  cases label with
  | main ok => exact absurd trivial own
  | serial index inner | task inner => exact pipeline inner own
  | _ => exact ⟨rfl, rfl⟩

/-- A step of the server's own leaves the main thread and the threads of the pipeline. -/
theorem main_own (moves : Moves build state label next) (own : ¬ state.waits label) :
    next.main = state.main ∧ next.allocator = state.allocator ∧
      next.scheduler = state.scheduler := by
  cases moves with
  | mainTurn | createAllocate | createSchedule | poolCalloc | poolFields | lockInit | condInit
  | createWorker | trigger => exact absurd trivial own
  | _ => exact ⟨rfl, rfl, rfl⟩

/-- A step of the main thread in the code of the pool is one of its errands. -/
theorem errands_main {ok : Bool} (moves : Moves build state (.main ok) next)
    (inside : Threads.turns n state.main ok = false) :
    next.main.errands n < state.main.errands n := by
  have busy : 0 < state.main.errands n := by
    cases place : state.main with
    | createWorker index =>
      rw [place] at inside
      simp only [Threads.turns, Bool.or_eq_false_iff, decide_eq_false_iff_not] at inside
      simp only [MainPhase.errands]
      omega
    | triggering rest =>
      rw [place] at inside
      cases rest with
      | nil => cases inside
      | cons routine rest => exact Nat.succ_pos _
    | _ =>
      rw [place] at inside
      cases inside
  cases moves with
  | @mainTurn _ phase turn =>
    change phase.errands n < _
    generalize state.main = stood at turn inside busy
    cases turn with
    | fail => exact busy
    | created last => simp [Threads.turns, last] at inside
    | _ => cases inside
  | @createWorker index place =>
    have within := index.isLt
    simp only [place, MainPhase.errands]
    omega
  | trigger place =>
    rw [place]
    exact Nat.lt_succ_self _
  | createAllocate place | createSchedule place | poolCalloc place | poolFields place
  | lockInit place | condInit place =>
    rw [place] at inside
    cases inside

/-- An errand is one less. -/
theorem errands_lt (moves : Moves build state label next) (errand : state.errand label) :
    next.errands build < state.errands build := by
  have pays := @weight_moves n build 0 1 state next label moves
  rcases errand with own | ⟨ok, rfl, inside⟩
  · obtain ⟨cost, brings⟩ := cost_own own
    rw [cost, brings] at pays
    rw [State.errands, State.errands, (main_own moves own).1]
    omega
  · have less := errands_main moves inside
    simp only [Label.cost, Label.brings] at pays
    simp only [State.errands]
    omega

/-- An errand of a server that has started up leaves the main thread and those of the pipeline. -/
theorem serving_errand (served : state.main = .serving) (moves : Moves build state label next)
    (errand : state.errand label) : next.main = .serving ∧
      next.allocator = state.allocator ∧ next.scheduler = state.scheduler := by
  rcases errand with own | ⟨ok, rfl, inside⟩
  · obtain ⟨main, threads⟩ := main_own moves own
    exact ⟨main.trans served, threads⟩
  · rw [served] at inside
    cases inside

end Startup

namespace Threads

variable {state next : State n} {label : Label n}

/-- The threads that are at no call of `tpool_add_work`. -/
def State.uncalled (state : State n) : ℕ :=
  tally (fun request : Option Startup.Routine => if request.isNone then 1 else 0)
    state.pool.shown.adder

/-- What is left until the server rests: first the steps that the server model sees, then the calls
up to the next one, then the steps in the code of the pool. -/
def State.left (build : Startup.Build) (state : State n) : ℕ ×ₗ ℕ ×ₗ ℕ :=
  toLex (state.outline.errands build, toLex (state.uncalled, state.pool.effort))

/-- What a step of the server's own does. -/
inductive Advances (build : Startup.Build) (state next : State n) : Prop where
  /-- The server model sees it. -/
  | errand {seen : Startup.Label n}
    (moves : Startup.Moves build state.outline seen next.outline)
    (errand : state.outline.errand seen)
  /-- A thread calls `tpool_add_work`. -/
  | call {caller : Caller n} {routine : Startup.Routine}
    (same : next.outline = state.outline) (place : state.pool.shown.adder caller = none)
    (called : next.pool.shown.adder = update state.pool.shown.adder caller (some routine))
  /-- It is not seen outside the code of the pool. -/
  | code (same : next.outline = state.outline) (shown : next.pool.shown = state.pool.shown)
    (less : next.pool.effort < state.pool.effort)

/-- What advances leaves less. -/
theorem Advances.left (advances : Advances build state next) :
    next.left build < state.left build := by
  rw [State.left, State.left, Prod.Lex.toLex_lt_toLex, Prod.Lex.toLex_lt_toLex]
  cases advances with
  | errand moves errand => exact .inl (Startup.errands_lt moves errand)
  | @call caller routine same place called =>
    have moved := tally_update
      (fun request : Option Startup.Routine => if request.isNone then 1 else 0)
      state.pool.shown.adder caller (some routine)
    rw [place, ← called] at moved
    exact .inr ⟨congrArg (Startup.State.errands build) same, .inl (Nat.lt_of_succ_le moved.le)⟩
  | code same shown less =>
    refine .inr ⟨congrArg (Startup.State.errands build) same, .inr ⟨?_, less⟩⟩
    simp only [State.uncalled, shown]

/-- Only a worker in a routine returns from it. -/
theorem event_returned {label : PoolLabel n} {index : Fin n}
    (happened : state.pool.event label = some (.returned index)) :
    label = .worker index ∧ (state.pool.worker index).runs = true := by
  cases label with
  | worker other =>
    simp only [Threadpool.State.event] at happened
    split at happened
    · obtain ⟨node, -, taken⟩ := Option.map_eq_some_iff.mp happened
      cases taken
    · rename_i place
      obtain rfl := Threadpool.Event.returned.inj (Option.some.inj happened)
      exact ⟨rfl, by rw [place]; rfl⟩
    · cases happened
  | malloc caller block => cases block <;> cases happened
  | add caller routine arg => cases routine <;> cases happened
  | adder caller =>
    simp only [Threadpool.State.event] at happened
    split at happened <;> cases happened
  | _ => cases happened

/-- What the server model sees of a permitted step in the code of the pool is an errand. -/
theorem Engaged.errand {label : PoolLabel n} {event : PoolEvent n} (fits : Engaged state)
    (permits : state.permits label = true) (own : ¬ state.waits (.pool label))
    (happened : state.pool.event label = some event)
    {shown : Threadpool.Shown n (Caller n) Startup.Routine Unit}
    (moves : Threadpool.Shown.Moves state.pool.shown event shown) :
    ∀ seen ∈ told event, state.outline.errand seen := by
  have allows := allows_event permits happened
  have answers {caller : Caller n} {routine : Startup.Routine} (ok : Bool)
      (asks : state.pool.shown.adder caller = some routine) :
      ∀ seen ∈ [Threads.answer ok caller], state.outline.errand seen := by
    have called := fits.adder caller routine asks
    intro seen inside
    obtain rfl := List.mem_singleton.mp inside
    cases caller with
    | main =>
      refine .inr ⟨ok, rfl, ?_⟩
      change turns n state.server.main ok = false
      simp only [calls] at called
      split at called
      · rename_i place
        rw [place]
        rfl
      · cases called
    | allocator | worker => exact .inl id
  cases moves with
  | @spawned index place =>
    intro seen inside
    obtain rfl := List.mem_singleton.mp inside
    have stands : state.outline.main = .createWorker index := allows
    refine .inr ⟨true, rfl, ?_⟩
    rw [stands]
    simp [turns]
  | took place front =>
    intro seen inside
    obtain rfl := List.mem_singleton.mp inside
    exact .inl id
  | @returned index place =>
    intro seen inside
    obtain rfl := List.mem_singleton.mp inside
    obtain ⟨rfl, runs⟩ := event_returned happened
    exact .inl fun waits => own ⟨runs, waits⟩
  | called place => exact fun _ inside => absurd inside List.not_mem_nil
  | refused place => exact answers false place
  | accepted place => exact answers true place

/-- A step of the server's own advances it. -/
theorem advances (reached : (Startup.machine build).Reachable state.outline)
    (fits : Engaged state) (own : ¬ state.waits label)
    (stepped : step build state label = some next) : Advances build state next := by
  have seen := (simulates_server build).step state label next reached fits stepped
  cases step_moves stepped with
  | server steps moved =>
    obtain ⟨last, moves, ended⟩ := (Machine.run_cons _).mp seen
    obtain rfl := Option.some.inj ended
    exact .errand (Startup.step_moves moves) (.inl own)
  | @pool label pool permits moved =>
    rcases fits.shows moved with ⟨silent, same⟩ | ⟨event, happened, moves⟩
    · simp only [tells, silent] at seen
      obtain ⟨opened, -, stays⟩ := Threadpool.open_reachable fits.pool
      have early := pool_open fits.pool
      refine .code (by rw [silent]; exact (Option.some.inj seen).symm) same
        (Threadpool.effort_lt opened early (stays early) ?_ silent moved)
      cases label with
      | spawn index => cases silent
      | wake index => exact absurd trivial own
      | add caller routine arg =>
        cases routine with
        | none => simp [State.permits] at permits
        | some routine => cases silent
      | destroy call | destroyer call => exact call.elim
      | _ => rfl
    · have errand := fits.errand permits own happened moves
      simp only [tells, happened] at seen
      have one {first : Startup.Label n} (single : told event = [first]) :
          Advances build state ⟨(some event).elim state.server (carries state.server), pool⟩ := by
        simp only [Option.elim_some, single] at seen
        obtain ⟨last, moved, ended⟩ := (Machine.run_cons _).mp seen
        obtain rfl := Option.some.inj ended
        exact .errand (Startup.step_moves moved) (errand first (by simp [single]))
      rw [happened]
      generalize after : pool.shown = shown at moves
      cases moves with
      | @called caller routine place =>
        exact .call (Option.some.inj seen).symm place (congrArg Threadpool.Shown.adder after)
      | _ => exact one rfl

/-- A server that has started up has its threads after a step of its own. -/
theorem Advances.serving (advances : Advances build state next)
    (served : state.outline.main = .serving) : next.outline.main = .serving ∧
      next.outline.allocator = state.outline.allocator ∧
      next.outline.scheduler = state.outline.scheduler := by
  cases advances with
  | errand moves errand => exact Startup.serving_errand served moves errand
  | call same | code same =>
    rw [same]
    exact ⟨served, rfl, rfl⟩

/-- **The server on its pool comes to rest.** From every state that it reaches, its threads take
only finitely many steps of their own, in whatever order they are scheduled and whichever sleepers
a signal wakes; of the main thread those in the code of the pool are counted, and not the other
steps of its startup and its sleep. Once the server has started up with both threads of the
pipeline and with more workers than its routines may keep, such steps lead to where the server
model is calm, no thread is in the code of the pool but asleep, and every acquired command has been
executed. (No memory is used after it was freed.) -/
theorem server_comes_to_rest {labels : List (Label n)}
    (ran : (machine build).run .start labels = some state) :
    (machine build).Ends (fun state label => ¬ state.waits label) state ∧
      (state.server.main = .serving → state.server.allocator = true →
        state.server.scheduler = true → build.resides < n →
        ∃ own last, (machine build).Obeys (fun state label => ¬ state.waits label) state own ∧
          (machine build).run state own = some last ∧ Startup.Calm last.outline ∧ Still last ∧
          last.server.tasks.excuted.Perm last.server.tasks.acquired) := by
  have simulates := simulates_server (n := n) build
  have reached : (machine build).Reachable state := ⟨_, labels, rfl, ran⟩
  have ends : (machine build).Ends (fun state label => ¬ state.waits label) state := by
    refine (machine build).ends_of_rank wellFounded_lt (machine build).Reachable (State.left build)
      (fun _ _ _ reached stepped => reached.step _ stepped)
      (fun _ _ _ reached own stepped => ?_) reached
    obtain ⟨seen, fits⟩ := simulates.reachable reached
    exact (advances seen fits own stepped).left
  refine ⟨ends, fun served allocator scheduler enough => ?_⟩
  obtain ⟨own, last, obeys, went, stops⟩ := ends.stops
  obtain ⟨-, main, threads⟩ := (machine build).run_obeys_invariant
    (fun later => (machine build).Reachable later ∧ later.server.main = .serving ∧
      later.server.allocator = true ∧ later.server.scheduler = true)
    (fun _ _ _ own held stepped => by
      obtain ⟨reached, served, allocator, scheduler⟩ := held
      obtain ⟨seen, fits⟩ := simulates.reachable reached
      obtain ⟨main, first, second⟩ := (advances seen fits own stepped).serving served
      exact ⟨reached.step _ stepped, main, first.trans allocator, second.trans scheduler⟩)
    obeys ⟨reached, served, allocator, scheduler⟩ went
  obtain ⟨seen, fits⟩ := simulates.reachable (reached.run _ went)
  obtain ⟨calm, still⟩ := Resting.settled stops seen fits main threads.1 threads.2 enough
  have tasks := (Startup.follows_pipeline build).reachable seen
  exact ⟨own, last, obeys, went, calm, still, calm.tasks.excuted tasks⟩

/-- From the trigger of a command on, the server comes to rest. -/
theorem server_comes_to_rest_run :
    ∃ state : State 4, (machine .sysServer).run .start ((served 0 1 2 3).take 62) = some state ∧
      state.server.tasks.pending = [0] ∧ state.server.tasks.fifo = 1 ∧
      (machine .sysServer).Ends (fun state label => ¬ state.waits label) state ∧
      ∃ own last, (machine .sysServer).run state own = some last ∧
        Startup.Calm last.outline ∧ Still last ∧
        last.server.tasks.excuted.Perm last.server.tasks.acquired := by
  obtain ⟨state, ran, main, allocator, scheduler, pending, fifo⟩ :
      ∃ state : State 4,
        (machine .sysServer).run .start ((served 0 1 2 3).take 62) = some state ∧
          state.server.main = .serving ∧ state.server.allocator = true ∧
          state.server.scheduler = true ∧ state.server.tasks.pending = [0] ∧
          state.server.tasks.fifo = 1 := ⟨_, rfl, rfl, rfl, rfl, rfl, rfl⟩
  obtain ⟨ends, rests⟩ := server_comes_to_rest ran
  obtain ⟨own, last, -, went, settled⟩ := rests main allocator scheduler (by decide)
  exact ⟨state, ran, pending, fifo, ends, own, last, went, settled⟩

end Threads

end SysServer
