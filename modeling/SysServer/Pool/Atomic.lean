import SysServer.Pool.Drain

/-!
# The pool as its users see it

A thread outside the pool sees the works that are queued, the workers that have one, and the calls
of `tpool_add_work` that have not taken effect. Six kinds of steps change this (`Event`): a call
takes effect where it links its work or fails to allocate it, and a worker takes the first work
where it unlinks it. So an open pool is a queue with atomic operations (`shown_step`), whatever
its lock, its condition variable and its chain do meanwhile.
-/

namespace SysServer.Threadpool

open Library Function

variable {n : ℕ} {α δ ρ β : Type*}

/-- What is seen of a pool. -/
structure Shown (n : ℕ) (α ρ β : Type*) where
  /-- The works that are queued. -/
  queue : List (Work ρ β)
  /-- Whether each worker has a work, once it is created. -/
  worker : Fin n → Option Bool
  /-- The routine that each thread is about to add. -/
  adder : α → Option ρ

/-- What a step of the pool's code can be to the threads outside. -/
inductive Event (n : ℕ) (α ρ β : Type*) where
  /-- A worker is created. -/
  | spawned (index : Fin n)
  /-- A worker takes the first work. -/
  | took (index : Fin n) (content : Work ρ β)
  /-- The routine of a worker returns. -/
  | returned (index : Fin n)
  /-- A thread calls `tpool_add_work`. -/
  | called (caller : α) (routine : ρ)
  /-- Its work could not be allocated. -/
  | refused (caller : α)
  /-- Its work is linked. -/
  | accepted (caller : α) (content : Work ρ β)

/-- The operations of an atomic pool. -/
inductive Shown.Moves [DecidableEq α] (shown : Shown n α ρ β) :
    Event n α ρ β → Shown n α ρ β → Prop where
  /-- A worker is created, without a work. -/
  | spawned {index : Fin n} (place : shown.worker index = none) :
    Moves shown (.spawned index)
      { shown with worker := update shown.worker index (some false) }
  /-- A worker without a work takes the first one. -/
  | took {index : Fin n} {content : Work ρ β} {rest : List (Work ρ β)}
    (place : shown.worker index = some false) (front : shown.queue = content :: rest) :
    Moves shown (.took index content)
      { shown with queue := rest, worker := update shown.worker index (some true) }
  /-- A worker has run its work. -/
  | returned {index : Fin n} (place : shown.worker index = some true) :
    Moves shown (.returned index)
      { shown with worker := update shown.worker index (some false) }
  /-- A call begins. -/
  | called {caller : α} {routine : ρ} (place : shown.adder caller = none) :
    Moves shown (.called caller routine)
      { shown with adder := update shown.adder caller (some routine) }
  /-- A call fails. -/
  | refused {caller : α} {routine : ρ} (place : shown.adder caller = some routine) :
    Moves shown (.refused caller) { shown with adder := update shown.adder caller none }
  /-- A call adds its work behind the others. -/
  | accepted {caller : α} {content : Work ρ β}
    (place : shown.adder caller = some content.routine) :
    Moves shown (.accepted caller content)
      { shown with
        queue := shown.queue ++ [content]
        adder := update shown.adder caller none }

/-- One atomic operation. -/
def Shown.step [DecidableEq α] [DecidableEq ρ] [DecidableEq β] (shown : Shown n α ρ β) :
    Event n α ρ β → Option (Shown n α ρ β)
  | .spawned index =>
    match shown.worker index with
    | none => some { shown with worker := update shown.worker index (some false) }
    | some _ => none
  | .took index content =>
    match shown.worker index, shown.queue with
    | some false, first :: rest =>
      if first = content then
        some { shown with queue := rest, worker := update shown.worker index (some true) }
      else none
    | _, _ => none
  | .returned index =>
    match shown.worker index with
    | some true => some { shown with worker := update shown.worker index (some false) }
    | _ => none
  | .called caller routine =>
    match shown.adder caller with
    | none => some { shown with adder := update shown.adder caller (some routine) }
    | some _ => none
  | .refused caller =>
    match shown.adder caller with
    | some _ => some { shown with adder := update shown.adder caller none }
    | none => none
  | .accepted caller content =>
    if shown.adder caller = some content.routine then
      some { shown with
        queue := shown.queue ++ [content]
        adder := update shown.adder caller none }
    else none

/-- The atomic pool from its creation. -/
def atomic [DecidableEq α] [DecidableEq ρ] [DecidableEq β] :
    Machine (Shown n α ρ β) (Event n α ρ β) where
  initial shown := shown = ⟨[], fun _ => none, fun _ => none⟩
  step := Shown.step

/-- The operations are what the atomic pool does. -/
theorem Shown.Moves.step [DecidableEq α] [DecidableEq ρ] [DecidableEq β]
    {shown after : Shown n α ρ β} {event : Event n α ρ β} (moves : Moves shown event after) :
    shown.step event = some after := by
  cases moves with
  | took place front => simp [Shown.step, place, front]
  | spawned place | returned place | called place | refused place | accepted place =>
    simp [Shown.step, place]

/-- Whether the worker has a work, once it is created. -/
def WorkerPhase.engaged : WorkerPhase ρ β → Option Bool
  | .unborn => none
  | .unlocking _ _ | .running _ _ => some true
  | _ => some false

/-- The worker is inside a routine. -/
def WorkerPhase.runs : WorkerPhase ρ β → Bool
  | .running _ _ => true
  | _ => false

/-- The routine that the thread is about to add. -/
def AdderPhase.request : AdderPhase ρ β → Option ρ
  | .allocating routine _ => some routine
  | .locking _ content | .readHead _ content | .storing _ content | .walking _ content _
  | .linking _ content _ => some content.routine
  | .idle | .signalling _ | .unlocking _ => none

/-- The works that are accepted and not taken. -/
def State.queued (state : State n α δ ρ β) : List (Work ρ β) :=
  state.accepted.drop state.taken.length

/-- What is seen of the pool. -/
def State.shown (state : State n α δ ρ β) : Shown n α ρ β where
  queue := state.queued
  worker := WorkerPhase.engaged ∘ state.worker
  adder := AdderPhase.request ∘ state.adder

/-- What a step of the pool's code is to the threads outside, if anything. -/
def State.event (state : State n α δ ρ β) : Label n α δ ρ β → Option (Event n α ρ β)
  | .spawn index => some (.spawned index)
  | .worker index =>
    match state.worker index with
    | .popNext _ => (state.queueHead.bind state.heap).map fun node => .took index node.1
    | .running _ _ => some (.returned index)
    | _ => none
  | .add caller (some routine) _ => some (.called caller routine)
  | .malloc caller none => some (.refused caller)
  | .adder caller =>
    match state.adder caller with
    | .storing _ content | .linking _ content _ => some (.accepted caller content)
    | _ => none
  | _ => none

variable [DecidableEq α] [DecidableEq δ] {state next : State n α δ ρ β}
  {label : Label n α δ ρ β} {queue : List (Address × Work ρ β)}

omit [DecidableEq α] [DecidableEq δ] in
/-- The chain of an open pool spells the works that are seen. -/
theorem Linked.queued (linked : Linked state queue) (opened : Opened state) :
    state.queued = works queue := by
  rw [State.queued, linked.order, opened.discarded, List.append_nil]
  exact List.drop_left' (List.length_map _)

omit [DecidableEq α] [DecidableEq δ] in
/-- A work that is accepted is queued behind the others. -/
theorem Linked.queued_accept (linked : Linked state queue) (content : Work ρ β) :
    (state.accepted ++ [content]).drop state.taken.length = state.queued ++ [content] := by
  apply List.drop_append_of_le_length
  rw [linked.order, List.append_assoc, List.length_append, List.length_map]
  exact Nat.le_add_right ..

/-- A step shows nothing, or what it is to the threads outside. -/
def Shows (state : State n α δ ρ β) (label : Label n α δ ρ β) (next : State n α δ ρ β) : Prop :=
  (state.event label = none ∧ next.shown = state.shown) ∨
    ∃ event, state.event label = some event ∧ Shown.Moves state.shown event next.shown

namespace Shows

variable {works : List (Work ρ β)} {event : Event n α ρ β}

omit [DecidableEq δ] in
/-- A worker moves and is seen to. -/
theorem worker {index : Fin n} {phase : WorkerPhase ρ β} (queued : next.queued = works)
    (moved : next.worker = update state.worker index phase) (kept : next.adder = state.adder)
    (happened : state.event label = some event)
    (moves : Shown.Moves state.shown event
      ⟨works, update state.shown.worker index phase.engaged, state.shown.adder⟩) :
    Shows state label next := by
  have seen : next.shown =
      ⟨works, update state.shown.worker index phase.engaged, state.shown.adder⟩ := by
    rw [State.shown, queued, moved, kept, comp_update]
    rfl
  exact .inr ⟨event, happened, seen ▸ moves⟩

omit [DecidableEq δ] in
/-- A worker moves and looks the same. -/
theorem worker_same {index : Fin n} {phase : WorkerPhase ρ β}
    (queued : next.queued = state.queued) (moved : next.worker = update state.worker index phase)
    (kept : next.adder = state.adder) (silent : state.event label = none)
    (same : phase.engaged = (state.worker index).engaged) : Shows state label next := by
  refine .inl ⟨silent, ?_⟩
  rw [State.shown, queued, moved, kept, comp_update, same]
  exact congrArg (fun worker => Shown.mk _ worker _) (update_eq_self index _)

omit [DecidableEq δ] in
/-- An adding thread moves and is seen to. -/
theorem adder {caller : α} {phase : AdderPhase ρ β} (queued : next.queued = works)
    (kept : next.worker = state.worker) (moved : next.adder = update state.adder caller phase)
    (happened : state.event label = some event)
    (moves : Shown.Moves state.shown event
      ⟨works, state.shown.worker, update state.shown.adder caller phase.request⟩) :
    Shows state label next := by
  have seen : next.shown =
      ⟨works, state.shown.worker, update state.shown.adder caller phase.request⟩ := by
    rw [State.shown, queued, moved, kept, comp_update]
    rfl
  exact .inr ⟨event, happened, seen ▸ moves⟩

omit [DecidableEq δ] in
/-- Sleepers may wake, and an adding thread moves and looks the same. -/
theorem adder_same {caller : α} {phase : AdderPhase ρ β} (queued : next.queued = state.queued)
    (workers : WorkerPhase.engaged ∘ next.worker = WorkerPhase.engaged ∘ state.worker)
    (moved : next.adder = update state.adder caller phase) (silent : state.event label = none)
    (same : phase.request = (state.adder caller).request) : Shows state label next := by
  refine .inl ⟨silent, ?_⟩
  rw [State.shown, queued, workers, moved, comp_update, same]
  exact congrArg (fun adder => Shown.mk _ _ adder) (update_eq_self caller _)

end Shows

/-- A worker shows that it takes a work and that it has run it. -/
theorem threadRoutine_shows {index : Fin n} (linked : Linked state queue) (opened : Opened state)
    (stepped : threadRoutine state index = some next) : Shows state (.worker index) next := by
  obtain ⟨born, awake⟩ := threadRoutine_awake stepped
  cases threadRoutine_moves stepped with
  | @workerTurn _ actor phase own turn =>
    obtain rfl : index = actor := Thread.worker.inj own
    generalize place : state.worker index = before at turn born awake
    cases turn with
    | spawn => exact absurd rfl born
    | wake => cases awake
    | run =>
      have seen : state.shown.worker index = some true := congrArg WorkerPhase.engaged place
      exact .worker rfl rfl rfl (by simp only [State.event, place]) (.returned seen)
    | _ =>
      refine .worker_same rfl rfl rfl (by simp only [State.event, place]) ?_
      rw [place]
      rfl
  | workerLock place free =>
    rcases place with place | place <;>
      exact .worker_same rfl rfl rfl (by simp only [State.event, place]) (by rw [place]; rfl)
  | @workerRelease actor phase release =>
    generalize place : state.worker index = before at release
    cases release with
    | _ => exact .worker_same rfl rfl rfl (by simp only [State.event, place]) (by rw [place]; rfl)
  | @popNext _ work head content following place front stored =>
    obtain ⟨rest, rfl, -⟩ := linked.front front stored
    have seen : state.shown.worker index = some false := congrArg WorkerPhase.engaged place
    have first : state.shown.queue = content :: works rest := linked.queued opened
    have left : state.accepted.drop (state.taken ++ [(index, content)]).length = works rest := by
      rw [List.length_append, ← List.drop_drop]
      exact congrArg (List.drop 1) first
    exact .worker left rfl rfl (by simp [State.event, place, front, stored]) (.took seen first)
  | free place =>
    exact .worker_same rfl rfl rfl (by simp only [State.event, place]) (by rw [place]; rfl)

omit [DecidableEq α] [DecidableEq δ] in
/-- A turn of an adding thread asks for the same. -/
theorem AdderTurn.request {before after : AdderPhase ρ β} (turn : AdderTurn state before after) :
    after.request = before.request := by
  cases turn <;> rfl

/-- An adding thread shows that it links its work. -/
theorem tpoolAddWork_shows {caller : α} (linked : Linked state queue)
    (stepped : tpoolAddWork state caller = some next) : Shows state (.adder caller) next := by
  cases tpoolAddWork_moves stepped with
  | workerTurn actor => cases actor
  | adderTurn turn =>
    refine .adder_same rfl rfl rfl ?_ turn.request
    generalize place : state.adder caller = before at turn
    cases turn <;> simp only [State.event, place]
  | adderLock place free =>
    exact .adder_same rfl rfl rfl (by simp only [State.event, place]) (by rw [place]; rfl)
  | @storeHead _ work content place =>
    have seen : state.shown.adder caller = some content.routine :=
      congrArg AdderPhase.request place
    exact .adder (linked.queued_accept content) rfl rfl (by simp only [State.event, place])
      (.accepted seen)
  | @link _ work member content before following place stored =>
    have seen : state.shown.adder caller = some content.routine :=
      congrArg AdderPhase.request place
    exact .adder (linked.queued_accept content) rfl rfl (by simp only [State.event, place])
      (.accepted seen)
  | adderRelease place =>
    exact .adder_same rfl rfl rfl (by simp only [State.event, place]) (by rw [place]; rfl)

/-- A step of `tpool_destroy` shows nothing. -/
theorem tpoolDestroy_shows {call : δ} (stepped : tpoolDestroy state call = some next) :
    Shows state (.destroyer call) next := by
  refine .inl ⟨rfl, ?_⟩
  cases tpoolDestroy_moves stepped with
  | workerTurn actor => cases actor
  | broadcast place =>
    have same : WorkerPhase.engaged ∘ (fun index => (state.worker index).roused) =
        WorkerPhase.engaged ∘ state.worker := by
      funext index
      change (state.worker index).roused.engaged = (state.worker index).engaged
      cases state.worker index <;> rfl
    exact congrArg (fun worker => Shown.mk _ worker _) same
  | _ => rfl

/-- An open pool is an atomic one: a step of its code is one of the atomic operations, or nothing
is seen of it. -/
theorem shown_step (linked : Linked state queue) (opened : Opened state)
    (stepped : step state label = some next) : Shows state label next := by
  cases label with
  | worker index => exact threadRoutine_shows linked opened stepped
  | adder caller => exact tpoolAddWork_shows linked stepped
  | destroyer call => exact tpoolDestroy_shows stepped
  | spawn index =>
    simp only [step] at stepped
    split at stepped
    · rename_i place
      obtain rfl := Option.some.inj stepped
      have seen : state.shown.worker index = none := congrArg WorkerPhase.engaged place
      exact .worker rfl rfl rfl rfl (.spawned seen)
    · cases stepped
  | wake index =>
    simp only [step] at stepped
    split at stepped
    · rename_i place
      obtain rfl := Option.some.inj stepped
      exact .worker_same rfl rfl rfl rfl (by rw [place]; rfl)
    · cases stepped
  | add caller routine arg =>
    cases step_moves stepped with
    | workerTurn actor => cases actor
    | addNull place => exact .inl ⟨rfl, rfl⟩
    | add place =>
      have seen : state.shown.adder caller = none := congrArg AdderPhase.request place
      exact .adder rfl rfl rfl rfl (.called seen)
  | malloc caller block =>
    cases step_moves stepped with
    | workerTurn actor => cases actor
    | @mallocFail _ routine arg place =>
      have seen : state.shown.adder caller = some routine := congrArg AdderPhase.request place
      exact .adder rfl rfl rfl rfl (.refused seen)
    | malloc place fresh => exact .adder_same rfl rfl rfl rfl (by rw [place]; rfl)
  | signal caller woken =>
    cases step_moves stepped with
    | workerTurn actor => cases actor
    | signal place slept nobody =>
      have workers := funext (woken_same WorkerPhase.engaged rfl slept)
      exact .adder_same rfl workers rfl rfl (by rw [place]; rfl)
  | destroy call =>
    cases step_moves stepped with
    | workerTurn actor => cases actor
    | destroy place => exact .inl ⟨rfl, rfl⟩

/-! ## Whole runs -/

variable [Fintype α] [DecidableEq ρ] [DecidableEq β]

/-- A step that leaves the pool open is seen as a run of the atomic pool. -/
theorem OpenPool.seen (pool : OpenPool state) (opened : state.shutdown = false)
    (stepped : step state label = some next) :
    atomic.run state.shown (state.event label).toList = some next.shown := by
  obtain ⟨stays, ⟨queue, linked⟩, -⟩ := pool.2 opened
  rcases shown_step linked stays stepped with ⟨silent, same⟩ | ⟨event, happened, moves⟩
  · rw [silent, same]
    rfl
  · rw [happened]
    exact (Machine.run_cons atomic).mpr ⟨next.shown, moves.step, rfl⟩

end SysServer.Threadpool
