import SysServer.Pool.Atomic

/-!
# The steps between two events

While nothing is seen of an open pool, its threads come nearer to the next event with every step
(`effort_lt`): a worker to its next look at the queue, and a thread inside `tpool_add_work` to the
end of the chain, and then to its signal and its return. What a signal costs is set aside for it:
every sleeper that it wakes may take six steps.
-/

namespace SysServer.Threadpool

open Library Function

variable {n : ℕ} {α δ ρ β : Type*}

/-- The most steps that an adding thread takes, with those of the workers that it wakes. -/
def AdderPhase.toil (state : State n α δ ρ β) : AdderPhase ρ β → ℕ
  | .idle => 0
  | .unlocking _ => 1
  | .signalling _ => 6 * n + 2
  | .storing _ _ | .linking _ _ _ => 6 * n + 3
  | .walking _ _ member => behind state.heap state.queued.length member + 6 * n + 4
  | .readHead _ _ => state.queued.length + 6 * n + 4
  | .locking _ _ => state.queued.length + 6 * n + 5
  | .allocating _ _ => state.queued.length + 6 * n + 6

/-- The most steps that are taken before the next event. -/
def State.effort [Fintype α] (state : State n α δ ρ β) : ℕ :=
  tally WorkerPhase.toil state.worker + tally (AdderPhase.toil state) state.adder

/-- A thread that is in the code of the pool takes the step, and no sleeper wakes by itself. -/
def Label.inner : Label n α δ ρ β → Bool
  | .worker _ | .malloc _ _ | .adder _ | .signal _ _ => true
  | _ => false

variable [DecidableEq α] [DecidableEq δ] {state next : State n α δ ρ β}
  {label : Label n α δ ρ β} {queue : List (Address × Work ρ β)}

omit [DecidableEq α] [DecidableEq δ] in
/-- A thread inside `tpool_add_work` has as far to go while the chain stays as it is. -/
theorem AdderPhase.toil_same (linked : Linked state queue) (opened : Opened state)
    (queued : next.queued = state.queued)
    (heap : ∀ node ∈ nodes queue, next.heap node = state.heap node) (caller : α) :
    (state.adder caller).toil next = (state.adder caller).toil state := by
  have knows := linked.adders caller
  cases place : state.adder caller with
  | walking work content member =>
    rw [place] at knows
    obtain ⟨rest, suffix, spelled⟩ := linked.chain.from_mem knows.2
    have enough : rest.length ≤ state.queued.length := by
      rw [linked.queued opened, works, List.length_map]
      exact suffix.length_le
    have kept : Chain next.heap (some member) rest := by
      refine spelled.congr fun node inside => heap node ?_
      exact (suffix.map Prod.fst).subset inside
    have before := spelled.behind_eq enough
    have after := kept.behind_eq enough
    simp only [AdderPhase.toil, queued]
    omega
  | _ => simp only [AdderPhase.toil, queued]

variable [Fintype α]

omit [DecidableEq α] [DecidableEq δ] in
/-- The threads inside `tpool_add_work` have as far to go while the chain stays as it is. -/
theorem tally_toil_same (linked : Linked state queue) (opened : Opened state)
    (queued : next.queued = state.queued)
    (heap : ∀ node ∈ nodes queue, next.heap node = state.heap node) :
    tally (AdderPhase.toil next) state.adder = tally (AdderPhase.toil state) state.adder :=
  Finset.sum_congr rfl fun caller _ => AdderPhase.toil_same linked opened queued heap caller

omit [DecidableEq α] [DecidableEq δ] in
/-- A worker comes nearer to its next look at the queue. -/
theorem effort_worker {index : Fin n} {phase : WorkerPhase ρ β} (linked : Linked state queue)
    (opened : Opened state) (queued : next.queued = state.queued)
    (heap : ∀ node ∈ nodes queue, next.heap node = state.heap node)
    (moved : next.worker = update state.worker index phase) (kept : next.adder = state.adder)
    (less : phase.toil < (state.worker index).toil) : next.effort < state.effort := by
  have adders := tally_toil_same linked opened queued heap
  have workers := tally_update WorkerPhase.toil state.worker index phase
  rw [State.effort, State.effort, moved, kept, adders]
  omega

omit [DecidableEq δ] in
/-- A thread inside `tpool_add_work` comes nearer to its return. -/
theorem effort_adder {caller : α} {phase : AdderPhase ρ β} (linked : Linked state queue)
    (opened : Opened state) (queued : next.queued = state.queued)
    (heap : ∀ node ∈ nodes queue, next.heap node = state.heap node)
    (moved : next.adder = update state.adder caller phase) (kept : next.worker = state.worker)
    (less : phase.toil next < (state.adder caller).toil state) : next.effort < state.effort := by
  have adders := tally_toil_same linked opened queued heap
  have adder := tally_update (AdderPhase.toil next) state.adder caller phase
  rw [AdderPhase.toil_same linked opened queued heap caller] at adder
  rw [State.effort, State.effort, moved, kept]
  omega

omit [Fintype α] [DecidableEq α] [DecidableEq δ] in
/-- A turn of a thread inside `tpool_add_work` brings it nearer to its return. -/
theorem AdderTurn.toils {caller : α} {before after : AdderPhase ρ β} (linked : Linked state queue)
    (opened : Opened state) (place : state.adder caller = before)
    (turn : AdderTurn state before after) : after.toil state < before.toil state := by
  have length : state.queued.length = queue.length := by
    rw [linked.queued opened, works, List.length_map]
  have knows := linked.adders caller
  rw [place] at knows
  cases turn with
  | empty head =>
    simp only [AdderPhase.toil]
    omega
  | first head =>
    have chain := linked.chain
    rw [head] at chain
    have whole := chain.behind_eq length.ge
    simp only [AdderPhase.toil]
    omega
  | next stored =>
    obtain ⟨rest, suffix, spelled⟩ := linked.chain.from_mem knows.2
    have enough := suffix.length_le.trans length.ge
    have before := spelled.behind_eq enough
    obtain ⟨content, following, tail, rfl, holds, after⟩ := spelled.front
    obtain ⟨-, rfl⟩ := Prod.mk.inj (Option.some.inj (stored.symm.trans holds))
    have shorter := after.behind_eq ((Nat.le_succ _).trans enough)
    simp only [AdderPhase.toil]
    simp only [List.length_cons] at before
    omega
  | last stored =>
    simp only [AdderPhase.toil]
    omega

omit [DecidableEq α] [DecidableEq δ] in
/-- A signal wakes each sleeper for six steps at most. -/
theorem toil_woken (worker : Fin n → WorkerPhase ρ β) (woken : Finset (Fin n)) :
    tally WorkerPhase.toil (fun index => if index ∈ woken then .woken else worker index) ≤
      tally WorkerPhase.toil worker + 6 * n := by
  calc
    _ ≤ ∑ index, ((worker index).toil + 6) := by
      refine Finset.sum_le_sum fun index _ => ?_
      change (if index ∈ woken then WorkerPhase.woken else worker index).toil ≤ _
      split
      · exact Nat.le_add_left 6 _
      · exact Nat.le_add_right _ 6
    _ = _ := by simp [tally, Finset.sum_add_distrib, Nat.mul_comm]

/-- Every step between two events brings the pool nearer to the next one. -/
theorem effort_lt (pool : OpenPool state) (opened : state.shutdown = false)
    (stays : ∀ index, (state.worker index).departs = false) (inner : label.inner = true)
    (silent : state.event label = none) (stepped : step state label = some next) :
    next.effort < state.effort := by
  obtain ⟨early, ⟨queue, linked⟩, -⟩ := pool.2 opened
  cases label with
  | spawn | wake | add | destroy | destroyer => cases inner
  | worker index =>
    obtain ⟨born, awake⟩ := threadRoutine_awake stepped
    cases threadRoutine_moves stepped with
    | @workerTurn _ actor phase own turn =>
      obtain rfl : index = actor := Thread.worker.inj own
      exact effort_worker linked early rfl (fun _ _ => rfl) rfl rfl (turn.toils opened born awake).1
    | workerLock place free =>
      refine effort_worker linked early rfl (fun _ _ => rfl) rfl rfl ?_
      rcases place with place | place <;> simp [place, WorkerPhase.toil]
    | workerRelease release =>
      exact effort_worker linked early rfl (fun _ _ => rfl) rfl rfl (release.toils (stays _)).1
    | popNext place front stored => simp [State.event, place, front, stored] at silent
    | @free _ work content place =>
      have mine : state.claim (.worker index) = some work := by simp only [view, place]; rfl
      refine effort_worker linked early rfl (fun node inside => ?_) rfl rfl ?_
      · exact update_of_ne (fun same : node = work =>
          linked.claims.unshared _ _ mine (same ▸ inside)) ..
      · simp [place, WorkerPhase.toil]
  | malloc caller block =>
    cases step_moves stepped with
    | workerTurn actor => cases actor
    | mallocFail place => cases silent
    | @malloc _ routine arg work place fresh =>
      refine effort_adder linked early rfl (fun node inside => ?_) rfl rfl ?_
      · exact update_of_ne (fun same : node = work =>
          linked.claims.kept node inside (same ▸ fresh)) ..
      · rw [place]
        exact Nat.lt_succ_self _
  | adder caller =>
    cases tpoolAddWork_moves stepped with
    | workerTurn actor => cases actor
    | adderTurn turn =>
      have less := turn.toils linked early rfl
      exact effort_adder linked early rfl (fun _ _ => rfl) rfl rfl less
    | adderLock place free =>
      refine effort_adder linked early rfl (fun _ _ => rfl) rfl rfl ?_
      rw [place]
      exact Nat.lt_succ_self _
    | storeHead place => simp [State.event, place] at silent
    | link place stored => simp [State.event, place] at silent
    | adderRelease place =>
      refine effort_adder linked early rfl (fun _ _ => rfl) rfl rfl ?_
      rw [place]
      exact Nat.zero_lt_one
  | signal caller woken =>
    cases step_moves stepped with
    | workerTurn actor => cases actor
    | @signal _ content _ place slept nobody =>
      have workers := toil_woken state.worker woken
      have adders := tally_update (AdderPhase.toil state) state.adder caller (.unlocking content)
      rw [place] at adders
      simp only [AdderPhase.toil] at adders
      change tally WorkerPhase.toil (fun index => if index ∈ woken then .woken else _) +
        tally (AdderPhase.toil state) (update state.adder caller (.unlocking content)) <
          tally WorkerPhase.toil state.worker + tally (AdderPhase.toil state) state.adder
      omega

end SysServer.Threadpool
