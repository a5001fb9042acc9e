import SysServer.Pool.Wakeup
import SysServer.Pool.Works

/-!
# The open pool drains

While no thread is inside `tpool_add_work` and the pool is open, the workers' own steps bring the
pool nearer to a rest: a worker that takes a work leaves one work fewer, and between two works it
takes at most nine steps (`toil`). A worker that is created or wakes by itself adds at most six. So
every schedule of the workers' steps ends, and where it ends no accepted work is left: every one
has been run and freed, and the workers sleep.
-/

namespace SysServer.Threadpool

open Library Function

variable {n : ℕ} {α δ ρ β : Type*}

/-- The most steps that a worker takes until it looks for its next work or rests. -/
def WorkerPhase.toil : WorkerPhase ρ β → ℕ
  | .unlocking _ _ => 9
  | .running _ _ => 8
  | .freeing _ _ => 7
  | .locking | .woken => 6
  | .testHead => 5
  | .testShutdown => 4
  | .checkShutdown => 3
  | .popHead => 2
  | .waiting | .leaving | .popNext _ => 1
  | .unborn | .asleep | .exited => 0

/-- The worker has begun to leave `thread_routine`. -/
def WorkerPhase.departs : WorkerPhase ρ β → Bool
  | .leaving | .exited => true
  | _ => false

/-- The works that are accepted and not taken. -/
def State.backlog (state : State n α δ ρ β) : ℕ := state.accepted.length - state.taken.length

/-- The most steps that the workers take until the pool rests. -/
def State.toil (state : State n α δ ρ β) : ℕ :=
  10 * state.backlog + tally WorkerPhase.toil state.worker

/-- A step that a worker takes by itself costs one. -/
def Label.cost : Label n α δ ρ β → ℕ
  | .worker _ => 1
  | _ => 0

/-- A worker that is created or wakes by itself has up to six steps more to take. -/
def Label.rouses : Label n α δ ρ β → ℕ
  | .spawn _ | .wake _ => 6
  | _ => 0

/-- In an open pool a turn of a worker that is awake brings it nearer to its next work or its
rest, and it does not leave. -/
theorem WorkerTurn.toils {state : State n α δ ρ β} {before after : WorkerPhase ρ β}
    (turn : WorkerTurn state before after) (opened : state.shutdown = false)
    (created : before ≠ .unborn) (awake : before.sleeps = false) :
    after.toil < before.toil ∧ after.departs = false := by
  cases turn with
  | spawn => exact absurd rfl created
  | wake => cases awake
  | closed shut => simp [opened] at shut
  | leave shut => simp [opened] at shut
  | _ => simp [WorkerPhase.toil, WorkerPhase.departs]

/-- A worker that does not leave releases the lock to sleep or to run its work. -/
theorem WorkerRelease.toils {before after : WorkerPhase ρ β} (release : WorkerRelease before after)
    (stays : before.departs = false) :
    after.toil < before.toil ∧ after.departs = false := by
  cases release with
  | leave => cases stays
  | _ => simp [WorkerPhase.toil, WorkerPhase.departs]

variable [DecidableEq α] [DecidableEq δ] {state next : State n α δ ρ β}
  {label : Label n α δ ρ β}

omit [DecidableEq α] [DecidableEq δ] in
/-- A worker's own step is made by a worker that exists and is awake. -/
theorem threadRoutine_awake {index : Fin n} (stepped : threadRoutine state index = some next) :
    state.worker index ≠ .unborn ∧ (state.worker index).sleeps = false := by
  unfold threadRoutine at stepped
  split at stepped
  · cases stepped
  · cases stepped
  · cases stepped
  all_goals
    rename_i place
    rw [place]
    exact ⟨nofun, rfl⟩

omit [DecidableEq α] [DecidableEq δ] in
/-- A worker that moves and does not leave. -/
theorem departs_update {actor : Fin n} {phase : WorkerPhase ρ β}
    (stays : ∀ index, (state.worker index).departs = false) (own : phase.departs = false)
    (index : Fin n) : (update state.worker actor phase index).departs = false := by
  by_cases same : index = actor
  · rwa [same, update_self]
  · rw [update_of_ne same]
    exact stays index

/-- In an open pool no worker begins to leave. -/
theorem departs_moves (moves : Moves state label next) (opened : next.shutdown = false)
    (stays : ∀ index, (state.worker index).departs = false) (index : Fin n) :
    (next.worker index).departs = false := by
  have before := shutdown_moves moves opened
  cases moves with
  | @workerTurn label actor phase own turn =>
    refine departs_update stays ?_ index
    generalize state.worker actor = stood at turn
    cases turn with
    | leave shut => simp [before] at shut
    | _ => rfl
  | workerLock place free => exact departs_update stays rfl index
  | @workerRelease actor phase release =>
    exact departs_update stays (release.toils (stays actor)).2 index
  | popNext place front stored => exact departs_update stays rfl index
  | free place => exact departs_update stays rfl index
  | @signal caller content woken place slept nobody =>
    change (if index ∈ woken then WorkerPhase.woken else state.worker index).departs = false
    split
    · rfl
    · exact stays index
  | broadcast place =>
    change (state.worker index).roused.departs = false
    rw [WorkerPhase.roused]
    split
    · rfl
    · exact stays index
  | _ => exact stays index

/-! ## Who can take a step -/

namespace Linked

variable {queue : List (Address × Work ρ β)}

omit [DecidableEq α] [DecidableEq δ] in
/-- A worker inside the critical section can take its next step. -/
theorem inside_steps {index : Fin n} (linked : Linked state queue)
    (inside : (state.worker index).inside = true) : threadRoutine state index ≠ none := by
  have knows := linked.workers index
  cases place : state.worker index with
  | unborn | asleep | exited | locking | woken | running | freeing =>
    rw [place] at inside
    cases inside
  | testHead => cases head : state.queueHead <;> simp [threadRoutine, place, head]
  | popHead =>
    rw [place] at knows
    obtain ⟨work, head⟩ := Option.ne_none_iff_exists'.mp knows
    simp [threadRoutine, place, head]
  | popNext work =>
    rw [place] at knows
    have head : state.queueHead = some work := knows
    have chain := linked.chain
    rw [head] at chain
    obtain ⟨content, next, -, -, stored, -⟩ := chain.front
    simp [threadRoutine, place, head, stored]
  | _ => simp [threadRoutine, place]

omit [DecidableEq α] [DecidableEq δ] in
/-- While nobody has the lock, a worker that exists, is awake and does not leave can take its next
step. -/
theorem worker_steps {index : Fin n} (linked : Linked state queue) (free : state.owner = none)
    (born : state.worker index ≠ .unborn) (awake : state.worker index ≠ .asleep)
    (stays : (state.worker index).departs = false) : threadRoutine state index ≠ none := by
  have knows := linked.workers index
  cases place : state.worker index with
  | unborn => exact absurd place born
  | asleep => exact absurd place awake
  | leaving | exited =>
    rw [place] at stays
    cases stays
  | locking | woken | running => simp [threadRoutine, place, free]
  | freeing work content =>
    rw [place] at knows
    obtain ⟨next, stored⟩ := knows
    simp [threadRoutine, place, stored]
  | _ => exact linked.inside_steps (by rw [place]; rfl)

/-- While it has the lock or nobody has it, a thread inside `tpool_add_work` can take its next
step. -/
theorem adder_steps {caller : α} (linked : Linked state queue)
    (able : (state.adder caller).inside = true ∨ state.owner = none)
    (busy : (state.adder caller).rests = false) :
    step state (.malloc caller none) ≠ none ∨ step state (.adder caller) ≠ none ∨
      ∃ woken, step state (.signal caller woken) ≠ none := by
  have knows := linked.adders caller
  cases place : state.adder caller with
  | idle =>
    rw [place] at busy
    cases busy
  | allocating routine arg => exact .inl (by simp [step, place])
  | locking work content =>
    rw [place] at able
    have free := able.resolve_left Bool.false_ne_true
    exact .inr (.inl (by simp [step, tpoolAddWork, place, free]))
  | readHead work content =>
    refine .inr (.inl ?_)
    cases head : state.queueHead <;> simp [step, tpoolAddWork, place, head]
  | walking work content member =>
    rw [place] at knows
    obtain ⟨⟨before, following⟩, stored⟩ :=
      Option.ne_none_iff_exists'.mp (linked.claims.kept member knows.2)
    refine .inr (.inl ?_)
    cases following <;> simp [step, tpoolAddWork, place, stored]
  | linking work content member =>
    rw [place] at knows
    obtain ⟨-, -, before, stored⟩ := knows
    exact .inr (.inl (by simp [step, tpoolAddWork, place, stored]))
  | signalling content =>
    -- The signal may wake every sleeper.
    refine .inr (.inr ⟨Finset.univ.filter fun index => (state.worker index).sleeps = true, ?_⟩)
    simp [step, place, Finset.filter_eq_empty_iff]
  | _ => exact .inr (.inl (by simp [step, tpoolAddWork, place]))

end Linked

variable [Fintype α]

/-- What the workers of an open pool keep while nobody adds. -/
structure Quiet (state : State n α δ ρ β) : Prop where
  /-- The pool is open. -/
  opened : state.shutdown = false
  /-- Nobody adds. -/
  rests : ∀ caller, (state.adder caller).rests = true
  /-- No worker leaves. -/
  stays : ∀ index, (state.worker index).departs = false
  /-- The lock excludes, the queue is linked and its works are covered. -/
  pool : OpenPool state
  /-- The owner of the lock stands inside. -/
  attended : Attended state.inside state.owner

namespace Quiet

omit [DecidableEq α] [DecidableEq δ] in
/-- The accepted works are the taken ones and the queued ones. -/
theorem linked (quiet : Quiet state) : ∃ queue, Linked state queue ∧
    state.accepted = state.taken.map Prod.snd ++ works queue := by
  obtain ⟨opened, ⟨queue, linked⟩, -⟩ := quiet.pool.2 quiet.opened
  refine ⟨queue, linked, ?_⟩
  rw [linked.order, opened.discarded, List.append_nil]

omit [DecidableEq α] [DecidableEq δ] [Fintype α] in
/-- The backlog is the length of the queue. -/
theorem backlog_eq {queue : List (Address × Work ρ β)}
    (order : state.accepted = state.taken.map Prod.snd ++ works queue) :
    state.backlog = queue.length := by
  rw [State.backlog, order]
  simp [works]

/-- Moving a worker nearer to its rest. -/
theorem toil_update {index : Fin n} {phase : WorkerPhase ρ β} {worker : Fin n → WorkerPhase ρ β}
    (less : phase.toil < (worker index).toil) :
    tally WorkerPhase.toil (update worker index phase) < tally WorkerPhase.toil worker := by
  have moved := tally_update WorkerPhase.toil worker index phase
  omega

/-- A step that a worker takes by itself brings the pool nearer to its rest and accepts
nothing. -/
theorem toils {index : Fin n} (quiet : Quiet state)
    (stepped : step state (.worker index) = some next) :
    next.toil < state.toil ∧ next.accepted = state.accepted := by
  obtain ⟨created, awake⟩ := threadRoutine_awake stepped
  have stays := quiet.stays index
  cases step_moves stepped with
  | @workerTurn label actor phase own turn =>
    obtain rfl : index = actor := Thread.worker.inj own
    refine ⟨?_, rfl⟩
    exact Nat.add_lt_add_left (toil_update (turn.toils quiet.opened created awake).1) _
  | workerLock place free =>
    refine ⟨Nat.add_lt_add_left (toil_update ?_) _, rfl⟩
    rcases place with place | place <;> simp [place, WorkerPhase.toil]
  | workerRelease release =>
    exact ⟨Nat.add_lt_add_left (toil_update (release.toils stays).1) _, rfl⟩
  | @popNext _ work head content following place front stored =>
    refine ⟨?_, rfl⟩
    obtain ⟨queue, linked, order⟩ := quiet.linked
    obtain ⟨rest, rfl, -⟩ := linked.front front stored
    have length := backlog_eq order
    have moved := tally_update WorkerPhase.toil state.worker index (.unlocking work content)
    rw [place] at moved
    simp only [WorkerPhase.toil] at moved
    simp only [State.toil, State.backlog, State.workerAt, List.length_append,
      List.length_cons, List.length_nil] at length ⊢
    omega
  | free place =>
    refine ⟨Nat.add_lt_add_left (toil_update ?_) _, rfl⟩
    simp [place, WorkerPhase.toil]

/-- A step of a worker, by itself or not, is paid for and accepts nothing. -/
theorem pays (quiet : Quiet state) (own : ∃ index, label.thread = .worker index)
    (stepped : step state label = some next) :
    next.toil + label.cost ≤ state.toil + label.rouses ∧ next.accepted = state.accepted := by
  cases label with
  | worker index => exact quiet.toils stepped
  | spawn index | wake index =>
    simp only [step] at stepped
    split at stepped
    · rename_i place
      obtain rfl := Option.some.inj stepped
      have moved := fun phase => tally_update WorkerPhase.toil state.worker index phase
      rw [place] at moved
      refine ⟨?_, rfl⟩
      simp only [State.toil, State.workerAt, State.backlog, Label.cost, Label.rouses]
      grind [WorkerPhase.toil]
    · cases stepped
  | _ => simp [Label.thread] at own

/-- A step of a worker keeps the pool quiet. -/
theorem step_keeps (quiet : Quiet state) (own : ∃ index, label.thread = .worker index)
    (stepped : step state label = some next) : Quiet next := by
  have moves := step_moves stepped
  have opened : next.shutdown = false := by
    cases moves with
    | storeShutdown place => simp [Label.thread] at own
    | _ => exact quiet.opened
  refine ⟨opened, fun caller => ?_, departs_moves moves opened quiet.stays,
    quiet.pool.moves moves, quiet.attended.step (lock_moves moves)⟩
  rcases rests_moves moves (quiet.rests caller) with rests | ⟨_, _, rfl⟩
  · exact rests
  · simp [Label.thread] at own

omit [DecidableEq α] [DecidableEq δ] in
/-- While nobody adds and the pool is open, only workers stand inside the critical section. -/
theorem owner_worker (quiet : Quiet state) {thread : Thread n α δ}
    (inside : state.inside thread = true) :
    ∃ index, thread = .worker index ∧ (state.worker index).inside = true := by
  cases thread with
  | worker index => exact ⟨index, rfl, inside⟩
  | adder caller =>
    simp only [view, AdderPhase.eq_idle (quiet.rests caller)] at inside
    cases inside
  | destroyer call =>
    have early := (quiet.pool.2 quiet.opened).1.early call
    simp only [view] at inside
    cases place : state.destroyer call <;> rw [place] at early inside <;>
      simp [DestroyerPhase.early, DestroyerPhase.inside] at early inside

omit [DecidableEq α] [DecidableEq δ] in
/-- Where no worker can take a step, nobody has the lock. -/
theorem stuck_free (quiet : Quiet state)
    (stuck : ∀ index, threadRoutine state index = none) : state.owner = none := by
  obtain ⟨queue, linked, -⟩ := quiet.linked
  cases owned : state.owner with
  | none => rfl
  | some thread =>
    obtain ⟨index, -, inside⟩ := quiet.owner_worker (quiet.attended thread owned)
    exact absurd (stuck index) (linked.inside_steps inside)

omit [DecidableEq α] [DecidableEq δ] in
/-- Where no worker can take a step, every worker that exists sleeps. -/
theorem stuck_sleeps (quiet : Quiet state)
    (stuck : ∀ index, threadRoutine state index = none) (index : Fin n) :
    state.worker index = .unborn ∨ state.worker index = .asleep := by
  obtain ⟨queue, linked, -⟩ := quiet.linked
  by_contra awake
  push Not at awake
  exact linked.worker_steps (quiet.stuck_free stuck) awake.1 awake.2 (quiet.stays index)
    (stuck index)

omit [DecidableEq α] [DecidableEq δ] in
/-- Where no worker can take a step and there is one, the queue is empty. -/
theorem stuck_empty (quiet : Quiet state) (stuck : ∀ index, threadRoutine state index = none)
    (born : ∃ index, state.worker index ≠ .unborn) : state.backlog = 0 := by
  have sleeps := quiet.stuck_sleeps stuck
  obtain ⟨index, born⟩ := born
  have asleep := (sleeps index).resolve_left born
  obtain ⟨-, -, covered⟩ := quiet.pool.2 quiet.opened
  have bound := covered ⟨index, by rw [asleep]; rfl⟩
  have ready : tally WorkerPhase.ready state.worker = 0 := by
    refine tally_eq_zero fun other => ?_
    rcases sleeps other with place | place <;> rw [place] <;> rfl
  have signals : tally AdderPhase.signals state.adder = 0 :=
    tally_eq_zero fun caller => by rw [AdderPhase.eq_idle (quiet.rests caller)]; rfl
  rw [State.backlog]
  omega

end Quiet

/-- What holds of every reachable pool. -/
theorem open_reachable (reached : machine.Reachable state) : OpenPool state ∧
    Attended state.inside state.owner ∧
      (state.shutdown = false → ∀ index, (state.worker index).departs = false) := by
  apply Machine.Reachable.invariant machine (fun state : State n α δ ρ β => OpenPool state ∧
    Attended state.inside state.owner ∧
      (state.shutdown = false → ∀ index, (state.worker index).departs = false)) _ _ reached
  · rintro _ rfl
    exact ⟨⟨.start, fun _ => ⟨.start, ⟨[], .start⟩, .start⟩⟩, nofun, fun _ _ => rfl⟩
  · rintro state label next ⟨pool, attended, stays⟩ stepped
    have moves := step_moves stepped
    exact ⟨pool.moves moves, attended.step (lock_moves moves), fun opened =>
      departs_moves moves opened (stays (shutdown_moves moves opened))⟩

/-- A reachable open pool in which nobody adds is quiet. -/
theorem quiet_reachable (reached : machine.Reachable state) (opened : state.shutdown = false)
    (rests : ∀ caller, (state.adder caller).rests = true) : Quiet state := by
  obtain ⟨pool, attended, stays⟩ := open_reachable reached
  exact ⟨opened, rests, stays opened, pool, attended⟩

omit [DecidableEq α] [DecidableEq δ] in
/-- Where the workers hold nothing, what they have taken they have finished. -/
theorem finished_of_taken [Fintype δ] (booked : Booked state)
    (holds : ∀ index, (state.worker index).holds = []) :
    (state.finished.map Prod.snd : Multiset (Work ρ β)) = state.taken.map Prod.snd := by
  rw [← sum_part, ← sum_part]
  refine Finset.sum_congr rfl fun index _ => ?_
  rw [booked.taken index, holds index, List.append_nil]

/-- **The open pool drains.** From any reachable state of an open pool in which nobody adds, the
workers take no more steps than the backlog and their places allow, and six for each worker that
is created or wakes by itself, however they are scheduled; and where no worker can take a step,
the queue is empty, the workers sleep, the accepted works have been taken in their order and each
of them has been run and freed. -/
theorem pool_drains [Fintype δ] {last : State n α δ ρ β} {labels : List (Label n α δ ρ β)}
    (reached : machine.Reachable state) (opened : state.shutdown = false)
    (rests : ∀ caller, (state.adder caller).rests = true)
    (own : ∀ label ∈ labels, ∃ index, label.thread = .worker index)
    (ran : machine.run state labels = some last) :
    last.toil + Machine.weigh Label.cost labels ≤
        state.toil + Machine.weigh Label.rouses labels ∧
      last.accepted = state.accepted ∧
      ((∃ index, last.worker index ≠ .unborn) →
        (∀ index, step last (.worker index) = none) →
        last.queueHead = none ∧
        (∀ index, last.worker index = .unborn ∨ last.worker index = .asleep) ∧
        last.taken.map Prod.snd = state.accepted ∧
        (last.finished.map Prod.snd : Multiset (Work ρ β)) = state.accepted) := by
  obtain ⟨⟨quiet, accepted⟩, paid⟩ := machine.run_pays
    (fun middle => Quiet middle ∧ middle.accepted = state.accepted) State.toil
    (fun _ _ _ own held stepped =>
      ⟨held.1.step_keeps own stepped, (held.1.pays own stepped).2.trans held.2⟩)
    (fun _ _ _ own held stepped => (held.1.pays own stepped).1)
    (machine.obeys_of_labels own state) ⟨quiet_reachable reached opened rests, rfl⟩ ran
  refine ⟨paid, accepted, fun born stuck => ?_⟩
  have empty := quiet.stuck_empty stuck born
  obtain ⟨queue, linked, order⟩ := quiet.linked
  rw [Quiet.backlog_eq order, List.length_eq_zero_iff] at empty
  subst empty
  rw [works, List.map_nil, List.append_nil, accepted] at order
  have sleeps := quiet.stuck_sleeps stuck
  have booked : Booked last := Machine.Reachable.invariant machine Booked
    (fun _ initial => initial ▸ .start)
    (fun _ _ _ booked stepped => booked.moves (step_moves stepped))
    (Machine.Reachable.run machine reached ran)
  refine ⟨linked.chain.nil_iff.mpr rfl, sleeps, order.symm, ?_⟩
  rw [finished_of_taken booked, ← order]
  intro index
  rcases sleeps index with place | place <;> rw [place] <;> rfl

/-- A worker is created and two works are added. -/
def filled (index : Fin n) (caller : α) : List (Label n α δ ℕ ℕ) :=
  [.spawn index, .add caller (some 5) 7, .malloc caller (some 16), .adder caller, .adder caller,
    .adder caller, .signal caller ∅, .adder caller, .add caller (some 5) 8,
    .malloc caller (some 32), .adder caller, .adder caller, .adder caller, .adder caller,
    .signal caller ∅, .adder caller]

/-- The worker runs both, sleeps, wakes by itself and sleeps again. -/
def drainage (index : Fin n) : List (Label n α δ ℕ ℕ) :=
  List.replicate 20 (.worker index) ++ .wake index :: List.replicate 4 (.worker index)

/-- From two queued works the worker has at most 26 steps to take, and after that run it sleeps
with both run and freed. -/
theorem pool_drains_run :
    ∃ state last : State 1 (Fin 1) (Fin 1) ℕ ℕ, state.toil = 26 ∧
      machine.run state (drainage 0) = some last ∧
      last.queueHead = none ∧
      (∀ index, last.worker index = .unborn ∨ last.worker index = .asleep) ∧
      last.taken.map Prod.snd = state.accepted ∧
      (last.finished.map Prod.snd : Multiset (Work ℕ ℕ)) = state.accepted := by
  obtain ⟨state, last, filled, drained, toil, opened, rests, place, stuck⟩ :
      ∃ state last : State 1 (Fin 1) (Fin 1) ℕ ℕ,
        machine.run .start (filled 0 0) = some state ∧
        machine.run state (drainage 0) = some last ∧ state.toil = 26 ∧
        state.shutdown = false ∧ (state.adder 0).rests = true ∧ last.worker 0 = .asleep ∧
        step last (.worker 0) = none :=
    ⟨_, _, rfl, rfl, rfl, rfl, rfl, rfl, rfl⟩
  have settles := pool_drains ⟨.start, _, rfl, filled⟩ opened (Fin.forall_fin_one.mpr rests)
    (by decide : ∀ label ∈ drainage 0, ∃ index, label.thread = .worker index) drained
  exact ⟨state, last, toil, drained, settles.2.2 ⟨0, by rw [place]; nofun⟩
    (Fin.forall_fin_one.mpr stuck)⟩

end SysServer.Threadpool
