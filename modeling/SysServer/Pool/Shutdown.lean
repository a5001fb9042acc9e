import SysServer.Pool.Works

/-!
# The shutdown strands no worker

`tpool_destroy` stores the flag without the lock, so the flag may change between any two of a
worker's tests. The broadcast is made under the lock, though: a worker that read the flag before
the store has by then fallen asleep or taken its work, and is woken or comes back later. From the
broadcast on every worker reads the flag as set, so it neither waits nor takes a work, and each of
its steps brings it nearer to its exit (`remaining`). After the joins only the call of
`tpool_destroy` takes steps, and its last loop frees the queue.
-/

namespace SysServer.Threadpool

open Library Function

variable {n : ℕ} {α δ ρ β : Type*}

/-- The worker neither waits, at `pthread_cond_wait` or asleep in it, nor is taking a work. -/
def WorkerPhase.leaves : WorkerPhase ρ β → Bool
  | .waiting | .asleep | .popHead | .popNext _ | .unlocking _ _ => false
  | _ => true

/-- The most steps that a worker of a closed pool takes until it has exited. -/
def WorkerPhase.remaining : WorkerPhase ρ β → ℕ
  | .running _ _ => 7
  | .unborn | .freeing _ _ => 6
  | .locking | .woken | .asleep => 5
  | .testHead => 4
  | .testShutdown => 3
  | .checkShutdown => 2
  | .leaving => 1
  | _ => 0

/-- How far a call of `tpool_destroy` has got: 0 until it has stored the flag, 1 until it has made
the broadcast, 2 until it has released the lock, 3 until all joins have returned. -/
def DestroyerPhase.stage : DestroyerPhase ρ β → ℕ
  | .idle | .testing | .storing => 0
  | .locking | .broadcasting => 1
  | .unlocking => 2
  | .joining _ => 3
  | _ => 4

/-- A call past its first stage has been made. -/
theorem DestroyerPhase.begun_of_stage {phase : DestroyerPhase ρ β} (past : 1 ≤ phase.stage) :
    phase.begun = true := by
  cases phase <;> first | rfl | cases past

/-- A call past its critical section stands outside. -/
theorem DestroyerPhase.outside_of_stage {phase : DestroyerPhase ρ β} (past : 3 ≤ phase.stage) :
    phase.inside = false := by
  cases phase <;> first | rfl | simp [DestroyerPhase.stage] at past

/-- A worker that leaves and holds the lock has not exited and is at a test or at the release. -/
theorem WorkerPhase.leaves_inside {phase : WorkerPhase ρ β} (leaves : phase.leaves = true)
    (inside : phase.inside = true) :
    phase = .testHead ∨ phase = .testShutdown ∨ phase = .checkShutdown ∨ phase = .leaving := by
  cases phase <;> first | contradiction | simp

/-- In a closed pool a turn of a worker that leaves brings it nearer to its exit. -/
theorem WorkerTurn.descends {state : State n α δ ρ β} {before after : WorkerPhase ρ β}
    (turn : WorkerTurn state before after) (shut : state.shutdown = true)
    (leaves : before.leaves = true) :
    after.leaves = true ∧ after.remaining < before.remaining := by
  cases turn with
  | wake => cases leaves
  | wait opened => simp [shut] at opened
  | stay opened => simp [shut] at opened
  | popHead head => cases leaves
  | _ => simp [WorkerPhase.leaves, WorkerPhase.remaining]

/-- A worker that leaves releases the lock to exit. -/
theorem WorkerRelease.descends {before after : WorkerPhase ρ β}
    (release : WorkerRelease before after) (leaves : before.leaves = true) :
    after.leaves = true ∧ after.remaining < before.remaining := by
  cases release with
  | leave => simp [WorkerPhase.leaves, WorkerPhase.remaining]
  | _ => cases leaves

variable [DecidableEq α] [DecidableEq δ] {state next : State n α δ ρ β}
  {label : Label n α δ ρ β}

/-- One for a step of the worker. -/
def ownStep (index : Fin n) (label : Label n α δ ρ β) : ℕ :=
  if label.thread = .worker index then 1 else 0

/-- A worker that takes a step comes nearer to its exit, and the others stay. -/
theorem descends_update {worker : Fin n → WorkerPhase ρ β} {actor : Fin n}
    {after : WorkerPhase ρ β} (own : label.thread = .worker actor)
    (leaves : ∀ index, (worker index).leaves = true)
    (descends : after.leaves = true ∧ after.remaining < (worker actor).remaining)
    (index : Fin n) :
    (update worker actor after index).leaves = true ∧
      (update worker actor after index).remaining + ownStep index label ≤
        (worker index).remaining := by
  by_cases same : index = actor
  · subst same
    rw [update_self, ownStep, if_pos own]
    exact descends
  · have other : ¬ label.thread = .worker index := by
      rw [own]
      simpa using Ne.symm same
    rw [update_of_ne same, ownStep, if_neg other]
    exact ⟨leaves index, le_rfl⟩

/-- In a closed pool whose workers leave, every step of a worker brings it nearer to its exit, and
no other step moves it away. -/
theorem leaves_moves (moves : Moves state label next) (shut : state.shutdown = true)
    (leaves : ∀ index, (state.worker index).leaves = true) (index : Fin n) :
    (next.worker index).leaves = true ∧
      (next.worker index).remaining + ownStep index label ≤ (state.worker index).remaining := by
  cases moves with
  | @workerTurn label actor phase own turn =>
    exact descends_update own leaves (turn.descends shut (leaves actor)) index
  | @workerLock actor place free =>
    refine descends_update rfl leaves ?_ index
    rcases place with place | place
    · simp [place, WorkerPhase.leaves, WorkerPhase.remaining]
    · simp [place, WorkerPhase.leaves, WorkerPhase.remaining]
  | @workerRelease actor phase release =>
    exact descends_update rfl leaves (release.descends (leaves actor)) index
  | @popNext actor work head content following place front stored =>
    have waits := leaves actor
    rw [place] at waits
    cases waits
  | @free actor work content place =>
    refine descends_update rfl leaves ?_ index
    simp [place, WorkerPhase.leaves, WorkerPhase.remaining]
  | @signal caller content woken place slept nobody =>
    have same := woken_same WorkerPhase.remaining rfl slept index
    refine ⟨?_, (Nat.add_zero _).trans_le same.le⟩
    change (if index ∈ woken then WorkerPhase.woken else state.worker index).leaves = true
    split
    · rfl
    · exact leaves index
  | broadcast place =>
    have stays := leaves index
    change (state.worker index).roused.leaves = true ∧
      (state.worker index).roused.remaining + 0 ≤ (state.worker index).remaining
    generalize state.worker index = phase at stays
    cases phase with
    | asleep => cases stays
    | _ => exact ⟨stays, le_rfl⟩
  | _ => exact ⟨leaves index, le_rfl⟩

/-- While the workers leave none takes a work. -/
theorem taken_moves (moves : Moves state label next)
    (leaves : ∀ index, (state.worker index).leaves = true) : next.taken = state.taken := by
  cases moves with
  | @popNext actor work head content following place front stored =>
    have waits := leaves actor
    rw [place] at waits
    cases waits
  | _ => rfl

/-! ## The stages of the call -/

/-- How a call of `tpool_destroy` gets to its next stage. -/
inductive Advances (state next : State n α δ ρ β) (call : δ) : ℕ → Prop where
  /-- It stores the flag. -/
  | announce (place : state.destroyer call = .storing) (shut : next.shutdown = true) :
    Advances state next call 1
  /-- It makes the broadcast. -/
  | broadcast (place : state.destroyer call = .broadcasting)
    (woken : ∀ index, next.worker index = (state.worker index).roused) :
    Advances state next call 2
  /-- It releases the lock. -/
  | release (place : state.destroyer call = .unlocking) : Advances state next call 3
  /-- All joins have returned. -/
  | joined {index : ℕ} (place : state.destroyer call = .joining index) (last : n ≤ index) :
    Advances state next call 4
  /-- It returns at once, as the flag is set. -/
  | refuse (place : state.destroyer call = .testing) (shut : state.shutdown = true) :
    Advances state next call 4

omit [DecidableEq α] in
/-- A call that moves within its stage, or advances, while the other calls stay. -/
theorem stage_update {mover call : δ} {before phase : DestroyerPhase ρ β}
    (place : state.destroyer mover = before)
    (kept : phase.stage = before.stage ∨ Advances state next mover phase.stage) :
    (update state.destroyer mover phase call).stage = (state.destroyer call).stage ∨
      Advances state next call (update state.destroyer mover phase call).stage := by
  by_cases same : call = mover
  · subst same
    rw [update_self, place]
    exact kept
  · rw [update_of_ne same]
    exact .inl rfl

/-- In every step a call stays in its stage or advances. -/
theorem stage_moves (moves : Moves state label next) (call : δ) :
    (next.destroyer call).stage = (state.destroyer call).stage ∨
      Advances state next call (next.destroyer call).stage := by
  cases moves with
  | destroy place => exact stage_update place (.inl rfl)
  | @destroyerTurn mover phase turn =>
    generalize place : state.destroyer mover = before at turn
    refine stage_update place ?_
    cases turn with
    | refuse shut => exact .inr (.refuse place shut)
    | joined last => exact .inr (.joined place last)
    | _ => exact .inl rfl
  | storeShutdown place => exact stage_update place (.inr (.announce place rfl))
  | destroyerLock place free => exact stage_update place (.inl rfl)
  | broadcast place => exact stage_update place (.inr (.broadcast place fun _ => rfl))
  | destroyerRelease place => exact stage_update place (.inr (.release place))
  | join inside place gone => exact stage_update place (.inl rfl)
  | freeThreads place => exact stage_update place (.inl rfl)
  | drainNext place front stored => exact stage_update place (.inl rfl)
  | drainFree place => exact stage_update place (.inl rfl)
  | freePool place => exact stage_update place (.inl rfl)
  | _ => exact .inl rfl

omit [DecidableEq α] [DecidableEq δ] in
/-- A call that advances gets to a later stage. -/
theorem Advances.lt {call : δ} {stage : ℕ} (advances : Advances state next call stage) :
    (state.destroyer call).stage < stage := by
  cases advances with
  | announce place shut => simp [place, DestroyerPhase.stage]
  | broadcast place woken => simp [place, DestroyerPhase.stage]
  | release place => simp [place, DestroyerPhase.stage]
  | joined place last => simp [place, DestroyerPhase.stage]
  | refuse place shut => simp [place, DestroyerPhase.stage]

/-- No call goes back to an earlier stage. -/
theorem stage_le (moves : Moves state label next) (call : δ) :
    (state.destroyer call).stage ≤ (next.destroyer call).stage := by
  rcases stage_moves moves call with same | advances
  · exact same.ge
  · exact advances.lt.le

/-- The flag is set by a call that gets past its first stage. -/
theorem shut_moves (moves : Moves state label next) (shut : next.shutdown = true) :
    state.shutdown = true ∨ ∃ call, 1 ≤ (next.destroyer call).stage := by
  cases moves with
  | @storeShutdown call place =>
    refine .inr ⟨call, ?_⟩
    simp [State.destroyerAt, DestroyerPhase.stage]
  | _ => exact .inl shut

/-- The flag stays set. -/
theorem shut_stays (moves : Moves state label next) (shut : state.shutdown = true) :
    next.shutdown = true := by
  cases moves with
  | storeShutdown place => rfl
  | _ => exact shut

/-! ## The closing pool -/

/-- What the stages of a single call guarantee. -/
structure Closing (state : State n α δ ρ β) : Prop where
  /-- The owner of the lock stands inside a critical section. -/
  attended : Attended state.inside state.owner
  /-- The flag is set by a call. -/
  shut : state.shutdown = true → ∃ call, 1 ≤ (state.destroyer call).stage
  /-- After its first stage the flag is set. -/
  announced : ∀ call, 1 ≤ (state.destroyer call).stage → state.shutdown = true
  /-- After the broadcast no worker waits or takes a work. -/
  leaves : ∀ call, 2 ≤ (state.destroyer call).stage → ∀ index, (state.worker index).leaves = true
  /-- After the joins every worker has exited. -/
  gone : ∀ call, 4 ≤ (state.destroyer call).stage → ∀ index, (state.worker index).gone = true

namespace Closing

omit [DecidableEq α] [DecidableEq δ] in
/-- The only call finds the flag clear. -/
theorem not_refused (closing : Closing state) (torn : TornDown state) {call : δ}
    (place : state.destroyer call = .testing) : state.shutdown = false := by
  by_contra set
  obtain ⟨other, past⟩ := closing.shut (by simpa using set)
  have same := torn.single call other (by rw [place]; rfl) (DestroyerPhase.begun_of_stage past)
  rw [← same, place] at past
  cases past

omit [DecidableEq α] [DecidableEq δ] in
/-- At the broadcast every worker is outside, and one that is woken there leaves. -/
theorem roused_leaves (exclusive : Exclusive state) {call : δ}
    (place : state.destroyer call = .broadcasting) (index : Fin n) :
    (state.worker index).roused.leaves = true := by
  have inside : state.inside (.destroyer call) = true := by simp only [view, place]; rfl
  have outside := exclusive.outside inside (.worker index) (by simp)
  change (state.worker index).inside = false at outside
  generalize state.worker index = phase at outside
  cases phase <;> first | rfl | cases outside

/-- Every step of a run with a single teardown keeps the guarantees. -/
theorem moves (closing : Closing state) (orderly : Orderly state)
    (moves : Moves state label next) : Closing next := by
  refine ⟨closing.attended.step (lock_moves moves), ?_, ?_, ?_, ?_⟩
  · intro set
    rcases shut_moves moves set with before | later
    · obtain ⟨call, past⟩ := closing.shut before
      exact ⟨call, past.trans (stage_le moves call)⟩
    · exact later
  · intro call past
    rcases stage_moves moves call with same | advances
    · exact shut_stays moves (closing.announced call (same ▸ past))
    · generalize (next.destroyer call).stage = later at advances
      cases advances with
      | announce place shut => exact shut
      | refuse place shut => exact shut_stays moves shut
      | broadcast place woken =>
        exact shut_stays moves (closing.announced call (by simp [place, DestroyerPhase.stage]))
      | release place =>
        exact shut_stays moves (closing.announced call (by simp [place, DestroyerPhase.stage]))
      | joined place last =>
        exact shut_stays moves (closing.announced call (by simp [place, DestroyerPhase.stage]))
  · intro call past index
    have kept (before : 2 ≤ (state.destroyer call).stage) : (next.worker index).leaves = true :=
      (leaves_moves moves (closing.announced call (by omega)) (closing.leaves call before) index).1
    rcases stage_moves moves call with same | advances
    · exact kept (same ▸ past)
    · generalize (next.destroyer call).stage = later at advances past
      cases advances with
      | announce place shut => exact absurd past (by decide)
      | broadcast place woken =>
        rw [woken index]
        exact roused_leaves orderly.exclusive place index
      | release place => exact kept (by simp [place, DestroyerPhase.stage])
      | joined place last => exact kept (by simp [place, DestroyerPhase.stage])
      | refuse place shut => simp [closing.not_refused orderly.torn place] at shut
  · intro call past index
    apply gone_moves moves
    rcases stage_moves moves call with same | advances
    · exact closing.gone call (same ▸ past) index
    · generalize (next.destroyer call).stage = later at advances past
      cases advances with
      | joined place last =>
        refine orderly.torn.joined call index ?_
        rw [place]
        exact index.isLt.trans_le last
      | refuse place shut => simp [closing.not_refused orderly.torn place] at shut
      | _ => exact absurd past (by decide)

omit [DecidableEq α] [DecidableEq δ] in
/-- Nothing is closing before the first step. -/
theorem start : Closing (State.start : State n α δ ρ β) where
  attended _ owned := by cases owned
  shut set := by cases set
  announced _ past := by cases past
  leaves _ past := by cases past
  gone _ past := by cases past

end Closing

/-! ## Progress -/

/-- Some step of the worker is enabled. -/
def CanStep (state : State n α δ ρ β) (index : Fin n) : Prop :=
  ∃ label next, label.thread = .worker index ∧ step state label = some next

/-- A worker that leaves and has the lock can step. -/
theorem canStep_inside {index : Fin n} (leaves : (state.worker index).leaves = true)
    (inside : (state.worker index).inside = true) : CanStep state index := by
  refine ⟨.worker index, ?_⟩
  rcases WorkerPhase.leaves_inside leaves inside with place | place | place | place
  · cases head : state.queueHead with
    | none => exact ⟨_, rfl, by simp only [step, threadRoutine, place, head]; rfl⟩
    | some node => exact ⟨_, rfl, by simp only [step, threadRoutine, place, head]; rfl⟩
  · exact ⟨_, rfl, by simp only [step, threadRoutine, place]; rfl⟩
  · exact ⟨_, rfl, by simp only [step, threadRoutine, place]; rfl⟩
  · exact ⟨_, rfl, by simp only [step, threadRoutine, place]; rfl⟩

omit [DecidableEq α] [DecidableEq δ] in
/-- After the critical section of the only call, the owner of the lock is a worker. -/
theorem Closing.owner_worker (closing : Closing state) (torn : TornDown state) {call : δ}
    (past : 3 ≤ (state.destroyer call).stage) {thread : Thread n α δ}
    (owned : state.owner = some thread) :
    ∃ index, thread = .worker index ∧ (state.worker index).inside = true := by
  have begun : (state.destroyer call).begun = true := DestroyerPhase.begun_of_stage (by omega)
  have inside := closing.attended thread owned
  cases thread with
  | worker index => exact ⟨index, rfl, inside⟩
  | adder caller =>
    have idle := AdderPhase.eq_idle (torn.adders call begun caller)
    simp only [view, idle] at inside
    cases inside
  | destroyer other =>
    change (state.destroyer other).inside = true at inside
    have busy : (state.destroyer other).begun = true := by
      generalize state.destroyer other = phase at inside
      cases phase <;> first | rfl | cases inside
    obtain rfl := torn.single call other begun busy
    rw [DestroyerPhase.outside_of_stage past] at inside
    cases inside

/-- After the critical section of the only call, a worker that has not exited can step, or waits
for the lock, which another worker has that can. -/
theorem Closing.progress (closing : Closing state) (orderly : Orderly state) {call : δ}
    (past : 3 ≤ (state.destroyer call).stage) {index : Fin n}
    (present : (state.worker index).gone = false) :
    CanStep state index ∨ ∃ other, state.owner = some (.worker other) ∧ CanStep state other := by
  have leaves := closing.leaves call (by omega)
  have locks (enabled : state.owner = none → CanStep state index) :
      CanStep state index ∨
        ∃ other, state.owner = some (.worker other) ∧ CanStep state other := by
    cases owned : state.owner with
    | none => exact .inl (enabled owned)
    | some thread =>
      obtain ⟨other, rfl, inside⟩ := closing.owner_worker orderly.torn past owned
      exact .inr ⟨other, rfl, canStep_inside (leaves other) inside⟩
  cases inside : (state.worker index).inside with
  | true => exact .inl (canStep_inside (leaves index) inside)
  | false =>
    obtain ⟨queue, linked⟩ := orderly.linked
    have knows := linked.workers index
    have mine := leaves index
    cases place : state.worker index with
    | unborn => exact .inl ⟨.spawn index, _, rfl, by simp only [step, place]; rfl⟩
    | locking =>
      exact locks fun free =>
        ⟨.worker index, _, rfl, by simp only [step, threadRoutine, place, free]; rfl⟩
    | woken =>
      exact locks fun free =>
        ⟨.worker index, _, rfl, by simp only [step, threadRoutine, place, free]; rfl⟩
    | running work content =>
      exact .inl ⟨.worker index, _, rfl, by simp only [step, threadRoutine, place]; rfl⟩
    | freeing work content =>
      rw [place] at knows
      obtain ⟨following, stored⟩ := knows
      exact .inl ⟨.worker index, _, rfl, by simp only [step, threadRoutine, place, stored]; rfl⟩
    | exited =>
      rw [place] at present
      cases present
    | asleep =>
      rw [place] at mine
      cases mine
    | _ =>
      rw [place] at inside
      cases inside

/-- After the critical section of the only call, workers stop only by exiting. -/
theorem Closing.exits (closing : Closing state) (orderly : Orderly state) {call : δ}
    (past : 3 ≤ (state.destroyer call).stage) (stuck : ∀ index, ¬ CanStep state index)
    (index : Fin n) : (state.worker index).gone = true := by
  cases present : (state.worker index).gone with
  | true => rfl
  | false =>
    rcases closing.progress orderly past present with can | ⟨other, -, can⟩
    · exact absurd can (stuck index)
    · exact absurd can (stuck other)

/-- When every worker has exited, the only call takes its next step until it has returned. -/
theorem destroyer_progress {queue : List (Address × Work ρ β)} (linked : Linked state queue)
    {call : δ} (past : 3 ≤ (state.destroyer call).stage)
    (gone : ∀ index, (state.worker index).gone = true)
    (stays : state.destroyer call ≠ .returned) :
    ∃ next, step state (.destroyer call) = some next := by
  have knows := linked.destroyers call
  have chain := linked.chain
  simp only [step, tpoolDestroy]
  cases place : state.destroyer call with
  | joining index =>
    by_cases inside : index < n
    · simp [inside, gone ⟨index, inside⟩]
    · simp [inside]
  | drainTest => cases state.queueHead <;> simp
  | drainMember =>
    rw [place] at knows
    cases head : state.queueHead with
    | none => exact absurd head knows
    | some member => simp
  | drainNext member =>
    rw [place] at knows
    have head : state.queueHead = some member := knows
    rw [head] at chain
    obtain ⟨content, following, rest, -, stored, -⟩ := chain.front
    simp [head, stored]
  | drainFree member content =>
    rw [place] at knows
    obtain ⟨following, stored⟩ := knows
    simp [stored]
  | freeThreads => simp
  | destroyLocks => simp
  | freePool => simp
  | returned => exact absurd place stays
  | _ =>
    rw [place] at past
    exact absurd past (by simp [DestroyerPhase.stage])

omit [DecidableEq α] [DecidableEq δ] in
/-- A call that has not been made is idle. -/
theorem DestroyerPhase.eq_idle {phase : DestroyerPhase ρ β} (unmade : phase.begun = false) :
    phase = .idle := by
  cases phase <;> first | rfl | cases unmade

/-- After the joins only the call of `tpool_destroy` takes a step. -/
theorem Closing.alone (closing : Closing state) (torn : TornDown state) {call : δ}
    (past : 4 ≤ (state.destroyer call).stage) (once : SingleTeardown state label)
    (stepped : step state label = some next) : label = .destroyer call := by
  have begun : (state.destroyer call).begun = true := DestroyerPhase.begun_of_stage (by omega)
  have exited index := WorkerPhase.eq_exited (closing.gone call past index)
  have idle caller := AdderPhase.eq_idle (torn.adders call begun caller)
  cases label with
  | spawn index => simp [step, exited index] at stepped
  | worker index => simp [step, threadRoutine, exited index] at stepped
  | wake index => simp [step, exited index] at stepped
  | add caller routine arg => exact absurd begun (by simp [once call])
  | malloc caller block => simp [step, idle caller] at stepped
  | adder caller => simp [step, tpoolAddWork, idle caller] at stepped
  | signal caller woken => simp [step, idle caller] at stepped
  | destroy other => exact absurd begun (by simp [once.1 call])
  | destroyer other =>
    cases made : (state.destroyer other).begun with
    | true => rw [torn.single call other begun made]
    | false => simp [step, tpoolDestroy, DestroyerPhase.eq_idle made] at stepped

/-! ## The last loop -/

/-- One round of the last loop, which unlinks and frees the first node. -/
def State.drainOne (state : State n α δ ρ β) (call : δ) (member : Address) (content : Work ρ β)
    (following : Option Address) : State n α δ ρ β :=
  { state.destroyerAt call .drainTest with
    queueHead := following
    heap := update state.heap member none
    discarded := state.discarded ++ [content]
    drained := state.drained ++ [content] }

/-- A round takes four steps. -/
theorem drain_round {call : δ} {member : Address} {content : Work ρ β}
    {following : Option Address} (place : state.destroyer call = .drainTest)
    (head : state.queueHead = some member)
    (stored : state.heap member = some (content, following)) :
    machine.run state (List.replicate 4 (.destroyer call)) =
      some (state.drainOne call member content following) := by
  simp [Machine.run, machine, step, tpoolDestroy, place, head, stored, State.destroyerAt,
    State.drainOne]

/-- The nodes of a longer queue. -/
theorem mem_nodes_cons {node member : Address} {content : Work ρ β}
    {queue : List (Address × Work ρ β)} :
    node ∈ nodes ((member, content) :: queue) ↔ node = member ∨ node ∈ nodes queue :=
  List.mem_cons

/-- The last loop frees every node of the queue, and nothing else. -/
theorem drain_run {call : δ} {queue : List (Address × Work ρ β)}
    (place : state.destroyer call = .drainTest)
    (chain : Chain state.heap state.queueHead queue) :
    ∃ last, machine.run state (List.replicate (4 * queue.length) (.destroyer call)) = some last ∧
      last.destroyer call = .drainTest ∧ last.queueHead = none ∧
      last.drained = state.drained ++ works queue ∧
      ∀ node, last.heap node = if node ∈ nodes queue then none else state.heap node := by
  induction queue generalizing state with
  | nil => exact ⟨state, rfl, place, chain, (List.append_nil _).symm, fun node => rfl⟩
  | cons item queue ih =>
    obtain ⟨member, content⟩ := item
    have distinct : member ∉ nodes queue := (List.nodup_cons.mp chain.nodup).1
    obtain ⟨head, following, stored, rest⟩ := chain
    have spelled : Chain (state.drainOne call member content following).heap following queue :=
      rest.congr fun node inside => update_of_ne (fun same : node = member =>
        distinct (same ▸ inside)) ..
    have stands : (state.drainOne call member content following).destroyer call = .drainTest :=
      update_self ..
    obtain ⟨last, ran, stays, empty, freed, heap⟩ := ih stands spelled
    refine ⟨last, ?_, stays, empty, ?_, fun node => ?_⟩
    · rw [List.length_cons, Nat.mul_succ, Nat.add_comm, List.replicate_add]
      exact machine.run_append.mpr ⟨_, drain_round place head stored, ran⟩
    · rw [freed, State.drainOne, List.append_assoc]
      rfl
    · rw [heap node]
      by_cases same : node = member
      · subst same
        simp [State.drainOne, mem_nodes_cons]
      · simp [State.drainOne, mem_nodes_cons, same]

/-- What the call does after the joins: it frees the queue, and returns. -/
def Drains (state : State n α δ ρ β) (call : δ) : Prop :=
  ∃ queue last, Chain state.heap state.queueHead queue ∧ (nodes queue).Nodup ∧
    machine.run state (List.replicate (4 * queue.length + 4) (.destroyer call)) = some last ∧
    last.destroyer call = .returned ∧ last.queueHead = none ∧
    last.drained = state.drained ++ works queue ∧
    ∀ node, last.heap node = if node ∈ nodes queue then none else state.heap node

/-- After the joins the call frees the queue, and returns. -/
theorem Linked.drains {queue : List (Address × Work ρ β)} (linked : Linked state queue) {call : δ}
    (place : state.destroyer call = .freeThreads) : Drains state call := by
  let begun : State n α δ ρ β :=
    { state.destroyerAt call .drainTest with threadFrees := state.threadFrees + 1 }
  have first : machine.run state [.destroyer call] = some begun := by
    simp [Machine.run, machine, step, tpoolDestroy, place, begun]
  have stands : begun.destroyer call = .drainTest := update_self ..
  obtain ⟨last, ran, stays, empty, freed, heap⟩ := drain_run stands linked.chain
  let ended : State n α δ ρ β :=
    { last.destroyerAt call .returned with poolFrees := last.poolFrees + 1 }
  have final : machine.run last (List.replicate 3 (.destroyer call)) = some ended := by
    simp [Machine.run, machine, step, tpoolDestroy, stays, empty, State.destroyerAt, ended]
  have returned : ended.destroyer call = .returned := update_self ..
  refine ⟨queue, ended, linked.chain, linked.chain.nodup, ?_, returned, empty, freed, heap⟩
  rw [show 4 * queue.length + 4 = 1 + 4 * queue.length + 3 by omega, List.replicate_add,
    List.replicate_add]
  exact machine.run_append.mpr ⟨_, machine.run_append.mpr ⟨_, first, ran⟩, final⟩

/-! ## The whole shutdown -/

/-- What holds after the critical section of a call of `tpool_destroy`. -/
structure ShutDown (state : State n α δ ρ β) (call : δ) : Prop where
  /-- No worker is at or asleep in `pthread_cond_wait`, and none is taking a work. -/
  leaves : ∀ index, (state.worker index).leaves = true
  /-- It stays so, no work is ever taken again, and every worker takes at most its remaining
  steps. -/
  lasts : ∀ labels later, machine.Obeys SingleTeardown state labels →
    machine.run state labels = some later →
    (∀ index, (later.worker index).leaves = true) ∧ later.taken = state.taken ∧
      ∀ index, (later.worker index).remaining + Machine.weigh (ownStep index) labels ≤
        (state.worker index).remaining
  /-- A worker that has not exited can step, or waits for the lock, which another worker has that
  can. -/
  progress : ∀ index, (state.worker index).gone = false →
    CanStep state index ∨ ∃ other, state.owner = some (.worker other) ∧ CanStep state other
  /-- When no worker can step any more, every worker has exited. -/
  exits : (∀ index, ¬ CanStep state index) → ∀ index, (state.worker index).gone = true
  /-- When every worker has exited, the call can step until it has returned. -/
  returns : (∀ index, (state.worker index).gone = true) → state.destroyer call ≠ .returned →
    ∃ next, step state (.destroyer call) = some next
  /-- After the joins nobody but the call takes a step. -/
  alone : 4 ≤ (state.destroyer call).stage → ∀ label next, SingleTeardown state label →
    step state label = some next → label = .destroyer call
  /-- When all joins have returned, the call frees each node of the queue once, and returns. -/
  drains : state.destroyer call = .freeThreads → Drains state call

/-- What a run keeps after the critical section of a call. -/
structure Leaving (before : State n α δ ρ β) (call : δ) (state : State n α δ ρ β) : Prop where
  /-- The teardown is single. -/
  orderly : Orderly state
  /-- The pool is closing. -/
  closing : Closing state
  /-- The call is past its critical section. -/
  past : 3 ≤ (state.destroyer call).stage
  /-- No work has been taken. -/
  taken : state.taken = before.taken

namespace Leaving

variable {before : State n α δ ρ β} {call : δ}

/-- Every step keeps it. -/
theorem moves (leaving : Leaving before call state) (once : SingleTeardown state label)
    (moves : Moves state label next) : Leaving before call next := by
  obtain ⟨orderly, closing, past, taken⟩ := leaving
  have leaves := closing.leaves call (by omega)
  exact ⟨orderly.moves once moves, closing.moves orderly moves,
    past.trans (stage_le moves call), (taken_moves moves leaves).trans taken⟩

/-- Every run keeps it. -/
theorem run {later : State n α δ ρ β} {labels : List (Label n α δ ρ β)}
    (leaving : Leaving before call state) (once : machine.Obeys SingleTeardown state labels)
    (ran : machine.run state labels = some later) : Leaving before call later :=
  machine.run_obeys_invariant (Leaving before call)
    (fun _ _ _ once leaving stepped => leaving.moves once (step_moves stepped)) once leaving ran

/-- In every run each step of a worker brings it nearer to its exit. -/
theorem near {later : State n α δ ρ β} {labels : List (Label n α δ ρ β)}
    (leaving : Leaving before call state) (once : machine.Obeys SingleTeardown state labels)
    (ran : machine.run state labels = some later) (index : Fin n) :
    (later.worker index).remaining + Machine.weigh (ownStep index) labels ≤
      (state.worker index).remaining := by
  let law (later : State n α δ ρ β) (total : ℕ) : Prop := Leaving before call later ∧
    (later.worker index).remaining + total ≤ (state.worker index).remaining
  have kept (middle : State n α δ ρ β) (label : Label n α δ ρ β) (next : State n α δ ρ β)
      (total : ℕ) (once : SingleTeardown middle label) (held : law middle total)
      (stepped : machine.step middle label = some next) :
      law next (total + ownStep index label) := by
    obtain ⟨leaving, most⟩ := held
    have moves := step_moves stepped
    have past := leaving.past
    have leaves := leaving.closing.leaves call (by omega)
    have shut := leaving.closing.announced call (by omega)
    have nearer := (leaves_moves moves shut leaves index).2
    exact ⟨leaving.moves once moves, by omega⟩
  have total : law later (0 + Machine.weigh (ownStep index) labels) :=
    machine.run_accumulates law kept once ⟨leaving, le_rfl⟩ ran
  have most := total.2
  omega

end Leaving

/-- **The shutdown of the pool strands no worker.** In every run of any number of workers and of
threads that add works, with one call of `tpool_destroy` and nothing added from then on: once the
call has left its critical section, no worker waits, will wait or takes a work; each is at most
seven steps from its exit and never blocked but by another worker's critical section; and after
the joins the call alone takes steps and frees each remaining node once. -/
theorem shutdown_strands_none {labels : List (Label n α δ ρ β)}
    (once : machine.Obeys SingleTeardown .start labels)
    (ran : machine.run .start labels = some state) {call : δ}
    (past : 3 ≤ (state.destroyer call).stage) : ShutDown state call := by
  obtain ⟨orderly, closing⟩ : Orderly state ∧ Closing state := machine.run_obeys_invariant
    (fun state : State n α δ ρ β => Orderly state ∧ Closing state)
    (fun _ _ _ once held stepped =>
      ⟨held.1.moves once (step_moves stepped), held.2.moves held.1 (step_moves stepped)⟩)
    once ⟨.start, .start⟩ ran
  obtain ⟨queue, linked⟩ := orderly.linked
  have leaving : Leaving state call state := ⟨orderly, closing, past, rfl⟩
  exact {
    leaves := closing.leaves call (by omega)
    lasts := fun labels later once ran => by
      have left := leaving.run once ran
      have past := left.past
      exact ⟨left.closing.leaves call (by omega), left.taken, leaving.near once ran⟩
    progress := fun index present => closing.progress orderly past present
    exits := fun stuck index => closing.exits orderly past stuck index
    returns := fun gone stays => destroyer_progress linked past gone stays
    alone := fun joined label next once stepped =>
      closing.alone orderly.torn joined once stepped
    drains := fun place => linked.drains place }

/-- A worker runs a routine and one more work is queued when the call leaves its critical section;
it will not be taken. -/
theorem shutdown_strands_none_run :
    ∃ state : State 1 (Fin 1) (Fin 1) ℕ ℕ, state.worker 0 = .running 16 ⟨0, 5, 7⟩ ∧
      state.queueHead = some 32 ∧ ShutDown state 0 := by
  have whole := teardown_single
  rw [← List.take_append_drop 28 (teardown 0 0 0)] at whole
  obtain ⟨state, ran, place, head, past⟩ : ∃ state : State 1 (Fin 1) (Fin 1) ℕ ℕ,
      machine.run .start ((teardown 0 0 0).take 28) = some state ∧
        state.worker 0 = .running 16 ⟨0, 5, 7⟩ ∧ state.queueHead = some 32 ∧
        3 ≤ (state.destroyer 0).stage := ⟨_, rfl, rfl, rfl, Nat.le_refl 3⟩
  exact ⟨state, place, head, shutdown_strands_none whole.front ran past⟩

end SysServer.Threadpool
