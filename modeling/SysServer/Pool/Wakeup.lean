import SysServer.Library.Census
import SysServer.Pool.Queue

/-!
# No wake-up is lost

While the pool is open, a worker falls asleep only over an empty queue, and every work linked
while some worker sleeps is followed by a signal that wakes one. So with sleepers left there are
at least as many workers on their way to the queue as there are works on it, counting the adding
thread that has linked its work and not yet signalled. Overtaking does not matter: a worker that
takes a work leaves one work fewer, and a woken worker that finds none finds an empty queue.
-/

namespace SysServer.Threadpool

open Library Function

variable {n : ℕ} {α δ ρ β : Type*}

/-- One for a worker that is awake and neither runs a routine nor holds a work. -/
def WorkerPhase.ready : WorkerPhase ρ β → ℕ
  | .locking | .testHead | .testShutdown | .waiting | .woken | .checkShutdown | .popHead
  | .popNext _ => 1
  | _ => 0

/-- The worker is awake and does not run a routine. -/
def WorkerPhase.attends : WorkerPhase ρ β → Bool
  | .unborn | .asleep | .exited | .running _ _ => false
  | _ => true

/-- One for an adding thread that has linked its work and not yet signalled. -/
def AdderPhase.signals : AdderPhase ρ β → ℕ
  | .signalling _ => 1
  | _ => 0

/-- The call of `tpool_destroy` has not announced the shutdown. -/
def DestroyerPhase.early : DestroyerPhase ρ β → Bool
  | .idle | .testing | .storing => true
  | _ => false

/-- A worker on its way to the queue is awake. -/
theorem WorkerPhase.ready_le_attends (phase : WorkerPhase ρ β) :
    phase.ready ≤ if phase.attends then 1 else 0 := by
  cases phase <;> simp [WorkerPhase.ready, WorkerPhase.attends]

/-- How many workers are awake and do not run a routine. -/
def State.attending (state : State n α δ ρ β) : ℕ :=
  (Finset.univ.filter fun index => (state.worker index).attends = true).card

/-- Workers on their way to the queue are awake. -/
theorem ready_le_attending (state : State n α δ ρ β) :
    tally WorkerPhase.ready state.worker ≤ state.attending := by
  rw [State.attending, Finset.card_filter]
  exact Finset.sum_le_sum fun index _ => (state.worker index).ready_le_attends

/-- While the pool is open a worker that takes a turn stays on its way to the queue. -/
theorem WorkerTurn.ready_le {state : State n α δ ρ β} {before after : WorkerPhase ρ β}
    (opened : state.shutdown = false) (turn : WorkerTurn state before after) :
    before.ready ≤ after.ready := by
  cases turn with
  | leave shut => simp [opened] at shut
  | _ => simp [WorkerPhase.ready]

/-- A turn puts no worker to sleep. -/
theorem WorkerTurn.sleeps {state : State n α δ ρ β} {before after : WorkerPhase ρ β}
    (turn : WorkerTurn state before after) : after.sleeps = false := by
  cases turn <;> rfl

/-- A turn of an adding thread sends no signal. -/
theorem AdderTurn.signals {state : State n α δ ρ β} {before after : AdderPhase ρ β}
    (turn : AdderTurn state before after) : after.signals = before.signals := by
  cases turn <;> rfl

/-- A thread about to signal is inside its critical section. -/
theorem AdderPhase.signals_eq_zero {phase : AdderPhase ρ β} (outside : phase.inside = false) :
    phase.signals = 0 := by
  cases phase <;> first | rfl | cases outside

/-- While the pool is open a call of `tpool_destroy` does not get past the announcement. -/
theorem DestroyerTurn.early {state : State n α δ ρ β} {before after : DestroyerPhase ρ β}
    (opened : state.shutdown = false) (turn : DestroyerTurn state before after)
    (early : before.early = true) : after.early = true := by
  cases turn with
  | refuse shut => simp [opened] at shut
  | proceed => rfl
  | _ => cases early

/-- A call that has not announced the shutdown is not in its last loop. -/
theorem DestroyerPhase.draining_of_early {phase : DestroyerPhase ρ β}
    (early : phase.early = true) : phase.draining = false := by
  cases phase <;> first | rfl | cases early

/-! ## The open pool -/

/-- While the pool is open no call of `tpool_destroy` is past the announcement, and no work has
been discarded. -/
structure Opened (state : State n α δ ρ β) : Prop where
  /-- The calls of `tpool_destroy`. -/
  early : ∀ call, (state.destroyer call).early = true
  /-- The works. -/
  discarded : state.discarded = []

/-- An open pool is not drained. -/
theorem Opened.settled {state : State n α δ ρ β} (opened : Opened state) : Settled state := by
  have none_drains : ∀ call, (state.destroyer call).draining ≠ true := fun call => by
    simp [DestroyerPhase.draining_of_early (opened.early call)]
  exact ⟨fun call drains => absurd drains (none_drains call),
    fun call drains => absurd drains (none_drains call),
    fun call _ drains => absurd drains (none_drains call),
    fun some_discarded => absurd opened.discarded some_discarded⟩

/-- In an open pool a call stands before the announcement. -/
theorem Opened.not_late {state : State n α δ ρ β} (opened : Opened state) {call : δ}
    {phase : DestroyerPhase ρ β} {conclusion : Prop} (place : state.destroyer call = phase)
    (late : phase.early = false) : conclusion := by
  have early := opened.early call
  rw [place, late] at early
  cases early

variable [DecidableEq α] [DecidableEq δ] {state next : State n α δ ρ β}
  {label : Label n α δ ρ β}

/-- The shutdown is never taken back. -/
theorem shutdown_moves (moves : Moves state label next) (opened : next.shutdown = false) :
    state.shutdown = false := by
  cases moves with
  | storeShutdown place => cases opened
  | _ => exact opened

namespace Opened

omit [DecidableEq α] in
/-- A call that moves before the announcement. -/
theorem destroyer {call : δ} {phase : DestroyerPhase ρ β} (opened : Opened state)
    (early : phase.early = true) : Opened (state.destroyerAt call phase) := by
  refine ⟨fun other => ?_, opened.discarded⟩
  by_cases same : other = call
  · subst same
    simpa [State.destroyerAt] using early
  · simpa [State.destroyerAt, same] using opened.early other

/-- Every step that leaves the pool open keeps this. -/
theorem moves (opened : Opened state) (moves : Moves state label next)
    (stays : next.shutdown = false) : Opened next := by
  have before := shutdown_moves moves stays
  cases moves with
  | destroy place => exact opened.destroyer rfl
  | @destroyerTurn call phase turn =>
    exact opened.destroyer (turn.early before (opened.early call))
  | storeShutdown place => cases stays
  | destroyerLock place free => exact opened.not_late place rfl
  | broadcast place => exact opened.not_late place rfl
  | destroyerRelease place => exact opened.not_late place rfl
  | join inside place gone => exact opened.not_late place rfl
  | freeThreads place => exact opened.not_late place rfl
  | drainNext place front stored => exact opened.not_late place rfl
  | drainFree place => exact opened.not_late place rfl
  | freePool place => exact opened.not_late place rfl
  | _ => exact ⟨opened.early, opened.discarded⟩

omit [DecidableEq α] [DecidableEq δ] in
/-- The pool begins open. -/
theorem start : Opened (State.start : State n α δ ρ β) := ⟨fun _ => rfl, rfl⟩

end Opened

/-! ## Works, sleepers and signals -/

variable [Fintype α]

/-- With a worker asleep, the works on the queue are no more than the workers on their way to it
and the signals on their way to a sleeper. -/
def Covered (state : State n α δ ρ β) : Prop :=
  (∃ index, (state.worker index).sleeps = true) →
    state.accepted.length ≤ state.taken.length + tally WorkerPhase.ready state.worker +
      tally AdderPhase.signals state.adder

namespace Covered

omit [DecidableEq α] [DecidableEq δ] in
/-- No worker falls asleep, and none leaves the way to the queue. -/
theorem workers {workers : Fin n → WorkerPhase ρ β} (covered : Covered state)
    (sleeps : ∀ index, (workers index).sleeps = true → (state.worker index).sleeps = true)
    (ready : ∀ index, (state.worker index).ready ≤ (workers index).ready) :
    Covered { state with worker := workers } := by
  rintro ⟨index, asleep⟩
  have bound := covered ⟨index, sleeps index asleep⟩
  have more : tally WorkerPhase.ready state.worker ≤ tally WorkerPhase.ready workers :=
    tally_le_tally ready
  change state.accepted.length ≤ state.taken.length + tally WorkerPhase.ready workers +
    tally AdderPhase.signals state.adder
  omega

omit [DecidableEq α] [DecidableEq δ] in
/-- A worker moves, stays awake and stays on its way to the queue. -/
theorem worker {index : Fin n} {before : WorkerPhase ρ β} (covered : Covered state)
    (phase : WorkerPhase ρ β) (place : state.worker index = before)
    (awake : phase.sleeps = false) (ready : before.ready ≤ phase.ready) :
    Covered (state.workerAt index phase) := by
  refine covered.workers (fun other asleep => ?_) fun other => ?_
  · by_cases same : other = index
    · subst same
      rw [update_self, awake] at asleep
      cases asleep
    · rwa [update_of_ne same] at asleep
  · by_cases same : other = index
    · subst same
      rwa [update_self, place]
    · rw [update_of_ne same]

omit [DecidableEq δ] in
/-- An adding thread moves without linking or signalling. -/
theorem adder {caller : α} {before : AdderPhase ρ β} (covered : Covered state)
    (phase : AdderPhase ρ β) (place : state.adder caller = before)
    (same : phase.signals = before.signals) : Covered (state.adderAt caller phase) := by
  intro asleep
  have kept : tally AdderPhase.signals (update state.adder caller phase) =
      tally AdderPhase.signals state.adder := tally_update_same (by rw [place, same])
  change state.accepted.length ≤ state.taken.length + tally WorkerPhase.ready state.worker +
    tally AdderPhase.signals (update state.adder caller phase)
  rw [kept]
  exact covered asleep

omit [DecidableEq δ] in
/-- The thread that has linked a work will signal. -/
theorem link {caller : α} {before : AdderPhase ρ β} (covered : Covered state)
    (content : Work ρ β) (place : state.adder caller = before) (silent : before.signals = 0) :
    Covered { state.adderAt caller (.signalling content) with
      accepted := state.accepted ++ [content] } := by
  intro asleep
  have bound := covered asleep
  have gain := tally_update_gain AdderPhase.signals state.adder caller (.signalling content)
    (by rw [place, silent])
  change (state.accepted ++ [content]).length ≤ state.taken.length +
    tally WorkerPhase.ready state.worker +
    tally AdderPhase.signals (update state.adder caller (.signalling content))
  rw [gain, List.length_append]
  have one : (AdderPhase.signalling content : AdderPhase ρ β).signals = 1 := rfl
  simp only [List.length_singleton, one]
  omega

omit [DecidableEq δ] in
/-- A signal that finds a sleeper puts one on its way to the queue. -/
theorem signal {caller : α} {content : Work ρ β} {woken : Finset (Fin n)}
    (covered : Covered state) (place : state.adder caller = .signalling content)
    (slept : ∀ index ∈ woken, (state.worker index).sleeps = true)
    (nobody : woken = ∅ → ∀ index, (state.worker index).sleeps = false) :
    Covered { state.adderAt caller (.unlocking content) with
      worker := fun index => if index ∈ woken then .woken else state.worker index } := by
  rintro ⟨index, asleep⟩
  have slept_before : (state.worker index).sleeps = true := by
    by_cases inside : index ∈ woken
    · exact slept index inside
    · simpa [inside] using asleep
  have bound := covered ⟨index, slept_before⟩
  obtain ⟨first, inside⟩ : woken.Nonempty := by
    by_contra empty
    have none_sleeps := nobody (Finset.not_nonempty_iff_eq_empty.mp empty) index
    rw [slept_before] at none_sleeps
    cases none_sleeps
  have more : tally WorkerPhase.ready state.worker <
      tally WorkerPhase.ready
        fun index => if index ∈ woken then .woken else state.worker index := by
    refine tally_lt_tally first (fun other => ?_) ?_
    · split
      · rename_i inside
        rw [WorkerPhase.eq_asleep (slept other inside)]
        exact Nat.zero_le _
      · exact le_rfl
    · rw [if_pos inside, WorkerPhase.eq_asleep (slept first inside)]
      exact Nat.zero_lt_one
  have drop := tally_update_drop AdderPhase.signals state.adder caller (.unlocking content) rfl
  rw [place, show (AdderPhase.signalling content : AdderPhase ρ β).signals = 1 from rfl] at drop
  change state.accepted.length ≤ state.taken.length +
    tally WorkerPhase.ready (fun index => if index ∈ woken then .woken else state.worker index) +
    tally AdderPhase.signals (update state.adder caller (.unlocking content))
  omega

omit [DecidableEq α] [DecidableEq δ] in
/-- A worker that takes a work leaves one work fewer. -/
theorem popNext {index : Fin n} {work : Address} (covered : Covered state) (content : Work ρ β)
    (place : state.worker index = .popNext work) :
    Covered { state.workerAt index (.unlocking work content) with
      taken := state.taken ++ [(index, content)] } := by
  rintro ⟨other, asleep⟩
  have slept_before : (state.worker other).sleeps = true := by
    by_cases same : other = index
    · subst same
      simp only [State.workerAt, update_self] at asleep
      cases asleep
    · simpa [State.workerAt, same] using asleep
  have bound := covered ⟨other, slept_before⟩
  have drop := tally_update_drop WorkerPhase.ready state.worker index (.unlocking work content) rfl
  rw [place, show (WorkerPhase.popNext work : WorkerPhase ρ β).ready = 1 from rfl] at drop
  change state.accepted.length ≤ (state.taken ++ [(index, content)]).length +
    tally WorkerPhase.ready (update state.worker index (.unlocking work content)) +
    tally AdderPhase.signals state.adder
  rw [List.length_append, List.length_singleton]
  omega

omit [DecidableEq α] [DecidableEq δ] in
/-- A worker falls asleep over an empty queue. -/
theorem sleep {index : Fin n} {queue : List (Address × Work ρ β)} (linked : Linked state queue)
    (opened : Opened state) (place : state.worker index = .waiting) :
    Covered { state.workerAt index .asleep with owner := none } := by
  intro _
  have knows := linked.workers index
  rw [place] at knows
  obtain rfl : queue = [] := linked.chain.nil_iff.mp knows
  have all_taken : state.accepted.length = state.taken.length := by
    simp [linked.order, opened.discarded, works]
  change state.accepted.length ≤ state.taken.length + _ + _
  omega

/-- Every step that leaves the pool open keeps the works covered. -/
theorem moves {queue : List (Address × Work ρ β)} (covered : Covered state)
    (linked : Linked state queue) (opened : Opened state) (moves : Moves state label next)
    (stays : next.shutdown = false) : Covered next := by
  have before := shutdown_moves moves stays
  cases moves with
  | workerTurn actor turn => exact covered.worker _ rfl turn.sleeps (turn.ready_le before)
  | workerLock place free =>
    rcases place with place | place
    · exact covered.worker .testHead place rfl le_rfl
    · exact covered.worker .testHead place rfl le_rfl
  | @workerRelease index phase release =>
    generalize place : state.worker index = stood at release
    cases release with
    | sleep => exact sleep linked opened place
    | leave => exact covered.worker .exited place rfl le_rfl
    | @run work content => exact covered.worker (.running work content) place rfl le_rfl
  | popNext place front stored => exact covered.popNext _ place
  | free place => exact covered.worker .locking place rfl (Nat.zero_le _)
  | addNull place => exact covered
  | add place => exact covered.adder _ place rfl
  | mallocFail place => exact covered.adder .idle place rfl
  | @malloc caller routine arg work place fresh =>
    exact covered.adder (.locking work ⟨state.serials, routine, arg⟩) place rfl
  | adderTurn turn => exact covered.adder _ rfl turn.signals
  | @adderLock caller work content place free =>
    exact covered.adder (.readHead work content) place rfl
  | storeHead place => exact covered.link _ place rfl
  | link place stored => exact covered.link _ place rfl
  | signal place slept nobody => exact covered.signal place slept nobody
  | adderRelease place => exact covered.adder .idle place rfl
  -- Of the steps of `tpool_destroy` only the broadcast touches what is counted.
  | broadcast place => exact opened.not_late place rfl
  | _ => exact covered

omit [DecidableEq α] [DecidableEq δ] in
/-- No worker sleeps before the first step. -/
theorem start : Covered (State.start : State n α δ ρ β) := by
  rintro ⟨index, asleep⟩
  cases asleep

end Covered

omit [DecidableEq α] [DecidableEq δ] in
/-- While no thread has the lock no signal is on its way. -/
theorem signals_of_free (exclusive : Exclusive state) (free : state.owner = none) :
    tally AdderPhase.signals state.adder = 0 := by
  rw [Exclusive, free] at exclusive
  exact tally_eq_zero fun caller =>
    AdderPhase.signals_eq_zero (exclusive.outside_of_free (.adder caller))

/-- What a pool keeps as long as it is open. -/
def OpenPool (state : State n α δ ρ β) : Prop :=
  Exclusive state ∧ (state.shutdown = false →
    Opened state ∧ (∃ queue, Linked state queue) ∧ Covered state)

/-- Every step keeps it. -/
theorem OpenPool.moves (pool : OpenPool state) (moves : Moves state label next) :
    OpenPool next := by
  obtain ⟨exclusive, held⟩ := pool
  refine ⟨exclusive.moves moves, fun stays => ?_⟩
  obtain ⟨opened, ⟨queue, linked⟩, covered⟩ := held (shutdown_moves moves stays)
  exact ⟨opened.moves moves stays, linked.moves opened.settled exclusive moves,
    covered.moves linked opened moves stays⟩

/-- In a run of the open pool no other thread changes the chain between two accesses that a thread
makes in one critical section. -/
theorem OpenPool.steady {thread : Thread n α δ} {queue : List (Address × Work ρ β)}
    {labels : List (Label n α δ ρ β)} (pool : OpenPool state) (linked : Linked state queue)
    (reaches : state.reaches thread = true)
    (opened : machine.Obeys (fun state _ => state.shutdown = false) state labels)
    (others : ∀ label ∈ labels, label.thread ≠ thread)
    (ran : machine.run state labels = some next) : Steady state queue thread next :=
  linked.steady OpenPool (fun _ _ opened pool => ⟨(pool.2 opened).1.settled, pool.1⟩)
    (fun _ _ _ _ pool => pool.moves) reaches pool opened others ran

/-- **No wake-up is lost.** For any number of workers and of threads that add works, and however
often workers overtake each other or wake by themselves: in every reachable state of the open
pool, with the lock free and some worker asleep, the queue is no longer than the number of workers
that are awake and do not run a routine; so some worker attends to a queue that is not empty. -/
theorem no_wakeup_lost (reached : machine.Reachable state) (opened : state.shutdown = false)
    (free : state.owner = none) (sleeper : ∃ index, (state.worker index).sleeps = true) :
    ∃ queue, Chain state.heap state.queueHead queue ∧ queue.length ≤ state.attending ∧
      (state.queueHead ≠ none → ∃ index, (state.worker index).attends = true) := by
  obtain ⟨exclusive, held⟩ : OpenPool state := by
    refine Machine.Reachable.invariant machine OpenPool ?_ ?_ reached
    · rintro _ rfl
      exact ⟨.start, fun _ => ⟨.start, ⟨[], .start⟩, .start⟩⟩
    · exact fun _ _ _ pool stepped => pool.moves (step_moves stepped)
  obtain ⟨stays, ⟨queue, linked⟩, covered⟩ := held opened
  have bound := covered sleeper
  have length : state.accepted.length = state.taken.length + queue.length := by
    simp [linked.order, stays.discarded, works]
  have attended := ready_le_attending state
  rw [signals_of_free exclusive free] at bound
  have short : queue.length ≤ state.attending := by omega
  refine ⟨queue, linked.chain, short, fun filled => ?_⟩
  have some_work : 0 < queue.length := List.length_pos_iff.mpr
    fun empty => filled (linked.chain.nil_iff.mpr empty)
  obtain ⟨index, inside⟩ := Finset.card_pos.mp (Nat.lt_of_lt_of_le some_work short)
  exact ⟨index, (Finset.mem_filter.mp inside).2⟩

/-- Two workers fall asleep; a work is added, and its signal wakes one of them. -/
def oneSleeps (first second : Fin n) (caller : α) : List (Label n α δ ℕ ℕ) :=
  [.spawn first, .worker first, .worker first, .worker first, .worker first, .spawn second,
    .worker second, .worker second, .worker second, .worker second, .add caller (some 5) 7,
    .malloc caller (some 16), .adder caller, .adder caller, .adder caller,
    .signal caller {first}, .adder caller]

/-- After that run one worker sleeps, one work is queued and one worker attends. -/
theorem no_wakeup_lost_run :
    ∃ state : State 2 (Fin 1) (Fin 1) ℕ ℕ, state.worker 1 = .asleep ∧
      state.queueHead = some 16 ∧ ∃ queue, Chain state.heap state.queueHead queue ∧
        queue.length ≤ state.attending ∧
        (state.queueHead ≠ none → ∃ index, (state.worker index).attends = true) :=
  ⟨_, rfl, rfl, no_wakeup_lost
    ⟨.start, oneSleeps 0 1 0, rfl,
      (show machine.run .start (oneSleeps 0 1 0) = some _ from rfl)⟩ rfl rfl
    ⟨1, rfl⟩⟩

end SysServer.Threadpool
