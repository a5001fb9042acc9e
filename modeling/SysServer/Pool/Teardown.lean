import SysServer.Pool.Queue

/-!
# One teardown

A run in which `tpool_destroy` is called once at most, when no thread is inside `tpool_add_work`,
and `tpool_add_work` is not called afterwards. The call has joined every worker before its last
loop, so the loop runs alone, and `Settled` holds in every state of the run. `Orderly` is what such
a run keeps: the lock, the teardown and the chain together.
-/

namespace SysServer.Threadpool

open Library Function

variable {n : ℕ} {α δ ρ β : Type*}

/-- The call of `tpool_destroy` has been made. -/
def DestroyerPhase.begun : DestroyerPhase ρ β → Bool
  | .idle => false
  | _ => true

/-- How many workers a call of `tpool_destroy` that has not returned has joined, of so many. -/
def DestroyerPhase.joins (workers : ℕ) : DestroyerPhase ρ β → ℕ
  | .joining index => index
  | .freeThreads | .drainTest | .drainMember | .drainNext _ | .drainFree _ _ | .destroyLocks
  | .freePool => workers
  | _ => 0

/-- `tpool_destroy` is called once at most, alone, and nothing is added from then on. -/
def SingleTeardown (state : State n α δ ρ β) : Label n α δ ρ β → Prop
  | .add _ _ _ => ∀ call, (state.destroyer call).begun = false
  | .destroy _ => (∀ call, (state.destroyer call).begun = false) ∧
      ∀ caller, (state.adder caller).rests = true
  | _ => True

/-- Nothing is added from the first call of `tpool_destroy` on. -/
def AddedBefore (state : State n α δ ρ β) : Label n α δ ρ β → Prop
  | .add _ _ _ => ∀ call, (state.destroyer call).begun = false
  | .destroy _ => ∀ caller, (state.adder caller).rests = true
  | _ => True

/-- What a single teardown guarantees at each of its steps. -/
structure TornDown (state : State n α δ ρ β) : Prop where
  /-- One call has been made. -/
  single : ∀ call other, (state.destroyer call).begun = true →
    (state.destroyer other).begun = true → call = other
  /-- No thread is inside `tpool_add_work` from then on. -/
  adders : ∀ call, (state.destroyer call).begun = true →
    ∀ caller, (state.adder caller).rests = true
  /-- The workers joined have exited. -/
  joined : ∀ call index, index.val < (state.destroyer call).joins n →
    (state.worker index).gone = true
  /-- Works are discarded after all workers have exited. -/
  discarded : state.discarded ≠ [] → ∀ index, (state.worker index).gone = true

/-- A call in its last loop has been made and has joined every worker. -/
theorem DestroyerPhase.of_draining {phase : DestroyerPhase ρ β} (workers : ℕ)
    (drains : phase.draining = true) : phase.begun = true ∧ phase.joins workers = workers := by
  cases phase <;> first | exact ⟨rfl, rfl⟩ | cases drains

/-- A single teardown is settled. -/
theorem TornDown.settled {state : State n α δ ρ β} (torn : TornDown state) : Settled state where
  workers call drains index := torn.joined call index
    (Nat.lt_of_lt_of_eq index.isLt (DestroyerPhase.of_draining n drains).2.symm)
  adders call drains := torn.adders call (DestroyerPhase.of_draining n drains).1
  single call other drains also := torn.single call other
    (DestroyerPhase.of_draining n drains).1 (DestroyerPhase.of_draining n also).1
  discarded := torn.discarded

variable [DecidableEq α] [DecidableEq δ] {state next : State n α δ ρ β}
  {label : Label n α δ ρ β}

omit [DecidableEq α] [DecidableEq δ] in
/-- A worker that has exited takes no turn. -/
theorem WorkerTurn.present {before after : WorkerPhase ρ β}
    (turn : WorkerTurn state before after) : before.gone = false := by
  cases turn <;> rfl

/-- A worker that has exited holds no lock. -/
theorem WorkerRelease.present {before after : WorkerPhase ρ β}
    (release : WorkerRelease before after) : before.gone = false := by
  cases release <;> rfl

/-- A worker that has exited stays so. -/
theorem gone_moves (moves : Moves state label next) {index : Fin n}
    (gone : (state.worker index).gone = true) : (next.worker index).gone = true := by
  cases moves with
  | workerTurn actor turn => exact stays_update rfl turn.present gone
  | workerLock place free =>
    rcases place with place | place
    · exact stays_update place rfl gone
    · exact stays_update place rfl gone
  | workerRelease release => exact stays_update rfl release.present gone
  | popNext place front stored => exact stays_update place rfl gone
  | free place => exact stays_update place rfl gone
  | signal place slept nobody =>
    exact (woken_same WorkerPhase.gone rfl slept index).trans gone
  | broadcast place =>
    change (state.worker index).roused.gone = true
    rw [WorkerPhase.eq_exited gone]
    rfl
  | _ => exact gone

omit [DecidableEq α] [DecidableEq δ] in
/-- A turn of a call of `tpool_destroy` is of a call that has been made. -/
theorem DestroyerTurn.begun {before after : DestroyerPhase ρ β}
    (turn : DestroyerTurn state before after) : before.begun = true := by
  cases turn <;> rfl

/-- The move of a call that has been made makes no other call. -/
theorem begun_update {destroyer : δ → DestroyerPhase ρ β} {call other : δ}
    {before phase : DestroyerPhase ρ β} (place : destroyer other = before)
    (made : before.begun = true) (begun : (update destroyer other phase call).begun = true) :
    (destroyer call).begun = true := by
  by_cases same : call = other
  · rw [same, place, made]
  · rwa [update_of_ne same] at begun

/-- A call of `tpool_destroy` is made by its label only. -/
theorem begun_moves (moves : Moves state label next) {call : δ}
    (begun : (next.destroyer call).begun = true) :
    (state.destroyer call).begun = true ∨ label = .destroy call := by
  cases moves with
  | @destroy other place =>
    by_cases same : call = other
    · exact .inr (same ▸ rfl)
    · simp only [State.destroyerAt, update_of_ne same] at begun
      exact .inl begun
  | destroyerTurn turn => exact .inl (begun_update rfl turn.begun begun)
  | storeShutdown place => exact .inl (begun_update place rfl begun)
  | destroyerLock place free => exact .inl (begun_update place rfl begun)
  | broadcast place => exact .inl (begun_update place rfl begun)
  | destroyerRelease place => exact .inl (begun_update place rfl begun)
  | join inside place gone => exact .inl (begun_update place rfl begun)
  | freeThreads place => exact .inl (begun_update place rfl begun)
  | drainNext place front stored => exact .inl (begun_update place rfl begun)
  | drainFree place => exact .inl (begun_update place rfl begun)
  | freePool place => exact .inl (begun_update place rfl begun)
  | _ => exact .inl begun

omit [DecidableEq α] [DecidableEq δ] in
/-- A turn of an adding thread is inside `tpool_add_work`. -/
theorem AdderTurn.busy {before after : AdderPhase ρ β} (turn : AdderTurn state before after) :
    before.rests = false := by
  cases turn <;> rfl

/-- A thread begins `tpool_add_work` by its label only. -/
theorem rests_moves (moves : Moves state label next) {caller : α}
    (rests : (state.adder caller).rests = true) :
    (next.adder caller).rests = true ∨ ∃ routine arg, label = .add caller routine arg := by
  cases moves with
  | @add other routine arg place =>
    by_cases same : caller = other
    · exact .inr ⟨some routine, arg, same ▸ rfl⟩
    · exact .inl (by simpa only [State.adderAt, update_of_ne same] using rests)
  | mallocFail place => exact .inl (stays_update place rfl rests)
  | malloc place fresh => exact .inl (stays_update place rfl rests)
  | adderTurn turn => exact .inl (stays_update rfl turn.busy rests)
  | adderLock place free => exact .inl (stays_update place rfl rests)
  | storeHead place => exact .inl (stays_update place rfl rests)
  | link place stored => exact .inl (stays_update place rfl rests)
  | signal place slept nobody => exact .inl (stays_update place rfl rests)
  | adderRelease place => exact .inl (stays_update place rfl rests)
  | _ => exact .inl rests

/-- No thread is inside `tpool_add_work` once a call has been made, when nothing is added then. -/
theorem adders_moves (moves : Moves state label next) (added : AddedBefore state label)
    (adders : ∀ call, (state.destroyer call).begun = true →
      ∀ caller, (state.adder caller).rests = true) :
    ∀ call, (next.destroyer call).begun = true → ∀ caller, (next.adder caller).rests = true := by
  intro call begun caller
  rcases begun_moves moves begun with before | rfl
  · rcases rests_moves moves (adders call before caller) with rests | ⟨_, _, rfl⟩
    · exact rests
    · exact absurd before (by simp [added call])
  · rcases rests_moves moves (added caller) with rests | ⟨_, _, impossible⟩
    · exact rests
    · cases impossible

omit [DecidableEq α] [DecidableEq δ] in
/-- A single teardown is one from which on nothing is added. -/
theorem SingleTeardown.added (once : SingleTeardown state label) : AddedBefore state label := by
  cases label with
  | add caller routine arg => exact once
  | destroy call => exact once.2
  | _ => trivial

omit [DecidableEq α] [DecidableEq δ] in
/-- A turn of a call of `tpool_destroy` joins no further worker. -/
theorem DestroyerTurn.joins {before after : DestroyerPhase ρ β}
    (turn : DestroyerTurn state before after) : after.joins n ≤ before.joins n := by
  cases turn with
  | joined last => exact last
  | _ => exact le_rfl

/-- The move of a call changes its count of joined workers only. -/
theorem joins_update {destroyer : δ → DestroyerPhase ρ β} {call other : δ}
    {before phase : DestroyerPhase ρ β} {index : Fin n} (place : destroyer other = before)
    (later : index.val < (update destroyer other phase call).joins n)
    (kept : phase.joins n ≤ before.joins n) : index.val < (destroyer call).joins n := by
  by_cases same : call = other
  · rw [same, place]
    rw [same, update_self] at later
    exact Nat.lt_of_lt_of_le later kept
  · rwa [update_of_ne same] at later

/-- A worker is counted as joined when it has exited. -/
theorem joins_moves (moves : Moves state label next) {call : δ} {index : Fin n}
    (later : index.val < (next.destroyer call).joins n) :
    index.val < (state.destroyer call).joins n ∨ (state.worker index).gone = true := by
  cases moves with
  | destroy place => exact .inl (joins_update place later (Nat.zero_le _))
  | destroyerTurn turn => exact .inl (joins_update rfl later turn.joins)
  | storeShutdown place => exact .inl (joins_update place later le_rfl)
  | destroyerLock place free => exact .inl (joins_update place later le_rfl)
  | broadcast place => exact .inl (joins_update place later le_rfl)
  | destroyerRelease place => exact .inl (joins_update place later le_rfl)
  | @join other count inside place gone =>
    by_cases exact : index.val = count
    · obtain rfl : index = ⟨count, inside⟩ := Fin.ext exact
      exact .inr gone
    · apply Or.inl
      by_cases same : call = other
      · subst same
        simp only [State.destroyerAt, update_self, DestroyerPhase.joins] at later
        simp only [place, DestroyerPhase.joins]
        omega
      · simpa only [State.destroyerAt, update_of_ne same] using later
  | freeThreads place => exact .inl (joins_update place later le_rfl)
  | drainNext place front stored => exact .inl (joins_update place later le_rfl)
  | drainFree place => exact .inl (joins_update place later le_rfl)
  | freePool place => exact .inl (joins_update place later (Nat.zero_le _))
  | _ => exact .inl later

/-- Every step of a run with a single teardown keeps its guarantees. -/
theorem TornDown.moves (torn : TornDown state) (once : SingleTeardown state label)
    (moves : Moves state label next) : TornDown next := by
  refine ⟨?_, ?_, ?_, ?_⟩
  · intro call other begun also
    rcases begun_moves moves begun with before | rfl
    · rcases begun_moves moves also with earlier | rfl
      · exact torn.single call other before earlier
      · exact absurd before (by simp [once.1 call])
    · rcases begun_moves moves also with earlier | same
      · exact absurd earlier (by simp [once.1 other])
      · exact Label.destroy.inj same
  · exact adders_moves moves once.added torn.adders
  · intro call index later
    rcases joins_moves moves later with before | gone
    · exact gone_moves moves (torn.joined call index before)
    · exact gone_moves moves gone
  · intro discarded index
    apply gone_moves moves
    by_cases before : state.discarded = []
    · cases moves with
      | @drainNext call member head content next place front stored =>
        exact torn.joined call index (by rw [place]; exact index.isLt)
      | _ => exact absurd before discarded
    · exact torn.discarded before index

omit [DecidableEq α] [DecidableEq δ] in
/-- Nothing is torn down before the first step. -/
theorem TornDown.start : TornDown (State.start : State n α δ ρ β) where
  single _ _ begun := by cases begun
  adders _ begun := by cases begun
  joined _ _ later := by cases later
  discarded some_discarded := absurd rfl some_discarded

/-- What every run with a single teardown keeps. -/
structure Orderly (state : State n α δ ρ β) : Prop where
  /-- Only the owner of the lock stands inside a critical section. -/
  exclusive : Exclusive state
  /-- The guarantees of the teardown. -/
  torn : TornDown state
  /-- The chain spells the queue. -/
  linked : ∃ queue, Linked state queue

namespace Orderly

/-- Every step of a run with a single teardown keeps it. -/
theorem moves (orderly : Orderly state) (once : SingleTeardown state label)
    (moves : Moves state label next) : Orderly next := by
  obtain ⟨exclusive, torn, queue, linked⟩ := orderly
  exact ⟨exclusive.moves moves, torn.moves once moves, linked.moves torn.settled exclusive moves⟩

omit [DecidableEq α] [DecidableEq δ] in
/-- It holds before the first step. -/
theorem start : Orderly (State.start : State n α δ ρ β) :=
  ⟨.start, .start, [], .start⟩

/-- In a run with a single teardown no other thread changes the chain between two accesses that a
thread makes in one critical section or in the last loop of `tpool_destroy`. -/
theorem steady {queue : List (Address × Work ρ β)} {thread : Thread n α δ}
    {labels : List (Label n α δ ρ β)} (orderly : Orderly state) (linked : Linked state queue)
    (reaches : state.reaches thread = true)
    (once : machine.Obeys SingleTeardown state labels)
    (others : ∀ label ∈ labels, label.thread ≠ thread)
    (ran : machine.run state labels = some next) : Steady state queue thread next :=
  linked.steady Orderly (fun _ _ _ orderly => ⟨orderly.torn.settled, orderly.exclusive⟩)
    (fun _ _ _ once orderly => orderly.moves once) reaches orderly once others ran

end Orderly

end SysServer.Threadpool
