import Mathlib.Data.Fintype.BigOperators
import Mathlib.Tactic.Abel
import SysServer.Library.Census
import SysServer.Pool.Teardown

/-!
# Every accepted work once

The chain holds the accepted works that have not left it. Those that have left it are with the
worker that took them, run and freed by that worker, or discarded by `tpool_destroy`: `Booked`
counts them, `Answered` relates them to what the calls of `tpool_add_work` returned, and both
together with the chain place every accepted work exactly once.
-/

namespace SysServer.Threadpool

open Library Function

variable {n : ℕ} {α δ ρ β : Type*}

/-- The work that a worker has taken and not freed. -/
def WorkerPhase.holds : WorkerPhase ρ β → List (Work ρ β)
  | .unlocking _ content | .running _ content | .freeing _ content => [content]
  | _ => []

/-- The serial number of the node that an adding thread has allocated and not linked. -/
def AdderPhase.serials : AdderPhase ρ β → Multiset ℕ
  | .locking _ content | .readHead _ content | .storing _ content | .walking _ content _
  | .linking _ content _ => {content.serial}
  | _ => 0

/-- The work that an adding thread has linked and not yet returned for. -/
def AdderPhase.linked : AdderPhase ρ β → Option (Work ρ β)
  | .signalling content | .unlocking content => some content
  | _ => none

/-- The work that a call of `tpool_destroy` has unlinked and not freed. -/
def DestroyerPhase.holds : DestroyerPhase ρ β → Multiset (Work ρ β)
  | .drainFree _ content => {content}
  | _ => 0

/-- A turn of a worker keeps its work. -/
theorem WorkerTurn.holds {state : State n α δ ρ β} {before after : WorkerPhase ρ β}
    (turn : WorkerTurn state before after) : after.holds = before.holds := by
  cases turn <;> rfl

/-- A worker that releases the lock keeps its work. -/
theorem WorkerRelease.holds {before after : WorkerPhase ρ β}
    (release : WorkerRelease before after) : after.holds = before.holds := by
  cases release <;> rfl

/-- A turn of an adding thread keeps its node. -/
theorem AdderTurn.serials {state : State n α δ ρ β} {before after : AdderPhase ρ β}
    (turn : AdderTurn state before after) : after.serials = before.serials := by
  cases turn <;> rfl

/-- A turn of an adding thread links nothing. -/
theorem AdderTurn.linked {state : State n α δ ρ β} {before after : AdderPhase ρ β}
    (turn : AdderTurn state before after) : after.linked = before.linked := by
  cases turn <;> rfl

/-- A turn of a call of `tpool_destroy` unlinks nothing. -/
theorem DestroyerTurn.holds {state : State n α δ ρ β} {before after : DestroyerPhase ρ β}
    (turn : DestroyerTurn state before after) : after.holds = before.holds := by
  cases turn <;> rfl

/-! ## Answers -/

/-- Calls of `tpool_add_work` return 0 for the accepted works and -1 without a work. -/
structure Answered (state : State n α δ ρ β) : Prop where
  /-- What a call has returned. -/
  returned : ∀ answer ∈ state.answers, answer = (none, -1) ∨
    ∃ work ∈ state.accepted, answer = (some work, 0)
  /-- What a call will return for. -/
  linked : ∀ caller work, (state.adder caller).linked = some work → work ∈ state.accepted
  /-- For every accepted work a call has returned or will return. -/
  accepted : ∀ work ∈ state.accepted, (some work, 0) ∈ state.answers ∨
    ∃ caller, (state.adder caller).linked = some work

variable [DecidableEq α] [DecidableEq δ] {state next : State n α δ ρ β}
  {label : Label n α δ ρ β}

namespace Answered

omit [DecidableEq δ] in
/-- An adding thread that links nothing and returns for nothing. -/
theorem adder {caller : α} {before : AdderPhase ρ β} (answered : Answered state)
    (phase : AdderPhase ρ β) (place : state.adder caller = before)
    (same : phase.linked = before.linked) :
    Answered (state.adderAt caller phase) := by
  have kept : ∀ other, ((state.adderAt caller phase).adder other).linked =
      (state.adder other).linked := by
    intro other
    by_cases here : other = caller
    · subst here
      simp [State.adderAt, place, same]
    · simp [State.adderAt, here]
  refine ⟨answered.returned, fun other work holds => ?_, fun work inside => ?_⟩
  · exact answered.linked other work (kept other ▸ holds)
  · rcases answered.accepted work inside with done | ⟨other, holds⟩
    · exact .inl done
    · exact .inr ⟨other, (kept other).trans holds⟩

omit [DecidableEq α] [DecidableEq δ] in
/-- A rejected call. -/
theorem rejected (answered : Answered state) :
    Answered { state with answers := state.answers ++ [(none, -1)] } := by
  refine ⟨fun answer inside => ?_, answered.linked, fun work inside => ?_⟩
  · rcases List.mem_append.mp inside with before | now
    · exact answered.returned answer before
    · exact .inl (List.mem_singleton.mp now)
  · exact (answered.accepted work inside).imp_left fun done => List.mem_append_left _ done

omit [DecidableEq δ] in
/-- An adding thread links its work. -/
theorem link {caller : α} {before : AdderPhase ρ β} (answered : Answered state)
    (content : Work ρ β) (place : state.adder caller = before)
    (unlinked : before.linked = none) :
    Answered { state.adderAt caller (.signalling content) with
      accepted := state.accepted ++ [content] } := by
  refine ⟨fun answer inside => ?_, ?_, fun work inside => ?_⟩
  · refine (answered.returned answer inside).imp_right ?_
    rintro ⟨work, accepted, rfl⟩
    exact ⟨work, List.mem_append_left _ accepted, rfl⟩
  · intro other work holds
    by_cases here : other = caller
    · subst here
      simp only [State.adderAt, update_self, AdderPhase.linked, Option.some.injEq] at holds
      exact List.mem_append_right _ (by simp [holds])
    · simp only [State.adderAt, update_of_ne here] at holds
      exact List.mem_append_left _ (answered.linked other work holds)
  · rcases List.mem_append.mp inside with earlier | now
    · refine (answered.accepted work earlier).imp_right ?_
      rintro ⟨other, holds⟩
      have different : other ≠ caller := by
        rintro rfl
        rw [place, unlinked] at holds
        cases holds
      exact ⟨other, by simpa only [State.adderAt, update_of_ne different] using holds⟩
    · obtain rfl := List.mem_singleton.mp now
      exact .inr ⟨caller, by simp [State.adderAt, AdderPhase.linked]⟩

omit [DecidableEq δ] in
/-- An adding thread returns 0. -/
theorem finish {caller : α} {content : Work ρ β} (answered : Answered state)
    (place : state.adder caller = .unlocking content) :
    Answered { state.adderAt caller .idle with
      answers := state.answers ++ [(some content, 0)] } := by
  refine ⟨fun answer inside => ?_, ?_, fun work inside => ?_⟩
  · rcases List.mem_append.mp inside with before | now
    · exact answered.returned answer before
    · exact .inr ⟨content, answered.linked caller content (by rw [place]; rfl),
        List.mem_singleton.mp now⟩
  · intro other work holds
    by_cases here : other = caller
    · subst here
      simp [State.adderAt, AdderPhase.linked] at holds
    · simp only [State.adderAt, update_of_ne here] at holds
      exact answered.linked other work holds
  · rcases answered.accepted work inside with done | ⟨other, holds⟩
    · exact .inl (List.mem_append_left _ done)
    · by_cases here : other = caller
      · subst here
        rw [place] at holds
        obtain rfl := Option.some.inj holds
        exact .inl (List.mem_append_right _ List.mem_cons_self)
      · exact .inr ⟨other, by simpa only [State.adderAt, update_of_ne here] using holds⟩

omit [DecidableEq α] [DecidableEq δ] in
/-- The lock, the nodes and the workers' places may change. -/
theorem record {queueHead : Option Address} {heap : Address → Option (Work ρ β × Option Address)}
    {owner : Option (Thread n α δ)} {worker : Fin n → WorkerPhase ρ β} {serials : ℕ}
    (answered : Answered state) :
    Answered { state with queueHead, heap, owner, worker, serials } :=
  ⟨answered.returned, answered.linked, answered.accepted⟩

/-- Every step keeps the answers. -/
theorem moves (answered : Answered state) (moves : Moves state label next) :
    Answered next := by
  cases moves with
  | addNull place => exact answered.rejected
  | @add caller routine arg place =>
    exact answered.adder (.allocating routine arg) place rfl
  | mallocFail place => exact (answered.adder .idle place rfl).rejected
  | @malloc caller routine arg work place fresh =>
    exact (answered.adder (.locking work ⟨state.serials, routine, arg⟩) place rfl).record
  | adderTurn turn => exact answered.adder _ rfl turn.linked
  | @adderLock caller work content place free =>
    exact (answered.adder (.readHead work content) place rfl).record
  | @storeHead caller work content place => exact (answered.link content place rfl).record
  | @link caller work member content before following place stored =>
    exact (answered.link content place rfl).record
  | @signal caller content woken place slept nobody =>
    exact (answered.adder (.unlocking content) place rfl).record
  | adderRelease place => exact (answered.finish place).record
  | _ => exact ⟨answered.returned, answered.linked, answered.accepted⟩

omit [DecidableEq α] [DecidableEq δ] in
/-- No call has returned before the first step. -/
theorem start : Answered (State.start : State n α δ ρ β) where
  returned _ inside := by cases inside
  linked _ _ holds := by cases holds
  accepted _ inside := by cases inside

end Answered

/-! ## The books -/

variable [Fintype α] [Fintype δ]

/-- The works that left the chain, and the nodes that are not yet on it. -/
structure Booked (state : State n α δ ρ β) : Prop where
  /-- What a worker has taken it has run and freed, in order, but for the last. -/
  taken : ∀ index, part index state.taken =
    part index state.finished ++ (state.worker index).holds
  /-- Every allocated node is being added or has been. -/
  serials : tally AdderPhase.serials state.adder +
    (state.accepted.map Work.serial : Multiset ℕ) = Multiset.range state.serials
  /-- What `tpool_destroy` has unlinked it has freed or is about to free. -/
  discarded : (state.discarded : Multiset (Work ρ β)) =
    state.drained + tally DestroyerPhase.holds state.destroyer

namespace Booked

omit [DecidableEq α] [DecidableEq δ] in
/-- One worker's books change and balance, and those of the others stay. -/
theorem balance {index : Fin n} {phase : WorkerPhase ρ β} {taken finished : List (Fin n × Work ρ β)}
    (booked : Booked state) (own : part index taken = part index finished ++ phase.holds)
    (others : ∀ other ≠ index, part other taken = part other state.taken ∧
      part other finished = part other state.finished) (other : Fin n) :
    part other taken = part other finished ++ (update state.worker index phase other).holds := by
  by_cases here : other = index
  · rw [here, update_self]
    exact own
  · rw [update_of_ne here, (others other here).1, (others other here).2]
    exact booked.taken other

omit [DecidableEq α] [DecidableEq δ] in
/-- A worker that keeps its work. -/
theorem worker {index : Fin n} {before : WorkerPhase ρ β} (booked : Booked state)
    (phase : WorkerPhase ρ β) (place : state.worker index = before)
    (same : phase.holds = before.holds) :
    Booked (state.workerAt index phase) := by
  have own : part index state.taken = part index state.finished ++ phase.holds := by
    rw [same, ← place]
    exact booked.taken index
  exact ⟨booked.balance own fun _ _ => ⟨rfl, rfl⟩, booked.serials, booked.discarded⟩

omit [DecidableEq α] [DecidableEq δ] in
/-- A worker takes a work. -/
theorem popNext {index : Fin n} {work : Address} (booked : Booked state) (content : Work ρ β)
    (place : state.worker index = .popNext work) :
    Booked { state.workerAt index (.unlocking work content) with
      taken := state.taken ++ [(index, content)] } := by
  have before : part index state.taken = part index state.finished ++ [] := by
    have taken := booked.taken index
    rwa [place] at taken
  have own : part index (state.taken ++ [(index, content)]) =
      part index state.finished ++ [content] := by
    rw [part_append_self, before, List.append_nil]
  exact ⟨booked.balance own fun _ different => ⟨part_append_of_ne different, rfl⟩,
    booked.serials, booked.discarded⟩

omit [DecidableEq α] [DecidableEq δ] in
/-- A worker frees the work that it has run. -/
theorem free {index : Fin n} {work : Address} {content : Work ρ β} (booked : Booked state)
    (place : state.worker index = .freeing work content) :
    Booked { state.workerAt index .locking with
      finished := state.finished ++ [(index, content)] } := by
  have before : part index state.taken = part index state.finished ++ [content] := by
    have taken := booked.taken index
    rwa [place] at taken
  have own : part index state.taken =
      part index (state.finished ++ [(index, content)]) ++ [] := by
    rw [part_append_self, before, List.append_nil]
  exact ⟨booked.balance own fun _ different => ⟨rfl, part_append_of_ne different⟩,
    booked.serials, booked.discarded⟩

omit [DecidableEq δ] in
/-- An adding thread that keeps its node. -/
theorem adder {caller : α} {before : AdderPhase ρ β} (booked : Booked state)
    (phase : AdderPhase ρ β) (place : state.adder caller = before)
    (same : phase.serials = before.serials) :
    Booked (state.adderAt caller phase) := by
  refine ⟨booked.taken, ?_, booked.discarded⟩
  change tally AdderPhase.serials (update state.adder caller phase) + _ = _
  rw [tally_update_same (by rw [place, same])]
  exact booked.serials

omit [DecidableEq α] in
/-- A call of `tpool_destroy` that keeps its node. -/
theorem destroyer {call : δ} {before : DestroyerPhase ρ β} (booked : Booked state)
    (phase : DestroyerPhase ρ β) (place : state.destroyer call = before)
    (same : phase.holds = before.holds) :
    Booked (state.destroyerAt call phase) := by
  refine ⟨booked.taken, booked.serials, ?_⟩
  change _ = _ + tally DestroyerPhase.holds (update state.destroyer call phase)
  rw [tally_update_same (by rw [place, same])]
  exact booked.discarded

omit [DecidableEq δ] in
/-- An adding thread links its node. -/
theorem link {caller : α} {before : AdderPhase ρ β} {content : Work ρ β} (booked : Booked state)
    (place : state.adder caller = before) (held : before.serials = {content.serial}) :
    Booked { state.adderAt caller (.signalling content) with
      accepted := state.accepted ++ [content] } := by
  refine ⟨booked.taken, ?_, booked.discarded⟩
  have drop := tally_update_drop AdderPhase.serials state.adder caller (.signalling content) rfl
  rw [place, held] at drop
  change tally AdderPhase.serials (update state.adder caller (.signalling content)) +
    ((state.accepted ++ [content]).map Work.serial : Multiset ℕ) = Multiset.range state.serials
  rw [← booked.serials, ← drop, List.map_append, ← Multiset.coe_add, add_right_comm, add_assoc]
  rfl

omit [DecidableEq δ] in
/-- An adding thread gets a node with the next serial number. -/
theorem malloc {caller : α} {routine : ρ} {arg : β} (booked : Booked state) (work : Address)
    (place : state.adder caller = .allocating routine arg) :
    Booked { state.adderAt caller (.locking work ⟨state.serials, routine, arg⟩) with
      serials := state.serials + 1 } := by
  refine ⟨booked.taken, ?_, booked.discarded⟩
  have gain := tally_update_gain AdderPhase.serials state.adder caller
    (.locking work ⟨state.serials, routine, arg⟩) (by rw [place]; rfl)
  change tally AdderPhase.serials (update state.adder caller _) + _ =
    Multiset.range (state.serials + 1)
  rw [gain, Multiset.range_succ, ← Multiset.singleton_add, ← booked.serials]
  simp only [AdderPhase.serials]
  abel

omit [DecidableEq α] in
/-- A call of `tpool_destroy` unlinks a node. -/
theorem drainNext {call : δ} {member : Address} (booked : Booked state) (content : Work ρ β)
    (place : state.destroyer call = .drainNext member) :
    Booked { state.destroyerAt call (.drainFree member content) with
      discarded := state.discarded ++ [content] } := by
  refine ⟨booked.taken, booked.serials, ?_⟩
  have gain := tally_update_gain DestroyerPhase.holds state.destroyer call
    (.drainFree member content) (by rw [place]; rfl)
  change ((state.discarded ++ [content] : List (Work ρ β)) : Multiset (Work ρ β)) =
    (state.drained : Multiset (Work ρ β)) +
      tally DestroyerPhase.holds (update state.destroyer call (.drainFree member content))
  rw [gain, ← add_assoc, ← booked.discarded, ← Multiset.coe_add]
  rfl

omit [DecidableEq α] in
/-- A call of `tpool_destroy` frees the node that it has unlinked. -/
theorem drainFree {call : δ} {member : Address} {content : Work ρ β} (booked : Booked state)
    (place : state.destroyer call = .drainFree member content) :
    Booked { state.destroyerAt call .drainTest with
      drained := state.drained ++ [content] } := by
  refine ⟨booked.taken, booked.serials, ?_⟩
  have drop := tally_update_drop DestroyerPhase.holds state.destroyer call .drainTest rfl
  rw [place] at drop
  change (state.discarded : Multiset (Work ρ β)) =
    ((state.drained ++ [content] : List (Work ρ β)) : Multiset (Work ρ β)) +
      tally DestroyerPhase.holds (update state.destroyer call .drainTest)
  rw [booked.discarded, ← drop, ← Multiset.coe_add, add_comm (tally _ _) _, ← add_assoc]
  rfl

omit [DecidableEq α] [DecidableEq δ] in
/-- The lock, the nodes and the histories that are not in the books may change. -/
theorem record {shutdown : Bool} {queueHead : Option Address}
    {heap : Address → Option (Work ρ β × Option Address)} {owner : Option (Thread n α δ)}
    {answers : List (Option (Work ρ β) × ℤ)} {joined : List (Fin n)}
    {threadFrees poolFrees : ℕ} (booked : Booked state) :
    Booked { state with
      shutdown, queueHead, heap, owner, answers, joined, threadFrees, poolFrees } :=
  ⟨booked.taken, booked.serials, booked.discarded⟩

/-- Every step keeps the books. -/
theorem moves (booked : Booked state) (moves : Moves state label next) : Booked next := by
  cases moves with
  | workerTurn actor turn => exact booked.worker _ rfl turn.holds
  | workerLock place free =>
    rcases place with place | place
    · exact (booked.worker .testHead place rfl).record
    · exact (booked.worker .testHead place rfl).record
  | workerRelease release => exact (booked.worker _ rfl release.holds).record
  | @popNext index work head content following place front stored =>
    exact (booked.popNext content place).record
  | free place => exact (booked.free place).record
  | @add caller routine arg place =>
    exact booked.adder (.allocating routine arg) place rfl
  | mallocFail place => exact (booked.adder .idle place rfl).record
  | @malloc caller routine arg work place fresh => exact (booked.malloc work place).record
  | adderTurn turn => exact booked.adder _ rfl turn.serials
  | @adderLock caller work content place free =>
    exact (booked.adder (.readHead work content) place rfl).record
  | storeHead place => exact (booked.link place rfl).record
  | link place stored => exact (booked.link place rfl).record
  | @signal caller content woken place slept nobody =>
    have moved := booked.adder (.unlocking content) place rfl
    refine ⟨fun index => (moved.taken index).trans ?_, moved.serials, moved.discarded⟩
    exact congrArg _ (woken_same WorkerPhase.holds rfl slept index).symm
  | adderRelease place => exact (booked.adder .idle place rfl).record
  | destroy place => exact booked.destroyer .testing place rfl
  | destroyerTurn turn => exact booked.destroyer _ rfl turn.holds
  | storeShutdown place => exact (booked.destroyer .locking place rfl).record
  | destroyerLock place free => exact (booked.destroyer .broadcasting place rfl).record
  | broadcast place =>
    have moved := booked.destroyer .unlocking place rfl
    refine ⟨fun index => (moved.taken index).trans ?_, moved.serials, moved.discarded⟩
    change _ ++ (state.worker index).holds = _ ++ (state.worker index).roused.holds
    cases state.worker index <;> rfl
  | destroyerRelease place => exact (booked.destroyer (.joining 0) place rfl).record
  | @join call index inside place gone =>
    exact (booked.destroyer (.joining (index + 1)) place rfl).record
  | freeThreads place => exact (booked.destroyer .drainTest place rfl).record
  | @drainNext call member head content following place front stored =>
    exact (booked.drainNext content place).record
  | drainFree place => exact (booked.drainFree place).record
  | freePool place => exact (booked.destroyer .returned place rfl).record
  | _ => exact ⟨booked.taken, booked.serials, booked.discarded⟩

omit [DecidableEq α] [DecidableEq δ] in
/-- Nothing is in the books before the first step. -/
theorem start : Booked (State.start : State n α δ ρ β) where
  taken _ := rfl
  serials := by
    have idle : tally AdderPhase.serials (fun _ : α => (.idle : AdderPhase ρ β)) = 0 :=
      tally_eq_zero fun _ => rfl
    simp [State.start, idle]
  discarded := by
    have idle : tally DestroyerPhase.holds (fun _ : δ => (.idle : DestroyerPhase ρ β)) = 0 :=
      tally_eq_zero fun _ => rfl
    simp [State.start, idle]

end Booked

/-! ## Every work in one place -/

/-- How a worker has a work. -/
inductive Hand where
  /-- Taken and not freed. -/
  | held
  /-- Run and freed. -/
  | finished
  deriving DecidableEq

/-- There are two hands. -/
instance : Fintype Hand where
  elems := {.held, .finished}
  complete hand := by cases hand <;> decide

/-- Where a work is that no worker has taken. -/
inductive Shelf where
  /-- On the chain. -/
  | queued
  /-- Unlinked by `tpool_destroy`, which frees it unrun. -/
  | discarded
  deriving DecidableEq

/-- There are two shelves. -/
instance : Fintype Shelf where
  elems := {.queued, .discarded}
  complete shelf := by cases shelf <;> decide

/-- The places of an accepted work. -/
abbrev Place (n : ℕ) := (Fin n × Hand) ⊕ Shelf

/-- The works in a place, each as often as it is there. -/
def State.owned (state : State n α δ ρ β) (queue : List (Address × Work ρ β)) :
    Place n → Multiset (Work ρ β)
  | .inl (index, .held) => (state.worker index).holds
  | .inl (index, .finished) => part index state.finished
  | .inr .queued => works queue
  | .inr .discarded => state.drained + tally DestroyerPhase.holds state.destroyer

/-- The queue of the pool, and where its works are. -/
structure Conserved (state : State n α δ ρ β) (queue : List (Address × Work ρ β)) : Prop where
  /-- The pointers from `queue_head` spell the queue and end. -/
  chain : Chain state.heap state.queueHead queue
  /-- No node is on the chain twice. -/
  acyclic : (nodes queue).Nodup
  /-- The queue is the accepted works not yet taken or discarded, in their order. -/
  spells : state.accepted = state.taken.map Prod.snd ++ state.discarded ++ works queue
  /-- No work is accepted twice. -/
  distinct : state.accepted.Nodup
  /-- Works are taken in the order in which they were accepted. -/
  inOrder : state.taken.map Prod.snd <+: state.accepted
  /-- Every accepted work is in exactly one place. -/
  place : ∀ work ∈ state.accepted, ∃! place, work ∈ state.owned queue place
  /-- It is there once. -/
  once : ∀ place, (state.owned queue place).Nodup
  /-- A call has returned 0 for an accepted work, or -1 without one. -/
  returned : ∀ answer ∈ state.answers, answer = (none, -1) ∨
    ∃ work ∈ state.accepted, answer = (some work, 0)
  /-- For every accepted work a call has returned 0 or is past the linking and will. -/
  answered : ∀ work ∈ state.accepted, (some work, 0) ∈ state.answers ∨
    ∃ caller, (state.adder caller).linked = some work

/-- A call that is rejected leaves the queue as it was and returns -1. -/
def Rejects (state : State n α δ ρ β) : Prop :=
  ∀ label next, ((∃ caller arg, label = .add caller none arg) ∨
      ∃ caller, label = .malloc caller none) → step state label = some next →
    next.queueHead = state.queueHead ∧ next.heap = state.heap ∧
      next.accepted = state.accepted ∧ next.answers = state.answers ++ [(none, -1)]

omit [Fintype α] [Fintype δ] in
/-- Rejected calls change nothing but the answers. -/
theorem rejects (state : State n α δ ρ β) : Rejects state := by
  intro label next rejected stepped
  have moves := step_moves stepped
  rcases rejected with ⟨caller, arg, rfl⟩ | ⟨caller, rfl⟩
  · cases moves with
    | workerTurn actor turn => cases actor
    | addNull place => exact ⟨rfl, rfl, rfl, rfl⟩
  · cases moves with
    | workerTurn actor turn => cases actor
    | mallocFail place => exact ⟨rfl, rfl, rfl, rfl⟩

omit [DecidableEq α] [DecidableEq δ] in
/-- All places together hold the accepted works. -/
theorem owned_accepted {queue : List (Address × Work ρ β)} (booked : Booked state)
    (order : state.accepted = state.taken.map Prod.snd ++ state.discarded ++ works queue) :
    tally id (state.owned queue) = (state.accepted : Multiset (Work ρ β)) := by
  have hands : (Finset.univ : Finset Hand) = {.held, .finished} := rfl
  have shelves : (Finset.univ : Finset Shelf) = {.queued, .discarded} := rfl
  have workers : ∑ index, ((state.worker index).holds + part index state.finished :
      Multiset (Work ρ β)) = (state.taken.map Prod.snd : Multiset (Work ρ β)) := by
    rw [← sum_part]
    apply Finset.sum_congr rfl
    intro index _
    rw [booked.taken index, ← Multiset.coe_add, add_comm]
  rw [tally, Fintype.sum_sum_type, Fintype.sum_prod_type, hands, shelves]
  simp only [id_eq, Finset.sum_pair (show Hand.held ≠ Hand.finished by decide),
    Finset.sum_pair (show Shelf.queued ≠ Shelf.discarded by decide), State.owned]
  rw [workers, ← booked.discarded, order, ← Multiset.coe_add, ← Multiset.coe_add]
  abel

omit [DecidableEq α] [DecidableEq δ] in
/-- No work is accepted twice, as no serial number is given twice. -/
theorem Booked.distinct (booked : Booked state) : state.accepted.Nodup := by
  have most : (state.accepted.map Work.serial : Multiset ℕ) ≤ Multiset.range state.serials :=
    booked.serials ▸ Multiset.le_add_left _ _
  exact (Multiset.coe_nodup.mp (Multiset.nodup_of_le most (Multiset.nodup_range _))).of_map _

/-- **Works are accepted once, started once and in order.** In every run of any number of workers
and adding threads with at most one call of `tpool_destroy`, after which nothing is added, the
chain from `queue_head` spells the accepted works that have not left it, every accepted work is
in exactly one place, works are taken in the order of acceptance, and a rejected call leaves the
queue unchanged. -/
theorem works_conserved {labels : List (Label n α δ ρ β)}
    (once : machine.Obeys SingleTeardown .start labels)
    (ran : machine.run .start labels = some state) :
    (∃ queue, Conserved state queue) ∧ Rejects state := by
  have orderly : Orderly state := machine.run_obeys_invariant Orderly
    (fun _ _ _ once orderly stepped => orderly.moves once (step_moves stepped)) once .start ran
  obtain ⟨queue, linked⟩ := orderly.linked
  have answered : Answered state := machine.run_invariant Answered
    (fun _ _ _ answered stepped => answered.moves (step_moves stepped)) .start ran
  have booked : Booked state := machine.run_invariant Booked
    (fun _ _ _ booked stepped => booked.moves (step_moves stepped)) .start ran
  have total := owned_accepted booked linked.order
  obtain ⟨each, one⟩ := tally_nodup (total ▸ Multiset.coe_nodup.mpr booked.distinct)
  refine ⟨⟨queue, ?_⟩, rejects state⟩
  exact {
    chain := linked.chain
    acyclic := linked.chain.nodup
    spells := linked.order
    distinct := booked.distinct
    inOrder := ⟨state.discarded ++ works queue, by rw [linked.order, List.append_assoc]⟩
    place := fun work inside => one work (total ▸ Multiset.mem_coe.mpr inside)
    once := each
    returned := answered.returned
    answered := answered.accepted }

/-- Two works are added; the worker runs the first while the pool is destroyed, and the second is
freed unrun. -/
def teardown (index : Fin n) (caller : α) (call : δ) : List (Label n α δ ℕ ℕ) :=
  [.spawn index, .add caller (some 5) 7, .malloc caller (some 16), .adder caller, .adder caller,
    .adder caller, .signal caller ∅, .adder caller, .add caller (some 5) 8,
    .malloc caller (some 32), .adder caller, .adder caller, .adder caller, .adder caller,
    .signal caller ∅, .adder caller, .worker index, .worker index, .worker index, .worker index,
    .worker index, .worker index, .destroy call, .destroyer call, .destroyer call,
    .destroyer call, .destroyer call, .destroyer call, .worker index, .worker index,
    .worker index, .worker index, .worker index, .worker index, .destroyer call,
    .destroyer call, .destroyer call, .destroyer call, .destroyer call, .destroyer call,
    .destroyer call, .destroyer call, .destroyer call, .destroyer call]

/-- Nothing is added in that run once the teardown has begun. -/
theorem teardown_single : machine.Obeys SingleTeardown
    (.start : State 1 (Fin 1) (Fin 1) ℕ ℕ) (teardown 0 0 0) := by
  refine .cons trivial rfl (.cons (fun _ => rfl) rfl ?_)
  iterate 6 refine .cons trivial rfl ?_
  refine .cons (fun _ => rfl) rfl ?_
  iterate 13 refine .cons trivial rfl ?_
  refine .cons ⟨fun _ => rfl, Fin.forall_fin_one.mpr rfl⟩ rfl ?_
  iterate 21 refine .cons trivial rfl ?_
  trivial

/-- The run of two works and a teardown keeps all of this. -/
theorem works_conserved_run :
    ∃ state : State 1 (Fin 1) (Fin 1) ℕ ℕ, state.finished = [(0, ⟨0, 5, 7⟩)] ∧
      state.drained = [⟨1, 5, 8⟩] ∧ state.poolFrees = 1 ∧
      (∃ queue, Conserved state queue) ∧ Rejects state := by
  obtain ⟨state, ran, finished, drained, freed⟩ : ∃ state : State 1 (Fin 1) (Fin 1) ℕ ℕ,
      machine.run .start (teardown 0 0 0) = some state ∧ state.finished = [(0, ⟨0, 5, 7⟩)] ∧
        state.drained = [⟨1, 5, 8⟩] ∧ state.poolFrees = 1 := ⟨_, rfl, rfl, rfl, rfl⟩
  exact ⟨state, finished, drained, freed, works_conserved teardown_single ran⟩

end SysServer.Threadpool
