import SysServer.Library.Chain
import SysServer.Pool.Lock

/-!
# The chain of works

Whoever reads or writes the chain from `queue_head` stands inside a critical section, or is the
one call of `tpool_destroy` that drains the pool after every worker has exited (`Settled`). Nodes
off the chain are claimed by one thread each. From both it follows that the chain always spells
the accepted works that have not left it, in the order in which they were linked, and that while
one thread stands at the chain the steps of the others leave it as it is (`Steady`).
-/

namespace SysServer.Threadpool

open Library Function

variable {n : ℕ} {α δ ρ β : Type*}

/-! ## What each place knows -/

/-- The node that a worker has taken off the chain and not freed. -/
def WorkerPhase.claim : WorkerPhase ρ β → Option Address
  | .unlocking work _ | .running work _ | .freeing work _ => some work
  | _ => none

/-- The node that an adding thread has allocated and not linked. -/
def AdderPhase.claim : AdderPhase ρ β → Option Address
  | .locking work _ | .readHead work _ | .storing work _ | .walking work _ _
  | .linking work _ _ => some work
  | _ => none

/-- The node that a call of `tpool_destroy` has unlinked and not freed. -/
def DestroyerPhase.claim : DestroyerPhase ρ β → Option Address
  | .drainFree member _ => some member
  | _ => none

/-- The node that each thread claims. -/
abbrev State.claim (state : State n α δ ρ β) : Thread n α δ → Option Address :=
  view WorkerPhase.claim AdderPhase.claim DestroyerPhase.claim state.worker state.adder
    state.destroyer

/-- The call of `tpool_destroy` is in its last loop. -/
def DestroyerPhase.draining : DestroyerPhase ρ β → Bool
  | .drainTest | .drainMember | .drainNext _ | .drainFree _ _ => true
  | _ => false

/-- Whether each thread stands where it reads or writes the chain: inside a critical section, or in
the last loop of `tpool_destroy`. -/
abbrev State.reaches (state : State n α δ ρ β) : Thread n α δ → Bool :=
  view WorkerPhase.inside AdderPhase.inside DestroyerPhase.draining state.worker state.adder
    state.destroyer

/-- The thread is not inside `tpool_add_work`. -/
def AdderPhase.rests : AdderPhase ρ β → Bool
  | .idle => true
  | _ => false

/-- What a worker knows of the queue, the flag and its node. -/
def WorkerPhase.Knows (heap : Address → Option (Work ρ β × Option Address))
    (head : Option Address) (shutdown : Bool) : WorkerPhase ρ β → Prop
  | .testShutdown | .waiting => head = none
  | .checkShutdown => head ≠ none ∨ shutdown = true
  | .popHead => head ≠ none
  | .popNext work => head = some work
  | .unlocking work content | .running work content | .freeing work content =>
    ∃ next, heap work = some (content, next)
  | _ => True

/-- What an adding thread knows of the queue and its node. -/
def AdderPhase.Knows (heap : Address → Option (Work ρ β × Option Address))
    (head : Option Address) (nodes : List Address) : AdderPhase ρ β → Prop
  | .locking work content | .readHead work content => heap work = some (content, none)
  | .storing work content => heap work = some (content, none) ∧ head = none
  | .walking work content member => heap work = some (content, none) ∧ member ∈ nodes
  | .linking work content member =>
    heap work = some (content, none) ∧ member ∈ nodes ∧ ∃ before, heap member = some (before, none)
  | _ => True

/-- What a call of `tpool_destroy` knows of the queue and its node. -/
def DestroyerPhase.Knows (heap : Address → Option (Work ρ β × Option Address))
    (head : Option Address) : DestroyerPhase ρ β → Prop
  | .drainMember => head ≠ none
  | .drainNext member => head = some member
  | .drainFree member content => ∃ next, heap member = some (content, next)
  | _ => True

section Frames

variable {heap after : Address → Option (Work ρ β × Option Address)} {head other : Option Address}
  {shutdown flag : Bool} {nodes longer : List Address}

/-- A worker knows its node while that is unchanged, and the rest while it is inside. -/
theorem WorkerPhase.Knows.frame {phase : WorkerPhase ρ β} (knows : phase.Knows heap head shutdown)
    (same : ∀ work, phase.claim = some work → after work = heap work)
    (outside : phase.inside = false ∨ head = other ∧ (shutdown = true → flag = true)) :
    phase.Knows after other flag := by
  cases phase with
  | unlocking work content | running work content | freeing work content =>
    obtain ⟨next, stored⟩ := knows
    exact ⟨next, (same work rfl).trans stored⟩
  | checkShutdown =>
    obtain impossible | ⟨rfl, kept⟩ := outside
    · cases impossible
    · exact knows.imp_right kept
  | testShutdown | waiting | popHead | popNext work =>
    obtain impossible | ⟨rfl, -⟩ := outside
    · cases impossible
    · exact knows
  | _ => trivial

/-- An adding thread knows its node while that is unchanged, and the rest while it is inside. -/
theorem AdderPhase.Knows.frame {phase : AdderPhase ρ β} (knows : phase.Knows heap head nodes)
    (same : ∀ work, phase.claim = some work → after work = heap work)
    (outside : phase.inside = false ∨
      head = other ∧ nodes = longer ∧ ∀ node ∈ nodes, after node = heap node) :
    phase.Knows after other longer := by
  cases phase with
  | locking work content | readHead work content => exact (same work rfl).trans knows
  | storing work content =>
    obtain impossible | ⟨rfl, -, -⟩ := outside
    · cases impossible
    · exact ⟨(same work rfl).trans knows.1, knows.2⟩
  | walking work content member =>
    obtain impossible | ⟨-, rfl, -⟩ := outside
    · cases impossible
    · exact ⟨(same work rfl).trans knows.1, knows.2⟩
  | linking work content member =>
    obtain impossible | ⟨-, rfl, kept⟩ := outside
    · cases impossible
    · obtain ⟨filled, inside, before, stored⟩ := knows
      exact ⟨(same work rfl).trans filled, inside, before, (kept member inside).trans stored⟩
  | _ => trivial

/-- A call of `tpool_destroy` knows nothing of the queue before its last loop. -/
theorem DestroyerPhase.Knows.early {phase : DestroyerPhase ρ β} (early : phase.draining = false) :
    phase.Knows heap head := by
  cases phase <;> trivial

end Frames

/-- A worker that has exited knows and claims nothing. -/
theorem WorkerPhase.eq_exited {phase : WorkerPhase ρ β} (gone : phase.gone = true) :
    phase = .exited := by
  cases phase <;> first | rfl | cases gone

/-- A thread that is not inside `tpool_add_work` is idle. -/
theorem AdderPhase.eq_idle {phase : AdderPhase ρ β} (rests : phase.rests = true) :
    phase = .idle := by
  cases phase <;> first | rfl | cases rests

/-- A worker inside its critical section has not exited. -/
theorem WorkerPhase.present_of_inside {phase : WorkerPhase ρ β} (inside : phase.inside = true) :
    phase.gone = false := by
  cases phase <;> first | rfl | cases inside

/-- A thread inside its critical section is inside `tpool_add_work`. -/
theorem AdderPhase.busy_of_inside {phase : AdderPhase ρ β} (inside : phase.inside = true) :
    phase.rests = false := by
  cases phase <;> first | rfl | cases inside

/-- The last loop of `tpool_destroy` runs once, after the workers have exited and with no thread
inside `tpool_add_work`; before it no work has been discarded. -/
structure Settled (state : State n α δ ρ β) : Prop where
  /-- The workers have exited. -/
  workers : ∀ call, (state.destroyer call).draining = true →
    ∀ index, (state.worker index).gone = true
  /-- No thread adds. -/
  adders : ∀ call, (state.destroyer call).draining = true →
    ∀ caller, (state.adder caller).rests = true
  /-- One call drains. -/
  single : ∀ call other, (state.destroyer call).draining = true →
    (state.destroyer other).draining = true → call = other
  /-- Works are discarded after the workers have exited. -/
  discarded : state.discarded ≠ [] → ∀ index, (state.worker index).gone = true

/-- The nodes of a queue. -/
def nodes (queue : List (Address × Work ρ β)) : List Address := queue.map Prod.fst

/-- The works of a queue. -/
def works (queue : List (Address × Work ρ β)) : List (Work ρ β) := queue.map Prod.snd

/-- The chain from `queue_head` spells the queue, which holds the accepted works that have been
neither taken nor discarded, and every thread knows what its place says. -/
structure Linked (state : State n α δ ρ β) (queue : List (Address × Work ρ β)) : Prop where
  /-- The chain. -/
  chain : Chain state.heap state.queueHead queue
  /-- The nodes off the chain. -/
  claims : Claims state.claim (nodes queue) (fun node => state.heap node ≠ none)
  /-- The workers. -/
  workers : ∀ index, (state.worker index).Knows state.heap state.queueHead state.shutdown
  /-- The adding threads. -/
  adders : ∀ caller, (state.adder caller).Knows state.heap state.queueHead (nodes queue)
  /-- The calls of `tpool_destroy`. -/
  destroyers : ∀ call, (state.destroyer call).Knows state.heap state.queueHead
  /-- The works. -/
  order : state.accepted = state.taken.map Prod.snd ++ state.discarded ++ works queue

variable [DecidableEq α] [DecidableEq δ] {state next : State n α δ ρ β}
  {queue : List (Address × Work ρ β)}

omit [DecidableEq α] [DecidableEq δ] in
/-- While a worker has not exited, no call of `tpool_destroy` is in its last loop. -/
theorem Settled.of_worker (settled : Settled state) {index : Fin n}
    (present : (state.worker index).gone = false) (call : δ) :
    (state.destroyer call).draining = false := by
  cases drains : (state.destroyer call).draining with
  | false => rfl
  | true => exact absurd (settled.workers call drains index) (by simp [present])

omit [DecidableEq α] [DecidableEq δ] in
/-- While a thread is inside `tpool_add_work`, no call of `tpool_destroy` is in its last loop. -/
theorem Settled.of_adder (settled : Settled state) {caller : α}
    (busy : (state.adder caller).rests = false) (call : δ) :
    (state.destroyer call).draining = false := by
  cases drains : (state.destroyer call).draining with
  | false => rfl
  | true => exact absurd (settled.adders call drains caller) (by simp [busy])

section Drains

variable {heap : Address → Option (Work ρ β × Option Address)} {head : Option Address}
  {shutdown : Bool} {nodes : List Address} {call : δ}

omit [DecidableEq α] [DecidableEq δ] in
/-- During the last loop of `tpool_destroy` a worker knows nothing. -/
theorem Settled.workers_know (settled : Settled state)
    (drains : (state.destroyer call).draining = true) (index : Fin n) :
    (state.worker index).Knows heap head shutdown := by
  rw [WorkerPhase.eq_exited (settled.workers call drains index)]
  trivial

omit [DecidableEq α] [DecidableEq δ] in
/-- During the last loop of `tpool_destroy` an adding thread knows nothing. -/
theorem Settled.adders_know (settled : Settled state)
    (drains : (state.destroyer call).draining = true) (caller : α) :
    (state.adder caller).Knows heap head nodes := by
  rw [AdderPhase.eq_idle (settled.adders call drains caller)]
  trivial

omit [DecidableEq α] [DecidableEq δ] in
/-- While one call of `tpool_destroy` is in its last loop, no other is. -/
theorem Settled.other_early (settled : Settled state)
    (drains : (state.destroyer call).draining = true) {other : δ} (different : other ≠ call) :
    (state.destroyer other).draining = false := by
  by_contra also
  exact different (settled.single other call (by simpa using also) drains)

end Drains

namespace Linked

omit [DecidableEq α] [DecidableEq δ] in
/-- The node in `queue_head` is the first of the queue, and the rest is spelled behind it. -/
theorem front {head : Address} {content : Work ρ β} {next : Option Address}
    (linked : Linked state queue) (first : state.queueHead = some head)
    (stored : state.heap head = some (content, next)) :
    ∃ rest, queue = (head, content) :: rest ∧ Chain state.heap next rest := by
  have chain := linked.chain
  rw [first] at chain
  obtain ⟨content', next', rest, rfl, stored', spelled⟩ := chain.front
  obtain ⟨rfl, rfl⟩ := Prod.mk.inj (Option.some.inj (stored.symm.trans stored'))
  exact ⟨rest, rfl, spelled⟩

/-- A worker that moves without changing its claim, to a place whose knowledge holds. -/
theorem worker {index : Fin n} {before : WorkerPhase ρ β} (linked : Linked state queue)
    (phase : WorkerPhase ρ β) (place : state.worker index = before)
    (same : phase.claim = before.claim)
    (knows : phase.Knows state.heap state.queueHead state.shutdown) :
    Linked (state.workerAt index phase) queue where
  chain := linked.chain
  claims := by
    have moved : (state.workerAt index phase).claim = state.claim := view_worker_same place same
    rw [moved]
    exact linked.claims
  workers := all_update knows fun other _ => linked.workers other
  adders := linked.adders
  destroyers := linked.destroyers
  order := linked.order

/-- An adding thread that moves without changing its claim. -/
theorem adder {caller : α} {before : AdderPhase ρ β} (linked : Linked state queue)
    (phase : AdderPhase ρ β) (place : state.adder caller = before)
    (same : phase.claim = before.claim)
    (knows : phase.Knows state.heap state.queueHead (nodes queue)) :
    Linked (state.adderAt caller phase) queue where
  chain := linked.chain
  claims := by
    have moved : (state.adderAt caller phase).claim = state.claim := view_adder_same place same
    rw [moved]
    exact linked.claims
  workers := linked.workers
  adders := all_update knows fun other _ => linked.adders other
  destroyers := linked.destroyers
  order := linked.order

/-- A call of `tpool_destroy` that moves without changing its claim. -/
theorem destroyer {call : δ} {before : DestroyerPhase ρ β} (linked : Linked state queue)
    (phase : DestroyerPhase ρ β) (place : state.destroyer call = before)
    (same : phase.claim = before.claim)
    (knows : phase.Knows state.heap state.queueHead) :
    Linked (state.destroyerAt call phase) queue where
  chain := linked.chain
  claims := by
    have moved : (state.destroyerAt call phase).claim = state.claim :=
      view_destroyer_same place same
    rw [moved]
    exact linked.claims
  workers := linked.workers
  adders := linked.adders
  destroyers := all_update knows fun other _ => linked.destroyers other
  order := linked.order

omit [DecidableEq α] [DecidableEq δ] in
/-- The lock and the histories that the chain does not depend on may change. -/
theorem record {owner : Option (Thread n α δ)} {answers : List (Option (Work ρ β) × ℤ)}
    {joined : List (Fin n)} {threadFrees poolFrees : ℕ} (linked : Linked state queue) :
    Linked { state with owner, answers, joined, threadFrees, poolFrees } queue :=
  ⟨linked.chain, linked.claims, linked.workers, linked.adders, linked.destroyers, linked.order⟩

omit [DecidableEq α] [DecidableEq δ] in
/-- Workers that are woken neither claim nor know anything. -/
theorem wake {workers : Fin n → WorkerPhase ρ β} (linked : Linked state queue)
    (same : ∀ index, (workers index).claim = (state.worker index).claim)
    (knows : ∀ index, (workers index).Knows state.heap state.queueHead state.shutdown) :
    Linked { state with worker := workers } queue := by
  have moved : ({ state with worker := workers } : State n α δ ρ β).claim = state.claim :=
    view_workers same
  exact ⟨linked.chain, moved.symm ▸ linked.claims, knows, linked.adders, linked.destroyers,
    linked.order⟩

/-- A worker takes the first work of the queue. -/
theorem popNext {index : Fin n} {work head : Address} {content : Work ρ β}
    {next : Option Address} (linked : Linked state queue) (settled : Settled state)
    (exclusive : Exclusive state) (place : state.worker index = .popNext work)
    (front : state.queueHead = some head) (stored : state.heap head = some (content, next)) :
    ∃ rest, Linked { state.workerAt index (.unlocking work content) with
      queueHead := next
      taken := state.taken ++ [(index, content)] } rest := by
  have present : (state.worker index).gone = false := by rw [place]; rfl
  have inside : state.inside (.worker index) = true := by simp only [view, place]; rfl
  have knows := linked.workers index
  rw [place] at knows
  obtain rfl : head = work := Option.some.inj (front.symm.trans knows)
  obtain ⟨rest, rfl, spelled⟩ := linked.front front stored
  have claims := linked.claims.take (.worker index)
  rw [← show (WorkerPhase.unlocking head content).claim = some head from rfl, ← view_worker]
    at claims
  refine ⟨rest, spelled, claims, ?_, ?_, ?_, ?_⟩
  · refine all_update ⟨next, stored⟩ fun other different => ?_
    exact (linked.workers other).frame (fun _ _ => rfl)
      (.inl (exclusive.outside inside (.worker other) (by simpa using different)))
  · exact fun caller => (linked.adders caller).frame (fun _ _ => rfl)
      (.inl (exclusive.outside inside (.adder caller) (by simp)))
  · exact fun call => .early (settled.of_worker present call)
  · have none_discarded : state.discarded = [] := by
      by_contra some_discarded
      exact absurd (settled.discarded some_discarded index) (by simp [present])
    simp [linked.order, none_discarded, works, State.workerAt]

/-- A worker frees the node it has taken. -/
theorem free {index : Fin n} {work : Address} {content : Work ρ β}
    {finished : List (Fin n × Work ρ β)} (linked : Linked state queue) (settled : Settled state)
    (place : state.worker index = .freeing work content) :
    Linked { state.workerAt index .locking with
      heap := update state.heap work none
      finished } queue := by
  have present : (state.worker index).gone = false := by rw [place]; rfl
  have mine : state.claim (.worker index) = some work := by simp only [view, place]; rfl
  have apart : ∀ node ∈ nodes queue, node ≠ work := fun node inside same =>
    linked.claims.unshared _ _ mine (same ▸ inside)
  have others : ∀ other claimed, other ≠ Thread.worker index → state.claim other = some claimed →
      update state.heap work none claimed = state.heap claimed :=
    fun other claimed different held => update_of_ne (linked.claims.ne different mine held) ..
  have claims := linked.claims.free (fun node => update state.heap work none node ≠ none) mine
    fun node => by by_cases same : node = work <;> simp [same]
  rw [← show (WorkerPhase.locking : WorkerPhase ρ β).claim = none from rfl, ← view_worker] at claims
  refine ⟨?_, claims, ?_, ?_, ?_, linked.order⟩
  · exact linked.chain.congr fun node inside => update_of_ne (apart node inside) ..
  · refine all_update trivial fun other different => ?_
    exact (linked.workers other).frame
      (fun claimed held => others (.worker other) claimed (by simpa using different) held)
      (.inr ⟨rfl, id⟩)
  · exact fun caller => (linked.adders caller).frame
      (fun claimed held => others (.adder caller) claimed (by simp) held)
      (.inr ⟨rfl, rfl, fun node inside => update_of_ne (apart node inside) ..⟩)
  · exact fun call => .early (settled.of_worker present call)

/-- A node is allocated and filled. -/
theorem malloc {caller : α} {routine : ρ} {arg : β} {work : Address} {content : Work ρ β}
    {serials : ℕ} (linked : Linked state queue) (settled : Settled state)
    (place : state.adder caller = .allocating routine arg) (fresh : state.heap work = none) :
    Linked { state.adderAt caller (.locking work content) with
      heap := update state.heap work (some (content, none))
      serials } queue := by
  have busy : (state.adder caller).rests = false := by rw [place]; rfl
  have apart : ∀ node ∈ nodes queue, node ≠ work := fun node inside same =>
    linked.claims.kept node inside (same ▸ fresh)
  have others : ∀ other claimed, state.claim other = some claimed →
      update state.heap work (some (content, none)) claimed = state.heap claimed :=
    fun other claimed held => update_of_ne
      (fun same : claimed = work => linked.claims.claimed other claimed held (same ▸ fresh)) ..
  have claims := linked.claims.allocate
    (fun node => update state.heap work (some (content, none)) node ≠ none) (.adder caller)
    (show ¬ state.heap work ≠ none by simpa using fresh)
    fun node => by by_cases same : node = work <;> simp [same]
  rw [← show (AdderPhase.locking work content).claim = some work from rfl, ← view_adder] at claims
  refine ⟨?_, claims, ?_, ?_, ?_, linked.order⟩
  · exact linked.chain.congr fun node inside => update_of_ne (apart node inside) ..
  · exact fun index => (linked.workers index).frame
      (fun claimed held => others (.worker index) claimed held) (.inr ⟨rfl, id⟩)
  · refine all_update (update_self ..) fun other different => ?_
    exact (linked.adders other).frame (fun claimed held => others (.adder other) claimed held)
      (.inr ⟨rfl, rfl, fun node inside => update_of_ne (apart node inside) ..⟩)
  · exact fun call => .early (settled.of_adder busy call)

/-- The first node of an empty queue is stored in `queue_head`. -/
theorem storeHead {caller : α} {work : Address} {content : Work ρ β} (linked : Linked state queue)
    (settled : Settled state) (exclusive : Exclusive state)
    (place : state.adder caller = .storing work content) :
    Linked { state.adderAt caller (.signalling content) with
      queueHead := some work
      accepted := state.accepted ++ [content] } [(work, content)] := by
  have busy : (state.adder caller).rests = false := by rw [place]; rfl
  have inside : state.inside (.adder caller) = true := by simp only [view, place]; rfl
  have mine : state.claim (.adder caller) = some work := by simp only [view, place]; rfl
  have knows := linked.adders caller
  rw [place] at knows
  obtain ⟨stored, head⟩ := knows
  obtain rfl : queue = [] := linked.chain.nil_iff.mp head
  have claims := linked.claims.publish mine
  rw [← show (AdderPhase.signalling content).claim = none from rfl, ← view_adder] at claims
  refine ⟨⟨rfl, none, stored, rfl⟩, claims, ?_, ?_, ?_, ?_⟩
  · exact fun index => (linked.workers index).frame (fun _ _ => rfl)
      (.inl (exclusive.outside inside (.worker index) (by simp)))
  · refine all_update trivial fun other different => ?_
    exact (linked.adders other).frame (fun _ _ => rfl)
      (.inl (exclusive.outside inside (.adder other) (by simpa using different)))
  · exact fun call => .early (settled.of_adder busy call)
  · simp [linked.order, works, State.adderAt]

/-- A node is linked behind the last one of the queue. -/
theorem link {caller : α} {work member : Address} {content before : Work ρ β}
    {next : Option Address} (linked : Linked state queue) (settled : Settled state)
    (exclusive : Exclusive state) (place : state.adder caller = .linking work content member)
    (stored : state.heap member = some (before, next)) :
    Linked { state.adderAt caller (.signalling content) with
      heap := update state.heap member (some (before, some work))
      accepted := state.accepted ++ [content] } (queue ++ [(work, content)]) := by
  have busy : (state.adder caller).rests = false := by rw [place]; rfl
  have inside : state.inside (.adder caller) = true := by simp only [view, place]; rfl
  have mine : state.claim (.adder caller) = some work := by simp only [view, place]; rfl
  have knows := linked.adders caller
  rw [place] at knows
  obtain ⟨filled, member_inside, before', ends⟩ := knows
  obtain ⟨rfl, rfl⟩ := Prod.mk.inj (Option.some.inj (stored.symm.trans ends))
  -- The member is on the chain, so no thread claims it.
  have kept : ∀ other claimed, state.claim other = some claimed →
      update state.heap member (some (before, some work)) claimed = state.heap claimed :=
    fun other claimed held => update_of_ne (fun same : claimed = member =>
      linked.claims.unshared other claimed held (same ▸ member_inside)) ..
  have live : (fun node => update state.heap member (some (before, some work)) node ≠ none) =
      fun node => state.heap node ≠ none := by
    funext node
    by_cases same : node = member <;> simp [same, ends]
  have claims := linked.claims.publish mine
  rw [← show (AdderPhase.signalling content).claim = none from rfl, ← view_adder, ← live,
    show nodes queue ++ [work] = nodes (queue ++ [(work, content)]) by simp [nodes]] at claims
  refine ⟨?_, claims, ?_, ?_, ?_, ?_⟩
  · exact linked.chain.link_back member_inside ends (update_self ..)
      (fun other different => update_of_ne different ..)
      ((kept _ work mine).trans filled)
  · exact fun index => (linked.workers index).frame
      (fun claimed held => kept (.worker index) claimed held)
      (.inl (exclusive.outside inside (.worker index) (by simp)))
  · refine all_update trivial fun other different => ?_
    exact (linked.adders other).frame (fun claimed held => kept (.adder other) claimed held)
      (.inl (exclusive.outside inside (.adder other) (by simpa using different)))
  · exact fun call => .early (settled.of_adder busy call)
  · simp [linked.order, works, State.adderAt]

/-- The shutdown is announced. -/
theorem storeShutdown {call : δ} (linked : Linked state queue)
    (place : state.destroyer call = .storing) :
    Linked { state.destroyerAt call .locking with shutdown := true } queue := by
  have moved := linked.destroyer .locking place rfl trivial
  exact ⟨moved.chain, moved.claims,
    fun index => (moved.workers index).frame (fun _ _ => rfl) (.inr ⟨rfl, fun _ => rfl⟩),
    moved.adders, moved.destroyers, moved.order⟩

/-- `tpool_destroy` unlinks the first node of the queue. -/
theorem drainNext {call : δ} {member head : Address} {content : Work ρ β}
    {next : Option Address} (linked : Linked state queue) (settled : Settled state)
    (place : state.destroyer call = .drainNext member) (front : state.queueHead = some head)
    (stored : state.heap head = some (content, next)) :
    ∃ rest, Linked { state.destroyerAt call (.drainFree member content) with
      queueHead := next
      discarded := state.discarded ++ [content] } rest := by
  have drains : (state.destroyer call).draining = true := by rw [place]; rfl
  have knows := linked.destroyers call
  rw [place] at knows
  obtain rfl : head = member := Option.some.inj (front.symm.trans knows)
  obtain ⟨rest, rfl, spelled⟩ := linked.front front stored
  have claims := linked.claims.take (.destroyer call)
  rw [← show (DestroyerPhase.drainFree head content).claim = some head from rfl,
    ← view_destroyer] at claims
  refine ⟨rest, spelled, claims, ?_, ?_, ?_, ?_⟩
  · exact settled.workers_know drains
  · exact settled.adders_know drains
  · exact all_update ⟨next, stored⟩ fun other different =>
      .early (settled.other_early drains different)
  · simp [linked.order, works, State.destroyerAt]

/-- `tpool_destroy` frees the node it has unlinked. -/
theorem drainFree {call : δ} {member : Address} {content : Work ρ β}
    {drained : List (Work ρ β)} (linked : Linked state queue) (settled : Settled state)
    (place : state.destroyer call = .drainFree member content) :
    Linked { state.destroyerAt call .drainTest with
      heap := update state.heap member none
      drained } queue := by
  have drains : (state.destroyer call).draining = true := by rw [place]; rfl
  have mine : state.claim (.destroyer call) = some member := by simp only [view, place]; rfl
  have claims := linked.claims.free (fun node => update state.heap member none node ≠ none) mine
    fun node => by by_cases same : node = member <;> simp [same]
  rw [← show (DestroyerPhase.drainTest : DestroyerPhase ρ β).claim = none from rfl,
    ← view_destroyer] at claims
  refine ⟨?_, claims, ?_, ?_, ?_, linked.order⟩
  · exact linked.chain.congr fun node inside => update_of_ne (fun same : node = member =>
      linked.claims.unshared _ _ mine (same ▸ inside)) ..
  · exact settled.workers_know drains
  · exact settled.adders_know drains
  · exact all_update trivial fun other different =>
      .early (settled.other_early drains different)

/-- A turn of a worker claims nothing new and knows what it has read. -/
theorem workerTurn {index : Fin n} {before after : WorkerPhase ρ β} (linked : Linked state queue)
    (place : state.worker index = before) (turn : WorkerTurn state before after) :
    Linked (state.workerAt index after) queue := by
  have knows := linked.workers index
  rw [place] at knows
  cases turn with
  | empty head => exact linked.worker _ place rfl head
  | ready head => exact linked.worker _ place rfl (.inl (by simp [head]))
  | wait opened => exact linked.worker _ place rfl knows
  | closed shut => exact linked.worker _ place rfl (.inr shut)
  | stay opened => exact linked.worker _ place rfl (knows.resolve_right (by simp [opened]))
  | popHead head => exact linked.worker _ place rfl head
  | run => exact linked.worker _ place rfl knows
  | _ => exact linked.worker _ place rfl trivial

/-- A turn of an adding thread claims nothing new and stays on the chain. -/
theorem adderTurn {caller : α} {before after : AdderPhase ρ β} (linked : Linked state queue)
    (place : state.adder caller = before) (turn : AdderTurn state before after) :
    Linked (state.adderAt caller after) queue := by
  have knows := linked.adders caller
  rw [place] at knows
  cases turn with
  | empty head => exact linked.adder _ place rfl ⟨knows, head⟩
  | @first work member content head =>
    have chain := linked.chain
    rw [head] at chain
    obtain ⟨content, next, rest, rfl, -, -⟩ := chain.front
    exact linked.adder _ place rfl ⟨knows, List.mem_cons_self⟩
  | @next work member following content before stored =>
    refine linked.adder _ place rfl ⟨knows.1, ?_⟩
    exact linked.chain.next_mem knows.2 stored
  | last stored => exact linked.adder _ place rfl ⟨knows.1, knows.2, _, stored⟩

/-- A turn of a call of `tpool_destroy` claims nothing new and knows what it has read. -/
theorem destroyerTurn {call : δ} {before after : DestroyerPhase ρ β}
    (linked : Linked state queue) (place : state.destroyer call = before)
    (turn : DestroyerTurn state before after) : Linked (state.destroyerAt call after) queue := by
  cases turn with
  | more head => exact linked.destroyer _ place rfl (show state.queueHead ≠ none by simp [head])
  | member head => exact linked.destroyer _ place rfl head
  | _ => exact linked.destroyer _ place rfl trivial

/-- Every step from a settled state under the lock leaves a queue that the chain spells. -/
theorem moves {label : Label n α δ ρ β} (linked : Linked state queue) (settled : Settled state)
    (exclusive : Exclusive state) (moves : Moves state label next) :
    ∃ after, Linked next after := by
  cases moves with
  | workerTurn actor turn => exact ⟨_, linked.workerTurn rfl turn⟩
  | workerLock place free =>
    rcases place with place | place
    · exact ⟨_, (linked.worker .testHead place rfl trivial).record⟩
    · exact ⟨_, (linked.worker .testHead place rfl trivial).record⟩
  | @workerRelease index phase release =>
    have knows := linked.workers index
    refine ⟨queue, (linked.worker phase rfl ?_ ?_).record⟩
    · generalize state.worker index = before at release
      cases release <;> rfl
    · generalize state.worker index = before at release knows
      cases release with
      | run => exact knows
      | _ => trivial
  | popNext place front stored => exact linked.popNext settled exclusive place front stored
  | free place => exact ⟨_, linked.free settled place⟩
  | addNull place => exact ⟨_, linked.record⟩
  | @add caller routine arg place =>
    exact ⟨_, linked.adder (.allocating routine arg) place rfl trivial⟩
  | mallocFail place => exact ⟨_, (linked.adder .idle place rfl trivial).record⟩
  | malloc place fresh => exact ⟨_, linked.malloc settled place fresh⟩
  | adderTurn turn => exact ⟨_, linked.adderTurn rfl turn⟩
  | @adderLock caller work content place free =>
    have knows := linked.adders caller
    rw [place] at knows
    exact ⟨_, (linked.adder (.readHead work content) place rfl knows).record⟩
  | storeHead place => exact ⟨_, linked.storeHead settled exclusive place⟩
  | link place stored => exact ⟨_, linked.link settled exclusive place stored⟩
  | @signal caller content woken place slept nobody =>
    have moved := linked.adder (.unlocking content) place rfl trivial
    refine ⟨_, moved.wake (woken_same WorkerPhase.claim rfl slept) fun index => ?_⟩
    split
    · trivial
    · exact linked.workers index
  | adderRelease place => exact ⟨_, (linked.adder .idle place rfl trivial).record⟩
  | destroy place => exact ⟨_, linked.destroyer .testing place rfl trivial⟩
  | destroyerTurn turn => exact ⟨_, linked.destroyerTurn rfl turn⟩
  | storeShutdown place => exact ⟨_, linked.storeShutdown place⟩
  | destroyerLock place free =>
    exact ⟨_, (linked.destroyer .broadcasting place rfl trivial).record⟩
  | broadcast place =>
    have moved := linked.destroyer .unlocking place rfl trivial
    refine ⟨_, moved.wake (fun index => ?_) fun index => ?_⟩
    · change (state.worker index).roused.claim = (state.worker index).claim
      cases state.worker index <;> rfl
    · have knows := linked.workers index
      change (state.worker index).roused.Knows _ _ _
      generalize state.worker index = before at knows
      cases before with
      | asleep => trivial
      | _ => exact knows
  | destroyerRelease place =>
    exact ⟨_, (linked.destroyer (.joining 0) place rfl trivial).record⟩
  | @join call index inside place gone =>
    exact ⟨_, (linked.destroyer (.joining (index + 1)) place rfl trivial).record⟩
  | freeThreads place =>
    exact ⟨_, (linked.destroyer .drainTest place rfl trivial).record⟩
  | drainNext place front stored => exact linked.drainNext settled place front stored
  | drainFree place => exact ⟨_, linked.drainFree settled place⟩
  | freePool place =>
    exact ⟨_, (linked.destroyer .returned place rfl trivial).record⟩

omit [DecidableEq α] [DecidableEq δ] in
/-- The queue is empty before the first step. -/
theorem start : Linked (State.start : State n α δ ρ β) [] := by
  refine ⟨rfl, ⟨?_, ?_, ?_, ?_, List.nodup_nil⟩, fun _ => trivial, fun _ => trivial,
    fun _ => trivial, rfl⟩
  · intro thread other block held
    cases thread <;> cases held
  · intro thread block held
    cases thread <;> cases held
  · intro thread block held
    cases thread <;> cases held
  · intro block inside
    cases inside

end Linked

/-! ## One thread at the chain -/

section Steady

variable {label : Label n α δ ρ β} {thread : Thread n α δ} {before : State n α δ ρ β}

omit [DecidableEq α] [DecidableEq δ] in
/-- While one thread stands where it reads or writes the chain, no other does. -/
theorem Settled.apart (settled : Settled state) (exclusive : Exclusive state)
    (reaches : state.reaches thread = true) {other : Thread n α δ} (different : other ≠ thread) :
    state.reaches other = false := by
  cases thread with
  | worker index =>
    have inside : state.inside (.worker index) = true := reaches
    have outside := exclusive.outside inside other different
    cases other with
    | destroyer call => exact settled.of_worker (WorkerPhase.present_of_inside reaches) call
    | _ => exact outside
  | adder caller =>
    have inside : state.inside (.adder caller) = true := reaches
    have outside := exclusive.outside inside other different
    cases other with
    | destroyer call => exact settled.of_adder (AdderPhase.busy_of_inside reaches) call
    | _ => exact outside
  | destroyer call =>
    cases other with
    | worker index =>
      simp only [view, WorkerPhase.eq_exited (settled.workers call reaches index)]
      rfl
    | adder caller =>
      simp only [view, AdderPhase.eq_idle (settled.adders call reaches caller)]
      rfl
    | destroyer other => exact settled.other_early reaches (by simpa using different)

/-- A step of a thread that stands elsewhere leaves the chain as it is. -/
theorem Linked.untouched (linked : Linked state queue) (moves : Moves state label next)
    (elsewhere : state.reaches label.thread = false) :
    next.queueHead = state.queueHead ∧ ∀ node ∈ nodes queue, next.heap node = state.heap node := by
  cases moves with
  | popNext place front stored =>
    simp [Label.thread, view, place, WorkerPhase.inside] at elsewhere
  | @free index work content place =>
    have mine : state.claim (.worker index) = some work := by simp only [view, place]; rfl
    exact ⟨rfl, fun node inside => update_of_ne (fun same : node = work =>
      linked.claims.unshared _ _ mine (same ▸ inside)) ..⟩
  | @malloc caller routine arg work place fresh =>
    exact ⟨rfl, fun node inside => update_of_ne (fun same : node = work =>
      linked.claims.kept node inside (same ▸ fresh)) ..⟩
  | storeHead place => simp [Label.thread, view, place, AdderPhase.inside] at elsewhere
  | link place stored => simp [Label.thread, view, place, AdderPhase.inside] at elsewhere
  | drainNext place front stored =>
    simp [Label.thread, view, place, DestroyerPhase.draining] at elsewhere
  | drainFree place => simp [Label.thread, view, place, DestroyerPhase.draining] at elsewhere
  | _ => exact ⟨rfl, fun _ _ => rfl⟩

/-- Since an earlier state the chain is as it was then, and a thread stands where it reads or
writes it. -/
structure Steady (before : State n α δ ρ β) (queue : List (Address × Work ρ β))
    (thread : Thread n α δ) (state : State n α δ ρ β) : Prop where
  /-- The chain spells the queue. -/
  linked : Linked state queue
  /-- The thread stands at the chain. -/
  reaches : state.reaches thread = true
  /-- The head. -/
  head : state.queueHead = before.queueHead
  /-- The nodes. -/
  cells : ∀ node ∈ nodes queue, state.heap node = before.heap node

/-- A step of another thread leaves the chain and the thread at it as they are. -/
theorem Steady.moves (steady : Steady before queue thread state) (settled : Settled state)
    (exclusive : Exclusive state) (moves : Moves state label next)
    (other : label.thread ≠ thread) : Steady before queue thread next := by
  obtain ⟨linked, reaches, head, cells⟩ := steady
  obtain ⟨keeps, kept⟩ := linked.untouched moves (settled.apart exclusive reaches other)
  obtain ⟨after, relinked⟩ := linked.moves settled exclusive moves
  have spelled : Chain next.heap next.queueHead queue := by
    rw [keeps]
    exact linked.chain.congr kept
  obtain rfl : after = queue := relinked.chain.unique spelled
  exact {
    linked := relinked
    reaches := (view_moves moves rfl other.symm).trans reaches
    head := keeps.trans head
    cells := fun node inside => (kept node inside).trans (cells node inside) }

/-- In a run that stays settled and under the lock, the chain is as it was for as long as a thread
stands where it reads or writes it and only the others take steps. -/
theorem Linked.steady {condition : State n α δ ρ β → Label n α δ ρ β → Prop}
    (property : State n α δ ρ β → Prop) {labels : List (Label n α δ ρ β)}
    (guards : ∀ state label, condition state label → property state →
      Settled state ∧ Exclusive state)
    (kept : ∀ state label next, condition state label → property state →
      Moves state label next → property next)
    (linked : Linked state queue) (reaches : state.reaches thread = true)
    (holds : property state) (obeys : machine.Obeys condition state labels)
    (others : ∀ label ∈ labels, label.thread ≠ thread)
    (ran : machine.run state labels = some next) : Steady state queue thread next := by
  have steady : property next ∧ Steady state queue thread next := machine.run_obeys_invariant
    (fun later => property later ∧ Steady state queue thread later)
    (fun middle label after both held stepped => by
      have moves := step_moves stepped
      obtain ⟨settled, exclusive⟩ := guards middle label both.1 held.1
      exact ⟨kept _ _ _ both.1 held.1 moves, held.2.moves settled exclusive moves both.2⟩)
    (obeys.and (machine.obeys_of_labels others state))
    ⟨holds, linked, reaches, rfl, fun _ _ => rfl⟩ ran
  exact steady.2

end Steady

end SysServer.Threadpool
