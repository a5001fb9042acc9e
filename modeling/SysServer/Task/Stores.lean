import Mathlib.Data.Fintype.Basic
import SysServer.Library.Segment
import SysServer.Task.Queues

/-!
# The pending list, store by store

`task_pending_add` and `task_pending_acquire` hold `pendlock` while they store into the list, but
`task_allocate` reads the head with `list_empty` and holds nothing. So the calls are taken apart
here into single accesses of memory, any number of threads interleave them, a reader may look at
the head between any two of them, and everything else may store into nodes that neither the list
nor a call owns. Each call still answers as if it had happened at one instant: for an addition that
is the store that links the last node to the new one, for an acquisition the store that links the
head past the first node, and the reader always sees the queue of that instant.
-/

namespace SysServer.Stores

open Library Function

/-- What a call answers at the instant that counts for it. -/
inductive Answer
  /-- `task_pending_add` has put its node into the list. -/
  | added (node : Address)
  /-- `task_pending_acquire` has found its result. -/
  | took (result : Option Address)
  /-- `list_empty` has read the head. -/
  | saw (empty : Bool)
  deriving DecidableEq

/-- The queue after an answer. -/
def Answer.settle (queue : List Address) : Answer → List Address
  | added node => Fifo.push queue node
  | took (some _) => queue.tail
  | took none | saw _ => queue

/-- One queue that takes every call in one step and refuses wrong answers. -/
def atomicQueue : Machine (List Address) Answer where
  initial queue := queue = []
  step
    | queue, .added node => some (Fifo.push queue node)
    | queue, .took none => if queue = [] then some queue else none
    | queue, .took (some node) =>
      match Fifo.pop queue with
      | some (front, rest) => if front = node then some rest else none
      | none => none
    | queue, .saw empty => if empty = queue.isEmpty then some queue else none

/-- Where a thread is, named by the access it makes next. -/
inductive Phase
  /-- In neither function. -/
  | outside
  /-- `pthread_mutex_lock`, to add a node. -/
  | addLock (node : Address)
  /-- Load `head->prev`. -/
  | addLoad (node : Address)
  /-- Store `next->prev = new` into the head. -/
  | addStoreHead (node prev : Address)
  /-- Store `new->next = next`. -/
  | addStoreNext (node prev : Address)
  /-- Store `new->prev = prev`. -/
  | addStorePrev (node prev : Address)
  /-- Store `prev->next = new`. -/
  | addLink (node prev : Address)
  /-- `pthread_mutex_unlock` and return. -/
  | addUnlock (node : Address)
  /-- `pthread_mutex_lock`, to acquire a node. -/
  | takeLock
  /-- Load `head->next` for `list_empty`. -/
  | takeEmpty
  /-- Load `head->next` for `list_first_entry`. -/
  | takeFirst
  /-- Test the entry for the null pointer. -/
  | takeTest (entry : Address)
  /-- Load `entry->prev`. -/
  | takeLoadPrev (entry : Address)
  /-- Load `entry->next`. -/
  | takeLoadNext (entry prev : Address)
  /-- Store `next->prev = prev`. -/
  | takeStorePrev (entry prev next : Address)
  /-- Store `prev->next = next`. -/
  | takeLink (entry prev next : Address)
  /-- Store `entry->next = LIST_POISON1`. -/
  | takePoisonNext (entry : Address)
  /-- Store `entry->prev = LIST_POISON2`. -/
  | takePoisonPrev (entry : Address)
  /-- `pthread_mutex_unlock` and return. -/
  | takeUnlock (result : Option Address)
  deriving DecidableEq

namespace Phase

/-- The thread holds `pendlock`. -/
def inside : Phase → Bool
  | outside | addLock _ | takeLock => false
  | _ => true

/-- The node that belongs to the call and to no list. -/
def holds : Phase → Option Address
  | addLock node | addLoad node | addStoreHead node _ | addStoreNext node _ | addStorePrev node _
  | addLink node _ => some node
  | takePoisonNext entry | takePoisonPrev entry => some entry
  | takeUnlock result => result
  | _ => none

/-- The answer that the call has given and not returned with yet. -/
def owes : Phase → Option Answer
  | addUnlock node => some (.added node)
  | takePoisonNext entry | takePoisonPrev entry => some (.took (some entry))
  | takeUnlock result => some (.took result)
  | _ => none

/-- Make the next access: the memory after it, the access after that, and the answer when this
was the instant that counts. The list is rooted at `pend`. -/
def access (links : Links Address) (pend : Address) :
    Phase → Option (Links Address × Phase × Option Answer)
  | addLoad node => some (links, addStoreHead node (links pend).prev, none)
  | addStoreHead node prev => some (links.setPrev pend node, addStoreNext node prev, none)
  | addStoreNext node prev => some (links.setNext node pend, addStorePrev node prev, none)
  | addStorePrev node prev => some (links.setPrev node prev, addLink node prev, none)
  | addLink node prev => some (links.setNext prev node, addUnlock node, some (.added node))
  | takeEmpty =>
    if listEmpty links pend then some (links, takeUnlock none, some (.took none))
    else some (links, takeFirst, none)
  | takeFirst => some (links, takeTest (listFirstEntry links pend), none)
  | takeTest entry =>
    if entry = null then some (links, takeUnlock none, some (.took none))
    else some (links, takeLoadPrev entry, none)
  | takeLoadPrev entry => some (links, takeLoadNext entry (links entry).prev, none)
  | takeLoadNext entry prev => some (links, takeStorePrev entry prev (links entry).next, none)
  | takeStorePrev entry prev next => some (links.setPrev next prev, takeLink entry prev next, none)
  | takeLink entry prev next =>
    some (links.setNext prev next, takePoisonNext entry, some (.took (some entry)))
  | takePoisonNext entry => some (links.setNext entry listPoison1, takePoisonPrev entry, none)
  | takePoisonPrev entry =>
    some (links.setPrev entry listPoison2, takeUnlock (some entry), none)
  | outside | addLock _ | addUnlock _ | takeLock | takeUnlock _ => none

end Phase

/-! ## The memory inside a critical section -/

/-- What the memory looks like to a thread inside its critical section: a ring of the queue, with
the stores made so far. -/
def Shape (links : Links Address) (pend : Address) (queue : List Address) : Phase → Prop
  | .addStoreHead _ prev => Circular links pend queue ∧ prev = (links pend).prev
  | .addStoreNext node prev => ∃ before : Links Address, Circular before pend queue ∧
      prev = (before pend).prev ∧ links = before.setPrev pend node
  | .addStorePrev node prev => ∃ before : Links Address, Circular before pend queue ∧
      prev = (before pend).prev ∧ links = (before.setPrev pend node).setNext node pend
  | .addLink node prev => ∃ before : Links Address, Circular before pend queue ∧
      prev = (before pend).prev ∧
      links = ((before.setPrev pend node).setNext node pend).setPrev node prev
  | .takeFirst => Circular links pend queue ∧ queue ≠ []
  | .takeTest entry | .takeLoadPrev entry => Circular links pend queue ∧ queue.head? = some entry
  | .takeLoadNext entry prev =>
    Circular links pend queue ∧ queue.head? = some entry ∧ prev = (links entry).prev
  | .takeStorePrev entry prev next =>
    Circular links pend queue ∧ queue.head? = some entry ∧ prev = (links entry).prev ∧
      next = (links entry).next
  | .takeLink entry prev next => ∃ before : Links Address, Circular before pend queue ∧
      queue.head? = some entry ∧ prev = (before entry).prev ∧ next = (before entry).next ∧
      links = before.setPrev next prev
  | _ => Circular links pend queue

variable {links : Links Address} {pend node : Address} {queue : List Address} {phase : Phase}

/-- A store into a node commutes with a store of a prev link into another. -/
theorem update_setPrev {other value : Address} {link : Link Address} (apart : other ≠ node) :
    update (links.setPrev other value) node link =
      Links.setPrev (update links node link) other value := by
  rw [Links.setPrev, Links.setPrev, update_of_ne apart, update_comm apart]

/-- A store into a node commutes with a store of a next link into another. -/
theorem update_setNext {other value : Address} {link : Link Address} (apart : other ≠ node) :
    update (links.setNext other value) node link =
      Links.setNext (update links node link) other value := by
  rw [Links.setNext, Links.setNext, update_of_ne apart, update_comm apart]

/-- A ring survives a store outside it. -/
theorem circular_store (ring : Circular links pend queue) (outside : node ∉ pend :: queue)
    (link : Link Address) : Circular (update links node link) pend queue :=
  ring.congr fun other inside =>
    update_of_ne (fun same : other = node => outside (same ▸ inside)) _ _

/-- The memory keeps its shape when other code stores into a node that nobody owns. -/
theorem Shape.store (shape : Shape links pend queue phase) (outside : node ∉ pend :: queue)
    (apart : ∀ held ∈ phase.holds, held ≠ node) (link : Link Address) :
    Shape (update links node link) pend queue phase := by
  have head : pend ≠ node := fun same => outside (same ▸ List.mem_cons_self)
  have entries : ∀ entry, queue.head? = some entry → entry ≠ node := fun entry front same =>
    outside (same ▸ List.mem_cons_of_mem pend (List.mem_of_mem_head? front))
  cases phase with
  | addStoreHead new prev =>
    obtain ⟨ring, rfl⟩ := shape
    exact ⟨circular_store ring outside link, by rw [update_of_ne head]⟩
  | addStoreNext new prev =>
    obtain ⟨before, ring, rfl, rfl⟩ := shape
    refine ⟨update before node link, circular_store ring outside link, ?_, update_setPrev head⟩
    rw [update_of_ne head]
  | addStorePrev new prev =>
    have held := apart new rfl
    obtain ⟨before, ring, rfl, rfl⟩ := shape
    refine ⟨update before node link, circular_store ring outside link, ?_, ?_⟩
    · rw [update_of_ne head]
    · rw [update_setNext held, update_setPrev head]
  | addLink new prev =>
    have held := apart new rfl
    obtain ⟨before, ring, rfl, rfl⟩ := shape
    refine ⟨update before node link, circular_store ring outside link, ?_, ?_⟩
    · rw [update_of_ne head]
    · rw [update_setPrev held, update_setNext held, update_setPrev head]
  | takeFirst => exact ⟨circular_store shape.1 outside link, shape.2⟩
  | takeTest entry => exact ⟨circular_store shape.1 outside link, shape.2⟩
  | takeLoadPrev entry => exact ⟨circular_store shape.1 outside link, shape.2⟩
  | takeLoadNext entry prev =>
    obtain ⟨ring, front, rfl⟩ := shape
    refine ⟨circular_store ring outside link, front, ?_⟩
    rw [update_of_ne (entries entry front)]
  | takeStorePrev entry prev next =>
    obtain ⟨ring, front, rfl, rfl⟩ := shape
    refine ⟨circular_store ring outside link, front, ?_, ?_⟩
    · rw [update_of_ne (entries entry front)]
    · rw [update_of_ne (entries entry front)]
  | takeLink entry prev next =>
    obtain ⟨before, ring, front, rfl, rfl, rfl⟩ := shape
    have within : entry ∈ pend :: queue := List.mem_cons_of_mem pend (List.mem_of_mem_head? front)
    have next : (before entry).next ≠ node := fun same => outside (same ▸ ring.next_mem within)
    refine ⟨update before node link, circular_store ring outside link, front, ?_, ?_,
      update_setPrev next⟩
    · rw [update_of_ne (entries entry front)]
    · rw [update_of_ne (entries entry front)]
  | _ => exact circular_store shape outside link

/-- The link that adds a node completes `list_add_tail`. -/
theorem Shape.added {new prev : Address} (shape : Shape links pend queue (.addLink new prev))
    (fresh : new ∉ pend :: queue) :
    Circular (links.setNext prev new) pend (Fifo.push queue new) := by
  obtain ⟨before, ring, rfl, rfl⟩ := shape
  exact listAddTail_circular ring fresh

/-- The link past the first node completes the cut of `list_del`. -/
theorem Shape.cut {entry prev next : Address}
    (shape : Shape links pend queue (.takeLink entry prev next)) :
    Circular (links.setNext prev next) pend queue.tail := by
  obtain ⟨before, ring, front, rfl, rfl, rfl⟩ := shape
  obtain ⟨rest, rfl⟩ := List.head?_eq_some_iff.mp front
  exact ring.cut_front

/-- An access inside the critical section keeps the shape of the memory. -/
theorem Shape.access {after : Links Address} {next : Phase} {answer : Option Answer}
    (shape : Shape links pend queue phase) (present : ∀ node ∈ queue, node ≠ null)
    (fresh : ∀ held ∈ phase.holds, held ∉ pend :: queue)
    (accessed : phase.access links pend = some (after, next, answer)) :
    Shape after pend (answer.elim queue (Answer.settle queue)) next := by
  cases phase with
  | addLoad new =>
    obtain ⟨rfl, rfl, rfl⟩ := accessed
    exact ⟨shape, rfl⟩
  | addStoreHead new prev =>
    obtain ⟨rfl, rfl, rfl⟩ := accessed
    exact ⟨links, shape.1, shape.2, rfl⟩
  | addStoreNext new prev =>
    obtain ⟨rfl, rfl, rfl⟩ := accessed
    obtain ⟨before, ring, last, rfl⟩ := shape
    exact ⟨before, ring, last, rfl⟩
  | addStorePrev new prev =>
    obtain ⟨rfl, rfl, rfl⟩ := accessed
    obtain ⟨before, ring, last, rfl⟩ := shape
    exact ⟨before, ring, last, rfl⟩
  | addLink new prev =>
    obtain ⟨rfl, rfl, rfl⟩ := accessed
    exact shape.added (fresh new rfl)
  | takeEmpty =>
    have ring : Circular links pend queue := shape
    simp only [Phase.access] at accessed
    split at accessed <;> rename_i read <;> obtain ⟨rfl, rfl, rfl⟩ := accessed
    · exact ring
    · exact ⟨ring, mt (listEmpty_iff ring).mpr read⟩
  | takeFirst =>
    obtain ⟨rfl, rfl, rfl⟩ := accessed
    exact ⟨shape.1, shape.1.begins shape.2⟩
  | takeTest entry =>
    have real := present entry (List.mem_of_mem_head? shape.2)
    simp only [Phase.access, if_neg real] at accessed
    obtain ⟨rfl, rfl, rfl⟩ := accessed
    exact shape
  | takeLoadPrev entry =>
    obtain ⟨rfl, rfl, rfl⟩ := accessed
    exact ⟨shape.1, shape.2, rfl⟩
  | takeLoadNext entry prev =>
    obtain ⟨rfl, rfl, rfl⟩ := accessed
    exact ⟨shape.1, shape.2.1, shape.2.2, rfl⟩
  | takeStorePrev entry prev next =>
    obtain ⟨rfl, rfl, rfl⟩ := accessed
    exact ⟨links, shape.1, shape.2.1, shape.2.2.1, shape.2.2.2, rfl⟩
  | takeLink entry prev next =>
    obtain ⟨rfl, rfl, rfl⟩ := accessed
    exact shape.cut
  | takePoisonNext entry =>
    obtain ⟨rfl, rfl, rfl⟩ := accessed
    exact circular_store shape (fresh entry rfl) _
  | takePoisonPrev entry =>
    obtain ⟨rfl, rfl, rfl⟩ := accessed
    exact circular_store shape (fresh entry rfl) _
  | _ => cases accessed

/-- The answer of an access is the one that the queue gives at that instant. -/
theorem Shape.answer {after : Links Address} {next : Phase} {given : Answer}
    (shape : Shape links pend queue phase) (present : ∀ node ∈ queue, node ≠ null)
    (accessed : phase.access links pend = some (after, next, some given)) :
    atomicQueue.step queue given = some (given.settle queue) := by
  cases phase with
  | addLink new prev =>
    obtain ⟨rfl, rfl, rfl⟩ := accessed
    rfl
  | takeEmpty =>
    have ring : Circular links pend queue := shape
    simp only [Phase.access] at accessed
    split at accessed <;> rename_i read
    · obtain ⟨rfl, rfl, rfl⟩ := accessed
      exact if_pos ((listEmpty_iff ring).mp read)
    · cases accessed
  | takeTest entry =>
    have real := present entry (List.mem_of_mem_head? shape.2)
    simp only [Phase.access, if_neg real] at accessed
    cases accessed
  | takeLink entry prev next =>
    obtain ⟨rfl, rfl, rfl⟩ := accessed
    obtain ⟨before, ring, front, -⟩ := shape
    obtain ⟨rest, rfl⟩ := List.head?_eq_some_iff.mp front
    exact if_pos rfl
  | _ => cases accessed

/-- The node that an access takes is the front of the queue. -/
theorem Shape.front {after : Links Address} {next : Phase} {entry : Address}
    (shape : Shape links pend queue phase)
    (accessed : phase.access links pend = some (after, next, some (.took (some entry)))) :
    queue.head? = some entry := by
  cases phase with
  | takeLink held prev next =>
    obtain ⟨rfl, rfl, rfl⟩ := accessed
    obtain ⟨before, ring, front, -⟩ := shape
    exact front
  | takeEmpty =>
    simp only [Phase.access] at accessed
    split at accessed <;> cases accessed
  | takeTest held =>
    simp only [Phase.access] at accessed
    split at accessed <;> cases accessed
  | _ => cases accessed

/-- What a call owes after an access is what it owed before or its answer. -/
theorem Phase.access_owes {after : Links Address} {next : Phase} {answer : Option Answer}
    (accessed : phase.access links pend = some (after, next, answer)) :
    next.owes.toList = phase.owes.toList ++ answer.toList := by
  cases phase <;> simp only [Phase.access] at accessed <;> try split at accessed
  all_goals first | (obtain ⟨rfl, rfl, rfl⟩ := accessed; rfl) | cases accessed

/-- A node that a call holds after an access it held before, or the queue has just given it. -/
theorem Phase.access_holds {after : Links Address} {next : Phase} {answer : Option Answer}
    (accessed : phase.access links pend = some (after, next, answer)) :
    ∀ held ∈ next.holds,
      (held ∈ phase.holds ∧ answer = none) ∨ answer = some (.took (some held)) := by
  cases phase <;> simp only [Phase.access] at accessed <;> try split at accessed
  all_goals first
    | (obtain ⟨rfl, rfl, rfl⟩ := accessed; simp [Phase.holds])
    | cases accessed

/-- A node that an access adds to the queue was held by the call. -/
theorem Phase.access_added {after : Links Address} {next : Phase} {new : Address}
    (accessed : phase.access links pend = some (after, next, some (.added new))) :
    new ∈ phase.holds := by
  cases phase <;> simp only [Phase.access] at accessed <;> try split at accessed
  all_goals first
    | (obtain ⟨rfl, rfl, rfl⟩ := accessed; rfl)
    | cases accessed

/-- Accesses are made inside the critical section only. -/
theorem Phase.access_inside {after : Links Address} {next : Phase} {answer : Option Answer}
    (accessed : phase.access links pend = some (after, next, answer)) :
    phase.inside = true ∧ next.inside = true := by
  cases phase <;> simp only [Phase.access] at accessed <;> try split at accessed
  all_goals first
    | (obtain ⟨rfl, rfl, rfl⟩ := accessed; exact ⟨rfl, rfl⟩)
    | cases accessed

/-- What an answer leaves in the queue was there or has just been added. -/
theorem mem_settle {answer : Option Answer}
    (inside : node ∈ answer.elim queue (Answer.settle queue)) :
    node ∈ queue ∨ answer = some (.added node) := by
  rcases answer with _ | new | (_ | entry) | empty
  · exact .inl inside
  · rcases List.mem_append.mp inside with was | same
    · exact .inl was
    · exact .inr (by rw [List.mem_singleton.mp same])
  · exact .inl inside
  · exact .inl (List.mem_of_mem_tail inside)
  · exact .inl inside

/-- The next links spell the queue even where prev links do not. -/
def Forward (links : Links Address) (pend : Address) (queue : List Address) : Prop :=
  ∃ before : Links Address, Circular before pend queue ∧
    ∀ node ∈ pend :: queue, (links node).next = (before node).next

/-- Inside every critical section, between any two accesses, the next links spell the queue. -/
theorem Shape.forward (shape : Shape links pend queue phase)
    (fresh : ∀ held ∈ phase.holds, held ∉ pend :: queue) : Forward links pend queue := by
  have whole (ring : Circular links pend queue) : Forward links pend queue :=
    ⟨links, ring, fun _ _ => rfl⟩
  cases phase with
  | addStoreHead new prev => exact whole shape.1
  | addStoreNext new prev =>
    obtain ⟨before, ring, -, rfl⟩ := shape
    exact ⟨before, ring, fun node _ => Links.setPrev_next ..⟩
  | addStorePrev new prev =>
    obtain ⟨before, ring, -, rfl⟩ := shape
    refine ⟨before, ring, fun node inside => ?_⟩
    have apart : node ≠ new := fun same => fresh new rfl (same ▸ inside)
    rw [Links.setNext_next, if_neg apart, Links.setPrev_next]
  | addLink new prev =>
    obtain ⟨before, ring, -, rfl⟩ := shape
    refine ⟨before, ring, fun node inside => ?_⟩
    have apart : node ≠ new := fun same => fresh new rfl (same ▸ inside)
    rw [Links.setPrev_next, Links.setNext_next, if_neg apart, Links.setPrev_next]
  | takeFirst => exact whole shape.1
  | takeTest entry => exact whole shape.1
  | takeLoadPrev entry => exact whole shape.1
  | takeLoadNext entry prev => exact whole shape.1
  | takeStorePrev entry prev next => exact whole shape.1
  | takeLink entry prev next =>
    obtain ⟨before, ring, -, -, -, rfl⟩ := shape
    exact ⟨before, ring, fun node _ => Links.setPrev_next ..⟩
  | _ => exact whole shape

/-- `list_for_each` over the next links visits the queue. -/
theorem Forward.visits (forward : Forward links pend queue) {turns : ℕ}
    (enough : queue.length < turns) : listForEach links pend turns = queue := by
  obtain ⟨before, ring, same⟩ := forward
  -- The ring with the next links of the memory and the prev links of the ring.
  let mixed : Links Address := fun node => ⟨(before node).prev, (links node).next⟩
  have ring' : Circular mixed pend queue :=
    ring.congr fun node inside => Link.same rfl (same node inside)
  exact ring'.walk_next enough

/-- `list_empty` on the next links tells whether the queue is empty. -/
theorem Forward.empty (forward : Forward links pend queue) :
    listEmpty links pend = queue.isEmpty := by
  obtain ⟨before, ring, same⟩ := forward
  have read : listEmpty links pend = listEmpty before pend := by
    rw [listEmpty, same pend List.mem_cons_self, listEmpty]
  rw [read, Bool.eq_iff_iff, listEmpty_iff ring, List.isEmpty_iff]

/-! ## Any number of threads -/

/-- The memory, the lock and the threads, with the history of the answers. -/
structure State (ω : Type*) where
  /-- The memory of list nodes. -/
  links : Links Address
  /-- Who holds `pendlock`. -/
  pendlock : Option ω
  /-- Where each thread is. -/
  phase : ω → Phase
  /-- The queue that the answers so far leave. -/
  queue : List Address
  /-- The answers in the order of their instants. -/
  answers : List (ω × Answer)
  /-- The answers in the order in which the calls returned with them. -/
  returned : List (ω × Answer)

/-- One atomic step of a thread, or of the rest of the program. -/
inductive Label (ω : Type*)
  /-- A thread calls `task_pending_add`. -/
  | add (thread : ω) (node : Address)
  /-- A thread calls `task_pending_acquire`. -/
  | acquire (thread : ω)
  /-- A thread locks `pendlock`. -/
  | lock (thread : ω)
  /-- A thread makes its next access. -/
  | access (thread : ω)
  /-- A thread unlocks `pendlock` and returns. -/
  | unlock (thread : ω)
  /-- A thread reads `list_empty` of the pending head, with no lock. -/
  | poll (thread : ω)
  /-- Other code stores into a node. -/
  | store (node : Address) (link : Link Address)

section Threads

variable {ω : Type*} [DecidableEq ω]

/-- The node is the head's, the queue's or a call's. -/
def State.Owns (state : State ω) (pend node : Address) : Prop :=
  node ∈ pend :: state.queue ∨ ∃ thread, node ∈ (state.phase thread).holds

/-- Ownership is decided by looking at the queue and the calls. -/
instance [Fintype ω] (state : State ω) (pend node : Address) : Decidable (state.Owns pend node) :=
  inferInstanceAs (Decidable (_ ∨ _))

/-- The phase behind the lock. -/
def Phase.locked : Phase → Option Phase
  | addLock node => some (addLoad node)
  | takeLock => some takeEmpty
  | _ => none

/-- What a call returns with when it unlocks. -/
def Phase.result : Phase → Option Answer
  | addUnlock node => some (.added node)
  | takeUnlock result => some (.took result)
  | _ => none

/-- The guarded step. A node that is added came from `malloc`, so nobody owns it and it is not
null; other code stores into nodes that nobody owns. -/
def step [Fintype ω] (pend : Address) (state : State ω) : Label ω → Option (State ω)
  | .add thread node =>
    if state.phase thread = .outside ∧ node ≠ null ∧ ¬ state.Owns pend node then
      some { state with phase := update state.phase thread (.addLock node) }
    else none
  | .acquire thread =>
    if state.phase thread = .outside then
      some { state with phase := update state.phase thread .takeLock }
    else none
  | .lock thread =>
    match state.pendlock, (state.phase thread).locked with
    | none, some phase =>
      some { state with pendlock := some thread, phase := update state.phase thread phase }
    | _, _ => none
  | .access thread =>
    match (state.phase thread).access state.links pend with
    | some (links, phase, answer) =>
      some { state with
        links
        phase := update state.phase thread phase
        queue := answer.elim state.queue (Answer.settle state.queue)
        answers := state.answers ++ answer.toList.map (thread, ·) }
    | none => none
  | .unlock thread =>
    match (state.phase thread).result with
    | some answer =>
      some { state with
        pendlock := none
        phase := update state.phase thread .outside
        returned := state.returned ++ [(thread, answer)] }
    | none => none
  | .poll thread =>
    if state.phase thread = .outside then
      let answer := Answer.saw (listEmpty state.links pend)
      some { state with
        answers := state.answers ++ [(thread, answer)]
        returned := state.returned ++ [(thread, answer)] }
    else none
  | .store node link =>
    if ¬ state.Owns pend node then some { state with links := update state.links node link }
    else none

/-- `task_pending_init` has made the list; any number of threads use it. -/
def machine [Fintype ω] (pend : Address) : Machine (State ω) (Label ω) where
  initial state := ∃ links, state =
    ⟨taskPendingInit links pend, none, fun _ => .outside, [], [], []⟩
  step := step pend

variable {state next : State ω}

/-- Everything a step can do. -/
inductive Moves (pend : Address) (state : State ω) : Label ω → State ω → Prop
  /-- A call of `task_pending_add`. -/
  | add {thread : ω} {node : Address} (place : state.phase thread = .outside) (real : node ≠ null)
    (alone : ¬ state.Owns pend node) :
    Moves pend state (.add thread node)
      { state with phase := update state.phase thread (.addLock node) }
  /-- A call of `task_pending_acquire`. -/
  | acquire {thread : ω} (place : state.phase thread = .outside) :
    Moves pend state (.acquire thread)
      { state with phase := update state.phase thread .takeLock }
  /-- The lock is taken. -/
  | lock {thread : ω} {phase : Phase} (free : state.pendlock = none)
    (waits : (state.phase thread).locked = some phase) :
    Moves pend state (.lock thread)
      { state with pendlock := some thread, phase := update state.phase thread phase }
  /-- An access is made. -/
  | access {thread : ω} {links : Links Address} {phase : Phase} {answer : Option Answer}
    (accessed : (state.phase thread).access state.links pend = some (links, phase, answer)) :
    Moves pend state (.access thread)
      { state with
        links
        phase := update state.phase thread phase
        queue := answer.elim state.queue (Answer.settle state.queue)
        answers := state.answers ++ answer.toList.map (thread, ·) }
  /-- The lock is given back. -/
  | unlock {thread : ω} {answer : Answer} (ends : (state.phase thread).result = some answer) :
    Moves pend state (.unlock thread)
      { state with
        pendlock := none
        phase := update state.phase thread .outside
        returned := state.returned ++ [(thread, answer)] }
  /-- The head is read without the lock. -/
  | poll {thread : ω} (place : state.phase thread = .outside) :
    Moves pend state (.poll thread)
      { state with
        answers := state.answers ++ [(thread, .saw (listEmpty state.links pend))]
        returned := state.returned ++ [(thread, .saw (listEmpty state.links pend))] }
  /-- Other code stores into a node. -/
  | store {node : Address} {link : Link Address} (alone : ¬ state.Owns pend node) :
    Moves pend state (.store node link) { state with links := update state.links node link }

/-- A step is one of the moves. -/
theorem step_moves [Fintype ω] {label : Label ω} (stepped : step pend state label = some next) :
    Moves pend state label next := by
  cases label with
  | add thread node =>
    simp only [step] at stepped
    split at stepped
    · rename_i guard
      exact Option.some.inj stepped ▸ .add guard.1 guard.2.1 guard.2.2
    · cases stepped
  | acquire thread =>
    simp only [step] at stepped
    split at stepped
    · rename_i place
      exact Option.some.inj stepped ▸ .acquire place
    · cases stepped
  | lock thread =>
    simp only [step] at stepped
    split at stepped
    · rename_i free waits
      exact Option.some.inj stepped ▸ .lock free waits
    · cases stepped
  | access thread =>
    simp only [step] at stepped
    split at stepped
    · rename_i accessed
      exact Option.some.inj stepped ▸ .access accessed
    · cases stepped
  | unlock thread =>
    simp only [step] at stepped
    split at stepped
    · rename_i ends
      exact Option.some.inj stepped ▸ .unlock ends
    · cases stepped
  | poll thread =>
    simp only [step] at stepped
    split at stepped
    · rename_i place
      exact Option.some.inj stepped ▸ .poll place
    · cases stepped
  | store node link =>
    simp only [step] at stepped
    split at stepped
    · rename_i alone
      exact Option.some.inj stepped ▸ .store alone
    · cases stepped

/-! ## The invariant -/

/-- What holds between the memory, the threads and the queue. -/
structure Sound (pend : Address) (state : State ω) : Prop where
  /-- The thread inside the critical section is the one with the lock. -/
  exclusive : ∀ thread, (state.phase thread).inside = true ↔ state.pendlock = some thread
  /-- With the lock free, the list is a ring of the queue. -/
  free : state.pendlock = none → Circular state.links pend state.queue
  /-- With the lock held, the memory has the shape its holder has made. -/
  shape : ∀ thread, state.pendlock = some thread →
    Shape state.links pend state.queue (state.phase thread)
  /-- A node that a call holds is not on the list, and not null. -/
  aside : ∀ thread, ∀ held ∈ (state.phase thread).holds, held ∉ pend :: state.queue ∧ held ≠ null
  /-- A node is held by one call. -/
  apart : ∀ first second held, held ∈ (state.phase first).holds →
    held ∈ (state.phase second).holds → first = second
  /-- Queued nodes are not null. -/
  present : ∀ node ∈ state.queue, node ≠ null

/-- The list is made empty. -/
theorem sound_initial [Fintype ω] (begins : (machine pend).initial state) : Sound pend state := by
  obtain ⟨links, rfl⟩ := begins
  exact ⟨fun _ => ⟨nofun, nofun⟩, fun _ => initListHead_circular _ _, nofun, nofun, nofun, nofun⟩

/-- Waiting for the lock and having it differ in nothing else. -/
theorem Phase.locked_keeps {phase next : Phase} (waits : phase.locked = some next) :
    next.inside = true ∧ next.holds = phase.holds ∧ phase.owes = next.owes ∧
      ∀ links pend queue, Circular links pend queue → Shape links pend queue next := by
  cases phase <;> simp only [Phase.locked] at waits <;> cases waits <;>
    exact ⟨rfl, rfl, rfl, fun _ _ _ ring => ring⟩

/-- A call that is about to unlock owes its result and has put the ring together again. -/
theorem Phase.result_owes {phase : Phase} {answer : Answer} (ends : phase.result = some answer) :
    phase.inside = true ∧ phase.owes = some answer ∧
      ∀ links pend queue, Shape links pend queue phase → Circular links pend queue := by
  cases phase <;> simp only [Phase.result] at ends <;> cases ends <;>
    exact ⟨rfl, rfl, fun _ _ _ ring => ring⟩

/-- The lock is still the insider's when a thread stays inside or outside. -/
theorem Sound.turn_exclusive {phase : Phase} {thread : ω} (sound : Sound pend state)
    (same : phase.inside = (state.phase thread).inside) (other : ω) :
    (update state.phase thread phase other).inside = true ↔ state.pendlock = some other := by
  by_cases acts : other = thread
  · rw [acts, update_self, same, sound.exclusive]
  · rw [update_of_ne acts, sound.exclusive]

/-- A thread outside the critical section leaves the shape that its holder has made. -/
theorem Sound.turn_shape {phase : Phase} {thread : ω} (sound : Sound pend state)
    (outside : (state.phase thread).inside = false) (other : ω)
    (held : state.pendlock = some other) :
    Shape state.links pend state.queue (update state.phase thread phase other) := by
  have acts : other ≠ thread := by
    rintro rfl
    rw [(sound.exclusive other).mpr held] at outside
    cases outside
  rw [update_of_ne acts]
  exact sound.shape other held

/-- Held nodes are still aside when a thread puts only its own node into the queue. -/
theorem Sound.turn_aside {phase : Phase} {thread : ω} {queue : List Address}
    (sound : Sound pend state)
    (source : ∀ node ∈ queue, node ∈ state.queue ∨ node ∈ (state.phase thread).holds)
    (mine : ∀ held ∈ phase.holds, held ∉ pend :: queue ∧ held ≠ null) (other : ω) (held : Address)
    (inside : held ∈ (update state.phase thread phase other).holds) :
    held ∉ pend :: queue ∧ held ≠ null := by
  by_cases acts : other = thread
  · rw [acts, update_self] at inside
    exact mine held inside
  · rw [update_of_ne acts] at inside
    obtain ⟨offList, real⟩ := sound.aside other held inside
    refine ⟨fun onList => ?_, real⟩
    rcases List.mem_cons.mp onList with isHead | queued
    · exact offList (isHead ▸ List.mem_cons_self)
    · rcases source held queued with was | own
      · exact offList (List.mem_cons_of_mem pend was)
      · exact acts (sound.apart other thread held inside own)

/-- A node is still held by one call when a call holds what it held before or what nobody held. -/
theorem Sound.turn_apart {phase : Phase} {thread : ω} (sound : Sound pend state)
    (source : ∀ held ∈ phase.holds, held ∈ (state.phase thread).holds ∨
      ∀ other, held ∉ (state.phase other).holds) (first second : ω) (held : Address)
    (left : held ∈ (update state.phase thread phase first).holds)
    (right : held ∈ (update state.phase thread phase second).holds) : first = second := by
  by_cases isFirst : first = thread <;> by_cases isSecond : second = thread
  · rw [isFirst, isSecond]
  · rw [isFirst, update_self] at left
    rw [update_of_ne isSecond] at right
    rcases source held left with was | nobody
    · exact isFirst.trans (sound.apart thread second held was right)
    · exact absurd right (nobody second)
  · rw [update_of_ne isFirst] at left
    rw [isSecond, update_self] at right
    rcases source held right with was | nobody
    · exact (sound.apart first thread held left was).trans isSecond.symm
    · exact absurd left (nobody first)
  · rw [update_of_ne isFirst] at left
    rw [update_of_ne isSecond] at right
    exact sound.apart first second held left right

omit [DecidableEq ω] in
/-- Whoever holds the lock, the next links spell the queue. -/
theorem Sound.forward (sound : Sound pend state) : Forward state.links pend state.queue := by
  cases held : state.pendlock with
  | none => exact ⟨state.links, sound.free held, fun _ _ => rfl⟩
  | some thread =>
    exact (sound.shape thread held).forward fun node inside => (sound.aside thread node inside).1

/-- An access keeps the invariant. -/
theorem Sound.access {thread : ω} {links : Links Address} {phase : Phase} {answer : Option Answer}
    (sound : Sound pend state)
    (accessed : (state.phase thread).access state.links pend = some (links, phase, answer)) :
    Sound pend { state with
      links
      phase := update state.phase thread phase
      queue := answer.elim state.queue (Answer.settle state.queue)
      answers := state.answers ++ answer.toList.map (thread, ·) } := by
  obtain ⟨was, inside⟩ := Phase.access_inside accessed
  have held := (sound.exclusive thread).mp was
  have shape := sound.shape thread held
  have source : ∀ node ∈ answer.elim state.queue (Answer.settle state.queue),
      node ∈ state.queue ∨ node ∈ (state.phase thread).holds := by
    intro node queued
    refine (mem_settle queued).imp_right ?_
    rintro rfl
    exact Phase.access_added accessed
  have fresh := fun node inside => (sound.aside thread node inside).1
  have gains : ∀ gained ∈ phase.holds,
      (gained ∈ (state.phase thread).holds ∧ answer = none) ∨
        answer = some (.took (some gained)) ∧ gained ∈ state.queue ∧
          gained ∉ pend :: state.queue.tail := by
    intro gained inside
    refine (Phase.access_holds accessed gained inside).imp_right ?_
    rintro rfl
    have front := shape.front accessed
    obtain ⟨before, ring, -⟩ := shape.forward fresh
    obtain ⟨rest, whole⟩ := List.head?_eq_some_iff.mp front
    have distinct := ring.distinct
    rw [whole] at distinct
    have off : gained ∉ pend :: rest :=
      (List.nodup_cons.mp ((List.Perm.swap gained pend rest).nodup_iff.mp distinct)).1
    exact ⟨rfl, whole ▸ List.mem_cons_self, whole ▸ off⟩
  refine ⟨sound.turn_exclusive (inside.trans was.symm), fun free => ?_, ?_,
    sound.turn_aside source ?_, sound.turn_apart ?_, ?_⟩
  · cases held.symm.trans free
  · intro other same
    obtain rfl := Option.some.inj (held.symm.trans same)
    simpa only [update_self] using shape.access sound.present fresh accessed
  · intro gained inside
    rcases gains gained inside with ⟨was, rfl⟩ | ⟨rfl, queued, off⟩
    · exact sound.aside thread gained was
    · exact ⟨off, sound.present gained queued⟩
  · intro gained inside
    refine (gains gained inside).imp And.left ?_
    rintro ⟨-, queued, -⟩ other within
    exact (sound.aside other gained within).1 (List.mem_cons_of_mem pend queued)
  · intro node queued
    rcases source node queued with inQueue | own
    · exact sound.present node inQueue
    · exact (sound.aside thread node own).2

/-- Every step keeps the invariant. -/
theorem Sound.moves {label : Label ω} (sound : Sound pend state)
    (moves : Moves pend state label next) : Sound pend next := by
  cases moves with
  | @add thread node place real alone =>
    obtain ⟨offQueue, nobody⟩ := not_or.mp alone
    have nobody := not_exists.mp nobody
    have outside : (state.phase thread).inside = false := by rw [place]; rfl
    refine ⟨sound.turn_exclusive outside.symm, sound.free, sound.turn_shape outside,
      sound.turn_aside (fun _ => .inl) ?_, sound.turn_apart ?_, sound.present⟩
    · rintro _ ⟨⟩
      exact ⟨offQueue, real⟩
    · rintro _ ⟨⟩
      exact .inr nobody
  | @acquire thread place =>
    have outside : (state.phase thread).inside = false := by rw [place]; rfl
    exact ⟨sound.turn_exclusive outside.symm, sound.free, sound.turn_shape outside,
      sound.turn_aside (fun _ => .inl) fun _ => nofun, sound.turn_apart fun _ => nofun,
      sound.present⟩
  | @lock thread phase free waits =>
    obtain ⟨inside, holds, -, shaped⟩ := Phase.locked_keeps waits
    refine ⟨?_, nofun, ?_, sound.turn_aside (fun _ => .inl) (holds ▸ sound.aside thread),
      sound.turn_apart fun held was => .inl (holds ▸ was), sound.present⟩
    · intro other
      by_cases acts : other = thread
      · simp [acts, inside]
      · have outside := sound.exclusive other
        simpa [update_of_ne acts, free, Ne.symm acts] using outside
    · intro other held
      obtain rfl := Option.some.inj held
      simpa only [update_self] using shaped _ _ _ (sound.free free)
  | access accessed => exact sound.access accessed
  | @unlock thread answer ends =>
    obtain ⟨was, -, whole⟩ := Phase.result_owes ends
    have held := (sound.exclusive thread).mp was
    refine ⟨?_, fun _ => whole _ _ _ (sound.shape thread held), nofun,
      sound.turn_aside (fun _ => .inl) fun _ => nofun, sound.turn_apart fun _ => nofun,
      sound.present⟩
    intro other
    by_cases acts : other = thread
    · simp [acts, Phase.inside]
    · have outside := sound.exclusive other
      simpa [update_of_ne acts, held, Ne.symm acts] using outside
  | poll place => exact ⟨sound.exclusive, sound.free, sound.shape, sound.aside, sound.apart,
      sound.present⟩
  | @store node link alone =>
    obtain ⟨offQueue, nobody⟩ := not_or.mp alone
    refine ⟨sound.exclusive, fun free => circular_store (sound.free free) offQueue link, ?_,
      sound.aside, sound.apart, sound.present⟩
    intro thread held
    apply (sound.shape thread held).store offQueue
    rintro other inside rfl
    exact nobody ⟨thread, inside⟩

/-! ## The answers -/

/-- The answers so far are those of one queue that takes every call at its instant. -/
def Legal (state : State ω) : Prop :=
  atomicQueue.run [] (state.answers.map Prod.snd) = some state.queue

/-- Every call returns with the answer it gave, and a call that has not returned yet has given at
most one. -/
def Honest (state : State ω) : Prop :=
  ∀ thread, state.answers.filter (·.1 = thread) =
    state.returned.filter (·.1 = thread) ++ (state.phase thread).owes.toList.map (thread, ·)

omit [DecidableEq ω] in
/-- One more answer is legal when the queue gives it. -/
theorem Legal.answer {thread : ω} {answer : Answer} {queue : List Address} (legal : Legal state)
    (given : atomicQueue.step state.queue answer = some queue) :
    atomicQueue.run [] ((state.answers ++ [(thread, answer)]).map Prod.snd) = some queue := by
  rw [List.map_append]
  have last : atomicQueue.run state.queue [answer] = some queue :=
    atomicQueue.run_cons.mpr ⟨queue, given, rfl⟩
  exact atomicQueue.run_append.mpr ⟨state.queue, legal, last⟩

/-- Every step keeps the answers legal. -/
theorem Legal.moves {label : Label ω} (legal : Legal state) (sound : Sound pend state)
    (moves : Moves pend state label next) : Legal next := by
  cases moves with
  | @access thread links phase answer accessed =>
    have held := (sound.exclusive thread).mp (Phase.access_inside accessed).1
    cases answer with
    | none => simpa [Legal] using legal
    | some given =>
      exact legal.answer ((sound.shape thread held).answer sound.present accessed)
  | poll place =>
    apply legal.answer
    rw [sound.forward.empty]
    exact if_pos rfl
  | _ => exact legal

/-- A thread's turn keeps the calls honest when it answers and returns what it owes. -/
theorem Honest.turn {thread : ω} {phase : Phase} {given done : List Answer}
    (honest : Honest state)
    (balance : (state.phase thread).owes.toList ++ given = done ++ phase.owes.toList) (other : ω) :
    (state.answers ++ given.map (thread, ·)).filter (·.1 = other) =
      (state.returned ++ done.map (thread, ·)).filter (·.1 = other) ++
        (update state.phase thread phase other).owes.toList.map (other, ·) := by
  rw [List.filter_append, List.filter_append, honest other, List.append_assoc, List.append_assoc]
  congr 1
  by_cases acts : thread = other
  · subst acts
    have own : ∀ answers : List Answer,
        (answers.map (thread, ·)).filter (fun pair => decide (pair.1 = thread)) =
          answers.map (thread, ·) := by simp
    rw [own, own, update_self, ← List.map_append, ← List.map_append, balance]
  · have none : ∀ answers : List Answer,
        (answers.map (thread, ·)).filter (fun pair => decide (pair.1 = other)) = [] := by
      simp [acts]
    rw [none, none, update_of_ne (Ne.symm acts), List.append_nil, List.nil_append]

/-- Every step keeps the calls honest. -/
theorem Honest.moves {label : Label ω} (honest : Honest state)
    (moves : Moves pend state label next) : Honest next := by
  intro other
  cases moves with
  | @add thread node place real alone =>
    simpa using @Honest.turn _ _ _ thread (.addLock node) [] [] honest (by rw [place]; rfl) other
  | @acquire thread place =>
    simpa using @Honest.turn _ _ _ thread .takeLock [] [] honest (by rw [place]; rfl) other
  | @lock thread phase free waits =>
    obtain ⟨-, -, owes, -⟩ := Phase.locked_keeps waits
    simpa using @Honest.turn _ _ _ thread phase [] [] honest (by simp [owes]) other
  | @access thread links phase answer accessed =>
    have owes := Phase.access_owes accessed
    simpa using @Honest.turn _ _ _ thread phase answer.toList [] honest owes.symm other
  | @unlock thread answer ends =>
    obtain ⟨-, owes, -⟩ := Phase.result_owes ends
    simpa using @Honest.turn _ _ _ thread .outside [] [answer] honest (by rw [owes]; rfl) other
  | @poll thread place =>
    have read := Answer.saw (listEmpty state.links pend)
    have turned := @Honest.turn _ _ _ thread .outside [.saw (listEmpty state.links pend)]
      [.saw (listEmpty state.links pend)] honest (by rw [place]; rfl) other
    rwa [← place, update_eq_self] at turned
  | store alone => exact honest other

/-- **The pending list is linearizable, and its unlocked reader sees it at every instant.** In
every interleaving of single accesses by any number of threads: the answers are those of one queue
that takes every call at once; every call returns with its answer; the next links spell the queue
between any two accesses, so `list_empty` without the lock tells whether it is empty then; and with
the lock free the list is a ring of the queue. -/
theorem pending_list_linearizable [Fintype ω] (reached : (machine pend).Reachable state) :
    atomicQueue.run [] (state.answers.map Prod.snd) = some state.queue ∧
    (∀ thread, state.answers.filter (·.1 = thread) = state.returned.filter (·.1 = thread) ++
      (state.phase thread).owes.toList.map (thread, ·)) ∧
    (∀ turns, state.queue.length < turns → listForEach state.links pend turns = state.queue) ∧
    listEmpty state.links pend = state.queue.isEmpty ∧
    (state.pendlock = none → Circular state.links pend state.queue) := by
  have invariant : Sound pend state ∧ Legal state ∧ Honest state := by
    apply Machine.Reachable.invariant _ (fun state => Sound pend state ∧ Legal state ∧ Honest state)
      _ _ reached
    · intro start begins
      refine ⟨sound_initial begins, ?_, ?_⟩ <;> obtain ⟨links, rfl⟩ := begins
      · rfl
      · exact fun thread => rfl
    · rintro state label next ⟨sound, legal, honest⟩ stepped
      have moves := step_moves stepped
      exact ⟨sound.moves moves, legal.moves sound moves, honest.moves moves⟩
  obtain ⟨sound, legal, honest⟩ := invariant
  exact ⟨legal, honest, fun turns enough => sound.forward.visits enough, sound.forward.empty,
    sound.free⟩

/-- One thread adds a node, another takes it, a third has stored into the head and not linked its
own node yet; a reader looks before, in between and now. -/
def glances {ω : Type*} (first second third reader : ω) : List (Label ω) :=
  [.add first 2, .lock first, .access first, .access first, .access first, .access first,
    .access first, .unlock first, .poll reader, .acquire second, .lock second, .access second,
    .access second, .access second, .access second, .access second, .access second, .poll reader,
    .access second, .poll reader, .access second, .access second, .unlock second, .add third 3,
    .lock third, .access third, .access third, .poll reader]

/-- The reader sees the first node until the head is linked past it, and not the second one while
only the head's prev link names it. -/
theorem glances_linearizable : ∃ state : State (Fin 4), (state.links 1).prev = 3 ∧
    state.answers = [(0, .added 2), (3, .saw false), (3, .saw false), (1, .took (some 2)),
      (3, .saw true), (3, .saw true)] ∧
    atomicQueue.run [] (state.answers.map Prod.snd) = some state.queue ∧
    listEmpty state.links 1 = state.queue.isEmpty := by
  let start : State (Fin 4) :=
    ⟨taskPendingInit (fun _ => ⟨null, null⟩) 1, none, fun _ => .outside, [], [], []⟩
  have ends : ((machine 1).run start (glances 0 1 2 3)).map
      (fun state => ((state.links 1).prev, state.answers)) =
        some (3, [(0, .added 2), (3, .saw false), (3, .saw false), (1, .took (some 2)),
          (3, .saw true), (3, .saw true)]) := by decide +kernel
  obtain ⟨state, ran, seen⟩ := Option.map_eq_some_iff.mp ends
  obtain ⟨head, answers⟩ := Prod.mk.inj seen
  have reached : (machine 1).Reachable state := ⟨start, glances 0 1 2 3, ⟨_, rfl⟩, ran⟩
  obtain ⟨legal, -, -, empty, -⟩ := pending_list_linearizable reached
  exact ⟨state, head, answers, legal, empty⟩

end Threads

end SysServer.Stores
