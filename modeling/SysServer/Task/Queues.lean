import SysServer.Inc.Dlist
import SysServer.Library.Fifo
import SysServer.Library.Machine

/-!
# The pending and schedule lists

The critical sections of `task_pending_add`, `task_pending_acquire`, `task_schedule_add` and
`task_schedule_acquire` as stores into one memory of list nodes, and the two queues that this
memory stands for. The memory and the queues take every operation side by side: both heads root
well-formed rings that share no node, each ring spells its queue, and each acquisition returns
the front of its queue. Locks and semaphores are left to the models that use the queues; a
critical section is one operation here.
-/

namespace SysServer

open Library Function

/-- `task_pending_init` — clear the pending head and make it an empty list. -/
def taskPendingInit (links : Links Address) (pend : Address) : Links Address :=
  initListHead (update links pend ⟨null, null⟩) pend

/-- `task_sched_list_init` — make the block that `malloc` gave an empty list, or fail. -/
def taskSchedListInit (links : Links Address) : Option Address → Option (Links Address × Address)
  | none => none
  | some schtask => some (initListHead (update links schtask ⟨null, null⟩) schtask, schtask)

/-- Cut out the first entry, the body that both acquisitions share between lock and unlock:
nothing is taken from an empty list or when the first entry's record is the null pointer. -/
def acquireFirst (links : Links Address) (head : Address) : Links Address × Option Address :=
  if listEmpty links head then (links, none)
  else if listFirstEntry links head = null then (links, none)
  else (listDel links (listFirstEntry links head), some (listFirstEntry links head))

/-- `task_pending_add` — append a pending node. -/
def taskPendingAdd (links : Links Address) (pend pendnew : Address) : Links Address :=
  listAddTail links pendnew pend

/-- `task_pending_acquire` — take the first pending node. -/
def taskPendingAcquire (links : Links Address) (pend : Address) : Links Address × Option Address :=
  acquireFirst links pend

/-- `task_schedule_add` — append a task node. -/
def taskScheduleAdd (links : Links Address) (tasknode schtask : Address) : Links Address :=
  listAddTail links tasknode schtask

/-- `task_schedule_acquire` — take the first task node. -/
def taskScheduleAcquire (links : Links Address) (tasksch : Address) :
    Links Address × Option Address := acquireFirst links tasksch

/-- The heads of the two lists, which lie in different blocks. -/
structure Heads where
  /-- `mtask->pend.pendlist`. -/
  pend : Address
  /-- `mtask->schtask->tasklist`. -/
  schtask : Address
  /-- The blocks differ. -/
  apart : pend ≠ schtask

/-- One critical section, or a store into memory that the lists do not own. -/
inductive ListOp where
  /-- `task_pending_add` of a node. -/
  | pendingAdd (node : Address)
  /-- `task_pending_acquire`. -/
  | pendingAcquire
  /-- `task_schedule_add` of a node. -/
  | scheduleAdd (node : Address)
  /-- `task_schedule_acquire`. -/
  | scheduleAcquire
  /-- Any other use of a node's memory, `free` and the owner's writes included. -/
  | overwrite (node : Address) (link : Link Address)

/-- An operation on the memory, and what it returns. -/
def ListOp.perform (heads : Heads) (links : Links Address) :
    ListOp → Links Address × Option Address
  | .pendingAdd node => (taskPendingAdd links heads.pend node, none)
  | .pendingAcquire => taskPendingAcquire links heads.pend
  | .scheduleAdd node => (taskScheduleAdd links node heads.schtask, none)
  | .scheduleAcquire => taskScheduleAcquire links heads.schtask
  | .overwrite node link => (update links node link, none)

/-- The queues that the lists stand for, and the nodes acquired whose memory has not been given
to a list again. -/
structure Queues where
  /-- Pending nodes in order of arrival. -/
  pending : List Address
  /-- Task nodes in order of arrival. -/
  scheduled : List Address
  /-- Acquired nodes. -/
  acquired : List Address
  deriving DecidableEq

/-- An operation on the queues, and what it returns. -/
def Queues.perform (queues : Queues) : ListOp → Queues × Option Address
  | .pendingAdd node =>
    ({ queues with
        pending := Fifo.push queues.pending node
        acquired := queues.acquired.filter (· ≠ node) }, none)
  | .pendingAcquire =>
    match Fifo.pop queues.pending with
    | none => (queues, none)
    | some (node, rest) =>
      ({ queues with pending := rest, acquired := node :: queues.acquired }, some node)
  | .scheduleAdd node =>
    ({ queues with
        scheduled := Fifo.push queues.scheduled node
        acquired := queues.acquired.filter (· ≠ node) }, none)
  | .scheduleAcquire =>
    match Fifo.pop queues.scheduled with
    | none => (queues, none)
    | some (node, rest) =>
      ({ queues with scheduled := rest, acquired := node :: queues.acquired }, some node)
  | .overwrite _ _ => (queues, none)

/-- The node belongs to a list: it is a head or it is queued. -/
def Queues.Owns (queues : Queues) (heads : Heads) (node : Address) : Prop :=
  node ∈ heads.pend :: queues.pending ∨ node ∈ heads.schtask :: queues.scheduled

/-- Ownership is decided by looking through the queues. -/
instance (queues : Queues) (heads : Heads) (node : Address) : Decidable (queues.Owns heads node) :=
  inferInstanceAs (Decidable (_ ∨ _))

/-- What callers keep to: a node added came from `malloc`, so it is not null and belongs to no
list, and memory that a list owns is not written by others. -/
def Queues.Admits (queues : Queues) (heads : Heads) : ListOp → Prop
  | .pendingAdd node | .scheduleAdd node => node ≠ null ∧ ¬ queues.Owns heads node
  | .pendingAcquire | .scheduleAcquire => True
  | .overwrite node _ => ¬ queues.Owns heads node

/-- Admission is decided by looking through the queues. -/
instance (queues : Queues) (heads : Heads) : (op : ListOp) → Decidable (queues.Admits heads op)
  | .pendingAdd _ | .scheduleAdd _ => inferInstanceAs (Decidable (_ ∧ _))
  | .pendingAcquire | .scheduleAcquire => inferInstanceAs (Decidable True)
  | .overwrite _ _ => inferInstanceAs (Decidable (¬ _))

/-- Memory and queues, begun by the two initialisations over any memory and then taking every
admitted operation side by side. -/
def listMachine (heads : Heads) : Machine (Links Address × Queues) ListOp where
  initial state := ∃ links, taskSchedListInit (taskPendingInit links heads.pend)
    (some heads.schtask) = some (state.1, heads.schtask) ∧ state.2 = ⟨[], [], []⟩
  step state op :=
    if state.2.Admits heads op then
      some ((op.perform heads state.1).1, (state.2.perform op).1)
    else none

/-- The memory spells the queues, and no node is in two places. -/
structure Refines (heads : Heads) (links : Links Address) (queues : Queues) : Prop where
  /-- The pending head roots a ring of the pending queue. -/
  pending : Circular links heads.pend queues.pending
  /-- The schedule head roots a ring of the schedule queue. -/
  scheduled : Circular links heads.schtask queues.scheduled
  /-- The rings share no node. -/
  apart : List.Disjoint (heads.pend :: queues.pending) (heads.schtask :: queues.scheduled)
  /-- Queued nodes are records, not null. -/
  present : ∀ node ∈ queues.pending ++ queues.scheduled, node ≠ null
  /-- An acquired node belongs to no list. -/
  detached : ∀ node ∈ queues.acquired, ¬ queues.Owns heads node

variable {heads : Heads} {links : Links Address} {queues : Queues}

/-- The initialised lists spell empty queues. -/
theorem refines_initial {state : Links Address × Queues}
    (begins : (listMachine heads).initial state) : Refines heads state.1 state.2 := by
  obtain ⟨memory, made, empty⟩ := begins
  obtain ⟨links, queues⟩ := state
  obtain rfl : queues = ⟨[], [], []⟩ := empty
  obtain ⟨made, -⟩ := Prod.mk.inj (Option.some.inj made)
  refine ⟨?_, made ▸ initListHead_circular _ _, ?_, by simp, by simp⟩
  · refine (initListHead_circular (update memory heads.pend ⟨null, null⟩) heads.pend).congr ?_
    intro node inside
    obtain rfl := List.mem_singleton.mp inside
    rw [← made, initListHead_frame heads.apart, update_of_ne heads.apart, taskPendingInit]
  · simpa using Ne.symm heads.apart

/-- Taking the first entry of a ring takes the front of its queue. -/
theorem acquireFirst_eq {head : Address} {nodes : List Address} (ring : Circular links head nodes)
    (present : ∀ node ∈ nodes, node ≠ null) :
    acquireFirst links head =
      match Fifo.pop nodes with
      | none => (links, none)
      | some (node, _) => (listDel links node, some node) := by
  cases nodes with
  | nil => simp [acquireFirst, (listEmpty_iff ring).mpr rfl, Fifo.pop]
  | cons node nodes =>
    have nonempty : ¬ listEmpty links head = true := by simp [listEmpty_iff ring]
    simp [acquireFirst, nonempty, listFirstEntry_eq ring, present node List.mem_cons_self, Fifo.pop]

/-- Nodes outside a list's ring are left alone when a node outside both is appended to it. -/
theorem append_keeps {head other node : Address} {nodes others : List Address}
    (ring : Circular links head nodes) (kept : Circular links other others)
    (apart : List.Disjoint (head :: nodes) (other :: others)) (outside : node ∉ other :: others) :
    Circular (listAddTail links node head) other others :=
  kept.congr fun _ inside =>
    listAddTail_frame ring (fun same => outside (same ▸ inside)) fun other => apart other inside

/-- A ring is left alone when the first entry of another one is cut out. -/
theorem delete_keeps {head other node : Address} {nodes others : List Address}
    (ring : Circular links head (node :: nodes)) (kept : Circular links other others)
    (apart : List.Disjoint (head :: node :: nodes) (other :: others)) :
    Circular (listDel links node) other others :=
  kept.congr fun _ inside => listDel_frame ring fun other => apart other inside

/-- Swapping the roles of the two lists. -/
def Heads.swap (heads : Heads) : Heads := ⟨heads.schtask, heads.pend, heads.apart.symm⟩

/-- Swapping the roles of the two queues. -/
def Queues.swap (queues : Queues) : Queues :=
  ⟨queues.scheduled, queues.pending, queues.acquired⟩

/-- The refinement treats the two lists alike. -/
theorem Refines.swap (refines : Refines heads links queues) :
    Refines heads.swap links queues.swap where
  pending := refines.scheduled
  scheduled := refines.pending
  apart := fun _ left right => refines.apart right left
  present node inside := refines.present node (by simpa [Queues.swap, or_comm] using inside)
  detached node inside owned := refines.detached node inside owned.symm

/-- Appending an admitted node to the pending list keeps the refinement. -/
theorem Refines.add (refines : Refines heads links queues) {node : Address} (real : node ≠ null)
    (fresh : ¬ queues.Owns heads node) :
    Refines heads (listAddTail links node heads.pend)
      { queues with
        pending := Fifo.push queues.pending node
        acquired := queues.acquired.filter (· ≠ node) } := by
  obtain ⟨outside, other⟩ := not_or.mp fresh
  refine ⟨listAddTail_circular refines.pending outside,
    append_keeps refines.pending refines.scheduled refines.apart other, ?_, ?_, ?_⟩
  · rw [Fifo.push, ← List.cons_append, List.disjoint_append_left]
    exact ⟨refines.apart, by simpa using other⟩
  · intro member inside
    by_cases same : member = node
    · exact same ▸ real
    · exact refines.present member (by simpa [Fifo.push, same] using inside)
  · intro member inside
    obtain ⟨inside, differs⟩ := List.mem_filter.mp inside
    have differs : member ≠ node := by simpa using differs
    have alone := refines.detached member inside
    simpa [Queues.Owns, Fifo.push, differs] using alone

/-- Cutting out the front node of the pending list keeps the refinement. -/
theorem Refines.take (refines : Refines heads links queues) {node : Address} {rest : List Address}
    (front : queues.pending = node :: rest) :
    Refines heads (listDel links node)
      { queues with pending := rest, acquired := node :: queues.acquired } := by
  have ring : Circular links heads.pend (node :: rest) := front ▸ refines.pending
  have apart : List.Disjoint (heads.pend :: node :: rest) (heads.schtask :: queues.scheduled) :=
    front ▸ refines.apart
  refine ⟨listDel_circular ring, delete_keeps ring refines.scheduled apart, ?_, ?_, ?_⟩
  · intro member inside
    apply apart
    rcases List.mem_cons.mp inside with same | within
    · simp [same]
    · simp [within]
  · intro member inside
    apply refines.present member
    rw [front]
    exact List.mem_cons_of_mem node inside
  · intro member inside
    rcases List.mem_cons.mp inside with rfl | earlier
    · have distinct := ring.distinct
      simp only [List.nodup_cons, List.mem_cons, not_or] at distinct
      rintro (owned | owned)
      · rcases List.mem_cons.mp owned with same | within
        · exact distinct.1.1 same.symm
        · exact distinct.2.1 within
      · exact apart (by simp) owned
    · have alone := refines.detached member earlier
      simp only [Queues.Owns, front, List.mem_cons, not_or] at alone ⊢
      exact ⟨⟨alone.1.1, alone.1.2.2⟩, alone.2⟩

/-- A store outside both lists keeps the refinement. -/
theorem Refines.store (refines : Refines heads links queues) {node : Address}
    (outside : ¬ queues.Owns heads node) (link : Link Address) :
    Refines heads (update links node link) queues where
  pending := refines.pending.congr fun member inside =>
    update_of_ne (fun same : member = node => outside (.inl (same ▸ inside))) _ _
  scheduled := refines.scheduled.congr fun member inside =>
    update_of_ne (fun same : member = node => outside (.inr (same ▸ inside))) _ _
  apart := refines.apart
  present := refines.present
  detached := refines.detached

/-- An admitted operation keeps the refinement and returns what the queues return. -/
theorem Refines.perform (refines : Refines heads links queues) (op : ListOp)
    (admitted : queues.Admits heads op) :
    Refines heads (op.perform heads links).1 (queues.perform op).1 ∧
      (op.perform heads links).2 = (queues.perform op).2 := by
  have first := acquireFirst_eq refines.pending fun node inside =>
    refines.present node (List.mem_append_left _ inside)
  have second := acquireFirst_eq refines.scheduled fun node inside =>
    refines.present node (List.mem_append_right _ inside)
  cases op with
  | pendingAdd node => exact ⟨refines.add admitted.1 admitted.2, rfl⟩
  | scheduleAdd node =>
    exact ⟨(refines.swap.add admitted.1 fun owned => admitted.2 owned.symm).swap, rfl⟩
  | pendingAcquire =>
    simp only [ListOp.perform, Queues.perform, taskPendingAcquire, first]
    cases taken : Fifo.pop queues.pending with
    | none => exact ⟨refines, rfl⟩
    | some pair => exact ⟨refines.take (Fifo.pop_eq_some.mp taken), rfl⟩
  | scheduleAcquire =>
    simp only [ListOp.perform, Queues.perform, taskScheduleAcquire, second]
    cases taken : Fifo.pop queues.scheduled with
    | none => exact ⟨refines, rfl⟩
    | some pair => exact ⟨(refines.swap.take (Fifo.pop_eq_some.mp taken)).swap, rfl⟩
  | overwrite node link => exact ⟨refines.store admitted link, rfl⟩

/-- Every reachable memory spells its queues. -/
theorem refines_reachable {state : Links Address × Queues}
    (reached : (listMachine heads).Reachable state) : Refines heads state.1 state.2 := by
  refine Machine.Reachable.invariant _ (fun state => Refines heads state.1 state.2)
    (fun state begins => refines_initial begins) ?_ reached
  intro state op next refines stepped
  simp only [listMachine, Option.ite_none_right_eq_some, Option.some.injEq] at stepped
  obtain ⟨admitted, rfl⟩ := stepped
  exact (refines.perform op admitted).1

/-- What an observer of the memory sees of the two queues. -/
structure ListsAgree (heads : Heads) (links : Links Address) (queues : Queues) : Prop where
  /-- Both heads root well-formed rings of their queues. -/
  rings : Circular links heads.pend queues.pending ∧
    Circular links heads.schtask queues.scheduled
  /-- Next and prev are mutually inverse along each ring. -/
  inverse : ∀ node, queues.Owns heads node →
    (links (links node).next).prev = node ∧ (links (links node).prev).next = node
  /-- The rings share no node. -/
  apart : List.Disjoint (heads.pend :: queues.pending) (heads.schtask :: queues.scheduled)
  /-- Walking the pending ring gives the pending queue, in both directions. -/
  walkPending : ∀ turns, queues.pending.length < turns →
    listForEach links heads.pend turns = queues.pending ∧
      listForEachPrev links heads.pend turns = queues.pending.reverse
  /-- Walking the schedule ring gives the schedule queue, in both directions. -/
  walkScheduled : ∀ turns, queues.scheduled.length < turns →
    listForEach links heads.schtask turns = queues.scheduled ∧
      listForEachPrev links heads.schtask turns = queues.scheduled.reverse
  /-- Every admitted operation returns what the queues return. -/
  returns : ∀ op : ListOp, queues.Admits heads op →
    (op.perform heads links).2 = (queues.perform op).2
  /-- An acquisition returns the front, and null exactly on an empty queue. -/
  acquires : (taskPendingAcquire links heads.pend).2 = queues.pending.head? ∧
    (taskScheduleAcquire links heads.schtask).2 = queues.scheduled.head? ∧
    ((taskPendingAcquire links heads.pend).2 = none ↔ queues.pending = []) ∧
    ((taskScheduleAcquire links heads.schtask).2 = none ↔ queues.scheduled = [])
  /-- An acquired node lies on neither ring, and whatever is stored into it changes neither. -/
  acquired : ∀ node ∈ queues.acquired, ¬ queues.Owns heads node ∧ ∀ link,
    Circular (update links node link) heads.pend queues.pending ∧
      Circular (update links node link) heads.schtask queues.scheduled

/-- The result of taking the first entry of a ring is the front of its queue. -/
theorem acquireFirst_result {head : Address} {nodes : List Address}
    (ring : Circular links head nodes) (present : ∀ node ∈ nodes, node ≠ null) :
    (acquireFirst links head).2 = nodes.head? := by
  rw [acquireFirst_eq ring present]
  cases nodes <;> rfl

/-- **The linked lists are the queues.** After any sequence of critical sections over freshly
allocated nodes, from the initialised lists over any memory, the two rings spell the two queues
and every operation returns what the queues return. -/
theorem taskLists_refine_queues (heads : Heads) {links : Links Address} {queues : Queues}
    (reached : (listMachine heads).Reachable (links, queues)) : ListsAgree heads links queues := by
  have refines : Refines heads links queues := refines_reachable reached
  have first := acquireFirst_result refines.pending fun node inside =>
    refines.present node (List.mem_append_left _ inside)
  have second := acquireFirst_result refines.scheduled fun node inside =>
    refines.present node (List.mem_append_right _ inside)
  refine ⟨⟨refines.pending, refines.scheduled⟩, ?_, refines.apart, ?_, ?_, ?_, ?_, ?_⟩
  · rintro node (inside | inside)
    · exact ⟨refines.pending.prev_next inside, refines.pending.next_prev inside⟩
    · exact ⟨refines.scheduled.prev_next inside, refines.scheduled.next_prev inside⟩
  · exact fun turns enough => listForEach_eq refines.pending enough
  · exact fun turns enough => listForEach_eq refines.scheduled enough
  · exact fun op admitted => (refines.perform op admitted).2
  · exact ⟨first, second, by rw [taskPendingAcquire, first, List.head?_eq_none_iff],
      by rw [taskScheduleAcquire, second, List.head?_eq_none_iff]⟩
  · intro node inside
    have outside := refines.detached node inside
    exact ⟨outside, fun link => ⟨(refines.store outside link).pending,
      (refines.store outside link).scheduled⟩⟩

/-- Two commands pend, the first becomes a task node, its memory is reused, and the task node is
taken: the rings spell what is left. -/
theorem taskLists_refine_queues_run :
    ∃ links : Links Address, ListsAgree ⟨1, 2, by decide⟩ links ⟨[11], [], [12, 10]⟩ := by
  refine ⟨_, taskLists_refine_queues ⟨1, 2, by decide⟩ ⟨(_, ⟨[], [], []⟩), [.pendingAdd 10,
    .pendingAdd 11, .pendingAcquire, .overwrite 10 ⟨7, 7⟩, .scheduleAdd 12, .scheduleAcquire],
    ⟨fun _ => ⟨5, 9⟩, rfl, rfl⟩, rfl⟩⟩

end SysServer
