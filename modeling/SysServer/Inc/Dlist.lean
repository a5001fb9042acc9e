import SysServer.Library.Circle

/-!
# Kernel lists

The list functions of `inc/dlist.h`, each a sequence of stores into a memory of `list_head`
structures. A node is named by the address of the record that contains it: `list_entry` undoes
the offset of the member, so containers and members correspond one to one. The ring laws say what
each function does to a well-formed list and which memory it leaves alone.
-/

namespace SysServer

open Library

/-- An address of the process; the null pointer is zero. -/
abbrev Address := ℕ

/-- The null pointer. -/
def null : Address := 0

/-- `LIST_POISON1` — the next link of a deleted entry. -/
def listPoison1 : Address := 0x00100100

/-- `LIST_POISON2` — the prev link of a deleted entry. -/
def listPoison2 : Address := 0x00200200

/-- `INIT_LIST_HEAD` — a head that is its own neighbour. -/
def initListHead (links : Links Address) (list : Address) : Links Address :=
  (links.setNext list list).setPrev list list

/-- `__list_add` — insert between two known consecutive entries, in the source's store order. -/
def rawListAdd (links : Links Address) (new prev next : Address) : Links Address :=
  (((links.setPrev next new).setNext new next).setPrev new prev).setNext prev new

/-- `list_add` — insert after the head. -/
def listAdd (links : Links Address) (new head : Address) : Links Address :=
  rawListAdd links new head (links head).next

/-- `list_add_tail` — insert before the head. -/
def listAddTail (links : Links Address) (new head : Address) : Links Address :=
  rawListAdd links new (links head).prev head

/-- `__list_del` — make two entries neighbours. -/
def rawListDel (links : Links Address) (prev next : Address) : Links Address :=
  (links.setPrev next prev).setNext prev next

/-- `list_del` — cut an entry out and poison its links. -/
def listDel (links : Links Address) (entry : Address) : Links Address :=
  ((rawListDel links (links entry).prev (links entry).next).setNext entry listPoison1).setPrev entry
    listPoison2

/-- `list_empty` — the head follows itself. -/
def listEmpty (links : Links Address) (head : Address) : Bool := (links head).next == head

/-- `list_first_entry` — the entry after the head. -/
def listFirstEntry (links : Links Address) (head : Address) : Address := (links head).next

/-- The entries `list_for_each` visits, with a bound on the number of turns. -/
def listForEach (links : Links Address) (head : Address) (turns : ℕ) : List Address :=
  walk (fun node => (links node).next) head turns head

/-- The entries `list_for_each_prev` visits, with a bound on the number of turns. -/
def listForEachPrev (links : Links Address) (head : Address) (turns : ℕ) : List Address :=
  walk (fun node => (links node).prev) head turns head

variable {links : Links Address} {head : Address} {nodes : List Address}

/-- An initialised head is the empty ring, whatever its links were. -/
theorem initListHead_circular (links : Links Address) (list : Address) :
    Circular (initListHead links list) list [] := circular_singleton links list

/-- Initialising a head touches no other node. -/
theorem initListHead_frame {list other : Address} (apart : other ≠ list) :
    initListHead links list other = links other := by
  simp [initListHead, Links.setNext, Links.setPrev, apart]

/-- `list_add_tail` of a node outside the ring puts it at the back. -/
theorem listAddTail_circular {new : Address} (ring : Circular links head nodes)
    (fresh : new ∉ head :: nodes) : Circular (listAddTail links new head) head (nodes ++ [new]) :=
  ring.splice_back fresh

/-- `list_add_tail` stores into the new node and the ring only. -/
theorem listAddTail_frame {new other : Address} (ring : Circular links head nodes)
    (apart : other ≠ new) (outside : other ∉ head :: nodes) :
    listAddTail links new head other = links other := by
  have notHead : other ≠ head := fun same => outside (by simp [same])
  have notLast : other ≠ (links head).prev := by
    rw [ring.path.prev_last]
    exact fun same => outside (same ▸ List.getLast_mem _)
  simp [listAddTail, rawListAdd, Links.setNext, Links.setPrev, apart, notHead, notLast]

/-- `list_del` of the first entry leaves the ring of the others. -/
theorem listDel_circular {entry : Address} (ring : Circular links head (entry :: nodes)) :
    Circular (listDel links entry) head nodes := by
  apply ring.cut_front.congr
  intro node inside
  have apart : node ≠ entry := by
    rintro rfl
    have distinct := ring.distinct
    rcases List.mem_cons.mp inside with rfl | within
    · exact (List.nodup_cons.mp distinct).1 List.mem_cons_self
    · exact (List.nodup_cons.mp (List.nodup_cons.mp distinct).2).1 within
  simp [listDel, rawListDel, Links.setNext, Links.setPrev, apart]

/-- `list_del` of the first entry stores into the ring only. -/
theorem listDel_frame {entry other : Address} (ring : Circular links head (entry :: nodes))
    (outside : other ∉ head :: entry :: nodes) : listDel links entry other = links other := by
  have onto : Adjacent links head entry ∧ Path links entry nodes head := ring.path
  have notEntry : other ≠ entry := fun same => outside (by simp [same])
  have notHead : other ≠ head := fun same => outside (by simp [same])
  have notNext : other ≠ (links entry).next := by
    cases nodes with
    | nil => exact onto.2.1 ▸ notHead
    | cons node rest => exact fun same => outside (by simp [same, onto.2.1.1])
  simp [listDel, rawListDel, Links.setNext, Links.setPrev, onto.1.2, notEntry, notHead, notNext]

/-- `list_empty` decides whether a ring is empty. -/
theorem listEmpty_iff (ring : Circular links head nodes) :
    listEmpty links head = true ↔ nodes = [] := by
  cases nodes with
  | nil => simp [listEmpty, ring.path.1]
  | cons node nodes =>
    have apart : node ≠ head := fun same => (List.nodup_cons.mp ring.distinct).1 (by simp [same])
    simp [listEmpty, ring.path.1.1, apart]

/-- `list_first_entry` of a nonempty ring is its front node. -/
theorem listFirstEntry_eq {entry : Address} (ring : Circular links head (entry :: nodes)) :
    listFirstEntry links head = entry := ring.path.1.1

/-- `list_for_each` visits the nodes of a ring in order, `list_for_each_prev` in the opposite
order, and both stop. -/
theorem listForEach_eq {turns : ℕ} (ring : Circular links head nodes)
    (enough : nodes.length < turns) :
    listForEach links head turns = nodes ∧ listForEachPrev links head turns = nodes.reverse :=
  ⟨ring.walk_next enough, ring.walk_prev enough⟩

end SysServer
