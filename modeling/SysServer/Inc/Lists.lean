import Mathlib.Data.List.Rotate
import SysServer.Inc.Dlist
import SysServer.Library.Machine
import SysServer.Library.Rings

/-!
# All list calls side by side

The rest of `inc/dlist.h` and the whole of it as one machine: any number of lists live in one
memory, any sequence of calls is made on them, and everything else may store into nodes that no
list owns. Each call has an effect on the abstract lists and a condition under which its comment
allows it. Every run of allowed calls keeps the memory spelling the abstract lists, so every query
and every iteration gives the answer of the list.
-/

namespace SysServer

open Library Function

/-- `list_replace` — put a new node between the neighbours of the old one. -/
def listReplace (links : Links Address) (old new : Address) : Links Address :=
  let first := links.setNext new (links old).next
  let second := first.setPrev (first new).next new
  let third := second.setPrev new (second old).prev
  third.setNext (third new).prev new

/-- `list_replace_init` — replace, and initialise the old node. -/
def listReplaceInit (links : Links Address) (old new : Address) : Links Address :=
  initListHead (listReplace links old new) old

/-- `__list_del_entry` — make the neighbours of an entry neighbours. -/
def rawListDelEntry (links : Links Address) (entry : Address) : Links Address :=
  rawListDel links (links entry).prev (links entry).next

/-- `list_del_init` — cut an entry out and initialise it. -/
def listDelInit (links : Links Address) (entry : Address) : Links Address :=
  initListHead (rawListDelEntry links entry) entry

/-- `list_move` — cut an entry out and insert it after another head. -/
def listMove (links : Links Address) (list head : Address) : Links Address :=
  listAdd (rawListDelEntry links list) list head

/-- `list_move_tail` — cut an entry out and insert it before another head. -/
def listMoveTail (links : Links Address) (list head : Address) : Links Address :=
  listAddTail (rawListDelEntry links list) list head

/-- `list_is_last` — the head follows the entry. -/
def listIsLast (links : Links Address) (list head : Address) : Bool := (links list).next == head

/-- `list_empty_careful` — the head follows itself both ways. -/
def listEmptyCareful (links : Links Address) (head : Address) : Bool :=
  let next := (links head).next
  next == head && next == (links head).prev

/-- `list_rotate_left` — move the first entry of a list that has one to its back. -/
def listRotateLeft (links : Links Address) (head : Address) : Links Address :=
  if !listEmpty links head then
    let first := (links head).next
    listMoveTail links first head
  else links

/-- `list_is_singular` — the two neighbours of the head are one entry. -/
def listIsSingular (links : Links Address) (head : Address) : Bool :=
  !listEmpty links head && (links head).next == (links head).prev

/-- `__list_cut_position` — close the front of a list around another head. -/
def rawListCutPosition (links : Links Address) (list head entry : Address) : Links Address :=
  let newFirst := (links entry).next
  let first := links.setNext list (links head).next
  let second := first.setPrev (first list).next list
  ((((second.setPrev list entry).setNext entry list).setNext head newFirst).setPrev newFirst head)

/-- `list_cut_position` — move the front of a list, up to an entry, to another head. -/
def listCutPosition (links : Links Address) (list head entry : Address) : Links Address :=
  if listEmpty links head then links
  else if listIsSingular links head && ((links head).next != entry && head != entry) then links
  else if entry == head then initListHead links list
  else rawListCutPosition links list head entry

/-- `__list_splice` — put the entries of a list between two neighbours. -/
def rawListSplice (links : Links Address) (list prev next : Address) : Links Address :=
  let first := (links list).next
  let last := (links list).prev
  (((links.setPrev first prev).setNext prev first).setNext last next).setPrev next last

/-- `list_splice` — put the entries of a list behind a head. -/
def listSplice (links : Links Address) (list head : Address) : Links Address :=
  if !listEmpty links list then rawListSplice links list head (links head).next else links

/-- `list_splice_tail` — put the entries of a list before a head. -/
def listSpliceTail (links : Links Address) (list head : Address) : Links Address :=
  if !listEmpty links list then rawListSplice links list (links head).prev head else links

/-- `list_splice_init` — put the entries of a list behind a head and initialise the list. -/
def listSpliceInit (links : Links Address) (list head : Address) : Links Address :=
  if !listEmpty links list then
    initListHead (rawListSplice links list head (links head).next) list
  else links

/-- `list_splice_tail_init` — put the entries of a list before a head and initialise the list. -/
def listSpliceTailInit (links : Links Address) (list head : Address) : Links Address :=
  if !listEmpty links list then
    initListHead (rawListSplice links list (links head).prev head) list
  else links

/-! ## Queries -/

section Queries

variable {links : Links Address} {head : Address} {nodes : List Address}

/-- `list_empty_careful` decides whether a ring is empty. -/
theorem listEmptyCareful_iff (ring : Circular links head nodes) :
    listEmptyCareful links head = true ↔ nodes = [] := by
  rw [listEmptyCareful, Bool.and_eq_true, ← listEmpty_iff ring, listEmpty]
  refine and_iff_left_of_imp fun empty => ?_
  have nil := (listEmpty_iff ring).mp empty
  subst nil
  rw [ring.path.1, ring.path.2, beq_self_eq_true]

/-- `list_is_singular` decides whether a ring has one entry. -/
theorem listIsSingular_iff (ring : Circular links head nodes) :
    listIsSingular links head = true ↔ nodes.length = 1 := by
  rw [listIsSingular, Bool.and_eq_true, Bool.not_eq_true', ← Bool.not_eq_true, listEmpty_iff ring]
  rcases nodes with _ | ⟨first, rest⟩
  · simp
  · rw [ring.path.prev_last, show (links head).next = first from ring.path.1.1]
    rcases List.eq_nil_or_concat' rest with rfl | ⟨middle, last, rfl⟩
    · simp
    · have distinct := (List.nodup_cons.mp ring.distinct).2
      have apart : first ≠ last := fun same => (List.nodup_cons.mp distinct).1 (by simp [same])
      simp [apart]

/-- `list_is_last` decides whether an entry of a ring is the last one. -/
theorem listIsLast_iff {entry : Address} (ring : Circular links head nodes)
    (inside : entry ∈ nodes) :
    listIsLast links entry head = true ↔ nodes.getLast? = some entry := by
  have within : entry ∈ head :: nodes := List.mem_cons_of_mem head inside
  have some_entry := List.ne_nil_of_mem inside
  have ends := ring.prev_eq
  rw [List.getLast?_cons_of_ne_nil some_entry] at ends
  rw [listIsLast, beq_iff_eq, ends, Option.some.injEq]
  constructor
  · rintro rfl
    exact ring.prev_next within
  · rintro rfl
    exact ring.next_prev List.mem_cons_self

end Queries

/-! ## Calls and their effects -/

/-- One call of the list functions, or a store of other code into a node. -/
inductive ListCall
  /-- `INIT_LIST_HEAD`. -/
  | init (list : Address)
  /-- `list_add`. -/
  | add (new head : Address)
  /-- `list_add_tail`. -/
  | addTail (new head : Address)
  /-- `list_del`. -/
  | del (entry : Address)
  /-- `list_del_init`. -/
  | delInit (entry : Address)
  /-- `list_replace`. -/
  | replace (old new : Address)
  /-- `list_replace_init`. -/
  | replaceInit (old new : Address)
  /-- `list_move`. -/
  | move (list head : Address)
  /-- `list_move_tail`. -/
  | moveTail (list head : Address)
  /-- `list_rotate_left`. -/
  | rotateLeft (head : Address)
  /-- `list_cut_position`. -/
  | cutPosition (list head entry : Address)
  /-- `list_splice`. -/
  | splice (list head : Address)
  /-- `list_splice_tail`. -/
  | spliceTail (list head : Address)
  /-- `list_splice_init`. -/
  | spliceInit (list head : Address)
  /-- `list_splice_tail_init`. -/
  | spliceTailInit (list head : Address)
  /-- Other code uses the memory of a node. -/
  | store (node : Address) (link : Link Address)

namespace ListCall

/-- What a call does to the memory. -/
def perform (links : Links Address) : ListCall → Links Address
  | init list => initListHead links list
  | add new head => listAdd links new head
  | addTail new head => listAddTail links new head
  | del entry => listDel links entry
  | delInit entry => listDelInit links entry
  | replace old new => listReplace links old new
  | replaceInit old new => listReplaceInit links old new
  | move list head => listMove links list head
  | moveTail list head => listMoveTail links list head
  | rotateLeft head => listRotateLeft links head
  | cutPosition list head entry => listCutPosition links list head entry
  | splice list head => listSplice links list head
  | spliceTail list head => listSpliceTail links list head
  | spliceInit list head => listSpliceInit links list head
  | spliceTailInit list head => listSpliceTailInit links list head
  | store node link => update links node link

/-- Apply a function to the entries of one head. -/
def edit (rings : Rings Address) (head : Address) (entries : List Address → List Address) :
    Rings Address := update rings head ((rings head).map entries)

/-- The entries of a list as another head gets them, unless there are none. -/
def given (rings : Rings Address) (list head : Address)
    (joined : List Address → List Address → List Address) : Rings Address :=
  match rings list with
  | some (first :: rest) =>
    update (edit rings head fun entries => joined (first :: rest) entries) list none
  | _ => rings

/-- The front of a list up to an entry, and the rest, as two lists. -/
def parted (rings : Rings Address) (list head entry : Address) : Rings Address :=
  match rings head with
  | none | some [] => rings
  | some nodes =>
    if nodes.length = 1 ∧ entry ∉ head :: nodes then rings
    else if entry = head then update rings list (some [])
    else
      let count := nodes.idxOf entry + 1
      update (update rings list (some (nodes.take count))) head (some (nodes.drop count))

/-- What a call does to the lists. -/
def effect (rings : Rings Address) : ListCall → Rings Address
  | init list => update rings list (some [])
  | add new head => edit rings head fun entries => new :: entries
  | addTail new head => edit rings head fun entries => entries ++ [new]
  | del entry => rings.withdraw entry
  | delInit entry => update (rings.withdraw entry) entry (some [])
  | replace old new => rings.substitute old new
  | replaceInit old new => update (rings.substitute old new) old (some [])
  | move list head => edit (rings.withdraw list) head fun entries => list :: entries
  | moveTail list head => edit (rings.withdraw list) head fun entries => entries ++ [list]
  | rotateLeft head => edit rings head fun entries => entries.rotate 1
  | cutPosition list head entry => parted rings list head entry
  | splice list head => given rings list head fun taken entries => taken ++ entries
  | spliceTail list head => given rings list head fun taken entries => entries ++ taken
  | spliceInit list head =>
    update (given rings list head fun taken entries => taken ++ entries) list (some [])
  | spliceTailInit list head =>
    update (given rings list head fun taken entries => entries ++ taken) list (some [])
  | store _ _ => rings

/-- The lists on which a call is allowed. -/
def Admits (rings : Rings Address) : ListCall → Prop
  | init list => rings.Unshared list
  | add new head | addTail new head => (∃ nodes, rings head = some nodes) ∧ rings.Free new
  | del entry | delInit entry => rings.Linked entry
  | replace old new | replaceInit old new => (∃ owner, rings.Owns owner old) ∧ rings.Free new
  | move list head | moveTail list head =>
    (∃ nodes, rings head = some nodes) ∧ rings.Linked list ∧ list ≠ head
  | rotateLeft head => ∃ nodes, rings head = some nodes
  | cutPosition list head entry =>
    (∃ nodes, rings head = some nodes ∧ (nodes.length ≤ 1 ∨ entry ∈ head :: nodes)) ∧
      rings.Unshared list ∧ list ≠ head
  | splice list head | spliceTail list head | spliceInit list head | spliceTailInit list head =>
    (∃ taken, rings list = some taken) ∧ (∃ nodes, rings head = some nodes) ∧ list ≠ head
  | store node _ => rings.Free node

end ListCall

/-! ## Every call has its effect -/

section Calls

variable {links : Links Address} {rings : Rings Address} {head list entry old new : Address}
  {nodes taken : List Address}

/-- An edit is seen at its head. -/
theorem edit_self {change : List Address → List Address} (ring : rings head = some nodes) :
    ListCall.edit rings head change head = some (change nodes) := by
  rw [ListCall.edit, update_self, ring, Option.map_some]

/-- An edit is seen at no other head. -/
theorem edit_of_ne {change : List Address → List Address} (apart : list ≠ head) :
    ListCall.edit rings head change list = rings list := update_of_ne apart _ _

/-- `list_add` puts a free node behind a head. -/
theorem listAdd_spells (spells : Spells links rings) (ring : rings head = some nodes)
    (free : rings.Free new) :
    Spells (listAdd links new head) (ListCall.edit rings head fun entries => new :: entries) := by
  rw [ListCall.edit, ring]
  exact spells.insert ring free

/-- `list_add_tail` puts a free node before a head. -/
theorem listAddTail_spells (spells : Spells links rings) (ring : rings head = some nodes)
    (free : rings.Free new) :
    Spells (listAddTail links new head)
      (ListCall.edit rings head fun entries => entries ++ [new]) := by
  rw [ListCall.edit, ring]
  exact spells.append ring free

/-- `__list_del_entry` withdraws a linked node. -/
theorem rawListDelEntry_spells (spells : Spells links rings) (linked : rings.Linked entry) :
    Spells (rawListDelEntry links entry) (rings.withdraw entry) := spells.withdraw linked

/-- `list_del` withdraws a linked node; its poison goes into a free node. -/
theorem listDel_spells (spells : Spells links rings) (linked : rings.Linked entry) :
    Spells (listDel links entry) (rings.withdraw entry) := by
  have cut := spells.withdraw linked
  have free := @Spells.withdraw_free _ _ _ entry _ spells
  exact (cut.store free _).store free _

/-- `list_replace` puts a free node in the place of another. -/
theorem listReplace_spells (spells : Spells links rings) {owner : Address}
    (owns : rings.Owns owner old) (free : rings.Free new) :
    Spells (listReplace links old new) (rings.substitute old new) := by
  have same : listReplace links old new = (links.join new (links old).next).join
      (links.join new (links old).next old).prev new := by
    have first : (links.setNext new (links old).next new).next = (links old).next := by simp
    simp only [listReplace, first, Links.join, Links.setNext_setPrev, Links.setNext_prev,
      Links.setPrev_prev, if_true]
  rw [same]
  exact spells.substitute owns free

/-- A head is still a head after another node is withdrawn. -/
theorem withdraw_head (ring : rings head = some nodes) (apart : list ≠ head) :
    rings.withdraw list head = some (nodes.erase list) := by
  rw [Rings.withdraw, update_of_ne apart.symm, ring, Option.map_some]

/-- `list_move_tail` takes a linked node from its list to the back of another. -/
theorem listMoveTail_spells (spells : Spells links rings) (ring : rings head = some nodes)
    (linked : rings.Linked list) (apart : list ≠ head) :
    Spells (listMoveTail links list head)
      (ListCall.edit (rings.withdraw list) head fun entries => entries ++ [list]) :=
  listAddTail_spells (spells.withdraw linked) (withdraw_head ring apart) spells.withdraw_free

/-- `list_move` takes a linked node from its list to the front of another. -/
theorem listMove_spells (spells : Spells links rings) (ring : rings head = some nodes)
    (linked : rings.Linked list) (apart : list ≠ head) :
    Spells (listMove links list head)
      (ListCall.edit (rings.withdraw list) head fun entries => list :: entries) :=
  listAdd_spells (spells.withdraw linked) (withdraw_head ring apart) spells.withdraw_free

/-- `list_rotate_left` turns a list by one entry. -/
theorem listRotateLeft_spells (spells : Spells links rings) (ring : rings head = some nodes) :
    Spells (listRotateLeft links head)
      (ListCall.edit rings head fun entries => entries.rotate 1) := by
  have circular := spells.circular ring
  rw [ListCall.edit, ring, Option.map_some, listRotateLeft]
  cases nodes with
  | nil =>
    have empty := (listEmpty_iff circular).mpr rfl
    have unchanged : update rings head (some ([].rotate 1)) = rings := by
      rw [List.rotate_nil, ← ring, update_eq_self]
    rw [empty, unchanged]
    exact spells
  | cons first rest =>
    have some_entry : listEmpty links head = false := by
      rw [← Bool.not_eq_true, listEmpty_iff circular]
      exact List.cons_ne_nil first rest
    have next : (links head).next = first := circular.path.1.1
    have distinct := (List.nodup_cons.mp circular.distinct).1
    have apart : first ≠ head := fun same => distinct (same ▸ List.mem_cons_self)
    have linked : rings.Linked first := .inr ⟨head, first :: rest, ring, List.mem_cons_self⟩
    have moved := listMoveTail_spells spells ring linked apart
    have turned : ListCall.edit (rings.withdraw first) head (fun entries => entries ++ [first]) =
        update rings head (some ((first :: rest).rotate 1)) := by
      rw [ListCall.edit, withdraw_head ring apart, List.erase_cons_head]
      funext other
      by_cases same : other = head
      · rw [same, update_self, update_self, List.rotate_cons_succ, List.rotate_zero]
        rfl
      · have owns : rings.Owns head first := ⟨_, ring, by simp⟩
        rw [update_of_ne same, update_of_ne same, spells.withdraw_kept owns same]
    simpa only [some_entry, next, Bool.not_false, if_true, turned] using moved

/-- `__list_splice` with the neighbours of a head puts the entries of a list at that place. -/
theorem rawListSplice_eq (links : Links Address) (list prev next : Address) :
    rawListSplice links list prev next =
      (links.join prev (links list).next).join (links list).prev next := by
  rw [rawListSplice, Links.setNext_setPrev]
  rfl

/-- Two lists share no entry, and the head of one is no entry of the other. -/
theorem lists_disjoint (spells : Spells links rings) (ring : rings head = some nodes)
    (donor : rings list = some taken) (apart : list ≠ head) : (head :: nodes).Disjoint taken := by
  intro node inside within
  have owned : rings.Owns head node := (Rings.owns_iff ring).mpr inside
  have owned' : rings.Owns list node := (Rings.owns_iff donor).mpr (List.mem_cons_of_mem _ within)
  exact apart (spells.apart owned' owned)

/-- `__list_splice` between two neighbours of a list stores into the two lists only. -/
theorem rawListSplice_frame {prev next node : Address} (given : Circular links list taken)
    (some_entry : taken ≠ []) (prevIn : prev ∈ head :: nodes) (nextIn : next ∈ head :: nodes)
    (outside : node ∉ head :: nodes) (notTaken : node ∉ taken) :
    rawListSplice links list prev next node = links node := by
  have notFirst : node ≠ (links list).next :=
    fun same => notTaken (same ▸ List.mem_of_mem_head? (given.begins some_entry))
  have notLast : node ≠ (links list).prev :=
    fun same => notTaken (same ▸ List.mem_of_mem_getLast? (given.ends some_entry))
  have notPrev : node ≠ prev := fun same => outside (same ▸ prevIn)
  have notNext : node ≠ next := fun same => outside (same ▸ nextIn)
  rw [rawListSplice_eq, join_frame notLast notNext, join_frame notPrev notFirst]

/-- `__list_splice` behind a head. -/
theorem rawListSplice_spells (spells : Spells links rings) (ring : rings head = some nodes)
    (donor : rings list = some taken) (some_entry : taken ≠ []) (apart : list ≠ head) :
    Spells (rawListSplice links list head (links head).next)
      (update (update rings head (some (taken ++ nodes))) list none) := by
  have circular := spells.circular ring
  have given := spells.circular donor
  have spliced := circular.splice given some_entry (lists_disjoint spells ring donor apart)
  rw [← rawListSplice_eq] at spliced
  apply spells.merge ring donor apart spliced
  · exact fun node inside => (List.mem_append.mp inside).symm
  · intro node
    exact rawListSplice_frame given some_entry List.mem_cons_self
      (circular.next_mem List.mem_cons_self)

/-- `__list_splice` before a head. -/
theorem rawListSplice_tail_spells (spells : Spells links rings) (ring : rings head = some nodes)
    (donor : rings list = some taken) (some_entry : taken ≠ []) (apart : list ≠ head) :
    Spells (rawListSplice links list (links head).prev head)
      (update (update rings head (some (nodes ++ taken))) list none) := by
  have circular := spells.circular ring
  have given := spells.circular donor
  have disjoint := lists_disjoint spells ring donor apart
  have spliced : Circular (rawListSplice links list (links head).prev head) head
      (nodes ++ taken) := by
    rw [rawListSplice_eq]
    rcases List.eq_nil_or_concat' nodes with rfl | ⟨before, last, rfl⟩
    · have joined := circular.splice given some_entry disjoint
      rw [List.append_nil, show (links head).next = head from circular.path.1] at joined
      rwa [show (links head).prev = head from circular.path.2]
    · -- Read from its last entry, the list gets the entries behind its head.
      have turned : Circular links last (head :: before) := circular.rotate
      have prev : (links head).prev = last := turned.path.1.2
      have next : (links last).next = head := turned.path.1.1
      have apartTurned : (last :: head :: before).Disjoint taken := by
        intro node inside
        refine @disjoint node ?_
        simp only [List.mem_cons, List.mem_append, List.not_mem_nil, or_false] at inside ⊢
        tauto
      have joined := (turned.splice given some_entry apartTurned).rotate
      rw [next] at joined
      rwa [prev, List.append_assoc]
  apply spells.merge ring donor apart spliced
  · exact fun node inside => List.mem_append.mp inside
  · intro node
    exact rawListSplice_frame given some_entry (circular.prev_mem List.mem_cons_self)
      List.mem_cons_self

/-- `__list_cut_position` on an entry closes the front of a list around another head. -/
theorem rawListCutPosition_spells {front back : List Address} (spells : Spells links rings)
    (ring : rings head = some (front ++ entry :: back)) (own : rings.Unshared list)
    (apart : list ≠ head) :
    Spells (rawListCutPosition links list head entry)
      (update (update rings list (some (front ++ [entry]))) head (some back)) := by
  have same : rawListCutPosition links list head entry =
      ((links.join list (links head).next).join entry list).join head (links entry).next := by
    have first : (links.setNext list (links head).next list).next = (links head).next := by simp
    simp only [rawListCutPosition, first, Links.join, Links.setNext_setPrev]
  rw [same]
  exact spells.part ring own apart

/-- `list_cut_position` parts a list at an entry. -/
theorem listCutPosition_spells (spells : Spells links rings) (ring : rings head = some nodes)
    (allowed : nodes.length ≤ 1 ∨ entry ∈ head :: nodes) (own : rings.Unshared list)
    (apart : list ≠ head) :
    Spells (listCutPosition links list head entry) (ListCall.parted rings list head entry) := by
  have circular := spells.circular ring
  rw [listCutPosition, ListCall.parted, ring]
  rcases nodes with _ | ⟨first, rest⟩
  · rw [if_pos ((listEmpty_iff circular).mpr rfl)]
    exact spells
  · have next : (links head).next = first := circular.path.1.1
    have some_entry : ¬ listEmpty links head = true := by simp [listEmpty_iff circular]
    have guard : (listIsSingular links head && ((links head).next != entry && head != entry)) =
        true ↔ (first :: rest).length = 1 ∧ entry ∉ head :: first :: rest := by
      rw [Bool.and_eq_true, listIsSingular_iff circular, next]
      refine and_congr_right fun single => ?_
      obtain rfl : rest = [] := by simpa using single
      simp only [Bool.and_eq_true, bne_iff_ne, List.mem_cons, List.not_mem_nil, or_false, not_or]
      rw [and_comm, ne_comm, @ne_comm _ first]
    simp only [if_neg some_entry, guard, beq_iff_eq]
    split_ifs with wrong itself
    · exact spells
    · exact spells.init own
    · have inside : entry ∈ first :: rest := by
        rcases allowed with short | within
        · have single : (first :: rest).length = 1 := by simpa using short
          have within := not_not.mp fun outside => wrong ⟨single, outside⟩
          exact (List.mem_cons.mp within).resolve_left itself
        · exact (List.mem_cons.mp within).resolve_left itself
      obtain ⟨front, back, absent, whole, -⟩ := List.exists_erase_eq inside
      have count : (first :: rest).idxOf entry = front.length := by
        rw [whole, List.idxOf_append_of_notMem absent, List.idxOf_cons_self, Nat.add_zero]
      have parts : (first :: rest).take (front.length + 1) = front ++ [entry] ∧
          (first :: rest).drop (front.length + 1) = back := by
        have halves : first :: rest = (front ++ [entry]) ++ back := by simp [whole]
        have length : front.length + 1 = (front ++ [entry]).length := by simp
        rw [halves, length, List.take_left, List.drop_left]
        exact ⟨rfl, rfl⟩
      rw [count, parts.1, parts.2]
      exact rawListCutPosition_spells spells (whole ▸ ring) own apart

/-- Nothing is given from an empty list. -/
theorem given_nil {joined : List Address → List Address → List Address}
    (donor : rings list = some []) : ListCall.given rings list head joined = rings := by
  rw [ListCall.given, donor]

/-- What a list with entries gives. -/
theorem given_some {joined : List Address → List Address → List Address}
    (ring : rings head = some nodes) (donor : rings list = some taken) (some_entry : taken ≠ []) :
    ListCall.given rings list head joined =
      update (update rings head (some (joined taken nodes))) list none := by
  obtain ⟨first, rest, rfl⟩ := List.exists_cons_of_ne_nil some_entry
  rw [ListCall.given, donor]
  simp only [ListCall.edit, ring, Option.map_some]

/-- `list_splice` puts the entries of a list behind a head. -/
theorem listSplice_spells (spells : Spells links rings) (ring : rings head = some nodes)
    (donor : rings list = some taken) (apart : list ≠ head) :
    Spells (listSplice links list head)
      (ListCall.given rings list head fun taken entries => taken ++ entries) := by
  have empty := listEmpty_iff (spells.circular donor)
  by_cases some_entry : taken = []
  · subst some_entry
    rw [given_nil donor, listSplice, empty.mpr rfl]
    exact spells
  · rw [given_some ring donor some_entry, listSplice,
      Bool.eq_false_iff.mpr (mt empty.mp some_entry)]
    exact rawListSplice_spells spells ring donor some_entry apart

/-- `list_splice_tail` puts the entries of a list before a head. -/
theorem listSpliceTail_spells (spells : Spells links rings) (ring : rings head = some nodes)
    (donor : rings list = some taken) (apart : list ≠ head) :
    Spells (listSpliceTail links list head)
      (ListCall.given rings list head fun taken entries => entries ++ taken) := by
  have empty := listEmpty_iff (spells.circular donor)
  by_cases some_entry : taken = []
  · subst some_entry
    rw [given_nil donor, listSpliceTail, empty.mpr rfl]
    exact spells
  · rw [given_some ring donor some_entry, listSpliceTail,
      Bool.eq_false_iff.mpr (mt empty.mp some_entry)]
    exact rawListSplice_tail_spells spells ring donor some_entry apart

/-- `list_splice_init` also makes the list that was given an empty one. -/
theorem listSpliceInit_spells (spells : Spells links rings) (ring : rings head = some nodes)
    (donor : rings list = some taken) (apart : list ≠ head) :
    Spells (listSpliceInit links list head)
      (update (ListCall.given rings list head fun taken entries => taken ++ entries) list
        (some [])) := by
  have empty := listEmpty_iff (spells.circular donor)
  have spliced := listSplice_spells spells ring donor apart
  by_cases some_entry : taken = []
  · subst some_entry
    rw [given_nil donor, listSpliceInit, empty.mpr rfl, ← donor, update_eq_self]
    exact spells
  · have given := @given_some _ _ _ _ _ (fun taken entries => taken ++ entries) ring donor
      some_entry
    rw [listSplice, Bool.eq_false_iff.mpr (mt empty.mp some_entry), given] at spliced
    rw [given, listSpliceInit, Bool.eq_false_iff.mpr (mt empty.mp some_entry)]
    apply spliced.init (spells.merge_free ring donor apart ?_).unshared
    exact fun node inside => (List.mem_append.mp inside).symm

/-- `list_splice_tail_init` also makes the list that was given an empty one. -/
theorem listSpliceTailInit_spells (spells : Spells links rings) (ring : rings head = some nodes)
    (donor : rings list = some taken) (apart : list ≠ head) :
    Spells (listSpliceTailInit links list head)
      (update (ListCall.given rings list head fun taken entries => entries ++ taken) list
        (some [])) := by
  have empty := listEmpty_iff (spells.circular donor)
  have spliced := listSpliceTail_spells spells ring donor apart
  by_cases some_entry : taken = []
  · subst some_entry
    rw [given_nil donor, listSpliceTailInit, empty.mpr rfl, ← donor, update_eq_self]
    exact spells
  · have given := @given_some _ _ _ _ _ (fun taken entries => entries ++ taken) ring donor
      some_entry
    rw [listSpliceTail, Bool.eq_false_iff.mpr (mt empty.mp some_entry), given] at spliced
    rw [given, listSpliceTailInit, Bool.eq_false_iff.mpr (mt empty.mp some_entry)]
    apply spliced.init (spells.merge_free ring donor apart ?_).unshared
    exact fun node inside => List.mem_append.mp inside

/-- An allowed call keeps the memory spelling the lists. -/
theorem ListCall.perform_spells {call : ListCall} (spells : Spells links rings)
    (admits : call.Admits rings) : Spells (call.perform links) (call.effect rings) := by
  cases call with
  | init list => exact spells.init admits
  | add new head =>
    obtain ⟨⟨nodes, ring⟩, free⟩ := admits
    exact listAdd_spells spells ring free
  | addTail new head =>
    obtain ⟨⟨nodes, ring⟩, free⟩ := admits
    exact listAddTail_spells spells ring free
  | del entry => exact listDel_spells spells admits
  | delInit entry =>
    exact (rawListDelEntry_spells spells admits).init spells.withdraw_free.unshared
  | replace old new =>
    obtain ⟨⟨owner, owns⟩, free⟩ := admits
    exact listReplace_spells spells owns free
  | replaceInit old new =>
    obtain ⟨⟨owner, owns⟩, free⟩ := admits
    exact (listReplace_spells spells owns free).init (spells.substitute_free owns free).unshared
  | move list head =>
    obtain ⟨⟨nodes, ring⟩, linked, apart⟩ := admits
    exact listMove_spells spells ring linked apart
  | moveTail list head =>
    obtain ⟨⟨nodes, ring⟩, linked, apart⟩ := admits
    exact listMoveTail_spells spells ring linked apart
  | rotateLeft head =>
    obtain ⟨nodes, ring⟩ := admits
    exact listRotateLeft_spells spells ring
  | cutPosition list head entry =>
    obtain ⟨⟨nodes, ring, allowed⟩, own, apart⟩ := admits
    exact listCutPosition_spells spells ring allowed own apart
  | splice list head =>
    obtain ⟨⟨taken, donor⟩, ⟨nodes, ring⟩, apart⟩ := admits
    exact listSplice_spells spells ring donor apart
  | spliceTail list head =>
    obtain ⟨⟨taken, donor⟩, ⟨nodes, ring⟩, apart⟩ := admits
    exact listSpliceTail_spells spells ring donor apart
  | spliceInit list head =>
    obtain ⟨⟨taken, donor⟩, ⟨nodes, ring⟩, apart⟩ := admits
    exact listSpliceInit_spells spells ring donor apart
  | spliceTailInit list head =>
    obtain ⟨⟨taken, donor⟩, ⟨nodes, ring⟩, apart⟩ := admits
    exact listSpliceTailInit_spells spells ring donor apart
  | store node link => exact spells.store admits link

end Calls

/-! ## Runs of calls -/

/-- The memory and the lists it is to spell. -/
structure ListState where
  /-- The memory. -/
  links : Links Address
  /-- The entries of each list. -/
  lists : Rings Address

/-- Any memory without a list, and any call after any other. -/
def listCalls : Machine ListState ListCall where
  initial state := state.lists = fun _ => none
  step state call := some ⟨call.perform state.links, call.effect state.lists⟩

/-! ## Iterating while entries leave -/

section Iteration

variable {σ : Type*}

/-- The turns of a safe iteration: the next cursor is read before the body runs. -/
def safeTurns (follow : σ → Address → Address) (body : σ → Address → σ) (head : Address) :
    ℕ → Address → Address → σ → List Address × σ
  | 0, _, _, state => ([], state)
  | turns + 1, pos, n, state =>
    if pos = head then ([], state)
    else
      let after := body state pos
      let (visited, last) := safeTurns follow body head turns n (follow after n) after
      (pos :: visited, last)

/-- `list_for_each_safe` — the entries visited and the state left, with a bound on the turns. -/
def listForEachSafe (view : σ → Links Address) (body : σ → Address → σ) (head : Address)
    (turns : ℕ) (state : σ) : List Address × σ :=
  let pos := (view state head).next
  safeTurns (fun state node => (view state node).next) body head turns pos (view state pos).next
    state

/-- `list_for_each_prev_safe` — the entries visited and the state left, with a bound on the
turns. -/
def listForEachPrevSafe (view : σ → Links Address) (body : σ → Address → σ) (head : Address)
    (turns : ℕ) (state : σ) : List Address × σ :=
  let pos := (view state head).prev
  safeTurns (fun state node => (view state node).prev) body head turns pos (view state pos).prev
    state

variable {view : σ → Links Address} {body : σ → Address → σ} {head : Address}
  {nodes : List Address}

/-- A body that may do anything to the entries behind its cursor and to its cursor, but leaves
those that are still to come. -/
def Spares (view : σ → Links Address) (body : σ → Address → σ) (head : Address)
    (keeps : σ → Prop) : Prop :=
  ∀ state passed pos rest, keeps state → Circular (view state) head (passed ++ pos :: rest) →
    keeps (body state pos) ∧ ∃ passed, Circular (view (body state pos)) head (passed ++ rest)

/-- The turns of a safe iteration over the entries still to come. -/
theorem safeTurns_eq {keeps : σ → Prop} (spares : Spares view body head keeps)
    {rest passed : List Address} {state : σ} {pos n : Address} {turns : ℕ} (kept : keeps state)
    (ring : Circular (view state) head (passed ++ rest)) (here : pos = rest.headD head)
    (later : rest ≠ [] → n = rest.tail.headD head) (enough : rest.length < turns) :
    safeTurns (fun state node => (view state node).next) body head turns pos n state =
      (rest, rest.foldl body state) := by
  induction rest generalizing passed state pos n turns with
  | nil =>
    obtain ⟨turns, rfl⟩ := Nat.exists_eq_succ_of_ne_zero (Nat.ne_of_gt enough)
    have ends : pos = head := here
    rw [safeTurns, if_pos ends]
    rfl
  | cons entry rest ih =>
    obtain ⟨turns, rfl⟩ := Nat.exists_eq_succ_of_ne_zero (Nat.ne_of_gt (Nat.zero_lt_of_lt enough))
    obtain rfl : pos = entry := here
    have apart : pos ≠ head := by
      rintro rfl
      exact (List.nodup_cons.mp ring.distinct).1 (by simp)
    have onward : n = rest.headD head := later (List.cons_ne_nil pos rest)
    obtain ⟨kept', passed', ring'⟩ := spares state passed pos rest kept ring
    have following : rest ≠ [] → (view (body state pos) n).next = rest.tail.headD head := by
      intro more
      obtain ⟨next, rest, rfl⟩ := List.exists_cons_of_ne_nil more
      obtain rfl : n = next := onward
      exact ring'.next_headD
    have turned := ih kept' ring' onward following (by simpa using enough)
    rw [safeTurns, if_neg apart]
    simp only [turned, List.foldl_cons]

/-- `list_for_each_safe` runs its body on the entries the list had, each once and in order. -/
theorem listForEachSafe_eq {keeps : σ → Prop} (spares : Spares view body head keeps) {state : σ}
    (kept : keeps state) (ring : Circular (view state) head nodes) {turns : ℕ}
    (enough : nodes.length < turns) :
    listForEachSafe view body head turns state = (nodes, nodes.foldl body state) := by
  have begins : (view state head).next = nodes.headD head := by
    cases nodes with
    | nil => exact ring.path.1
    | cons node nodes => exact ring.path.1.1
  apply @safeTurns_eq _ _ _ _ _ spares _ [] _ _ _ _ kept ring begins _ enough
  intro some_entry
  obtain ⟨node, nodes, rfl⟩ := List.exists_cons_of_ne_nil some_entry
  have split : Circular (view state) head ([] ++ node :: nodes) := ring
  rw [begins]
  exact split.next_headD

/-- `list_for_each_prev_safe` runs its body on the entries the list had, each once and in the
opposite order, under a body that leaves the entries before its cursor. -/
theorem listForEachPrevSafe_eq {keeps : σ → Prop}
    (spares : Spares (fun state => (view state).flip) body head keeps) {state : σ}
    (kept : keeps state) (ring : Circular (view state) head nodes) {turns : ℕ}
    (enough : nodes.length < turns) :
    listForEachPrevSafe view body head turns state =
      (nodes.reverse, nodes.reverse.foldl body state) :=
  listForEachSafe_eq spares kept ring.flip (by simpa using enough)

end Iteration

/-- What the queries and the iterations answer about a list. -/
structure Answers (links : Links Address) (head : Address) (nodes : List Address) : Prop where
  /-- `list_empty` and `list_empty_careful` tell whether there is an entry. -/
  empty : (listEmpty links head = true ↔ nodes = []) ∧
    (listEmptyCareful links head = true ↔ nodes = [])
  /-- `list_is_singular` tells whether there is exactly one. -/
  singular : listIsSingular links head = true ↔ nodes.length = 1
  /-- `list_first_entry` is the front entry of a list that has one. -/
  front : ∀ first ∈ nodes.head?, listFirstEntry links head = first
  /-- `list_is_last` tells whether an entry is the back entry. -/
  back : ∀ entry ∈ nodes, listIsLast links entry head = true ↔ nodes.getLast? = some entry
  /-- `list_for_each` visits the entries in order and `list_for_each_prev` in the opposite order,
  and both end. -/
  visits : ∀ turns, nodes.length < turns →
    listForEach links head turns = nodes ∧ listForEachPrev links head turns = nodes.reverse

/-- A ring answers as its list. -/
theorem circular_answers {links : Links Address} {head : Address} {nodes : List Address}
    (ring : Circular links head nodes) : Answers links head nodes where
  empty := ⟨listEmpty_iff ring, listEmptyCareful_iff ring⟩
  singular := listIsSingular_iff ring
  front := by
    intro first begins
    cases nodes with
    | nil => cases begins
    | cons node nodes => exact Option.some.inj begins ▸ ring.path.1.1
  back := fun _ inside => listIsLast_iff ring inside
  visits := fun _ enough => listForEach_eq ring enough

/-- Every run of allowed calls keeps the memory spelling the lists. -/
theorem lists_spelled {start last : ListState} {calls : List ListCall}
    (initial : listCalls.initial start)
    (allowed : listCalls.Obeys (fun state call => call.Admits state.lists) start calls)
    (ran : listCalls.run start calls = some last) : Spells last.links last.lists := by
  apply listCalls.run_obeys_invariant (fun state => Spells state.links state.lists) _ allowed
    _ ran
  · intro state call next admits spells stepped
    obtain rfl := Option.some.inj stepped
    exact call.perform_spells spells admits
  · rw [initial]
    exact spells_none start.links

/-- In every run of allowed calls, every query and every iteration on every list gives the answer
of the abstract list, and no node is on two lists. -/
theorem lists_keep_their_entries {start last : ListState} {calls : List ListCall}
    (initial : listCalls.initial start)
    (allowed : listCalls.Obeys (fun state call => call.Admits state.lists) start calls)
    (ran : listCalls.run start calls = some last) :
    (∀ head nodes, last.lists head = some nodes → Answers last.links head nodes) ∧
    (∀ first second node, last.lists.Owns first node → last.lists.Owns second node →
      first = second) := by
  have spells := lists_spelled initial allowed ran
  exact ⟨fun head nodes ring => circular_answers (spells.circular ring),
    fun first second node => spells.apart⟩

/-- Memory that is all null, before any list is made. -/
def noLists : ListState := ⟨fun _ => ⟨null, null⟩, fun _ => none⟩

/-- Two lists are made, and one of them gets two entries. -/
def twoLists : List ListCall := [.init 1, .init 2, .addTail 3 1, .addTail 4 1]

/-- Making two lists and splicing one into the other is allowed. -/
theorem twoLists_allowed : listCalls.Obeys (fun state call => call.Admits state.lists) noLists
    (twoLists ++ [.spliceTail 1 2]) := by
  have unshared : (noLists.lists).Unshared 1 := by
    rintro head ⟨_, found, _⟩
    cases found
  refine .cons unshared rfl (.cons ?_ rfl (.cons ⟨⟨[], rfl⟩, ?_⟩ rfl (.cons ⟨⟨[3], rfl⟩, ?_⟩ rfl
    (.cons ⟨⟨[3, 4], rfl⟩, ⟨[], rfl⟩, by decide⟩ rfl trivial)))) <;>
  · rintro head ⟨nodes, found, inside⟩
    simp only [ListCall.effect, ListCall.edit, noLists, update_apply] at found
    grind

/-- After the entries of one list are spliced into another, that one answers for them. -/
theorem spliced_answers : ∃ last,
    listCalls.run noLists (twoLists ++ [.spliceTail 1 2]) = some last ∧ last.lists 1 = none ∧
    Answers last.links 2 [3, 4] :=
  have initial : listCalls.initial noLists := rfl
  ⟨_, rfl, rfl, (lists_keep_their_entries initial twoLists_allowed rfl).1 2 [3, 4] rfl⟩

/-! ## Sorting a list in one pass -/

/-- What the body of an iteration does with an entry. -/
inductive Fate
  /-- The entry stays. -/
  | keep
  /-- `list_del`. -/
  | del
  /-- `list_del_init`. -/
  | delInit
  /-- `list_move`. -/
  | move (head : Address)
  /-- `list_move_tail`. -/
  | moveTail (head : Address)
  deriving DecidableEq

namespace Fate

/-- The call that deals with an entry, if there is one. -/
def call (entry : Address) : Fate → Option ListCall
  | keep => none
  | del => some (.del entry)
  | delInit => some (.delInit entry)
  | move head => some (.move entry head)
  | moveTail head => some (.moveTail entry head)

/-- The other list an entry goes to. -/
def target : Fate → Option Address
  | move head | moveTail head => some head
  | _ => none

end Fate

/-- A body that deals with each entry as its fate says. -/
def dispatch (fate : Address → Fate) (state : ListState) (entry : Address) : ListState :=
  match (fate entry).call entry with
  | none => state
  | some call => ⟨call.perform state.links, call.effect state.lists⟩

/-- The memory spells the lists, and the lists that entries may go to are there. -/
structure Ready (fate : Address → Fate) (head : Address) (state : ListState) : Prop where
  /-- The memory spells the lists. -/
  spells : Spells state.links state.lists
  /-- A target is another list. -/
  target : ∀ entry other, (fate entry).target = some other →
    other ≠ head ∧ ∃ entries, state.lists other = some entries

/-- The entries of the list after one entry has met its fate. -/
def Fate.stay (fate : Fate) (entry : Address) : List Address := if fate = .keep then [entry] else []

/-- What another list gets in front and at its back from an entry. -/
def Fate.gift (fate : Fate) (entry other : Address) (entries : List Address) : List Address :=
  (if fate = .move other then [entry] else []) ++ entries ++
    if fate = .moveTail other then [entry] else []

/-- A call deals with an entry of a list in the way its fate says, and every call is allowed. -/
theorem fate_effect {fate : Address → Fate} {head pos : Address} {state : ListState}
    {passed rest : List Address} {call : ListCall} (ready : Ready fate head state)
    (ring : state.lists head = some (passed ++ pos :: rest))
    (met : (fate pos).call pos = some call) :
    call.Admits state.lists ∧ call.effect state.lists head = some (passed ++ rest) ∧
    (fate pos).stay pos = [] ∧
    ∀ other entries, other ≠ head → state.lists other = some entries →
      call.effect state.lists other = some ((fate pos).gift pos other entries) := by
  have distinct := (ready.spells.circular ring).distinct
  have owns : state.lists.Owns head pos := (Rings.owns_iff ring).mpr (by simp)
  have linked : state.lists.Linked pos := .inr ⟨head, _, ring, by simp⟩
  have apart : pos ≠ head := by
    rintro rfl
    exact (List.nodup_cons.mp distinct).1 (by simp)
  have atHead : state.lists.withdraw pos head = some (passed ++ rest) := by
    have absent : pos ∉ passed := fun inside =>
      (List.nodup_middle.mp (List.nodup_cons.mp distinct).2).notMem (by simp [inside])
    rw [withdraw_head ring apart, List.erase_append_right _ absent, List.erase_cons_head]
  have atOther : ∀ other entries, other ≠ head → state.lists other = some entries →
      state.lists.withdraw pos other = some entries := by
    intro other entries differs found
    rw [ready.spells.withdraw_kept owns differs, found]
  have notPos : ∀ other entries, other ≠ head → state.lists other = some entries →
      other ≠ pos := by
    rintro other entries differs found rfl
    exact differs (ready.spells.apart ⟨entries, found, List.mem_cons_self⟩ owns)
  have targeted := ready.target pos
  cases is : fate pos with
  | keep =>
    rw [is] at met
    cases met
  | del =>
    rw [is] at met
    obtain rfl := Option.some.inj met
    refine ⟨linked, atHead, rfl, fun other entries differs found => ?_⟩
    rw [ListCall.effect, atOther other entries differs found]
    simp [Fate.gift]
  | delInit =>
    rw [is] at met
    obtain rfl := Option.some.inj met
    refine ⟨linked, ?_, rfl, fun other entries differs found => ?_⟩
    · rw [ListCall.effect, update_of_ne apart.symm, atHead]
    · rw [ListCall.effect, update_of_ne (notPos other entries differs found),
        atOther other entries differs found]
      simp [Fate.gift]
  | move target =>
    rw [is] at met targeted
    obtain rfl := Option.some.inj met
    obtain ⟨elsewhere, entries, found⟩ := targeted target rfl
    refine ⟨⟨⟨entries, found⟩, linked, (notPos target entries elsewhere found).symm⟩, ?_, rfl, ?_⟩
    · rw [ListCall.effect, edit_of_ne elsewhere.symm, atHead]
    · intro other held differs found
      have kept := atOther other held differs found
      by_cases same : other = target
      · subst same
        rw [ListCall.effect, edit_self kept]
        simp [Fate.gift]
      · rw [ListCall.effect, edit_of_ne same, kept]
        simp [Fate.gift, Ne.symm same]
  | moveTail target =>
    rw [is] at met targeted
    obtain rfl := Option.some.inj met
    obtain ⟨elsewhere, entries, found⟩ := targeted target rfl
    refine ⟨⟨⟨entries, found⟩, linked, (notPos target entries elsewhere found).symm⟩, ?_, rfl, ?_⟩
    · rw [ListCall.effect, edit_of_ne elsewhere.symm, atHead]
    · intro other held differs found
      have kept := atOther other held differs found
      by_cases same : other = target
      · subst same
        rw [ListCall.effect, edit_self kept]
        simp [Fate.gift]
      · rw [ListCall.effect, edit_of_ne same, kept]
        simp [Fate.gift, Ne.symm same]

/-- One turn of the pass takes the entry out unless it stays, and hands it to its target. -/
theorem dispatch_step {fate : Address → Fate} {head pos : Address} {state : ListState}
    {passed rest : List Address} (ready : Ready fate head state)
    (ring : state.lists head = some (passed ++ pos :: rest)) :
    Ready fate head (dispatch fate state pos) ∧
    (dispatch fate state pos).lists head = some (passed ++ (fate pos).stay pos ++ rest) ∧
    ∀ other entries, other ≠ head → state.lists other = some entries →
      (dispatch fate state pos).lists other = some ((fate pos).gift pos other entries) := by
  rw [dispatch]
  cases met : (fate pos).call pos with
  | none =>
    have stays : fate pos = .keep := by
      cases is : fate pos <;> simp_all [Fate.call]
    refine ⟨ready, ?_, fun other entries _ found => ?_⟩
    · simpa [stays, Fate.stay] using ring
    · simpa [stays, Fate.gift] using found
  | some call =>
    obtain ⟨admits, atHead, gone, gifts⟩ := fate_effect ready ring met
    refine ⟨⟨call.perform_spells ready.spells admits, fun entry other aims => ?_⟩, ?_, gifts⟩
    · obtain ⟨differs, entries, found⟩ := ready.target entry other aims
      exact ⟨differs, _, gifts other entries differs found⟩
    · rw [gone, List.append_nil]
      exact atHead

/-- The pass over the entries still to come. -/
theorem dispatch_run {fate : Address → Fate} {head : Address} {state : ListState}
    {passed rest : List Address} (ready : Ready fate head state)
    (ring : state.lists head = some (passed ++ rest)) :
    Ready fate head (rest.foldl (dispatch fate) state) ∧
    (rest.foldl (dispatch fate) state).lists head =
      some (passed ++ rest.filter fun entry => fate entry = .keep) ∧
    ∀ other entries, other ≠ head → state.lists other = some entries →
      (rest.foldl (dispatch fate) state).lists other =
        some ((rest.filter fun entry => fate entry = .move other).reverse ++ entries ++
          rest.filter fun entry => fate entry = .moveTail other) := by
  induction rest generalizing state passed with
  | nil => exact ⟨ready, by simpa using ring, fun other entries _ found => by simpa using found⟩
  | cons pos rest ih =>
    obtain ⟨ready', atHead, gifts⟩ := dispatch_step ready ring
    obtain ⟨last, sorted, given⟩ := ih ready' atHead
    refine ⟨last, ?_, fun other entries differs found => ?_⟩
    · rw [List.foldl_cons, sorted]
      by_cases stays : fate pos = .keep <;> simp [Fate.stay, stays]
    · rw [List.foldl_cons, given other _ differs (gifts other entries differs found)]
      by_cases front : fate pos = .move other <;> by_cases back : fate pos = .moveTail other <;>
        simp_all [Fate.gift]

/-- One pass of `list_for_each_safe` whose body deletes entries or moves them to other lists sorts
the list: it visits every entry once and in order, leaves those that stay, and gives every other
list the entries moved to its front, the last one first, and those moved to its back, in order. -/
theorem list_for_each_safe_sorts {fate : Address → Fate} {head : Address} {state : ListState}
    {nodes : List Address} {turns : ℕ} (ready : Ready fate head state)
    (ring : state.lists head = some nodes) (enough : nodes.length < turns) :
    ∃ last, listForEachSafe ListState.links (dispatch fate) head turns state = (nodes, last) ∧
      Spells last.links last.lists ∧
      last.lists head = some (nodes.filter fun entry => fate entry = .keep) ∧
      ∀ other entries, other ≠ head → state.lists other = some entries →
        last.lists other = some ((nodes.filter fun entry => fate entry = .move other).reverse ++
          entries ++ nodes.filter fun entry => fate entry = .moveTail other) := by
  have spares : Spares ListState.links (dispatch fate) head fun state =>
      Ready fate head state ∧ ∃ entries, state.lists head = some entries := by
    rintro state passed pos rest ⟨ready, entries, found⟩ circular
    obtain rfl := (ready.spells.circular found).unique circular
    obtain ⟨ready', atHead, -⟩ := dispatch_step ready found
    exact ⟨⟨ready', _, atHead⟩, _, ready'.spells.circular atHead⟩
  have whole : state.lists head = some ([] ++ nodes) := ring
  obtain ⟨last, sorted, given⟩ := dispatch_run ready whole
  exact ⟨_, listForEachSafe_eq spares ⟨ready, nodes, ring⟩ (ready.spells.circular ring) enough,
    last.spells, sorted, given⟩

/-- A list of two entries is sorted: the first goes to the other list, the second stays. -/
theorem two_entries_sorted : ∃ state last, listCalls.run noLists twoLists = some state ∧
    listForEachSafe ListState.links (dispatch fun entry => if entry = 3 then .moveTail 2 else .keep)
      1 3 state = ([3, 4], last) ∧ last.lists 1 = some [4] ∧ last.lists 2 = some [3] := by
  let state := twoLists.foldl
    (fun state call => ⟨call.perform state.links, call.effect state.lists⟩) noLists
  have initial : listCalls.initial noLists := rfl
  have ready : Ready (fun entry => if entry = 3 then .moveTail 2 else .keep) 1 state := by
    refine ⟨lists_spelled initial twoLists_allowed.front rfl, fun entry other aims => ?_⟩
    split at aims
    · obtain rfl := Option.some.inj aims
      exact ⟨by decide, [], rfl⟩
    · cases aims
  have entries : state.lists 1 = some [3, 4] := rfl
  obtain ⟨last, passed, -, stayed, moved⟩ :=
    list_for_each_safe_sorts ready entries (show 2 < 3 by decide)
  exact ⟨state, last, rfl, passed, stayed, moved 2 [] (by decide) rfl⟩

end SysServer
