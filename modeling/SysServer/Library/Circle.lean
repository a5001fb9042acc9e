import Mathlib.Data.List.Induction
import Mathlib.Data.List.Nodup
import Mathlib.Logic.Function.Basic

/-!
# Circular doubly linked lists

Every node of a memory has a link before it and a link after it. `Circular links head nodes` says
that the nodes, in order, lie on one ring through `head`, with the two directions mutually
inverse along it. The ring is determined by the memory, it depends only on the memory of its own
nodes, and the two edits that a queue needs, splicing a node in at the back and cutting the front
node out, are proved here for rings of every length.
-/

namespace Library

open Function

/-- The two links of a node. -/
structure Link (α : Type*) where
  /-- The node before. -/
  prev : α
  /-- The node after. -/
  next : α
  deriving DecidableEq

/-- A memory of linked nodes. -/
abbrev Links (α : Type*) := α → Link α

variable {α : Type*}

namespace Links

variable [DecidableEq α]

/-- Store the link after a node. -/
def setNext (links : Links α) (node value : α) : Links α :=
  update links node { links node with next := value }

/-- Store the link before a node. -/
def setPrev (links : Links α) (node value : α) : Links α :=
  update links node { links node with prev := value }

/-- Storing a next link is seen at its node only. -/
@[simp] theorem setNext_next (links : Links α) (node value other : α) :
    (links.setNext node value other).next = if other = node then value else (links other).next := by
  by_cases same : other = node
  · subst same
    simp [setNext]
  · simp [setNext, same]

/-- Storing a next link leaves every prev link. -/
@[simp] theorem setNext_prev (links : Links α) (node value other : α) :
    (links.setNext node value other).prev = (links other).prev := by
  by_cases same : other = node
  · subst same
    simp [setNext]
  · simp [setNext, same]

/-- Storing a prev link is seen at its node only. -/
@[simp] theorem setPrev_prev (links : Links α) (node value other : α) :
    (links.setPrev node value other).prev = if other = node then value else (links other).prev := by
  by_cases same : other = node
  · subst same
    simp [setPrev]
  · simp [setPrev, same]

/-- Storing a prev link leaves every next link. -/
@[simp] theorem setPrev_next (links : Links α) (node value other : α) :
    (links.setPrev node value other).next = (links other).next := by
  by_cases same : other = node
  · subst same
    simp [setPrev]
  · simp [setPrev, same]

end Links

/-- Each of two neighbours names the other. -/
def Adjacent (links : Links α) (left right : α) : Prop :=
  (links left).next = right ∧ (links right).prev = left

/-- The nodes lead from the first node to the last, both ways. -/
def Path (links : Links α) : α → List α → α → Prop
  | first, [], last => Adjacent links first last
  | first, node :: nodes, last => Adjacent links first node ∧ Path links node nodes last

/-- The nodes lie in order on a ring through the head, without repetition. -/
structure Circular (links : Links α) (head : α) (nodes : List α) : Prop where
  /-- No node occurs twice, and the head is not among them. -/
  distinct : (head :: nodes).Nodup
  /-- The ring itself. -/
  path : Path links head nodes head

/-- A path through a node is a path to it and a path from it. -/
theorem path_append {links : Links α} {first middle last : α} {front back : List α} :
    Path links first (front ++ middle :: back) last ↔
      Path links first front middle ∧ Path links middle back last := by
  induction front generalizing first with
  | nil => simp [Path]
  | cons node front ih => simp [Path, ih, and_assoc]

/-- A path reads the next links of all nodes but its last and the prev links of all but its
first; a memory that agrees on those has the same path. -/
theorem Path.congr {before after : Links α} {first last : α} {nodes : List α}
    (path : Path before first nodes last)
    (forward : ∀ node ∈ first :: nodes, (after node).next = (before node).next)
    (backward : ∀ node ∈ nodes ++ [last], (after node).prev = (before node).prev) :
    Path after first nodes last := by
  induction nodes generalizing first with
  | nil =>
    exact ⟨(forward first List.mem_cons_self).trans path.1,
      (backward last (by simp)).trans path.2⟩
  | cons node nodes ih =>
    refine ⟨⟨(forward first List.mem_cons_self).trans path.1.1,
      (backward node (by simp)).trans path.1.2⟩, ih path.2 ?_ ?_⟩
    · exact fun other inside => forward other (List.mem_cons_of_mem first inside)
    · exact fun other inside => backward other (by simpa using Or.inr (by simpa using inside))

/-- A ring depends on the memory of its own nodes only. -/
theorem Circular.congr {before after : Links α} {head : α} {nodes : List α}
    (ring : Circular before head nodes)
    (same : ∀ node ∈ head :: nodes, after node = before node) : Circular after head nodes := by
  refine ⟨ring.distinct, ring.path.congr (fun node inside => by rw [same node inside]) ?_⟩
  intro node inside
  rw [same node (by simpa [or_comm] using inside)]

/-- The node before the end of a path is its last node. -/
theorem Path.prev_last {links : Links α} {first last : α} {nodes : List α}
    (path : Path links first nodes last) :
    (links last).prev = (first :: nodes).getLast (List.cons_ne_nil first nodes) := by
  induction nodes generalizing first with
  | nil => exact path.2
  | cons node nodes ih => rw [ih path.2, List.getLast_cons (List.cons_ne_nil node nodes)]

/-- The node before the next of a node on a path is the node itself. -/
theorem Path.prev_next {links : Links α} {first last node : α} {nodes : List α}
    (path : Path links first nodes last) (inside : node ∈ first :: nodes) :
    (links (links node).next).prev = node := by
  induction nodes generalizing first with
  | nil =>
    obtain rfl := List.mem_singleton.mp inside
    rw [path.1, path.2]
  | cons other nodes ih =>
    rcases List.mem_cons.mp inside with rfl | later
    · rw [path.1.1, path.1.2]
    · exact ih path.2 later

/-- The next of the node before the end of a path is the end. -/
theorem Path.next_prev {links : Links α} {first last node : α} {nodes : List α}
    (path : Path links first nodes last) (inside : node ∈ nodes ++ [last]) :
    (links (links node).prev).next = node := by
  induction nodes generalizing first with
  | nil =>
    obtain rfl := List.mem_singleton.mp inside
    rw [path.2, path.1]
  | cons other nodes ih =>
    rcases List.mem_cons.mp inside with rfl | later
    · rw [path.1.2, path.1.1]
    · exact ih path.2 later

/-- Going on and back again stays on a node of a ring. -/
theorem Circular.prev_next {links : Links α} {head node : α} {nodes : List α}
    (ring : Circular links head nodes) (inside : node ∈ head :: nodes) :
    (links (links node).next).prev = node := ring.path.prev_next inside

/-- Going back and on again stays on a node of a ring. -/
theorem Circular.next_prev {links : Links α} {head node : α} {nodes : List α}
    (ring : Circular links head nodes) (inside : node ∈ head :: nodes) :
    (links (links node).prev).next = node :=
  ring.path.next_prev (by simpa [or_comm] using inside)

/-- Two nodes of a ring with one successor are one node. -/
theorem Circular.next_injective {links : Links α} {head left right : α} {nodes : List α}
    (ring : Circular links head nodes) (first : left ∈ head :: nodes)
    (second : right ∈ head :: nodes) (same : (links left).next = (links right).next) :
    left = right := by
  rw [← ring.prev_next first, same, ring.prev_next second]

section Edit

variable [DecidableEq α]

/-- A node that names itself both ways is the empty ring. -/
theorem circular_singleton (links : Links α) (head : α) :
    Circular ((links.setNext head head).setPrev head head) head [] :=
  ⟨by simp, by simp [Path, Adjacent]⟩

/-- Splicing a node in between the last node and the head puts it at the back of the ring. -/
theorem Circular.splice_back {links : Links α} {head node : α} {nodes : List α}
    (ring : Circular links head nodes) (fresh : node ∉ head :: nodes) :
    Circular ((((links.setPrev head node).setNext node head).setPrev node
      (links head).prev).setNext (links head).prev node) head (nodes ++ [node]) := by
  obtain ⟨apart, outside⟩ := not_or.mp (mt List.mem_cons.mpr fresh)
  obtain ⟨headOut, distinct⟩ := List.nodup_cons.mp ring.distinct
  constructor
  · rw [← List.cons_append]
    exact ring.distinct.append (List.nodup_singleton node) (by simpa using ⟨apart, outside⟩)
  · rw [path_append]
    rcases List.eq_nil_or_concat' nodes with rfl | ⟨front, last, rfl⟩
    · -- The head is its own neighbour, so all four links written belong to the two nodes.
      have back : (links head).prev = head := ring.path.2
      rw [back]
      constructor <;> simp [Path, Adjacent, apart]
    · obtain ⟨onto, off⟩ := path_append.mp ring.path
      have back : (links head).prev = last := off.2
      have lastFront : last ∉ front := fun inside =>
        (List.nodup_append.mp distinct).2.2 last inside last (by simp) rfl
      have lastHead : last ≠ head := fun same => headOut (by simp [same])
      have lastNode : node ≠ last := fun same => outside (by simp [same])
      rw [back]
      refine ⟨path_append.mpr ⟨onto.congr ?_ ?_, ?_⟩, ?_⟩
      · -- The next links before the last node stay: only the node's and the last one's change.
        intro other inside
        have notLast : other ≠ last := by
          rintro rfl
          exact (List.mem_cons.mp inside).elim lastHead lastFront
        have notNode : other ≠ node := by
          rintro rfl
          exact (List.mem_cons.mp inside).elim apart fun within => outside (by simp [within])
        simp [notLast, notNode]
      · intro other inside
        have notHead : other ≠ head := fun same => headOut (same ▸ inside)
        have notNode : other ≠ node := fun same => outside (same ▸ inside)
        simp [notHead, notNode]
      · simp [Path, Adjacent]
      · simp [Path, Adjacent, Ne.symm apart, lastNode]

/-- Cutting the front node out joins the head to the node after it. -/
theorem Circular.cut_front {links : Links α} {head node : α} {nodes : List α}
    (ring : Circular links head (node :: nodes)) :
    Circular ((links.setPrev (links node).next (links node).prev).setNext (links node).prev
      (links node).next) head nodes := by
  obtain ⟨headOut, distinct⟩ := List.nodup_cons.mp ring.distinct
  obtain ⟨-, headRest⟩ := not_or.mp (mt List.mem_cons.mpr headOut)
  have onto : Adjacent links head node ∧ Path links node nodes head := ring.path
  rw [onto.1.2]
  refine ⟨List.nodup_cons.mpr ⟨headRest, (List.nodup_cons.mp distinct).2⟩, ?_⟩
  cases nodes with
  | nil =>
    rw [show (links node).next = head from onto.2.1]
    simp [Path, Adjacent]
  | cons next rest =>
    rw [show (links node).next = next from onto.2.1.1]
    refine ⟨by simp [Adjacent], onto.2.2.congr ?_ ?_⟩
    · intro other inside
      have notHead : other ≠ head := fun same => headRest (same ▸ inside)
      simp [notHead]
    · intro other inside
      have notNext : other ≠ next := by
        rintro rfl
        rcases List.mem_append.mp inside with within | same
        · exact (List.nodup_cons.mp (List.nodup_cons.mp distinct).2).1 within
        · exact headRest (List.mem_singleton.mp same ▸ List.mem_cons_self)
      simp [notNext]

end Edit

/-- Follow one direction from a node, collecting the nodes before the head comes again; the fuel
bounds the walk. -/
def walk [DecidableEq α] (direction : α → α) (head : α) : ℕ → α → List α
  | 0, _ => []
  | fuel + 1, node =>
    if direction node = head then [] else
      direction node :: walk direction head fuel (direction node)

/-- Walking on from the head of a ring visits its nodes in order and stops. -/
theorem Circular.walk_next [DecidableEq α] {links : Links α} {head : α} {nodes : List α}
    (ring : Circular links head nodes) {fuel : ℕ} (enough : nodes.length < fuel) :
    walk (fun node => (links node).next) head fuel head = nodes := by
  have from_node : ∀ (nodes : List α) (start : α) (fuel : ℕ), nodes.length < fuel →
      head ∉ nodes → Path links start nodes head →
      walk (fun node => (links node).next) head fuel start = nodes := by
    intro nodes
    induction nodes with
    | nil =>
      rintro start (_ | fuel) enough _ path
      · exact absurd enough (Nat.not_lt_zero _)
      · simp [walk, path.1]
    | cons node nodes ih =>
      rintro start (_ | fuel) enough apart path
      · exact absurd enough (Nat.not_lt_zero _)
      · have differs : node ≠ head := fun same => apart (by simp [same])
        have rest := ih node fuel (by simpa using enough)
          (fun inside => apart (List.mem_cons_of_mem node inside)) path.2
        simp [walk, path.1.1, differs, rest]
  exact from_node nodes head fuel enough (List.nodup_cons.mp ring.distinct).1 ring.path

/-- Walking back from the head of a ring visits its nodes in the opposite order and stops. -/
theorem Circular.walk_prev [DecidableEq α] {links : Links α} {head : α} {nodes : List α}
    (ring : Circular links head nodes) {fuel : ℕ} (enough : nodes.length < fuel) :
    walk (fun node => (links node).prev) head fuel head = nodes.reverse := by
  have to_node : ∀ (nodes : List α) (stop : α) (fuel : ℕ), nodes.length < fuel →
      head ∉ nodes → Path links head nodes stop →
      walk (fun node => (links node).prev) head fuel stop = nodes.reverse := by
    intro nodes
    induction nodes using List.reverseRecOn with
    | nil =>
      rintro stop (_ | fuel) enough _ path
      · exact absurd enough (Nat.not_lt_zero _)
      · simp [walk, path.2]
    | append_singleton nodes node ih =>
      rintro stop (_ | fuel) enough apart path
      · exact absurd enough (Nat.not_lt_zero _)
      · obtain ⟨onto, off⟩ := path_append.mp path
        have differs : node ≠ head := fun same => apart (by simp [same])
        have rest := ih node fuel (by simpa using enough)
          (fun inside => apart (List.mem_append_left _ inside)) onto
        simp [walk, off.2, differs, rest]
  exact to_node nodes head fuel enough (List.nodup_cons.mp ring.distinct).1 ring.path

end Library
