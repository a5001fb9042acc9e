import Mathlib.Data.List.Nodup

/-!
# Chains of linked nodes

A memory gives each allocated node its content and the pointer after it. `Chain cell start items`
says that following the pointers from `start` visits exactly the listed nodes, each with its
content, and ends at the null pointer: the chain is finite by construction, it is determined by
the memory, and therefore no node occurs on it twice.
-/

namespace Library

variable {α β : Type*} {cell after : α → Option (β × Option α)} {start : Option α}

/-- How many nodes come behind a node, of at most so many. -/
def behind (cell : α → Option (β × Option α)) : ℕ → α → ℕ
  | 0, _ => 0
  | most + 1, node =>
    match cell node with
    | some (_, some next) => behind cell most next + 1
    | _ => 0

/-- The pointers from the start spell the items and end at the null pointer. -/
def Chain (cell : α → Option (β × Option α)) : Option α → List (α × β) → Prop
  | start, [] => start = none
  | start, (node, content) :: rest =>
    start = some node ∧ ∃ next, cell node = some (content, next) ∧ Chain cell next rest

/-- The memory determines the chain. -/
theorem Chain.unique {left right : List (α × β)} (first : Chain cell start left)
    (second : Chain cell start right) : left = right := by
  induction left generalizing start right with
  | nil =>
    cases right with
    | nil => rfl
    | cons item right => exact absurd (first.symm.trans second.1) (by simp)
  | cons item left ih =>
    obtain ⟨begins, next, stored, rest⟩ := first
    cases right with
    | nil => exact absurd (second.symm.trans begins) (by simp)
    | cons other right =>
      obtain ⟨begins', next', stored', rest'⟩ := second
      have node : item.1 = other.1 := Option.some.inj (begins.symm.trans begins')
      rw [node, stored'] at stored
      obtain ⟨content, rfl⟩ := Prod.mk.inj (Option.some.inj stored)
      rw [ih rest rest', Prod.ext node content.symm]

/-- From every node of a chain the rest of the chain is spelled. -/
theorem Chain.from_mem {items : List (α × β)} (chain : Chain cell start items) {node : α}
    (inside : node ∈ items.map Prod.fst) :
    ∃ rest, rest <:+ items ∧ Chain cell (some node) rest := by
  induction items generalizing start with
  | nil => simp at inside
  | cons item items ih =>
    obtain ⟨begins, next, stored, rest⟩ := chain
    rcases List.mem_cons.mp inside with rfl | later
    · exact ⟨item :: items, List.suffix_refl _, rfl, next, stored, rest⟩
    · obtain ⟨tail, suffix, spelled⟩ := ih rest later
      exact ⟨tail, suffix.trans (List.suffix_cons item items), spelled⟩

/-- The pointer of a node on a chain leads to a node on the chain. -/
theorem Chain.next_mem {items : List (α × β)} (chain : Chain cell start items) {node next : α}
    {content : β} (inside : node ∈ items.map Prod.fst)
    (stored : cell node = some (content, some next)) : next ∈ items.map Prod.fst := by
  obtain ⟨rest, suffix, spelled⟩ := chain.from_mem inside
  cases rest with
  | nil => exact absurd spelled (by simp [Chain])
  | cons item rest =>
    obtain ⟨begins, after, holds, follows⟩ := spelled
    rw [← Option.some.inj begins, stored] at holds
    obtain ⟨-, rfl⟩ := Prod.mk.inj (Option.some.inj holds)
    cases rest with
    | nil => exact absurd follows (by simp [Chain])
    | cons second rest =>
      have later : second ∈ items :=
        suffix.subset (List.mem_cons_of_mem item List.mem_cons_self)
      exact Option.some.inj follows.1 ▸ List.mem_map_of_mem later

/-- A chain is acyclic: no node occurs on it twice. -/
theorem Chain.nodup {items : List (α × β)} (chain : Chain cell start items) :
    (items.map Prod.fst).Nodup := by
  induction items generalizing start with
  | nil => exact List.nodup_nil
  | cons item items ih =>
    obtain ⟨begins, next, stored, rest⟩ := chain
    refine List.nodup_cons.mpr ⟨fun again => ?_, ih rest⟩
    -- A second visit would spell the whole chain and a shorter one from the same node.
    obtain ⟨tail, suffix, spelled⟩ := rest.from_mem again
    have whole : Chain cell (some item.1) (item :: items) := ⟨rfl, next, stored, rest⟩
    have longer := suffix.length_le
    rw [← whole.unique spelled, List.length_cons] at longer
    omega

/-- A chain depends on the memory of its own nodes only. -/
theorem Chain.congr {items : List (α × β)} (chain : Chain cell start items)
    (same : ∀ node ∈ items.map Prod.fst, after node = cell node) : Chain after start items := by
  induction items generalizing start with
  | nil => exact chain
  | cons item items ih =>
    obtain ⟨begins, next, stored, rest⟩ := chain
    refine ⟨begins, next, (same item.1 List.mem_cons_self).trans stored, ih rest ?_⟩
    exact fun node inside => same node (List.mem_cons_of_mem _ inside)

/-- Linking a fresh last node behind the node whose pointer is null puts it at the back. -/
theorem Chain.link_back {items : List (α × β)} {member node : α} {content added : β}
    (chain : Chain cell start items) (inside : member ∈ items.map Prod.fst)
    (ends : cell member = some (content, none)) (linked : after member = some (content, some node))
    (others : ∀ other, other ≠ member → after other = cell other)
    (fresh : after node = some (added, none)) :
    Chain after start (items ++ [(node, added)]) := by
  induction items generalizing start with
  | nil => simp at inside
  | cons item items ih =>
    obtain ⟨begins, next, stored, rest⟩ := chain
    by_cases last : item.1 = member
    · -- The member's pointer is null, so it is the last node.
      rw [last, ends] at stored
      obtain ⟨contents, rfl⟩ := Prod.mk.inj (Option.some.inj stored)
      obtain rfl : items = [] := by
        cases items with
        | nil => rfl
        | cons other items => exact absurd rest.1 (by simp)
      refine ⟨begins, some node, ?_, rfl, none, fresh, rfl⟩
      rw [last, linked, contents]
    · refine ⟨begins, next, (others _ last).trans stored, ih rest ?_⟩
      rcases List.mem_cons.mp inside with same | later
      · exact absurd same.symm last
      · exact later

/-- A chain with a null start is empty, and an empty chain starts at null. -/
theorem Chain.nil_iff {items : List (α × β)} (chain : Chain cell start items) :
    start = none ↔ items = [] := by
  cases items with
  | nil => exact ⟨fun _ => rfl, fun _ => chain⟩
  | cons item items => simp [chain.1]

/-- The front node of a chain that starts at a node, and the chain behind it. -/
theorem Chain.front {items : List (α × β)} {node : α} (chain : Chain cell (some node) items) :
    ∃ content next rest, items = (node, content) :: rest ∧ cell node = some (content, next) ∧
      Chain cell next rest := by
  cases items with
  | nil => exact absurd chain (by simp [Chain])
  | cons item items =>
    obtain ⟨begins, next, stored, rest⟩ := chain
    obtain rfl := Option.some.inj begins
    exact ⟨item.2, next, items, rfl, stored, rest⟩

/-- From its first node, the other nodes of a chain come behind. -/
theorem Chain.behind_eq {items : List (α × β)} {node : α} {most : ℕ}
    (chain : Chain cell (some node) items) (enough : items.length ≤ most) :
    behind cell most node + 1 = items.length := by
  induction items generalizing node most with
  | nil => exact absurd chain (by simp [Chain])
  | cons item items ih =>
    obtain ⟨begins, next, stored, rest⟩ := chain
    obtain rfl := Option.some.inj begins
    obtain ⟨most, rfl⟩ := Nat.exists_eq_add_of_le' (Nat.lt_of_lt_of_le (Nat.zero_lt_succ _) enough)
    cases next with
    | none =>
      have last := rest.nil_iff.mp rfl
      simp [Library.behind, stored, last]
    | some next =>
      have shorter := ih rest (Nat.le_of_succ_le_succ enough)
      simpa [Library.behind, stored] using shorter

end Library
