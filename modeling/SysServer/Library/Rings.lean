import Mathlib.Data.List.Perm.Basic
import SysServer.Library.Segment

/-!
# Several rings in one memory

The abstract view of a memory of linked nodes: which nodes are heads, and the entries behind each.
`Spells links rings` says that every head of the view lies on a ring of the memory with exactly its
entries and that no node is owned twice. A node that no ring owns is free: the memory may do
anything to it. An edit that stores into the rings it changes and into free nodes only is checked
on those rings alone; the edits of list libraries are instances.
-/

namespace Library

open Function

/-- The entries behind each head of a memory; `none` where a node is not a head. -/
abbrev Rings (α : Type*) := α → Option (List α)

variable {α : Type*}

namespace Rings

/-- The ring of a head runs through a node. -/
def Owns (rings : Rings α) (head node : α) : Prop :=
  ∃ nodes, rings head = some nodes ∧ node ∈ head :: nodes

/-- No ring runs through the node. -/
def Free (rings : Rings α) (node : α) : Prop := ∀ head, ¬ rings.Owns head node

/-- No ring but its own, if it has one, runs through the node. -/
def Unshared (rings : Rings α) (node : α) : Prop := ∀ head, rings.Owns head node → head = node

variable {rings : Rings α} {head node : α} {nodes : List α}

/-- The nodes a known ring owns. -/
theorem owns_iff (ring : rings head = some nodes) :
    rings.Owns head node ↔ node ∈ head :: nodes := by
  simp [Owns, ring]

/-- A free node is shared by nobody. -/
theorem Free.unshared (free : rings.Free node) : rings.Unshared node :=
  fun head owned => absurd owned (free head)

/-- A free node is not on a known ring. -/
theorem Free.outside (free : rings.Free node) (ring : rings head = some nodes) :
    node ∉ head :: nodes := fun inside => free head ((owns_iff ring).mpr inside)

end Rings

/-- Every ring of the view lies in the memory, and no node is owned twice. -/
structure Spells (links : Links α) (rings : Rings α) : Prop where
  /-- The entries of a head lie in order on its ring. -/
  circular : ∀ {head nodes}, rings head = some nodes → Circular links head nodes
  /-- A node has at most one owner. -/
  apart : ∀ {first second node}, rings.Owns first node → rings.Owns second node → first = second

variable {links after : Links α} {rings others : Rings α} {head list node : α}
  {nodes entries : List α}

/-- Any memory spells the view without rings. -/
theorem spells_none (links : Links α) : Spells links fun _ => none where
  circular := nofun
  apart := by
    rintro _ _ _ ⟨_, found, _⟩
    cases found

/-- An edit is checked on the rings it changes: it may store into their nodes and into free nodes,
and the nodes of the new rings come from there. -/
theorem Spells.edit (spells : Spells links rings) (changed : α → Prop)
    (kept : ∀ head, ¬ changed head → others head = rings head)
    (frame : ∀ head node, ¬ changed head → rings.Owns head node → after node = links node)
    (circular : ∀ head nodes, changed head → others head = some nodes → Circular after head nodes)
    (source : ∀ head node, changed head → others.Owns head node →
      rings.Free node ∨ ∃ owner, changed owner ∧ rings.Owns owner node)
    (apart : ∀ first second node, changed first → changed second → others.Owns first node →
      others.Owns second node → first = second) : Spells after others := by
  have before : ∀ head node, ¬ changed head → others.Owns head node → rings.Owns head node := by
    rintro head node same ⟨nodes, found, inside⟩
    exact ⟨nodes, kept head same ▸ found, inside⟩
  have cross : ∀ first second node, changed first → ¬ changed second → others.Owns first node →
      ¬ others.Owns second node := by
    intro first second node edited same owned owned'
    rcases source first node edited owned with free | ⟨owner, was, owns⟩
    · exact free second (before second node same owned')
    · exact same (spells.apart owns (before second node same owned') ▸ was)
  refine ⟨fun {head nodes} found => ?_, fun {first second node} owned owned' => ?_⟩
  · by_cases edited : changed head
    · exact circular head nodes edited found
    · have found' := (kept head edited).symm.trans found
      apply (spells.circular found').congr
      exact fun node inside => frame head node edited ((Rings.owns_iff found').mpr inside)
  · by_cases edited : changed first <;> by_cases edited' : changed second
    · exact apart first second node edited edited' owned owned'
    · exact absurd owned' (cross first second node edited edited' owned)
    · exact absurd owned (cross second first node edited' edited owned')
    · exact spells.apart (before first node edited owned) (before second node edited' owned')

/-- A store into a free node leaves every ring. -/
theorem Spells.store [DecidableEq α] (spells : Spells links rings) (free : rings.Free node)
    (link : Link α) : Spells (update links node link) rings := by
  apply spells.edit (fun _ => False) (fun _ _ => rfl) _ nofun nofun nofun
  intro head other _ owned
  have apart : other ≠ node := fun same => free head (same ▸ owned)
  exact update_of_ne apart _ _

section Edit

variable [DecidableEq α]

/-- An edit of one ring whose new nodes were on it or free. -/
theorem Spells.edit_one (spells : Spells links rings) (ring : rings head = some nodes)
    (circular : Circular after head entries)
    (source : ∀ node ∈ entries, node ∈ nodes ∨ rings.Free node)
    (frame : ∀ node, node ∉ head :: nodes → ¬ rings.Free node → after node = links node) :
    Spells after (update rings head (some entries)) := by
  apply spells.edit (· = head)
  · exact fun other differs => update_of_ne differs _ _
  · intro other node differs owned
    apply frame node
    · exact fun inside => differs (spells.apart owned ((Rings.owns_iff ring).mpr inside))
    · exact fun free => free other owned
  · rintro _ _ rfl found
    rw [update_self, Option.some.injEq] at found
    exact found ▸ circular
  · rintro _ node rfl owned
    rw [Rings.owns_iff (update_self _ _ _)] at owned
    rcases List.mem_cons.mp owned with rfl | inside
    · exact .inr ⟨node, rfl, (Rings.owns_iff ring).mpr List.mem_cons_self⟩
    · refine (source node inside).elim (fun was => .inr ⟨_, rfl, ?_⟩) .inl
      exact (Rings.owns_iff ring).mpr (List.mem_cons_of_mem _ was)
  · rintro _ _ _ rfl rfl _ _
    rfl

/-- A node that nobody shares becomes the head of an empty ring. -/
theorem Spells.init (spells : Spells links rings) (own : rings.Unshared list) :
    Spells ((links.setNext list list).setPrev list list) (update rings list (some [])) := by
  apply spells.edit (· = list)
  · exact fun other differs => update_of_ne differs _ _
  · intro other node differs owned
    have apart : node ≠ list := fun same => differs (own other (same ▸ owned))
    simp [Links.setNext, Links.setPrev, apart]
  · rintro _ _ rfl found
    rw [update_self, Option.some.injEq] at found
    exact found ▸ circular_singleton links _
  · rintro _ node rfl owned
    rw [Rings.owns_iff (update_self _ _ _), List.mem_singleton] at owned
    subst owned
    by_cases free : rings.Free node
    · exact .inl free
    · obtain ⟨owner, owned⟩ := not_forall_not.mp free
      exact .inr ⟨owner, own owner owned, owned⟩
  · rintro _ _ _ rfl rfl _ _
    rfl

/-- A free node is inserted behind a head. -/
theorem Spells.insert (spells : Spells links rings) (ring : rings head = some nodes)
    (free : rings.Free node) :
    Spells ((links.join node (links head).next).join head node)
      (update rings head (some (node :: nodes))) := by
  have circular := spells.circular ring
  apply spells.edit_one ring (circular.insert (free.outside ring))
  · intro other inside
    exact (List.mem_cons.mp inside).elim (fun same => .inr (same ▸ free)) .inl
  · intro other outside owned
    have notNode : other ≠ node := fun same => owned (same ▸ free)
    have notHead : other ≠ head := fun same => outside (same ▸ List.mem_cons_self)
    have notNext : other ≠ (links head).next :=
      fun same => outside (same ▸ circular.next_mem List.mem_cons_self)
    rw [join_frame notHead notNode, join_frame notNode notNext]

/-- A free node is inserted before a head. -/
theorem Spells.append (spells : Spells links rings) (ring : rings head = some nodes)
    (free : rings.Free node) :
    Spells ((links.join node head).join (links head).prev node)
      (update rings head (some (nodes ++ [node]))) := by
  have circular := spells.circular ring
  apply spells.edit_one ring (circular.splice_back (free.outside ring))
  · intro other inside
    rcases List.mem_append.mp inside with within | same
    · exact .inl within
    · exact .inr (List.mem_singleton.mp same ▸ free)
  · intro other outside owned
    have notNode : other ≠ node := fun same => owned (same ▸ free)
    have notHead : other ≠ head := fun same => outside (same ▸ List.mem_cons_self)
    have notPrev : other ≠ (links head).prev :=
      fun same => outside (same ▸ circular.prev_mem List.mem_cons_self)
    exact (join_frame notPrev notNode).trans (join_frame notNode notHead)

/-- The view without a node: it is taken from the entries it is among, and is no head. -/
def Rings.withdraw (rings : Rings α) (node : α) : Rings α :=
  update (fun head => (rings head).map (List.erase · node)) node none

/-- A node that can be taken out: an entry, or the head of an empty ring. -/
def Rings.Linked (rings : Rings α) (node : α) : Prop :=
  rings node = some [] ∨ ∃ head nodes, rings head = some nodes ∧ node ∈ nodes

/-- What a ring owns after a node is withdrawn. -/
theorem Rings.Owns.of_withdraw (distinct : ∀ head nodes, rings head = some nodes → nodes.Nodup)
    {other : α} (owned : (rings.withdraw node).Owns head other) :
    rings.Owns head other ∧ other ≠ node := by
  obtain ⟨kept, found, inside⟩ := owned
  by_cases same : head = node
  · rw [same, Rings.withdraw, update_self] at found
    cases found
  · rw [Rings.withdraw, update_of_ne same, Option.map_eq_some_iff] at found
    obtain ⟨nodes, ring, rfl⟩ := found
    rcases List.mem_cons.mp inside with rfl | within
    · exact ⟨(owns_iff ring).mpr List.mem_cons_self, same⟩
    · obtain ⟨differs, was⟩ := (distinct head nodes ring).mem_erase_iff.mp within
      exact ⟨(owns_iff ring).mpr (List.mem_cons_of_mem head was), differs⟩

/-- A withdrawn node is free. -/
theorem Spells.withdraw_free (spells : Spells links rings) : (rings.withdraw node).Free node := by
  intro head owned
  have distinct : ∀ head nodes, rings head = some nodes → nodes.Nodup :=
    fun head nodes ring => (List.nodup_cons.mp (spells.circular ring).distinct).2
  exact (owned.of_withdraw distinct).2 rfl

/-- Withdrawing a node leaves the rings of other owners. -/
theorem Spells.withdraw_kept (spells : Spells links rings) {owner other : α}
    (owns : rings.Owns owner node) (differs : other ≠ owner) :
    rings.withdraw node other = rings other := by
  by_cases same : other = node
  · subst same
    rw [Rings.withdraw, update_self]
    cases found : rings other with
    | none => rfl
    | some nodes =>
      have owned : rings.Owns other other := ⟨nodes, found, List.mem_cons_self⟩
      exact absurd (spells.apart owned owns) differs
  · rw [Rings.withdraw, update_of_ne same]
    cases found : rings other with
    | none => rfl
    | some nodes =>
      have absent : node ∉ nodes := fun within =>
        differs (spells.apart ⟨nodes, found, List.mem_cons_of_mem other within⟩ owns)
      rw [Option.map_some, List.erase_of_not_mem absent]

/-- A linked node is withdrawn by joining its neighbours. -/
theorem Spells.withdraw (spells : Spells links rings) (linked : rings.Linked node) :
    Spells (links.join (links node).prev (links node).next) (rings.withdraw node) := by
  have distinct : ∀ head nodes, rings head = some nodes → nodes.Nodup :=
    fun head nodes ring => (List.nodup_cons.mp (spells.circular ring).distinct).2
  have owner : ∃ head nodes, rings head = some nodes ∧ node ∈ head :: nodes := by
    rcases linked with single | ⟨head, nodes, ring, inside⟩
    · exact ⟨node, [], single, List.mem_cons_self⟩
    · exact ⟨head, nodes, ring, List.mem_cons_of_mem head inside⟩
  obtain ⟨owner, all, ring, inside⟩ := owner
  have owns : rings.Owns owner node := ⟨all, ring, inside⟩
  have circular := spells.circular ring
  apply spells.edit (· = owner)
  · exact fun other differs => spells.withdraw_kept owns differs
  · intro other touched differs owned
    have outside : touched ∉ owner :: all :=
      fun within => differs (spells.apart owned ((Rings.owns_iff ring).mpr within))
    apply join_frame
    · exact fun same => outside (same ▸ circular.prev_mem inside)
    · exact fun same => outside (same ▸ circular.next_mem inside)
  · rintro head kept rfl found
    by_cases same : head = node
    · rw [same, Rings.withdraw, update_self] at found
      cases found
    · rw [Rings.withdraw, update_of_ne same, ring, Option.map_some, Option.some.injEq] at found
      have entry : node ∈ all := (List.mem_cons.mp inside).resolve_left (Ne.symm same)
      obtain ⟨front, back, -, whole, erased⟩ := List.exists_erase_eq entry
      rw [← found, erased]
      exact (whole ▸ circular).remove
  · rintro _ other rfl owned
    exact .inr ⟨_, rfl, (owned.of_withdraw distinct).1⟩
  · rintro _ _ _ rfl rfl _ _
    rfl

/-- The view with one node in the place of another, among the entries or as a head. -/
def Rings.substitute (rings : Rings α) (old new : α) : Rings α := fun head =>
  if head = new then rings old
  else if head = old then none
  else (rings head).map (List.map fun node => if node = old then new else node)

/-- Putting one node for another leaves a list without the other. -/
theorem map_substitute_absent {old new : α} (absent : old ∉ nodes) :
    nodes.map (fun node => if node = old then new else node) = nodes :=
  calc nodes.map (fun node => if node = old then new else node)
    _ = nodes.map id := List.map_congr_left fun node inside =>
        if_neg fun same : node = old => absent (same ▸ inside)
    _ = nodes := List.map_id nodes

/-- Putting one node for another is only seen where the other was. -/
theorem map_substitute {front back : List α} {old new : α}
    (distinct : (front ++ old :: back).Nodup) :
    (front ++ old :: back).map (fun node => if node = old then new else node) =
      front ++ new :: back := by
  have absent := (List.nodup_middle.mp distinct).notMem
  rw [List.mem_append, not_or] at absent
  rw [List.map_append, List.map_cons, if_pos rfl, map_substitute_absent absent.1,
    map_substitute_absent absent.2]

/-- A node on some ring is replaced by a free one. -/
theorem Spells.substitute {owner old new : α} (spells : Spells links rings)
    (owns : rings.Owns owner old) (free : rings.Free new) :
    Spells ((links.join new (links old).next).join
      (links.join new (links old).next old).prev new) (rings.substitute old new) := by
  obtain ⟨all, ring, inside⟩ := owns
  have owns : rings.Owns owner old := ⟨all, ring, inside⟩
  have circular := spells.circular ring
  have outsideNew := free.outside ring
  have newOld : new ≠ old := fun same => outsideNew (same ▸ inside)
  have newOwner : new ≠ owner := fun same => outsideNew (same ▸ List.mem_cons_self)
  apply spells.edit fun other => other = owner ∨ other = new
  · intro other differs
    obtain ⟨notOwner, notNew⟩ := not_or.mp differs
    rw [Rings.substitute, if_neg notNew]
    cases found : rings other with
    | none => simp
    | some nodes =>
      have absent : old ∉ other :: nodes :=
        fun within => notOwner (spells.apart ⟨nodes, found, within⟩ owns)
      have notOld : other ≠ old := fun same => absent (same ▸ List.mem_cons_self)
      have notEntry : old ∉ nodes := fun within => absent (List.mem_cons_of_mem other within)
      rw [if_neg notOld, Option.map_some, map_substitute_absent notEntry]
  · intro other touched differs owned
    obtain ⟨notOwner, -⟩ := not_or.mp differs
    have outside : touched ∉ owner :: all :=
      fun within => notOwner (spells.apart owned ((Rings.owns_iff ring).mpr within))
    have notNew : touched ≠ new := fun same => free other (same ▸ owned)
    have notNext : touched ≠ (links old).next :=
      fun same => outside (same ▸ circular.next_mem inside)
    have notPrev : touched ≠ (links.join new (links old).next old).prev := by
      rw [Links.join, Links.setNext_prev, Links.setPrev_prev]
      split
      · exact notNew
      · exact fun same => outside (same ▸ circular.prev_mem inside)
    rw [join_frame notPrev notNew, join_frame notNew notNext]
  · rintro head kept (rfl | rfl) found
    · rw [Rings.substitute, if_neg newOwner.symm] at found
      split at found
      · cases found
      · rename_i entry
        have later : old ∈ all := (List.mem_cons.mp inside).resolve_left (Ne.symm entry)
        obtain ⟨front, back, rfl⟩ := List.append_of_mem later
        rw [ring, Option.map_some, map_substitute (List.nodup_cons.mp circular.distinct).2,
          Option.some.injEq] at found
        have turned := circular.rotate
        rw [← found]
        apply (turned.replace _).rotate
        simp only [List.mem_cons, List.mem_append, not_or] at outsideNew ⊢
        exact ⟨newOld, outsideNew.2.2.2, newOwner, outsideNew.2.1⟩
    · rw [Rings.substitute, if_pos rfl] at found
      exact (spells.circular found).replace (free.outside found)
  · rintro head other (rfl | rfl) ⟨kept, found, within⟩
    · rw [Rings.substitute, if_neg newOwner.symm] at found
      split at found
      · cases found
      · rw [ring, Option.map_some, Option.some.injEq] at found
        subst found
        rcases List.mem_cons.mp within with rfl | within
        · exact .inr ⟨other, .inl rfl, (Rings.owns_iff ring).mpr List.mem_cons_self⟩
        · obtain ⟨node, was, rfl⟩ := List.mem_map.mp within
          split
          · exact .inl free
          · exact .inr ⟨_, .inl rfl, (Rings.owns_iff ring).mpr (List.mem_cons_of_mem _ was)⟩
    · rw [Rings.substitute, if_pos rfl] at found
      rcases List.mem_cons.mp within with rfl | within
      · exact .inl free
      · have oldOwns : rings.Owns old old := ⟨kept, found, List.mem_cons_self⟩
        refine .inr ⟨old, .inl (spells.apart oldOwns owns), ?_⟩
        exact ⟨kept, found, List.mem_cons_of_mem old within⟩
  · have headOnly : ∀ kept taken : List α, rings.substitute old new new = some kept →
        rings.substitute old new owner = some taken → False := by
      intro kept taken found found'
      rw [Rings.substitute, if_pos rfl] at found
      obtain rfl := spells.apart ⟨kept, found, List.mem_cons_self⟩ owns
      rw [Rings.substitute, if_neg newOwner.symm, if_pos rfl] at found'
      cases found'
    rintro first second other (rfl | rfl) (rfl | rfl) ⟨kept, found, _⟩ ⟨taken, found', _⟩
    · rfl
    · exact (headOnly taken kept found' found).elim
    · exact (headOnly kept taken found found').elim
    · rfl

/-- A replaced node is free. -/
theorem Spells.substitute_free {owner old new : α} (spells : Spells links rings)
    (owns : rings.Owns owner old) (free : rings.Free new) :
    (rings.substitute old new).Free old := by
  have newOld : new ≠ old := fun same => free owner (same ▸ owns)
  rintro other ⟨kept, found, inside⟩
  rw [Rings.substitute] at found
  split_ifs at found with isNew isOld
  · subst isNew
    have later := (List.mem_cons.mp inside).resolve_left (Ne.symm newOld)
    exact (List.nodup_cons.mp (spells.circular found).distinct).1 later
  · obtain ⟨nodes, -, rfl⟩ := Option.map_eq_some_iff.mp found
    have later := (List.mem_cons.mp inside).resolve_left (Ne.symm isOld)
    obtain ⟨node, -, same⟩ := List.mem_map.mp later
    split_ifs at same with replaced
    · exact newOld same
    · exact replaced same

/-- One ring takes the entries of another, which is a ring no more. -/
theorem Spells.merge {taken : List α} (spells : Spells links rings) (ring : rings head = some nodes)
    (donor : rings list = some taken) (differ : list ≠ head)
    (circular : Circular after head entries)
    (source : ∀ node ∈ entries, node ∈ nodes ∨ node ∈ taken)
    (frame : ∀ node, node ∉ head :: nodes → node ∉ taken → after node = links node) :
    Spells after (update (update rings head (some entries)) list none) := by
  have onHead : ∀ node ∈ head :: nodes, rings.Owns head node := fun _ => (Rings.owns_iff ring).mpr
  have onList : ∀ node ∈ list :: taken, rings.Owns list node := fun _ => (Rings.owns_iff donor).mpr
  apply spells.edit fun other => other = head ∨ other = list
  · intro other differs
    rw [update_of_ne (not_or.mp differs).2, update_of_ne (not_or.mp differs).1]
  · intro other node differs owned
    obtain ⟨notHead, notList⟩ := not_or.mp differs
    apply frame
    · exact fun inside => notHead (spells.apart owned (onHead node inside))
    · exact fun inside =>
        notList (spells.apart owned (onList node (List.mem_cons_of_mem list inside)))
  · rintro other kept (rfl | rfl) found
    · rw [update_of_ne differ.symm, update_self, Option.some.injEq] at found
      exact found ▸ circular
    · rw [update_self] at found
      cases found
  · rintro other node (rfl | rfl) owned
    · rw [Rings.owns_iff (by rw [update_of_ne differ.symm, update_self])] at owned
      rcases List.mem_cons.mp owned with rfl | inside
      · exact .inr ⟨node, .inl rfl, onHead node List.mem_cons_self⟩
      · rcases source node inside with was | was
        · exact .inr ⟨_, .inl rfl, onHead node (List.mem_cons_of_mem _ was)⟩
        · exact .inr ⟨_, .inr rfl, onList node (List.mem_cons_of_mem _ was)⟩
    · obtain ⟨_, found, _⟩ := owned
      rw [update_self] at found
      cases found
  · rintro first second node (rfl | rfl) (rfl | rfl) owned owned'
    · rfl
    · obtain ⟨_, found, _⟩ := owned'
      rw [update_self] at found
      cases found
    · obtain ⟨_, found, _⟩ := owned
      rw [update_self] at found
      cases found
    · rfl

/-- A head that has given its entries away is free. -/
theorem Spells.merge_free {taken : List α} (spells : Spells links rings)
    (ring : rings head = some nodes) (donor : rings list = some taken) (differ : list ≠ head)
    (source : ∀ node ∈ entries, node ∈ nodes ∨ node ∈ taken) :
    Rings.Free (update (update rings head (some entries)) list none) list := by
  have listOwns : rings.Owns list list := (Rings.owns_iff donor).mpr List.mem_cons_self
  rintro other ⟨kept, found, inside⟩
  by_cases isList : other = list
  · rw [isList, update_self] at found
    cases found
  rw [update_of_ne isList] at found
  by_cases isHead : other = head
  · rw [isHead, update_self, Option.some.injEq] at found
    subst found
    have later := (List.mem_cons.mp inside).resolve_left (Ne.symm isList)
    rcases source list later with was | was
    · have owned : rings.Owns head list := (Rings.owns_iff ring).mpr (List.mem_cons_of_mem head was)
      exact differ (spells.apart listOwns owned)
    · exact (List.nodup_cons.mp (spells.circular donor).distinct).1 was
  · rw [update_of_ne isHead] at found
    exact isList (spells.apart ⟨kept, found, inside⟩ listOwns)

/-- The front of a ring, up to a node, goes to a head that nobody shares. -/
theorem Spells.part {front back : List α} (spells : Spells links rings)
    (ring : rings head = some (front ++ node :: back)) (own : rings.Unshared list)
    (differ : list ≠ head) :
    Spells (((links.join list (links head).next).join node list).join head (links node).next)
      (update (update rings list (some (front ++ [node]))) head (some back)) := by
  have onHead : ∀ node ∈ head :: (front ++ _ :: back), rings.Owns head node :=
    fun _ => (Rings.owns_iff ring).mpr
  have circular := spells.circular ring
  have fresh : list ∉ head :: (front ++ node :: back) :=
    fun inside => differ (own head (onHead list inside)).symm
  obtain ⟨cut, kept⟩ := circular.cut fresh
  have nodeIn : node ∈ head :: (front ++ node :: back) := by simp
  have listRing : update (update rings list (some (front ++ [node]))) head (some back) list =
      some (front ++ [node]) := by rw [update_of_ne differ, update_self]
  have headRing : update (update rings list (some (front ++ [node]))) head (some back) head =
      some back := update_self _ _ _
  apply spells.edit fun other => other = head ∨ other = list
  · intro other differs
    rw [update_of_ne (not_or.mp differs).1, update_of_ne (not_or.mp differs).2]
  · intro other touched differs owned
    obtain ⟨notHead, notList⟩ := not_or.mp differs
    have outside : touched ∉ head :: (front ++ node :: back) :=
      fun inside => notHead (spells.apart owned (onHead touched inside))
    have apart : touched ≠ list := fun same => notList (own other (same ▸ owned))
    have notNode : touched ≠ node := fun same => outside (same ▸ nodeIn)
    rw [join_frame, join_frame notNode apart, join_frame apart]
    · exact fun same => outside (same ▸ circular.next_mem List.mem_cons_self)
    · exact fun same => outside (same ▸ List.mem_cons_self)
    · exact fun same => outside (same ▸ circular.next_mem nodeIn)
  · rintro other entries (rfl | rfl) found
    · exact Option.some.inj (headRing.symm.trans found) ▸ kept
    · exact Option.some.inj (listRing.symm.trans found) ▸ cut
  · rintro other touched (rfl | rfl) owned
    · rw [Rings.owns_iff headRing] at owned
      refine .inr ⟨other, .inl rfl, onHead touched ?_⟩
      simp only [List.mem_cons, List.mem_append] at owned ⊢
      exact owned.imp_right fun inside => .inr (.inr inside)
    · rw [Rings.owns_iff listRing] at owned
      rcases List.mem_cons.mp owned with rfl | inside
      · by_cases free : rings.Free touched
        · exact .inl free
        · obtain ⟨owner, owned⟩ := not_forall_not.mp free
          exact .inr ⟨owner, .inr (own owner owned), owned⟩
      · refine .inr ⟨head, .inl rfl, onHead touched ?_⟩
        simp only [List.mem_cons, List.mem_append, List.not_mem_nil, or_false] at inside ⊢
        exact .inr (inside.imp_right .inl)
  · have disjoint : ∀ other, other ∈ list :: (front ++ [node]) → other ∉ head :: back := by
      have distinct := circular.distinct
      intro other inside within
      simp only [List.mem_cons, List.mem_append, List.not_mem_nil, or_false, not_or] at *
      grind
    rintro first second other (rfl | rfl) (rfl | rfl) owned owned'
    · rfl
    · rw [Rings.owns_iff headRing] at owned
      rw [Rings.owns_iff listRing] at owned'
      exact absurd owned (disjoint other owned')
    · rw [Rings.owns_iff listRing] at owned
      rw [Rings.owns_iff headRing] at owned'
      exact absurd owned' (disjoint other owned)
    · rfl

end Edit

end Library
