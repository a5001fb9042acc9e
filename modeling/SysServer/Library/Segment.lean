import Mathlib.Data.List.Chain
import SysServer.Library.Circle

/-!
# Segments of rings

Editing doubly linked rings at any place. A ring may be read from any of its nodes, so an edit in
the middle is an edit at the head of another reading. Every edit joins pairs of nodes; a run of
neighbours survives a join unless the join leaves from its inside or enters there. From this come
inserting, replacing, splicing one ring into another and cutting a ring in two, for rings of every
length.
-/

namespace Library

variable {α : Type*} {links : Links α} {head node : α} {nodes front back : List α}

/-- A ring may be read from any of its nodes. -/
theorem Circular.rotate (ring : Circular links head (front ++ node :: back)) :
    Circular links node (back ++ head :: front) := by
  obtain ⟨before, after⟩ := path_append.mp ring.path
  refine ⟨?_, path_append.mpr ⟨after, before⟩⟩
  have same : (head :: (front ++ node :: back)).Perm (node :: (back ++ head :: front)) := by
    rw [← List.cons_append, ← List.cons_append]
    exact List.perm_append_comm
  exact same.nodup_iff.mp ring.distinct

/-- Every node is the neighbour of the next. -/
def Segment (links : Links α) (nodes : List α) : Prop := nodes.IsChain (Adjacent links)

/-- A path is a segment with its ends. -/
theorem path_iff_segment {first last : α} :
    Path links first nodes last ↔ Segment links (first :: nodes ++ [last]) := by
  induction nodes generalizing first with
  | nil => simp [Path, Segment]
  | cons node nodes ih =>
    rw [Path, ih, Segment, Segment, List.cons_append, List.cons_append, List.cons_append,
      List.isChain_cons_cons]

/-- A ring is a segment from the head to the head. -/
theorem Circular.segment (ring : Circular links head nodes) :
    Segment links (head :: nodes ++ [head]) := path_iff_segment.mp ring.path

/-- The nodes of a ring form a segment. -/
theorem Circular.inner (ring : Circular links head nodes) : Segment links nodes := by
  have whole : Segment links ([head] ++ nodes ++ [head]) := ring.segment
  exact whole.left_of_append.right_of_append

/-- The nodes of a ring and its end form a segment. -/
theorem Circular.closed (ring : Circular links head nodes) : Segment links (nodes ++ [head]) := by
  have whole : Segment links ([head] ++ (nodes ++ [head])) := ring.segment
  exact whole.right_of_append

/-- What follows the head of a ring. -/
theorem Circular.next_eq (ring : Circular links head nodes) :
    (nodes ++ [head]).head? = some (links head).next := by
  cases nodes with
  | nil => exact congrArg some ring.path.1.symm
  | cons node nodes => exact congrArg some ring.path.1.1.symm

/-- What comes before the head of a ring. -/
theorem Circular.prev_eq (ring : Circular links head nodes) :
    (head :: nodes).getLast? = some (links head).prev := by
  rw [ring.path.prev_last, List.getLast?_eq_getLast_of_ne_nil]

/-- The first entry of a ring that has entries follows the head. -/
theorem Circular.begins (ring : Circular links head nodes) (some_entry : nodes ≠ []) :
    nodes.head? = some (links head).next := by
  rw [← ring.next_eq, List.head?_append_of_ne_nil _ some_entry]

/-- The last entry of a ring that has entries is before the head. -/
theorem Circular.ends (ring : Circular links head nodes) (some_entry : nodes ≠ []) :
    nodes.getLast? = some (links head).prev := by
  rw [← ring.prev_eq, List.getLast?_cons_of_ne_nil some_entry]

/-- A ring may be read from any of its nodes, and its nodes stay the same. -/
theorem Circular.reading (ring : Circular links head nodes) (inside : node ∈ head :: nodes) :
    ∃ others, Circular links node others ∧ (node :: others).Perm (head :: nodes) := by
  rcases List.mem_cons.mp inside with rfl | later
  · exact ⟨nodes, ring, .refl _⟩
  · obtain ⟨front, back, rfl⟩ := List.append_of_mem later
    refine ⟨back ++ head :: front, ring.rotate, ?_⟩
    rw [← List.cons_append, ← List.cons_append]
    exact List.perm_append_comm

/-- What follows a node of a ring is on the ring. -/
theorem Circular.next_mem (ring : Circular links head nodes) (inside : node ∈ head :: nodes) :
    (links node).next ∈ head :: nodes := by
  obtain ⟨others, turned, same⟩ := ring.reading inside
  apply same.mem_iff.mp
  simpa [or_comm] using List.mem_of_mem_head? turned.next_eq

/-- What comes before a node of a ring is on the ring. -/
theorem Circular.prev_mem (ring : Circular links head nodes) (inside : node ∈ head :: nodes) :
    (links node).prev ∈ head :: nodes := by
  obtain ⟨others, turned, same⟩ := ring.reading inside
  exact same.mem_iff.mp (List.mem_of_mem_getLast? turned.prev_eq)

/-- What follows a node of a ring is the first of the entries behind it, or the head. -/
theorem Circular.next_headD (ring : Circular links head (front ++ node :: back)) :
    (links node).next = back.headD head := by
  obtain ⟨-, after⟩ := path_append.mp ring.path
  cases back with
  | nil => exact after.1
  | cons next back => exact after.1.1

/-- The entries of a ring are determined by its memory. -/
theorem Circular.unique {others : List α} (ring : Circular links head nodes)
    (ring' : Circular links head others) : nodes = others := by
  classical
  have first := @Circular.walk_next α _ links head nodes ring (nodes.length + others.length + 1)
  have second := @Circular.walk_next α _ links head others ring' (nodes.length + others.length + 1)
  rw [← first (by omega), second (by omega)]

/-- The memory read in the other direction. -/
def Links.flip (links : Links α) : Links α := fun node => ⟨(links node).next, (links node).prev⟩

/-- A path read in the other direction. -/
theorem Path.flip {first last : α} (path : Path links first nodes last) :
    Path links.flip last nodes.reverse first := by
  induction nodes generalizing first with
  | nil => exact ⟨path.2, path.1⟩
  | cons node nodes ih =>
    rw [List.reverse_cons]
    exact path_append.mpr ⟨ih path.2, path.1.2, path.1.1⟩

/-- A ring read in the other direction. -/
theorem Circular.flip (ring : Circular links head nodes) :
    Circular links.flip head nodes.reverse := by
  refine ⟨?_, ring.path.flip⟩
  simpa using ring.distinct

variable {left right first second : α}

/-- The first node of a list without repetition does not come again. -/
theorem not_mem_tail (distinct : nodes.Nodup) (begins : nodes.head? = some node) :
    node ∉ nodes.tail := by
  cases nodes with
  | nil => cases begins
  | cons other rest =>
    obtain rfl := Option.some.inj begins
    exact (List.nodup_cons.mp distinct).1

/-- The last node of a list without repetition has not come before. -/
theorem not_mem_dropLast (distinct : nodes.Nodup) (ends : nodes.getLast? = some node) :
    node ∉ nodes.dropLast := by
  have whole := List.dropLast_append_getLast? node ends
  rw [← whole] at distinct
  intro inside
  exact List.disjoint_of_nodup_append distinct inside List.mem_cons_self

/-- Two segments whose ends are neighbours are one. -/
theorem Segment.append (before : Segment links front) (after : Segment links back)
    (ends : front.getLast? = some first) (begins : back.head? = some second)
    (adjacent : Adjacent links first second) : Segment links (front ++ back) := by
  apply List.IsChain.append before after
  intro last isLast next isNext
  obtain rfl := Option.some.inj (ends.symm.trans isLast)
  obtain rfl := Option.some.inj (begins.symm.trans isNext)
  exact adjacent

/-- A segment between two joins that leave it and enter it closes to a ring. -/
theorem Segment.circular (segment : Segment links nodes) (begins : nodes.head? = some first)
    (ends : nodes.getLast? = some second) (enter : Adjacent links head first)
    (leave : Adjacent links second head) (distinct : (head :: nodes).Nodup) :
    Circular links head nodes := by
  refine ⟨distinct, path_iff_segment.mpr ?_⟩
  have opened : Segment links ([head] ++ nodes) :=
    Segment.append (.singleton head) segment rfl begins enter
  apply Segment.append opened (.singleton head) ?_ rfl leave
  rw [List.getLast?_append, ends]
  rfl

variable [DecidableEq α]

omit [DecidableEq α] in
/-- Links that agree both ways are the same. -/
theorem Link.same {link other : Link α} (prev : link.prev = other.prev)
    (next : link.next = other.next) : link = other := by
  cases link
  cases other
  exact congr (congrArg Link.mk prev) next

/-- A next link and a prev link may be stored in either order. -/
theorem Links.setNext_setPrev (links : Links α) (node value other back : α) :
    (links.setNext node value).setPrev other back =
      (links.setPrev other back).setNext node value := by
  funext at_node
  apply Link.same
  · rw [Links.setPrev_prev, Links.setNext_prev, Links.setNext_prev, Links.setPrev_prev]
  · rw [Links.setPrev_next, Links.setNext_next, Links.setNext_next, Links.setPrev_next]

/-- Make two nodes neighbours. -/
def Links.join (links : Links α) (left right : α) : Links α :=
  (links.setPrev right left).setNext left right

/-- Two nodes that are joined are neighbours. -/
theorem join_adjacent : Adjacent (links.join left right) left right := by
  simp [Adjacent, Links.join]

/-- Neighbours stay so when another node is left and another is entered. -/
theorem Adjacent.join (adjacent : Adjacent links first second) (leaves : first ≠ left)
    (enters : second ≠ right) : Adjacent (links.join left right) first second := by
  simpa [Adjacent, Links.join, leaves, enters] using adjacent

/-- A join touches its two nodes only. -/
theorem join_frame {other : α} (notLeft : other ≠ left) (notRight : other ≠ right) :
    links.join left right other = links other := by
  simp [Links.join, Links.setNext, Links.setPrev, notLeft, notRight]

/-- A segment survives a join that neither leaves from its inside nor enters there. -/
theorem Segment.join (segment : Segment links nodes) (leaves : left ∉ nodes.dropLast)
    (enters : right ∉ nodes.tail) : Segment (links.join left right) nodes := by
  induction nodes with
  | nil => exact .nil
  | cons node nodes ih =>
    cases nodes with
    | nil => exact .singleton node
    | cons next rest =>
      obtain ⟨adjacent, later⟩ := List.isChain_cons_cons.mp segment
      rw [List.dropLast_cons_of_ne_nil (List.cons_ne_nil next rest), List.mem_cons, not_or]
        at leaves
      rw [List.tail_cons, List.mem_cons, not_or] at enters
      exact List.isChain_cons_cons.mpr
        ⟨adjacent.join (Ne.symm leaves.1) (Ne.symm enters.1), ih later leaves.2 enters.2⟩

/-- A segment survives a join of nodes that are not on it. -/
theorem Segment.join_apart (segment : Segment links nodes) (notLeft : left ∉ nodes)
    (notRight : right ∉ nodes) : Segment (links.join left right) nodes :=
  segment.join (fun inside => notLeft (List.dropLast_subset _ inside))
    fun inside => notRight (List.mem_of_mem_tail inside)

/-! ## Edits -/

/-- A node is inserted behind the head. -/
theorem Circular.insert (ring : Circular links head nodes) (fresh : node ∉ head :: nodes) :
    Circular ((links.join node (links head).next).join head node) head (node :: nodes) := by
  cases nodes with
  | nil =>
    have next : (links head).next = head := ring.path.1
    have prev : (links head).prev = head := ring.path.2
    have spliced := ring.splice_back fresh
    rw [prev] at spliced
    rw [next]
    exact spliced
  | cons first rest =>
    have behind : Circular links head ([] ++ first :: rest) := ring
    have turned : Circular links first (rest ++ [head]) := behind.rotate
    have next : (links head).next = first := ring.path.1.1
    have prev : (links first).prev = head := ring.path.1.2
    have outside : node ∉ first :: (rest ++ [head]) := by
      simp only [List.mem_cons, List.mem_append, List.not_mem_nil, or_false, not_or] at fresh ⊢
      exact ⟨fresh.2.1, fresh.2.2, fresh.1⟩
    have spliced := turned.splice_back outside
    rw [prev, List.append_assoc] at spliced
    rw [next]
    exact spliced.rotate

/-- A node is removed from anywhere. -/
theorem Circular.remove (ring : Circular links head (front ++ node :: back)) :
    Circular (links.join (links node).prev (links node).next) head (front ++ back) := by
  rcases List.eq_nil_or_concat' front with rfl | ⟨before, last, rfl⟩
  · exact ring.cut_front
  · have turned : Circular links last (node :: (back ++ head :: before)) := by
      have whole : Circular links head (before ++ last :: (node :: back)) := by
        simpa using ring
      exact whole.rotate
    have cut : Circular (links.join (links node).prev (links node).next) last
        (back ++ head :: before) := turned.cut_front
    simpa using cut.rotate

/-- A node takes the place of the head. -/
theorem Circular.replace {new : α} (ring : Circular links head nodes)
    (fresh : new ∉ head :: nodes) :
    Circular ((links.join new (links head).next).join
      (links.join new (links head).next head).prev new) new nodes := by
  obtain ⟨apart, outside⟩ := not_or.mp (mt List.mem_cons.mpr fresh)
  obtain ⟨headOut, distinct⟩ := List.nodup_cons.mp ring.distinct
  have whole : (new :: nodes).Nodup := List.nodup_cons.mpr ⟨outside, distinct⟩
  rcases List.eq_nil_or_concat' nodes with rfl | ⟨before, last, rfl⟩
  · have next : (links head).next = head := ring.path.1
    have prev : (links.join new head head).prev = new := join_adjacent.2
    rw [next, prev]
    exact ⟨whole, join_adjacent⟩
  · have begins := ring.begins (by simp)
    have ends := ring.ends (by simp)
    have nextIn := List.mem_of_mem_head? begins
    have prevIn := List.mem_of_mem_getLast? ends
    have kept : (links.join new (links head).next head).prev = (links head).prev := by
      rw [join_frame (Ne.symm apart) fun same => headOut (same ▸ nextIn)]
    rw [kept]
    have inner : Segment ((links.join new (links head).next).join (links head).prev new)
        (before ++ [last]) := by
      apply Segment.join
      · apply ring.inner.join
        · exact fun inside => outside (List.dropLast_subset _ inside)
        · exact not_mem_tail distinct begins
      · exact not_mem_dropLast distinct ends
      · exact fun inside => outside (List.mem_of_mem_tail inside)
    have enter : Adjacent ((links.join new (links head).next).join (links head).prev new) new
        (links head).next :=
      join_adjacent.join (fun same => outside (same ▸ prevIn)) fun same => outside (same ▸ nextIn)
    exact inner.circular begins ends enter join_adjacent whole

/-- The nodes of one ring are spliced in behind the head of another. -/
theorem Circular.splice {other : α} {entries : List α} (ring : Circular links head nodes)
    (donor : Circular links other entries) (some_entry : entries ≠ [])
    (apart : (head :: nodes).Disjoint entries) :
    Circular ((links.join head (links other).next).join (links other).prev (links head).next) head
      (entries ++ nodes) := by
  obtain ⟨-, distinct⟩ := List.nodup_cons.mp donor.distinct
  have begins := donor.begins some_entry
  have ends := donor.ends some_entry
  have firstIn := List.mem_of_mem_head? begins
  have lastIn := List.mem_of_mem_getLast? ends
  have off : ∀ node ∈ entries, node ∉ head :: nodes := fun node inside within => apart within inside
  have nextIn := ring.next_mem List.mem_cons_self
  have closed : (nodes ++ [head]).Nodup :=
    (@List.perm_append_comm _ [head] nodes).nodup_iff.mp ring.distinct
  have onRing : ∀ node ∈ nodes ++ [head], node ∈ head :: nodes := by simp [or_comm]
  have taken : Segment ((links.join head (links other).next).join (links other).prev
      (links head).next) entries := by
    apply Segment.join
    · apply donor.inner.join
      · exact fun inside => off head (List.dropLast_subset _ inside) List.mem_cons_self
      · exact not_mem_tail distinct begins
    · exact not_mem_dropLast distinct ends
    · exact fun inside => off _ (List.mem_of_mem_tail inside) nextIn
  have kept : Segment ((links.join head (links other).next).join (links other).prev
      (links head).next) (nodes ++ [head]) := by
    apply Segment.join
    · apply ring.closed.join
      · rw [List.dropLast_concat]
        exact (List.nodup_cons.mp ring.distinct).1
      · exact fun inside => off _ firstIn (onRing _ (List.mem_of_mem_tail inside))
    · exact fun inside => off _ lastIn (onRing _ (List.dropLast_subset _ inside))
    · exact not_mem_tail closed ring.next_eq
  have enter : Adjacent ((links.join head (links other).next).join (links other).prev
      (links head).next) head (links other).next :=
    join_adjacent.join (fun same => off _ lastIn (same ▸ List.mem_cons_self))
      fun same => off _ firstIn (same ▸ nextIn)
  refine ⟨?_, path_iff_segment.mpr ?_⟩
  · have joined := List.Nodup.append distinct ring.distinct (List.disjoint_symm apart)
    exact List.perm_middle.nodup_iff.mp joined
  · have opened : Segment ((links.join head (links other).next).join (links other).prev
        (links head).next) ([head] ++ (entries ++ (nodes ++ [head]))) := by
      apply Segment.append (.singleton head) ?_ rfl ?_ enter
      · exact Segment.append taken kept ends ring.next_eq join_adjacent
      · rw [List.head?_append_of_ne_nil _ some_entry, begins]
    simpa using opened

/-- The front of a ring, up to a node, is cut off and closed around another head. -/
theorem Circular.cut {list : α} (ring : Circular links head (front ++ node :: back))
    (fresh : list ∉ head :: (front ++ node :: back)) :
    Circular (((links.join list (links head).next).join node list).join head (links node).next)
      list (front ++ [node]) ∧
    Circular (((links.join list (links head).next).join node list).join head (links node).next)
      head back := by
  have split : Circular links head ((front ++ [node]) ++ back) := by simpa using ring
  have whole : (head :: ((front ++ [node]) ++ back)).Nodup := split.distinct
  obtain ⟨headOut, distinct⟩ := List.nodup_cons.mp whole
  obtain ⟨frontDistinct, backDistinct, apart⟩ := List.nodup_append'.mp distinct
  have listOut : list ∉ head :: ((front ++ [node]) ++ back) := by simpa using fresh
  simp only [List.mem_cons, List.mem_append, not_or, List.not_mem_nil, or_false] at listOut headOut
  have turned : Circular links node (back ++ head :: front) := ring.rotate
  have begins : (front ++ [node]).head? = some (links head).next := by
    have next := split.next_eq
    rwa [List.append_assoc, List.head?_append_of_ne_nil _ (by simp)] at next
  have nextIn : (back ++ [head]).head? = some (links node).next := by
    have next := turned.next_eq
    rwa [show back ++ head :: front ++ [node] = (back ++ [head]) ++ (front ++ [node]) by simp,
      List.head?_append_of_ne_nil _ (by simp)] at next
  have first_mem := List.mem_of_mem_head? begins
  have next_mem := List.mem_of_mem_head? nextIn
  have off : ∀ other ∈ front ++ [node], other ∉ back ++ [head] := by
    intro other inside within
    rcases List.mem_append.mp within with later | same
    · exact apart inside later
    · obtain rfl := List.mem_singleton.mp same
      simp only [List.mem_append, List.mem_singleton] at inside
      exact inside.elim headOut.1.1 headOut.1.2
  have listApart : ∀ other ∈ front ++ [node], other ≠ list := by
    rintro other inside rfl
    simp only [List.mem_append, List.mem_singleton] at inside
    exact inside.elim listOut.2.1.1 listOut.2.1.2
  have closedApart : ∀ other ∈ back ++ [head], other ≠ list := by
    rintro other inside rfl
    simp only [List.mem_append, List.mem_singleton] at inside
    exact inside.elim listOut.2.2 listOut.1
  have after : Segment links (front ++ [node] ++ (back ++ [head])) := by
    simpa using ring.closed
  have closed : (back ++ [head]).Nodup :=
    List.nodup_append_comm.mp (List.nodup_cons.mpr ⟨headOut.2, backDistinct⟩)
  constructor
  · have segment : Segment (((links.join list (links head).next).join node list).join head
        (links node).next) (front ++ [node]) := by
      apply Segment.join
      · apply Segment.join
        · apply Segment.join (List.IsChain.left_of_append split.inner)
          · exact fun inside => listApart list (List.dropLast_subset _ inside) rfl
          · exact not_mem_tail frontDistinct begins
        · exact not_mem_dropLast frontDistinct List.getLast?_concat
        · exact fun inside => listApart list (List.mem_of_mem_tail inside) rfl
      · exact fun inside => off head (List.dropLast_subset _ inside) (by simp)
      · exact fun inside => off _ (List.mem_of_mem_tail inside) next_mem
    apply segment.circular begins List.getLast?_concat
    · apply (join_adjacent.join (Ne.symm (listApart node (by simp))) ?_).join listOut.1
      · exact fun same => off _ first_mem (same ▸ next_mem)
      · exact listApart _ first_mem
    · exact join_adjacent.join (Ne.symm headOut.1.2) (Ne.symm (closedApart _ next_mem))
    · simpa [listOut] using frontDistinct
  · have segment : Segment (((links.join list (links head).next).join node list).join head
        (links node).next) (back ++ [head]) := by
      apply Segment.join
      · apply Segment.join_apart
        · apply Segment.join_apart (List.IsChain.right_of_append after)
          · exact fun inside => closedApart list inside rfl
          · exact off _ first_mem
        · exact off node (by simp)
        · exact fun inside => closedApart list inside rfl
      · rw [List.dropLast_concat]
        exact headOut.2
      · exact not_mem_tail closed nextIn
    have opened := Segment.append (.singleton head) segment rfl nextIn join_adjacent
    exact ⟨List.nodup_cons.mpr ⟨headOut.2, backDistinct⟩, path_iff_segment.mpr opened⟩

end Library
