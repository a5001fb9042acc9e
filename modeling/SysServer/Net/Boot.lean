import SysServer.Net.Listening

/-!
# From the kernel's report to the listening socket

`system_net_init` fills the table once, at startup, and ends the server when the scan fails;
`event_ethernet` later looks for its interface in what the scan has left. So one interface that
does not answer every request keeps the whole server from starting, and a machine without the
interface serves from behind the table (`ethernet_served`).
-/

namespace SysServer.Net

open Function

/-- An entry of static storage. -/
def NetDev.blank : NetDev := ⟨[], [], [], [], []⟩

/-- `sys_server.sTsysnet` before the startup. -/
def Table.static : Table := ⟨fun _ => .blank, ∅⟩

/-- `system_net_init` — the table as the scan leaves it, or none when the server exits. -/
def systemNetInit (kernel : Kernel) (table : Table) : Option Table :=
  let (filled, ret) := obtainNetdevInfo kernel table
  if ret < 0 then none else some filled

/-- The records of the table, none of them listening. -/
def Table.cards (table : Table) : Cards := ⟨fun idx => ⟨table.entry idx, 0⟩, ∅⟩

variable {kernel : Kernel} {name : Text} {names : List Text} {idx : ℕ} {table : Table}

/-- What the scan does not store into stays as it was. -/
def Table.Frames (before after : Table) : Prop :=
  before.written ⊆ after.written ∧
    ∀ idx, idx ∉ after.written → after.entry idx = before.entry idx

/-- A store changes its own entry. -/
theorem Table.frames_store (table : Table) (idx : ℕ) (change : NetDev → NetDev) :
    table.Frames (table.store idx change) := by
  refine ⟨Finset.subset_insert _ _, fun other outside => update_of_ne ?_ ..⟩
  rintro rfl
  exact outside (Finset.mem_insert_self _ _)

/-- One part of the scan after another. -/
theorem Table.Frames.trans {first second third : Table} (front : first.Frames second)
    (back : second.Frames third) : first.Frames third := by
  refine ⟨front.1.trans back.1, fun idx outside => ?_⟩
  rw [back.2 idx outside, front.2 idx fun inside => outside (back.1 inside)]

/-- The requests about one interface store into its entry. -/
theorem fill_frames (kernel : Kernel) (name : Text) (idx : ℕ)
    (requests : List (Ioctl × (Answer → NetDev → NetDev))) (table : Table) :
    table.Frames (fill kernel name idx requests table).1 := by
  induction requests generalizing table with
  | nil => exact ⟨Finset.Subset.refl _, fun _ _ => rfl⟩
  | cons first requests ih =>
    obtain ⟨request, change⟩ := first
    rw [fill]
    cases kernel.ioctl request name with
    | none => exact ⟨Finset.Subset.refl _, fun _ _ => rfl⟩
    | some answer => exact (table.frames_store idx (change answer)).trans (ih _)

/-- The scan stores into the entries that it counts, and returns zero or minus one. -/
theorem scan_frames : table.Frames (scan kernel names idx table).1 ∧
    ((scan kernel names idx table).2 = 0 ∨ (scan kernel names idx table).2 = -1) := by
  induction names generalizing idx table with
  | nil => exact ⟨⟨Finset.Subset.refl _, fun _ _ => rfl⟩, .inl rfl⟩
  | cons name names ih =>
    rw [scan]
    by_cases skipped : name = loopback
    · rw [if_pos skipped]
      exact ih
    · rw [if_neg skipped]
      have named := table.frames_store idx fun dev => { dev with gCintername := name }
      cases kernel.ioctl .flags name with
      | none => exact ⟨named, .inr rfl⟩
      | some flags =>
        have filled := named.trans (fill_frames kernel name idx stores _)
        simp only
        split <;> rename_i after recorded <;> rw [recorded] at filled
        · exact ⟨filled, .inr rfl⟩
        · exact ⟨filled.trans ih.1, ih.2⟩

/-- The interfaces in the order of the table. -/
def listed (names : List Text) : List Text := (kept names).reverse

/-- The server starts exactly when every request about each interface but the loopback is
answered, and then the table is what the scan has left. -/
theorem systemNetInit_eq (opened : kernel.socket = true) (reported : kernel.conf = some names) :
    systemNetInit kernel .static =
      if (scan kernel names.reverse 0 .static).2 = 0 then
        some (scan kernel names.reverse 0 .static).1
      else none := by
  have returned := (@scan_frames kernel names.reverse 0 .static).2
  simp only [systemNetInit, obtainNetdevInfo, opened, reported, ↓reduceIte]
  rcases returned with whole | broken
  · simp [whole]
  · simp [broken]

/-- The scan of the startup returns zero exactly when every request about each interface but the
loopback is answered. -/
theorem scan_whole_iff : (scan kernel names.reverse 0 .static).2 = 0 ↔
    ∀ name ∈ kept names, Answered kernel name := by
  have same : ∀ name, name ∈ kept names.reverse ↔ name ∈ kept names := by
    intro name
    rw [kept_reverse, List.mem_reverse]
  constructor
  · intro whole name inside
    exact scan_returned whole name ((same name).mpr inside)
  · intro answered
    obtain ⟨after, ran, -⟩ := @scan_answered kernel names.reverse 0 .static
      fun name inside => answered name ((same name).mp inside)
    rw [ran]

/-- After a startup the records of the listed interfaces stand in the table, from its first entry
on, and what is behind them is blank. -/
theorem scan_entry (answered : ∀ name ∈ kept names, Answered kernel name) (idx : ℕ) :
    (scan kernel names.reverse 0 .static).1.entry idx =
      ((listed names)[idx]?.map (own kernel)).getD .blank := by
  have frames := (@scan_frames kernel names.reverse 0 .static).1
  obtain ⟨after, ran, written, -, recorded⟩ := @scan_answered kernel names.reverse 0 .static
    fun name inside => answered name (by rwa [kept_reverse, List.mem_reverse] at inside)
  rw [ran] at frames ⊢
  rw [kept_reverse] at written recorded
  rw [listed, ← List.getElem?_map, ← recorded, List.getElem?_map]
  by_cases inside : idx < (kept names).reverse.length
  · rw [List.getElem?_range' inside]
    simp
  · rw [List.getElem?_eq_none (by simpa using inside)]
    refine frames.2 idx ?_
    rw [written, Nat.zero_add, Finset.mem_union, Finset.mem_Ico]
    rintro (impossible | within)
    · cases impossible
    · exact inside within.2

/-- The loop over the table of the startup ends at a record of the interface, or behind the
table when it is not reported. -/
theorem search_listed {eth : Text} (named : eth ≠ []) (other : eth ≠ loopback)
    (few : (kept names).length ≤ netcardMaxnum) {last : ℕ}
    (entry : ∀ idx, table.entry idx = ((listed names)[idx]?.map (own kernel)).getD .blank)
    (before : ∀ earlier < last, (table.entry earlier).gCintername ≠ eth)
    (ended : last = netcardMaxnum ∨ (table.entry last).gCintername = eth) :
    (eth ∈ names → last < netcardMaxnum ∧ table.entry last = own kernel eth) ∧
      (eth ∉ names → last = netcardMaxnum) := by
  have length : (listed names).length = (kept names).length := List.length_reverse
  have within : ∀ idx (inside : idx < (listed names).length),
      table.entry idx = own kernel (listed names)[idx] := by
    intro idx inside
    simp [entry, inside]
  constructor
  · intro reported
    have member : eth ∈ listed names := by
      simp [listed, kept, reported, other]
    obtain ⟨place, inside, here⟩ := List.getElem_of_mem member
    have notBehind : last ≤ place := by
      by_contra behind
      refine before place (by omega) ?_
      rw [within place inside, here]
      rfl
    have lastNamed := ended.resolve_left (by omega)
    rw [within last (by omega)] at lastNamed ⊢
    have same : (listed names)[last] = eth := lastNamed
    rw [same]
    exact ⟨by omega, rfl⟩
  · intro missing
    refine ended.resolve_right fun lastNamed => ?_
    by_cases inside : last < (listed names).length
    · rw [within last inside] at lastNamed
      have same : (listed names)[last] = eth := lastNamed
      have member : (listed names)[last] ∈ names :=
        List.mem_of_mem_filter (List.mem_reverse.mp (List.getElem_mem inside))
      exact missing (same ▸ member)
    · rw [entry, List.getElem?_eq_none (by simpa using inside)] at lastNamed
      exact named lastNamed.symm

/-- **What the server listens on.** Let the kernel report at most as many interfaces beside the
loopback as the table has entries. The server starts up exactly when every request about each of
them is answered. Then `event_ethernet` serves its interface, on the socket made for that
interface's own address, when the kernel has reported it; and the memory behind the table when
not. -/
theorem ethernet_served (sockets : Sockets) (opened : kernel.socket = true)
    (reported : kernel.conf = some names) (few : (kept names).length ≤ netcardMaxnum) :
    ((systemNetInit kernel .static).isSome ↔ ∀ name ∈ kept names, Answered kernel name) ∧
      ∀ table, systemNetInit kernel .static = some table → ∃ cards idx,
        (eventEthernetListening sockets elexsmrtEthName (some table.cards)).1 = some cards ∧
        eventEthernet sockets (some table.cards) = .http idx ∧
        (elexsmrtEthName ∈ names → idx < netcardMaxnum ∧
          cards.entry idx = ⟨own kernel elexsmrtEthName,
            createSockListen sockets (own kernel elexsmrtEthName)⟩) ∧
        (elexsmrtEthName ∉ names → idx = netcardMaxnum) := by
  rw [systemNetInit_eq opened reported]
  constructor
  · rw [← scan_whole_iff]
    split <;> simp [*]
  · intro table started
    split at started
    · rename_i whole
      obtain rfl := Option.some.inj started
      obtain ⟨cards, idx, listening, stored, -, before, ended⟩ :=
        listening_eq sockets elexsmrtEthName
          (scan kernel names.reverse 0 .static).1.cards.entry
      have listens : eventEthernetListening sockets elexsmrtEthName
          (some (scan kernel names.reverse 0 .static).1.cards) = (some cards, some idx) := listening
      have entry := scan_entry (scan_whole_iff.mp whole)
      have found := search_listed (by decide) (by decide) few entry before ended
      refine ⟨cards, idx, by rw [listens], by rw [eventEthernet, listens], fun member => ?_,
        found.2⟩
      obtain ⟨below, own⟩ := found.1 member
      refine ⟨below, ?_⟩
      rw [stored, update_self]
      simp only [Table.cards, own]
    · cases started

/-- With the loopback and `eth0` reported, the server listens on the first entry. -/
theorem ethernet_served_one :
    ∃ table cards, systemNetInit (reporting [(loopback, 1), (elexsmrtEthName, 1)]) .static =
        some table ∧
      (eventEthernetListening ⟨3, fun _ => 0, 0⟩ elexsmrtEthName (some table.cards)).1 =
        some cards ∧
      eventEthernet ⟨3, fun _ => 0, 0⟩ (some table.cards) = .http 0 ∧
      cards.entry 0 =
        ⟨own (reporting [(loopback, 1), (elexsmrtEthName, 1)]) elexsmrtEthName, 3⟩ := by
  obtain ⟨-, served⟩ := @ethernet_served (reporting [(loopback, 1), (elexsmrtEthName, 1)]) _
    ⟨3, fun _ => 0, 0⟩ rfl rfl (by decide)
  obtain ⟨cards, idx, listens, serves, member, -⟩ := served _ rfl
  obtain ⟨below, here⟩ := member (by decide)
  obtain rfl : 0 = idx := Serving.http.inj serves
  exact ⟨_, cards, rfl, listens, serves, here⟩

end SysServer.Net
