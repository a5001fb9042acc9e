import SysServer.Net.Interfaces

/-!
# The listening interface

`event_ethernet_listening` looks for the entry of the table whose interface has a given name, and
stores a listening socket there. The loop ends with an index in the table when it has found the
name, and with the number of entries when it has not; what follows does not tell the two apart. What
the sockets answer is a parameter.
-/

namespace SysServer.Net

open Function

/-- `ELEXSMRT_ETH_NAME`. -/
def elexsmrtEthName : Text := ['e', 't', 'h', '0']

/-- `net_manage`, the members that the listening reads or stores. -/
structure NetManage where
  /-- `sTnet`. -/
  sTnet : NetDev
  /-- `listen`. -/
  listen : ℤ
  deriving DecidableEq

/-- What the operating system answers when a socket is set up. -/
structure Sockets where
  /-- `socket`. -/
  socket : ℤ
  /-- `bind` to an address. -/
  bind : Text → ℤ
  /-- `listen`. -/
  listen : ℤ

/-- `create_sock_listen` — the socket, or what the first call that fails has returned. -/
def createSockListen (sockets : Sockets) (netdev : NetDev) : ℤ :=
  if sockets.socket < 0 then sockets.socket
  else if sockets.bind netdev.gCipaddr < 0 then sockets.bind netdev.gCipaddr
  else if sockets.listen < 0 then sockets.listen
  else sockets.socket

/-- The table with the memory behind its end, and the indices read or stored at. -/
structure Cards where
  /-- The entries, and what would be further entries behind them. -/
  entry : ℕ → NetManage
  /-- The indices accessed. -/
  accessed : Finset ℕ

/-- One entry is accessed. -/
def Cards.access (cards : Cards) (idx : ℕ) : Cards :=
  { cards with accessed := insert idx cards.accessed }

/-- The socket is stored in one entry. -/
def Cards.store (cards : Cards) (idx : ℕ) (fd : ℤ) : Cards :=
  { cards.access idx with
    entry := update cards.entry idx { cards.entry idx with listen := fd } }

/-- The loop of `event_ethernet_listening`, for so many more entries: the index it ends with. -/
def search (eth : Text) : ℕ → ℕ → Cards → Cards × ℕ
  | 0, idx, cards => (cards, idx)
  | remaining + 1, idx, cards =>
    if (cards.entry idx).sTnet.gCintername = eth then (cards.access idx, idx)
    else search eth remaining (idx + 1) (cards.access idx)

/-- `event_ethernet_listening` — the table afterwards, and the index of the entry whose address is
returned; a null pointer gives a null pointer. -/
def eventEthernetListening (sockets : Sockets) (eth : Text) :
    Option Cards → Option Cards × Option ℕ
  | none => (none, none)
  | some cards =>
    let (searched, idx) := search eth netcardMaxnum 0 cards
    let fd := createSockListen sockets (searched.entry idx).sTnet
    (some ((searched.access idx).store idx fd), some idx)

/-- What `event_ethernet` goes on to do. -/
inductive Serving where
  /-- It returns. -/
  | stopped
  /-- It creates the HTTP thread for an entry. -/
  | http (idx : ℕ)
  deriving DecidableEq

/-- `event_ethernet`, with `__HTTP_ENABLE__` set. -/
def eventEthernet (sockets : Sockets) (cards : Option Cards) : Serving :=
  match (eventEthernetListening sockets elexsmrtEthName cards).2 with
  | none => .stopped
  | some idx => .http idx

/-- No entry of the table has the name. -/
def Absent (entry : ℕ → NetManage) (eth : Text) : Prop :=
  ∀ idx < netcardMaxnum, (entry idx).sTnet.gCintername ≠ eth

/-- The search is bounded and correct. -/
structure Chosen (sockets : Sockets) (eth : Text) (entry : ℕ → NetManage) : Prop where
  /-- Only entries of the table are accessed. -/
  bounded : ∀ cards, (eventEthernetListening sockets eth (some ⟨entry, ∅⟩)).1 = some cards →
    ∀ idx ∈ cards.accessed, idx < netcardMaxnum
  /-- The first entry of the name is returned with what `create_sock_listen` gave for it: its
  socket, or -1 where the socket could not be created. -/
  found : ∀ idx < netcardMaxnum, (entry idx).sTnet.gCintername = eth →
    (∀ earlier < idx, (entry earlier).sTnet.gCintername ≠ eth) →
    (eventEthernetListening sockets eth (some ⟨entry, ∅⟩)).1.map Cards.entry =
        some (update entry idx
          { entry idx with listen := createSockListen sockets (entry idx).sTnet }) ∧
      (eventEthernetListening sockets eth (some ⟨entry, ∅⟩)).2 = some idx
  /-- Without such an entry none is changed and a null pointer is returned. -/
  absent : Absent entry eth →
    (∀ cards, (eventEthernetListening sockets eth (some ⟨entry, ∅⟩)).1 = some cards →
        ∀ idx < netcardMaxnum, cards.entry idx = entry idx) ∧
      (eventEthernetListening sockets eth (some ⟨entry, ∅⟩)).2 = none
  /-- Without such an entry the server does not start. -/
  stopped : eth = elexsmrtEthName → Absent entry eth →
    eventEthernet sockets (some ⟨entry, ∅⟩) = .stopped

variable {sockets : Sockets} {eth : Text} {entry : ℕ → NetManage}

/-- What the loop leaves when it starts at one index and may visit so many entries. -/
structure Searched (eth : Text) (cards : Cards) (start count : ℕ) (result : Cards × ℕ) : Prop where
  /-- No entry is changed. -/
  same : result.1.entry = cards.entry
  /-- The entries visited before the last have other names. -/
  others : ∀ earlier, start ≤ earlier → earlier < result.2 →
    (cards.entry earlier).sTnet.gCintername ≠ eth
  /-- It ends behind the last entry, or at one of the name. -/
  ended : result.2 = start + count ∨
    result.2 < start + count ∧ (cards.entry result.2).sTnet.gCintername = eth
  /-- Only entries it may visit are accessed. -/
  accessed : ∀ idx ∈ result.1.accessed, idx ∈ cards.accessed ∨ idx < start + count

/-- The loop stops where it starts when the entry has the name. -/
theorem Searched.here {cards : Cards} {start : ℕ} (count : ℕ)
    (named : (cards.entry start).sTnet.gCintername = eth) :
    Searched eth cards start (count + 1) (cards.access start, start) := by
  constructor
  · rfl
  · intro earlier notBefore before
    exact absurd before (Nat.not_lt_of_le notBefore)
  · exact .inr ⟨Nat.lt_add_of_pos_right (Nat.succ_pos count), named⟩
  · intro idx inside
    rcases Finset.mem_insert.mp inside with rfl | before
    · exact .inr (by omega)
    · exact .inl before

/-- The loop passes an entry of another name and goes on behind it. -/
theorem Searched.pass {cards : Cards} {start count : ℕ} {result : Cards × ℕ}
    (other : (cards.entry start).sTnet.gCintername ≠ eth)
    (rest : Searched eth (cards.access start) (start + 1) count result) :
    Searched eth cards start (count + 1) result := by
  have shifted : start + 1 + count = start + (count + 1) := by omega
  constructor
  · exact rest.same
  · intro earlier notBefore before
    by_cases here : earlier = start
    · rw [here]
      exact other
    · exact rest.others earlier (by omega) before
  · rw [← shifted]
    exact rest.ended
  · intro idx inside
    rw [← shifted]
    rcases rest.accessed idx inside with before | bounded
    · rcases Finset.mem_insert.mp before with rfl | earlier
      · exact .inr (by omega)
      · exact .inl earlier
    · exact .inr bounded

/-- The loop ends at the first entry of the name, or behind the last entry it may visit. -/
theorem search_spec (eth : Text) (count start : ℕ) (cards : Cards) :
    Searched eth cards start count (search eth count start cards) := by
  induction count generalizing start cards with
  | zero =>
    constructor
    · rfl
    · intro earlier notBefore before
      exact absurd before (Nat.not_lt_of_le notBefore)
    · exact .inl rfl
    · exact fun idx inside => .inl inside
  | succ count ih =>
    rw [search]
    by_cases named : (cards.entry start).sTnet.gCintername = eth
    · rw [if_pos named]
      exact Searched.here count named
    · rw [if_neg named]
      exact Searched.pass named (ih (start + 1) (cards.access start))

/-- The function stores the socket at the index at which the loop ends, and returns that entry. -/
theorem listening_eq (sockets : Sockets) (eth : Text) (entry : ℕ → NetManage) :
    ∃ cards idx, eventEthernetListening sockets eth (some ⟨entry, ∅⟩) = (some cards, some idx) ∧
      cards.entry = update entry idx
        { entry idx with listen := createSockListen sockets (entry idx).sTnet } ∧
      (∀ place ∈ cards.accessed, place = idx ∨ place < netcardMaxnum) ∧
      (∀ earlier < idx, (entry earlier).sTnet.gCintername ≠ eth) ∧
      (idx = netcardMaxnum ∨ (entry idx).sTnet.gCintername = eth) := by
  have searched := search_spec eth netcardMaxnum 0 ⟨entry, ∅⟩
  generalize result : search eth netcardMaxnum 0 ⟨entry, ∅⟩ = last at searched
  obtain ⟨cards, idx⟩ := last
  have same : cards.entry = entry := searched.same
  have accessed := searched.accessed
  have ended := searched.ended
  rw [Nat.zero_add] at accessed ended
  refine ⟨_, idx, by rw [eventEthernetListening, result], ?_, ?_, ?_, ?_⟩
  · simp only [Cards.store, Cards.access, same]
  · intro place inside
    simp only [Cards.store, Cards.access, Finset.mem_insert] at inside
    rcases inside with here | here | before
    · exact .inl here
    · exact .inl here
    · exact .inr ((accessed place before).resolve_left (Finset.notMem_empty place))
  · intro earlier before
    exact searched.others earlier (Nat.zero_le _) before
  · exact ended.imp_right And.right

/-- Without an entry of the name the search is not correct: it returns an entry all the same. -/
theorem Absent.not_chosen (absent : Absent entry eth) : ¬ Chosen sockets eth entry := by
  intro chosen
  obtain ⟨cards, last, listening, _⟩ := listening_eq sockets eth entry
  have returned := (chosen.absent absent).2
  rw [listening] at returned
  cases returned

/-- With an entry of the name the search is correct. -/
theorem chosen_of_named {idx : ℕ} (below : idx < netcardMaxnum)
    (named : (entry idx).sTnet.gCintername = eth) : Chosen sockets eth entry := by
  obtain ⟨cards, last, listening, stored, near, others, ended⟩ := listening_eq sockets eth entry
  have notBehind : last ≤ idx := by
    by_contra behind
    exact others idx (by omega) named
  have lastNamed : (entry last).sTnet.gCintername = eth := by
    rcases ended with behind | lastNamed
    · omega
    · exact lastNamed
  have present : ¬ Absent entry eth := fun absent => absent idx below named
  constructor
  · intro cards result place among
    rw [listening] at result
    obtain rfl := Option.some.inj result
    rcases near place among with rfl | bounded
    · omega
    · exact bounded
  · intro first firstBelow firstNamed firstOthers
    have same : last = first := by
      by_contra different
      rcases Nat.lt_or_gt_of_ne different with before | behind
      · exact firstOthers last before lastNamed
      · exact others first behind firstNamed
    rw [listening, Option.map_some, stored, same]
    exact ⟨rfl, rfl⟩
  · intro absent
    exact absurd absent present
  · intro _ absent
    exact absurd absent present

/-- **When the search is correct.** For every table and every name, the search stays in the table
and gives the first entry of the name, or none, exactly when some entry has the name. -/
theorem listening_chosen_iff (sockets : Sockets) (eth : Text) (entry : ℕ → NetManage) :
    Chosen sockets eth entry ↔ ∃ idx < netcardMaxnum, (entry idx).sTnet.gCintername = eth := by
  constructor
  · intro chosen
    by_contra none_named
    have absent : Absent entry eth := by
      intro idx below named
      exact none_named ⟨idx, below, named⟩
    exact absent.not_chosen chosen
  · rintro ⟨idx, below, named⟩
    exact chosen_of_named below named

/-- With the loopback in every entry, the entry behind the table gets the socket and is served. -/
theorem listening_behind_table :
    ∃ sockets entry, (eventEthernetListening sockets elexsmrtEthName (some ⟨entry, ∅⟩)).2 = some 4 ∧
      eventEthernet sockets (some ⟨entry, ∅⟩) = .http 4 ∧
      ¬ Chosen sockets elexsmrtEthName entry := by
  refine ⟨⟨3, fun _ => 0, 0⟩, fun _ => ⟨⟨loopback, [], [], [], []⟩, 0⟩, rfl, rfl, ?_⟩
  intro chosen
  have absent : Absent (fun _ => ⟨⟨loopback, [], [], [], []⟩, 0⟩) elexsmrtEthName := by
    intro idx _
    show loopback ≠ elexsmrtEthName
    decide
  exact absurd (chosen.stopped rfl absent) (by decide)

end SysServer.Net
