import Mathlib.Order.Interval.Finset.Nat

/-!
# The table of network interfaces

`obtain_netdev_info` asks the kernel for its interfaces and records each but the loopback in the
table of the system server. The kernel is a parameter: which interfaces it reports, and what it
answers to each request about one. The scan asks for the flags of an interface but never looks at
them, and never compares its index with the size of the table.
-/

namespace SysServer.Net

/-- A text as a list of characters. -/
abbrev Text := List Char

/-- `ELEXSMRT_NETCARD_MAXNUM` — the entries of the table. -/
def netcardMaxnum : ℕ := 4

/-- `ELEXSMRT_IPV4_SIZE` — the room for an address. -/
def ipv4Size : ℕ := 16

/-- The name of the loopback. -/
def loopback : Text := ['l', 'o']

/-- The requests about one interface. -/
inductive Ioctl where
  /-- `SIOCGIFFLAGS`. -/
  | flags
  /-- `SIOCGIFHWADDR`. -/
  | hwaddr
  /-- `SIOCGIFADDR`. -/
  | addr
  /-- `SIOCGIFBRDADDR`. -/
  | brdaddr
  /-- `SIOCGIFNETMASK`. -/
  | netmask
  deriving DecidableEq

/-- The bytes that an answer puts in the union of an `ifreq`. -/
abbrev Answer := List UInt8

/-- What the scan learns from outside. -/
structure Kernel where
  /-- Whether `socket` succeeds. -/
  socket : Bool
  /-- The names in the entries of `buf` after `SIOCGIFCONF`, when it succeeds. -/
  conf : Option (List Text)
  /-- The answer to a request about the interface of a name, when it succeeds. -/
  ioctl : Ioctl → Text → Option Answer

/-- `net_dev`, the members that the scan stores. -/
structure NetDev where
  /-- Name. -/
  gCintername : Text
  /-- Hardware address. -/
  gCmac : Text
  /-- Address. -/
  gCipaddr : Text
  /-- Broadcast address. -/
  gCbcastaddr : Text
  /-- Subnet mask. -/
  gCnetmask : Text
  deriving DecidableEq

/-- `net_info`, with the memory behind its end, and the entries stored into. -/
structure Table where
  /-- The entries, and what would be further entries behind them. -/
  entry : ℕ → NetDev
  /-- The indices stored into. -/
  written : Finset ℕ

/-- Store into one entry. -/
def Table.store (table : Table) (idx : ℕ) (change : NetDev → NetDev) : Table :=
  ⟨Function.update table.entry idx (change (table.entry idx)), insert idx table.written⟩

/-- `snprintf` of a text: as much of it as fits before the closing zero. -/
def snprintf (size : ℕ) (text : Text) : Text := text.take (size - 1)

/-- The conversion `%02x`. -/
def hex (byte : UInt8) : Text :=
  [Nat.digitChar (byte.toNat / 16), Nat.digitChar (byte.toNat % 16)]

/-- The hardware address in an answer: six bytes of `sa_data`, behind the family. -/
def macText (answer : Answer) : Text :=
  hex (answer.getD 2 0) ++ ':' :: hex (answer.getD 3 0) ++ ':' :: hex (answer.getD 4 0) ++
    ':' :: hex (answer.getD 5 0) ++ ':' :: hex (answer.getD 6 0) ++ ':' :: hex (answer.getD 7 0)

/-- `inet_ntoa` of the `sin_addr` in an answer, behind the family and the port. -/
def inetNtoa (answer : Answer) : Text :=
  Nat.toDigits 10 (answer.getD 4 0).toNat ++ '.' :: Nat.toDigits 10 (answer.getD 5 0).toNat ++
    '.' :: Nat.toDigits 10 (answer.getD 6 0).toNat ++ '.' :: Nat.toDigits 10 (answer.getD 7 0).toNat

/-- The requests whose answers are stored, in order, and where each is stored. -/
def stores : List (Ioctl × (Answer → NetDev → NetDev)) :=
  [(.hwaddr, fun answer dev => { dev with gCmac := snprintf 18 (macText answer) }),
    (.addr, fun answer dev => { dev with gCipaddr := snprintf ipv4Size (inetNtoa answer) }),
    (.brdaddr, fun answer dev => { dev with gCbcastaddr := snprintf ipv4Size (inetNtoa answer) }),
    (.netmask, fun answer dev => { dev with gCnetmask := snprintf ipv4Size (inetNtoa answer) })]

/-- Ask and store one request after another; the first that fails ends the scan. -/
def fill (kernel : Kernel) (name : Text) (idx : ℕ) :
    List (Ioctl × (Answer → NetDev → NetDev)) → Table → Table × Bool
  | [], table => (table, true)
  | (request, change) :: rest, table =>
    match kernel.ioctl request name with
    | none => (table, false)
    | some answer => fill kernel name idx rest (table.store idx (change answer))

/-- The loop of `obtain_netdev_info` over the names still to visit: the loopback is skipped, the
name of any other is stored, its flags are asked for, and its addresses are stored. -/
def scan (kernel : Kernel) : List Text → ℕ → Table → Table × Int
  | [], _, table => (table, 0)
  | name :: names, idx, table =>
    if name = loopback then scan kernel names idx table
    else
      let named := table.store idx fun dev => { dev with gCintername := name }
      match kernel.ioctl .flags name with
      | none => (named, -1)
      | some _ =>
        match fill kernel name idx stores named with
        | (filled, false) => (filled, -1)
        | (filled, true) => scan kernel names (idx + 1) filled

/-- `obtain_netdev_info` — the kernel's list is visited from its last entry to its first. -/
def obtainNetdevInfo (kernel : Kernel) (table : Table) : Table × Int :=
  if kernel.socket then
    match kernel.conf with
    | none => (table, -1)
    | some names => scan kernel names.reverse 0 table
  else (table, -1)

/-- Every request about the interface is answered. -/
def Answered (kernel : Kernel) (name : Text) : Prop :=
  ∀ request, (kernel.ioctl request name).isSome

/-- The interface is up: the lowest bit of its flags, `IFF_UP`, is set. -/
def up (kernel : Kernel) (name : Text) : Bool :=
  match kernel.ioctl .flags name with
  | none => false
  | some answer => answer.getD 0 0 &&& 1 != 0

/-- The interface's own record. -/
def own (kernel : Kernel) (name : Text) : NetDev where
  gCintername := name
  gCmac := macText ((kernel.ioctl .hwaddr name).getD [])
  gCipaddr := inetNtoa ((kernel.ioctl .addr name).getD [])
  gCbcastaddr := inetNtoa ((kernel.ioctl .brdaddr name).getD [])
  gCnetmask := inetNtoa ((kernel.ioctl .netmask name).getD [])

variable {kernel : Kernel} {name : Text} {names : List Text} {idx : ℕ} {table : Table}

/-- A hardware address fits in its eighteen bytes. -/
theorem snprintf_mac (answer : Answer) : snprintf 18 (macText answer) = macText answer := by
  simp [snprintf, macText, hex]

/-- A byte has at most three decimal digits. -/
theorem digits_length (byte : UInt8) : (Nat.toDigits 10 byte.toNat).length ≤ 3 := by
  apply (Nat.length_toDigits_le_iff (by decide) (by decide)).mpr
  have small := byte.toNat_lt
  omega

/-- An address fits in its sixteen bytes. -/
theorem snprintf_inetNtoa (answer : Answer) :
    snprintf ipv4Size (inetNtoa answer) = inetNtoa answer := by
  apply List.take_of_length_le
  have first := digits_length (answer.getD 4 0)
  have second := digits_length (answer.getD 5 0)
  have third := digits_length (answer.getD 6 0)
  have fourth := digits_length (answer.getD 7 0)
  simp only [inetNtoa, ipv4Size, List.length_append, List.length_cons]
  omega

/-- When every request is answered, one entry becomes the interface's own record. -/
theorem fill_answered (answered : Answered kernel name) :
    ∃ filled, fill kernel name idx stores
        (table.store idx fun dev => { dev with gCintername := name }) = (filled, true) ∧
      filled.entry = Function.update table.entry idx (own kernel name) ∧
      filled.written = insert idx table.written := by
  obtain ⟨mac, hwaddr⟩ := Option.isSome_iff_exists.mp (answered .hwaddr)
  obtain ⟨ip, addr⟩ := Option.isSome_iff_exists.mp (answered .addr)
  obtain ⟨broadcast, brdaddr⟩ := Option.isSome_iff_exists.mp (answered .brdaddr)
  obtain ⟨mask, netmask⟩ := Option.isSome_iff_exists.mp (answered .netmask)
  simp only [stores, fill, hwaddr, addr, brdaddr, netmask]
  refine ⟨_, rfl, ?_, ?_⟩
  · simp [Table.store, own, hwaddr, addr, brdaddr, netmask, snprintf_mac, snprintf_inetNtoa]
  · simp [Table.store]

/-- When one interface is recorded whole, each request was answered. -/
theorem fill_returned {requests : List (Ioctl × (Answer → NetDev → NetDev))} {filled : Table}
    (returned : fill kernel name idx requests table = (filled, true)) :
    ∀ request ∈ requests.map Prod.fst, (kernel.ioctl request name).isSome := by
  induction requests generalizing table with
  | nil => simp
  | cons first requests ih =>
    obtain ⟨request, change⟩ := first
    rw [fill] at returned
    cases reply : kernel.ioctl request name with
    | none => simp [reply] at returned
    | some answer =>
      simp only [reply] at returned
      intro other inside
      rcases List.mem_cons.mp inside with rfl | later
      · exact Option.isSome_iff_exists.mpr ⟨answer, reply⟩
      · exact ih returned other later

/-- The names that the scan does not skip. -/
def kept (names : List Text) : List Text := names.filter (· ≠ loopback)

/-- The loopback is skipped. -/
theorem kept_skip (skipped : name = loopback) : kept (name :: names) = kept names :=
  List.filter_cons_of_neg (by simpa using skipped)

/-- Any other name is not. -/
theorem kept_cons (other : name ≠ loopback) : kept (name :: names) = name :: kept names :=
  List.filter_cons_of_pos (by simpa using other)

/-- When every request about a name not skipped is answered, the scan returns zero and records the
names in consecutive entries. -/
theorem scan_answered (answered : ∀ name ∈ kept names, Answered kernel name) :
    ∃ after, scan kernel names idx table = (after, 0) ∧
      after.written = table.written ∪ Finset.Ico idx (idx + (kept names).length) ∧
      (∀ other < idx, after.entry other = table.entry other) ∧
      (List.range' idx (kept names).length).map after.entry = (kept names).map (own kernel) := by
  induction names generalizing idx table with
  | nil => exact ⟨table, rfl, by simp [kept], fun _ _ => rfl, rfl⟩
  | cons name names ih =>
    rw [scan]
    by_cases skipped : name = loopback
    · rw [kept_skip skipped] at answered ⊢
      rw [if_pos skipped]
      exact ih answered
    · rw [kept_cons skipped] at answered ⊢
      have here := answered name List.mem_cons_self
      obtain ⟨flags, asked⟩ := Option.isSome_iff_exists.mp (here .flags)
      obtain ⟨filled, recorded, entry, written⟩ := @fill_answered kernel name idx table here
      obtain ⟨after, ran, wrote, below, above⟩ := @ih (idx + 1) filled
        fun other inside => answered other (List.mem_cons_of_mem name inside)
      refine ⟨after, ?_, ?_, ?_, ?_⟩
      · rw [if_neg skipped]
        simp only [asked, recorded, ran]
      · rw [wrote, written]
        have first : insert idx (Finset.Ico (idx + 1) (idx + 1 + (kept names).length)) =
            Finset.Ico idx (idx + (name :: kept names).length) := by
          ext other
          simp only [Finset.mem_insert, Finset.mem_Ico, List.length_cons]
          omega
        rw [← first, Finset.insert_union, Finset.union_insert]
      · intro other before
        rw [below other (by omega), entry, Function.update_of_ne (by omega)]
      · rw [List.length_cons, List.range'_succ, List.map_cons, above, List.map_cons,
          below idx (by omega), entry, Function.update_self]

/-- When the scan returns zero, every request about a name not skipped was answered. -/
theorem scan_returned (returned : (scan kernel names idx table).2 = 0) :
    ∀ name ∈ kept names, Answered kernel name := by
  induction names generalizing idx table with
  | nil => simp [kept]
  | cons name names ih =>
    rw [scan] at returned
    by_cases skipped : name = loopback
    · rw [if_pos skipped] at returned
      rw [kept_skip skipped]
      exact ih returned
    · rw [if_neg skipped] at returned
      rw [kept_cons skipped]
      cases asked : kernel.ioctl .flags name with
      | none => simp [asked] at returned
      | some flags =>
        simp only [asked] at returned
        rcases recorded : fill kernel name idx stores
          (table.store idx fun dev => { dev with gCintername := name }) with ⟨filled, whole⟩
        rw [recorded] at returned
        cases whole with
        | false => simp at returned
        | true =>
          have answers := fill_returned recorded
          intro other inside
          rcases List.mem_cons.mp inside with rfl | later
          · intro request
            cases request with
            | flags => exact Option.isSome_iff_exists.mpr ⟨flags, asked⟩
            | hwaddr => exact answers .hwaddr (by simp [stores])
            | addr => exact answers .addr (by simp [stores])
            | brdaddr => exact answers .brdaddr (by simp [stores])
            | netmask => exact answers .netmask (by simp [stores])
          · exact ih returned other later

/-- The interfaces that belong in the table. -/
def ups (kernel : Kernel) (names : List Text) : List Text := (kept names).filter (up kernel)

/-- What the table owes to the kernel's report. -/
structure Filled (kernel : Kernel) (entry : ℕ → NetDev) : Prop where
  /-- Only entries of the table are stored into. -/
  bounded : ∀ idx ∈ (obtainNetdevInfo kernel ⟨entry, ∅⟩).1.written, idx < netcardMaxnum
  /-- After success there is one entry for each interface that is up and not the loopback, with its
  own record, and no other entry was stored into. -/
  complete : ∀ names, kernel.conf = some names →
    (obtainNetdevInfo kernel ⟨entry, ∅⟩).2 = 0 →
    let after := (obtainNetdevInfo kernel ⟨entry, ∅⟩).1
    after.written = Finset.range (ups kernel names).length ∧
      ((List.range (ups kernel names).length).map after.entry).Perm
        ((ups kernel names).map (own kernel))
  /-- No interface makes the scan fail. -/
  tolerant : ∀ names, kernel.conf = some names → kernel.socket = true →
    (obtainNetdevInfo kernel ⟨entry, ∅⟩).2 = 0

/-- The reported interfaces other than the loopback are all up and fit in the table. -/
def AllUp (kernel : Kernel) (names : List Text) : Prop :=
  (∀ name ∈ kept names, up kernel name = true) ∧ (kept names).length ≤ netcardMaxnum

/-- The names not skipped do not depend on the order of the visit. -/
theorem kept_reverse (names : List Text) : kept names.reverse = (kept names).reverse :=
  List.filter_reverse

/-- When every request about a name not skipped is answered, the table holds the records of these
names from its first entry on. -/
theorem obtainNetdevInfo_answered (opened : kernel.socket = true)
    (reported : kernel.conf = some names) (answered : ∀ name ∈ kept names, Answered kernel name)
    (entry : ℕ → NetDev) :
    ∃ after, obtainNetdevInfo kernel ⟨entry, ∅⟩ = (after, 0) ∧
      after.written = Finset.range (kept names).length ∧
      ((List.range (kept names).length).map after.entry).Perm ((kept names).map (own kernel)) := by
  have backwards : ∀ name ∈ kept names.reverse, Answered kernel name := by
    intro name inside
    rw [kept_reverse, List.mem_reverse] at inside
    exact answered name inside
  obtain ⟨after, ran, written, -, recorded⟩ := @scan_answered kernel _ 0 ⟨entry, ∅⟩ backwards
  refine ⟨after, ?_, ?_, ?_⟩
  · simp only [obtainNetdevInfo, opened, reported, if_pos, ran]
  · rw [written, kept_reverse, List.length_reverse, Nat.zero_add, Finset.range_eq_Ico]
    exact Finset.empty_union _
  · rw [kept_reverse, List.length_reverse, ← List.range_eq_range', List.map_reverse] at recorded
    rw [recorded]
    exact List.reverse_perm _

/-- A scan that returned zero was answered about every name not skipped. -/
theorem obtainNetdevInfo_returned (opened : kernel.socket = true)
    (reported : kernel.conf = some names) {entry : ℕ → NetDev}
    (returned : (obtainNetdevInfo kernel ⟨entry, ∅⟩).2 = 0) :
    ∀ name ∈ kept names, Answered kernel name := by
  have whole : (scan kernel names.reverse 0 ⟨entry, ∅⟩).2 = 0 := by
    simpa only [obtainNetdevInfo, opened, reported, if_pos] using returned
  intro name inside
  apply scan_returned whole
  rw [kept_reverse, List.mem_reverse]
  exact inside

/-- A right table has room for every name not skipped, and all of them are up: as many entries
were stored into as there are interfaces up. -/
theorem Filled.allUp {entry : ℕ → NetDev} (filled : Filled kernel entry)
    (opened : kernel.socket = true) (reported : kernel.conf = some names) :
    AllUp kernel names := by
  have returned := filled.tolerant names reported opened
  have answered := obtainNetdevInfo_returned opened reported returned
  obtain ⟨after, ran, written, -⟩ := obtainNetdevInfo_answered opened reported answered entry
  have bounded := filled.bounded
  have complete := (filled.complete names reported returned).1
  rw [ran] at bounded complete
  constructor
  · have same := congrArg Finset.card (complete.symm.trans written)
    rw [Finset.card_range, Finset.card_range] at same
    exact List.length_filter_eq_length_iff.mp same
  · by_contra many
    have stored : netcardMaxnum ∈ after.written := by
      rw [written, Finset.mem_range]
      omega
    exact absurd (bounded netcardMaxnum stored) (Nat.lt_irrefl _)

/-- When all are up and answered and fit, the table is right. -/
theorem AllUp.filled (allUp : AllUp kernel names) (opened : kernel.socket = true)
    (reported : kernel.conf = some names) (answered : ∀ name ∈ kept names, Answered kernel name)
    (entry : ℕ → NetDev) : Filled kernel entry := by
  obtain ⟨after, ran, written, recorded⟩ :=
    obtainNetdevInfo_answered opened reported answered entry
  have same : ups kernel names = kept names := List.filter_eq_self.mpr allUp.1
  constructor
  · intro idx stored
    rw [ran] at stored
    have inside := Finset.mem_range.mp (written ▸ stored)
    have few := allUp.2
    omega
  · intro others also _
    obtain rfl := Option.some.inj (reported.symm.trans also)
    rw [ran, same]
    exact ⟨written, recorded⟩
  · intro others also _
    rw [ran]

/-- A kernel with these interfaces, each with the given lowest byte of its flags, which answers
every request. -/
def reporting (interfaces : List (Text × UInt8)) : Kernel where
  socket := true
  conf := some (interfaces.map Prod.fst)
  ioctl request name :=
    match request, interfaces.lookup name with
    | _, none => none
    | .flags, some flags => some [flags, 0]
    | _, some _ => some [2, 0, 0, 0, 10, 0, 0, 1]

end SysServer.Net
