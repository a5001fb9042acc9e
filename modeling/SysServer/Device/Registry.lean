import SysServer.Inc.Dlist

/-!
# The device registry

`system_dev_init`, `sys_dev_init` and `sys_dev_register` over a memory of device records. The
registration passes its two nodes to `list_add` in the opposite roles: the registry head is
inserted behind the device, whose own links were never initialised. The links that any sequence
of registrations leaves are computed here, and with them exactly which sequences leave a ring.
-/

namespace SysServer

open Library

/-- `ELEXSMRT_FIRST` of `enum DEV_TYPE`. -/
def devFirst : Int8 := 0

/-- `ELEXSMRT_DEV_NONE` of `enum DEV_OPERATE`. -/
def devNone : UInt32 := 0x100

/-- `ELEXSMRT_DEV_REGISTERED` of `enum DEV_PERMISSION`. -/
def devRegistered : UInt32 := 0x1

/-- `ELEXSMRT_DEV_UNREGISTERED` of `enum DEV_PERMISSION`. -/
def devUnregistered : UInt32 := 0x2

/-- `dev_basic`, without its list member, which lies in the memory of links. -/
structure DevBasic where
  /-- Device type. -/
  gCdevtype : Int8
  /-- Operation and permission bits. -/
  gIdevPerOperation : UInt32
  /-- The private attribute. -/
  priv : Address
  /-- The next device of the plain chain. -/
  next : Address

/-- `dev_manage`. -/
structure DevManage where
  /-- First device. -/
  pfirst : Address
  /-- Last device. -/
  plast : Address
  /-- The head of the device list. -/
  sTdevice : Address
  /-- The count of all registered devices. -/
  uIdevCount : UInt32

/-- Device records by address, with their list members. -/
structure DevMemory where
  /-- `sTdev_list` of every record. -/
  links : Links Address
  /-- The other members of every record. -/
  record : Address → DevBasic

/-- `sys_dev_init` — type, permissions and attribute; the list member is left unset. -/
def sysDevInit (memory : DevMemory) (device devAttr : Address) (type : Int8) : DevMemory × Int :=
  let record := memory.record device
  let permissions := record.gIdevPerOperation &&& 0 ||| devUnregistered ||| devNone
  ({ memory with
      record := Function.update memory.record device
        { record with gCdevtype := type, gIdevPerOperation := permissions, priv := devAttr } }, 0)

/-- `system_dev_init` — the block that `malloc` gave becomes the head of an empty device list;
without a block the program ends. -/
def systemDevInit (memory : DevMemory) (devm : DevManage) :
    Option Address → Option (DevMemory × DevManage × Int)
  | none => none
  | some firstdev =>
    some
      ({ links := initListHead memory.links firstdev
         record := Function.update memory.record firstdev ⟨devFirst, devNone, null, firstdev⟩ },
        { devm with sTdevice := firstdev, pfirst := firstdev, plast := firstdev }, 0)

/-- `sys_dev_register` — refuse null pointers, else call `list_add` with the registry head as
the new entry and the device as the head. -/
def sysDevRegister (memory : DevMemory) (devices : Option DevManage) (device : Address) :
    DevMemory × Int :=
  match devices with
  | none => (memory, -1)
  | some devices =>
    if device = null then (memory, -1)
    else ({ memory with links := listAdd memory.links devices.sTdevice device }, 0)

/-- `sys_dev_unregister` — refuse null pointers, else take and release the lock: the call of
`list_del` between the two is commented out. -/
def sysDevUnregister (memory : DevMemory) (devices : Option DevManage) (device : Address) :
    DevMemory × Int :=
  match devices with
  | none => (memory, -1)
  | some _ => if device = null then (memory, -1) else (memory, 0)

/-- Register devices one after another. -/
def registerAll (memory : DevMemory) (devices : DevManage) : List Address → DevMemory
  | [] => memory
  | device :: rest => registerAll (sysDevRegister memory (some devices) device).1 devices rest

variable {memory : DevMemory} {devices : DevManage}

/-- The four stores of one registration, as they are seen afterwards: the head follows the
device, and what the device's stale next link named follows the head. -/
theorem register_links (memory : DevMemory) {device : Address} (real : device ≠ null)
    (apart : device ≠ devices.sTdevice) (node : Address) :
    let after := (sysDevRegister memory (some devices) device).1.links node
    after.next = (if node = device then devices.sTdevice
      else if node = devices.sTdevice then (memory.links device).next
      else (memory.links node).next) ∧
    after.prev = (if node = devices.sTdevice then device
      else if node = (memory.links device).next then devices.sTdevice
      else (memory.links node).prev) := by
  by_cases onDevice : node = device
  · subst onDevice
    simp [sysDevRegister, real, listAdd, rawListAdd, apart]
  · by_cases onHead : node = devices.sTdevice
    · simp [sysDevRegister, real, listAdd, rawListAdd, onHead, Ne.symm apart]
    · simp [sysDevRegister, real, listAdd, rawListAdd, onDevice, onHead]

/-- A device that is not among those registered keeps its next link. -/
theorem registerAll_next_other {ds : List Address} {node : Address} (real : null ∉ ds)
    (apart : devices.sTdevice ∉ ds) (outside : node ∉ ds) (notHead : node ≠ devices.sTdevice) :
    ((registerAll memory devices ds).links node).next = (memory.links node).next := by
  induction ds generalizing memory with
  | nil => rfl
  | cons device rest ih =>
    simp only [List.mem_cons, not_or] at real apart outside
    have stored := (register_links memory (Ne.symm real.1) (Ne.symm apart.1) node).1
    rw [registerAll, ih real.2 apart.2 outside.2, stored, if_neg outside.1, if_neg notHead]

/-- Every device registered is followed by the head, so the devices registered before it are no
longer between it and the head. -/
theorem registerAll_next {ds : List Address} {device : Address} (real : null ∉ ds)
    (apart : devices.sTdevice ∉ ds) (distinct : ds.Nodup) (inside : device ∈ ds) :
    ((registerAll memory devices ds).links device).next = devices.sTdevice := by
  induction ds generalizing memory with
  | nil => cases inside
  | cons first rest ih =>
    obtain ⟨absent, distinct⟩ := List.nodup_cons.mp distinct
    simp only [List.mem_cons, not_or] at real apart
    rcases List.mem_cons.mp inside with rfl | later
    · have stored := (register_links memory (Ne.symm real.1) (Ne.symm apart.1) device).1
      rw [registerAll, registerAll_next_other real.2 apart.2 absent (Ne.symm apart.1), stored,
        if_pos rfl]
    · rw [registerAll, ih real.2 apart.2 distinct later]

/-- A ring holds at most one of the devices registered. -/
theorem registerAll_ring_length {ds nodes : List Address} (real : null ∉ ds)
    (apart : devices.sTdevice ∉ ds) (distinct : ds.Nodup) (same : nodes.Perm ds)
    (ring : Circular (registerAll memory devices ds).links devices.sTdevice nodes) :
    ds.length ≤ 1 := by
  match ds, distinct with
  | [], _ | [_], _ => simp
  | first :: second :: rest, distinct =>
    have onRing : ∀ device ∈ first :: second :: rest, device ∈ devices.sTdevice :: nodes :=
      fun device inside => List.mem_cons_of_mem _ (same.mem_iff.mpr inside)
    have follows : ∀ device ∈ first :: second :: rest,
        ((registerAll memory devices (first :: second :: rest)).links device).next =
          devices.sTdevice := fun device inside => registerAll_next real apart distinct inside
    have equal : first = second := ring.next_injective (onRing first (by simp))
      (onRing second (by simp)) ((follows first (by simp)).trans (follows second (by simp)).symm)
    exact absurd equal (by simp_all)

/-- One registered device makes a ring with the head exactly when its own next link named it. -/
theorem register_one {device : Address} (real : device ≠ null)
    (apart : device ≠ devices.sTdevice) :
    Circular (registerAll memory devices [device]).links devices.sTdevice [device] ↔
      (memory.links device).next = device := by
  have head := register_links memory real apart devices.sTdevice
  have node := register_links memory real apart device
  simp only [if_neg (Ne.symm apart), if_neg apart, ↓reduceIte] at head node
  constructor
  · intro ring
    exact head.1.symm.trans ring.path.1.1
  · intro itself
    refine ⟨by simpa using Ne.symm apart, ⟨head.1.trans itself, ?_⟩, node.1, head.2⟩
    rw [registerAll, registerAll, node.2, if_pos itself.symm]

/-- **When registration loses no device.** From `system_dev_init`, registering distinct devices
leaves a ring of exactly those devices if and only if there is none, or there is one and its
unset next link happened to name the device itself. (An unset link that names no memory stops the
program in `list_add`, where the stores are taken to go on here; there is no ring either way.) -/
theorem registerAll_ring_iff (memory : DevMemory) (devm : DevManage) (firstdev : Address)
    (ds : List Address) (real : null ∉ ds) (distinct : ds.Nodup) (apart : firstdev ∉ ds) :
    ∃ start devices, systemDevInit memory devm (some firstdev) = some (start, devices, 0) ∧
      ((∃ nodes, nodes.Perm ds ∧
          Circular (registerAll start devices ds).links devices.sTdevice nodes) ↔
        ds = [] ∨ ∃ device, ds = [device] ∧ (memory.links device).next = device) := by
  refine ⟨_, _, rfl, ?_⟩
  constructor
  · rintro ⟨nodes, same, ring⟩
    have short := registerAll_ring_length real apart distinct same ring
    match ds with
    | [] => exact .inl rfl
    | [device] =>
      obtain rfl : nodes = [device] := List.perm_singleton.mp same
      simp only [List.mem_singleton] at real apart
      have named := (register_one (Ne.symm real) (Ne.symm apart)).mp ring
      simp only [initListHead_frame (Ne.symm apart)] at named
      exact .inr ⟨device, rfl, named⟩
    | _ :: _ :: _ => simp at short
  · rintro (rfl | ⟨device, rfl, named⟩)
    · exact ⟨[], List.Perm.refl _, initListHead_circular _ _⟩
    · simp only [List.mem_singleton] at real apart
      refine ⟨[device], List.Perm.refl _, (register_one (Ne.symm real) (Ne.symm apart)).mpr ?_⟩
      simp only [initListHead_frame (Ne.symm apart), named]

/-- Two devices whose unset links name a list of another record are not both on a ring. -/
theorem registerAll_ring_iff_two :
    ∃ start devices,
      systemDevInit ⟨fun _ => ⟨64, 64⟩, fun _ => ⟨0, 0, null, null⟩⟩ ⟨null, null, null, 0⟩
        (some 16) = some (start, devices, 0) ∧
      ((∃ nodes, nodes.Perm [32, 48] ∧
          Circular (registerAll start devices [32, 48]).links devices.sTdevice nodes) ↔
        ([32, 48] : List Address) = [] ∨
          ∃ device, [32, 48] = [device] ∧ (⟨64, 64⟩ : Link Address).next = device) :=
  registerAll_ring_iff _ _ 16 [32, 48] (by decide) (by decide) (by decide)

/-- One device whose unset links name the empty list of another record is already lost: the head is
inserted into that list, and its next link names the other record. -/
theorem register_loses_device :
    ¬ ∀ (memory : DevMemory) (devm : DevManage) (firstdev : Address) (ds : List Address),
      null ∉ ds → ds.Nodup → firstdev ∉ ds →
      ∀ start devices, systemDevInit memory devm (some firstdev) = some (start, devices, 0) →
        ∃ nodes, nodes.Perm ds ∧
          Circular (registerAll start devices ds).links devices.sTdevice nodes := by
  intro every
  obtain ⟨nodes, same, ring⟩ := every ⟨fun _ => ⟨64, 64⟩, fun _ => ⟨0, 0, null, null⟩⟩
    ⟨null, null, null, 0⟩ 16 [32] (by decide) (by decide) (by decide) _ _ rfl
  obtain rfl : nodes = [32] := List.perm_singleton.mp same
  have follows : (64 : Address) = 32 := ring.path.1.1
  exact absurd follows (by decide)

end SysServer
