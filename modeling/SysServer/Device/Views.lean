import SysServer.Device.Registry
import SysServer.Library.Machine

/-!
# The registry's views

Three places say which devices are registered: the ring of links, the counter `uIdev_count` and
the permission byte of each device. Calls of `sys_dev_register`, each on a device that
`sys_dev_init` prepared, and of `sys_dev_unregister` are run in any order from `system_dev_init`.
No call stores into the counter or into a permission byte, and unregistering stores nothing at
all, so the views part at the first call.
-/

namespace SysServer

open Library

namespace Registry

/-- The calls a client makes. -/
inductive Call where
  /-- `sys_dev_init` and then `sys_dev_register` of a device. -/
  | register (device devAttr : Address) (type : Int8)
  /-- `sys_dev_unregister` of a device. -/
  | unregister (device : Address)

/-- The registry between two calls, with the calls' history. -/
structure State where
  /-- The device records and their links. -/
  memory : DevMemory
  /-- The registry's own record. -/
  devices : DevManage
  /-- Devices registered and not unregistered since. -/
  registered : List Address
  /-- Devices that some call has prepared. -/
  prepared : List Address
  /-- What the last call returned. -/
  returned : Int

/-- One call. Only a device not registered is registered, and only a registered one is
unregistered; a call counts in the history when it returns zero. -/
def step (state : State) : Call → Option State
  | .register device devAttr type =>
    if device ≠ null ∧ device ∉ state.registered then
      let ready := (sysDevInit state.memory device devAttr type).1
      let result := sysDevRegister ready (some state.devices) device
      some { state with
        memory := result.1
        registered :=
          if result.2 = 0 then device :: state.registered else state.registered
        prepared := device :: state.prepared
        returned := result.2 }
    else none
  | .unregister device =>
    if device ∈ state.registered then
      let result := sysDevUnregister state.memory (some state.devices) device
      some { state with
        memory := result.1
        registered :=
          if result.2 = 0 then state.registered.erase device else state.registered
        returned := result.2 }
    else none

/-- The registry begins as `system_dev_init` leaves it, whatever the memory held. -/
def Begun (state : State) : Prop :=
  (∃ memory devm firstdev,
    systemDevInit memory devm (some firstdev) = some (state.memory, state.devices, 0)) ∧
  state.registered = [] ∧ state.prepared = []

/-- Runs of calls. -/
def machine : Machine State Call where
  initial := Begun
  step := step

/-- The device is visited by some walk along the next links from the head. -/
def Listed (state : State) (device : Address) : Prop :=
  ∃ turns, device ∈ listForEach state.memory.links state.devices.sTdevice turns

/-- The low byte of a device's permission word. -/
def permission (state : State) (device : Address) : UInt32 :=
  (state.memory.record device).gIdevPerOperation &&& 0xff

/-- The three views agree with the history and with one another. -/
structure Agree (state : State) : Prop where
  /-- The list holds the devices registered and not unregistered since. -/
  listed : ∀ device, Listed state device ↔ device ∈ state.registered
  /-- The counter counts them. -/
  counted : state.devices.uIdevCount.toNat = state.registered.length
  /-- A prepared device on the list is marked registered. -/
  marked : ∀ device ∈ state.prepared, Listed state device →
    permission state device = devRegistered
  /-- A prepared device off the list is marked unregistered. -/
  unmarked : ∀ device ∈ state.prepared, ¬ Listed state device →
    permission state device = devUnregistered

variable {state next start last : State}

/-- What a call does: a registration prepares its device and links it, and changes no permission
byte but the one that `sys_dev_init` sets; an unregistration changes only the history. -/
inductive Moves (state next : State) : Call → Prop
  /-- A registration. -/
  | register {device devAttr : Address} {type : Int8}
      (record : next.memory.record = (sysDevInit state.memory device devAttr type).1.record)
      (devices : next.devices = state.devices)
      (registered : next.registered = device :: state.registered)
      (prepared : next.prepared = device :: state.prepared) (returned : next.returned = 0) :
      Moves state next (.register device devAttr type)
  /-- An unregistration. -/
  | unregister {device : Address} (inside : device ∈ state.registered)
      (memory : next.memory = state.memory) (devices : next.devices = state.devices)
      (registered : ∀ other ∈ next.registered, other ∈ state.registered)
      (prepared : next.prepared = state.prepared) : Moves state next (.unregister device)

/-- Unregistering stores nothing. -/
theorem sysDevUnregister_memory (memory : DevMemory) (devices : Option DevManage)
    (device : Address) : (sysDevUnregister memory devices device).1 = memory := by
  cases devices with
  | none => rfl
  | some devices =>
    rw [sysDevUnregister]
    split <;> rfl

/-- Registering a device stores into links only and returns zero. -/
theorem sysDevRegister_record (memory : DevMemory) (devices : DevManage) {device : Address}
    (real : device ≠ null) :
    (sysDevRegister memory (some devices) device).1.record = memory.record ∧
      (sysDevRegister memory (some devices) device).2 = 0 := by
  simp only [sysDevRegister, if_neg real, and_self]

/-- Preparing a device marks it unregistered. -/
theorem sysDevInit_permission (memory : DevMemory) (device devAttr : Address) (type : Int8)
    (other : Address) :
    (((sysDevInit memory device devAttr type).1.record other).gIdevPerOperation &&& 0xff) =
      if other = device then devUnregistered
      else (memory.record other).gIdevPerOperation &&& 0xff := by
  by_cases same : other = device
  · subst same
    have cleared : (memory.record other).gIdevPerOperation &&& 0 = 0 := UInt32.and_zero
    simp only [sysDevInit, Function.update_self, cleared, if_pos]
    decide
  · simp only [sysDevInit, Function.update_of_ne same, if_neg same]

/-- Every call is one of the two moves. -/
theorem step_moves {call : Call} (stepped : step state call = some next) :
    Moves state next call := by
  cases call with
  | register device devAttr type =>
    simp only [step, Option.ite_none_right_eq_some] at stepped
    obtain ⟨⟨real, -⟩, stepped⟩ := stepped
    have stored := sysDevRegister_record (sysDevInit state.memory device devAttr type).1
      state.devices real
    cases Option.some.inj stepped
    apply Moves.register
    · exact stored.1
    · rfl
    · simp only [stored.2, if_pos]
    · rfl
    · exact stored.2
  | unregister device =>
    simp only [step, Option.ite_none_right_eq_some] at stepped
    obtain ⟨inside, stepped⟩ := stepped
    cases Option.some.inj stepped
    apply Moves.unregister inside
    · exact sysDevUnregister_memory state.memory _ device
    · rfl
    · intro other later
      split at later
      · exact List.mem_of_mem_erase later
      · exact later
    · rfl

/-- What every call keeps: the registry's record as it began, every prepared device marked
unregistered, and every registered device prepared. -/
structure Unmoved (start state : State) : Prop where
  /-- The counter and the head are as they began. -/
  devices : state.devices = start.devices
  /-- Registered devices are prepared. -/
  known : ∀ device ∈ state.registered, device ∈ state.prepared
  /-- Prepared devices stay marked unregistered. -/
  permissions : ∀ device ∈ state.prepared, permission state device = devUnregistered

/-- A call keeps the counter and the marks. -/
theorem Unmoved.step {call : Call} (unmoved : Unmoved start state)
    (stepped : step state call = some next) : Unmoved start next := by
  cases step_moves stepped with
  | @register device devAttr type record devices registered prepared returned =>
    constructor
    · exact devices.trans unmoved.devices
    · intro other inside
      rw [registered] at inside
      rw [prepared]
      rcases List.mem_cons.mp inside with rfl | earlier
      · exact List.mem_cons_self
      · exact List.mem_cons_of_mem device (unmoved.known other earlier)
    · intro other inside
      have stored := sysDevInit_permission state.memory device devAttr type other
      rw [permission, record, stored]
      split
      · rfl
      · next apart =>
        rw [prepared] at inside
        have earlier := (List.mem_cons.mp inside).resolve_left apart
        exact unmoved.permissions other earlier
  | unregister inside memory devices registered prepared =>
    constructor
    · exact devices.trans unmoved.devices
    · intro other later
      rw [prepared]
      exact unmoved.known other (registered other later)
    · intro other earlier
      rw [prepared] at earlier
      rw [permission, memory]
      exact unmoved.permissions other earlier

/-- Every run from the beginning keeps the counter and the marks. -/
theorem unmoved_run {calls : List Call} (begun : Begun start)
    (ran : machine.run start calls = some last) : Unmoved start last := by
  have begins : Unmoved start start := by
    constructor
    · rfl
    · simp [begun.2.1]
    · simp [begun.2.2]
  exact machine.run_invariant (Unmoved start) (fun _ _ _ unmoved stepped => unmoved.step stepped)
    begins ran

/-- While some device is registered, the views do not agree: it is marked unregistered whether or
not the list holds it. -/
theorem Unmoved.not_agree {device : Address} (unmoved : Unmoved start state)
    (inside : device ∈ state.registered) : ¬ Agree state := by
  intro agree
  have known := unmoved.known device inside
  have marked := agree.marked device known ((agree.listed device).mpr inside)
  rw [unmoved.permissions device known] at marked
  exact absurd marked (by decide)

/-- The views agree after every call of a run that returned zero. -/
def AlwaysAgree (start : State) (calls : List Call) : Prop :=
  ∀ front back after, calls = front ++ back → front ≠ [] → machine.run start front = some after →
    after.returned = 0 → Agree after

/-- **When the views stay in step.** From `system_dev_init`, over any memory, the list, the
counter and the permission bytes agree after every call exactly when no call is made. -/
theorem views_agree_iff {calls : List Call} (begun : machine.initial start)
    (ran : machine.run start calls = some last) : AlwaysAgree start calls ↔ calls = [] := by
  constructor
  · intro agree
    cases calls with
    | nil => rfl
    | cons call calls =>
      obtain ⟨next, stepped, -⟩ := machine.run_cons.mp ran
      have first : machine.run start [call] = some next :=
        machine.run_cons.mpr ⟨next, stepped, rfl⟩
      have unmoved := unmoved_run begun first
      -- nothing is registered yet, so the first call registers
      cases step_moves stepped with
      | register record devices registered prepared returned =>
        have broken := unmoved.not_agree (registered ▸ List.mem_cons_self)
        exact absurd (agree _ _ next rfl (List.cons_ne_nil _ _) first returned) broken
      | unregister inside => exact absurd inside (begun.2.1 ▸ List.not_mem_nil)
  · rintro rfl front back after parts nonempty
    exact absurd (List.append_eq_nil_iff.mp parts.symm).1 nonempty

/-- The registry as `system_dev_init` leaves it in cleared memory, where every list member but the
head's names itself. -/
def cleared : State where
  memory :=
    { links := initListHead (fun node => ⟨node, node⟩) 16
      record := Function.update (fun _ => ⟨0, 0, null, null⟩) 16 ⟨devFirst, devNone, null, 16⟩ }
  devices := ⟨16, 16, 16, 0⟩
  registered := []
  prepared := []
  returned := 0

/-- `cleared` is what `system_dev_init` leaves. -/
theorem cleared_begun : machine.initial cleared :=
  ⟨⟨⟨fun node => ⟨node, node⟩, fun _ => ⟨0, 0, null, null⟩⟩, ⟨null, null, null, 0⟩, 16, rfl⟩,
    rfl, rfl⟩

/-- One registration already parts the views. -/
theorem views_agree_iff_one :
    AlwaysAgree cleared [.register 32 null 0] ↔ [Call.register 32 null 0] = [] := by
  obtain ⟨after, ran⟩ : ∃ after, machine.run cleared [.register 32 null 0] = some after :=
    ⟨_, rfl⟩
  exact views_agree_iff cleared_begun ran

/-- Even where the device's own links made a proper ring: registered, it is on the list, marked
unregistered and not counted; unregistered again, it is still on the list. -/
theorem unregister_leaves_device :
    machine.initial cleared ∧
    ∃ one two, machine.run cleared [.register 32 null 0] = some one ∧
      machine.run cleared [.register 32 null 0, .unregister 32] = some two ∧
      one.returned = 0 ∧ Listed one 32 ∧ permission one 32 = devUnregistered ∧
      one.devices.uIdevCount = 0 ∧ ¬ Agree one ∧
      two.returned = 0 ∧ two.registered = [] ∧ Listed two 32 ∧ ¬ Agree two := by
  refine ⟨cleared_begun, _, _, rfl, rfl, rfl, ⟨1, by decide⟩, by decide, rfl, ?_, rfl, rfl,
    ⟨1, by decide⟩, ?_⟩
  · intro agree
    exact absurd agree.counted (by decide)
  · intro agree
    exact absurd ((agree.listed 32).mp ⟨1, by decide⟩) (by decide)

end Registry

end SysServer
