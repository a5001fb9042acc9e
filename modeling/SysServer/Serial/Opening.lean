import SysServer.Serial.Event
import SysServer.Serial.Termios

/-!
# Starting the serial line

`start_serial` calls the operations that `system_serial_init` has installed: it lets `evop_init`
fill in the settings, opens the port and sets its line. What the operating system answers is a
parameter, and the number that `open` gives was not open before. `open_serial` does not close what
it has opened when a later check fails, and `start_serial` does not look at what `set_serial`
returns.
-/

namespace SysServer.Serial.Opening

open Function

/-- A text as a list of characters. -/
abbrev Text := List Char

/-- `EDEVINIT`. -/
def edevinit : ℤ := -1

/-- `EDEVOPEN`. -/
def edevopen : ℤ := -2

/-- `serial_manage`, without its operations. -/
structure SerialInfo where
  /-- `uCrunning`. -/
  uCrunning : Bool
  /-- `gIhandle`. -/
  gIhandle : ℤ
  /-- `gCsname` — the name of the port. -/
  gCsname : Text
  /-- The settings of the line. -/
  settings : SerialManage

/-- What `start_serial` may change. No step reads what `evop_set` has returned. -/
structure State where
  /-- The table of descriptors: the name under which each open number was opened. -/
  table : ℤ → Option Text
  /-- The serial line. -/
  serial : SerialInfo
  /-- `serial_errno`. -/
  serialErrno : ℤ
  /-- What the last call of `evop_set` has returned. -/
  setReturned : Option ℤ

/-- The numbers that are open. -/
def State.descriptors (state : State) : Set ℤ := { fd | (state.table fd).isSome }

/-- What the operating system answers, over a table of descriptors. -/
structure Answers (table : ℤ → Option Text) where
  /-- `open`: a number that is not open, unless it fails. -/
  opened : Option { fd : ℕ // table fd = none }
  /-- `fcntl`: the value of `errno` when it fails. -/
  fcntl : Option ℤ
  /-- `isatty`. -/
  isatty : Bool
  /-- `tcgetattr`: the attributes, unless it fails. -/
  tcgetattr : Option Termios
  /-- Whether `tcsetattr` succeeds. -/
  tcsetattr : Bool

/-- `smrt_event_op`, the operations that `start_serial` calls; a pointer may be null. -/
structure SmrtEventOp where
  /-- `evop_init`. -/
  evopInit : Option (SerialInfo → SerialInfo)
  /-- `evop_open`. -/
  evopOpen : Option (Text → State → State × ℤ)
  /-- `evop_set`. -/
  evopSet : Option (ℤ → State → State × ℤ)

variable {table : ℤ → Option Text}

/-- `open_serial` — the state after it, and the number it returns. -/
def openSerial (answers : Answers table) (devname : Text) (state : State) : State × ℤ :=
  match answers.opened with
  | none => ({ state with serialErrno := edevopen }, -1)
  | some fd =>
    let opened := { state with table := update state.table fd.val (some devname) }
    match answers.fcntl with
    | some errno => ({ opened with serialErrno := errno }, -1)
    | none => if answers.isatty then (opened, fd.val) else (opened, -1)

/-- `set_serial` — what it does to the line is in what it returns. -/
def setSerial (answers : Answers table) (_fd : ℤ) (state : State) : State × ℤ :=
  let ret := (Serial.setSerial answers.tcgetattr (fun _ => answers.tcsetattr)
    state.serial.settings).2
  ({ state with setReturned := some ret }, ret)

/-- `system_serial_init` — the operations installed, with any that fills in the settings. -/
def systemSerialInit (answers : Answers table) (init : SerialInfo → SerialInfo) : SmrtEventOp where
  evopInit := some init
  evopOpen := some (openSerial answers)
  evopSet := some (setSerial answers)

/-- `start_serial`. -/
def startSerial (op : SmrtEventOp) (state : State) : State × ℤ :=
  let running := { state with serial := { state.serial with uCrunning := true } }
  match op.evopInit, op.evopOpen, op.evopSet with
  | some init, some evopOpen, some evopSet =>
    let initialised := { running with serial := init running.serial }
    let (opened, handle) := evopOpen initialised.serial.gCsname initialised
    let stored := { opened with serial := { opened.serial with gIhandle := handle } }
    if handle < 0 then ({ stored with serialErrno := edevopen }, -1)
    else ((evopSet handle stored).1, 0)
  | _, _, _ => ({ running with serialErrno := edevinit }, -1)

/-- The settings that `start_serial` sets. -/
def State.configured (state : State) (init : SerialInfo → SerialInfo) : SerialManage :=
  (init { state.serial with uCrunning := true }).settings

/-- What a start promises. -/
structure Sound (before : State) (result : State × ℤ) : Prop where
  /-- A start that succeeds has opened the port and set the line, and `gIhandle` is the port. -/
  usable : result.2 = 0 → before.table result.1.serial.gIhandle = none ∧
    result.1.table result.1.serial.gIhandle = some result.1.serial.gCsname ∧
    result.1.setReturned = some 0
  /-- A start that fails leaves the descriptors as they were. -/
  clean : result.2 = -1 → result.1.descriptors = before.descriptors

/-- Nothing fails behind the call of `open`. -/
structure Unhindered (answers : Answers table) (settings : SerialManage) : Prop where
  /-- `fcntl` succeeds. -/
  fcntl : answers.fcntl = none
  /-- The standard input is a terminal. -/
  isatty : answers.isatty = true
  /-- `tcgetattr` succeeds. -/
  tcgetattr : answers.tcgetattr.isSome
  /-- The settings are supported. -/
  supported : Supported settings
  /-- `tcsetattr` succeeds. -/
  tcsetattr : answers.tcsetattr = true

/-- `set_serial` returns zero exactly when neither call fails and the settings are supported. -/
theorem setSerial_eq_zero_iff (tcgetattr : Option Termios) (tcsetattr : Bool)
    (settings : SerialManage) :
    (Serial.setSerial tcgetattr (fun _ => tcsetattr) settings).2 = 0 ↔
      tcgetattr.isSome ∧ Supported settings ∧ tcsetattr = true := by
  cases tcgetattr with
  | none => simp [Serial.setSerial]
  | some options =>
    have accepted := setFrame_isSome_iff (setLine options settings) settings
    rw [← accepted]
    cases framed : setFrame (setLine options settings) settings with
    | none => simp [Serial.setSerial, framed]
    | some stopped => cases tcsetattr <;> simp [Serial.setSerial, framed]

/-- What `open` has returned. -/
def Answers.number (answers : Answers table) : ℤ := answers.opened.elim (-1) fun fd => fd.val

/-- The number returned and the descriptors left are those in the model of the serial threads. -/
theorem openSerial_agrees (state : State) (answers : Answers state.table) (devname : Text) :
    (openSerial answers devname state).2 =
        Serial.openSerial answers.number answers.fcntl.isNone answers.isatty ∧
      ∀ fd, ((openSerial answers devname state).1.table fd).isSome =
        (opened (fun other => (state.table other).map fun _ => .foreign)
          answers.number fd).isSome := by
  cases number : answers.opened with
  | none => simp [openSerial, Serial.openSerial, opened, Answers.number, number]
  | some first =>
    have nonnegative : ¬ (first.val : ℤ) < 0 := by omega
    have table : ∀ fd, (update state.table first.val (some devname) fd).isSome =
        (opened (fun other => (state.table other).map fun _ => .foreign) first.val fd).isSome := by
      intro fd
      rw [opened, if_neg nonnegative]
      by_cases same : fd = first.val
      · simp [same]
      · simp [same]
    cases failed : answers.fcntl with
    | some errno =>
      simp [openSerial, Serial.openSerial, Answers.number, number, failed, table]
    | none => cases terminal : answers.isatty <;>
        simp [openSerial, Serial.openSerial, Answers.number, number, failed, terminal, table]

/-- A number opened is one more descriptor. -/
theorem descriptors_open {before after : State} {fd : ℤ} {devname : Text}
    (closed : before.table fd = none)
    (stored : after.table = update before.table fd (some devname)) :
    after.descriptors ≠ before.descriptors := by
  intro same
  have inside : fd ∈ after.descriptors := by
    simp [State.descriptors, stored]
  rw [same] at inside
  simp [State.descriptors, closed] at inside

section Outcomes

variable {state : State} {answers : Answers state.table} {init : SerialInfo → SerialInfo}
  {fd : { fd : ℕ // state.table fd = none }}

/-- When `open` fails, the start fails with the descriptors as they were. -/
theorem startSerial_refused (refused : answers.opened = none) :
    (startSerial (systemSerialInit answers init) state).2 = -1 ∧
      (startSerial (systemSerialInit answers init) state).1.table = state.table := by
  simp [startSerial, systemSerialInit, openSerial, refused]

/-- When a check behind `open` fails, the start fails with the port open. -/
theorem startSerial_leaks (opened : answers.opened = some fd)
    (failed : answers.fcntl.isSome ∨ answers.isatty = false) :
    (startSerial (systemSerialInit answers init) state).2 = -1 ∧
      (startSerial (systemSerialInit answers init) state).1.table = update state.table fd.val
        (some (init { state.serial with uCrunning := true }).gCsname) := by
  cases refused : answers.fcntl with
  | some errno => simp [startSerial, systemSerialInit, openSerial, opened, refused]
  | none =>
    have terminal : answers.isatty = false := by simpa [refused] using failed
    simp [startSerial, systemSerialInit, openSerial, opened, refused, terminal]

/-- When both checks succeed, the start succeeds with the port open, whatever `set_serial` has
returned. -/
theorem startSerial_opens (opened : answers.opened = some fd) (checked : answers.fcntl = none)
    (terminal : answers.isatty = true) :
    startSerial (systemSerialInit answers init) state =
      ({ state with
          table := update state.table fd.val
            (some (init { state.serial with uCrunning := true }).gCsname)
          serial := { init { state.serial with uCrunning := true } with gIhandle := fd.val }
          setReturned := some (Serial.setSerial answers.tcgetattr
            (fun _ => answers.tcsetattr) (state.configured init)).2 }, 0) := by
  have nonnegative : ¬ (fd.val : ℤ) < 0 := by omega
  simp [startSerial, systemSerialInit, openSerial, setSerial, opened, checked, terminal,
    nonnegative, State.configured]

/-- A start for which `open` fails is sound. -/
theorem startSerial_sound_refused (refused : answers.opened = none) :
    Sound state (startSerial (systemSerialInit answers init) state) := by
  have failed : (startSerial (systemSerialInit answers init) state).2 = -1 ∧
      (startSerial (systemSerialInit answers init) state).1.table = state.table :=
    startSerial_refused refused
  constructor
  · intro succeeded
    rw [failed.1] at succeeded
    cases succeeded
  · intro _
    rw [State.descriptors, failed.2]
    rfl

/-- A start that fails behind `open` is not sound. -/
theorem startSerial_unsound_leaks (opened : answers.opened = some fd)
    (failed : answers.fcntl.isSome ∨ answers.isatty = false) :
    ¬ Sound state (startSerial (systemSerialInit answers init) state) := by
  intro sound
  obtain ⟨returned, leaked⟩ := @startSerial_leaks state answers init fd opened failed
  exact descriptors_open fd.property leaked (sound.clean returned)

/-- A start that succeeds is sound exactly when `set_serial` has succeeded. -/
theorem startSerial_sound_opens (opened : answers.opened = some fd)
    (checked : answers.fcntl = none) (terminal : answers.isatty = true) :
    Sound state (startSerial (systemSerialInit answers init) state) ↔
      Unhindered answers (state.configured init) := by
  have returned := setSerial_eq_zero_iff answers.tcgetattr answers.tcsetattr
    (state.configured init)
  rw [startSerial_opens opened checked terminal]
  constructor
  · intro sound
    obtain ⟨got, supported, set⟩ := returned.mp (Option.some.inj (sound.usable rfl).2.2)
    exact ⟨checked, terminal, got, supported, set⟩
  · intro unhindered
    have zero := returned.mpr ⟨unhindered.tcgetattr, unhindered.supported, unhindered.tcsetattr⟩
    constructor
    · intro _
      exact ⟨fd.property, update_self .., congrArg some zero⟩
    · intro impossible
      cases impossible

end Outcomes

/-- **When a start is sound.** For every state, all settings installed and all answers of the
operating system, a start that succeeds leaves a usable port and one that fails leaves nothing
behind if and only if `open` fails or nothing fails behind it. -/
theorem startSerial_sound_iff (state : State) (answers : Answers state.table)
    (init : SerialInfo → SerialInfo) :
    Sound state (startSerial (systemSerialInit answers init) state) ↔
      (answers.opened.isSome → Unhindered answers (state.configured init)) := by
  cases opened : answers.opened with
  | none =>
    simp only [Option.isSome_none, Bool.false_eq_true, false_implies, iff_true]
    exact startSerial_sound_refused opened
  | some fd =>
    simp only [Option.isSome_some, forall_const]
    by_cases failed : answers.fcntl.isSome ∨ answers.isatty = false
    · have unsound : ¬ Sound state (startSerial (systemSerialInit answers init) state) :=
        startSerial_unsound_leaks opened failed
      have hindered : ¬ Unhindered answers (state.configured init) := by
        intro unhindered
        simp [unhindered.fcntl, unhindered.isatty] at failed
      exact iff_of_false unsound hindered
    · have checked : answers.fcntl = none ∧ answers.isatty = true := by simpa using failed
      exact startSerial_sound_opens opened checked.1 checked.2

/-- The settings of the `pt1000` line, with no descriptor open but the three standard ones. -/
def fresh : State where
  table fd := if 0 ≤ fd ∧ fd < 3 then some ['t', 't', 'y'] else none
  serial := ⟨false, 0, [], ⟨0, 0, 0, 0, '0'⟩⟩
  serialErrno := 0
  setReturned := none

/-- `pt1000_serial_info_init`. -/
def pt1000SerialInfoInit (serial : SerialInfo) : SerialInfo :=
  { serial with gCsname := "/dev/ttymxc4".toList, settings := ⟨9600, 8, 1, 0, 'N'⟩ }

/-- The device opens, and the standard input is no terminal. -/
def noTerminal : Answers fresh.table :=
  ⟨some ⟨3, rfl⟩, none, false, some ⟨0, 0, 0, 0, 0⟩, true⟩

/-- The device opens, the standard input is a terminal, and `tcsetattr` fails. -/
def noAttributes : Answers fresh.table :=
  ⟨some ⟨3, rfl⟩, none, true, some ⟨0, 0, 0, 0, 0⟩, false⟩

/-- Without a terminal at the standard input the port stays open behind a start that fails; with
`tcsetattr` failing, a start succeeds. -/
theorem startSerial_unsound :
    ¬ Sound fresh (startSerial (systemSerialInit noTerminal pt1000SerialInfoInit) fresh) ∧
      ¬ Sound fresh (startSerial (systemSerialInit noAttributes pt1000SerialInfoInit) fresh) := by
  constructor
  · intro sound
    have inside : (3 : ℤ) ∈ fresh.descriptors := by
      rw [← sound.clean rfl]
      rfl
    simp [State.descriptors, fresh] at inside
  · intro sound
    exact absurd (sound.usable rfl).2.2 (by decide)

end SysServer.Serial.Opening
