import SysServer.Library.Flags

/-!
# The settings of the serial line

`set_serial` writes five settings into the flag words of a `termios`, one after another over
whatever the words held. Each step is followed through the bits it may touch, so that the settings
left at the end are known for every old word. The step for software flow control sets the bits of
the input word in the control word, where one of them is part of the speed.
-/

namespace SysServer.Serial

open Library

/-- `tcflag_t`. -/
abbrev Flags := BitVec 32

/-- `CBAUD`, which includes `CBAUDEX` — the code of the speed. -/
def cbaud : Flags := 0o10017

/-- `CBAUDEX`. -/
def cbaudex : Flags := 0o10000

/-- `CSIZE`. -/
def csize : Flags := 0o60

/-- `CS5`. -/
def cs5 : Flags := 0

/-- `CS6`. -/
def cs6 : Flags := 0o20

/-- `CS7`. -/
def cs7 : Flags := 0o40

/-- `CS8`. -/
def cs8 : Flags := 0o60

/-- `CSTOPB`. -/
def cstopb : Flags := 0o100

/-- `CREAD`. -/
def cread : Flags := 0o200

/-- `PARENB`. -/
def parenb : Flags := 0o400

/-- `PARODD`. -/
def parodd : Flags := 0o1000

/-- `CLOCAL`. -/
def clocal : Flags := 0o4000

/-- `CRTSCTS`. -/
def crtscts : Flags := 0o20000000000

/-- `INPCK`. -/
def inpck : Flags := 0o20

/-- `IXON`. -/
def ixon : Flags := 0o2000

/-- `IXANY`. -/
def ixany : Flags := 0o4000

/-- `IXOFF`. -/
def ixoff : Flags := 0o10000

/-- `OPOST`. -/
def opost : Flags := 0o1

/-- `struct termios`, the members that `set_serial` reads or stores. -/
structure Termios where
  /-- Input modes. -/
  cIflag : Flags
  /-- Output modes. -/
  cOflag : Flags
  /-- Control modes. -/
  cCflag : Flags
  /-- `c_cc[VTIME]`. -/
  vtime : UInt8
  /-- `c_cc[VMIN]`. -/
  vmin : UInt8
  deriving DecidableEq

/-- `serial_manage`, the settings of the line. -/
structure SerialManage where
  /-- Speed. -/
  gIspeed : ℤ
  /-- Bits of a character. -/
  gIbits : ℤ
  /-- Stop bits. -/
  gIstop : ℤ
  /-- Flow control. -/
  gIflowctrl : ℤ
  /-- Parity. -/
  gCevent : Char

/-- `name_arr` and `speed_arr` — the speeds that can be set, with their codes. -/
def speedArr : List (ℤ × Flags) :=
  [(38400, 0o17), (115200, 0o10002), (19200, 0o16), (9600, 0o15), (4800, 0o14), (2400, 0o13),
    (1200, 0o11), (300, 0o7),
    (38400, 0o17), (115200, 0o10002), (19200, 0o16), (9600, 0o15), (4800, 0o14), (2400, 0o13),
    (1200, 0o11), (300, 0o7)]

/-- The codes of the speeds the kernel knows. -/
def linuxSpeeds : List (Flags × ℤ) :=
  [(0, 0), (0o1, 50), (0o2, 75), (0o3, 110), (0o4, 134), (0o5, 150), (0o6, 200), (0o7, 300),
    (0o10, 600), (0o11, 1200), (0o12, 1800), (0o13, 2400), (0o14, 4800), (0o15, 9600),
    (0o16, 19200), (0o17, 38400), (0o10001, 57600), (0o10002, 115200), (0o10003, 230400),
    (0o10004, 460800), (0o10005, 500000), (0o10006, 576000), (0o10007, 921600),
    (0o10010, 1000000), (0o10011, 1152000), (0o10012, 1500000), (0o10013, 2000000),
    (0o10014, 2500000), (0o10015, 3000000), (0o10016, 3500000), (0o10017, 4000000)]

/-- `cfsetispeed` and `cfsetospeed` — replace the code of the speed. -/
def cfsetspeed (options : Termios) (code : Flags) : Termios :=
  { options with cCflag := options.cCflag &&& ~~~cbaud ||| code }

/-- The loop over the speeds: every entry of the asked speed is set. -/
def setSpeed (options : Termios) (serial : SerialManage) : List (ℤ × Flags) → Termios
  | [] => options
  | (name, code) :: speeds =>
    if serial.gIspeed = name then
      setSpeed (cfsetspeed (cfsetspeed options code) code) serial speeds
    else setSpeed options serial speeds

/-- The lines that make the line local and readable. -/
def setReceiver (options : Termios) : Termios :=
  { options with cCflag := options.cCflag ||| clocal ||| cread }

/-- The switch over `gIflowctrl`, which has no default. -/
def setFlow (options : Termios) (serial : SerialManage) : Termios :=
  if serial.gIflowctrl = 0 then { options with cCflag := options.cCflag &&& ~~~crtscts }
  else if serial.gIflowctrl = 1 then { options with cCflag := options.cCflag ||| crtscts }
  else if serial.gIflowctrl = 2 then
    { options with cCflag := options.cCflag ||| (ixon ||| ixoff ||| ixany) }
  else options

/-- The code of a character size. -/
def sizeCode (bits : ℤ) : Option Flags :=
  if bits = 5 then some cs5
  else if bits = 6 then some cs6
  else if bits = 7 then some cs7
  else if bits = 8 then some cs8
  else none

/-- The switch over `gIbits`. -/
def setBits (options : Termios) (serial : SerialManage) : Option Termios :=
  (sizeCode serial.gIbits).map fun code =>
    { options with cCflag := options.cCflag &&& ~~~csize ||| code }

/-- The switch over `gCevent`. -/
def setParity (options : Termios) (serial : SerialManage) : Option Termios :=
  if serial.gCevent = 'n' ∨ serial.gCevent = 'N' then
    some { options with
      cCflag := options.cCflag &&& ~~~parenb
      cIflag := options.cIflag &&& ~~~inpck }
  else if serial.gCevent = 'o' ∨ serial.gCevent = 'O' then
    some { options with
      cCflag := options.cCflag ||| (parodd ||| parenb)
      cIflag := options.cIflag ||| inpck }
  else if serial.gCevent = 'e' ∨ serial.gCevent = 'E' then
    some { options with
      cCflag := (options.cCflag ||| parenb) &&& ~~~parodd
      cIflag := options.cIflag ||| inpck }
  else if serial.gCevent = 's' ∨ serial.gCevent = 'S' then
    some { options with cCflag := options.cCflag &&& ~~~parenb &&& ~~~cstopb }
  else none

/-- The switch over `gIstop`. -/
def setStop (options : Termios) (serial : SerialManage) : Option Termios :=
  if serial.gIstop = 1 then some { options with cCflag := options.cCflag &&& ~~~cstopb }
  else if serial.gIstop = 2 then some { options with cCflag := options.cCflag ||| cstopb }
  else none

/-- The output mode and the two characters. -/
def setRaw (options : Termios) : Termios :=
  { options with cOflag := options.cOflag &&& ~~~opost, vtime := 1, vmin := 1 }

/-- The steps that cannot refuse, in order: speed, receiver, flow control. -/
def setLine (options : Termios) (serial : SerialManage) : Termios :=
  setFlow (setReceiver (setSpeed options serial speedArr)) serial

/-- The three switches that may refuse, in order. -/
def setFrame (options : Termios) (serial : SerialManage) : Option Termios :=
  ((setBits options serial).bind (setParity · serial)).bind (setStop · serial)

/-- `set_serial` — what `tcgetattr` gave is changed and handed to `tcsetattr`; the second part is
the value returned. -/
def setSerial (tcgetattr : Option Termios) (tcsetattr : Termios → Bool) (serial : SerialManage) :
    Option Termios × ℤ :=
  match tcgetattr with
  | none => (none, -1)
  | some options =>
    match setFrame (setLine options serial) serial with
    | none => (none, -1)
    | some options => (some (setRaw options), if tcsetattr (setRaw options) then 0 else -1)

/-- What the line does about parity. -/
inductive Parity where
  /-- No parity bit. -/
  | off
  /-- Odd parity. -/
  | odd
  /-- Even parity. -/
  | even
  deriving DecidableEq

/-- The parity that a control word says. -/
def parityOf (cCflag : Flags) : Parity :=
  if IsSet parenb cCflag then if IsSet parodd cCflag then .odd else .even else .off

/-- The parity that a letter asks for. -/
def parityAsked (event : Char) : Option Parity :=
  if event ∈ ['n', 'N', 's', 'S'] then some .off
  else if event ∈ ['o', 'O'] then some .odd
  else if event ∈ ['e', 'E'] then some .even
  else none

/-- The bits of a character that a control word says. -/
def characterSize (cCflag : Flags) : ℤ :=
  if cCflag &&& csize = cs5 then 5
  else if cCflag &&& csize = cs6 then 6
  else if cCflag &&& csize = cs7 then 7
  else 8

/-- The speed that a control word says. -/
def speedOf (cCflag : Flags) : Option ℤ := linuxSpeeds.lookup (cCflag &&& cbaud)

variable {options sized shaped stopped : Termios} {serial : SerialManage}

/-- Setting the speed touches its code only. -/
theorem setSpeed_same (options : Termios) (serial : SerialManage) (speeds : List (ℤ × Flags))
    (codes : ∀ speed ∈ speeds, speed.2 &&& ~~~cbaud = 0#32) :
    SameOutside cbaud options.cCflag (setSpeed options serial speeds).cCflag ∧
      (setSpeed options serial speeds).cIflag = options.cIflag := by
  induction speeds generalizing options with
  | nil => exact ⟨SameOutside.refl _ _, rfl⟩
  | cons speed speeds ih =>
    obtain ⟨name, code⟩ := speed
    have later : ∀ speed ∈ speeds, speed.2 &&& ~~~cbaud = 0#32 := fun speed inside =>
      codes speed (List.mem_cons_of_mem _ inside)
    rw [setSpeed]
    split
    · have inside : code &&& ~~~cbaud = 0#32 := codes (name, code) List.mem_cons_self
      have once : ∀ before, SameOutside cbaud before.cCflag (cfsetspeed before code).cCflag :=
        fun before => (SameOutside.clear _ (by decide)).trans (SameOutside.set _ inside)
      have rest := ih (cfsetspeed (cfsetspeed options code) code) later
      exact ⟨((once options).trans (once _)).trans rest.1, rest.2⟩
    · exact ih options later

/-- Where an entry was set, the code of the speed is the entry's. -/
theorem setSpeed_field {speed : ℤ × Flags} (asked : serial.gIspeed = speed.1)
    (inside : speed.2 &&& cbaud = speed.2) (options : Termios) (speeds : List (ℤ × Flags))
    (one : ∀ other ∈ speeds, other.1 = speed.1 → other.2 = speed.2)
    (set : speed ∈ speeds ∨ options.cCflag &&& cbaud = speed.2) :
    (setSpeed options serial speeds).cCflag &&& cbaud = speed.2 := by
  induction speeds generalizing options with
  | nil => exact set.resolve_left List.not_mem_nil
  | cons first speeds ih =>
    obtain ⟨name, code⟩ := first
    have later : ∀ other ∈ speeds, other.1 = speed.1 → other.2 = speed.2 := fun other among =>
      one other (List.mem_cons_of_mem _ among)
    rw [setSpeed]
    split
    next same =>
      have code_eq : code = speed.2 := one (name, code) List.mem_cons_self (same.symm.trans asked)
      apply ih _ later
      right
      rw [code_eq, cfsetspeed, BitVec.and_or_distrib_right, field_clear _ (by decide), inside,
        BitVec.zero_or]
    next other =>
      apply ih _ later
      rcases set with among | already
      · rcases List.mem_cons.mp among with rfl | rest
        · exact absurd asked other
        · exact .inl rest
      · exact .inr already

/-- A speed that is not in the list changes nothing. -/
theorem setSpeed_unknown (options : Termios) (speeds : List (ℤ × Flags))
    (unknown : serial.gIspeed ∉ speeds.map Prod.fst) :
    setSpeed options serial speeds = options := by
  induction speeds with
  | nil => rfl
  | cons speed speeds ih =>
    simp only [List.map_cons, List.mem_cons, not_or] at unknown
    rw [setSpeed, if_neg unknown.1, ih unknown.2]

/-- The bits that the switch over the flow control may touch. -/
def flowBits : Flags := crtscts ||| (ixon ||| ixoff ||| ixany)

/-- The flow control touches the control word only, within its bits. -/
theorem setFlow_same (options : Termios) (serial : SerialManage) :
    SameOutside flowBits options.cCflag (setFlow options serial).cCflag ∧
      (setFlow options serial).cIflag = options.cIflag := by
  rw [setFlow]
  split
  · exact ⟨SameOutside.clear _ (by decide), rfl⟩
  · split
    · exact ⟨SameOutside.set _ (by decide), rfl⟩
    · split
      · exact ⟨SameOutside.set _ (by decide), rfl⟩
      · exact ⟨SameOutside.refl _ _, rfl⟩

/-- Hardware flow control is set and cleared as asked, and left as it was for any other value. -/
theorem setFlow_crtscts (options : Termios) (serial : SerialManage) :
    IsSet crtscts (setFlow options serial).cCflag ↔
      serial.gIflowctrl = 1 ∨ serial.gIflowctrl ≠ 0 ∧ IsSet crtscts options.cCflag := by
  have cleared : ¬ IsSet crtscts (options.cCflag &&& ~~~crtscts) :=
    not_isSet_clear _ (by decide) (by decide)
  have set : IsSet crtscts (options.cCflag ||| crtscts) := isSet_set _ (by decide)
  have same : SameOutside (ixon ||| ixoff ||| ixany) options.cCflag
      (options.cCflag ||| (ixon ||| ixoff ||| ixany)) := SameOutside.set _ (by decide)
  have kept := same.isSet_iff (show crtscts &&& (ixon ||| ixoff ||| ixany) = 0#32 by decide)
  rw [setFlow]
  by_cases off : serial.gIflowctrl = 0
  · simp [off, cleared]
  · by_cases on : serial.gIflowctrl = 1
    · simp [on, set]
    · by_cases software : serial.gIflowctrl = 2
      · simp [software, kept]
      · simp [off, on, software]

/-- Software flow control adds `CBAUDEX` to the code of the speed. -/
theorem setFlow_cbaud (options : Termios) (serial : SerialManage) :
    (setFlow options serial).cCflag &&& cbaud =
      if serial.gIflowctrl = 2 then options.cCflag &&& cbaud ||| cbaudex
      else options.cCflag &&& cbaud := by
  have cleared : SameOutside crtscts options.cCflag (options.cCflag &&& ~~~crtscts) :=
    SameOutside.clear _ (by decide)
  have set : SameOutside crtscts options.cCflag (options.cCflag ||| crtscts) :=
    SameOutside.set _ (by decide)
  have apart : cbaud &&& crtscts = 0#32 := by decide
  have added : (ixon ||| ixoff ||| ixany) &&& cbaud = cbaudex := by decide
  rw [setFlow]
  by_cases off : serial.gIflowctrl = 0
  · simp only [off, if_pos]
    exact cleared.field apart
  · by_cases on : serial.gIflowctrl = 1
    · simp only [on, if_pos]
      exact set.field apart
    · by_cases software : serial.gIflowctrl = 2
      · simp only [software, if_pos]
        exact BitVec.and_or_distrib_right.trans (by rw [added])
      · simp only [if_neg off, if_neg on, if_neg software]

/-- The sizes and codes that belong together. -/
theorem sizeCode_cases {bits : ℤ} {code : Flags} (asked : sizeCode bits = some code) :
    (bits, code) ∈ [(5, cs5), (6, cs6), (7, cs7), (8, cs8)] := by
  rw [sizeCode] at asked
  split at asked
  · simp_all
  · split at asked
    · simp_all
    · split at asked
      · simp_all
      · split at asked
        · simp_all
        · cases asked

/-- The character size touches its field only, and leaves there what was asked for. -/
theorem setBits_eq (sized_eq : setBits options serial = some sized) :
    SameOutside csize options.cCflag sized.cCflag ∧ sized.cIflag = options.cIflag ∧
      characterSize sized.cCflag = serial.gIbits := by
  rw [setBits, Option.map_eq_some_iff] at sized_eq
  obtain ⟨code, asked, rfl⟩ := sized_eq
  have codes : ∀ pair ∈ [((5 : ℤ), cs5), (6, cs6), (7, cs7), (8, cs8)],
      pair.2 &&& ~~~csize = 0#32 ∧ characterSize pair.2 = pair.1 := by
    decide
  obtain ⟨covered, size⟩ : code &&& ~~~csize = 0#32 ∧ characterSize code = serial.gIbits :=
    codes _ (sizeCode_cases asked)
  have field : (options.cCflag &&& ~~~csize ||| code) &&& csize = code &&& csize := by
    rw [BitVec.and_or_distrib_right, field_clear _ (by decide), BitVec.zero_or]
  refine ⟨(SameOutside.clear _ (by decide)).trans (SameOutside.set _ covered), rfl, ?_⟩
  rw [← size, characterSize, characterSize, field]

/-- A control word changed elsewhere says the same parity. -/
theorem parityOf_same {footprint before after : Flags} (same : SameOutside footprint before after)
    (apart : parenb &&& footprint = 0#32 ∧ parodd &&& footprint = 0#32) :
    parityOf after = parityOf before := by
  simp only [parityOf, same.isSet_iff apart.1, same.isSet_iff apart.2]

/-- Without the enabling bit there is no parity. -/
theorem parityOf_clear (word : Flags) : parityOf (word &&& ~~~parenb) = .off := by
  have cleared : ¬ IsSet parenb (word &&& ~~~parenb) := not_isSet_clear _ (by decide) (by decide)
  rw [parityOf, if_neg cleared]

/-- Both bits set are odd parity. -/
theorem parityOf_odd (word : Flags) : parityOf (word ||| (parodd ||| parenb)) = .odd := by
  have enabled : IsSet parenb (word ||| (parodd ||| parenb)) := isSet_set _ (by decide)
  have odd : IsSet parodd (word ||| (parodd ||| parenb)) := isSet_set _ (by decide)
  rw [parityOf, if_pos enabled, if_pos odd]

/-- The enabling bit alone is even parity. -/
theorem parityOf_even (word : Flags) : parityOf ((word ||| parenb) &&& ~~~parodd) = .even := by
  have same : SameOutside parodd (word ||| parenb) ((word ||| parenb) &&& ~~~parodd) :=
    SameOutside.clear _ (by decide)
  have enabled : IsSet parenb ((word ||| parenb) &&& ~~~parodd) :=
    (same.isSet_iff (by decide)).mpr (isSet_set _ (by decide))
  have even : ¬ IsSet parodd ((word ||| parenb) &&& ~~~parodd) :=
    not_isSet_clear _ (by decide) (by decide)
  rw [parityOf, if_pos enabled, if_neg even]

/-- A letter that is one of two asks for what both ask for. -/
theorem parityAsked_either {event lower upper : Char} {parity : Parity}
    (letter : event = lower ∨ event = upper)
    (asked : parityAsked lower = some parity ∧ parityAsked upper = some parity) :
    parityAsked event = some parity := by
  rcases letter with same | same
  · rw [same]
    exact asked.1
  · rw [same]
    exact asked.2

/-- The bits that the switch over the parity may touch. -/
def parityBits : Flags := parenb ||| parodd ||| cstopb

/-- The parity touches its two bits and the stop bits in the control word and one bit of the input
word, and says what was asked for. -/
theorem setParity_eq (shaped_eq : setParity options serial = some shaped) :
    SameOutside parityBits options.cCflag shaped.cCflag ∧
      SameOutside inpck options.cIflag shaped.cIflag ∧
      parityAsked serial.gCevent = some (parityOf shaped.cCflag) := by
  rw [setParity] at shaped_eq
  split at shaped_eq
  next letter =>
    cases shaped_eq
    refine ⟨SameOutside.clear _ (by decide), SameOutside.clear _ (by decide), ?_⟩
    rw [parityOf_clear]
    exact parityAsked_either letter (by decide)
  next =>
    split at shaped_eq
    next letter =>
      cases shaped_eq
      refine ⟨SameOutside.set _ (by decide), SameOutside.set _ (by decide), ?_⟩
      rw [parityOf_odd]
      exact parityAsked_either letter (by decide)
    next =>
      split at shaped_eq
      next letter =>
        cases shaped_eq
        have enabled : SameOutside parityBits options.cCflag (options.cCflag ||| parenb) :=
          SameOutside.set _ (by decide)
        refine ⟨enabled.trans (SameOutside.clear _ (by decide)), SameOutside.set _ (by decide), ?_⟩
        rw [parityOf_even]
        exact parityAsked_either letter (by decide)
      next =>
        split at shaped_eq
        next letter =>
          cases shaped_eq
          have disabled : SameOutside parityBits options.cCflag (options.cCflag &&& ~~~parenb) :=
            SameOutside.clear _ (by decide)
          have stop : SameOutside cstopb (options.cCflag &&& ~~~parenb)
              (options.cCflag &&& ~~~parenb &&& ~~~cstopb) := SameOutside.clear _ (by decide)
          refine ⟨disabled.trans (stop.widen (by decide)), SameOutside.refl _ _, ?_⟩
          rw [parityOf_same stop (by decide), parityOf_clear]
          exact parityAsked_either letter (by decide)
        next => cases shaped_eq

/-- The stop bits touch their bit only, and leave what was asked for. -/
theorem setStop_eq (stopped_eq : setStop options serial = some stopped) :
    SameOutside cstopb options.cCflag stopped.cCflag ∧ stopped.cIflag = options.cIflag ∧
      (IsSet cstopb stopped.cCflag ↔ serial.gIstop = 2) := by
  rw [setStop] at stopped_eq
  split at stopped_eq
  next one =>
    cases stopped_eq
    have cleared : ¬ IsSet cstopb (options.cCflag &&& ~~~cstopb) :=
      not_isSet_clear _ (by decide) (by decide)
    exact ⟨SameOutside.clear _ (by decide), rfl, by simp [cleared, one]⟩
  next =>
    split at stopped_eq
    next two =>
      cases stopped_eq
      have set : IsSet cstopb (options.cCflag ||| cstopb) := isSet_set _ (by decide)
      exact ⟨SameOutside.set _ (by decide), rfl, by simp [set, two]⟩
    next => cases stopped_eq

/-- The settings that no switch refuses. -/
structure Supported (serial : SerialManage) : Prop where
  /-- A character size. -/
  bits : serial.gIbits ∈ [5, 6, 7, 8]
  /-- A letter of parity. -/
  parity : (parityAsked serial.gCevent).isSome
  /-- A number of stop bits. -/
  stop : serial.gIstop ∈ [1, 2]

/-- What the three switches leave: they touch neither the speed nor the flow control. -/
theorem setFrame_eq (stopped_eq : setFrame options serial = some stopped) :
    SameOutside (csize ||| parityBits) options.cCflag stopped.cCflag ∧
      SameOutside inpck options.cIflag stopped.cIflag ∧
      characterSize stopped.cCflag = serial.gIbits ∧
      parityAsked serial.gCevent = some (parityOf stopped.cCflag) ∧
      (IsSet cstopb stopped.cCflag ↔ serial.gIstop = 2) := by
  rw [setFrame, Option.bind_eq_some_iff] at stopped_eq
  obtain ⟨shaped, shaped_eq, stopped_eq⟩ := stopped_eq
  obtain ⟨sized, sized_eq, shaped_eq⟩ := Option.bind_eq_some_iff.mp shaped_eq
  obtain ⟨sameSize, inputSize, size⟩ := setBits_eq sized_eq
  obtain ⟨sameShape, inputShape, parity⟩ := setParity_eq shaped_eq
  obtain ⟨sameStop, inputStop, stop⟩ := setStop_eq stopped_eq
  have sameLater : SameOutside parityBits sized.cCflag stopped.cCflag :=
    sameShape.trans (sameStop.widen (by decide))
  refine ⟨?_, ?_, ?_, ?_, stop⟩
  · exact (sameSize.widen (by decide)).trans (sameLater.widen (by decide))
  · rw [inputStop, ← inputSize]
    exact inputShape
  · rw [← size, characterSize, characterSize, sameLater.field (by decide)]
  · rw [parity, parityOf_same sameStop (by decide)]

/-- The switch over the character size accepts the four sizes. -/
theorem setBits_isSome_iff (options : Termios) (serial : SerialManage) :
    (setBits options serial).isSome ↔ serial.gIbits ∈ [5, 6, 7, 8] := by
  rw [setBits, Option.isSome_map]
  constructor
  · intro accepted
    obtain ⟨code, asked⟩ := Option.isSome_iff_exists.mp accepted
    have pair := sizeCode_cases asked
    simp only [List.mem_cons, Prod.mk.injEq, List.not_mem_nil, or_false] at pair ⊢
    omega
  · intro size
    simp only [List.mem_cons, List.not_mem_nil, or_false] at size
    rcases size with size | size | size | size <;> rw [size] <;> decide

/-- The switch over the parity accepts the letters that ask for one. -/
theorem setParity_isSome_iff (options : Termios) (serial : SerialManage) :
    (setParity options serial).isSome ↔ (parityAsked serial.gCevent).isSome := by
  constructor
  · intro accepted
    obtain ⟨shaped, shaped_eq⟩ := Option.isSome_iff_exists.mp accepted
    exact Option.isSome_iff_exists.mpr ⟨_, (setParity_eq shaped_eq).2.2⟩
  · intro asked
    have letter : serial.gCevent ∈ ['n', 'N', 's', 'S'] ∨ serial.gCevent ∈ ['o', 'O'] ∨
        serial.gCevent ∈ ['e', 'E'] := by
      by_contra others
      obtain ⟨notOff, notOdd, notEven⟩ := by simpa only [not_or] using others
      rw [parityAsked, if_neg notOff, if_neg notOdd, if_neg notEven] at asked
      cases asked
    simp only [List.mem_cons, List.not_mem_nil, or_false] at letter
    rcases letter with (letter | letter | letter | letter) | (letter | letter) | letter | letter
    all_goals simp [setParity, letter]

/-- The switch over the stop bits accepts one and two. -/
theorem setStop_isSome_iff (options : Termios) (serial : SerialManage) :
    (setStop options serial).isSome ↔ serial.gIstop ∈ [1, 2] := by
  rw [setStop]
  by_cases one : serial.gIstop = 1
  · simp [one]
  · by_cases two : serial.gIstop = 2
    · simp [two]
    · simp [one, two]

/-- The switches accept exactly the supported settings. -/
theorem setFrame_isSome_iff (options : Termios) (serial : SerialManage) :
    (setFrame options serial).isSome ↔ Supported serial := by
  constructor
  · intro accepted
    obtain ⟨stopped, stopped_eq⟩ := Option.isSome_iff_exists.mp accepted
    obtain ⟨shaped, shaped_eq, stopped_eq⟩ := Option.bind_eq_some_iff.mp stopped_eq
    obtain ⟨sized, sized_eq, shaped_eq⟩ := Option.bind_eq_some_iff.mp shaped_eq
    constructor
    · exact (setBits_isSome_iff options serial).mp (Option.isSome_of_eq_some sized_eq)
    · exact (setParity_isSome_iff sized serial).mp (Option.isSome_of_eq_some shaped_eq)
    · exact (setStop_isSome_iff shaped serial).mp (Option.isSome_of_eq_some stopped_eq)
  · intro supported
    obtain ⟨sized, sized_eq⟩ :=
      Option.isSome_iff_exists.mp ((setBits_isSome_iff options serial).mpr supported.bits)
    obtain ⟨shaped, shaped_eq⟩ :=
      Option.isSome_iff_exists.mp ((setParity_isSome_iff sized serial).mpr supported.parity)
    rw [setFrame, sized_eq, Option.bind_some, shaped_eq, Option.bind_some]
    exact (setStop_isSome_iff shaped serial).mpr supported.stop

/-- The settings of the line are those asked for. Software flow control is on when both its bits
are set, and off when neither is. -/
structure Configured (serial : SerialManage) (options : Termios) : Prop where
  /-- Speed, of input and output. -/
  speed : speedOf options.cCflag = some serial.gIspeed
  /-- Bits of a character. -/
  bits : characterSize options.cCflag = serial.gIbits
  /-- Parity. -/
  parity : parityAsked serial.gCevent = some (parityOf options.cCflag)
  /-- Stop bits. -/
  stop : IsSet cstopb options.cCflag ↔ serial.gIstop = 2
  /-- Hardware flow control. -/
  hardware : IsSet crtscts options.cCflag ↔ serial.gIflowctrl = 1
  /-- Software flow control, what is sent. -/
  output : IsSet ixon options.cIflag ↔ serial.gIflowctrl = 2
  /-- Software flow control, what is received. -/
  input : IsSet ixoff options.cIflag ↔ serial.gIflowctrl = 2

/-- The old settings suit the ones asked for: where `set_serial` misses a bit it is as asked, and
the bit it disturbs belongs to the speed. -/
structure Suits (prior : Termios) (serial : SerialManage) : Prop where
  /-- With software flow control, a listed speed has `CBAUDEX` in its code. -/
  listed : serial.gIspeed ∈ speedArr.map Prod.fst → serial.gIflowctrl = 2 →
    serial.gIspeed = 115200
  /-- A speed that is not listed is set already, but for `CBAUDEX`. -/
  unlisted : serial.gIspeed ∉ speedArr.map Prod.fst →
    speedOf (if serial.gIflowctrl = 2 then prior.cCflag ||| cbaudex else prior.cCflag) =
      some serial.gIspeed
  /-- Where hardware flow control is neither set nor cleared, it is off. -/
  hardware : serial.gIflowctrl ≠ 0 → serial.gIflowctrl ≠ 1 → ¬ IsSet crtscts prior.cCflag
  /-- The bit for what is sent is as asked. -/
  output : IsSet ixon prior.cIflag ↔ serial.gIflowctrl = 2
  /-- The bit for what is received is as asked. -/
  input : IsSet ixoff prior.cIflag ↔ serial.gIflowctrl = 2

/-- The codes of the speeds lie in their field. -/
theorem speedArr_codes : ∀ speed ∈ speedArr, speed.2 &&& ~~~cbaud = 0#32 := by decide

/-- The switch over the flow control leaves the input word as it was before. -/
theorem setLine_cIflag (prior : Termios) (serial : SerialManage) :
    (setLine prior serial).cIflag = prior.cIflag := by
  rw [setLine, (setFlow_same _ serial).2]
  exact (setSpeed_same prior serial speedArr speedArr_codes).2

/-- Hardware flow control after these steps. -/
theorem setLine_crtscts (prior : Termios) (serial : SerialManage) :
    IsSet crtscts (setLine prior serial).cCflag ↔
      serial.gIflowctrl = 1 ∨ serial.gIflowctrl ≠ 0 ∧ IsSet crtscts prior.cCflag := by
  have speed := (setSpeed_same prior serial speedArr speedArr_codes).1
  have receiver : SameOutside (clocal ||| cread) (setSpeed prior serial speedArr).cCflag
      (setReceiver (setSpeed prior serial speedArr)).cCflag :=
    (SameOutside.set _ (by decide)).trans (SameOutside.set _ (by decide))
  rw [setLine, setFlow_crtscts, receiver.isSet_iff (by decide), speed.isSet_iff (by decide)]

/-- The speed after these steps is the one asked for when its code was set and not disturbed, or was
there before. -/
theorem setLine_speed (prior : Termios) (serial : SerialManage) :
    speedOf (setLine prior serial).cCflag = some serial.gIspeed ↔
      (serial.gIspeed ∈ speedArr.map Prod.fst → serial.gIflowctrl = 2 →
        serial.gIspeed = 115200) ∧
      (serial.gIspeed ∉ speedArr.map Prod.fst →
        speedOf (if serial.gIflowctrl = 2 then prior.cCflag ||| cbaudex else prior.cCflag) =
          some serial.gIspeed) := by
  have receiver : SameOutside (clocal ||| cread) (setSpeed prior serial speedArr).cCflag
      (setReceiver (setSpeed prior serial speedArr)).cCflag :=
    (SameOutside.set _ (by decide)).trans (SameOutside.set _ (by decide))
  have field := setFlow_cbaud (setReceiver (setSpeed prior serial speedArr)) serial
  rw [receiver.field (show cbaud &&& (clocal ||| cread) = 0#32 by decide)] at field
  rw [speedOf, setLine, field]
  by_cases listed : serial.gIspeed ∈ speedArr.map Prod.fst
  · obtain ⟨speed, inside, named⟩ := List.mem_map.mp listed
    have codes : ∀ speed ∈ speedArr, speed.2 &&& cbaud = speed.2 ∧
        (∀ other ∈ speedArr, other.1 = speed.1 → other.2 = speed.2) ∧
        linuxSpeeds.lookup speed.2 = some speed.1 ∧
        (linuxSpeeds.lookup (speed.2 ||| cbaudex) = some speed.1 ↔ speed.1 = 115200) := by
      decide
    obtain ⟨within, one, plain, disturbed⟩ := codes speed inside
    rw [setSpeed_field named.symm within prior speedArr one (.inl inside), ← named]
    by_cases software : serial.gIflowctrl = 2
    · rw [if_pos software, disturbed]
      simp [named ▸ listed, software]
    · rw [if_neg software]
      simp [plain, named ▸ listed, software]
  · rw [setSpeed_unknown prior speedArr listed]
    have added : (prior.cCflag ||| cbaudex) &&& cbaud = prior.cCflag &&& cbaud ||| cbaudex :=
      BitVec.and_or_distrib_right.trans (by rw [show cbaudex &&& cbaud = cbaudex by decide])
    by_cases software : serial.gIflowctrl = 2
    · simp [listed, software, speedOf, added]
    · simp [listed, software, speedOf]

/-- The settings left for supported ones are those asked for exactly when the old ones suit. -/
theorem configured_iff {prior stopped : Termios}
    (stopped_eq : setFrame (setLine prior serial) serial = some stopped) :
    Configured serial (setRaw stopped) ↔ Suits prior serial := by
  obtain ⟨same, input, size, parity, stop⟩ := setFrame_eq stopped_eq
  have speed : speedOf stopped.cCflag = speedOf (setLine prior serial).cCflag := by
    rw [speedOf, speedOf, same.field (by decide)]
  have hardware := (same.isSet_iff (show crtscts &&& (csize ||| parityBits) = 0#32 by decide)).trans
    (setLine_crtscts prior serial)
  have sent : IsSet ixon stopped.cIflag ↔ IsSet ixon prior.cIflag := by
    rw [input.isSet_iff (by decide), setLine_cIflag]
  have received : IsSet ixoff stopped.cIflag ↔ IsSet ixoff prior.cIflag := by
    rw [input.isSet_iff (by decide), setLine_cIflag]
  constructor
  · intro configured
    have speeds := (setLine_speed prior serial).mp (speed.symm.trans configured.speed)
    constructor
    · exact speeds.1
    · exact speeds.2
    · intro notOff notOn set
      exact notOn (configured.hardware.mp (hardware.mpr (.inr ⟨notOff, set⟩)))
    · exact sent.symm.trans configured.output
    · exact received.symm.trans configured.input
  · intro suits
    constructor
    · exact speed.trans ((setLine_speed prior serial).mpr ⟨suits.listed, suits.unlisted⟩)
    · exact size
    · exact parity
    · exact stop
    · refine hardware.trans ⟨?_, Or.inl⟩
      rintro (on | ⟨notOff, set⟩)
      · exact on
      · by_contra notOn
        exact suits.hardware notOff notOn set
    · exact sent.trans suits.output
    · exact received.trans suits.input

/-- **When `set_serial` configures what was asked for.** For every old `termios` and all settings,
what it hands to `tcsetattr` when it returns zero is what was asked for if and only if the settings
are refused or the old `termios` suits them. -/
theorem setSerial_configures_iff (prior : Termios) (serial : SerialManage) :
    (∀ options, setSerial (some prior) (fun _ => true) serial = (some options, 0) →
      Configured serial options) ↔ (Supported serial → Suits prior serial) := by
  constructor
  · intro configures supported
    obtain ⟨stopped, stopped_eq⟩ := Option.isSome_iff_exists.mp
      ((setFrame_isSome_iff (setLine prior serial) serial).mpr supported)
    apply (configured_iff stopped_eq).mp
    apply configures
    rw [setSerial, stopped_eq]
    rfl
  · intro suits options returned
    cases stopped_eq : setFrame (setLine prior serial) serial with
    | none => simp [setSerial, stopped_eq] at returned
    | some stopped =>
      have supported := (setFrame_isSome_iff _ serial).mp (Option.isSome_of_eq_some stopped_eq)
      have handed : setRaw stopped = options := by
        simpa [setSerial, stopped_eq] using returned
      rw [← handed]
      exact (configured_iff stopped_eq).mpr (suits supported)

/-- With 9600 baud and software flow control asked for, the speed handed on is three million baud
and the input word is left without software flow control. -/
theorem software_flow_disturbs_speed :
    ∃ options, setSerial (some ⟨0, 0, 0, 0, 0⟩) (fun _ => true) ⟨9600, 8, 1, 2, 'N'⟩ =
        (some options, 0) ∧ speedOf options.cCflag = some 3000000 ∧
      ¬ IsSet ixon options.cIflag ∧ ¬ Configured ⟨9600, 8, 1, 2, 'N'⟩ options := by
  refine ⟨_, rfl, by decide, by decide, ?_⟩
  intro configured
  exact absurd configured.speed (by decide)

end SysServer.Serial
