import SysServer.Library.Fifo
import SysServer.Serial.Termios

/-!
# The settings over many calls

The attributes of a line outlive the program that has set them, and `set_serial` starts from what
the line holds. Each setting is written by a call or left as it was, whatever the others are, so a
line can be followed setting by setting through any number of calls, failed ones included: a
setting is the latest one that a successful call has asked for. Of the speed, the bit `CBAUDEX` is
followed apart from the rest, because software flow control sets it alone.
-/

namespace SysServer.Serial

open Library

/-- `CBAUD` without `CBAUDEX`. -/
def plain : Flags := 0o17

/-- What a line does. -/
@[ext] structure Settings where
  /-- The code of the speed without `CBAUDEX`. -/
  rate : Flags
  /-- `CBAUDEX`. -/
  extended : Bool
  /-- Bits of a character. -/
  bits : ℤ
  /-- Parity. -/
  parity : Parity
  /-- Two stop bits. -/
  twoStop : Bool
  /-- Hardware flow control. -/
  hardware : Bool
  /-- Software flow control, what is sent. -/
  output : Bool
  /-- Software flow control, what is received. -/
  input : Bool
  deriving DecidableEq

/-- The speed in the settings. -/
def Settings.speed (settings : Settings) : Option ℤ :=
  linuxSpeeds.lookup (settings.rate ||| if settings.extended then cbaudex else 0)

/-- The supported settings can be told. -/
instance (serial : SerialManage) : Decidable (Supported serial) :=
  decidable_of_iff (serial.gIbits ∈ [5, 6, 7, 8] ∧ (parityAsked serial.gCevent).isSome ∧
    serial.gIstop ∈ [1, 2])
    ⟨fun all => ⟨all.1, all.2.1, all.2.2⟩, fun supported =>
      ⟨supported.bits, supported.parity, supported.stop⟩⟩

/-- A call of `set_serial`, with what the system answers. -/
structure Call where
  /-- The settings asked for. -/
  serial : SerialManage
  /-- `tcgetattr` succeeds. -/
  tcgetattr : Bool
  /-- `tcsetattr` succeeds. -/
  tcsetattr : Bool

/-- The attributes of the line after a call: those handed to `tcsetattr` when it succeeds. -/
def Call.perform (call : Call) (line : Termios) : Termios :=
  match setSerial (if call.tcgetattr then some line else none) (fun _ => call.tcsetattr)
    call.serial with
  | (some options, 0) => options
  | _ => line

/-- What a call asks for that nothing refuses. -/
def Call.served (call : Call) : Option SerialManage :=
  if call.tcgetattr ∧ call.tcsetattr ∧ Supported call.serial then some call.serial else none

/-- The rate that is asked for: a speed that is not listed asks for none. -/
def rateAsked (serial : SerialManage) : Option Flags :=
  (speedArr.lookup serial.gIspeed).map (· &&& plain)

/-- What is asked for `CBAUDEX`: software flow control asks for it over the speed. -/
def extendedAsked (serial : SerialManage) : Option Bool :=
  if serial.gIflowctrl = 2 then some true
  else (speedArr.lookup serial.gIspeed).map fun code => decide (IsSet cbaudex code)

/-- What is asked of hardware flow control. -/
def hardwareAsked (serial : SerialManage) : Option Bool :=
  if serial.gIflowctrl = 0 then some false
  else if serial.gIflowctrl = 1 then some true
  else none

/-- The settings that a served call leaves. -/
def Settings.next (settings : Settings) (serial : SerialManage) : Settings where
  rate := (rateAsked serial).getD settings.rate
  extended := (extendedAsked serial).getD settings.extended
  bits := serial.gIbits
  parity := (parityAsked serial.gCevent).getD settings.parity
  twoStop := decide (serial.gIstop = 2)
  hardware := (hardwareAsked serial).getD settings.hardware
  output := settings.output
  input := settings.input

variable {serial : SerialManage} {line options : Termios}

/-! ## One call -/

end SysServer.Serial
