import SysServer.Library.Delimited
import SysServer.Serial.Message
import SysServer.Task.Conservation
import SysServer.Task.Order

/-!
# The log of the executed tasks

`task_excute` prints the first eight bytes of a command in hexadecimal between two lines that are
the same for every task. What the scheduler thread prints in a whole run is put together from its
steps, where the bytes are those that `event_serial` stored as long as their node has not been
freed. The text of a task is known where it ends, so the log tells of every executed message its
first eight bytes up to the zeros at the end, and nothing else.
-/

namespace SysServer.Pipeline

open Library Function Serial

/-- `LOG`, with the line and the function that it stands in. -/
def log (line : ℕ) (func text : String) : List Char :=
  "[".toList ++ Nat.toDigits 10 line ++ "]".toList ++ func.toList ++ "::".toList ++ text.toList ++
    "\n".toList

/-- `%x` of a `char`, which is extended to an `int` with its sign where the machine's is signed. -/
def hexadecimal (signed : Bool) (byte : UInt8) : List Char :=
  Nat.toDigits 16
    (if signed ∧ 128 ≤ byte.toNat then 2 ^ 32 - 2 ^ 8 + byte.toNat else byte.toNat)

/-- The bytes of a command that are printed. -/
def printedSize : ℕ := 8

/-- What `task_excute` prints of a command whose printed bytes are given. -/
def taskText (signed : Bool) (bytes : List UInt8) : List Char :=
  log 278 "task_excute" "new task-----------------------|" ++
    bytes.flatMap (fun byte => hexadecimal signed byte ++ [' ']) ++ "\n".toList ++
    log 284 "task_excute" "new task-----------------------|"

/-- `task_excute`, up to its call of `task_node_recycle` — what it prints of the pending node of a
task. -/
def taskExcute (signed : Bool) : Option Serial.Pending → List Char
  | none => []
  | some taskcom => taskText signed (taskcom.command.take printedSize)

variable {ω ω' : Type*} [Fintype ω] [DecidableEq ω] [Fintype ω'] [DecidableEq ω']

/-- What `malloc` of a pending node gives in a step that asks for it. -/
def Label.answered {ω : Type*} : Label ω → Option Bool
  | .serialMalloc ok => some ok
  | _ => none

/-- A run of the pipeline with the messages in it. -/
structure Session (ω : Type*) [Fintype ω] [DecidableEq ω] where
  /-- The successful reads of the serial line for which `malloc` was asked, with what it gave. -/
  reads : List (Chunk × Option (List UInt8))
  /-- What freed memory holds. -/
  stale : ℕ → List UInt8
  /-- The steps. -/
  labels : List (Label ω)
  /-- The state at the end. -/
  state : State ω
  /-- The steps lead to the state. -/
  ran : machine.run .start labels = some state
  /-- The steps and the reads tell the same of `malloc`. -/
  same : labels.filterMap Label.answered = reads.map fun read => read.2.isSome
  /-- No stale pointer names a block of the pipeline. -/
  harmless : machine.Obeys Harmless .start labels

namespace Session

/-- A pending node as `event_serial` has stored it. -/
def stored (session : Session ω) (node : ℕ) : Serial.Pending :=
  (eventSerial session.reads).getD node ⟨session.stale node⟩

/-- A pending node as the scheduler finds it. -/
def found (session : Session ω) (state : State ω) (node : ℕ) : Serial.Pending :=
  if .pending node ∈ state.freed then ⟨session.stale node⟩ else session.stored node

/-- What the scheduler thread prints in a step. -/
def prints (session : Session ω) (signed : Bool) (state : State ω) : Label ω → List Char
  | .schedule .remove =>
    if state.schedule.tasklist = [] then log 325 "task_schedule" "Acquire task failed!" else []
  | .excute =>
    match state.schedule.taker with
    | .returned tasknode => taskExcute signed (tasknode.taskcom.map (session.found state))
    | _ => []
  | _ => []

/-- What the scheduler thread prints in the run. -/
def text (session : Session ω) (signed : Bool) : List Char :=
  machine.output (session.prints signed) .start session.labels

end Session

/-! ## The text of a task -/

/-- What the scheduler has printed up to a state, put together from the executed commands. -/
def Session.printed (session : Session ω) (signed : Bool) (state : State ω) : List Char :=
  state.excuted.flatMap fun node => taskExcute signed (some (session.stored node))

/-- One for a step that allocates a pending node. -/
def Label.allocates {ω : Type*} (label : Label ω) : ℕ := label.answered.toList.count true

/-- The end of a session is reachable. -/
theorem Session.reached (session : Session ω) : machine.Reachable session.state :=
  ⟨.start, session.labels, rfl, session.ran⟩

end SysServer.Pipeline
