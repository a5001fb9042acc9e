import Mathlib.Data.Int.Order.Basic
import SysServer.Library.Machine

/-!
# The serial threads and their descriptor

`event_serial` reads from the serial line and `serial_write` writes to it. They share the flag
`uCrunning` and the number `gIhandle`; the process table says which open file a number stands for.
Every loop test, read, write, close and store of the flag is a step of its own. A number that is
closed may at any time be given to a file that another part of the program opens.

The operations of `smrt_event_op` are those that `system_serial_init` installs, so no pointer is
null. `dev_read` and `dev_write` differ in the system call only and are one definition, applied to
the thread that makes the call.
-/

namespace SysServer.Serial

open Library Function

/-- The two threads. -/
inductive Thread where
  /-- `event_serial`. -/
  | reader
  /-- `serial_write`. -/
  | writer
  deriving DecidableEq

/-- The other thread. -/
def Thread.other : Thread → Thread
  | .reader => .writer
  | .writer => .reader

/-- An open file, as far as the discipline of the serial descriptor is concerned. -/
inductive File where
  /-- The serial device, as `open_serial` has opened it. -/
  | serial
  /-- A file of another part of the program. -/
  | foreign
  deriving DecidableEq

/-- What a thread asks of a descriptor. -/
inductive Operation where
  /-- `read` of the reader, `write` of the writer. -/
  | transfer
  /-- `close`. -/
  | close
  deriving DecidableEq

/-- A system call on a descriptor: who made it, what for, on which number, and the open file that
the number stood for. -/
structure Access where
  /-- The thread. -/
  thread : Thread
  /-- The call. -/
  operation : Operation
  /-- The number. -/
  number : ℤ
  /-- The file, unless the number was closed. -/
  target : Option File
  deriving DecidableEq

/-- Where a thread stands. -/
inductive Place where
  /-- The pool has not been given `serial_write`. -/
  | absent
  /-- At `serial->uCrunning = 1` in `start_serial`. -/
  | enabling
  /-- At `evop_open`. -/
  | opening
  /-- At `evop_stop` after `start_serial` has failed. -/
  | refused
  /-- At `tpool_add_work(serial_write, serial)`. -/
  | adding
  /-- At `while(serial->uCrunning)`. -/
  | testing
  /-- At `fgets`. -/
  | prompting
  /-- At the call of `evop_read` or `evop_write`, which copies `gIhandle`. -/
  | calling
  /-- At `read` or `write`, with the copy. -/
  | transferring (fd : ℤ)
  /-- At `CLOSEFD`, with the copy. -/
  | closing (fd : ℤ)
  /-- At `*status = 0` in `dev_stop`. -/
  | stopping
  /-- In the rest of the loop's body after a call that has moved data. -/
  | handling
  /-- Past the loop. -/
  | exited
  deriving DecidableEq

/-- The shared memory, the table of descriptors, and the threads. No step reads the history. -/
structure State where
  /-- `uCrunning`. -/
  uCrunning : Bool
  /-- `gIhandle`. -/
  gIhandle : ℤ
  /-- The open file of each number. -/
  table : ℤ → Option File
  /-- The threads. -/
  place : Thread → Place
  /-- The system calls on descriptors so far. -/
  history : List Access

/-- A step, with what the operating system decides. -/
inductive Label where
  /-- `start_serial` sets the flag. -/
  | enable
  /-- `open_serial`: the number from `open`, and whether `fcntl` and `isatty` succeed. -/
  | open (fd : ℤ) (fcntl isatty : Bool)
  /-- `event_serial` clears the flag after `start_serial` has failed. -/
  | refuse
  /-- The pool takes `serial_write`, or does not. -/
  | addWork (taken : Bool)
  /-- A loop test. -/
  | test (thread : Thread)
  /-- `fgets` returns. -/
  | prompt
  /-- The call of `evop_read` or `evop_write`. -/
  | call (thread : Thread)
  /-- `read` or `write`: what it returns, and whether `errno` is `EINTR`. -/
  | transfer (thread : Thread) (ret : ℤ) (interrupted : Bool)
  /-- `CLOSEFD`. -/
  | close (thread : Thread)
  /-- `dev_stop`. -/
  | stop (thread : Thread)
  /-- The rest of the loop's body. -/
  | handle (thread : Thread)
  /-- Another part of the program opens a file, whose number was closed. -/
  | acquire (fd : ℤ)
  /-- Another part of the program closes its file. -/
  | release (fd : ℤ)

/-- One thread moves. -/
def State.placeAt (state : State) (thread : Thread) (place : Place) : State :=
  { state with place := update state.place thread place }

/-- The state before `event_serial` is called. -/
def State.start (uCrunning : Bool) (gIhandle : ℤ) (table : ℤ → Option File) : State where
  uCrunning := uCrunning
  gIhandle := gIhandle
  table := table
  place
    | .reader => .enabling
    | .writer => .absent
  history := []

/-- `open_serial` — the number it returns, for the number that `open` has returned. -/
def openSerial (fd : ℤ) (fcntl isatty : Bool) : ℤ :=
  if fd < 0 then fd
  else if !fcntl then -1
  else if !isatty then -1
  else fd

/-- The table after `open` has returned a number. -/
def opened (table : ℤ → Option File) (fd : ℤ) : ℤ → Option File :=
  if fd < 0 then table else update table fd (some .serial)

/-- `start_serial` — from `evop_open` on. -/
def startSerial (state : State) (fd : ℤ) (fcntl isatty : Bool) : State :=
  { state.placeAt .reader (if openSerial fd fcntl isatty < 0 then .refused else .adding) with
    gIhandle := openSerial fd fcntl isatty
    table := opened state.table fd }

/-- Where a thread goes when its system call returns: to the call again after an interruption, to
`CLOSEFD` after a failure or the end of the line, and on with the data. -/
def returned (fd ret : ℤ) (interrupted : Bool) : Place :=
  if ret < 0 ∧ interrupted then .transferring fd
  else if ret ≤ 0 then .closing fd
  else .handling

/-- The system call on the copy of the number. -/
def devCall (thread : Thread) (state : State) (fd ret : ℤ) (interrupted : Bool) : State :=
  { state.placeAt thread (returned fd ret interrupted) with
    history := state.history ++ [⟨thread, .transfer, fd, state.table fd⟩] }

/-- `dev_read`. -/
def devRead : State → ℤ → ℤ → Bool → State := devCall .reader

/-- `dev_write`. -/
def devWrite : State → ℤ → ℤ → Bool → State := devCall .writer

/-- `CLOSEFD` — it closes the number and clears the copy, which is not used again. -/
def closefd (thread : Thread) (state : State) (fd : ℤ) : State :=
  if fd > 0 then
    { state.placeAt thread .stopping with
      table := update state.table fd none
      history := state.history ++ [⟨thread, .close, fd, state.table fd⟩] }
  else state.placeAt thread .stopping

/-- `dev_stop`. -/
def devStop (state : State) : State := { state with uCrunning := false }

/-- Where a thread stands behind a loop test that has succeeded. -/
def Thread.body : Thread → Place
  | .reader => .calling
  | .writer => .prompting

/-- One step. -/
def step (state : State) : Label → Option State
  | .enable =>
    match state.place .reader with
    | .enabling => some { state.placeAt .reader .opening with uCrunning := true }
    | _ => none
  | .open fd fcntl isatty =>
    match state.place .reader with
    | .opening =>
      if 0 ≤ fd ∧ state.table fd ≠ none then none
      else some (startSerial state fd fcntl isatty)
    | _ => none
  | .refuse =>
    match state.place .reader with
    | .refused => some (devStop (state.placeAt .reader .adding))
    | _ => none
  | .addWork taken =>
    match state.place .reader with
    | .adding =>
      if taken then some ((state.placeAt .reader .testing).placeAt .writer .testing)
      else some (state.placeAt .reader .testing)
    | _ => none
  | .test thread =>
    match state.place thread with
    | .testing => some (state.placeAt thread (if state.uCrunning then thread.body else .exited))
    | _ => none
  | .prompt =>
    match state.place .writer with
    | .prompting => some (state.placeAt .writer .calling)
    | _ => none
  | .call thread =>
    match state.place thread with
    | .calling => some (state.placeAt thread (.transferring state.gIhandle))
    | _ => none
  | .transfer thread ret interrupted =>
    match state.place thread with
    | .transferring fd =>
      -- A call on a closed number fails, and not for an interruption.
      if state.table fd = none ∧ ¬(ret < 0 ∧ interrupted = false) then none
      else match thread with
        | .reader => some (devRead state fd ret interrupted)
        | .writer => some (devWrite state fd ret interrupted)
    | _ => none
  | .close thread =>
    match state.place thread with
    | .closing fd => some (closefd thread state fd)
    | _ => none
  | .stop thread =>
    match state.place thread with
    | .stopping => some (devStop (state.placeAt thread .testing))
    | _ => none
  | .handle thread =>
    match state.place thread with
    | .handling => some (state.placeAt thread .testing)
    | _ => none
  | .acquire fd =>
    match state.table fd with
    | none => some { state with table := update state.table fd (some .foreign) }
    | some _ => none
  | .release fd =>
    match state.table fd with
    | some .foreign => some { state with table := update state.table fd none }
    | _ => none

/-- The serial threads from the call of `event_serial`, whatever was in memory and open before. -/
def machine : Machine State Label where
  initial state := ∃ uCrunning gIhandle table, state = .start uCrunning gIhandle table
  step := step

/-! ## What a step can do -/

/-- Everything a step can do. -/
inductive Moves (state : State) : Label → State → Prop where
  /-- `start_serial` sets the flag. -/
  | enable (place : state.place .reader = .enabling) :
    Moves state .enable { state.placeAt .reader .opening with uCrunning := true }
  /-- `open_serial` returns a number. -/
  | open {fd : ℤ} {fcntl isatty : Bool} (place : state.place .reader = .opening) :
    Moves state (.open fd fcntl isatty) (startSerial state fd fcntl isatty)
  /-- The flag is cleared after a failure. -/
  | refuse (place : state.place .reader = .refused) :
    Moves state .refuse (devStop (state.placeAt .reader .adding))
  /-- The reader begins its loop, alone. -/
  | alone (place : state.place .reader = .adding) :
    Moves state (.addWork false) (state.placeAt .reader .testing)
  /-- Both threads begin their loops. -/
  | both (place : state.place .reader = .adding) :
    Moves state (.addWork true) ((state.placeAt .reader .testing).placeAt .writer .testing)
  /-- A loop test succeeds. -/
  | pass {thread : Thread} (place : state.place thread = .testing)
    (running : state.uCrunning = true) :
    Moves state (.test thread) (state.placeAt thread thread.body)
  /-- A loop test fails. -/
  | exit {thread : Thread} (place : state.place thread = .testing)
    (clear : state.uCrunning = false) : Moves state (.test thread) (state.placeAt thread .exited)
  /-- `fgets` returns. -/
  | prompt (place : state.place .writer = .prompting) :
    Moves state .prompt (state.placeAt .writer .calling)
  /-- The number is copied. -/
  | call {thread : Thread} (place : state.place thread = .calling) :
    Moves state (.call thread) (state.placeAt thread (.transferring state.gIhandle))
  /-- A read or write. -/
  | transfer {thread : Thread} {fd ret : ℤ} {interrupted : Bool}
    (place : state.place thread = .transferring fd) :
    Moves state (.transfer thread ret interrupted) (devCall thread state fd ret interrupted)
  /-- The copy is closed. -/
  | close {thread : Thread} {fd : ℤ} (place : state.place thread = .closing fd) :
    Moves state (.close thread) (closefd thread state fd)
  /-- The flag is cleared. -/
  | stop {thread : Thread} (place : state.place thread = .stopping) :
    Moves state (.stop thread) (devStop (state.placeAt thread .testing))
  /-- The loop's body ends. -/
  | handle {thread : Thread} (place : state.place thread = .handling) :
    Moves state (.handle thread) (state.placeAt thread .testing)
  /-- A closed number is given to another part of the program. -/
  | acquire {fd : ℤ} (free : state.table fd = none) :
    Moves state (.acquire fd) { state with table := update state.table fd (some .foreign) }
  /-- Another part of the program closes its file. -/
  | release {fd : ℤ} (held : state.table fd = some .foreign) :
    Moves state (.release fd) { state with table := update state.table fd none }

/-- A step is one of the moves. -/
theorem step_moves {state next : State} {label : Label} (stepped : step state label = some next) :
    Moves state label next := by
  cases label with
  | enable =>
    simp only [step] at stepped
    split at stepped
    · rename_i place
      exact Option.some.inj stepped ▸ .enable place
    · cases stepped
  | «open» fd fcntl isatty =>
    simp only [step] at stepped
    split at stepped
    · rename_i place
      split at stepped
      · cases stepped
      · exact Option.some.inj stepped ▸ .open place
    · cases stepped
  | refuse =>
    simp only [step] at stepped
    split at stepped
    · rename_i place
      exact Option.some.inj stepped ▸ .refuse place
    · cases stepped
  | addWork taken =>
    simp only [step] at stepped
    split at stepped
    · rename_i place
      cases taken with
      | false => exact Option.some.inj stepped ▸ .alone place
      | true => exact Option.some.inj stepped ▸ .both place
    · cases stepped
  | test thread =>
    simp only [step] at stepped
    split at stepped
    · rename_i place
      cases flag : state.uCrunning with
      | false =>
        rw [flag] at stepped
        exact Option.some.inj stepped ▸ .exit place flag
      | true =>
        rw [flag] at stepped
        exact Option.some.inj stepped ▸ .pass place flag
    · cases stepped
  | prompt =>
    simp only [step] at stepped
    split at stepped
    · rename_i place
      exact Option.some.inj stepped ▸ .prompt place
    · cases stepped
  | call thread =>
    simp only [step] at stepped
    split at stepped
    · rename_i place
      exact Option.some.inj stepped ▸ .call place
    · cases stepped
  | transfer thread ret interrupted =>
    simp only [step] at stepped
    split at stepped
    · rename_i place
      split at stepped
      · cases stepped
      · cases thread with
        | reader => exact Option.some.inj stepped ▸ .transfer place
        | writer => exact Option.some.inj stepped ▸ .transfer place
    · cases stepped
  | close thread =>
    simp only [step] at stepped
    split at stepped
    · rename_i place
      exact Option.some.inj stepped ▸ .close place
    · cases stepped
  | stop thread =>
    simp only [step] at stepped
    split at stepped
    · rename_i place
      exact Option.some.inj stepped ▸ .stop place
    · cases stepped
  | handle thread =>
    simp only [step] at stepped
    split at stepped
    · rename_i place
      exact Option.some.inj stepped ▸ .handle place
    · cases stepped
  | acquire fd =>
    simp only [step] at stepped
    split at stepped
    · rename_i free
      exact Option.some.inj stepped ▸ .acquire free
    · cases stepped
  | release fd =>
    simp only [step] at stepped
    split at stepped
    · rename_i held
      exact Option.some.inj stepped ▸ .release held
    · cases stepped

end SysServer.Serial
