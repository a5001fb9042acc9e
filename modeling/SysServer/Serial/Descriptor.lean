import Mathlib.Data.List.Pairwise
import Mathlib.Logic.Function.Basic
import SysServer.Serial.Event

/-!
# The discipline of the serial descriptor

A thread whose call fails closes its own copy of the number and only then clears the flag, and it
cannot see where the other thread stands. As long as no thread closes the number under the other
(`Apart`), the history is a list of calls on the open serial device with one close at its end.
Otherwise the other thread goes on to use a number that is closed or stands for another file.
-/

namespace SysServer.Serial

open Library Function

/-- The serial descriptor is used while it is open, closed once at most, and left alone by either
thread once the other has closed it. -/
structure Disciplined (state : State) : Prop where
  /-- Every read and write goes to the open serial device. -/
  target : ∀ access ∈ state.history, access.operation = .transfer →
    access.number = state.gIhandle ∧ access.target = some .serial
  /-- The number is closed once at most. -/
  once : (state.history.filter fun access =>
    access.operation = .close ∧ access.number = state.gIhandle).length ≤ 1
  /-- Neither thread uses the number once the other has closed it. -/
  after : state.history.Pairwise fun earlier later => earlier.operation = .close →
    later.number = earlier.number → later.thread = earlier.thread

/-- The thread has passed its loop test and not finished its call. -/
def Place.committed : Place → Bool
  | .prompting | .calling | .transferring _ | .closing _ => true
  | _ => false

/-- The thread has not passed a loop test. -/
def Place.fresh : Place → Bool
  | .absent | .enabling | .opening | .refused | .adding | .testing => true
  | _ => false

/-- The thread has begun its loop. -/
def Place.inLoop : Place → Bool
  | .absent | .enabling | .opening | .refused | .adding => false
  | _ => true

/-- The thread is past a call of `start_serial` that has not failed. -/
def Place.started : Place → Bool
  | .absent | .enabling | .opening | .refused => false
  | _ => true

/-- The thread's own copy of the number. -/
def Place.copy : Place → Option ℤ
  | .transferring fd | .closing fd => some fd
  | _ => none

/-- No thread closes the number while the other is between its loop test and the end of its call,
and none passes its loop test between the other's close and the store that clears the flag. -/
def Apart (state : State) : Label → Prop
  | .close thread => state.gIhandle ≤ 0 ∨ (state.place thread.other).committed = false
  | .test thread => state.gIhandle ≤ 0 ∨ state.uCrunning = false ∨
      state.place thread.other ≠ .stopping
  | _ => True

/-- A call on the open serial device. -/
def Access.Good (handle : ℤ) (access : Access) : Prop :=
  access.operation = .transfer ∧ access.number = handle ∧ access.target = some .serial

/-- The descriptor has not been closed. -/
structure Unclosed (state : State) : Prop where
  /-- Every call was a read or write of the open serial device. -/
  good : ∀ access ∈ state.history, access.Good state.gIhandle
  /-- A copy is the number itself. -/
  copies : ∀ thread fd, (state.place thread).copy = some fd → fd = state.gIhandle
  /-- Before its loop the reader is alone, and no call has been made. -/
  alone : (state.place .reader).inLoop = false → state.place .writer = .absent ∧ state.history = []
  /-- While the flag is set the number stands for the serial device. -/
  live : state.uCrunning = true → (state.place .reader).started = true →
    state.table state.gIhandle = some .serial
  /-- A thread that is about to clear the flag has closed nothing. -/
  stops : ∀ thread, state.place thread = .stopping → state.gIhandle ≤ 0
  /-- A thread past its loop test finds the serial device. -/
  committed : ∀ thread, (state.place thread).committed = true →
    state.table state.gIhandle = some .serial

/-- One thread has closed the descriptor. -/
structure Closed (state : State) (closer : Thread) : Prop where
  /-- The close is the last call. -/
  last : ∃ uses, state.history = uses ++ [⟨closer, .close, state.gIhandle, some .serial⟩] ∧
    ∀ access ∈ uses, access.Good state.gIhandle
  /-- The flag is clear, or about to be cleared. -/
  stored : state.uCrunning = false ∨ state.place closer = .stopping
  /-- No thread is past its loop test. -/
  nobody : ∀ thread, (state.place thread).committed = false
  /-- The reader is in its loop. -/
  looping : (state.place .reader).inLoop = true
  /-- The number is one that `CLOSEFD` closes. -/
  positive : 0 < state.gIhandle

/-- There are two threads. -/
theorem Thread.eq_other {thread other : Thread} (different : other ≠ thread) :
    other = thread.other := by
  cases thread <;> cases other <;> first | rfl | exact absurd rfl different

section Uses

variable {handle : ℤ} {uses : List Access}

/-- Among reads and writes there is no close. -/
theorem closes_of_good (good : ∀ access ∈ uses, access.Good handle) :
    (uses.filter fun access => access.operation = .close ∧ access.number = handle) = [] := by
  apply List.filter_eq_nil_iff.mpr
  intro access inside
  simp [(good access inside).1]

/-- After a read or write anything may follow. -/
theorem good_not_close (good : ∀ access ∈ uses, access.Good handle) {access : Access}
    (inside : access ∈ uses) : access.operation ≠ .close := by
  simp [(good access inside).1]

/-- Among reads and writes no call follows a close. -/
theorem pairwise_of_good (good : ∀ access ∈ uses, access.Good handle) :
    uses.Pairwise fun earlier later => earlier.operation = .close →
      later.number = earlier.number → later.thread = earlier.thread :=
  List.pairwise_of_forall_mem_list fun _ inside _ _ closes =>
    absurd closes (good_not_close good inside)

end Uses

/-- An unclosed descriptor is disciplined. -/
theorem Unclosed.disciplined {state : State} (unclosed : Unclosed state) : Disciplined state where
  target access inside _ := (unclosed.good access inside).2
  once := by
    rw [closes_of_good unclosed.good]
    exact Nat.zero_le _
  after := pairwise_of_good unclosed.good

/-- A descriptor closed once, at the end, is disciplined. -/
theorem Closed.disciplined {state : State} {closer : Thread} (closed : Closed state closer) :
    Disciplined state := by
  obtain ⟨uses, history, good⟩ := closed.last
  refine ⟨?_, ?_, ?_⟩
  · intro access inside transfers
    rw [history, List.mem_append, List.mem_singleton] at inside
    rcases inside with used | rfl
    · exact (good access used).2
    · cases transfers
  · rw [history, List.filter_append, closes_of_good good]
    exact List.length_filter_le _ _
  · rw [history, List.pairwise_append]
    exact ⟨pairwise_of_good good, List.pairwise_singleton _ _,
      fun earlier used _ _ closes => absurd closes (good_not_close good used)⟩

/-! ## One step -/

/-- A thread in its loop is past `start_serial`. -/
theorem Place.started_of_inLoop {place : Place} (inLoop : place.inLoop = true) :
    place.started = true := by
  cases place <;> first | rfl | cases inLoop

/-- A thread that has its copy is past its loop test. -/
theorem Place.committed_of_copy {place : Place} {fd : ℤ} (copied : place.copy = some fd) :
    place.committed = true := by
  cases place <;> first | rfl | cases copied

/-- A thread that has not passed a loop test is neither past one nor about to clear the flag. -/
theorem Place.of_fresh {place : Place} (fresh : place.fresh = true) :
    place.committed = false ∧ place ≠ .stopping := by
  cases place <;> first | exact ⟨rfl, Place.noConfusion⟩ | cases fresh

/-- A number that `open_serial` returns is the one that `open` has returned. -/
theorem openSerial_eq {fd : ℤ} {fcntl isatty : Bool} (stored : ¬openSerial fd fcntl isatty < 0) :
    openSerial fd fcntl isatty = fd := by
  unfold openSerial at stored ⊢
  split
  · rfl
  · rename_i valid
    rw [if_neg valid] at stored
    cases fcntl with
    | false => simp at stored
    | true =>
      cases isatty with
      | false => simp at stored
      | true => rfl

/-- A call that returns leaves the thread in its loop. -/
theorem returned_inLoop (fd ret : ℤ) (interrupted : Bool) :
    (returned fd ret interrupted).inLoop = true := by
  unfold returned
  split
  · rfl
  · split <;> rfl

/-- A call that returns leaves the thread its copy, or none. -/
theorem returned_copy {fd ret copy : ℤ} {interrupted : Bool}
    (copied : (returned fd ret interrupted).copy = some copy) : copy = fd := by
  unfold returned at copied
  split at copied
  · exact (Option.some.inj copied).symm
  · split at copied
    · exact (Option.some.inj copied).symm
    · cases copied

/-- A call that returns does not lead to `dev_stop` at once. -/
theorem returned_ne_stopping (fd ret : ℤ) (interrupted : Bool) :
    returned fd ret interrupted ≠ .stopping := by
  unfold returned
  split
  · simp
  · split <;> simp

/-- A change of another number leaves the serial device where it is. -/
theorem serial_kept {table : ℤ → Option File} {fd : ℤ} {file : Option File}
    (other : table fd ≠ some .serial) (number : ℤ) (serial : table number = some .serial) :
    update table fd file number = some .serial := by
  have apart : number ≠ fd := by
    rintro rfl
    exact other serial
  rwa [update_of_ne apart]

variable {state next : State} {label : Label} {thread closer : Thread} {before after : Place}

/-- The reader stays in its loop when a thread moves within its loop. -/
theorem looping_placeAt (thread : Thread) (looping : (state.place .reader).inLoop = true)
    (stays : after.inLoop = true) :
    ((state.placeAt thread after).place .reader).inLoop = true := by
  cases thread with
  | reader => simpa [State.placeAt] using stays
  | writer => simpa [State.placeAt] using looping

namespace Unclosed

/-- Once a thread is in its loop the reader is. -/
theorem looping (unclosed : Unclosed state) (place : state.place thread = before)
    (inLoop : before.inLoop = true) : (state.place .reader).inLoop = true := by
  cases thread with
  | reader => rwa [place]
  | writer =>
    by_contra early
    have absent := (unclosed.alone (by simpa using early)).1
    rw [place] at absent
    rw [absent] at inLoop
    cases inLoop

/-- A thread moves within its loop and makes calls on the open serial device. -/
theorem move (calls : List Access) (unclosed : Unclosed state)
    (place : state.place thread = before) (inLoop : before.inLoop = true)
    (stays : after.inLoop = true)
    (copies : ∀ fd, after.copy = some fd → fd = state.gIhandle)
    (stops : after = .stopping → state.gIhandle ≤ 0)
    (committed : after.committed = true → state.table state.gIhandle = some .serial)
    (good : ∀ access ∈ calls, access.Good state.gIhandle) :
    Unclosed { state.placeAt thread after with history := state.history ++ calls } := by
  have looping := unclosed.looping place inLoop
  have still := looping_placeAt thread looping stays
  have allGood : ∀ access ∈ state.history ++ calls, access.Good state.gIhandle := by
    intro access inside
    exact (List.mem_append.mp inside).elim (unclosed.good access) (good access)
  have allCopies : ∀ other fd, (update state.place thread after other).copy = some fd →
      fd = state.gIhandle :=
    (forall_update_iff state.place fun _ place =>
      ∀ fd, place.copy = some fd → fd = state.gIhandle).mpr
      ⟨copies, fun other _ => unclosed.copies other⟩
  have allStops : ∀ other, update state.place thread after other = .stopping →
      state.gIhandle ≤ 0 :=
    (forall_update_iff state.place fun _ place => place = .stopping → state.gIhandle ≤ 0).mpr
      ⟨stops, fun other _ => unclosed.stops other⟩
  have allCommitted : ∀ other, (update state.place thread after other).committed = true →
      state.table state.gIhandle = some .serial :=
    (forall_update_iff state.place fun _ place =>
      place.committed = true → state.table state.gIhandle = some .serial).mpr
      ⟨committed, fun other _ => unclosed.committed other⟩
  refine ⟨allGood, allCopies, fun early => ?_, fun running _ => ?_, allStops, allCommitted⟩
  · exact absurd (still.symm.trans early) (by decide)
  · exact unclosed.live running (Place.started_of_inLoop looping)

/-- A thread moves within its loop without a call. -/
theorem place (unclosed : Unclosed state) (place : state.place thread = before)
    (inLoop : before.inLoop = true) (stays : after.inLoop = true)
    (copies : ∀ fd, after.copy = some fd → fd = state.gIhandle)
    (stops : after = .stopping → state.gIhandle ≤ 0)
    (committed : after.committed = true → state.table state.gIhandle = some .serial) :
    Unclosed (state.placeAt thread after) := by
  have moved := unclosed.move [] place inLoop stays copies stops committed (by simp)
  rwa [List.append_nil] at moved

/-- Another part of the program opens or closes its own files. -/
theorem foreign {table : ℤ → Option File} (unclosed : Unclosed state)
    (kept : ∀ fd, state.table fd = some .serial → table fd = some .serial) :
    Unclosed { state with table } :=
  ⟨unclosed.good, unclosed.copies, unclosed.alone,
    fun running started => kept _ (unclosed.live running started), unclosed.stops,
    fun thread committed => kept _ (unclosed.committed thread committed)⟩

/-- The flag is cleared. -/
theorem stop (unclosed : Unclosed state) : Unclosed (devStop state) :=
  ⟨unclosed.good, unclosed.copies, unclosed.alone,
    fun running _ => (Bool.false_ne_true running).elim, unclosed.stops, unclosed.committed⟩

/-- The open serial device is read or written. -/
theorem transfer {fd ret : ℤ} {interrupted : Bool} (unclosed : Unclosed state)
    (place : state.place thread = .transferring fd) :
    Unclosed (devCall thread state fd ret interrupted) := by
  obtain rfl := unclosed.copies thread fd (by rw [place]; rfl)
  have serial := unclosed.committed thread (by rw [place]; rfl)
  refine unclosed.move _ place rfl (returned_inLoop ..) (fun _ copied => returned_copy copied)
    (fun stopping => absurd stopping (returned_ne_stopping _ _ _)) (fun _ => serial) ?_
  simpa [Access.Good] using serial

/-- The number is closed while the other thread is not past its loop test. -/
theorem close {fd : ℤ} (unclosed : Unclosed state) (place : state.place thread = .closing fd)
    (positive : 0 < fd) (apart : (state.place thread.other).committed = false) :
    Closed (closefd thread state fd) thread := by
  obtain rfl := unclosed.copies thread fd (by rw [place]; rfl)
  have serial := unclosed.committed thread (by rw [place]; rfl)
  have looping := unclosed.looping place rfl
  rw [closefd, if_pos positive, serial]
  refine ⟨⟨state.history, rfl, unclosed.good⟩, .inr (update_self ..), ?_,
    looping_placeAt thread looping rfl, positive⟩
  refine (forall_update_iff state.place fun _ place => place.committed = false).mpr ⟨rfl, ?_⟩
  exact fun other different => Thread.eq_other different ▸ apart

/-- Before the first call. -/
theorem of_unused (history : state.history = [])
    (fresh : ∀ thread, (state.place thread).fresh = true)
    (alone : (state.place .reader).inLoop = false → state.place .writer = .absent)
    (live : state.uCrunning = true → (state.place .reader).started = true →
      state.table state.gIhandle = some .serial) : Unclosed state where
  good := by simp [history]
  copies thread fd copied := by
    have busy := Place.committed_of_copy copied
    rw [(Place.of_fresh (fresh thread)).1] at busy
    cases busy
  alone early := ⟨alone early, history⟩
  live := live
  stops thread stopping := absurd stopping (Place.of_fresh (fresh thread)).2
  committed thread busy := by
    rw [(Place.of_fresh (fresh thread)).1] at busy
    cases busy

/-- The reader moves before its loop, while it is alone. -/
theorem early (unclosed : Unclosed state) (before : (state.place .reader).inLoop = false)
    (fresh : (next.place .reader).fresh = true)
    (alone : next.place .writer = state.place .writer) (calls : next.history = state.history)
    (live : next.uCrunning = true → (next.place .reader).started = true →
      next.table next.gIhandle = some .serial) : Unclosed next := by
  obtain ⟨absent, history⟩ := unclosed.alone before
  refine of_unused (calls.trans history) (fun thread => ?_) (fun _ => alone.trans absent) live
  cases thread with
  | reader => exact fresh
  | writer =>
    rw [alone, absent]
    rfl

/-- `start_serial` opens the serial device or fails. -/
theorem start (fd : ℤ) (fcntl isatty : Bool) (unclosed : Unclosed state)
    (place : state.place .reader = .opening) : Unclosed (startSerial state fd fcntl isatty) := by
  have reader : (startSerial state fd fcntl isatty).place .reader =
      if openSerial fd fcntl isatty < 0 then .refused else .adding := rfl
  refine unclosed.early (by rw [place]; rfl) ?_ rfl rfl fun _ started => ?_
  · rw [reader]
    split <;> rfl
  · rw [reader] at started
    split at started
    · cases started
    · rename_i stored
      have same : openSerial fd fcntl isatty = fd := openSerial_eq stored
      change opened state.table fd (openSerial fd fcntl isatty) = some .serial
      rw [same] at stored ⊢
      rw [opened, if_neg stored, update_self]

/-- The threads begin their loops. -/
theorem begin (unclosed : Unclosed state) (place : state.place .reader = .adding)
    (begun : next.place .reader = .testing)
    (other : next.place .writer = state.place .writer ∨ next.place .writer = .testing)
    (same : next.uCrunning = state.uCrunning ∧ next.gIhandle = state.gIhandle ∧
      next.table = state.table ∧ next.history = state.history) : Unclosed next := by
  obtain ⟨absent, history⟩ := unclosed.alone (by rw [place]; rfl)
  obtain ⟨running, handle, table, calls⟩ := same
  refine of_unused (calls.trans history) (fun thread => ?_) (fun early => ?_) fun set _ => ?_
  · cases thread with
    | reader =>
      rw [begun]
      rfl
    | writer => rcases other with other | other <;> simp [other, absent, Place.fresh]
  · rw [begun] at early
    cases early
  · rw [table, handle]
    exact unclosed.live (running.symm.trans set) (by rw [place]; rfl)

/-- A loop test succeeds. -/
theorem pass (unclosed : Unclosed state) (place : state.place thread = .testing)
    (running : state.uCrunning = true) : Unclosed (state.placeAt thread thread.body) := by
  have started := Place.started_of_inLoop (unclosed.looping place rfl)
  refine unclosed.place place rfl ?_ ?_ ?_ fun _ => unclosed.live running started
  · cases thread <;> rfl
  · cases thread <;> nofun
  · cases thread <;> nofun

/-- Every step that keeps the threads apart leaves the number unclosed, or closed once. -/
theorem moves (unclosed : Unclosed state) (apart : Apart state label)
    (moves : Moves state label next) : Unclosed next ∨ ∃ closer, Closed next closer := by
  cases moves with
  | enable place => exact .inl (unclosed.early (by rw [place]; rfl) rfl rfl rfl nofun)
  | «open» place => exact .inl (unclosed.start _ _ _ place)
  | refuse place => exact .inl (unclosed.early (by rw [place]; rfl) rfl rfl rfl nofun)
  | alone place => exact .inl (unclosed.begin place rfl (.inl rfl) ⟨rfl, rfl, rfl, rfl⟩)
  | both place => exact .inl (unclosed.begin place rfl (.inr rfl) ⟨rfl, rfl, rfl, rfl⟩)
  | pass place running => exact .inl (unclosed.pass place running)
  | exit place clear => exact .inl (unclosed.place place rfl rfl nofun nofun nofun)
  | prompt place =>
    exact .inl (unclosed.place place rfl rfl nofun nofun
      fun _ => unclosed.committed .writer (by rw [place]; rfl))
  | @call thread place =>
    exact .inl (unclosed.place place rfl rfl (fun _ copied => (Option.some.inj copied).symm) nofun
      fun _ => unclosed.committed thread (by rw [place]; rfl))
  | transfer place => exact .inl (unclosed.transfer place)
  | @close thread fd place =>
    have same := unclosed.copies thread fd (by rw [place]; rfl)
    by_cases positive : 0 < fd
    · exact .inr ⟨thread, unclosed.close place positive (apart.resolve_left (by omega))⟩
    · -- Number zero is not closed, so both threads may go on using it.
      rw [closefd, if_neg positive]
      exact .inl (unclosed.place place rfl rfl nofun (fun _ => by omega) nofun)
  | @stop thread place =>
    have moved : Unclosed (state.placeAt thread .testing) :=
      unclosed.place place rfl rfl nofun nofun nofun
    exact .inl moved.stop
  | handle place => exact .inl (unclosed.place place rfl rfl nofun nofun nofun)
  | acquire free => exact .inl (unclosed.foreign (serial_kept (by simp [free])))
  | release held => exact .inl (unclosed.foreign (serial_kept (by simp [held])))

end Unclosed

namespace Closed

/-- A thread that is not past its loop test moves. -/
theorem place (closed : Closed state closer) (stays : after.inLoop = true)
    (idle : after.committed = false) (kept : state.uCrunning = false ∨ thread ≠ closer) :
    Closed (state.placeAt thread after) closer := by
  refine ⟨closed.last, ?_, ?_, looping_placeAt thread closed.looping stays, closed.positive⟩
  · refine kept.elim .inl fun different => closed.stored.imp_right fun stopping => ?_
    exact (update_of_ne different.symm ..).trans stopping
  · exact (forall_update_iff state.place fun _ place => place.committed = false).mpr
      ⟨idle, fun other _ => closed.nobody other⟩

/-- The close is among the calls. -/
theorem closes (closed : Closed state closer) :
    ⟨closer, .close, state.gIhandle, some .serial⟩ ∈ state.history := by
  obtain ⟨uses, history, -⟩ := closed.last
  exact history ▸ List.mem_append_right _ List.mem_cons_self

/-- The reader has begun its loop. -/
theorem not_early (closed : Closed state closer) {conclusion : Prop}
    (place : state.place .reader = before) (early : before.inLoop = false) : conclusion := by
  have looping := closed.looping
  rw [place, early] at looping
  cases looping

/-- No thread is past its loop test. -/
theorem not_committed (closed : Closed state closer) {conclusion : Prop}
    (place : state.place thread = before) (busy : before.committed = true) : conclusion := by
  have idle := closed.nobody thread
  rw [place, busy] at idle
  cases idle

/-- Every step that keeps the threads apart leaves the closed number alone. -/
theorem moves (closed : Closed state closer) (apart : Apart state label)
    (moves : Moves state label next) : Closed next closer := by
  cases moves with
  | enable place => exact closed.not_early place rfl
  | «open» place => exact closed.not_early place rfl
  | refuse place => exact closed.not_early place rfl
  | alone place => exact closed.not_early place rfl
  | both place => exact closed.not_early place rfl
  | @pass thread place running =>
    -- The flag is still set, so the closing thread is before its store and no test may pass.
    have stopping := closed.stored.resolve_left (by simp [running])
    have different : closer ≠ thread := by
      rintro rfl
      rw [place] at stopping
      cases stopping
    rw [Thread.eq_other different] at stopping
    have positive := closed.positive
    exact absurd stopping ((apart.resolve_left (by omega)).resolve_left (by simp [running]))
  | exit place clear => exact closed.place rfl rfl (.inl clear)
  | prompt place => exact closed.not_committed place rfl
  | call place => exact closed.not_committed place rfl
  | transfer place => exact closed.not_committed place rfl
  | close place => exact closed.not_committed place rfl
  | stop place =>
    have stopped : Closed (devStop state) closer :=
      ⟨closed.last, .inl rfl, closed.nobody, closed.looping, closed.positive⟩
    exact stopped.place rfl rfl (.inl rfl)
  | handle place =>
    refine closed.place rfl rfl (closed.stored.imp_right fun stopping => ?_)
    rintro rfl
    rw [place] at stopping
    cases stopping
  | acquire free =>
    exact ⟨closed.last, closed.stored, closed.nobody, closed.looping, closed.positive⟩
  | release held =>
    exact ⟨closed.last, closed.stored, closed.nobody, closed.looping, closed.positive⟩

end Closed

/-! ## Every run -/

/-- The number is unclosed, or has been closed once. -/
def Standing (state : State) : Prop := Unclosed state ∨ ∃ closer, Closed state closer

/-- Every step that keeps the threads apart keeps this. -/
theorem Standing.step (standing : Standing state) (apart : Apart state label)
    (stepped : step state label = some next) : Standing next := by
  obtain unclosed | ⟨closer, closed⟩ := standing
  · exact unclosed.moves apart (step_moves stepped)
  · exact .inr ⟨closer, closed.moves apart (step_moves stepped)⟩

/-- Before the first step there has been no call. -/
theorem Standing.start (uCrunning : Bool) (gIhandle : ℤ) (table : ℤ → Option File) :
    Standing (.start uCrunning gIhandle table) := by
  refine .inl (.of_unused rfl (fun thread => ?_) (fun _ => rfl) nofun)
  cases thread <;> rfl

/-- Every run that keeps the threads apart leaves the number unclosed or closed once. -/
theorem run_standing {labels : List Label} {first last : State} (initial : machine.initial first)
    (apart : machine.Obeys Apart first labels) (ran : machine.run first labels = some last) :
    Standing last := by
  obtain ⟨uCrunning, gIhandle, table, rfl⟩ := initial
  exact machine.run_obeys_invariant Standing
    (fun _ _ _ apart standing stepped => standing.step apart stepped) apart (.start ..) ran

/-- **The serial descriptor is used while it is open, and closed once.** In every run in which no
thread closes the number while the other is between its loop test and the end of its call, and
none passes its loop test between the other's close and store, every read and write goes to the
open serial device, the number is closed once at most, and no thread uses it after the other has
closed it. -/
theorem descriptor_disciplined {labels : List Label} {first last : State}
    (initial : machine.initial first) (apart : machine.Obeys Apart first labels)
    (ran : machine.run first labels = some last) : Disciplined last := by
  obtain unclosed | ⟨closer, closed⟩ := run_standing initial apart ran
  · exact unclosed.disciplined
  · exact closed.disciplined

/-- The line ends while the writer is before its loop test; the reader closes the number, another
part of the program is given it, and the writer leaves its loop. -/
def hangup : List Label :=
  [.enable, .open 3 true true, .addWork true, .test .reader, .call .reader,
    .transfer .reader 8 false, .handle .reader, .test .reader, .call .reader,
    .transfer .reader 0 false, .close .reader, .acquire 3, .stop .reader, .test .writer,
    .test .reader]

/-- That run keeps the discipline. -/
theorem descriptor_disciplined_run :
    ∃ state, machine.run (.start false 0 fun _ => none) hangup = some state ∧
      state.table 3 = some .foreign ∧ Disciplined state := by
  refine ⟨_, rfl, rfl, descriptor_disciplined ⟨false, 0, fun _ => none, rfl⟩ ?_
    (show machine.run (.start false 0 fun _ => none) hangup = some _ from rfl)⟩
  iterate 3 refine .cons trivial rfl ?_
  refine .cons (.inr (.inr nofun)) rfl ?_
  iterate 3 refine .cons trivial rfl ?_
  refine .cons (.inr (.inr nofun)) rfl ?_
  iterate 2 refine .cons trivial rfl ?_
  refine .cons (.inr rfl) rfl ?_
  iterate 2 refine .cons trivial rfl ?_
  refine .cons (.inr (.inr nofun)) rfl ?_
  refine .cons (.inr (.inr nofun)) rfl ?_
  trivial

/-- The writer has passed its loop test when the line ends. The reader closes the number, another
part of the program is given it, and the writer writes into that file. -/
theorem foreign_file_written :
    ¬ ∀ (labels : List Label) (first last : State), machine.initial first →
      machine.run first labels = some last → Disciplined last := by
  intro always
  have disciplined := always [.enable, .open 3 true true, .addWork true, .test .writer, .prompt,
    .test .reader, .call .reader, .transfer .reader 0 false, .close .reader, .acquire 3,
    .call .writer, .transfer .writer 8 false] _ _ ⟨false, 0, fun _ => none, rfl⟩ rfl
  have serial := (disciplined.target ⟨.writer, .transfer, 3, some .foreign⟩
    (List.mem_append_right _ List.mem_cons_self) rfl).2
  cases serial

end SysServer.Serial
