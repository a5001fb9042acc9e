import SysServer.Library.Census
import SysServer.Library.Fifo
import SysServer.Library.Machine

/-!
# The schedule list under its semaphores

`task_schedule_add` waits on `tasksem_empty`, appends under `taskschlock` and posts
`tasksem_full`; `task_schedule_acquire` waits on `tasksem_full`, takes the first entry under the
lock and posts `tasksem_empty`. Every semaphore operation and every critical section is a step of
its own, for any number of adding workers and the one scheduler thread. No two of the four
counts involved agree between steps; `Balanced` is the pair of equations that always holds.

`sem_wait` is modelled as a wait that ends with the semaphore decremented: the program installs
no signal handler, so `EINTR` does not occur.
-/

namespace SysServer.Schedule

open Library Function

/-- `ELEXSMRT_TASK_MAXNUM`. -/
def elexsmrtTaskMaxnum : ℕ := 2048

/-- Where a worker stands in `task_schedule_add`. -/
inductive AddPhase (τ : Type*) where
  /-- Not inside the function. -/
  | outside
  /-- At `sem_wait(&tasksem_empty)`. -/
  | waiting (task : τ)
  /-- Past the wait, before the insertion. -/
  | slotted (task : τ)
  /-- Past the insertion, before `sem_post(&tasksem_full)`. -/
  | inserted

/-- Where the scheduler thread stands. -/
inductive TakePhase (τ : Type*) where
  /-- At `sem_wait(&tasksem_full)`. -/
  | waiting
  /-- Past the wait, before the critical section. -/
  | granted
  /-- Past the removal, before `sem_post(&tasksem_empty)`. -/
  | removed (task : τ)
  /-- `task_schedule_acquire` has returned the task. -/
  | returned (task : τ)

/-- The semaphores, the list, both sides of the queue, and the histories of what entered and
left the list and of what the scheduler is done with. No step reads a history. -/
structure State (ω τ : Type*) where
  /-- The value of `tasksem_empty`. -/
  tasksemEmpty : ℕ
  /-- The value of `tasksem_full`. -/
  tasksemFull : ℕ
  /-- The schedule list. -/
  tasklist : List τ
  /-- Each worker's place. -/
  adder : ω → AddPhase τ
  /-- The scheduler's place. -/
  taker : TakePhase τ
  /-- Tasks in order of insertion. -/
  inserted : List τ
  /-- Tasks in order of removal. -/
  removed : List τ
  /-- Tasks the scheduler has finished with, in order. -/
  finished : List τ

/-- A step of a worker or of the scheduler. -/
inductive Label (ω τ : Type*) where
  /-- A worker calls `task_schedule_add`. -/
  | call (worker : ω) (task : τ)
  /-- `sem_wait(&tasksem_empty)` returns. -/
  | waitEmpty (worker : ω)
  /-- The insertion under `taskschlock`. -/
  | insert (worker : ω)
  /-- `sem_post(&tasksem_full)`, and the function returns. -/
  | postFull (worker : ω)
  /-- `sem_wait(&tasksem_full)` returns. -/
  | waitFull
  /-- The critical section of `task_schedule_acquire`. -/
  | remove
  /-- `sem_post(&tasksem_empty)`, and the function returns the task. -/
  | postEmpty
  /-- The scheduler is done with the task and calls again. -/
  | finish

variable {ω τ : Type*}

/-- The state that `task_init` leaves, with `capacity` for the first semaphore. -/
def State.start (capacity : ℕ) : State ω τ where
  tasksemEmpty := capacity
  tasksemFull := 0
  tasklist := []
  adder := fun _ => .outside
  taker := .waiting
  inserted := []
  removed := []
  finished := []

/-- One step. A wait is not enabled while its semaphore is zero; the scheduler that finds the
list empty returns null and calls again. -/
def step [DecidableEq ω] (state : State ω τ) : Label ω τ → Option (State ω τ)
  | .call worker task =>
    match state.adder worker with
    | .outside => some { state with adder := update state.adder worker (.waiting task) }
    | _ => none
  | .waitEmpty worker =>
    match state.adder worker, state.tasksemEmpty with
    | .waiting task, free + 1 =>
      some { state with
        tasksemEmpty := free
        adder := update state.adder worker (.slotted task) }
    | _, _ => none
  | .insert worker =>
    match state.adder worker with
    | .slotted task =>
      some { state with
        tasklist := Fifo.push state.tasklist task
        inserted := Fifo.push state.inserted task
        adder := update state.adder worker .inserted }
    | _ => none
  | .postFull worker =>
    match state.adder worker with
    | .inserted =>
      some { state with
        tasksemFull := state.tasksemFull + 1
        adder := update state.adder worker .outside }
    | _ => none
  | .waitFull =>
    match state.taker, state.tasksemFull with
    | .waiting, ready + 1 => some { state with tasksemFull := ready, taker := .granted }
    | _, _ => none
  | .remove =>
    match state.taker with
    | .granted =>
      match Fifo.pop state.tasklist with
      | none => some { state with taker := .waiting }
      | some (task, rest) =>
        some { state with
          tasklist := rest
          removed := Fifo.push state.removed task
          taker := .removed task }
    | _ => none
  | .postEmpty =>
    match state.taker with
    | .removed task =>
      some { state with tasksemEmpty := state.tasksemEmpty + 1, taker := .returned task }
    | _ => none
  | .finish =>
    match state.taker with
    | .returned task =>
      some { state with finished := Fifo.push state.finished task, taker := .waiting }
    | _ => none

/-- The schedule list of a given capacity. -/
def machine [DecidableEq ω] (capacity : ℕ) : Machine (State ω τ) (Label ω τ) where
  initial state := state = .start capacity
  step := step

/-- Everything a step can do. -/
inductive Moves [DecidableEq ω] (state : State ω τ) : Label ω τ → State ω τ → Prop where
  /-- A call of `task_schedule_add`. -/
  | call {worker : ω} {task : τ} (place : state.adder worker = .outside) :
    Moves state (.call worker task)
      { state with adder := update state.adder worker (.waiting task) }
  /-- A slot is taken. -/
  | waitEmpty {worker : ω} {task : τ} {free : ℕ} (place : state.adder worker = .waiting task)
    (count : state.tasksemEmpty = free + 1) :
    Moves state (.waitEmpty worker)
      { state with
        tasksemEmpty := free
        adder := update state.adder worker (.slotted task) }
  /-- The task is appended. -/
  | insert {worker : ω} {task : τ} (place : state.adder worker = .slotted task) :
    Moves state (.insert worker)
      { state with
        tasklist := Fifo.push state.tasklist task
        inserted := Fifo.push state.inserted task
        adder := update state.adder worker .inserted }
  /-- The insertion is announced. -/
  | postFull {worker : ω} (place : state.adder worker = .inserted) :
    Moves state (.postFull worker)
      { state with
        tasksemFull := state.tasksemFull + 1
        adder := update state.adder worker .outside }
  /-- An announcement is taken. -/
  | waitFull {ready : ℕ} (place : state.taker = .waiting)
    (count : state.tasksemFull = ready + 1) :
    Moves state .waitFull { state with tasksemFull := ready, taker := .granted }
  /-- The list was empty after all. -/
  | miss (place : state.taker = .granted) (empty : state.tasklist = []) :
    Moves state .remove { state with taker := .waiting }
  /-- The first task is taken. -/
  | remove {task : τ} {rest : List τ} (place : state.taker = .granted)
    (front : state.tasklist = task :: rest) :
    Moves state .remove
      { state with
        tasklist := rest
        removed := Fifo.push state.removed task
        taker := .removed task }
  /-- The slot is given back. -/
  | postEmpty {task : τ} (place : state.taker = .removed task) :
    Moves state .postEmpty
      { state with tasksemEmpty := state.tasksemEmpty + 1, taker := .returned task }
  /-- The scheduler turns to the next task. -/
  | finish {task : τ} (place : state.taker = .returned task) :
    Moves state .finish
      { state with finished := Fifo.push state.finished task, taker := .waiting }

/-- A step is one of the moves. -/
theorem step_moves [DecidableEq ω] {state next : State ω τ} {label : Label ω τ}
    (stepped : step state label = some next) : Moves state label next := by
  cases label with
  | call worker task =>
    simp only [step] at stepped
    split at stepped
    · rename_i place
      exact Option.some.inj stepped ▸ .call place
    · cases stepped
  | waitEmpty worker =>
    simp only [step] at stepped
    split at stepped
    · rename_i place count
      exact Option.some.inj stepped ▸ .waitEmpty place count
    · cases stepped
  | insert worker =>
    simp only [step] at stepped
    split at stepped
    · rename_i place
      exact Option.some.inj stepped ▸ .insert place
    · cases stepped
  | postFull worker =>
    simp only [step] at stepped
    split at stepped
    · rename_i place
      exact Option.some.inj stepped ▸ .postFull place
    · cases stepped
  | waitFull =>
    simp only [step] at stepped
    split at stepped
    · rename_i place count
      exact Option.some.inj stepped ▸ .waitFull place count
    · cases stepped
  | remove =>
    simp only [step] at stepped
    split at stepped
    · rename_i place
      split at stepped
      · rename_i taken
        exact Option.some.inj stepped ▸ .miss place (Fifo.pop_eq_none.mp taken)
      · rename_i taken
        exact Option.some.inj stepped ▸ .remove place (Fifo.pop_eq_some.mp taken)
    · cases stepped
  | postEmpty =>
    simp only [step] at stepped
    split at stepped
    · rename_i place
      exact Option.some.inj stepped ▸ .postEmpty place
    · cases stepped
  | finish =>
    simp only [step] at stepped
    split at stepped
    · rename_i place
      exact Option.some.inj stepped ▸ .finish place
    · cases stepped

/-- Every move is a step. -/
theorem Moves.step [DecidableEq ω] {state next : State ω τ} {label : Label ω τ}
    (moves : Moves state label next) : step state label = some next := by
  cases moves <;> simp_all [Schedule.step, Fifo.pop]

/-! ## The accounting invariant -/

/-- One for a worker that holds a slot it has not filled. -/
def AddPhase.slots : AddPhase τ → ℕ
  | .slotted _ => 1
  | _ => 0

/-- One for a worker that has filled a slot and not announced it. -/
def AddPhase.posts : AddPhase τ → ℕ
  | .inserted => 1
  | _ => 0

/-- One for the scheduler that holds an announcement it has not acted on. -/
def TakePhase.grants : TakePhase τ → ℕ
  | .granted => 1
  | _ => 0

/-- One for the scheduler that has emptied a slot and not given it back. -/
def TakePhase.owes : TakePhase τ → ℕ
  | .removed _ => 1
  | _ => 0

variable [Fintype ω]

/-- Both semaphores against the list: every slot is free, promised, filled or owed, and every
filled slot is announced, about to be announced, or being taken. -/
structure Balanced (capacity : ℕ) (state : State ω τ) : Prop where
  /-- The slots. -/
  slots : state.tasklist.length + state.tasksemEmpty + tally AddPhase.slots state.adder +
    state.taker.owes = capacity
  /-- The announcements. -/
  announced : state.tasksemFull + tally AddPhase.posts state.adder + state.taker.grants =
    state.tasklist.length

variable [DecidableEq ω]

/-- Every step keeps both equations. -/
theorem Balanced.moves {capacity : ℕ} {state next : State ω τ} {label : Label ω τ}
    (balanced : Balanced capacity state) (moves : Moves state label next) :
    Balanced capacity next := by
  obtain ⟨slots, announced⟩ := balanced
  cases moves with
  | @call worker task place =>
    constructor
    · rwa [tally_update_same (by rw [place]; rfl)]
    · rwa [tally_update_same (by rw [place]; rfl)]
  | @waitEmpty worker task free place count =>
    have gain := tally_update_gain AddPhase.slots state.adder worker (.slotted task)
      (by rw [place]; rfl)
    constructor
    · simp only [AddPhase.slots] at gain ⊢
      omega
    · rwa [tally_update_same (by rw [place]; rfl)]
  | @insert worker task place =>
    have drop := tally_update_drop AddPhase.slots state.adder worker .inserted rfl
    have gain := tally_update_gain AddPhase.posts state.adder worker .inserted (by rw [place]; rfl)
    simp only [place, AddPhase.slots, AddPhase.posts] at drop gain
    constructor <;> simp only [Fifo.push, List.length_append, List.length_singleton] <;> omega
  | @postFull worker place =>
    have drop := tally_update_drop AddPhase.posts state.adder worker .outside rfl
    simp only [place, AddPhase.posts] at drop
    refine ⟨?_, by simp only; omega⟩
    rwa [tally_update_same (by rw [place]; rfl)]
  | waitFull place count =>
    simp only [place, TakePhase.owes, TakePhase.grants] at slots announced
    constructor <;> simp only [TakePhase.owes, TakePhase.grants] <;> omega
  | miss place empty =>
    -- An announcement is held, so the list is not empty: this exit is never taken.
    simp only [place, empty, TakePhase.grants, List.length_nil] at announced
    omega
  | remove place front =>
    simp only [place, front, TakePhase.owes, TakePhase.grants, List.length_cons] at slots announced
    constructor <;> simp only [TakePhase.owes, TakePhase.grants] <;> omega
  | postEmpty place =>
    simp only [place, TakePhase.owes, TakePhase.grants] at slots announced
    constructor <;> simp only [TakePhase.owes, TakePhase.grants] <;> omega
  | finish place =>
    simp only [place, TakePhase.owes, TakePhase.grants] at slots announced
    constructor <;> simp only [TakePhase.owes, TakePhase.grants] <;> omega

/-- Both equations hold in every reachable state. -/
theorem balanced_reachable {capacity : ℕ} {state : State ω τ}
    (reached : (machine capacity).Reachable state) : Balanced capacity state := by
  refine Machine.Reachable.invariant _ (Balanced capacity) ?_ ?_ reached
  · rintro _ rfl
    have slots : tally AddPhase.slots (fun _ : ω => (.outside : AddPhase τ)) = 0 :=
      tally_eq_zero fun _ => rfl
    have posts : tally AddPhase.posts (fun _ : ω => (.outside : AddPhase τ)) = 0 :=
      tally_eq_zero fun _ => rfl
    constructor <;> simp [State.start, slots, posts, TakePhase.owes, TakePhase.grants]
  · exact fun _ _ _ balanced stepped => balanced.moves (step_moves stepped)

/-- Every worker inside `task_schedule_add` is blocked on `tasksem_empty` and the scheduler is
blocked on `tasksem_full`. -/
def Deadlocked (state : State ω τ) : Prop :=
  (∀ worker, state.adder worker = .outside ∨ ∃ task, state.adder worker = .waiting task) ∧
    state.tasksemEmpty = 0 ∧ state.taker = .waiting ∧ state.tasksemFull = 0

omit [DecidableEq ω] in
/-- Workers that are outside or wait for a slot weigh nothing when neither place does. -/
theorem tally_blocked {adder : ω → AddPhase τ}
    (blocked : ∀ worker, adder worker = .outside ∨ ∃ task, adder worker = .waiting task)
    (weight : AddPhase τ → ℕ) (outside : weight .outside = 0)
    (waiting : ∀ task, weight (.waiting task) = 0) : tally weight adder = 0 := by
  apply tally_eq_zero
  intro worker
  rcases blocked worker with place | ⟨task, place⟩
  · rw [place]
    exact outside
  · rw [place]
    exact waiting task

/-- **The schedule list is a bounded buffer.** For every positive capacity, every number of
workers and every interleaving: the slots always add up to the capacity, the list never holds
more, the scheduler never finds the list empty, and the two sides never block each other. -/
theorem taskSchedule_bounded {capacity : ℕ} (positive : 0 < capacity) {state : State ω τ}
    (reached : (machine capacity).Reachable state) :
    state.tasklist.length + state.tasksemEmpty + tally AddPhase.slots state.adder +
        state.taker.owes = capacity ∧
      state.tasklist.length ≤ capacity ∧
      (state.taker = .granted → state.tasklist ≠ []) ∧
      ¬ Deadlocked state := by
  obtain ⟨slots, announced⟩ := balanced_reachable reached
  refine ⟨slots, by omega, ?_, ?_⟩
  · intro place empty
    simp only [place, empty, TakePhase.grants, List.length_nil] at announced
    omega
  · rintro ⟨blocked, noSlot, place, noTask⟩
    have unfilled := tally_blocked blocked AddPhase.slots rfl fun _ => rfl
    have unannounced := tally_blocked blocked AddPhase.posts rfl fun _ => rfl
    simp only [place, TakePhase.owes, TakePhase.grants] at slots announced
    omega

/-- With one slot, a second worker waits until the scheduler has taken the first task and given
its slot back. -/
theorem taskSchedule_bounded_run :
    ∃ state : State (Fin 2) ℕ, state.tasksemEmpty = 0 ∧ state.tasklist = [8] ∧
      (state.tasklist.length + state.tasksemEmpty + tally AddPhase.slots state.adder +
          state.taker.owes = 1 ∧
        state.tasklist.length ≤ 1 ∧
        (state.taker = .granted → state.tasklist ≠ []) ∧
        ¬ Deadlocked state) :=
  ⟨_, rfl, rfl, taskSchedule_bounded (by decide) ⟨_, [.call 0 7, .call 1 8, .waitEmpty 0,
    .insert 0, .postFull 0, .waitFull, .remove, .postEmpty, .waitEmpty 1, .insert 1], rfl, rfl⟩⟩

/-! ## Order and custody -/

/-- The task a scheduler phase holds. -/
def TakePhase.tasks : TakePhase τ → List τ
  | .removed task | .returned task => [task]
  | _ => []

omit [Fintype ω] in
/-- What left the list is what entered it first, and what is finished is what left it first. -/
theorem histories_moves {state next : State ω τ} {label : Label ω τ}
    (entered : state.inserted = state.removed ++ state.tasklist)
    (left : state.removed = state.finished ++ state.taker.tasks)
    (moves : Moves state label next) :
    next.inserted = next.removed ++ next.tasklist ∧
      next.removed = next.finished ++ next.taker.tasks := by
  cases moves with
  | insert place => exact ⟨Fifo.history_push _ entered, left⟩
  | remove place front =>
    simp only [place, TakePhase.tasks, List.append_nil] at left
    exact ⟨by simp [entered, front, Fifo.push], by simp [left, TakePhase.tasks, Fifo.push]⟩
  | miss place empty => exact ⟨entered, by simpa [place, TakePhase.tasks] using left⟩
  | waitFull place count => exact ⟨entered, by simpa [place, TakePhase.tasks] using left⟩
  | postEmpty place => exact ⟨entered, by simpa [place, TakePhase.tasks] using left⟩
  | finish place =>
    exact ⟨entered, by simpa [place, TakePhase.tasks, Fifo.push] using left⟩
  | _ => exact ⟨entered, left⟩

omit [Fintype ω] in
/-- The order of insertion is the order of removal and of the scheduler's work. -/
theorem histories_reachable {capacity : ℕ} {state : State ω τ}
    (reached : (machine capacity).Reachable state) :
    state.inserted = state.removed ++ state.tasklist ∧
      state.removed = state.finished ++ state.taker.tasks := by
  refine Machine.Reachable.invariant _ (fun state : State ω τ =>
    state.inserted = state.removed ++ state.tasklist ∧
      state.removed = state.finished ++ state.taker.tasks) ?_ ?_ reached
  · rintro _ rfl
    exact ⟨rfl, rfl⟩
  · exact fun _ _ _ held stepped => histories_moves held.1 held.2 (step_moves stepped)

/-- The tasks a worker holds inside `task_schedule_add`. -/
def AddPhase.tasks : AddPhase τ → Multiset τ
  | .waiting task | .slotted task => {task}
  | _ => 0

/-- The task that a step brings in. -/
def Label.enters : Label ω τ → Multiset τ
  | .call _ task => {task}
  | _ => 0

/-- A task brought in is held by its worker until it is inserted, and never twice. -/
theorem custody_moves {state next : State ω τ} {label : Label ω τ}
    (moves : Moves state label next) :
    tally AddPhase.tasks next.adder + (next.inserted : Multiset τ) =
      tally AddPhase.tasks state.adder + (state.inserted : Multiset τ) + label.enters := by
  cases moves with
  | @call worker task place =>
    rw [tally_update_gain _ _ _ _ (by rw [place]; rfl), add_right_comm]
    rfl
  | @waitEmpty worker task free place count =>
    rw [tally_update_same (by rw [place]; rfl)]
    exact (add_zero _).symm
  | @insert worker task place =>
    have drop := tally_update_drop AddPhase.tasks state.adder worker .inserted rfl
    have entered : (Fifo.push state.inserted task : Multiset τ) = state.inserted + {task} :=
      (Multiset.coe_add _ _).symm
    rw [place] at drop
    simp only [entered, ← drop, Label.enters, AddPhase.tasks, add_zero]
    rw [← add_assoc, add_right_comm]
  | @postFull worker place =>
    rw [tally_update_same (by rw [place]; rfl)]
    exact (add_zero _).symm
  | _ => exact (add_zero _).symm

end SysServer.Schedule
