import SysServer.Library.Fair
import SysServer.Task.Settling

/-!
# No acquired command starves

In an endless run the serial line may go on sending for ever, so the pipeline need not come to
rest, and a worker at `tasksem_empty` may find every slot taken by another. Where the workers in
their jobs and the scheduler are treated fairly, a slot becomes free again and again (`frees`), the
scheduler comes to every entry of the schedule list (`leaves`), and so every command that a worker
has acquired is executed (`acquired_leads`).
-/

namespace SysServer.Pipeline

open Library Function Machine

variable {ω : Type*}

/-- The step is one of the scheduler. -/
def Label.schedules : Label ω → Bool
  | .schedule .waitFull | .schedule .remove | .schedule .postEmpty | .excute | .recycle => true
  | _ => false

/-- The worker whose step in its job it is. -/
def Label.worker : Label ω → Option ω
  | .taskMalloc worker _ | .acquire worker | .schedule (.waitEmpty worker)
  | .schedule (.insert worker) | .schedule (.postFull worker) => some worker
  | _ => none

/-- The steps of the scheduler up to its next removal, with those of a worker that announces. -/
def State.ahead (state : State ω) : ℕ :=
  match state.schedule.taker with
  | .removed _ => 5
  | .returned _ => if state.recycling then 3 else 4
  | .waiting => if state.schedule.tasksemFull = 0 then 2 else 1
  | .granted => 0

variable [DecidableEq ω] {state next : State ω} {label : Label ω} {worker : ω} {count : ℕ}

/-! ## What a step does -/

/-- A worker in `task_schedule_add` moves by its own steps only. -/
theorem adder_frame (moves : Moves state label next) (other : label.worker ≠ some worker) :
    next.schedule.adder worker = state.schedule.adder worker := by
  have apart {actor : ω} (actors : label.worker = some actor) : worker ≠ actor := by
    rintro rfl
    exact other actors
  cases moves with
  | acquire place front inner =>
    cases inner with
    | call outside => exact update_of_ne (apart rfl) ..
  | schedule inside inner =>
    cases inner with
    | call | finish => cases inside
    | waitEmpty place count => exact update_of_ne (apart rfl) ..
    | insert place | postFull place => exact update_of_ne (apart rfl) ..
    | _ => rfl
  | recycle place printed inner =>
    obtain rfl := finish_moves place inner
    rfl
  | _ => rfl

/-- What a worker does in `task_schedule_add`. -/
inductive Adds (state next : State ω) (worker : ω) : Prop where
  /-- It takes a slot. -/
  | waitEmpty {task : TaskNode} (place : state.schedule.adder worker = .waiting task)
    (moved : next.schedule.adder worker = .slotted task)
  /-- It inserts its task. -/
  | insert {task : TaskNode} (place : state.schedule.adder worker = .slotted task)
    (moved : next.schedule.adder worker = .inserted)
    (entered : next.schedule.inserted = state.schedule.inserted ++ [task])
    (listed : next.schedule.tasklist = state.schedule.tasklist ++ [task])
  /-- It announces its task and returns. -/
  | postFull (place : state.schedule.adder worker = .inserted)
    (moved : next.schedule.adder worker = .outside)
    (announced : next.schedule.tasksemFull ≠ 0)

/-- A worker inside `task_schedule_add` takes a step there. -/
theorem adds_moves (seated : Seated state) (busy : state.schedule.adder worker ≠ .outside)
    (own : label.worker = some worker) (moves : Moves state label next) :
    Adds state next worker := by
  have idle := (seated worker).resolve_right busy
  cases moves with
  | taskDrop place | taskMalloc place | acquireNone place | acquire place =>
    obtain rfl := Option.some.inj own
    rw [idle] at place
    cases place
  | schedule inside inner =>
    cases inner with
    | waitEmpty place count =>
      obtain rfl := Option.some.inj own
      exact .waitEmpty place (update_self ..)
    | insert place =>
      obtain rfl := Option.some.inj own
      exact .insert place (update_self ..) rfl rfl
    | postFull place =>
      obtain rfl := Option.some.inj own
      exact .postFull place (update_self ..) (Nat.succ_ne_zero _)
    | _ => cases own
  | _ => cases own

/-- The schedule list is not empty, and so many entries were removed from it. -/
def Filled (count : ℕ) (state : State ω) : Prop :=
  state.schedule.tasklist ≠ [] ∧ state.schedule.removed.length = count

/-- The scheduler has just removed the next entry after so many. -/
def Removed (count : ℕ) (state : State ω) : Prop :=
  (∃ task, state.schedule.taker = .removed task) ∧ state.schedule.removed.length = count + 1

/-- As long as the schedule list is not empty, the scheduler comes nearer to its next removal. -/
theorem ahead_moves (filled : Filled count state) (moves : Moves state label next) :
    Removed count next ∨ Filled count next ∧ next.ahead ≤ state.ahead ∧
      (label.schedules = true → next.ahead < state.ahead) := by
  cases moves with
  | acquire place front inner =>
    cases inner with
    | call outside => exact .inr ⟨filled, Nat.le_refl _, by simp [Label.schedules]⟩
  | schedule inside inner =>
    cases inner with
    | call | finish => cases inside
    | waitEmpty place count => exact .inr ⟨filled, Nat.le_refl _, by simp [Label.schedules]⟩
    | insert place =>
      exact .inr ⟨⟨by simp [Fifo.push], filled.2⟩, Nat.le_refl _,
        by simp [Label.schedules]⟩
    | postFull place =>
      refine .inr ⟨filled, ?_, by simp [Label.schedules]⟩
      simp only [State.ahead]
      split
      · simp
      · simp
      · simp only [Nat.add_eq_zero_iff, one_ne_zero, and_false, ↓reduceIte]
        split <;> simp
      · simp
    | waitFull place ready =>
      refine .inr ⟨filled, ?_⟩
      simp [State.ahead, place, ready]
    | miss place empty => exact absurd empty filled.1
    | remove place front =>
      exact .inl ⟨⟨_, rfl⟩, List.length_append.trans (congrArg (· + 1) filled.2)⟩
    | postEmpty place =>
      refine .inr ⟨filled, ?_⟩
      simp only [State.ahead, place]
      split <;> simp
  | excute place fresh =>
    refine .inr ⟨filled, ?_⟩
    simp [State.ahead, place, fresh]
  | recycle place printed inner =>
    obtain rfl := finish_moves place inner
    refine .inr ⟨filled, ?_⟩
    simp only [State.ahead, place, printed]
    split <;> simp
  | _ => exact .inr ⟨filled, Nat.le_refl _, by simp [Label.schedules]⟩

/-! ## The scheduler and the slots -/

/-- The workers in their jobs and the scheduler are treated fairly. -/
structure Fairly (run : (machine (ω := ω)).Endless) : Prop where
  /-- Each worker in its job. -/
  jobs : ∀ worker, run.Fair fun _ label => label.worker = some worker
  /-- The scheduler. -/
  scheduler : run.Fair fun _ label => label.schedules = true

omit [DecidableEq ω] in
/-- The scheduler waits for an announcement. -/
theorem ahead_eq_two :
    state.ahead = 2 ↔ state.schedule.taker = .waiting ∧ state.schedule.tasksemFull = 0 := by
  simp only [State.ahead]
  split
  · rename_i place
    simp [place]
  · rename_i place
    split <;> simp [place]
  · rename_i place
    split
    · rename_i empty
      simp [place, empty]
    · rename_i ready
      simp [place, ready]
  · rename_i place
    simp [place]

/-- The scheduler can move, unless it waits for an announcement. -/
theorem able_schedules (waits : state.ahead ≠ 2) :
    machine.Able (fun _ label => label.schedules = true) state := by
  cases place : state.schedule.taker with
  | waiting =>
    obtain ⟨ready, count⟩ : ∃ ready, state.schedule.tasksemFull = ready + 1 := by
      exact Nat.exists_eq_succ_of_ne_zero fun zero => waits (ahead_eq_two.mpr ⟨place, zero⟩)
    exact ⟨.schedule .waitFull, rfl, by simp [machine, step, internal, Schedule.step, place, count]⟩
  | granted =>
    refine ⟨.schedule .remove, rfl, ?_⟩
    cases taken : Fifo.pop state.schedule.tasklist <;>
      simp [machine, step, internal, Schedule.step, place, taken]
  | removed task =>
    exact ⟨.schedule .postEmpty, rfl, by simp [machine, step, internal, Schedule.step, place]⟩
  | returned task =>
    cases recycling : state.recycling with
    | false => exact ⟨.excute, rfl, by simp [machine, step, place, recycling]⟩
    | true => exact ⟨.recycle, rfl, by simp [machine, step, Schedule.step, place, recycling]⟩

/-- A worker past its slot can move. -/
theorem able_worker (busy : state.schedule.adder worker ≠ .outside)
    (slot : ∀ task, state.schedule.adder worker = .waiting task → 0 < state.schedule.tasksemEmpty) :
    machine.Able (fun _ label => label.worker = some worker) state := by
  cases place : state.schedule.adder worker with
  | outside => exact absurd place busy
  | waiting task =>
    obtain ⟨free, count⟩ := Nat.exists_eq_succ_of_ne_zero (slot task place).ne'
    exact ⟨.schedule (.waitEmpty worker), rfl,
      by simp [machine, step, internal, Schedule.step, place, count]⟩
  | slotted task =>
    exact ⟨.schedule (.insert worker), rfl,
      by simp [machine, step, internal, Schedule.step, place]⟩
  | inserted =>
    exact ⟨.schedule (.postFull worker), rfl,
      by simp [machine, step, internal, Schedule.step, place]⟩

variable [Fintype ω] {run : (machine (ω := ω)).Endless}

/-- The semaphores fit the schedule list. -/
theorem balanced (reached : machine.Reachable state) :
    Schedule.Balanced Schedule.elexsmrtTaskMaxnum state.schedule :=
  Schedule.balanced_reachable (follows_schedule.reachable reached)

/-- Where the scheduler waits for an announcement of a filled list, some worker is at it. -/
theorem announces (reached : machine.Reachable state) (filled : state.schedule.tasklist ≠ [])
    (waits : state.ahead = 2) : ∃ worker, state.schedule.adder worker = .inserted := by
  have announced := (balanced reached).announced
  have length := List.length_pos_iff.mpr filled
  by_contra nobody
  push Not at nobody
  have posts : tally Schedule.AddPhase.posts state.schedule.adder = 0 := by
    refine tally_eq_zero fun worker => ?_
    cases place : state.schedule.adder worker with
    | inserted => exact absurd place (nobody worker)
    | _ => rfl
  obtain ⟨place, empty⟩ := ahead_eq_two.mp waits
  rw [posts, empty, place] at announced
  simp only [Schedule.TakePhase.grants] at announced
  omega

/-- From a filled schedule list the scheduler removes an entry. -/
theorem removes (fairly : Fairly run) (count : ℕ) : run.Leads (Filled count) (Removed count) := by
  refine .of_rank State.ahead fun height => ?_
  have stays {state next : State ω} {label : Label ω}
      (held : Filled count state ∧ state.ahead = height) (moves : Moves state label next) :
      (¬ label.schedules = true ∧ Filled count next ∧ next.ahead = height) ∨
        (Removed count next ∨ Filled count next ∧ next.ahead < height) := by
    rcases ahead_moves held.1 moves with removed | ⟨filled, nearer, less⟩
    · exact .inr (.inl removed)
    · rw [held.2] at nearer less
      rcases Nat.lt_or_eq_of_le nearer with less | same
      · exact .inr (.inr ⟨filled, less⟩)
      · exact .inl ⟨fun own => Nat.ne_of_lt (less own) same, filled, same⟩
  by_cases waits : height = 2
  · -- A worker that is at its announcement helps.
    have leads (worker : ω) : run.Leads
        (fun state => (Filled count state ∧ state.ahead = height) ∧
          state.schedule.adder worker = .inserted)
        (fun state => Removed count state ∨ Filled count state ∧ state.ahead < height) := by
      refine .of_able (fairly.jobs worker) (fun state label next reached held stepped => ?_)
        fun _ _ held => able_worker (by simp [held.2]) (by simp [held.2])
      have moves := step_moves stepped
      by_cases own : label.worker = some worker
      · have busy : state.schedule.adder worker ≠ .outside := by simp [held.2]
        cases adds_moves (seated_reachable reached) busy own moves with
        | postFull place moved announced =>
          refine .inr ((stays held.1 moves).resolve_left fun same => announced ?_)
          exact (ahead_eq_two.mp (same.2.2.trans waits)).2
        | waitEmpty place | insert place => simp [held.2] at place
      · exact (stays held.1 moves).imp_left fun same =>
          ⟨own, same.2, (adder_frame moves own).trans held.2⟩
    intro moment held
    obtain ⟨worker, place⟩ := announces (run.reachable moment) held.1.1 (held.2.trans waits)
    exact leads worker moment ⟨held, place⟩
  · exact .of_able fairly.scheduler (fun _ _ _ _ held stepped => stays held (step_moves stepped))
      fun _ _ held => able_schedules (held.2 ▸ waits)

omit [Fintype ω] in
/-- The scheduler gives back the slot of the task that it has removed. -/
theorem gives (fairly : Fairly run) (task : TaskNode) :
    run.Leads (fun state => state.schedule.taker = .removed task)
      (fun state => state.schedule.taker = .returned task ∧ 0 < state.schedule.tasksemEmpty) := by
  refine .of_able fairly.scheduler (fun state label next _ place stepped => ?_)
    fun _ _ place => able_schedules (by simp [State.ahead, place])
  cases step_moves stepped with
  | acquire _ _ inner =>
    cases inner with
    | call outside => exact .inl ⟨Bool.false_ne_true, place⟩
  | schedule inside inner =>
    cases inner with
    | call | finish => cases inside
    | waitEmpty | insert | postFull => exact .inl ⟨Bool.false_ne_true, place⟩
    | waitFull other | miss other | remove other => simp [place] at other
    | postEmpty held =>
      obtain rfl := Schedule.TakePhase.removed.inj (place.symm.trans held)
      exact .inr ⟨rfl, Nat.succ_pos _⟩
  | excute other | recycle other => simp [place] at other
  | _ => exact .inl ⟨Bool.false_ne_true, place⟩

omit [Fintype ω] in
/-- A worker with a slot fills it. -/
theorem enters (fairly : Fairly run) (worker : ω) (task : TaskNode) :
    run.Leads (fun state => state.schedule.adder worker = .slotted task)
      (fun state => state.schedule.adder worker = .inserted ∧ task ∈ state.schedule.inserted ∧
        state.schedule.tasklist ≠ []) := by
  refine .of_able (fairly.jobs worker) (fun state label next reached place stepped => ?_)
    fun _ _ place => able_worker (by simp [place]) (by simp [place])
  have moves := step_moves stepped
  by_cases own : label.worker = some worker
  · cases adds_moves (seated_reachable reached) (by simp [place]) own moves with
    | insert held moved entered listed =>
      obtain rfl := Schedule.AddPhase.slotted.inj (place.symm.trans held)
      exact .inr ⟨moved, by simp [entered], by simp [listed]⟩
    | waitEmpty other | postFull other => simp [place] at other
  · exact .inl ⟨own, (adder_frame moves own).trans place⟩

/-- A slot becomes free again and again. -/
theorem frees (fairly : Fairly run) :
    run.Leads (fun _ => True) (fun state => 0 < state.schedule.tasksemEmpty) := by
  have removed : run.Leads (fun state => ∃ task, state.schedule.taker = .removed task)
      (fun state => 0 < state.schedule.tasksemEmpty) :=
    .of_exists fun task => (gives fairly task).imp fun _ => And.right
  have filled : run.Leads (fun state => state.schedule.tasklist ≠ [])
      (fun state => 0 < state.schedule.tasksemEmpty) := fun moment held =>
    ((removes fairly _).imp fun _ => And.left).trans removed moment ⟨held, rfl⟩
  have slotted : run.Leads (fun state => ∃ worker task, state.schedule.adder worker = .slotted task)
      (fun state => 0 < state.schedule.tasksemEmpty) :=
    .of_exists fun worker => .of_exists fun task =>
      ((enters fairly worker task).imp fun _ held => held.2.2).trans filled
  intro moment _
  have slots := (balanced (run.reachable moment)).slots
  by_contra never
  have used : (run.state moment).schedule.tasksemEmpty = 0 := by
    by_contra free
    exact never ⟨moment, Nat.le_refl _, Nat.pos_of_ne_zero free⟩
  -- Then the slot is owed, filled or promised.
  have owed : (run.state moment).schedule.taker.owes = 0 := by
    cases place : (run.state moment).schedule.taker with
    | removed task => exact absurd (removed moment ⟨task, place⟩) never
    | _ => rfl
  have empty : (run.state moment).schedule.tasklist = [] := by
    by_contra held
    exact never (filled moment held)
  have promised : tally Schedule.AddPhase.slots (run.state moment).schedule.adder = 0 := by
    refine tally_eq_zero fun worker => ?_
    cases place : (run.state moment).schedule.adder worker with
    | slotted task => exact absurd (slotted moment ⟨worker, task, place⟩) never
    | _ => rfl
  rw [used, owed, empty, promised] at slots
  cases slots

/-- A worker that waits for a slot gets one. -/
theorem gets (fairly : Fairly run) (worker : ω) (task : TaskNode) :
    run.Leads (fun state => state.schedule.adder worker = .waiting task)
      (fun state => state.schedule.adder worker = .slotted task) := by
  refine .of_fair (fairly.jobs worker) (fun state label next reached place stepped => ?_)
    (fun moment => ?_)
  · have moves := step_moves stepped
    by_cases own : label.worker = some worker
    · cases adds_moves (seated_reachable reached) (by simp [place]) own moves with
      | waitEmpty held moved =>
        obtain rfl := Schedule.AddPhase.waiting.inj (place.symm.trans held)
        exact .inr moved
      | insert other | postFull other => simp [place] at other
    · exact .inl ⟨own, (adder_frame moves own).trans place⟩
  · obtain ⟨later, order, free⟩ := frees fairly moment trivial
    exact ⟨later, order, fun place => able_worker (by simp [place]) fun _ _ => free⟩

/-! ## What becomes of a command -/

omit [Fintype ω] in
/-- The order of insertion is final. -/
theorem inserted_moves {index : ℕ} {task : TaskNode} (moves : Moves state label next)
    (entered : state.schedule.inserted[index]? = some task) :
    next.schedule.inserted[index]? = some task := by
  cases moves with
  | acquire place front inner =>
    cases inner with
    | call outside => exact entered
  | schedule inside inner =>
    cases inner with
    | insert place =>
      have inside := (List.getElem?_eq_some_iff.mp entered).1
      exact (List.getElem?_append_left inside).trans entered
    | _ => exact entered
  | recycle place printed inner =>
    obtain rfl := finish_moves place inner
    exact entered
  | _ => exact entered

/-- The scheduler comes to every entry of the schedule list. -/
theorem leaves (fairly : Fairly run) (index : ℕ) (task : TaskNode) :
    run.Leads (fun state => state.schedule.inserted[index]? = some task)
      (fun state => task ∈ state.schedule.removed) := by
  refine .of_rank (fun state => index + 1 - state.schedule.removed.length) fun height => ?_
  rintro moment ⟨entered, ahead⟩
  have order := (Schedule.histories_reachable
    (follows_schedule.reachable (run.reachable moment))).1
  by_cases gone : index < (run.state moment).schedule.removed.length
  · rw [order, List.getElem?_append_left gone] at entered
    exact ⟨moment, Nat.le_refl _, .inl (List.mem_of_getElem? entered)⟩
  · have filled : (run.state moment).schedule.tasklist ≠ [] := by
      intro empty
      have inside := (List.getElem?_eq_some_iff.mp entered).1
      simp only [order, empty, List.append_nil] at inside
      exact gone inside
    obtain ⟨later, late, -, removed⟩ := removes fairly _ moment ⟨filled, rfl⟩
    have kept : (run.state later).schedule.inserted[index]? = some task :=
      @Endless.keeps _ _ _ run (fun state => state.schedule.inserted[index]? = some task) _ _
        entered late fun _ _ _ _ held stepped => inserted_moves (step_moves stepped) held
    exact ⟨later, late, .inr ⟨kept, by omega⟩⟩

/-- The scheduler executes the task that it has. -/
theorem excutes (fairly : Fairly run) {task : TaskNode} {command : ℕ}
    (owns : task.taskcom = some command) :
    run.Leads (fun state => state.schedule.taker = .returned task)
      (fun state => command ∈ state.excuted) := by
  refine .of_able fairly.scheduler (fun state label next reached place stepped => ?_)
    fun _ _ place => able_schedules ?_
  · cases step_moves stepped with
    | acquire _ _ inner =>
      cases inner with
      | call outside => exact .inl ⟨Bool.false_ne_true, place⟩
    | schedule inside inner =>
      cases inner with
      | call | finish => cases inside
      | waitEmpty | insert | postFull => exact .inl ⟨Bool.false_ne_true, place⟩
      | waitFull other | miss other | remove other | postEmpty other => simp [place] at other
    | excute held fresh =>
      obtain rfl := Schedule.TakePhase.returned.inj (place.symm.trans held)
      exact .inr (by simp [owns])
    | recycle held printed inner =>
      have excuted := (recorded_reachable reached).printed
      refine .inr ?_
      rw [excuted, commands_append]
      simp [State.printing, printed, place, Schedule.TakePhase.tasks, commands, owns]
    | _ => exact .inl ⟨Bool.false_ne_true, place⟩
  · simp only [State.ahead, place]
    split <;> simp

/-- A task that the scheduler has removed is executed. -/
theorem finishes (fairly : Fairly run) {task : TaskNode} {command : ℕ}
    (owns : task.taskcom = some command) :
    run.Leads (fun state => task ∈ state.schedule.removed)
      (fun state => command ∈ state.excuted) := by
  intro moment inside
  have reached := run.reachable moment
  have order := (Schedule.histories_reachable (follows_schedule.reachable reached)).2
  rw [order, List.mem_append] at inside
  rcases inside with finished | held
  · have done : command ∈ (run.state moment).excuted := by
      rw [(recorded_reachable reached).printed, commands_append, List.mem_append]
      exact .inl (List.mem_filterMap.mpr ⟨task, finished, owns⟩)
    exact ⟨moment, Nat.le_refl _, done⟩
  · cases place : (run.state moment).schedule.taker with
    | removed other =>
      obtain rfl : task = other := by simpa [place, Schedule.TakePhase.tasks] using held
      exact ((gives fairly task).imp fun _ => And.left).trans (excutes fairly owns) moment place
    | returned other =>
      obtain rfl : task = other := by simpa [place, Schedule.TakePhase.tasks] using held
      exact excutes fairly owns moment place
    | _ => simp [place, Schedule.TakePhase.tasks] at held

/-- A task that was inserted is executed. -/
theorem inserted_excuted (fairly : Fairly run) {task : TaskNode} {command : ℕ}
    (owns : task.taskcom = some command) :
    run.Leads (fun state => task ∈ state.schedule.inserted)
      (fun state => command ∈ state.excuted) := by
  intro moment inside
  obtain ⟨index, entered⟩ := List.mem_iff_getElem?.mp inside
  exact (leaves fairly index task).trans (finishes fairly owns) moment entered

/-- An acquired command is executed. -/
theorem acquired_leads (fairly : Fairly run) (command : ℕ) :
    run.Leads (fun state => command ∈ state.acquired) (fun state => command ∈ state.excuted) := by
  intro moment inside
  have carried := (recorded_reachable (run.reachable moment)).carried
  have own : some command ∈ ((run.state moment).acquired : Multiset ℕ).map some :=
    Multiset.mem_map_of_mem _ inside
  rw [← carried] at own
  obtain ⟨task, held, owns⟩ := Multiset.mem_map.mp own
  have slotted (worker : ω) : run.Leads (fun state => state.schedule.adder worker = .slotted task)
      (fun state => command ∈ state.excuted) :=
    ((enters fairly worker task).imp fun _ held => held.2.1).trans (inserted_excuted fairly owns)
  rcases Multiset.mem_add.mp held with adding | entered
  · obtain ⟨worker, mine⟩ := tally_mem.mp adding
    cases place : (run.state moment).schedule.adder worker with
    | waiting other =>
      obtain rfl : task = other := by simpa [place, Schedule.AddPhase.tasks] using mine
      exact (gets fairly worker task).trans (slotted worker) moment place
    | slotted other =>
      obtain rfl : task = other := by simpa [place, Schedule.AddPhase.tasks] using mine
      exact slotted worker moment place
    | _ => simp [place, Schedule.AddPhase.tasks] at mine
  · exact inserted_excuted fairly owns moment entered

/-! ## What becomes of a worker -/

/-- The worker is not in a job. -/
def Home (worker : ω) (state : State ω) : Prop :=
  state.job worker = .idle ∧ state.schedule.adder worker = .outside

omit [Fintype ω] in
/-- A worker in the first half of its job moves by its own steps only. -/
theorem job_frame (moves : Moves state label next) (other : label.worker ≠ some worker)
    (busy : state.job worker ≠ .idle) : next.job worker = state.job worker := by
  have apart {actor : ω} (actors : label.worker = some actor) : worker ≠ actor := by
    rintro rfl
    exact other actors
  cases moves with
  | takeJob idle free count =>
    refine update_of_ne ?_ ..
    rintro rfl
    exact busy idle
  | taskDrop place | taskMalloc place | acquireNone place | acquire place =>
    exact update_of_ne (apart rfl) ..
  | _ => rfl

omit [Fintype ω] in
/-- A worker in the first half of its job comes to the second, or ends it. -/
theorem works_moves (seated : Seated state) (busy : state.job worker ≠ .idle)
    (own : label.worker = some worker) (moves : Moves state label next) :
    (state.job worker = .running ∧ ∃ node, next.job worker = .allocated node) ∨
      next.schedule.adder worker ≠ .outside ∨ Home worker next := by
  have outside := (seated worker).resolve_left busy
  cases moves with
  | taskDrop place | acquireNone place =>
    obtain rfl := Option.some.inj own
    exact .inr (.inr ⟨update_self .., outside⟩)
  | taskMalloc place =>
    obtain rfl := Option.some.inj own
    exact .inl ⟨place, _, update_self ..⟩
  | acquire place front inner =>
    obtain rfl := Option.some.inj own
    cases inner with
    | call outside => exact .inr (.inl (by simp))
  | schedule inside inner =>
    cases inner with
    | waitEmpty place | insert place | postFull place =>
      obtain rfl := Option.some.inj own
      simp [outside] at place
    | _ => cases own
  | _ => cases own

omit [Fintype ω] in
/-- A worker in the first half of its job can move. -/
theorem able_job (seated : Seated state) (busy : state.job worker ≠ .idle) :
    machine.Able (fun _ label => label.worker = some worker) state := by
  have outside := (seated worker).resolve_left busy
  cases place : state.job worker with
  | idle => exact absurd place busy
  | running => exact ⟨.taskMalloc worker none, rfl, by simp [machine, step, place]⟩
  | allocated node =>
    refine ⟨.acquire worker, rfl, ?_⟩
    cases taken : Fifo.pop state.pending <;>
      simp [machine, step, place, taken, Schedule.step, outside]

omit [Fintype ω] in
/-- A worker that has announced its task is back from its job. -/
theorem posts (fairly : Fairly run) (worker : ω) :
    run.Leads (fun state => state.schedule.adder worker = .inserted) (Home worker) := by
  refine .of_able (fairly.jobs worker) (fun state label next reached place stepped => ?_)
    fun _ _ place => able_worker (by simp [place]) (by simp [place])
  have moves := step_moves stepped
  by_cases own : label.worker = some worker
  · have idle : state.job worker = .idle :=
      (seated_reachable reached worker).resolve_right (by simp [place])
    cases moves with
    | schedule inside inner =>
      cases inner with
      | postFull held =>
        obtain rfl := Option.some.inj own
        exact .inr ⟨idle, update_self ..⟩
      | waitEmpty other | insert other =>
        obtain rfl := Option.some.inj own
        simp [place] at other
      | _ => cases own
    | taskDrop other | taskMalloc other | acquireNone other | acquire other =>
      obtain rfl := Option.some.inj own
      rw [idle] at other
      cases other
    | _ => cases own
  · exact .inl ⟨own, (adder_frame moves own).trans place⟩

/-- A worker in `task_schedule_add` comes back from its job. -/
theorem adds_returns (fairly : Fairly run) (worker : ω) :
    run.Leads (fun state => state.schedule.adder worker ≠ .outside) (Home worker) := by
  have slotted (task : TaskNode) : run.Leads
      (fun state => state.schedule.adder worker = .slotted task) (Home worker) :=
    ((enters fairly worker task).imp fun _ => And.left).trans (posts fairly worker)
  intro moment busy
  cases place : (run.state moment).schedule.adder worker with
  | outside => exact absurd place busy
  | waiting task => exact (gets fairly worker task).trans (slotted task) moment place
  | slotted task => exact slotted task moment place
  | inserted => exact posts fairly worker moment place

/-- A worker comes back from its job. -/
theorem returns (fairly : Fairly run) (worker : ω) :
    run.Leads (fun _ => True) (Home worker) := by
  have leads (phase : Job) (busy : phase ≠ .idle) :
      run.Leads (fun state => state.job worker = phase) (fun state =>
        (phase = .running ∧ ∃ node, state.job worker = .allocated node) ∨
          state.schedule.adder worker ≠ .outside ∨ Home worker state) := by
    refine .of_able (fairly.jobs worker) (fun _ label _ reached place stepped => ?_)
      fun _ reached place => able_job (seated_reachable reached) (place ▸ busy)
    have moves := step_moves stepped
    by_cases own : label.worker = some worker
    · exact .inr (place ▸ works_moves (seated_reachable reached) (place ▸ busy) own moves)
    · exact .inl ⟨own, (job_frame moves own (place ▸ busy)).trans place⟩
  have second : run.Leads (fun state => state.schedule.adder worker ≠ .outside ∨ Home worker state)
      (Home worker) := .or (adds_returns fairly worker) .refl
  have allocated : run.Leads (fun state => ∃ node, state.job worker = .allocated node)
      (Home worker) :=
    .of_exists fun node => ((leads (.allocated node) (by simp)).imp fun _ held =>
      held.resolve_left (by simp)).trans second
  have running : run.Leads (fun state => state.job worker = .running) (Home worker) :=
    ((leads .running (by simp)).imp fun _ held => held.imp_left And.right).trans
      (.or allocated second)
  intro moment _
  cases place : (run.state moment).job worker with
  | idle =>
    by_cases outside : (run.state moment).schedule.adder worker = .outside
    · exact ⟨moment, Nat.le_refl _, place, outside⟩
    · exact second moment (.inl outside)
  | running => exact running moment place
  | allocated node => exact allocated moment ⟨node, place⟩

/-- **Nothing starves that is on its way.** In every endless run in which the workers in their jobs
and the scheduler are treated fairly, however much input comes: each acquired command is executed,
a slot of the schedule list becomes free again and again, and each worker comes back from its
job. (No memory is used after it was freed.) -/
theorem nothing_starves (run : (machine (ω := ω)).Endless) (fairly : Fairly run) (moment : ℕ) :
    (∀ command ∈ (run.state moment).acquired,
        ∃ later ≥ moment, command ∈ (run.state later).excuted) ∧
      (∃ later ≥ moment, 0 < (run.state later).schedule.tasksemEmpty) ∧
      ∀ worker, ∃ later ≥ moment, (run.state later).job worker = .idle ∧
        (run.state later).schedule.adder worker = .outside :=
  ⟨fun command => acquired_leads fairly command moment, frees fairly moment trivial,
    fun worker => returns fairly worker moment trivial⟩

omit [Fintype ω] in
/-- Where only input can move the pipeline, a run in which nothing happens treats its threads
fairly. -/
theorem Stuck.fairly (stuck : Stuck state) (reached : machine.Reachable state) :
    Fairly (Endless.idle reached) := by
  refine ⟨fun worker => Endless.fair_of_disabled fun _ => ?_,
    Endless.fair_of_disabled fun _ => ?_⟩
  · rintro ⟨label, own, moves⟩
    refine moves (stuck label ?_)
    cases label <;> first | rfl | cases own
  · rintro ⟨label, own, moves⟩
    refine moves (stuck label ?_)
    cases label <;> first | rfl | cases own

/-- Of two commands that are received one has just been acquired, and is executed in the end. -/
theorem nothing_starves_run : ∃ run : (machine (ω := Fin 1)).Endless,
    (run.state 0).acquired = [0] ∧ (run.state 0).excuted = [] ∧
      ∃ later ≥ 0, 0 ∈ (run.state later).excuted := by
  obtain ⟨first, last, began, ran, acquired, excuted, rests, quiescent⟩ :
      ∃ first last : State (Fin 1), machine.run .start ((batch 0).take 14) = some first ∧
        machine.run first ((batch 0).drop 14) = some last ∧ first.acquired = [0] ∧
        first.excuted = [] ∧ last.producer.toil = 0 ∧ Quiescent last :=
    ⟨_, _, rfl, rfl, rfl, rfl, rfl, rfl, rfl, rfl, Fin.forall_fin_one.mpr rfl,
      Fin.forall_fin_one.mpr rfl, Producer.noConfusion, rfl, rfl⟩
  have reached : machine.Reachable first := ⟨_, _, rfl, began⟩
  have ended := reached.run _ ran
  have fairly := (quiescent.stuck ended rests).fairly ended
  obtain ⟨run, rfl, -, fair⟩ := (Endless.idle ended).exists_behind reached ran
  have held : Fairly run := ⟨fun worker => fair _ (fairly.jobs worker), fair _ fairly.scheduler⟩
  exact ⟨run, acquired, excuted, (nothing_starves run held 0).1 0 (by simp [acquired])⟩

end SysServer.Pipeline
