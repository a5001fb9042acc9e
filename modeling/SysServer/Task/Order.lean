import SysServer.Task.Custody

/-!
# The order of execution

Commands leave the pending list in the order in which they entered it, and task nodes leave the
schedule list in the order in which they entered it. Between the two lists a command is carried by
a pool worker that holds no lock, so two workers may insert in either order. What is executed
follows the insertions; it follows the arrivals when the workers carry one command at a time.
-/

namespace SysServer.Pipeline

open Library Function

/-- A worker acquires a command only while no worker carries one that it has not inserted. -/
def Alone {ω : Type*} (state : State ω) : Label ω → Prop
  | .acquire _ => state.pending ≠ [] → ∀ other, (state.schedule.adder other).tasks = 0
  | _ => True

variable {ω : Type*} [Fintype ω] [DecidableEq ω]

/-- The acquired commands are the inserted ones in their order, followed by at most one that a
worker carries. -/
def Ordered (state : State ω) : Prop :=
  ∃ carried : List TaskNode, carried.length ≤ 1 ∧
    tally Schedule.AddPhase.tasks state.schedule.adder = (carried : Multiset TaskNode) ∧
    state.acquired = commands (state.schedule.inserted ++ carried)

/-- A step of the schedule list that the pipeline does not make inserts what is carried or
nothing. -/
theorem internal_inserts {label : Schedule.Label ω TaskNode}
    {before after : Schedule.State ω TaskNode} {carried : List TaskNode}
    (inside : internal label = true) (moves : Schedule.Moves before label after)
    (short : carried.length ≤ 1)
    (held : tally Schedule.AddPhase.tasks before.adder = (carried : Multiset TaskNode)) :
    ∃ left : List TaskNode, left.length ≤ 1 ∧
      tally Schedule.AddPhase.tasks after.adder = (left : Multiset TaskNode) ∧
      after.inserted ++ left = before.inserted ++ carried := by
  cases moves with
  | call place => cases inside
  | @waitEmpty worker task free place count =>
    refine ⟨carried, short, ?_, rfl⟩
    rwa [tally_update_same (by rw [place]; rfl)]
  | @insert worker task place =>
    have drop := tally_update_drop Schedule.AddPhase.tasks before.adder worker .inserted rfl
    simp only [place, Schedule.AddPhase.tasks, held] at drop
    -- The worker's task is one of at most one.
    have card := congrArg Multiset.card drop
    simp only [Multiset.card_add, Multiset.card_singleton, Multiset.coe_card] at card
    have empty : tally Schedule.AddPhase.tasks (update before.adder worker .inserted) = 0 :=
      Multiset.card_eq_zero.mp (by omega)
    refine ⟨[], by simp, empty, ?_⟩
    rw [empty, zero_add] at drop
    obtain rfl : carried = [task] := Multiset.coe_eq_singleton.mp drop.symm
    simp [Fifo.push]
  | @postFull worker place =>
    refine ⟨carried, short, ?_, rfl⟩
    rwa [tally_update_same (by rw [place]; rfl)]
  | finish place => cases inside
  | _ => exact ⟨carried, short, held, rfl⟩

/-- Every step of workers that carry one command at a time keeps the order. -/
theorem Ordered.moves {state next : State ω} {label : Label ω} (ordered : Ordered state)
    (alone : Alone state label) (moves : Moves state label next) : Ordered next := by
  obtain ⟨carried, short, held, order⟩ := ordered
  cases moves with
  | @acquire worker node first rest schedule place front inner =>
    have nobody : tally Schedule.AddPhase.tasks state.schedule.adder = 0 :=
      tally_eq_zero (alone (by simp [front]))
    obtain rfl : carried = [] := (Multiset.coe_eq_zero _).mp (held.symm.trans nobody)
    cases inner with
    | call outside =>
      refine ⟨[{ node with taskcom := some first }], le_rfl, ?_, ?_⟩
      · rw [tally_update_gain _ _ _ _ (by rw [outside]; rfl), nobody, zero_add]
        rfl
      · simp [order, Fifo.push, commands_singleton]
  | schedule inside inner =>
    obtain ⟨left, still, holds, same⟩ := internal_inserts inside inner short held
    exact ⟨left, still, holds, order.trans (congrArg commands same.symm)⟩
  | recycle place printed inner =>
    obtain rfl := finish_moves place inner
    exact ⟨carried, short, held, order⟩
  | _ => exact ⟨carried, short, held, order⟩

omit [DecidableEq ω] in
/-- Nothing is acquired before the first step. -/
theorem Ordered.start : Ordered (State.start : State ω) :=
  ⟨[], by simp, tally_eq_zero fun _ => rfl, rfl⟩

omit [Fintype ω] in
/-- A single worker carries one command at a time. -/
theorem alone_of_subsingleton [Subsingleton ω] {state next : State ω} {label : Label ω}
    (moves : Moves state label next) : Alone state label := by
  cases moves with
  | acquireNone place empty => exact fun nonempty => absurd empty nonempty
  | @acquire worker node first rest schedule place front inner =>
    intro _ other
    cases inner with
    | call outside =>
      rw [Subsingleton.elim other worker, outside]
      rfl
  | _ => trivial

/-- **Execution follows insertion.** In every run, commands are acquired in the order of their
arrival and executed in the order in which the workers inserted them. When no worker acquires a
command while another carries one, and so always with a single worker, commands are executed in
the order of their arrival. -/
theorem excuted_in_order {labels : List (Label ω)} {state : State ω}
    (ran : machine.run .start labels = some state) :
    state.acquired <+: state.added ∧
      (∀ first second, first ∈ state.excuted → second ∈ state.excuted →
        (Before state.excuted first second ↔
          Before (commands state.schedule.inserted) first second)) ∧
      (machine.Obeys Alone .start labels ∨ Subsingleton ω →
        ∀ first second, first ∈ state.excuted → second ∈ state.excuted →
          Before state.added first second → Before state.excuted first second) := by
  have reached : machine.Reachable state := ⟨_, labels, rfl, ran⟩
  have recorded := recorded_reachable reached
  obtain ⟨inserted, removed⟩ := Schedule.histories_reachable (follows_schedule.reachable reached)
  have start := recorded.excuted_prefix inserted removed
  have arrived : state.acquired <+: state.added := ⟨state.pending, recorded.arrived.symm⟩
  refine ⟨arrived, ?_, ?_⟩
  · intro first second _ inside
    exact before_prefix_iff recorded.inserted_nodup start inside
  · intro single first second _ inside earlier
    have alone : machine.Obeys Alone .start labels := by
      rcases single with alone | one
      · exact alone
      · exact machine.obeys_of_invariant (fun _ => True)
          (fun _ _ _ _ stepped => alone_of_subsingleton (step_moves stepped))
          (fun _ _ _ _ _ => trivial) trivial ran
    obtain ⟨carried, -, -, order⟩ : Ordered state := machine.run_obeys_invariant Ordered
      (fun _ _ _ alone ordered stepped => ordered.moves alone (step_moves stepped))
      alone .start ran
    have entered : commands state.schedule.inserted <+: state.acquired :=
      ⟨commands carried, by rw [order, commands_append]⟩
    exact earlier.to_prefix recorded.nodup (start.trans (entered.trans arrived)) inside

/-- Two commands arrive and two workers acquire them in order; the second worker inserts first. -/
def overtaking {ω : Type*} (first second : ω) : List (Label ω) :=
  [.serialRead true, .serialMalloc true, .pendingAdd, .trigger true, .fifoRead (some 1),
    .testPending, .dispatch true, .serialRead true, .serialMalloc true, .pendingAdd,
    .trigger true, .fifoRead (some 1), .testPending, .dispatch true, .takeJob first,
    .takeJob second, .taskMalloc first (some ⟨0, 0, 0, none, none, none⟩), .acquire first,
    .taskMalloc second (some ⟨0, 0, 0, none, none, none⟩), .acquire second,
    .schedule (.waitEmpty second), .schedule (.insert second), .schedule (.postFull second),
    .schedule (.waitEmpty first), .schedule (.insert first), .schedule (.postFull first),
    .schedule .waitFull, .schedule .remove, .schedule .postEmpty, .excute, .recycle,
    .schedule .waitFull, .schedule .remove, .schedule .postEmpty, .excute]

/-- The overtaken command is executed second, in the order of the insertions. -/
theorem excuted_in_order_run :
    ∃ state : State (Fin 2), state.excuted = [1, 0] ∧ state.acquired <+: state.added ∧
      (∀ first second, first ∈ state.excuted → second ∈ state.excuted →
        (Before state.excuted first second ↔
          Before (commands state.schedule.inserted) first second)) ∧
      (machine.Obeys Alone .start (overtaking (0 : Fin 2) 1) ∨ Subsingleton (Fin 2) →
        ∀ first second, first ∈ state.excuted → second ∈ state.excuted →
          Before state.added first second → Before state.excuted first second) :=
  ⟨_, rfl, excuted_in_order (show machine.run .start (overtaking (0 : Fin 2) 1) = some _ from rfl)⟩

/-- Commands may be executed in another order than that of their arrival. -/
theorem excuted_out_of_order :
    ¬ ∀ (labels : List (Label (Fin 2))) (state : State (Fin 2)),
      machine.run .start labels = some state →
        ∀ first second, first ∈ state.excuted → second ∈ state.excuted →
          Before state.added first second → Before state.excuted first second := by
  intro always
  have ordered := always (overtaking 0 1) _ rfl 0 1 (List.mem_cons_of_mem _ List.mem_cons_self)
    List.mem_cons_self (List.Sublist.refl [0, 1])
  exact absurd (show Before [1, 0] 0 1 from ordered) (by decide)

end SysServer.Pipeline
