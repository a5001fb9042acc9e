import SysServer.Pool.Works

/-!
# A teardown requested more than once

Any number of calls of `tpool_destroy`. Each tests `shutdown` and stores it in a step of its own,
without the lock. When no call tests between the test and the store of another, one call at most
is past the test at any time: what the pool shows of a teardown is then what that call has done
(`Progress`), or what a finished teardown has. A call that tests after the pool was freed reads
freed memory.
-/

namespace SysServer.Threadpool

open Library Function

variable {n : ℕ} {α δ ρ β : Type*}

/-! ## How far a teardown is -/

/-- What has been done of a teardown. -/
structure Progress where
  /-- The flag is set. -/
  shutdown : Bool
  /-- Workers joined. -/
  joined : ℕ
  /-- How often the thread array was freed. -/
  threadFrees : ℕ
  /-- How often the pool record was freed. -/
  poolFrees : ℕ

/-- What the pool shows. -/
def State.progress (state : State n α δ ρ β) : Progress :=
  ⟨state.shutdown, state.joined.length, state.threadFrees, state.poolFrees⟩

/-- What a call past its test has done, of a pool with so many workers. -/
def DestroyerPhase.progress (workers : ℕ) : DestroyerPhase ρ β → Option Progress
  | .idle | .testing | .returned => none
  | .storing => some ⟨false, 0, 0, 0⟩
  | .locking | .broadcasting | .unlocking => some ⟨true, 0, 0, 0⟩
  | .joining index => some ⟨true, index, 0, 0⟩
  | .freeThreads => some ⟨true, workers, 0, 0⟩
  | .drainTest | .drainMember | .drainNext _ | .drainFree _ _ | .destroyLocks | .freePool =>
    some ⟨true, workers, 1, 0⟩

/-- The next step of the call reads or writes the pool record. -/
def DestroyerPhase.usesPool : DestroyerPhase ρ β → Bool
  | .idle | .drainFree _ _ | .returned => false
  | _ => true

/-- The step is of a call of `tpool_destroy` and reads or writes the pool record. -/
def Label.usesPool (state : State n α δ ρ β) : Label n α δ ρ β → Bool
  | .destroyer call => (state.destroyer call).usesPool
  | _ => false

/-- A call tests `shutdown` only while no other call stands between its test and its store, and
before the pool record is freed. -/
def TestsAlone (state : State n α δ ρ β) : Label n α δ ρ β → Prop
  | .destroyer call => state.destroyer call = .testing →
      state.poolFrees = 0 ∧ ∀ other, state.destroyer other ≠ .storing
  | _ => True

/-- How far each call past its test is. -/
def State.stage (state : State n α δ ρ β) (call : δ) : Option Progress :=
  (state.destroyer call).progress n

/-- No teardown has begun, or one is over. -/
def Progress.Rests (workers : ℕ) (progress : Progress) : Prop :=
  progress = ⟨false, 0, 0, 0⟩ ∨ progress = ⟨true, workers, 1, 1⟩

/-- One call at most is past its test, and the pool shows what that call has done. -/
structure Alone (state : State n α δ ρ β) : Prop where
  /-- The calls past their test. -/
  sole : Sole state.stage state.progress (Progress.Rests n)
  /-- Workers are joined in order. -/
  order : state.joined.map Fin.val = List.range state.joined.length
  /-- Workers joined have exited. -/
  gone : ∀ index ∈ state.joined, (state.worker index).gone = true

/-- The stage of a call that has been made and not returned. -/
theorem DestroyerPhase.progress_bounds {workers : ℕ} {phase : DestroyerPhase ρ β}
    {progress : Progress} (past : phase.progress workers = some progress) :
    progress.threadFrees ≤ 1 ∧ progress.poolFrees = 0 := by
  cases phase with
  | idle | testing | returned => cases past
  | _ =>
    obtain rfl := Option.some.inj past
    exact ⟨by simp, rfl⟩

/-- The call stands at its store when the flag is clear. -/
theorem DestroyerPhase.eq_storing {workers : ℕ} {phase : DestroyerPhase ρ β}
    {progress : Progress} (past : phase.progress workers = some progress)
    (clear : progress.shutdown = false) : phase = .storing := by
  cases phase with
  | idle | testing | returned => cases past
  | storing => rfl
  | _ =>
    obtain rfl := Option.some.inj past
    cases clear

/-- A call in its last loop has joined as many workers as there are. -/
theorem DestroyerPhase.progress_draining (workers : ℕ) {phase : DestroyerPhase ρ β}
    (drains : phase.draining = true) : phase.progress workers = some ⟨true, workers, 1, 0⟩ := by
  cases phase <;> first | rfl | cases drains

/-- A call that uses the pool is at its test or past it. -/
theorem DestroyerPhase.testing_or_past (workers : ℕ) {phase : DestroyerPhase ρ β}
    (uses : phase.usesPool = true) : phase = .testing ∨ phase.progress workers ≠ none := by
  cases phase with
  | idle => cases uses
  | testing => exact .inl rfl
  | returned => cases uses
  | _ => exact .inr (Option.some_ne_none _)

namespace Alone

variable {state next : State n α δ ρ β} {label : Label n α δ ρ β} {call : δ}

/-- No worker is joined twice. -/
theorem nodup (alone : Alone state) : state.joined.Nodup := by
  apply List.Nodup.of_map Fin.val
  rw [alone.order]
  exact List.nodup_range

/-- No more workers are joined than there are. -/
theorem joined_le (alone : Alone state) : state.joined.length ≤ n := by
  have bound := alone.nodup.length_le_card
  rwa [Fintype.card_fin] at bound

/-- When as many workers were joined as there are, all were. -/
theorem all_gone (alone : Alone state) (all : state.joined.length = n) (index : Fin n) :
    (state.worker index).gone = true := by
  have inside : index.val ∈ state.joined.map Fin.val := by
    rw [alone.order, all]
    exact List.mem_range.mpr index.isLt
  obtain ⟨other, joined, same⟩ := List.mem_map.mp inside
  exact Fin.ext same ▸ alone.gone other joined

/-- What the pool shows while a call is past its test. -/
theorem shown (alone : Alone state) {progress : Progress}
    (past : (state.destroyer call).progress n = some progress) : state.progress = progress :=
  alone.sole.shown call progress past

/-- The thread array and the pool record are freed once at most, and the pool record not while a
call is past its test. -/
theorem frees (alone : Alone state) : state.threadFrees ≤ 1 ∧ state.poolFrees ≤ 1 ∧
    ∀ call, state.stage call ≠ none → state.poolFrees = 0 := by
  by_cases nobody : ∀ call, state.stage call = none
  · rcases alone.sole.between nobody with fresh | finished
    · have threads : state.threadFrees = 0 := congrArg Progress.threadFrees fresh
      have pools : state.poolFrees = 0 := congrArg Progress.poolFrees fresh
      exact ⟨by omega, by omega, fun _ _ => pools⟩
    · have threads : state.threadFrees = 1 := congrArg Progress.threadFrees finished
      have pools : state.poolFrees = 1 := congrArg Progress.poolFrees finished
      exact ⟨by omega, by omega, fun call past => absurd (nobody call) past⟩
  · obtain ⟨call, past⟩ := not_forall.mp nobody
    obtain ⟨progress, now⟩ := Option.ne_none_iff_exists'.mp past
    have bounds := DestroyerPhase.progress_bounds now
    rw [← alone.shown now] at bounds
    have threads : state.threadFrees ≤ 1 := bounds.1
    have pools : state.poolFrees = 0 := bounds.2
    exact ⟨threads, by omega, fun _ _ => pools⟩

/-- A step that uses the pool for a call comes before the pool is freed, when tests are made
alone. -/
theorem pool_kept (alone : Alone state) (tests : TestsAlone state label)
    (uses : label.usesPool state = true) : state.poolFrees = 0 := by
  cases label with
  | destroyer call =>
    rcases DestroyerPhase.testing_or_past n uses with place | past
    · exact (tests place).1
    · exact alone.frees.2.2 call past
  | _ => cases uses

variable [DecidableEq δ]

/-- The move of a call changes its stage. -/
theorem stage_update {phase : DestroyerPhase ρ β}
    (moved : next.destroyer = update state.destroyer call phase) :
    next.stage = update state.stage call (phase.progress n) := by
  funext other
  rw [State.stage, moved]
  by_cases same : other = call
  · rw [same, update_self, update_self]
  · rw [update_of_ne same, update_of_ne same, State.stage]

/-- A call past its test goes on and changes what the pool shows as it changes its stage. -/
theorem advance {phase : DestroyerPhase ρ β} {progress : Progress} (alone : Alone state)
    (change : Progress → Progress) (past : state.stage call = some progress)
    (moved : next.destroyer = update state.destroyer call phase)
    (now : phase.progress n = some (change progress))
    (shows : next.progress = change state.progress) :
    Sole next.stage next.progress (Progress.Rests n) := by
  have writes : state.stage call ≠ none := by
    rw [past]
    exact Option.some_ne_none progress
  rw [stage_update moved, now, shows, alone.shown past]
  exact alone.sole.advance writes (change progress)

/-- A call that is not past its test moves and does not pass it. -/
theorem pass {phase : DestroyerPhase ρ β} (alone : Alone state) (before : state.stage call = none)
    (moved : next.destroyer = update state.destroyer call phase)
    (after : phase.progress n = none) (shows : next.progress = state.progress) :
    Sole next.stage next.progress (Progress.Rests n) := by
  rw [stage_update moved, after, shows]
  exact alone.sole.pass before

/-- A call passes its test alone. -/
theorem enter {phase : DestroyerPhase ρ β} (alone : Alone state)
    (clear : state.shutdown = false) (nobody : ∀ other, state.destroyer other ≠ .storing)
    (moved : next.destroyer = update state.destroyer call phase)
    (now : phase.progress n = some ⟨false, 0, 0, 0⟩) (shows : next.progress = state.progress) :
    Sole next.stage next.progress (Progress.Rests n) := by
  have outside : ∀ other, state.stage other = none := by
    intro other
    by_contra past
    obtain ⟨progress, stage⟩ := Option.ne_none_iff_exists'.mp past
    have flag : progress.shutdown = false := alone.shown stage ▸ clear
    exact nobody other (DestroyerPhase.eq_storing stage flag)
  have fresh : state.progress = ⟨false, 0, 0, 0⟩ := by
    rcases alone.sole.between outside with fresh | finished
    · exact fresh
    · have set : state.shutdown = true := congrArg Progress.shutdown finished
      rw [clear] at set
      cases set
  rw [stage_update moved, now, shows, ← fresh]
  exact Sole.enter outside call

/-- A call frees the pool record and returns. -/
theorem leave {phase : DestroyerPhase ρ β} (alone : Alone state)
    (past : state.stage call = some ⟨true, n, 1, 0⟩)
    (moved : next.destroyer = update state.destroyer call phase)
    (after : phase.progress n = none)
    (shows : next.progress = { state.progress with poolFrees := state.poolFrees + 1 }) :
    Sole next.stage next.progress (Progress.Rests n) := by
  have writes : state.stage call ≠ none := by
    rw [past]
    exact Option.some_ne_none _
  have shown := alone.shown past
  have pools : state.poolFrees = 0 := congrArg Progress.poolFrees shown
  rw [stage_update moved, after, shows, shown, pools]
  exact alone.sole.leave writes (.inr rfl)

/-- A turn of a call past its test changes nothing that the pool shows. -/
theorem turn {phase : DestroyerPhase ρ β} (alone : Alone state)
    (turn : DestroyerTurn state (state.destroyer call) phase)
    (tests : state.destroyer call = .testing → ∀ other, state.destroyer other ≠ .storing)
    (moved : next.destroyer = update state.destroyer call phase)
    (shows : next.progress = state.progress) :
    Sole next.stage next.progress (Progress.Rests n) := by
  obtain ⟨before, place⟩ : ∃ before, state.destroyer call = before := ⟨_, rfl⟩
  have stage : state.stage call = before.progress n := by rw [State.stage, place]
  rw [place] at turn
  cases turn with
  | refuse shut => exact alone.pass stage moved rfl shows
  | proceed opened => exact alone.enter opened (tests place) moved rfl shows
  | @joined index last =>
    have count : state.joined.length = index := congrArg Progress.joined (alone.shown stage)
    have all : index = n := Nat.le_antisymm (count ▸ alone.joined_le) last
    exact alone.advance id stage moved (by rw [all]; rfl) shows
  | empty head => exact alone.advance id stage moved rfl shows
  | more head => exact alone.advance id stage moved rfl shows
  | member head => exact alone.advance id stage moved rfl shows
  | locks => exact alone.advance id stage moved rfl shows

variable [DecidableEq α]

/-- What every step of a call leaves of the calls past their test. -/
theorem sole_moves (alone : Alone state) (tests : TestsAlone state label)
    (moves : Moves state label next) : Sole next.stage next.progress (Progress.Rests n) := by
  have stage : ∀ {call before}, state.destroyer call = before →
      state.stage call = before.progress n := by
    intro call before place
    rw [State.stage, place]
  cases moves with
  | destroy place => exact alone.pass (stage place) rfl rfl rfl
  | destroyerTurn turn => exact alone.turn turn (fun place => (tests place).2) rfl rfl
  | storeShutdown place =>
    exact alone.advance (fun before => { before with shutdown := true }) (stage place) rfl rfl rfl
  | destroyerLock place free => exact alone.advance id (stage place) rfl rfl rfl
  | broadcast place => exact alone.advance id (stage place) rfl rfl rfl
  | destroyerRelease place => exact alone.advance id (stage place) rfl rfl rfl
  | join inside place gone =>
    apply alone.advance (fun before => { before with joined := before.joined + 1 }) (stage place)
      rfl rfl
    simp [State.progress, State.destroyerAt]
  | freeThreads place =>
    exact alone.advance (fun before => { before with threadFrees := before.threadFrees + 1 })
      (stage place) rfl rfl rfl
  | drainNext place front stored => exact alone.advance id (stage place) rfl rfl rfl
  | drainFree place => exact alone.advance id (stage place) rfl rfl rfl
  | freePool place => exact alone.leave (stage place) rfl rfl rfl
  | _ => exact alone.sole

/-- Every step whose test is made alone keeps it. -/
theorem moves (alone : Alone state) (tests : TestsAlone state label)
    (moves : Moves state label next) : Alone next := by
  have gone : ∀ index ∈ state.joined, (next.worker index).gone = true :=
    fun index joined => gone_moves moves (alone.gone index joined)
  refine ⟨alone.sole_moves tests moves, ?_, ?_⟩
  · cases moves with
    | @join call index inside place exited =>
      have stage : state.stage call = some ⟨true, index, 0, 0⟩ := by rw [State.stage, place]; rfl
      have count : state.joined.length = index := congrArg Progress.joined (alone.shown stage)
      simp only [List.map_append, List.map_cons, List.map_nil, alone.order,
        List.length_append, List.length_cons, List.length_nil, Nat.zero_add, List.range_succ,
        count]
    | _ => exact alone.order
  · cases moves with
    | @join call index inside place exited =>
      intro other joined
      rcases List.mem_append.mp joined with before | now
      · exact gone other before
      · rw [List.mem_singleton.mp now]
        exact exited
    | _ => exact gone

omit [DecidableEq α] [DecidableEq δ] in
/-- It holds before the first step. -/
theorem start : Alone (State.start : State n α δ ρ β) where
  sole := by
    constructor
    · intro call _ past
      exact absurd rfl past
    · intro call _ past
      cases past
    · exact fun _ => .inl rfl
  order := rfl
  gone _ joined := by cases joined

/-- It holds at the end of every run whose tests are made alone. -/
theorem run {labels : List (Label n α δ ρ β)} (tests : machine.Obeys TestsAlone .start labels)
    (ran : machine.run .start labels = some state) : Alone state :=
  machine.run_obeys_invariant Alone
    (fun _ _ _ tests alone stepped => alone.moves tests (step_moves stepped)) tests .start ran

end Alone

/-! ## The nodes -/

section Nodes

variable [DecidableEq α] [DecidableEq δ] {state next : State n α δ ρ β} {label : Label n α δ ρ β}

/-- What holds when nothing is added from the first call on. -/
structure Closed (state : State n α δ ρ β) : Prop where
  /-- The calls past their test. -/
  alone : Alone state
  /-- No thread is inside `tpool_add_work` once a call has been made. -/
  adders : ∀ call, (state.destroyer call).begun = true →
    ∀ caller, (state.adder caller).rests = true
  /-- Works are discarded after all workers have exited. -/
  discarded : state.discarded ≠ [] → ∀ index, (state.worker index).gone = true
  /-- Only the owner of the lock stands inside a critical section. -/
  exclusive : Exclusive state
  /-- The chain spells the queue. -/
  linked : ∃ queue, Linked state queue

namespace Closed

omit [DecidableEq α] [DecidableEq δ] in
/-- A call in its last loop has joined every worker. -/
theorem all_gone (closed : Closed state) {call : δ}
    (drains : (state.destroyer call).draining = true) (index : Fin n) :
    (state.worker index).gone = true := by
  have shown := closed.alone.shown (DestroyerPhase.progress_draining n drains)
  exact closed.alone.all_gone (congrArg Progress.joined shown) index

omit [DecidableEq α] [DecidableEq δ] in
/-- The last loop runs alone. -/
theorem settled (closed : Closed state) : Settled state where
  workers _ drains := closed.all_gone drains
  adders call drains := closed.adders call (DestroyerPhase.of_draining n drains).1
  single call other drains also := by
    have past : ∀ {call}, (state.destroyer call).draining = true → state.stage call ≠ none := by
      intro call drains
      rw [State.stage, DestroyerPhase.progress_draining n drains]
      exact Option.some_ne_none _
    exact closed.alone.sole.single call other (past drains) (past also)
  discarded := closed.discarded

/-- Every step whose test is made alone keeps it, when nothing is added from the first call on. -/
theorem moves (closed : Closed state) (tests : TestsAlone state label)
    (added : AddedBefore state label) (moves : Moves state label next) : Closed next := by
  obtain ⟨queue, linked⟩ := closed.linked
  refine ⟨closed.alone.moves tests moves, adders_moves moves added closed.adders, ?_,
    closed.exclusive.moves moves, linked.moves closed.settled closed.exclusive moves⟩
  intro discarded index
  apply gone_moves moves
  by_cases before : state.discarded = []
  · cases moves with
    | @drainNext call member head content next place front stored =>
      exact closed.all_gone (by rw [place]; rfl) index
    | _ => exact absurd before discarded
  · exact closed.discarded before index

omit [DecidableEq α] [DecidableEq δ] in
/-- It holds before the first step. -/
theorem start : Closed (State.start : State n α δ ρ β) where
  alone := .start
  adders _ begun := by cases begun
  discarded some_discarded := absurd rfl some_discarded
  exclusive := .start
  linked := ⟨[], .start⟩

/-- When nothing is added from the first call on and every test is made alone, no other thread
changes the chain between two accesses that a thread makes in one critical section or in the last
loop of `tpool_destroy`. -/
theorem steady {queue : List (Address × Work ρ β)} {thread : Thread n α δ}
    {labels : List (Label n α δ ρ β)} (closed : Closed state) (linked : Linked state queue)
    (reaches : state.reaches thread = true)
    (both : machine.Obeys (fun state label => TestsAlone state label ∧ AddedBefore state label)
      state labels)
    (others : ∀ label ∈ labels, label.thread ≠ thread)
    (ran : machine.run state labels = some next) : Steady state queue thread next :=
  linked.steady Closed (fun _ _ _ closed => ⟨closed.settled, closed.exclusive⟩)
    (fun _ _ _ both closed => closed.moves both.1 both.2) reaches closed both others ran

end Closed

/-- Each node is freed once at most: so far no work has been freed twice, and whoever is about to
free a node has one that is allocated and holds the work it was added with. -/
structure NodesOnce (state : State n α δ ρ β) : Prop where
  /-- No node has been freed twice. -/
  freed : (state.finished.map (fun entry => entry.2.serial) ++
    state.drained.map Work.serial).Nodup
  /-- A worker frees an allocated node. -/
  worker : ∀ index work content, state.worker index = .freeing work content →
    ∃ next, state.heap work = some (content, next)
  /-- A call of `tpool_destroy` frees an allocated node. -/
  call : ∀ call member content, state.destroyer call = .drainFree member content →
    ∃ next, state.heap member = some (content, next)

variable [Fintype α] [Fintype δ]

omit [DecidableEq α] [DecidableEq δ] in
/-- The nodes freed are among those accepted, whose serial numbers are distinct. -/
theorem Booked.freed_nodup {queue : List (Address × Work ρ β)} (booked : Booked state)
    (order : state.accepted = state.taken.map Prod.snd ++ state.discarded ++ works queue) :
    (state.finished.map (fun entry => entry.2.serial) ++ state.drained.map Work.serial).Nodup := by
  have finished : (state.finished.map Prod.snd : Multiset (Work ρ β)) ≤
      (state.taken.map Prod.snd : Multiset (Work ρ β)) := by
    rw [← sum_part, ← sum_part]
    apply Finset.sum_le_sum
    intro index _
    rw [booked.taken index, ← Multiset.coe_add]
    exact Multiset.le_add_right _ _
  have drained : (state.drained : Multiset (Work ρ β)) ≤ state.discarded := by
    rw [booked.discarded]
    exact Multiset.le_add_right _ _
  have accepted : (state.finished.map Prod.snd : Multiset (Work ρ β)) + state.drained ≤
      state.accepted := by
    rw [order, ← Multiset.coe_add, ← Multiset.coe_add]
    exact (add_le_add finished drained).trans (Multiset.le_add_right _ _)
  have serials : ((state.finished.map Prod.snd : Multiset (Work ρ β)) +
      state.drained).map Work.serial ≤ Multiset.range state.serials := by
    apply (Multiset.map_le_map accepted).trans
    rw [← booked.serials]
    exact Multiset.le_add_left _ _
  have nodup := Multiset.nodup_of_le serials (Multiset.nodup_range _)
  rw [Multiset.map_add, Multiset.map_coe, Multiset.map_coe, Multiset.coe_add, Multiset.coe_nodup,
    List.map_map] at nodup
  exact nodup

omit [DecidableEq α] [DecidableEq δ] in
/-- When nothing is added from the first call on, each node is freed once at most. -/
theorem Closed.nodesOnce (closed : Closed state) (booked : Booked state) : NodesOnce state := by
  obtain ⟨queue, linked⟩ := closed.linked
  refine ⟨booked.freed_nodup linked.order, ?_, ?_⟩
  · intro index work content place
    have knows := linked.workers index
    rw [place] at knows
    exact knows
  · intro call member content place
    have knows := linked.destroyers call
    rw [place] at knows
    exact knows

/-! ## Every teardown once -/

/-- What a run that ends in a state owes to the pool, however often its teardown was requested. -/
structure TornDownOnce (labels : List (Label n α δ ρ β)) (state : State n α δ ρ β) : Prop where
  /-- No worker is joined twice. -/
  joined : state.joined.Nodup
  /-- The thread array is freed once at most. -/
  threads : state.threadFrees ≤ 1
  /-- The pool record is freed once at most. -/
  pool : state.poolFrees ≤ 1
  /-- No call reads or writes the pool record after it was freed. -/
  unused : ∀ front label back middle, labels = front ++ label :: back →
    machine.run .start front = some middle → label.usesPool middle = true → middle.poolFrees = 0
  /-- A call that finds the flag set returns without effect. -/
  refused : ∀ call next, state.destroyer call = .testing → state.shutdown = true →
    step state (.destroyer call) = some next → next = state.destroyerAt call .returned
  /-- Each node is freed once at most, when all were added before the first call. -/
  nodes : machine.Obeys AddedBefore .start labels → NodesOnce state

/-- **A teardown happens once.** In every run of any number of workers and adding threads and any
number of calls of `tpool_destroy`, each of which tests `shutdown` while no other stands between
its test and its store and before the pool is freed, nothing is joined or freed twice and no call
uses the pool after it was freed. -/
theorem teardown_once {labels : List (Label n α δ ρ β)}
    (tests : machine.Obeys TestsAlone .start labels)
    (ran : machine.run .start labels = some state) : TornDownOnce labels state := by
  have alone : Alone state := .run tests ran
  constructor
  · exact alone.nodup
  · exact alone.frees.1
  · exact alone.frees.2.1
  · rintro front label back middle rfl begun uses
    exact (Alone.run tests.front begun).pool_kept (tests.middle begun) uses
  · intro call next place shut stepped
    simp only [step, tpoolDestroy, place, shut, if_true, Option.some.injEq] at stepped
    exact stepped.symm
  · intro added
    have booked : Booked state := machine.run_invariant Booked
      (fun _ _ _ booked stepped => booked.moves (step_moves stepped)) .start ran
    have closed : Closed state := machine.run_obeys_invariant Closed
      (fun _ _ _ both closed stepped => closed.moves both.1 both.2 (step_moves stepped))
      (tests.and added) .start ran
    exact closed.nodesOnce booked

/-- A work is added, and a second call tests the flag after the first has stored it. -/
def requestedTwice (index : Fin n) (caller : α) (call other : δ) : List (Label n α δ ℕ ℕ) :=
  [.spawn index, .add caller (some 5) 7, .malloc caller (some 16), .adder caller, .adder caller,
    .adder caller, .signal caller ∅, .adder caller, .destroy call, .destroy other,
    .destroyer call, .destroyer call, .destroyer other, .destroyer call, .destroyer call,
    .destroyer call, .worker index, .worker index, .worker index, .worker index,
    .destroyer call, .destroyer call, .destroyer call, .destroyer call, .destroyer call,
    .destroyer call, .destroyer call, .destroyer call, .destroyer call, .destroyer call]

/-- In that run each test is made alone. -/
theorem requestedTwice_alone : machine.Obeys TestsAlone
    (.start : State 1 (Fin 1) (Fin 2) ℕ ℕ) (requestedTwice 0 0 0 1) := by
  iterate 10 refine .cons trivial rfl ?_
  -- The first call tests: the second has been made and has not tested.
  refine .cons (fun _ => ⟨rfl, Fin.forall_fin_two.mpr ⟨nofun, nofun⟩⟩) rfl ?_
  refine .cons nofun rfl ?_
  -- The second call tests: the first has stored.
  refine .cons (fun _ => ⟨rfl, Fin.forall_fin_two.mpr ⟨nofun, nofun⟩⟩) rfl ?_
  iterate 3 refine .cons nofun rfl ?_
  iterate 4 refine .cons trivial rfl ?_
  iterate 10 refine .cons nofun rfl ?_
  trivial

/-- In that run nothing is added from the first call on. -/
theorem requestedTwice_added : machine.Obeys AddedBefore
    (.start : State 1 (Fin 1) (Fin 2) ℕ ℕ) (requestedTwice 0 0 0 1) := by
  refine .cons trivial rfl (.cons (fun _ => rfl) rfl ?_)
  iterate 6 refine .cons trivial rfl ?_
  iterate 2 refine .cons (Fin.forall_fin_one.mpr rfl) rfl ?_
  iterate 20 refine .cons trivial rfl ?_
  trivial

/-- That run frees the pool and the work left in it once. -/
theorem teardown_once_requestedTwice :
    ∃ state : State 1 (Fin 1) (Fin 2) ℕ ℕ,
      machine.run .start (requestedTwice 0 0 0 1) = some state ∧ state.joined = [0] ∧
      state.drained = [⟨0, 5, 7⟩] ∧ state.poolFrees = 1 ∧
      TornDownOnce (requestedTwice 0 0 0 1) state ∧ NodesOnce state := by
  obtain ⟨state, ran, joined, drained, freed⟩ : ∃ state : State 1 (Fin 1) (Fin 2) ℕ ℕ,
      machine.run .start (requestedTwice 0 0 0 1) = some state ∧ state.joined = [0] ∧
        state.drained = [⟨0, 5, 7⟩] ∧ state.poolFrees = 1 := ⟨_, rfl, rfl, rfl, rfl⟩
  have once := teardown_once requestedTwice_alone ran
  exact ⟨state, ran, joined, drained, freed, once, once.nodes requestedTwice_added⟩

/-- Two calls both test the flag before either has stored it. -/
def overlapping (index : Fin n) (call other : δ) : List (Label n α δ ℕ ℕ) :=
  [.spawn index, .destroy call, .destroy other, .destroyer call, .destroyer other,
    .destroyer call, .destroyer other, .destroyer call, .destroyer call, .destroyer call,
    .destroyer other, .destroyer other, .destroyer other, .worker index, .worker index,
    .worker index, .worker index, .worker index, .destroyer call, .destroyer other,
    .destroyer call, .destroyer other, .destroyer call, .destroyer other, .destroyer call,
    .destroyer other, .destroyer call, .destroyer other, .destroyer call, .destroyer other]

/-- One call returns before another is made. -/
def finished (index : Fin n) (call other : δ) : List (Label n α δ ℕ ℕ) :=
  [.spawn index, .destroy call, .destroyer call, .destroyer call, .destroyer call,
    .destroyer call, .destroyer call, .worker index, .worker index, .worker index,
    .worker index, .worker index, .destroyer call, .destroyer call, .destroyer call,
    .destroyer call, .destroyer call, .destroyer call, .destroy other]

/-- Two calls that overlap join the worker twice and free everything twice; a call made after the
pool was freed reads the flag in freed memory. -/
theorem teardown_twice :
    (∃ state : State 1 (Fin 1) (Fin 2) ℕ ℕ,
      machine.run .start (overlapping 0 0 1) = some state ∧ state.joined = [0, 0] ∧
      state.threadFrees = 2 ∧ state.poolFrees = 2 ∧ ¬ TornDownOnce (overlapping 0 0 1) state) ∧
    ∃ state : State 1 (Fin 1) (Fin 2) ℕ ℕ,
      machine.run .start (finished 0 0 1 ++ [.destroyer 1]) = some state ∧
      ¬ TornDownOnce (finished 0 0 1 ++ [.destroyer 1]) state := by
  obtain ⟨twice, ran, joined, threads, freed⟩ : ∃ state : State 1 (Fin 1) (Fin 2) ℕ ℕ,
      machine.run .start (overlapping 0 0 1) = some state ∧ state.joined = [0, 0] ∧
        state.threadFrees = 2 ∧ state.poolFrees = 2 := ⟨_, rfl, rfl, rfl, rfl⟩
  obtain ⟨middle, begun, uses, gone⟩ : ∃ middle : State 1 (Fin 1) (Fin 2) ℕ ℕ,
      machine.run .start (finished 0 0 1) = some middle ∧
        Label.usesPool middle (.destroyer 1) = true ∧ middle.poolFrees = 1 := ⟨_, rfl, rfl, rfl⟩
  refine ⟨⟨twice, ran, joined, threads, freed, ?_⟩, _, rfl, ?_⟩
  · intro once
    have most := once.pool
    omega
  · intro once
    have kept := once.unused _ _ [] _ rfl begun uses
    omega

end Nodes

end SysServer.Threadpool
