import Mathlib.Data.Nat.Init
import SysServer.Library.Machine

/-!
# Endless runs under a fair scheduler

At each moment an endless run takes a step or lets the moment pass, so a run that comes to an end
is one as well (`idle`, `exists_behind`), and so is one that returns to its state (`loop`). Steps of
a kind are treated fairly if they are taken again and again where they could be (`Fair`). What
happens sooner or later is stated with `Leads`: a fair kind whose steps help and that comes to be
able leads on (`Leads.of_fair`), and a rank that sinks sooner or later leads to the end
(`Leads.of_rank`).
-/

namespace Library

namespace Machine

variable {σ ι τ κ : Type*} {M : Machine σ ι} {N : Machine τ κ}

/-- A run that never ends, from a reachable state on. -/
structure Endless (M : Machine σ ι) where
  /-- The states. -/
  state : ℕ → σ
  /-- The step that is taken at a moment, if any. -/
  label : ℕ → Option ι
  /-- The first state is reachable. -/
  begins : M.Reachable (state 0)
  /-- Each moment is a step, or changes nothing. -/
  passes : ∀ moment, (label moment).elim (some (state moment)) (M.step (state moment)) =
    some (state (moment + 1))

/-- Some step of the kind is enabled. -/
def Able (M : Machine σ ι) (kind : σ → ι → Prop) (state : σ) : Prop :=
  ∃ label, kind state label ∧ M.step state label ≠ none

namespace Endless

variable (run : M.Endless)

/-- Steps of the kind are taken again and again if they are enabled again and again. -/
def Fair (kind : σ → ι → Prop) : Prop :=
  (∀ moment, ∃ later ≥ moment, M.Able kind (run.state later)) →
    ∀ moment, ∃ later ≥ moment, ∃ label, run.label later = some label ∧
      kind (run.state later) label

/-- Wherever the first holds, the second does sooner or later. -/
def Leads (before after : σ → Prop) : Prop :=
  ∀ moment, before (run.state moment) → ∃ later ≥ moment, after (run.state later)

variable {run}

/-- A step that is taken leads to the next state. -/
theorem step {moment : ℕ} {label : ι} (taken : run.label moment = some label) :
    M.step (run.state moment) label = some (run.state (moment + 1)) := by
  simpa [taken] using run.passes moment

/-- A moment that passes changes nothing. -/
theorem still {moment : ℕ} (passed : run.label moment = none) :
    run.state (moment + 1) = run.state moment := by
  simpa [passed, eq_comm] using run.passes moment

/-- What holds and is kept by the steps holds at the next moment. -/
theorem next {moment : ℕ} {property : σ → Prop} (holds : property (run.state moment))
    (kept : ∀ label next, M.step (run.state moment) label = some next → property next) :
    property (run.state (moment + 1)) := by
  cases taken : run.label moment with
  | none => exact still taken ▸ holds
  | some label => exact kept label _ (step taken)

variable (run)

/-- Every state is reachable. -/
theorem reachable (moment : ℕ) : M.Reachable (run.state moment) := by
  induction moment with
  | zero => exact run.begins
  | succ moment ih => exact next ih fun _ _ stepped => ih.step M stepped

variable {run}

/-- What every step keeps holds for ever. -/
theorem keeps {property : σ → Prop} {moment later : ℕ} (holds : property (run.state moment))
    (order : moment ≤ later)
    (kept : ∀ state label next, M.Reachable state → property state →
      M.step state label = some next → property next) : property (run.state later) := by
  induction later, order using Nat.le_induction with
  | base => exact holds
  | succ later _ ih => exact next ih fun _ _ stepped => kept _ _ _ (run.reachable later) ih stepped

namespace Leads

variable {before middle after : σ → Prop}

/-- What follows is led to as well. -/
theorem imp {other : σ → Prop} (leads : run.Leads before after)
    (implies : ∀ state, after state → other state) : run.Leads before other := by
  intro moment holds
  obtain ⟨later, order, reached⟩ := leads moment holds
  exact ⟨later, order, implies _ reached⟩

/-- What holds is led to. -/
theorem refl : run.Leads before before := fun moment holds => ⟨moment, Nat.le_refl _, holds⟩

/-- What two things lead to, either one leads to. -/
theorem or (first : run.Leads before after) (second : run.Leads middle after) :
    run.Leads (fun state => before state ∨ middle state) after := by
  rintro moment (holds | holds)
  · exact first moment holds
  · exact second moment holds

/-- One thing leads to another. -/
theorem trans (first : run.Leads before middle) (second : run.Leads middle after) :
    run.Leads before after := by
  intro moment holds
  obtain ⟨later, order, reached⟩ := first moment holds
  obtain ⟨last, further, ended⟩ := second later reached
  exact ⟨last, Nat.le_trans order further, ended⟩

/-- What each thing leads to, some thing leads to. -/
theorem of_exists {α : Type*} {each : α → σ → Prop} (leads : ∀ item, run.Leads (each item) after) :
    run.Leads (fun state => ∃ item, each item state) after := by
  rintro moment ⟨item, holds⟩
  exact leads item moment holds

/-- A fair kind leads on if other steps keep the first condition or lead on as well, and if again
and again one of its steps is enabled where that condition holds. -/
theorem of_fair {kind : σ → ι → Prop} (fair : run.Fair kind)
    (moves : ∀ state label next, M.Reachable state → before state →
      M.step state label = some next → (¬ kind state label ∧ before next) ∨ after next)
    (able : ∀ moment, ∃ later ≥ moment,
      before (run.state later) → M.Able kind (run.state later)) : run.Leads before after := by
  intro moment holds
  by_contra never
  push Not at never
  -- As long as nothing has led on, the first condition holds on.
  have always : ∀ later ≥ moment, before (run.state later) := by
    intro later order
    induction later, order using Nat.le_induction with
    | base => exact holds
    | succ later order ih =>
      have either : before (run.state (later + 1)) ∨ after (run.state (later + 1)) :=
        @next _ _ _ _ _ (fun state => before state ∨ after state) (.inl ih) fun _ _ stepped =>
          (moves _ _ _ (run.reachable later) ih stepped).imp_left And.right
      exact either.resolve_right (never (later + 1) (Nat.le_trans order (Nat.le_succ _)))
  have again : ∀ start, ∃ later ≥ start, M.Able kind (run.state later) := by
    intro start
    obtain ⟨later, order, enabled⟩ := able (max moment start)
    have late := Nat.le_trans (Nat.le_max_left moment start) order
    exact ⟨later, Nat.le_trans (Nat.le_max_right _ _) order, enabled (always later late)⟩
  obtain ⟨later, order, label, taken, own⟩ := fair again moment
  have moved := moves _ _ _ (run.reachable later) (always later order) (step taken)
  exact never (later + 1) (Nat.le_trans order (Nat.le_succ _))
    (moved.resolve_left fun other => other.1 own)

/-- A fair kind leads on if other steps keep the first condition or lead on as well, and if one of
its steps is enabled as long as that condition holds. -/
theorem of_able {kind : σ → ι → Prop} (fair : run.Fair kind)
    (moves : ∀ state label next, M.Reachable state → before state →
      M.step state label = some next → (¬ kind state label ∧ before next) ∨ after next)
    (able : ∀ state, M.Reachable state → before state → M.Able kind state) :
    run.Leads before after :=
  of_fair fair moves fun moment => ⟨moment, Nat.le_refl _, able _ (run.reachable moment)⟩

/-- A rank that sinks sooner or later leads to the end. -/
theorem of_rank (rank : σ → ℕ)
    (sinks : ∀ height, run.Leads (fun state => before state ∧ rank state = height)
      fun state => after state ∨ before state ∧ rank state < height) : run.Leads before after := by
  intro moment holds
  generalize place : rank (run.state moment) = height
  induction height using Nat.strongRecOn generalizing moment with
  | _ height ih =>
    obtain ⟨later, order, reached | ⟨holds, less⟩⟩ := sinks height moment ⟨holds, place⟩
    · exact ⟨later, order, reached⟩
    · obtain ⟨last, further, ended⟩ := ih _ less later holds rfl
      exact ⟨last, Nat.le_trans order further, ended⟩

end Leads

/-! ## A run of another machine -/

/-- A run is seen as one of another machine, where each step is a step there or changes nothing. -/
def seen (run : M.Endless) (view : σ → τ) (tells : σ → ι → Option κ)
    (begins : ∀ state, M.Reachable state → N.Reachable (view state))
    (told : ∀ state label next, M.Reachable state → M.step state label = some next →
      (tells state label).elim (some (view state)) (N.step (view state)) = some (view next)) :
    N.Endless where
  state moment := view (run.state moment)
  label moment := (run.label moment).bind (tells (run.state moment))
  begins := begins _ run.begins
  passes moment := by
    cases taken : run.label moment with
    | none => simp [still taken]
    | some label => exact told _ _ _ (run.reachable moment) (step taken)

/-- A kind is treated fairly in the run that is seen, if it is a kind of steps of the other one
that are enabled there and seen as what they are. -/
theorem Fair.seen {kind : σ → ι → Prop} {other : τ → κ → Prop} {view : σ → τ}
    {tells : σ → ι → Option κ} {begins : ∀ state, M.Reachable state → N.Reachable (view state)}
    {told : ∀ state label next, M.Reachable state → M.step state label = some next →
      (tells state label).elim (some (view state)) (N.step (view state)) = some (view next)}
    (fair : run.Fair kind)
    (able : ∀ state, M.Reachable state → N.Able other (view state) → M.Able kind state)
    (same : ∀ state label, kind state label →
      ∃ seen, tells state label = some seen ∧ other (view state) seen) :
    (run.seen view tells begins told).Fair other := by
  intro again moment
  have enabled : ∀ moment, ∃ later ≥ moment, M.Able kind (run.state later) := by
    intro moment
    obtain ⟨later, order, moves⟩ := again moment
    exact ⟨later, order, able _ (run.reachable later) moves⟩
  obtain ⟨later, order, label, taken, own⟩ := fair enabled moment
  obtain ⟨told, tells, kind⟩ := same _ label own
  refine ⟨later, order, told, ?_, kind⟩
  change (run.label later).bind _ = some told
  rw [taken]
  exact tells

/-! ## Endless runs from finite ones -/

/-- Nothing happens any more. -/
def idle {state : σ} (begins : M.Reachable state) : M.Endless where
  state _ := state
  label _ := none
  begins := begins
  passes _ := rfl

/-- A kind that is never enabled is treated fairly. -/
theorem fair_of_disabled {kind : σ → ι → Prop}
    (never : ∀ moment, ¬ M.Able kind (run.state moment)) : run.Fair kind := by
  intro again
  obtain ⟨later, -, enabled⟩ := again 0
  exact absurd enabled (never later)

/-- The labels of a run that returns to its state, again and again. -/
def loop {state : σ} {labels : List ι} (begins : M.Reachable state)
    (ran : M.run state labels = some state) (positive : 0 < labels.length) : M.Endless where
  state moment := (M.run state (labels.take (moment % labels.length))).getD state
  label moment := labels[moment % labels.length]?
  begins := by simpa using begins
  passes moment := by
    have inside := Nat.mod_lt moment positive
    have whole := ran
    rw [← List.take_append_drop (moment % labels.length) labels] at whole
    obtain ⟨middle, front, back⟩ := M.run_append.mp whole
    rw [List.drop_eq_getElem_cons inside] at back
    obtain ⟨next, stepped, rest⟩ := M.run_cons.mp back
    have longer : M.run state (labels.take (moment % labels.length + 1)) = some next := by
      rw [List.take_succ_eq_append_getElem inside]
      exact M.run_append.mpr ⟨middle, front, M.run_cons.mpr ⟨next, stepped, rfl⟩⟩
    have turned : (M.run state (labels.take ((moment + 1) % labels.length))).getD state = next := by
      rw [← Nat.mod_add_mod]
      by_cases last : moment % labels.length + 1 = labels.length
      · rw [last, List.take_length, ran] at longer
        rw [last, Nat.mod_self]
        exact Option.some.inj longer
      · rw [Nat.mod_eq_of_lt (Nat.lt_of_le_of_ne inside last), longer]
        rfl
    rw [front, turned, List.getElem?_eq_getElem inside]
    exact stepped

section Loop

variable {state : σ} {labels : List ι} {begins : M.Reachable state}
  {ran : M.run state labels = some state} {positive : 0 < labels.length}

/-- The loop takes each of its labels again and again. -/
theorem loop_takes {label : ι} (inside : label ∈ labels) (moment : ℕ) :
    ∃ later ≥ moment, (loop begins ran positive).label later = some label := by
  obtain ⟨index, taken⟩ := List.mem_iff_getElem?.mp inside
  have bound := (List.getElem?_eq_some_iff.mp taken).1
  refine ⟨index + labels.length * moment, ?_, ?_⟩
  · exact Nat.le_add_left_of_le (Nat.le_mul_of_pos_left moment positive)
  · change labels[(index + labels.length * moment) % labels.length]? = some label
    rw [Nat.add_mul_mod_self_left, Nat.mod_eq_of_lt bound, taken]

/-- What its labels keep holds on the whole loop. -/
theorem loop_keeps {property : σ → Prop} (holds : property state)
    (kept : ∀ state label next, label ∈ labels → property state →
      M.step state label = some next → property next) (moment : ℕ) :
    property ((loop begins ran positive).state moment) := by
  induction moment with
  | zero => simpa [loop, Machine.run] using holds
  | succ moment ih =>
    cases taken : (loop begins ran positive).label moment with
    | none => exact still taken ▸ ih
    | some label => exact kept _ label _ (List.mem_of_getElem? taken) ih (step taken)

end Loop

variable {start : σ} {label : ι} {kind : σ → ι → Prop}

/-- One step more in front. -/
def cons (run : M.Endless) (begins : M.Reachable start)
    (stepped : M.step start label = some (run.state 0)) : M.Endless where
  state
    | 0 => start
    | moment + 1 => run.state moment
  label
    | 0 => some label
    | moment + 1 => run.label moment
  begins := begins
  passes
    | 0 => stepped
    | moment + 1 => run.passes moment

/-- It leaves fair what was fair. -/
theorem cons_fair {begins : M.Reachable start} {stepped : M.step start label = some (run.state 0)}
    (fair : run.Fair kind) : (run.cons begins stepped).Fair kind := by
  intro again moment
  have enabled : ∀ moment, ∃ later ≥ moment, M.Able kind (run.state later) := by
    intro moment
    obtain ⟨_ | later, order, moves⟩ := again (moment + 1)
    · cases order
    · exact ⟨later, Nat.le_of_succ_le_succ order, moves⟩
  obtain ⟨later, order, taken⟩ := fair enabled moment
  exact ⟨later + 1, Nat.le_succ_of_le order, taken⟩

/-- A finite run in front. -/
theorem exists_behind {labels : List ι} (begins : M.Reachable start)
    (ran : M.run start labels = some (run.state 0)) :
    ∃ longer : M.Endless, longer.state 0 = start ∧
      (∀ moment, longer.state (moment + labels.length) = run.state moment) ∧
      ∀ kind, run.Fair kind → longer.Fair kind := by
  induction labels generalizing start with
  | nil =>
    obtain rfl := Option.some.inj ran
    exact ⟨run, rfl, fun _ => rfl, fun _ => id⟩
  | cons label labels ih =>
    obtain ⟨next, stepped, rest⟩ := M.run_cons.mp ran
    obtain ⟨longer, first, later, fair⟩ := ih (begins.step M stepped) rest
    rw [← first] at stepped
    exact ⟨longer.cons begins stepped, rfl, later, fun kind held => cons_fair (fair kind held)⟩

end Endless

end Machine

end Library
