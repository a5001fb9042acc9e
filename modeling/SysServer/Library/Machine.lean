import Mathlib.Algebra.BigOperators.Group.List.Basic
import Mathlib.Algebra.GroupWithZero.Nat

/-!
# Labelled machines

A machine is a guarded, executable step function over explicit states: the label carries every
choice a scheduler, an allocator or the outside world makes, so one definition serves both the
replay of a concrete run and the proofs about all runs. An invariant is proved on one step and
carried over whole runs here, once. A run may be restricted by a condition on its steps
(`Obeys`), and a machine may be followed by another through a map of states (`Follows`), or
simulated under an invariant with what its steps tell (`Simulates`).
-/

namespace Library

/-- Initial states and a guarded step; `none` means that the label is not enabled. -/
structure Machine (σ ι : Type*) where
  /-- The states a run may begin in. -/
  initial : σ → Prop
  /-- The successor under a label, when the label is enabled. -/
  step : σ → ι → Option σ

namespace Machine

variable {σ ι τ κ : Type*} (M : Machine σ ι)

/-- Take the labels of a run one after another; a label that is not enabled refuses the run. -/
def run : σ → List ι → Option σ
  | state, [] => some state
  | state, label :: labels => (M.step state label).bind fun next => run next labels

/-- The states at the end of some run from an initial state. -/
def Reachable (state : σ) : Prop :=
  ∃ start labels, M.initial start ∧ M.run start labels = some state

/-- Every step of the run meets a condition on the state before it and its label. -/
def Obeys (condition : σ → ι → Prop) : σ → List ι → Prop
  | _, [] => True
  | state, label :: labels =>
    condition state label ∧ ∀ next, M.step state label = some next → Obeys condition next labels

/-- The empty run stays where it is. -/
@[simp] theorem run_nil (state : σ) : M.run state [] = some state := rfl

/-- A nonempty run is its first step followed by the rest. -/
theorem run_cons {state last : σ} {label : ι} {labels : List ι} :
    M.run state (label :: labels) = some last ↔
      ∃ next, M.step state label = some next ∧ M.run next labels = some last := by
  simp [run, Option.bind_eq_some_iff]

/-- A concatenated run passes through a state that ends its first part. -/
theorem run_append {state last : σ} {front back : List ι} :
    M.run state (front ++ back) = some last ↔
      ∃ middle, M.run state front = some middle ∧ M.run middle back = some last := by
  induction front generalizing state with
  | nil => simp
  | cons label front ih =>
    simp only [List.cons_append, run_cons, ih]
    constructor
    · rintro ⟨next, stepped, middle, first, second⟩
      exact ⟨middle, ⟨next, stepped, first⟩, second⟩
    · rintro ⟨middle, ⟨next, stepped, first⟩, second⟩
      exact ⟨next, stepped, middle, first, second⟩

/-- The end of a run from a reachable state is reachable. -/
theorem Reachable.run {state last : σ} {labels : List ι} (reached : M.Reachable state)
    (ran : M.run state labels = some last) : M.Reachable last := by
  obtain ⟨start, before, initial, first⟩ := reached
  exact ⟨start, before ++ labels, initial, M.run_append.mpr ⟨state, first, ran⟩⟩

/-- A step from a reachable state leads to a reachable state. -/
theorem Reachable.step {state next : σ} {label : ι} (reached : M.Reachable state)
    (stepped : M.step state label = some next) : M.Reachable next :=
  Reachable.run M reached (show M.run state [label] = some next from
    M.run_cons.mpr ⟨next, stepped, rfl⟩)

/-- A property of states that every step keeps is kept by every run. -/
theorem run_invariant (property : σ → Prop)
    (kept : ∀ state label next, property state → M.step state label = some next → property next)
    {state last : σ} {labels : List ι} (holds : property state)
    (ran : M.run state labels = some last) : property last := by
  induction labels generalizing state with
  | nil => exact Option.some.inj ran ▸ holds
  | cons label labels ih =>
    obtain ⟨next, stepped, rest⟩ := M.run_cons.mp ran
    exact ih (kept _ _ _ holds stepped) rest

/-- A property of initial states that every step keeps holds in every reachable state. -/
theorem Reachable.invariant (property : σ → Prop)
    (begins : ∀ state, M.initial state → property state)
    (kept : ∀ state label next, property state → M.step state label = some next → property next)
    {state : σ} (reached : M.Reachable state) : property state := by
  obtain ⟨start, _, initial, ran⟩ := reached
  exact M.run_invariant property kept (begins start initial) ran

/-- A property that every step meeting the condition keeps is kept by every run obeying it. -/
theorem run_obeys_invariant {condition : σ → ι → Prop} (property : σ → Prop)
    (kept : ∀ state label next, condition state label → property state →
      M.step state label = some next → property next)
    {state last : σ} {labels : List ι} (obeys : M.Obeys condition state labels)
    (holds : property state) (ran : M.run state labels = some last) : property last := by
  induction labels generalizing state with
  | nil => exact Option.some.inj ran ▸ holds
  | cons label labels ih =>
    obtain ⟨next, stepped, rest⟩ := M.run_cons.mp ran
    exact ih (obeys.2 next stepped) (kept _ _ _ obeys.1 holds stepped) rest

/-- A condition on labels alone is obeyed by every run whose labels all meet it. -/
theorem obeys_of_labels {condition : ι → Prop} {labels : List ι}
    (all : ∀ label ∈ labels, condition label) (state : σ) :
    M.Obeys (fun _ label => condition label) state labels := by
  induction labels generalizing state with
  | nil => trivial
  | cons label labels ih =>
    exact ⟨all label List.mem_cons_self,
      fun next _ => ih (fun other inside => all other (List.mem_cons_of_mem label inside)) next⟩

/-- A run whose first step and whose rest meet a condition obeys it. -/
theorem Obeys.cons {M : Machine σ ι} {condition : σ → ι → Prop} {state next : σ} {label : ι}
    {labels : List ι} (meets : condition state label) (stepped : M.step state label = some next)
    (rest : M.Obeys condition next labels) : M.Obeys condition state (label :: labels) :=
  ⟨meets, fun _ same => Option.some.inj (stepped.symm.trans same) ▸ rest⟩

/-- The first part of a run that obeys a condition obeys it. -/
theorem Obeys.front {M : Machine σ ι} {condition : σ → ι → Prop} {state : σ}
    {front back : List ι} (obeys : M.Obeys condition state (front ++ back)) :
    M.Obeys condition state front := by
  induction front generalizing state with
  | nil => trivial
  | cons label front ih => exact ⟨obeys.1, fun next stepped => ih (obeys.2 next stepped)⟩

/-- A run that obeys two conditions obeys both at each step. -/
theorem Obeys.and {M : Machine σ ι} {condition other : σ → ι → Prop} {state : σ} {labels : List ι}
    (obeys : M.Obeys condition state labels) (also : M.Obeys other state labels) :
    M.Obeys (fun state label => condition state label ∧ other state label) state labels := by
  induction labels generalizing state with
  | nil => trivial
  | cons label labels ih =>
    exact ⟨⟨obeys.1, also.1⟩, fun next stepped => ih (obeys.2 next stepped) (also.2 next stepped)⟩

/-- Every step of a run that obeys a condition meets it. -/
theorem Obeys.middle {M : Machine σ ι} {condition : σ → ι → Prop} {state between : σ}
    {label : ι} {front back : List ι} (obeys : M.Obeys condition state (front ++ label :: back))
    (ran : M.run state front = some between) : condition between label := by
  induction front generalizing state with
  | nil => exact Option.some.inj ran ▸ obeys.1
  | cons first front ih =>
    obtain ⟨next, stepped, rest⟩ := M.run_cons.mp ran
    exact ih (obeys.2 next stepped) rest

/-- A condition that holds of every enabled step from the states of an invariant is obeyed by
every run that starts inside the invariant. -/
theorem obeys_of_invariant {condition : σ → ι → Prop} (property : σ → Prop)
    (meets : ∀ state label next, property state → M.step state label = some next →
      condition state label)
    (kept : ∀ state label next, property state → M.step state label = some next → property next)
    {state last : σ} {labels : List ι} (holds : property state)
    (ran : M.run state labels = some last) : M.Obeys condition state labels := by
  induction labels generalizing state with
  | nil => trivial
  | cons label labels ih =>
    obtain ⟨next, stepped, rest⟩ := M.run_cons.mp ran
    refine ⟨meets _ _ _ holds stepped, fun other same => ?_⟩
    obtain rfl := Option.some.inj (stepped.symm.trans same)
    exact ih (kept _ _ _ holds stepped) rest

/-- The weights of a run's labels, added up. -/
def weigh (weight : ι → ℕ) (labels : List ι) : ℕ := (labels.map weight).sum

/-- A run's weight is zero exactly when every label's weight is. -/
theorem weigh_eq_zero (weight : ι → ℕ) (labels : List ι) :
    weigh weight labels = 0 ↔ ∀ label ∈ labels, weight label = 0 := by
  induction labels with
  | nil => simp [weigh]
  | cons label labels ih =>
    simp only [weigh, List.map_cons, List.sum_cons, List.forall_mem_cons] at ih ⊢
    rw [← ih]
    omega

/-- The potential method: where every step meeting a condition pays its cost out of a potential
and what its label adds to it, so does the run. -/
theorem run_pays {condition : σ → ι → Prop} (property : σ → Prop) (potential : σ → ℕ)
    {cost gain : ι → ℕ}
    (kept : ∀ state label next, condition state label → property state →
      M.step state label = some next → property next)
    (pays : ∀ state label next, condition state label → property state →
      M.step state label = some next →
        potential next + cost label ≤ potential state + gain label)
    {state last : σ} {labels : List ι} (obeys : M.Obeys condition state labels)
    (holds : property state) (ran : M.run state labels = some last) :
    property last ∧ potential last + weigh cost labels ≤ potential state + weigh gain labels := by
  induction labels generalizing state with
  | nil =>
    obtain rfl := Option.some.inj ran
    exact ⟨holds, Nat.le_refl _⟩
  | cons label labels ih =>
    obtain ⟨next, stepped, rest⟩ := M.run_cons.mp ran
    have paid := pays _ _ _ obeys.1 holds stepped
    obtain ⟨held, bound⟩ := ih (obeys.2 next stepped) (kept _ _ _ obeys.1 holds stepped) rest
    refine ⟨held, ?_⟩
    simp only [weigh, List.map_cons, List.sum_cons] at bound ⊢
    omega

/-- A law between a state and a running total, kept by every step that adds the weight of its
label to the total, is kept by a run that adds the weight of the run. -/
theorem run_accumulates {condition : σ → ι → Prop} (law : σ → ℕ → Prop) {weight : ι → ℕ}
    (kept : ∀ state label next total, condition state label → law state total →
      M.step state label = some next → law next (total + weight label))
    {state last : σ} {labels : List ι} {total : ℕ} (obeys : M.Obeys condition state labels)
    (holds : law state total) (ran : M.run state labels = some last) :
    law last (total + weigh weight labels) := by
  induction labels generalizing state total with
  | nil => simpa [weigh, ← Option.some.inj ran] using holds
  | cons label labels ih =>
    obtain ⟨next, stepped, rest⟩ := M.run_cons.mp ran
    have later := ih (obeys.2 next stepped) (kept _ _ _ _ obeys.1 holds stepped) rest
    simpa [weigh, Nat.add_assoc] using later

/-- What the steps of a run print, one after another. -/
def output {β : Type*} (prints : σ → ι → List β) : σ → List ι → List β
  | _, [] => []
  | state, label :: labels =>
    prints state label ++ (M.step state label).elim [] fun next => output prints next labels

/-- Every step of the machine is a step of the other machine, or leaves its state unchanged. -/
structure Follows (M : Machine σ ι) (N : Machine τ κ) (view : σ → τ) : Prop where
  /-- Initial states are seen as initial states. -/
  initial : ∀ state, M.initial state → N.initial (view state)
  /-- A step is seen as a step or as no change. -/
  step : ∀ state label next, M.step state label = some next →
    view next = view state ∨ ∃ other, N.step (view state) other = some (view next)

/-- What is reachable is seen as reachable. -/
theorem Follows.reachable {M : Machine σ ι} {N : Machine τ κ} {view : σ → τ}
    (follows : Follows M N view) {state : σ} (reached : M.Reachable state) :
    N.Reachable (view state) := by
  refine Reachable.invariant M (fun state => N.Reachable (view state)) ?_ ?_ reached
  · intro start initial
    exact ⟨view start, [], follows.initial start initial, rfl⟩
  · intro state label next seen stepped
    rcases follows.step state label next stepped with same | ⟨other, moved⟩
    · rwa [same]
    · exact Reachable.step N seen moved

/-- The steps of a kind come to an end from the state, in whatever order they are taken. -/
def Ends (kind : σ → ι → Prop) : σ → Prop :=
  Acc fun next state => ∃ label, kind state label ∧ M.step state label = some next

/-- Steps that lower a rank, from the states of an invariant that they keep, come to an end. -/
theorem ends_of_rank {ρ : Type*} {kind : σ → ι → Prop} {less : ρ → ρ → Prop}
    (founded : WellFounded less) (property : σ → Prop) (rank : σ → ρ)
    (kept : ∀ state label next, property state → M.step state label = some next → property next)
    (lower : ∀ state label next, property state → kind state label →
      M.step state label = some next → less (rank next) (rank state))
    {state : σ} (holds : property state) : M.Ends kind state := by
  generalize place : rank state = height
  induction height using founded.induction generalizing state with
  | _ height ih =>
    subst place
    refine ⟨_, fun next ⟨label, own, stepped⟩ => ?_⟩
    exact ih _ (lower _ _ _ holds own stepped) (kept _ _ _ holds stepped) rfl

/-- Where the steps of a kind come to an end, some run of them does. -/
theorem Ends.stops {M : Machine σ ι} {kind : σ → ι → Prop} {state : σ}
    (ends : M.Ends kind state) : ∃ labels last, M.Obeys kind state labels ∧
      M.run state labels = some last ∧ ∀ label, kind last label → M.step last label = none := by
  induction ends with
  | intro state _ ih =>
    by_cases stuck : ∀ label, kind state label → M.step state label = none
    · exact ⟨[], state, trivial, rfl, stuck⟩
    · push Not at stuck
      obtain ⟨label, own, moves⟩ := stuck
      obtain ⟨next, stepped⟩ := Option.ne_none_iff_exists'.mp moves
      obtain ⟨labels, last, obeys, ran, stops⟩ := ih next ⟨label, own, stepped⟩
      exact ⟨label :: labels, last, obeys.cons own stepped,
        M.run_cons.mpr ⟨next, stepped, ran⟩, stops⟩

/-- Every step of the machine is seen as the labels that it tells to the other machine. An invariant
of the machine carries this, and may in turn use what is reachable in the other. -/
structure Simulates (M : Machine σ ι) (N : Machine τ κ) (view : σ → τ) (tells : σ → ι → List κ)
    (property : σ → Prop) : Prop where
  /-- Initial states are seen as initial states. -/
  initial : ∀ state, M.initial state → N.initial (view state) ∧ property state
  /-- Every step keeps the invariant. -/
  kept : ∀ state label next, N.Reachable (view state) → property state →
    M.step state label = some next → property next
  /-- A step is seen as the run of what it tells. -/
  step : ∀ state label next, N.Reachable (view state) → property state →
    M.step state label = some next → N.run (view state) (tells state label) = some (view next)

/-- A run is seen as the run of what its steps tell. -/
theorem Simulates.run {M : Machine σ ι} {N : Machine τ κ} {view : σ → τ} {tells : σ → ι → List κ}
    {property : σ → Prop} (simulates : Simulates M N view tells property) {state last : σ}
    {labels : List ι} (reached : N.Reachable (view state)) (holds : property state)
    (ran : M.run state labels = some last) :
    N.run (view state) (M.output tells state labels) = some (view last) ∧ property last := by
  induction labels generalizing state with
  | nil =>
    obtain rfl := Option.some.inj ran
    exact ⟨rfl, holds⟩
  | cons label labels ih =>
    obtain ⟨next, stepped, rest⟩ := M.run_cons.mp ran
    have first := simulates.step _ _ _ reached holds stepped
    obtain ⟨later, held⟩ :=
      ih (Reachable.run N reached first) (simulates.kept _ _ _ reached holds stepped) rest
    refine ⟨?_, held⟩
    rw [output, stepped]
    exact N.run_append.mpr ⟨view next, first, later⟩

/-- What is reachable is seen as reachable, and meets the invariant. -/
theorem Simulates.reachable {M : Machine σ ι} {N : Machine τ κ} {view : σ → τ}
    {tells : σ → ι → List κ} {property : σ → Prop}
    (simulates : Simulates M N view tells property) {state : σ} (reached : M.Reachable state) :
    N.Reachable (view state) ∧ property state := by
  obtain ⟨start, labels, initial, ran⟩ := reached
  obtain ⟨begins, holds⟩ := simulates.initial start initial
  have started : N.Reachable (view start) := ⟨view start, [], begins, rfl⟩
  obtain ⟨seen, held⟩ := simulates.run started holds ran
  exact ⟨Reachable.run N started seen, held⟩

end Machine

end Library
