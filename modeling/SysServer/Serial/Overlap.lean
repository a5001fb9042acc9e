import SysServer.Serial.Descriptor

/-!
# Threads that are not apart

The condition under which the serial descriptor keeps its discipline leaves out no more than it
has to. A step that breaks it leaves a thread that is past its loop test and a number that the
other thread has closed, and that thread's own steps lead to a call on the number.
-/

namespace SysServer.Serial

open Library Function

variable {state next : State} {label : Label} {thread closer : Thread} {before after : Place}

/-- Some continuation breaks the discipline. -/
def Breaks (state : State) : Prop :=
  ∃ labels last, machine.run state labels = some last ∧ ¬Disciplined last

/-- A step to a state that some continuation breaks. -/
theorem Breaks.step (stepped : step state label = some next) (breaks : Breaks next) :
    Breaks state := by
  obtain ⟨labels, last, ran, broken⟩ := breaks
  exact ⟨label :: labels, last, machine.run_cons.mpr ⟨next, stepped, ran⟩, broken⟩

/-- A thread calls on the number that the other has closed. -/
theorem late_call {operation : Operation} {target file : Option File}
    (closes : ⟨closer, .close, state.gIhandle, target⟩ ∈ state.history)
    (different : thread ≠ closer)
    (called : next.history = state.history ++ [⟨thread, operation, state.gIhandle, file⟩]) :
    ¬Disciplined next := by
  intro disciplined
  have after := disciplined.after
  rw [called, List.pairwise_append] at after
  exact different (after.2.2 _ closes _ List.mem_cons_self rfl rfl)

section Late

variable {target : Option File} (closes : ⟨closer, .close, state.gIhandle, target⟩ ∈ state.history)
  (different : thread ≠ closer)

include closes different

/-- A thread that is about to read or write the number. -/
theorem breaks_transferring (place : state.place thread = .transferring state.gIhandle) :
    Breaks state := by
  have stepped : step state (.transfer thread (-1) false) =
      some (devCall thread state state.gIhandle (-1) false) := by
    cases thread <;> simp [step, place, devRead, devWrite]
  exact .step stepped ⟨[], _, rfl, late_call closes different rfl⟩

/-- A thread that is about to close the number. -/
theorem breaks_closing (place : state.place thread = .closing state.gIhandle)
    (positive : 0 < state.gIhandle) : Breaks state := by
  have stepped : step state (.close thread) = some (closefd thread state state.gIhandle) := by
    simp [step, place]
  rw [closefd, if_pos positive] at stepped
  exact .step stepped ⟨[], _, rfl, late_call closes different rfl⟩

/-- A thread that is about to copy the number. -/
theorem breaks_calling (place : state.place thread = .calling) : Breaks state := by
  have stepped : step state (.call thread) =
      some (state.placeAt thread (.transferring state.gIhandle)) := by
    simp [step, place]
  exact .step stepped (breaks_transferring closes different (update_self ..))

/-- The writer in `fgets`. -/
theorem breaks_prompting (writes : thread = .writer) (place : state.place thread = .prompting) :
    Breaks state := by
  subst writes
  have stepped : step state .prompt = some (state.placeAt .writer .calling) := by
    simp [step, place]
  have calling : (state.placeAt .writer .calling).place .writer = .calling := rfl
  exact .step stepped (breaks_calling closes different calling)

/-- A thread that is past its loop test when the other has closed the number. -/
theorem breaks_committed (positive : 0 < state.gIhandle)
    (committed : (state.place thread).committed = true)
    (copies : ∀ fd, (state.place thread).copy = some fd → fd = state.gIhandle)
    (asks : state.place thread = .prompting → thread = .writer) : Breaks state := by
  cases place : state.place thread with
  | prompting => exact breaks_prompting closes different (asks place) place
  | calling => exact breaks_calling closes different place
  | transferring fd =>
    obtain rfl := copies fd (by rw [place]; rfl)
    exact breaks_transferring closes different place
  | closing fd =>
    obtain rfl := copies fd (by rw [place]; rfl)
    exact breaks_closing closes different place positive
  | _ =>
    rw [place] at committed
    cases committed

end Late

/-- The thread is in `fgets`. -/
def Place.prompts : Place → Bool
  | .prompting => true
  | _ => false

/-- The reader asks for no input. -/
def Silent (state : State) : Prop := (state.place .reader).prompts = false

/-- A thread moves, and not the reader to `fgets`. -/
theorem Silent.place (silent : Silent state) (thread : Thread) (after : Place)
    (stays : thread = .reader → after.prompts = false) : Silent (state.placeAt thread after) := by
  cases thread with
  | reader => exact stays rfl
  | writer => exact silent

/-- Every step keeps the reader silent. -/
theorem Silent.moves (silent : Silent state) (moves : Moves state label next) : Silent next := by
  cases moves with
  | enable place => exact silent.place .reader .opening fun _ => rfl
  | «open» place =>
    apply silent.place .reader
    intro _
    split <;> rfl
  | refuse place => exact silent.place .reader .adding fun _ => rfl
  | alone place => exact silent.place .reader .testing fun _ => rfl
  | both place => exact (silent.place .reader .testing fun _ => rfl).place .writer .testing nofun
  | pass place running =>
    apply silent.place
    rintro rfl
    rfl
  | @transfer thread fd ret interrupted place =>
    apply silent.place thread (returned fd ret interrupted)
    intro _
    unfold returned
    split
    · rfl
    · split <;> rfl
  | @close thread fd place =>
    unfold closefd
    split
    · exact silent.place thread .stopping fun _ => rfl
    · exact silent.place thread .stopping fun _ => rfl
  | @stop thread place => exact silent.place thread .testing fun _ => rfl
  | acquire free => exact silent
  | release held => exact silent
  | _ => exact silent.place _ _ fun _ => rfl

/-- **The condition is exact.** When a run has kept the threads apart and its next step does not,
one thread alone can go on to use the number that the other has closed. -/
theorem overlap_breaks {labels : List Label} {first : State} (initial : machine.initial first)
    (apart : machine.Obeys Apart first labels) (ran : machine.run first labels = some state)
    (overlap : ¬Apart state label) (stepped : step state label = some next) :
    Breaks next := by
  have silent : Silent state := by
    obtain ⟨uCrunning, gIhandle, table, rfl⟩ := initial
    exact machine.run_invariant Silent
      (fun _ _ _ silent stepped => silent.moves (step_moves stepped))
      (show Silent (.start uCrunning gIhandle table) from rfl) ran
  have standing := run_standing initial apart ran
  cases step_moves stepped with
  | @pass thread place running =>
    obtain ⟨positive, stopping⟩ : 0 < state.gIhandle ∧ state.place thread.other = .stopping := by
      simp only [Apart, not_or, not_not] at overlap
      exact ⟨by omega, overlap.2.2⟩
    obtain unclosed | ⟨closer, closed⟩ := standing
    · exact absurd (unclosed.stops _ stopping) (by omega)
    · have closes := closed.closes
      have different : thread ≠ closer := by
        rintro rfl
        have still := closed.stored.resolve_left (by simp [running])
        rw [place] at still
        cases still
      have entered : (state.placeAt thread thread.body).place thread = thread.body :=
        update_self ..
      refine breaks_committed closes different positive ?_ ?_ ?_
      · rw [entered]
        cases thread <;> rfl
      · rw [entered]
        cases thread <;> nofun
      · rw [entered]
        cases thread <;> simp [Thread.body]
  | @exit thread place clear =>
    exact absurd (.inr (.inl clear)) overlap
  | @close thread fd place =>
    obtain ⟨positive, committed⟩ : 0 < state.gIhandle ∧
        (state.place thread.other).committed = true := by
      simp only [Apart, not_or] at overlap
      exact ⟨by omega, by simpa using overlap.2⟩
    obtain unclosed | ⟨closer, closed⟩ := standing
    · obtain rfl := unclosed.copies thread fd (by rw [place]; rfl)
      have different : thread.other ≠ thread := by cases thread <;> decide
      have stays : (state.placeAt thread .stopping).place thread.other =
          state.place thread.other := update_of_ne different ..
      rw [closefd, if_pos positive]
      refine breaks_committed (List.mem_append_right _ List.mem_cons_self) different positive
        (stays ▸ committed) (stays ▸ unclosed.copies thread.other) ?_
      rw [stays]
      cases thread with
      | reader => exact fun _ => rfl
      | writer =>
        intro asks
        rw [Silent, show state.place .reader = .prompting from asks] at silent
        cases silent
    · exact closed.not_committed place rfl
  | _ => exact absurd trivial overlap

end SysServer.Serial
