import LinuxProgramming.Foundation.Machine

/-! Forward simulations between two machines.

One step of the first machine is matched by any number of steps of the second, so
a step that the second does not see is matched by none. What is proved of the
second machine in all of its states is then known of the first.
-/

set_option autoImplicit false

namespace LinuxProgramming.Foundation.Machine

variable {State Action Abstract Event : Type}

/-- The second machine can always follow the first one; the facts that hold of the
states of both may be used. -/
structure Simulates (concrete : Machine State Action) (abstract : Machine Abstract Event)
    (related : State → Abstract → Prop) : Prop where
  start : related concrete.start abstract.start
  step : ∀ {state next action view}, concrete.Reachable state → abstract.Reachable view →
    related state view → concrete.step state action = some next →
    ∃ events after, abstract.exec view events = some after ∧ related next after

variable {concrete : Machine State Action} {abstract : Machine Abstract Event}
  {related : State → Abstract → Prop}

theorem Simulates.reachable (simulates : concrete.Simulates abstract related) {state : State}
    (reached : concrete.Reachable state) : ∃ view, abstract.Reachable view ∧ related state view := by
  induction reached with
  | start => exact ⟨abstract.start, .start, simulates.start⟩
  | step before taken ih =>
    obtain ⟨view, reached, matched⟩ := ih
    obtain ⟨events, after, run, next⟩ := simulates.step before reached matched taken
    exact ⟨after, reachable_of_exec reached run, next⟩

/-- The steps of a view that is a function of the state: none, or one. -/
theorem simulates_of_view {view : State → Abstract} (start : view concrete.start = abstract.start)
    (steps : ∀ {state next action}, concrete.Reachable state → abstract.Reachable (view state) →
      concrete.step state action = some next →
      view next = view state ∨ ∃ event, abstract.step (view state) event = some (view next)) :
    concrete.Simulates abstract fun state seen => seen = view state := by
  refine ⟨start.symm, ?_⟩
  rintro state next action _ before reached rfl taken
  rcases steps before reached taken with same | ⟨event, matched⟩
  · exact ⟨[], view state, rfl, same.symm⟩
  · exact ⟨[event], view next, exec_cons.mpr ⟨view next, matched, rfl⟩, rfl⟩

end LinuxProgramming.Foundation.Machine
