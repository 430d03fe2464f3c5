import Mathlib.Logic.Function.Basic

/-! Labelled machines with a partial step function, and rules for all of their runs.

An action that is not enabled has no successor, so a run is a list of actions
and a schedule is nothing but such a list. A guard restricts which steps a run
may take; an invariant that needs the guard is proved about the guarded machine.
-/

set_option autoImplicit false

namespace LinuxProgramming.Foundation

/-- A start state and the successor of a state under an enabled action. -/
structure Machine (State Action : Type) where
  start : State
  step : State → Action → Option State

namespace Machine

variable {State Action : Type}

/-- The states that some finite run from the start state leads to. -/
inductive Reachable (machine : Machine State Action) : State → Prop where
  | start : Reachable machine machine.start
  | step {state next : State} {action : Action} : Reachable machine state →
      machine.step state action = some next → Reachable machine next

/-- Follow a schedule; a disabled action ends it without a result. -/
def exec (machine : Machine State Action) : State → List Action → Option State
  | state, [] => some state
  | state, action :: rest =>
    match machine.step state action with
    | some next => machine.exec next rest
    | none => none

/-- No action is enabled: the run is over. -/
def Stuck (machine : Machine State Action) (state : State) : Prop :=
  ∀ action, machine.step state action = none

/-- Every state along a run has the property. -/
def Always (machine : Machine State Action) (holds : State → Prop) (state : State)
    (schedule : List Action) : Prop :=
  ∀ front middle, front <+: schedule → machine.exec state front = some middle → holds middle

/-- No run is longer than some bound. -/
def Terminates (machine : Machine State Action) : Prop :=
  ∃ bound, ∀ schedule, (machine.exec machine.start schedule).isSome → schedule.length ≤ bound

/-- The same machine, taking only the steps whose source state admits the action. -/
def guarded (machine : Machine State Action) (admits : State → Action → Bool) :
    Machine State Action where
  start := machine.start
  step state action := if admits state action then machine.step state action else none

variable {machine : Machine State Action}

/-- A run takes its first step, and then the others. -/
theorem exec_cons {state final : State} {action : Action} {rest : List Action} :
    machine.exec state (action :: rest) = some final ↔
      ∃ next, machine.step state action = some next ∧ machine.exec next rest = some final := by
  simp only [exec]
  cases machine.step state action with
  | none => simp
  | some next => simp

theorem exec_append (state : State) (first second : List Action) :
    machine.exec state (first ++ second) =
      (machine.exec state first).bind fun middle => machine.exec middle second := by
  induction first generalizing state with
  | nil => rfl
  | cons action first ih =>
    simp only [List.cons_append, exec]
    split
    next next taken => exact ih next
    next => rfl

theorem reachable_of_exec {schedule : List Action} {state final : State}
    (from_start : machine.Reachable state) (run : machine.exec state schedule = some final) :
    machine.Reachable final := by
  induction schedule generalizing state with
  | nil =>
    cases run
    exact from_start
  | cons action rest ih =>
    obtain ⟨next, taken, later⟩ := exec_cons.mp run
    exact ih (from_start.step taken) later

/-- A run from the start ends in a reachable state. -/
theorem exists_reachable {Facts : Type} {facts : State → Facts} {result : Facts}
    {schedule : List Action}
    (runs : (machine.exec machine.start schedule).map facts = some result) :
    ∃ state, machine.Reachable state ∧ facts state = result := by
  obtain ⟨state, run, same⟩ := Option.map_eq_some_iff.mp runs
  exact ⟨state, reachable_of_exec .start run, same⟩

/-- What holds at the start and survives every step holds of every reachable state. -/
theorem invariant {holds : State → Prop} (start : holds machine.start)
    (preserved : ∀ {state action next}, holds state →
      machine.step state action = some next → holds next)
    {state : State} (reached : machine.Reachable state) : holds state := by
  induction reached with
  | start => exact start
  | step _ taken ih => exact preserved ih taken

/-- A run is not longer than what it takes from a measure that every step decreases. -/
theorem exec_length_le {measure : State → Nat}
    (decreases : ∀ {state action next}, machine.Reachable state →
      machine.step state action = some next → measure next < measure state)
    {state final : State} {schedule : List Action} (reached : machine.Reachable state)
    (run : machine.exec state schedule = some final) :
    schedule.length + measure final ≤ measure state := by
  induction schedule generalizing state with
  | nil =>
    cases run
    simp
  | cons action rest ih =>
    obtain ⟨next, taken, run⟩ := exec_cons.mp run
    have later := ih (reached.step taken) run
    have here := decreases reached taken
    rw [List.length_cons]
    omega

theorem terminates_of_measure {measure : State → Nat}
    (decreases : ∀ {state action next}, machine.Reachable state →
      machine.step state action = some next → measure next < measure state) :
    machine.Terminates := by
  refine ⟨measure machine.start, fun schedule runs => ?_⟩
  obtain ⟨final, run⟩ := Option.isSome_iff_exists.mp runs
  have := exec_length_le decreases .start run
  omega

/-- Where every run ends, there is one to its end. -/
theorem exists_stuck {measure : State → Nat}
    (decreases : ∀ {state action next}, machine.Reachable state →
      machine.step state action = some next → measure next < measure state) :
    ∃ final, machine.Reachable final ∧ machine.Stuck final := by
  suffices from_here : ∀ state, machine.Reachable state →
      ∃ final, machine.Reachable final ∧ machine.Stuck final from from_here _ .start
  intro state
  induction left : measure state using Nat.strongRecOn generalizing state with
  | ind count ih =>
    intro reached
    by_cases ended : machine.Stuck state
    · exact ⟨state, reached, ended⟩
    · obtain ⟨action, enabled⟩ := not_forall.mp ended
      obtain ⟨next, taken⟩ := Option.ne_none_iff_exists'.mp enabled
      exact ih (measure next) (left ▸ decreases reached taken) next rfl (reached.step taken)

theorem guarded_step {admits : State → Action → Bool} {state next : State} {action : Action} :
    (machine.guarded admits).step state action = some next ↔
      admits state action = true ∧ machine.step state action = some next := by
  simp only [guarded]
  split <;> simp_all

/-- What a guarded machine executes, the machine itself executes. -/
theorem exec_of_guarded {admits : State → Action → Bool} {schedule : List Action}
    {state final : State} (run : (machine.guarded admits).exec state schedule = some final) :
    machine.exec state schedule = some final := by
  induction schedule generalizing state with
  | nil => exact run
  | cons action rest ih =>
    obtain ⟨next, taken, later⟩ := exec_cons.mp run
    exact exec_cons.mpr ⟨next, (guarded_step.mp taken).2, ih later⟩

/-- Actions that are always admitted are executed as without the guard. -/
theorem exec_guarded {admits : State → Action → Bool} {schedule : List Action}
    (admitted : ∀ action ∈ schedule, ∀ state, admits state action = true) {state final : State}
    (run : machine.exec state schedule = some final) :
    (machine.guarded admits).exec state schedule = some final := by
  induction schedule generalizing state with
  | nil => exact run
  | cons action rest ih =>
    obtain ⟨next, taken, later⟩ := exec_cons.mp run
    have others := fun other member => admitted other (List.mem_cons_of_mem action member)
    have here := admitted action List.mem_cons_self state
    exact exec_cons.mpr ⟨next, guarded_step.mpr ⟨here, taken⟩, ih others later⟩

/-- A guard only removes runs. -/
theorem Reachable.of_guarded {admits : State → Action → Bool} {state : State}
    (reached : (machine.guarded admits).Reachable state) : machine.Reachable state := by
  induction reached with
  | start => exact .start
  | step _ taken ih => exact ih.step (guarded_step.mp taken).2

/-- A weaker guard admits the same runs. -/
theorem Reachable.admitted {admits weaker : State → Action → Bool} {state : State}
    (implies : ∀ state action, admits state action = true → weaker state action = true)
    (reached : (machine.guarded admits).Reachable state) :
    (machine.guarded weaker).Reachable state := by
  induction reached with
  | start => exact .start
  | step _ taken ih =>
    obtain ⟨admitted, stepped⟩ := guarded_step.mp taken
    exact ih.step (guarded_step.mpr ⟨implies _ _ admitted, stepped⟩)

/-- The invariant rule for guarded runs: an unguarded invariant may be used, and
the guard is known of the step that is taken. -/
theorem guarded_invariant {admits : State → Action → Bool} {known holds : State → Prop}
    (always : ∀ {state}, machine.Reachable state → known state)
    (start : holds machine.start)
    (preserved : ∀ {state action next}, known state → holds state → admits state action = true →
      machine.step state action = some next → holds next)
    {state : State} (reached : (machine.guarded admits).Reachable state) : holds state := by
  induction reached with
  | start => exact start
  | @step state next action before taken ih =>
    obtain ⟨admitted, stepped⟩ := guarded_step.mp taken
    exact preserved (always before.of_guarded) ih admitted stepped

/-- What no step brings about held at the start of a run if it holds at its end. -/
theorem backwards {holds : State → Prop}
    (before : ∀ {state action next}, machine.step state action = some next → holds next → holds state)
    {state final : State} {schedule : List Action}
    (run : machine.exec state schedule = some final) (kept : holds final) : holds state := by
  induction schedule generalizing state with
  | nil =>
    cases run
    exact kept
  | cons action rest ih =>
    obtain ⟨next, taken, later⟩ := exec_cons.mp run
    exact before taken (ih later)

/-- Where every step keeps a property exactly if the guard admits it, a run keeps the
property exactly if all of its steps are admitted. -/
theorem holds_iff_guarded {admits : State → Action → Bool} {holds : State → Prop}
    (decides : ∀ {state action next}, machine.step state action = some next →
      (holds next ↔ holds state ∧ admits state action = true))
    {state final : State} {schedule : List Action} (start : holds state)
    (run : machine.exec state schedule = some final) :
    holds final ↔ (machine.guarded admits).exec state schedule = some final := by
  induction schedule generalizing state with
  | nil =>
    cases run
    exact iff_of_true start rfl
  | cons action rest ih =>
    obtain ⟨next, taken, later⟩ := exec_cons.mp run
    rw [exec_cons]
    constructor
    · intro kept
      -- What the first step loses no later step brings back.
      have holding := backwards (fun taken holds => ((decides taken).mp holds).1) later kept
      have admitted := ((decides taken).mp holding).2
      exact ⟨next, guarded_step.mpr ⟨admitted, taken⟩, (ih holding later).mp kept⟩
    · rintro ⟨other, stepped, guarded⟩
      obtain ⟨admitted, same⟩ := guarded_step.mp stepped
      cases taken.symm.trans same
      exact (ih ((decides taken).mpr ⟨start, admitted⟩) later).mpr guarded

theorem always_cons {holds : State → Prop} {state next : State} {action : Action}
    {rest : List Action} (taken : machine.step state action = some next) :
    machine.Always holds state (action :: rest) ↔
      holds state ∧ machine.Always holds next rest := by
  constructor
  · intro always
    refine ⟨always [] state (List.nil_prefix) rfl, ?_⟩
    intro front middle early run
    exact always (action :: front) middle (List.cons_prefix_cons.mpr ⟨rfl, early⟩)
      (exec_cons.mpr ⟨next, taken, run⟩)
  · rintro ⟨here, always⟩ front middle early run
    cases front with
    | nil =>
      cases run
      exact here
    | cons first front =>
      obtain ⟨rfl, behind⟩ := List.cons_prefix_cons.mp early
      obtain ⟨other, same, later⟩ := exec_cons.mp run
      cases taken.symm.trans same
      exact always front middle behind later

/-- Where a step from a state with a property keeps it exactly if the guard admits it, a run
has the property all along exactly if all of its steps are admitted. -/
theorem always_iff_guarded {admits : State → Action → Bool} {holds : State → Prop}
    (decides : ∀ {state action next}, holds state → machine.step state action = some next →
      (holds next ↔ admits state action = true))
    {state final : State} {schedule : List Action} (start : holds state)
    (run : machine.exec state schedule = some final) :
    machine.Always holds state schedule ↔
      (machine.guarded admits).exec state schedule = some final := by
  induction schedule generalizing state with
  | nil =>
    cases run
    refine iff_of_true ?_ rfl
    intro front middle early run
    cases List.prefix_nil.mp early
    cases run
    exact start
  | cons action rest ih =>
    obtain ⟨next, taken, later⟩ := exec_cons.mp run
    rw [always_cons taken, and_iff_right start, exec_cons]
    constructor
    · intro always
      have kept : holds next := always [] next List.nil_prefix rfl
      exact ⟨next, guarded_step.mpr ⟨(decides start taken).mp kept, taken⟩,
        (ih kept later).mp always⟩
    · rintro ⟨other, stepped, guarded⟩
      obtain ⟨admitted, same⟩ := guarded_step.mp stepped
      cases taken.symm.trans same
      exact (ih ((decides start taken).mpr admitted) later).mpr guarded

end Machine

end LinuxProgramming.Foundation
