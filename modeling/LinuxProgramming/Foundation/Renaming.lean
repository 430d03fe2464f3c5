import LinuxProgramming.Foundation.Monitor

/-! A schedule of a few processes, taken by members of a larger family.

The other members stay where they are. They may wait, so a signal that finds
nobody among the few could find one of them; such a signal is left out.
-/

set_option autoImplicit false

namespace LinuxProgramming.Foundation.Monitor

variable {Small Process Shared Call Result : Type}

def Action.rename (name : Small → Process) : Action Small Call → Action Process Call
  | .call process made => .call (name process) made
  | .lock process => .lock (name process)
  | .test process => .test (name process)
  | .spurious process => .spurious (name process)
  | .relock process => .relock (name process)
  | .update process => .update (name process)
  | .signal process woken => .signal (name process) (woken.map name)
  | .unlock process => .unlock (name process)

/-- `state` is `small` under the new names, and the others are in the phases `rest`. -/
structure Renames (name : Small → Process) (rest : Process → Phase Call Result)
    (small : State Small Shared Call Result) (state : State Process Shared Call Result) : Prop where
  phase : ∀ process, state.phase (name process) = small.phase process
  others : ∀ other, (∀ process, other ≠ name process) → state.phase other = rest other
  owner : state.owner = small.owner.map name
  shared : state.shared = small.shared
  history : ∀ entry ∈ small.history, ∃ same ∈ state.history, same.process = name entry.process

variable [DecidableEq Small] [DecidableEq Process] {monitor : Monitor Shared Call Result}
  {name : Small → Process} {rest : Process → Phase Call Result}
  {small next : State Small Shared Call Result} {state : State Process Shared Call Result}

theorem Renames.setPhase (renames : Renames name rest small state)
    (injective : Function.Injective name) (process : Small) (phase : Phase Call Result) :
    Renames name rest (small.setPhase process phase) (state.setPhase (name process) phase) where
  phase other := by
    by_cases equal : other = process
    · rw [equal, setPhase_same, setPhase_same]
    · rw [setPhase_other _ equal, setPhase_other _ (injective.ne equal), renames.phase]
  others other outside := by
    rw [setPhase_other _ (outside process)]
    exact renames.others other outside
  owner := renames.owner
  shared := renames.shared
  history := renames.history

theorem Renames.acquire (renames : Renames name rest small state)
    (injective : Function.Injective name) {process : Small} {call : Call}
    (taken : small.acquire process call = some next) :
    ∃ after, state.acquire (name process) call = some after ∧ Renames name rest next after := by
  unfold State.acquire at taken
  split at taken
  next => cases taken
  next free =>
    cases taken
    have still_free : state.owner = none := by rw [renames.owner, free, Option.map_none]
    have moved := renames.setPhase injective process (.testing call)
    refine ⟨{ state.setPhase (name process) (.testing call) with
      owner := some (name process)
      clock := state.clock + 1
      acquired := Function.update state.acquired (name process) state.clock }, ?_,
      ⟨moved.phase, moved.others, rfl, moved.shared, moved.history⟩⟩
    simp only [State.acquire, still_free]

/-- What the few do, the renamed members can do. -/
theorem Renames.step (renames : Renames name rest small state)
    (injective : Function.Injective name) {action : Action Small Call}
    (finds : ∀ process, action ≠ .signal process none)
    (taken : monitor.step small action = some next) :
    ∃ after, monitor.step state (action.rename name) = some after ∧
      Renames name rest next after := by
  cases effect_of_step taken with
  | @call process call idle =>
    refine ⟨_, ?_, renames.setPhase injective process (.locking call)⟩
    simp only [Action.rename, Monitor.step, renames.phase, idle]
  | lock outside acquired | relock outside acquired =>
    obtain ⟨after, taken, kept⟩ := renames.acquire injective acquired
    refine ⟨after, ?_, kept⟩
    simpa only [Action.rename, Monitor.step, renames.phase, outside] using taken
  | @wait process call testing blocked =>
    have moved := renames.setPhase injective process (.waiting call)
    refine ⟨{ state.setPhase (name process) (.waiting call) with
      owner := none, waiters := state.waiters ++ [name process] }, ?_,
      ⟨moved.phase, moved.others, rfl, moved.shared, moved.history⟩⟩
    simp only [Action.rename, Monitor.step, renames.phase, testing, renames.shared, blocked,
      ↓reduceIte]
  | @pass process call testing admitted =>
    refine ⟨_, ?_, renames.setPhase injective process (.updating call)⟩
    simp only [Action.rename, Monitor.step, renames.phase, testing, renames.shared, admitted,
      Bool.false_eq_true, ↓reduceIte]
  | @spurious process call waiting =>
    have moved := renames.setPhase injective process (.relocking call)
    refine ⟨{ state.setPhase (name process) (.relocking call) with
      waiters := state.waiters.erase (name process) }, ?_,
      ⟨moved.phase, moved.others, moved.owner, moved.shared, moved.history⟩⟩
    simp only [Action.rename, Monitor.step, renames.phase, waiting]
  | @update process call updating =>
    have moved := renames.setPhase injective process
      (.signalling call (monitor.update small.shared call).2)
    refine ⟨{ state.setPhase (name process) (.signalling call (monitor.update small.shared call).2) with
      shared := (monitor.update small.shared call).1 }, ?_,
      ⟨moved.phase, moved.others, moved.owner, rfl, moved.history⟩⟩
    simp only [Action.rename, Monitor.step, renames.phase, updating, renames.shared]
  | wakeNone => exact absurd rfl (finds _)
  | @wake process woken call other result signalling waiting =>
    have moved := (renames.setPhase injective process (.unlocking call result)).setPhase injective
      woken (.relocking other)
    refine ⟨{ (state.setPhase (name process) (.unlocking call result)).setPhase (name woken)
      (.relocking other) with waiters := state.waiters.erase (name woken) }, ?_,
      ⟨moved.phase, moved.others, moved.owner, moved.shared, moved.history⟩⟩
    simp only [Action.rename, Monitor.step, Option.map_some, renames.phase, signalling, waiting]
  | @unlock process call result unlocking =>
    have moved := renames.setPhase injective process .idle
    refine ⟨{ state.setPhase (name process) .idle with
      owner := none
      history := state.history ++ [⟨name process, state.acquired (name process), call, result⟩] }, ?_,
      ⟨moved.phase, moved.others, rfl, moved.shared, fun entry member => ?_⟩⟩
    · simp only [Action.rename, Monitor.step, renames.phase, unlocking]
    · rcases List.mem_append.mp member with earlier | last
      · obtain ⟨same, known, named⟩ := renames.history entry earlier
        exact ⟨same, List.mem_append_left _ known, named⟩
      · rw [List.mem_singleton] at last
        refine ⟨_, List.mem_append_right _ List.mem_cons_self, ?_⟩
        rw [last]

/-- A whole schedule of the few leads the larger family to the same place. -/
theorem Renames.exec {admits : State Process Shared Call Result → Action Process Call → Bool}
    (injective : Function.Injective name) {schedule : List (Action Small Call)}
    (finds : ∀ action ∈ schedule, ∀ process, action ≠ .signal process none)
    (admitted : ∀ action ∈ schedule, ∀ state, admits state (action.rename name) = true)
    (renames : Renames name rest small state)
    (reached : ((machine Process monitor).guarded admits).Reachable state)
    (run : (machine Small monitor).exec small schedule = some next) :
    ∃ after, ((machine Process monitor).guarded admits).Reachable after ∧
      Renames name rest next after := by
  induction schedule generalizing small state with
  | nil =>
    cases run
    exact ⟨state, reached, renames⟩
  | cons action later ih =>
    obtain ⟨middle, taken, following⟩ := Machine.exec_cons.mp run
    obtain ⟨after, stepped, kept⟩ :=
      renames.step injective (finds action List.mem_cons_self) taken
    have admitted_first := admitted action List.mem_cons_self state
    exact ih (fun other member => finds other (List.mem_cons_of_mem _ member))
      (fun other member => admitted other (List.mem_cons_of_mem _ member)) kept
      (reached.step (Machine.guarded_step.mpr ⟨admitted_first, stepped⟩)) following

end LinuxProgramming.Foundation.Monitor
