import LinuxProgramming.Foundation.Monitor

/-! Monitors that one process at a time calls.

As long as nobody else makes a call, nobody can change the shared data while the
process waits: a call that has found itself blocked stays blocked.
-/

set_option autoImplicit false

namespace LinuxProgramming.Foundation.Monitor

variable {Process Shared Call Result : Type}

/-- The call that a process is in. -/
def Phase.calling : Phase Call Result → Option Call
  | .idle => none
  | .locking call | .testing call | .waiting call | .relocking call | .updating call
  | .signalling call _ | .unlocking call _ => some call

/-- No process is in a call. -/
structure Quiet (state : State Process Shared Call Result) : Prop where
  idle : ∀ process, state.phase process = .idle
  free : state.owner = none
  nobody : state.waiters = []

/-- One process is in a call, and no other one is. -/
structure Alone (monitor : Monitor Shared Call Result) (process : Process) (call : Call)
    (state : State Process Shared Call Result) : Prop where
  calling : (state.phase process).calling = some call
  others : ∀ other, other ≠ process → state.phase other = .idle
  nobody : (∀ other, state.phase process ≠ .waiting other) → state.waiters = []
  queue : ∀ other, state.phase process = .waiting other → state.waiters = [process]
  blocked : ∀ other, state.phase process = .waiting other →
    monitor.blocked state.shared call = true

variable [DecidableEq Process] {monitor : Monitor Shared Call Result} {process : Process}
  {call : Call} {state next : State Process Shared Call Result}

theorem Quiet.enter (quiet : Quiet state) (monitor : Monitor Shared Call Result) (process : Process)
    (call : Call) : Alone monitor process call (state.setPhase process (.locking call)) where
  calling := by rw [setPhase_same]; rfl
  others other different := (setPhase_other _ different).trans (quiet.idle other)
  nobody _ := quiet.nobody
  queue other waiting := by
    rw [setPhase_same] at waiting
    cases waiting
  blocked other waiting := by
    rw [setPhase_same] at waiting
    cases waiting

/-- Nothing goes on before the next call. -/
theorem Quiet.idle_step (quiet : Quiet state) {action : Action Process Call}
    (taken : monitor.step state action = some next) : ∃ process call, action = .call process call := by
  cases effect_of_step taken with
  | @call process call _ => exact ⟨process, call, rfl⟩
  | @lock process _ _ busy _ | @wait process _ busy _ | @pass process _ busy _ | @spurious process _ busy
  | @relock process _ _ busy _ | @update process _ busy | @wakeNone process _ _ busy _
  | @wake process _ _ _ _ busy _ | @unlock process _ _ busy =>
    rw [quiet.idle process] at busy
    cases busy

/-- Whoever is in a call is the process itself. -/
theorem Alone.caller (alone : Alone monitor process call state) {other : Process} {also : Call}
    (busy : (state.phase other).calling = some also) : other = process ∧ also = call := by
  by_cases same : other = process
  · subst same
    exact ⟨rfl, Option.some.inj (busy.symm.trans alone.calling)⟩
  · rw [alone.others other same] at busy
    cases busy

/-- The process goes on in its call. -/
theorem Alone.move (alone : Alone monitor process call state) {phase : Phase Call Result}
    (calling : phase.calling = some call) (moving : ∀ other, phase ≠ .waiting other)
    (nobody : state.waiters = []) : Alone monitor process call (state.setPhase process phase) where
  calling := by rwa [setPhase_same]
  others other different := (setPhase_other _ different).trans (alone.others other different)
  nobody _ := nobody
  queue other waiting := by
    rw [setPhase_same] at waiting
    exact absurd waiting (moving other)
  blocked other waiting := by
    rw [setPhase_same] at waiting
    exact absurd waiting (moving other)

theorem Alone.acquire (alone : Alone monitor process call state)
    (moving : ∀ other, state.phase process ≠ .waiting other)
    (acquired : state.acquire process call = some next) :
    Alone monitor process call next ∧ next.history = state.history := by
  unfold State.acquire at acquired
  split at acquired
  next => cases acquired
  next =>
    cases acquired
    have moved : Alone monitor process call (state.setPhase process (.testing call)) :=
      alone.move rfl (by simp) (alone.nobody moving)
    exact ⟨⟨moved.calling, moved.others, moved.nobody, moved.queue, moved.blocked⟩, rfl⟩

/-- The process finds itself blocked, and is the only one in the queue. -/
theorem Alone.waits (alone : Alone monitor process call state)
    (testing : state.phase process = .testing call)
    (blocked : monitor.blocked state.shared call = true) :
    Alone monitor process call { state.setPhase process (.waiting call) with
      owner := none, waiters := state.waiters ++ [process] } := by
  have nobody := alone.nobody (by simp [testing])
  have waits : (state.setPhase process (.waiting call)).phase process = .waiting call :=
    setPhase_same process (.waiting call)
  refine ⟨congrArg Phase.calling waits, fun other different => ?_, fun moving => ?_, fun _ _ => ?_,
    fun _ _ => blocked⟩
  · exact (setPhase_other _ different).trans (alone.others other different)
  · exact absurd waits (moving call)
  · simp only [nobody, List.nil_append]

/-- The process leaves the queue, and nobody is left in it. -/
theorem Alone.wakes (alone : Alone monitor process call state) {other : Call}
    (waiting : state.phase process = .waiting other) :
    Alone monitor process call { state.setPhase process (.relocking call) with
      waiters := state.waiters.erase process } := by
  have left : state.waiters.erase process = [] := by
    rw [alone.queue other waiting, List.erase_cons_head]
  have relocks : (state.setPhase process (.relocking call)).phase process = .relocking call :=
    setPhase_same process (.relocking call)
  refine ⟨congrArg Phase.calling relocks, fun other different => ?_, fun _ => left,
    fun _ still => ?_, fun _ still => ?_⟩
  · exact (setPhase_other _ different).trans (alone.others other different)
  · cases relocks.symm.trans still
  · cases relocks.symm.trans still

/-- A step that is no new call belongs to the one call, and may finish it. -/
theorem Alone.step (alone : Alone monitor process call state) {action : Action Process Call}
    (taken : monitor.step state action = some next)
    (inside : ∀ other also, action ≠ .call other also) :
    (Alone monitor process call next ∧ next.history = state.history ∧
      ∀ other, action ≠ .unlock other) ∨
    (Quiet next ∧ action = .unlock process ∧
      next.history.map Finished.call = state.history.map Finished.call ++ [call]) := by
  cases effect_of_step taken with
  | @call other also _ => exact absurd rfl (inside other also)
  | @lock other also _ locking acquired =>
    obtain ⟨rfl, rfl⟩ := alone.caller (by rw [locking]; rfl)
    obtain ⟨kept, same⟩ := alone.acquire (by simp [locking]) acquired
    exact .inl ⟨kept, same, by simp⟩
  | @relock other also _ relocking acquired =>
    obtain ⟨rfl, rfl⟩ := alone.caller (by rw [relocking]; rfl)
    obtain ⟨kept, same⟩ := alone.acquire (by simp [relocking]) acquired
    exact .inl ⟨kept, same, by simp⟩
  | @wait other also testing blocked =>
    obtain ⟨rfl, rfl⟩ := alone.caller (by rw [testing]; rfl)
    exact .inl ⟨alone.waits testing blocked, rfl, by simp⟩
  | @pass other also testing _ =>
    obtain ⟨rfl, rfl⟩ := alone.caller (by rw [testing]; rfl)
    exact .inl ⟨alone.move rfl (by simp) (alone.nobody (by simp [testing])), rfl, by simp⟩
  | @spurious other also waiting =>
    obtain ⟨rfl, rfl⟩ := alone.caller (by rw [waiting]; rfl)
    exact .inl ⟨alone.wakes waiting, rfl, by simp⟩
  | @update other also updating =>
    obtain ⟨rfl, rfl⟩ := alone.caller (by rw [updating]; rfl)
    have moved : Alone monitor other also (state.setPhase other (.signalling also
        (monitor.update state.shared also).2)) :=
      alone.move rfl (by simp) (alone.nobody (by simp [updating]))
    have signals : (state.setPhase other (.signalling also
        (monitor.update state.shared also).2)).phase other = .signalling also _ :=
      setPhase_same other _
    refine .inl ⟨⟨moved.calling, moved.others, moved.nobody, moved.queue, ?_⟩, rfl, by simp⟩
    intro another waiting
    cases signals.symm.trans waiting
  | @wakeNone other also result signalling _ =>
    obtain ⟨rfl, rfl⟩ := alone.caller (by rw [signalling]; rfl)
    exact .inl ⟨alone.move rfl (by simp) (alone.nobody (by simp [signalling])), rfl, by simp⟩
  | @wake other woken also another result signalling waiting =>
    obtain ⟨rfl, -⟩ := alone.caller (by rw [signalling]; rfl)
    have waits : (state.phase woken).calling = some another := by rw [waiting]; rfl
    obtain ⟨rfl, -⟩ := alone.caller waits
    cases signalling.symm.trans waiting
  | @unlock other also result unlocking =>
    obtain ⟨rfl, rfl⟩ := alone.caller (by rw [unlocking]; rfl)
    refine .inr ⟨⟨fun another => ?_, rfl, alone.nobody (by simp [unlocking])⟩, rfl, ?_⟩
    · by_cases same : another = other
      · subst same
        exact setPhase_same another .idle
      · exact (setPhase_other .idle same).trans (alone.others another same)
    · rw [List.map_append]
      rfl

/-- While the only caller waits, the mutex is free. -/
theorem Alone.free (alone : Alone monitor process call state) (sound : Sound monitor state)
    {other : Call} (waiting : state.phase process = .waiting other) : state.owner = none := by
  cases owner : state.owner with
  | none => rfl
  | some holder =>
    have held := sound.held holder owner
    by_cases same : holder = process
    · rw [same, waiting] at held
      cases held
    · rw [alone.others holder same] at held
      cases held

end LinuxProgramming.Foundation.Monitor
