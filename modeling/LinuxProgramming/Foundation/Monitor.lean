import LinuxProgramming.Foundation.Machine
import Mathlib.Data.List.Induction

/-! Monitors with one mutex and one condition variable.

Every call has the same shape: lock, wait on the condition variable while the
call is blocked, update the shared data, signal one waiter, unlock. The calls
differ in when they are blocked and in what they do to the data. Under any
schedule the finished calls, in the order in which they last acquired the
mutex, are a serial run of the updates.
-/

set_option autoImplicit false

namespace LinuxProgramming.Foundation

/-- The data under the mutex, and for each call its waiting condition and its update. -/
structure Monitor (Shared Call Result : Type) where
  start : Shared
  blocked : Shared → Call → Bool
  update : Shared → Call → Shared × Result

namespace Monitor

/-- Where a process is inside a call. -/
inductive Phase (Call Result : Type) where
  | idle
  | locking (call : Call)
  | testing (call : Call)
  | waiting (call : Call)
  | relocking (call : Call)
  | updating (call : Call)
  | signalling (call : Call) (result : Result)
  | unlocking (call : Call) (result : Result)
  deriving DecidableEq, Repr

/-- The phases between an acquisition of the mutex and its release. -/
def Phase.holds {Call Result : Type} : Phase Call Result → Bool
  | .testing _ | .updating _ | .signalling _ _ | .unlocking _ _ => true
  | .idle | .locking _ | .waiting _ | .relocking _ => false

/-- The update that a process has made but not yet published by unlocking. -/
def Phase.unpublished {Call Result : Type} : Phase Call Result → List (Call × Result)
  | .signalling call result | .unlocking call result => [(call, result)]
  | .idle | .locking _ | .testing _ | .waiting _ | .relocking _ | .updating _ => []

/-- A finished call, with the number of its last acquisition of the mutex. -/
structure Finished (Process Call Result : Type) where
  process : Process
  acquired : Nat
  call : Call
  result : Result
  deriving DecidableEq, Repr

def Finished.operation {Process Call Result : Type} (entry : Finished Process Call Result) :
    Call × Result := (entry.call, entry.result)

/-- `clock` counts the acquisitions of the mutex; `acquired` and `history` are
kept for the statements only, no step depends on them. -/
structure State (Process Shared Call Result : Type) where
  phase : Process → Phase Call Result
  owner : Option Process
  waiters : List Process
  shared : Shared
  clock : Nat
  acquired : Process → Nat
  history : List (Finished Process Call Result)

inductive Action (Process Call : Type) where
  | call (process : Process) (call : Call)
  | lock (process : Process)
  | test (process : Process)
  | spurious (process : Process)
  | relock (process : Process)
  | update (process : Process)
  | signal (process : Process) (woken : Option Process)
  | unlock (process : Process)
  deriving DecidableEq, Repr

variable {Process Shared Call Result : Type} [DecidableEq Process]

def State.setPhase (state : State Process Shared Call Result) (process : Process)
    (phase : Phase Call Result) : State Process Shared Call Result :=
  { state with phase := Function.update state.phase process phase }

/-- Take a free mutex and go on to test the waiting condition. -/
def State.acquire (state : State Process Shared Call Result) (process : Process) (call : Call) :
    Option (State Process Shared Call Result) :=
  match state.owner with
  | some _ => none
  | none => some { state.setPhase process (.testing call) with
      owner := some process
      clock := state.clock + 1
      acquired := Function.update state.acquired process state.clock }

/-- One step of one process. Waiting releases the mutex in the same step; a
signal wakes one waiter, and none only when none waits. -/
def step (monitor : Monitor Shared Call Result) (state : State Process Shared Call Result) :
    Action Process Call → Option (State Process Shared Call Result)
  | .call process call =>
    match state.phase process with
    | .idle => some (state.setPhase process (.locking call))
    | _ => none
  | .lock process =>
    match state.phase process with
    | .locking call => state.acquire process call
    | _ => none
  | .test process =>
    match state.phase process with
    | .testing call =>
      -- `pthread_cond_wait` enqueues and releases at once, so no signal falls in between.
      if monitor.blocked state.shared call then
        some { state.setPhase process (.waiting call) with
          owner := none, waiters := state.waiters ++ [process] }
      else some (state.setPhase process (.updating call))
    | _ => none
  | .spurious process =>
    match state.phase process with
    | .waiting call => some { state.setPhase process (.relocking call) with
        waiters := state.waiters.erase process }
    | _ => none
  | .relock process =>
    match state.phase process with
    | .relocking call => state.acquire process call
    | _ => none
  | .update process =>
    match state.phase process with
    | .updating call =>
      let made := monitor.update state.shared call
      some { state.setPhase process (.signalling call made.2) with shared := made.1 }
    | _ => none
  | .signal process none =>
    match state.phase process with
    | .signalling call result =>
      if state.waiters = [] then some (state.setPhase process (.unlocking call result)) else none
    | _ => none
  | .signal process (some woken) =>
    match state.phase process, state.phase woken with
    | .signalling call result, .waiting other =>
      some { (state.setPhase process (.unlocking call result)).setPhase woken (.relocking other) with
        waiters := state.waiters.erase woken }
    | _, _ => none
  | .unlock process =>
    match state.phase process with
    | .unlocking call result => some { state.setPhase process .idle with
        owner := none
        history := state.history ++ [⟨process, state.acquired process, call, result⟩] }
    | _ => none

def machine (Process : Type) [DecidableEq Process] (monitor : Monitor Shared Call Result) :
    Machine (State Process Shared Call Result) (Action Process Call) where
  start := ⟨fun _ => .idle, none, [], monitor.start, 0, fun _ => 0, []⟩
  step := monitor.step

/-- Runs of one call after the other, each of them not blocked when it updates. -/
inductive Serial (monitor : Monitor Shared Call Result) : List (Call × Result) → Shared → Prop where
  | nil : Serial monitor [] monitor.start
  | snoc {operations : List (Call × Result)} {shared : Shared} {call : Call} :
      Serial monitor operations shared → monitor.blocked shared call = false →
      Serial monitor (operations ++ [(call, (monitor.update shared call).2)])
        (monitor.update shared call).1

/-- The update of the process that owns the mutex, while it is made but unpublished. -/
def State.unpublished (state : State Process Shared Call Result) : List (Call × Result) :=
  match state.owner with
  | some process => (state.phase process).unpublished
  | none => []

/-- `mutex` and `held` say that exactly the owner is between acquisition and
release; `serial` that the shared data is what the finished calls and the
owner's own update make of it, one after the other. -/
structure Sound (monitor : Monitor Shared Call Result)
    (state : State Process Shared Call Result) : Prop where
  mutex : ∀ process, (state.phase process).holds = true → state.owner = some process
  held : ∀ process, state.owner = some process → (state.phase process).holds = true
  ready : ∀ process call, state.phase process = .updating call →
    monitor.blocked state.shared call = false
  serial : Serial monitor (state.history.map Finished.operation ++ state.unpublished) state.shared
  ordered : state.history.Pairwise fun first later => first.acquired < later.acquired
  past : ∀ entry ∈ state.history, entry.acquired < state.clock
  current : ∀ process, state.owner = some process →
    state.acquired process < state.clock ∧
      ∀ entry ∈ state.history, entry.acquired < state.acquired process

theorem sound_start (monitor : Monitor Shared Call Result) :
    Sound monitor (machine Process monitor).start where
  mutex process holds := by simp [machine, Phase.holds] at holds
  held process owner := by simp [machine] at owner
  ready process call updating := by simp [machine] at updating
  serial := .nil
  ordered := .nil
  past entry member := by simp [machine] at member
  current process owner := by simp [machine] at owner

variable {monitor : Monitor Shared Call Result} {state next : State Process Shared Call Result}

@[simp] theorem setPhase_same (process : Process) (phase : Phase Call Result) :
    (state.setPhase process phase).phase process = phase := by
  simp [State.setPhase]

theorem setPhase_other {process other : Process} (phase : Phase Call Result)
    (different : other ≠ process) : (state.setPhase process phase).phase other = state.phase other := by
  simp [State.setPhase, different]

@[simp] theorem setPhase_owner (process : Process) (phase : Phase Call Result) :
    (state.setPhase process phase).owner = state.owner := rfl

/-- What an action can do, with all that it requires. -/
inductive Effect (monitor : Monitor Shared Call Result) (state : State Process Shared Call Result) :
    Action Process Call → State Process Shared Call Result → Prop where
  | call {process : Process} {call : Call} (idle : state.phase process = .idle) :
    Effect monitor state (.call process call) (state.setPhase process (.locking call))
  | lock {process : Process} {call : Call} {next : State Process Shared Call Result}
    (locking : state.phase process = .locking call)
    (acquired : state.acquire process call = some next) : Effect monitor state (.lock process) next
  | wait {process : Process} {call : Call} (testing : state.phase process = .testing call)
    (blocked : monitor.blocked state.shared call = true) :
    Effect monitor state (.test process) { state.setPhase process (.waiting call) with
      owner := none, waiters := state.waiters ++ [process] }
  | pass {process : Process} {call : Call} (testing : state.phase process = .testing call)
    (admitted : monitor.blocked state.shared call = false) :
    Effect monitor state (.test process) (state.setPhase process (.updating call))
  | spurious {process : Process} {call : Call} (waiting : state.phase process = .waiting call) :
    Effect monitor state (.spurious process) { state.setPhase process (.relocking call) with
      waiters := state.waiters.erase process }
  | relock {process : Process} {call : Call} {next : State Process Shared Call Result}
    (relocking : state.phase process = .relocking call)
    (acquired : state.acquire process call = some next) : Effect monitor state (.relock process) next
  | update {process : Process} {call : Call} (updating : state.phase process = .updating call) :
    Effect monitor state (.update process)
      { state.setPhase process (.signalling call (monitor.update state.shared call).2) with
        shared := (monitor.update state.shared call).1 }
  | wakeNone {process : Process} {call : Call} {result : Result}
    (signalling : state.phase process = .signalling call result) (nobody : state.waiters = []) :
    Effect monitor state (.signal process none) (state.setPhase process (.unlocking call result))
  | wake {process woken : Process} {call other : Call} {result : Result}
    (signalling : state.phase process = .signalling call result)
    (waiting : state.phase woken = .waiting other) :
    Effect monitor state (.signal process (some woken))
      { (state.setPhase process (.unlocking call result)).setPhase woken (.relocking other) with
        waiters := state.waiters.erase woken }
  | unlock {process : Process} {call : Call} {result : Result}
    (unlocking : state.phase process = .unlocking call result) :
    Effect monitor state (.unlock process) { state.setPhase process .idle with
      owner := none
      history := state.history ++ [⟨process, state.acquired process, call, result⟩] }

theorem effect_of_step {action : Action Process Call}
    (taken : monitor.step state action = some next) : Effect monitor state action next := by
  cases action with
  | call process call =>
    simp only [Monitor.step] at taken
    split at taken
    next idle =>
      cases taken
      exact .call idle
    next => cases taken
  | lock process =>
    simp only [Monitor.step] at taken
    split at taken
    next locking => exact .lock locking taken
    next => cases taken
  | test process =>
    simp only [Monitor.step] at taken
    split at taken
    next testing =>
      split at taken
      next blocked =>
        cases taken
        exact .wait testing blocked
      next admitted =>
        cases taken
        exact .pass testing (Bool.eq_false_iff.mpr admitted)
    next => cases taken
  | spurious process =>
    simp only [Monitor.step] at taken
    split at taken
    next waiting =>
      cases taken
      exact .spurious waiting
    next => cases taken
  | relock process =>
    simp only [Monitor.step] at taken
    split at taken
    next relocking => exact .relock relocking taken
    next => cases taken
  | update process =>
    simp only [Monitor.step] at taken
    split at taken
    next updating =>
      cases taken
      exact .update updating
    next => cases taken
  | signal process woken =>
    cases woken with
    | none =>
      simp only [Monitor.step] at taken
      split at taken
      next signalling =>
        split at taken
        next nobody =>
          cases taken
          exact .wakeNone signalling nobody
        next => cases taken
      next => cases taken
    | some woken =>
      simp only [Monitor.step] at taken
      split at taken
      next signalling waiting =>
        cases taken
        exact .wake signalling waiting
      next => cases taken
  | unlock process =>
    simp only [Monitor.step] at taken
    split at taken
    next unlocking =>
      cases taken
      exact .unlock unlocking
    next => cases taken

/-- Monitors that differ in their updates only take the same steps, the update itself apart. -/
theorem step_congr {other : Monitor Shared Call Result} (blocked : other.blocked = monitor.blocked)
    {action : Action Process Call}
    (update : ∀ process call, action = .update process → state.phase process = .updating call →
      other.update state.shared call = monitor.update state.shared call) :
    other.step state action = monitor.step state action := by
  cases action with
  | call | lock | spurious | relock | unlock => rfl
  | signal process woken => cases woken <;> rfl
  | test process => simp only [Monitor.step, blocked]
  | update process =>
    simp only [Monitor.step]
    split
    next call updating => rw [update process call rfl updating]
    next => rfl

omit [DecidableEq Process] in
theorem unpublished_of_owner {process : Process} (owner : state.owner = some process) :
    state.unpublished = (state.phase process).unpublished := by
  simp [State.unpublished, owner]

omit [DecidableEq Process] in
theorem unpublished_of_free (free : state.owner = none) : state.unpublished = [] := by
  simp [State.unpublished, free]

theorem unpublished_setPhase (process : Process) (phase : Phase Call Result)
    (same : phase.unpublished = (state.phase process).unpublished) :
    (state.setPhase process phase).unpublished = state.unpublished := by
  cases owner : state.owner with
  | none => rw [unpublished_of_free owner, unpublished_of_free (by exact owner)]
  | some holder =>
    have still : (state.setPhase process phase).owner = some holder := owner
    rw [unpublished_of_owner owner, unpublished_of_owner still]
    by_cases equal : holder = process
    · subst equal
      rw [setPhase_same, same]
    · rw [setPhase_other _ equal]

omit [DecidableEq Process] in
/-- The condition variable's queue plays no part in the invariant. -/
theorem Sound.requeue (sound : Sound monitor state) (waiters : List Process) :
    Sound monitor { state with waiters := waiters } :=
  ⟨sound.mutex, sound.held, sound.ready, sound.serial, sound.ordered, sound.past, sound.current⟩

/-- A process may change its phase when that neither takes nor frees the mutex
and neither makes nor publishes an update. -/
theorem Sound.move (sound : Sound monitor state) (process : Process) (phase : Phase Call Result)
    (holds : phase.holds = (state.phase process).holds)
    (unpublished : phase.unpublished = (state.phase process).unpublished)
    (ready : ∀ call, phase = .updating call → monitor.blocked state.shared call = false) :
    Sound monitor (state.setPhase process phase) where
  mutex other held := by
    by_cases equal : other = process
    · subst equal
      rw [setPhase_same, holds] at held
      exact sound.mutex other held
    · rw [setPhase_other _ equal] at held
      exact sound.mutex other held
  held other owner := by
    by_cases equal : other = process
    · subst equal
      rw [setPhase_same, holds]
      exact sound.held other owner
    · rw [setPhase_other _ equal]
      exact sound.held other owner
  ready other call updating := by
    by_cases equal : other = process
    · subst equal
      rw [setPhase_same] at updating
      exact ready call updating
    · rw [setPhase_other _ equal] at updating
      exact sound.ready other call updating
  serial := by
    rw [unpublished_setPhase process phase unpublished]
    exact sound.serial
  ordered := sound.ordered
  past := sound.past
  current := sound.current

theorem Sound.acquire (sound : Sound monitor state) {process : Process} {call : Call}
    (taken : state.acquire process call = some next) : Sound monitor next := by
  unfold State.acquire at taken
  split at taken
  next => cases taken
  next free =>
    cases taken
    -- Whoever held the mutex would own it, so no process stands between lock and unlock.
    have none_holds : ∀ other, (state.phase other).holds = false := fun other => by
      cases holds : (state.phase other).holds with
      | false => rfl
      | true => simp [sound.mutex other holds] at free
    refine ⟨fun other held => ?_, fun other owner => ?_, fun other call updating => ?_, ?_,
      sound.ordered, fun entry member => ?_, fun other owner => ?_⟩
    · by_cases equal : other = process
      · rw [equal]
      · have moved : (state.phase other).holds = true := by
          simpa [State.setPhase, equal] using held
        rw [none_holds other] at moved
        cases moved
    · cases owner
      simp [State.setPhase, Phase.holds]
    · by_cases equal : other = process
      · simp [State.setPhase, equal] at updating
      · have moved : state.phase other = .updating call := by
          simpa [State.setPhase, equal] using updating
        exact sound.ready other call moved
    · have serial := sound.serial
      rw [unpublished_of_free free] at serial
      simpa [State.unpublished, State.setPhase, Phase.unpublished] using serial
    · exact Nat.lt_succ_of_lt (sound.past entry member)
    · cases owner
      simp only [Function.update_self]
      exact ⟨Nat.lt_succ_self _, sound.past⟩

/-- Leaving the mutex, with the update published if there is one. -/
theorem Sound.release (sound : Sound monitor state) (process : Process) (phase : Phase Call Result)
    (entries : List (Finished Process Call Result))
    (holds : (state.phase process).holds = true) (outside : phase.holds = false)
    (published : entries.map Finished.operation = (state.phase process).unpublished)
    (stamped : ∀ entry ∈ entries, entry.acquired = state.acquired process)
    (single : entries.length ≤ 1) :
    Sound monitor { state.setPhase process phase with
      owner := none, history := state.history ++ entries } := by
  have owner := sound.mutex process holds
  have recent := sound.current process owner
  refine ⟨fun other held => ?_, fun other owned => ?_, fun other call updating => ?_, ?_, ?_,
    fun entry member => ?_, fun other owned => ?_⟩
  · by_cases equal : other = process
    · simp [State.setPhase, equal, outside] at held
    · have moved : (state.phase other).holds = true := by
        simpa [State.setPhase, equal] using held
      have same := (sound.mutex other moved).symm.trans owner
      exact absurd (Option.some.inj same) equal
  · cases owned
  · by_cases equal : other = process
    · have inside : phase = .updating call := by simpa [State.setPhase, equal] using updating
      rw [inside] at outside
      cases outside
    · have moved : state.phase other = .updating call := by
        simpa [State.setPhase, equal] using updating
      exact sound.ready other call moved
  · have serial := sound.serial
    rw [unpublished_of_owner owner, ← published, ← List.map_append] at serial
    simpa [State.unpublished, State.setPhase] using serial
  · rw [List.pairwise_append]
    refine ⟨sound.ordered, ?_, fun earlier member entry final => ?_⟩
    -- At most one entry is added, so the order among the new ones is trivial.
    · match entries, single with
      | [], _ => exact .nil
      | [entry], _ => exact List.pairwise_singleton _ entry
    · rw [stamped entry final]
      exact recent.2 earlier member
  · rcases List.mem_append.mp member with member | member
    · exact sound.past entry member
    · rw [stamped entry member]
      exact recent.1
  · cases owned

theorem Sound.update (sound : Sound monitor state) {process : Process} {call : Call}
    (updating : state.phase process = .updating call) :
    Sound monitor { state.setPhase process
        (.signalling call (monitor.update state.shared call).2) with
      shared := (monitor.update state.shared call).1 } := by
  have holds : (state.phase process).holds = true := by simp [updating, Phase.holds]
  have owner := sound.mutex process holds
  have only : ∀ other, (state.phase other).holds = true → other = process := fun other held =>
    Option.some.inj ((sound.mutex other held).symm.trans owner)
  refine ⟨fun other held => ?_, fun other owned => ?_, fun other call' updating' => ?_, ?_,
    sound.ordered, sound.past, sound.current⟩
  · by_cases equal : other = process
    · rw [equal]
      exact owner
    · have moved : (state.phase other).holds = true := by
        simpa [State.setPhase, equal] using held
      exact absurd (only other moved) equal
  · have equal : other = process := Option.some.inj (owned.symm.trans owner)
    simp [State.setPhase, equal, Phase.holds]
  · by_cases equal : other = process
    · simp [State.setPhase, equal] at updating'
    · have moved : state.phase other = .updating call' := by
        simpa [State.setPhase, equal] using updating'
      exact absurd (only other (by simp [moved, Phase.holds])) equal
  · have serial := sound.serial
    rw [unpublished_of_owner owner, updating, Phase.unpublished, List.append_nil] at serial
    have made : ({ state.setPhase process (.signalling call (monitor.update state.shared call).2) with
        shared := (monitor.update state.shared call).1 } :
          State Process Shared Call Result).unpublished =
        [(call, (monitor.update state.shared call).2)] := by
      simp [State.unpublished, State.setPhase, owner, Phase.unpublished]
    rw [made]
    exact serial.snoc (sound.ready process call updating)

theorem Sound.step (sound : Sound monitor state) {action : Action Process Call}
    (taken : monitor.step state action = some next) : Sound monitor next := by
  cases effect_of_step taken with
  | call idle =>
    exact sound.move _ _ (by simp [idle, Phase.holds]) (by simp [idle, Phase.unpublished]) (by simp)
  | lock _ acquired | relock _ acquired => exact sound.acquire acquired
  | @wait process call testing _ =>
    -- Waiting frees the mutex without an update to publish.
    have released := sound.release process (.waiting call) []
      (by simp [testing, Phase.holds]) rfl (by simp [testing, Phase.unpublished]) (by simp)
      (by simp)
    have requeued := released.requeue (state.waiters ++ [process])
    rw [List.append_nil] at requeued
    exact requeued
  | pass testing admitted =>
    refine sound.move _ _ (by simp [testing, Phase.holds]) (by simp [testing, Phase.unpublished])
      fun other same => ?_
    cases same
    exact admitted
  | @spurious process call waiting =>
    have moved := sound.move process (.relocking call)
      (by simp [waiting, Phase.holds]) (by simp [waiting, Phase.unpublished]) (by simp)
    exact moved.requeue _
  | update updating => exact sound.update updating
  | wakeNone signalling _ =>
    exact sound.move _ _ (by simp [signalling, Phase.holds])
      (by simp [signalling, Phase.unpublished]) (by simp)
  | @wake process woken call other result signalling waiting =>
    have moved := sound.move process (.unlocking call result)
      (by simp [signalling, Phase.holds]) (by simp [signalling, Phase.unpublished]) (by simp)
    -- The signaller holds the mutex, so it is not the waiter that it wakes.
    have different : woken ≠ process := by
      rintro rfl
      simp [signalling] at waiting
    have still : (state.setPhase process (.unlocking call result)).phase woken = .waiting other := by
      rw [setPhase_other _ different, waiting]
    have relocked := moved.move woken (.relocking other)
      (by simp [still, Phase.holds]) (by simp [still, Phase.unpublished]) (by simp)
    exact relocked.requeue _
  | @unlock process call result unlocking =>
    exact sound.release process .idle [_]
      (by simp [unlocking, Phase.holds]) rfl
      (by simp [unlocking, Phase.unpublished, Finished.operation]) (by simp) (by simp)

/-- In every reachable state, under any schedule and any spurious wakeups. -/
theorem sound_of_reachable (reached : (machine Process monitor).Reachable state) :
    Sound monitor state :=
  Machine.invariant (sound_start monitor) (fun sound taken => sound.step taken) reached

/-- Every process that waits is in the queue of the condition variable. -/
def Queued (state : State Process Shared Call Result) : Prop :=
  ∀ process call, state.phase process = .waiting call → process ∈ state.waiters

theorem Queued.move (queued : Queued state) (process : Process) {phase : Phase Call Result}
    (elsewhere : ∀ call, phase ≠ .waiting call) : Queued (state.setPhase process phase) := by
  intro other call waiting
  by_cases equal : other = process
  · rw [equal, setPhase_same] at waiting
    exact absurd waiting (elsewhere call)
  · rw [setPhase_other _ equal] at waiting
    exact queued other call waiting

/-- A process that is taken off the queue waits no more. -/
theorem Queued.erase (queued : Queued state) (process : Process) {phase : Phase Call Result}
    (elsewhere : ∀ call, phase ≠ .waiting call) :
    Queued { state.setPhase process phase with waiters := state.waiters.erase process } := by
  intro other call waiting
  by_cases equal : other = process
  · subst equal
    exact absurd ((setPhase_same other phase).symm.trans waiting) (elsewhere call)
  · have still := (setPhase_other phase equal).symm.trans waiting
    exact (List.mem_erase_of_ne equal).mpr (queued other call still)

theorem Queued.acquire (queued : Queued state) {process : Process} {call : Call}
    (taken : state.acquire process call = some next) : Queued next := by
  unfold State.acquire at taken
  split at taken
  next => cases taken
  next =>
    cases taken
    exact queued.move process (by simp)

theorem Queued.step (queued : Queued state) {action : Action Process Call}
    (taken : monitor.step state action = some next) : Queued next := by
  cases effect_of_step taken with
  | call | pass | update | wakeNone | unlock => exact queued.move _ (by simp)
  | lock _ acquired | relock _ acquired => exact queued.acquire acquired
  | @wait process call testing _ =>
    intro other waited waiting
    by_cases equal : other = process
    · simp [equal]
    · have still := (setPhase_other (.waiting call) equal).symm.trans waiting
      exact List.mem_append_left _ (queued other waited still)
  | spurious => exact queued.erase _ (by simp)
  | @wake process woken call other result =>
    have moved : Queued (state.setPhase process (.unlocking call result)) :=
      queued.move process (by simp)
    exact moved.erase woken (by simp)

theorem queued_start (monitor : Monitor Shared Call Result) :
    Queued (machine Process monitor).start := by
  intro process call waiting
  cases waiting

theorem queued_of_reachable (reached : (machine Process monitor).Reachable state) : Queued state :=
  Machine.invariant (queued_start monitor) (fun queued taken => queued.step taken) reached

omit [DecidableEq Process] in
/-- While the mutex is free, the shared data is the outcome of the finished
calls alone, run one after the other. -/
theorem Sound.published (sound : Sound monitor state) (free : state.owner = none) :
    Serial monitor (state.history.map Finished.operation) state.shared := by
  simpa [unpublished_of_free free] using sound.serial

theorem Serial.initial {operations later : List (Call × Result)} {shared : Shared}
    (serial : Serial monitor (operations ++ later) shared) :
    ∃ before, Serial monitor operations before := by
  -- The last operation of a serial run can be taken off; the induction does so until `later` is empty.
  induction later using List.reverseRecOn generalizing shared with
  | nil => exact ⟨shared, by simpa using serial⟩
  | append_singleton later last ih =>
    rw [← List.append_assoc] at serial
    generalize whole : operations ++ later ++ [last] = all at serial
    cases serial with
    | nil => simp at whole
    | snoc earlier _ =>
      obtain ⟨same, -⟩ := List.append_inj' whole rfl
      rw [← same] at earlier
      exact ih earlier

omit [DecidableEq Process] in
/-- The finished calls are a serial run also while one more call is under way. -/
theorem Sound.finished (sound : Sound monitor state) :
    ∃ shared, Serial monitor (state.history.map Finished.operation) shared :=
  sound.serial.initial

end Monitor

end LinuxProgramming.Foundation
