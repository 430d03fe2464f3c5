import LinuxProgramming.Foundation.Machine

/-! The process that reports errors, and the one that reacts to them.

P1 sends a signal for every error, and P2 has a handler for each of the three types.
Two of the types are standard signals: a second one is lost while the first is pending.
Before a handler is in place its signal ends P2.
-/

set_option autoImplicit false

namespace LinuxProgramming.Signals.ErrorDetect
open Foundation

/-- `SIGUSR1`, `SIGUSR2` and `SIGRTMIN`. -/
inductive ErrType where
  | type1
  | type2
  | type3
  deriving DecidableEq, Repr

/-- Signals from `SIGRTMIN` on are queued. -/
def ErrType.queued : ErrType → Bool
  | .type1 | .type2 => false
  | .type3 => true

/-- `missing` has the calls of `signal` that P2 still has to make, and `running` the
handlers that run, the innermost first. -/
structure State where
  missing : List ErrType
  running : List ErrType
  pending : ErrType → Nat
  terminated : Bool
  kills : ErrType → Nat
  runs : ErrType → Nat

inductive Action where
  | kill (errType : ErrType)
  | signal
  | deliver (errType : ErrType)
  | handlerReturns
  deriving DecidableEq, Repr

def count (counts : ErrType → Nat) (errType : ErrType) : ErrType → Nat :=
  Function.update counts errType (counts errType + 1)

/-- P1 sends the signal. P2 is not waited for, so it can still be sent when P2 has ended. -/
def kill (state : State) (errType : ErrType) : State :=
  { state with
    kills := count state.kills errType
    pending :=
      if state.terminated || !errType.queued && 0 < state.pending errType then state.pending
      else count state.pending errType }

/-- A pending signal reaches P2, except while the handler of its own type runs. Without a
handler it ends P2. -/
def deliver (state : State) (errType : ErrType) : Option State :=
  if state.terminated = false ∧ 0 < state.pending errType ∧ errType ∉ state.running then
    let taken := Function.update state.pending errType (state.pending errType - 1)
    if errType ∈ state.missing then some { state with pending := taken, terminated := true }
    else
      some { state with
        pending := taken
        running := errType :: state.running
        runs := count state.runs errType }
  else none

def step (state : State) : Action → Option State
  | .kill errType => some (kill state errType)
  | .signal =>
    -- P2 itself goes on only while no handler runs.
    match state.terminated, state.running, state.missing with
    | false, [], _ :: missing => some { state with missing := missing }
    | _, _, _ => none
  | .deliver errType => deliver state errType
  | .handlerReturns =>
    match state.terminated, state.running with
    | false, _ :: running => some { state with running := running }
    | _, _ => none

def machine : Machine State Action where
  start :=
    { missing := [.type1, .type2, .type3]
      running := []
      pending := fun _ => 0
      terminated := false
      kills := fun _ => 0
      runs := fun _ => 0 }
  step := step

/-- P2 lives, and every signal has been handled or is pending. -/
structure Reaches (state : State) : Prop where
  alive : state.terminated = false
  accounted : ∀ errType, state.runs errType + state.pending errType = state.kills errType

/-- A signal that is not queued is sent when none of its type is pending, and a signal
arrives when its handler is in place. -/
def inTime (state : State) : Action → Bool
  | .kill errType => errType.queued || state.pending errType = 0
  | .deliver errType => errType ∉ state.missing
  | .signal | .handlerReturns => true

theorem count_apply (counts : ErrType → Nat) (errType other : ErrType) :
    count counts errType other = counts other + if other = errType then 1 else 0 := by
  by_cases same : other = errType
  · rw [same, count, Function.update_self, if_pos rfl]
  · rw [count, Function.update_of_ne same, if_neg same, Nat.add_zero]

theorem reaches_kill {state : State} (reaches : Reaches state) (errType : ErrType) :
    Reaches (kill state errType) ↔ inTime state (.kill errType) = true := by
  have alive := reaches.alive
  have here := reaches.accounted errType
  constructor
  · intro later
    by_contra late
    -- The signal is merged with the one that is pending.
    have merged : (kill state errType).pending = state.pending := by
      simp only [inTime, Bool.or_eq_true, decide_eq_true_eq, not_or, Bool.not_eq_true] at late
      simp [kill, alive, late.1, Nat.pos_of_ne_zero late.2]
    have same := later.accounted errType
    rw [merged] at same
    simp only [kill, count_apply, if_true] at same
    omega
  · intro early
    have added : (kill state errType).pending = count state.pending errType := by
      simp only [inTime, Bool.or_eq_true, decide_eq_true_eq] at early
      rcases early with queued | none_pending
      · simp [kill, alive, queued]
      · simp [kill, alive, none_pending]
    refine ⟨alive, fun other => ?_⟩
    have before := reaches.accounted other
    rw [added]
    simp only [kill, count_apply]
    omega

theorem reaches_deliver {state next : State} {errType : ErrType} (reaches : Reaches state)
    (taken : deliver state errType = some next) :
    Reaches next ↔ inTime state (.deliver errType) = true := by
  unfold deliver at taken
  split at taken
  next arrives =>
    split at taken
    next missing =>
      obtain rfl := Option.some.inj taken
      refine iff_of_false (fun later => Bool.noConfusion later.alive) ?_
      simp [inTime, missing]
    next installed =>
      obtain rfl := Option.some.inj taken
      refine iff_of_true ⟨reaches.alive, fun other => ?_⟩ (by simp [inTime, installed])
      have before := reaches.accounted other
      simp only [count_apply]
      by_cases same : other = errType
      · subst same
        rw [Function.update_self, if_pos rfl]
        have pending := arrives.2.1
        omega
      · rw [Function.update_of_ne same, if_neg same]
        omega
  next => cases taken

theorem decides {state next : State} {action : Action} (reaches : Reaches state)
    (taken : step state action = some next) : Reaches next ↔ inTime state action = true := by
  cases action with
  | kill errType =>
    obtain rfl := Option.some.inj taken
    exact reaches_kill reaches errType
  | deliver errType => exact reaches_deliver reaches taken
  | signal =>
    simp only [step] at taken
    split at taken
    next =>
      obtain rfl := Option.some.inj taken
      exact iff_of_true ⟨reaches.alive, reaches.accounted⟩ rfl
    next => cases taken
  | handlerReturns =>
    simp only [step] at taken
    split at taken
    next =>
      obtain rfl := Option.some.inj taken
      exact iff_of_true ⟨reaches.alive, reaches.accounted⟩ rfl
    next => cases taken

/-- All errors of a run reach their handlers exactly if every step of it is in time. -/
theorem reaches_always_iff {schedule : List Action} {final : State}
    (run : machine.exec machine.start schedule = some final) :
    machine.Always Reaches machine.start schedule ↔
      (machine.guarded inTime).exec machine.start schedule = some final := by
  have start : Reaches machine.start := ⟨rfl, fun _ => rfl⟩
  exact Machine.always_iff_guarded decides start run

theorem reaches_always_iff_one :
    ∃ final, machine.exec machine.start
        [.signal, .signal, .signal, .kill .type1, .deliver .type1] = some final ∧
      (machine.Always Reaches machine.start
          [.signal, .signal, .signal, .kill .type1, .deliver .type1] ↔
        (machine.guarded inTime).exec machine.start
          [.signal, .signal, .signal, .kill .type1, .deliver .type1] = some final) :=
  ⟨_, rfl, reaches_always_iff rfl⟩

/-- The handler of the first error still runs when the next two are sent. -/
theorem merged : ¬ ∀ state, machine.Reachable state → Reaches state := by
  intro always
  obtain ⟨state, reached, facts⟩ := Machine.exists_reachable
    (show (machine.exec machine.start [.signal, .signal, .signal, .kill .type1, .deliver .type1,
      .kill .type1, .kill .type1]).map (fun state =>
        (state.runs .type1, state.pending .type1, state.kills .type1)) = some (1, 1, 3) by decide)
  have accounted := (always state reached).accounted .type1
  simp only [Prod.mk.injEq] at facts
  omega

end LinuxProgramming.Signals.ErrorDetect
