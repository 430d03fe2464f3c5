import LinuxProgramming.Foundation.Machine
import LinuxProgramming.Foundation.Signals

/-! `sigpause`, with signals that arrive at any time.

The signal is unblocked by one system call and waited for by another. A handler
runs between any two of them, and gives back the mask that was interrupted; the
one that ends `sigsuspend` gives back the mask from before that call.
-/

set_option autoImplicit false

namespace LinuxProgramming.Signals.Pause
open Foundation

/-- The system call of `sigpause` that comes next, or what the process waits for. -/
inductive Place where
  | calling
  | unblocked (oset : SignalSet)
  | suspended (saved : SignalSet)
  | interrupted
  | returned

/-- `frames` holds the masks that the running handlers give back, `ran` the signals
whose handlers were started, and `sent` those that were sent. -/
structure State where
  signals : SignalState
  place : Place
  frames : List SignalSet
  ran : List Nat
  sent : List Nat

inductive Action where
  | send (signo : Nat)
  | deliver (signo : Nat)
  | handler (how : How) (set : SignalSet)
  | handlerReturns
  | sigpause

/-- What is given back when the handler of a signal returns that is delivered now. -/
def Place.interruptedMask (place : Place) (mask : SignalSet) : SignalSet :=
  match place with
  | .suspended saved => saved
  | .calling | .unblocked _ | .interrupted | .returned => mask

/-- A handler ends the wait. -/
def Place.wake : Place → Place
  | .suspended _ => .interrupted
  | .calling => .calling
  | .unblocked oset => .unblocked oset
  | .interrupted => .interrupted
  | .returned => .returned

/-- Another process, or the process itself, sends a signal. -/
def State.receive (state : State) (other : Nat) : State :=
  { state with
    signals := state.signals.generate other
    sent := other :: state.sent }

/-- The body of `sigpause`, which is continued when no handler runs. -/
def sigpause (signo : Nat) (state : State) : Option State :=
  match state.place with
  | .calling =>
    let changed := sigprocmask state.signals .SIG_UNBLOCK (sigaddset sigemptyset signo)
    some { state with signals := changed.1, place := .unblocked changed.2 }
  | .unblocked oset =>
    -- `sigsuspend` changes the mask and waits in one step.
    let changed := sigprocmask state.signals .SIG_SETMASK (sigdelset oset signo)
    some { state with signals := changed.1, place := .suspended changed.2 }
  | .suspended _ => none
  | .interrupted => some { state with place := .returned }
  | .returned => none

def step (signo : Nat) (state : State) : Action → Option State
  | .send other => some (state.receive other)
  | .deliver other =>
    let act := state.signals.dispositions other
    if state.signals.deliverable other && act.caught then
      some { state with
        signals := { state.signals.take other with mask := state.signals.handlerMask other }
        place := state.place.wake
        frames := state.place.interruptedMask state.signals.mask :: state.frames
        ran := other :: state.ran }
    else if state.signals.deliverable other && act.ignores other then
      some { state with signals := state.signals.take other }
    -- The default action ends the process.
    else none
  | .handler how set =>
    if state.frames.isEmpty then none
    else some { state with signals := (sigprocmask state.signals how set).1 }
  | .handlerReturns =>
    match state.frames with
    | [] => none
    | mask :: frames => some { state with
        signals := { state.signals with mask := mask }
        frames := frames }
  | .sigpause => if state.frames.isEmpty then sigpause signo state else none

def machine (signals : SignalState) (signo : Nat) : Machine State Action where
  start := ⟨signals, .calling, [], [], []⟩
  step := step signo

/-- The mask that the interrupted program has when all handlers have returned. -/
def State.mask (state : State) : SignalSet := state.frames.getLast?.getD state.signals.mask

/-- The mask with the signal unblocked. -/
def opened (mask : SignalSet) (signo : Nat) : SignalSet := fun other => mask other && other != signo

theorem sigprocmask_opened {signals : SignalState} {signo : Nat} (admitted : catchable signo = true) :
    (sigprocmask signals .SIG_UNBLOCK (sigaddset sigemptyset signo)).1.mask =
      opened signals.mask signo := by
  funext other
  by_cases same : other = signo
  · simp [sigprocmask, opened, sigaddset_empty (valid_of_catchable admitted), same, admitted]
  · simp [sigprocmask, opened, sigaddset_empty (valid_of_catchable admitted), same]

/-- The mask of the program at each place of `sigpause`. -/
def Masked (signals : SignalState) (signo : Nat) (state : State) : Prop :=
  match state.place with
  | .calling => state.mask = signals.mask
  | .unblocked oset => oset = signals.mask ∧ state.mask = opened signals.mask signo
  | .suspended saved => state.frames = [] ∧ saved = opened signals.mask signo
  | .interrupted | .returned => state.mask = opened signals.mask signo

/-- A handler that starts gives back the mask that the program will have. -/
theorem mask_deliver (frames : List SignalSet) (interrupted running : SignalSet) :
    ((interrupted :: frames).getLast?.getD running) = frames.getLast?.getD interrupted := by
  rw [List.getLast?_cons, Option.getD_some]

theorem masked_sigpause {signals : SignalState} {signo : Nat} (admitted : catchable signo = true)
    {state next : State} (masked : Masked signals signo state) (main : state.frames = [])
    (taken : sigpause signo state = some next) : Masked signals signo next := by
  obtain ⟨current, place, frames, ran, sent⟩ := state
  cases main
  cases place with
  | calling =>
    cases taken
    have same : current.mask = signals.mask := masked
    refine ⟨same, ?_⟩
    have after := @sigprocmask_opened current signo admitted
    rwa [same] at after
  | unblocked oset =>
    cases taken
    exact ⟨rfl, masked.2⟩
  | interrupted =>
    cases taken
    exact masked
  | suspended saved | returned => cases taken

theorem Masked.step {signals : SignalState} {signo : Nat} (admitted : catchable signo = true)
    {state next : State} {action : Action} (masked : Masked signals signo state)
    (taken : step signo state action = some next) : Masked signals signo next := by
  obtain ⟨current, place, frames, ran, sent⟩ := state
  cases action with
  | send other =>
    cases taken
    cases place <;> simpa [Masked, State.mask, State.receive] using masked
  | deliver other =>
    simp only [Pause.step] at taken
    split at taken
    next =>
      cases taken
      -- Only `sigsuspend` gives back another mask than the current one.
      cases place with
      | suspended saved =>
        obtain ⟨main, same⟩ := masked
        cases main
        exact same
      | calling | interrupted | returned => exact (mask_deliver frames _ _).trans masked
      | unblocked oset => exact ⟨masked.1, (mask_deliver frames _ _).trans masked.2⟩
    next =>
      split at taken
      next =>
        cases taken
        cases place <;> exact masked
      next => cases taken
  | handler how set =>
    cases frames with
    | nil => cases taken
    | cons mask frames =>
      cases taken
      cases place with
      | suspended saved => cases masked.1
      | calling | interrupted | returned =>
        exact (mask_deliver frames _ _).trans ((mask_deliver frames _ _).symm.trans masked)
      | unblocked oset =>
        exact ⟨masked.1, (mask_deliver frames _ _).trans ((mask_deliver frames _ _).symm.trans masked.2)⟩
  | handlerReturns =>
    cases frames with
    | nil => cases taken
    | cons mask frames =>
      cases taken
      cases place with
      | suspended saved => cases masked.1
      | calling | interrupted | returned => exact (mask_deliver frames _ _).symm.trans masked
      | unblocked oset => exact ⟨masked.1, (mask_deliver frames _ _).symm.trans masked.2⟩
  | sigpause =>
    cases frames with
    | nil => exact masked_sigpause admitted masked rfl taken
    | cons mask frames => cases taken

/-- After the call the signal is not blocked, and every other one is as before. -/
theorem mask_after {signals : SignalState} {signo : Nat} (admitted : catchable signo = true)
    {state : State} (reached : (machine signals signo).Reachable state)
    (returned : state.place = .returned) (main : state.frames = []) :
    state.signals.mask = opened signals.mask signo := by
  have start : Masked signals signo (machine signals signo).start := rfl
  have masked := Machine.invariant start (fun masked taken => masked.step admitted taken) reached
  simpa only [Masked, returned, State.mask, main, List.getLast?_nil, Option.getD_none] using masked

/-- The state when the handler of a signal has run. -/
def State.handled (state : State) (other : Nat) : State :=
  { state with
    signals := { state.signals.take other with
      mask := state.place.interruptedMask state.signals.mask }
    place := state.place.wake
    ran := other :: state.ran }

/-- A signal is delivered, and its handler returns. -/
theorem exec_handled {signals : SignalState} {signo other : Nat} {state : State}
    (main : state.frames = []) (deliverable : state.signals.deliverable other = true)
    (caught : (state.signals.dispositions other).caught = true) :
    (machine signals signo).exec state [.deliver other, .handlerReturns] =
      some (state.handled other) := by
  simp [Machine.exec, machine, step, deliverable, caught, main, State.handled]

/-- The call returns when the handler of a signal that is not blocked has run. -/
theorem exists_returned {signals : SignalState} {signo ender : Nat} (admitted : catchable signo = true)
    (caught : (signals.dispositions ender).caught = true)
    (unblocked : ender = signo ∨ signals.mask ender = false) :
    ∃ state, (machine signals signo).Reachable state ∧ state.place = .returned ∧
      state.frames = [] := by
  have opens : sigdelset signals.mask signo ender = false := by
    rcases unblocked with rfl | unblocked
    · simp [sigdelset, valid_of_catchable admitted]
    · by_cases same : ender = signo
      · simp [sigdelset, valid_of_catchable admitted, same]
      · simp [sigdelset, valid_of_catchable admitted, same, unblocked]
  obtain ⟨waiting, suspends, main, place, blocked, same⟩ : ∃ waiting,
      (machine signals signo).exec (machine signals signo).start [.sigpause, .sigpause] =
        some waiting ∧ waiting.frames = [] ∧ waiting.place.wake = .interrupted ∧
        waiting.signals.mask ender = false ∧ waiting.signals.dispositions = signals.dispositions := by
    refine ⟨_, rfl, rfl, rfl, ?_, rfl⟩
    simp [sigprocmask, machine, opens]
  have handler : (waiting.signals.dispositions ender).caught = true := by rw [same, caught]
  have deliverable : (waiting.receive ender).signals.deliverable ender = true := by
    simp [State.receive, SignalState.deliverable, generate_caught handler, blocked]
  have still : ((waiting.receive ender).signals.dispositions ender).caught = true := by
    rw [State.receive, generate_dispositions, handler]
  have suspended := Machine.reachable_of_exec .start suspends
  have sent : (machine signals signo).Reachable (waiting.receive ender) :=
    suspended.step (show (machine signals signo).step waiting (.send ender) = some _ from rfl)
  have handled := Machine.reachable_of_exec sent (exec_handled main deliverable still)
  have returns : (machine signals signo).step ((waiting.receive ender).handled ender) .sigpause =
      some { (waiting.receive ender).handled ender with place := .returned } := by
    simp [machine, step, main, sigpause, place, State.handled, State.receive]
  exact ⟨_, handled.step returns, rfl, main⟩

/-- The mask is restored exactly if the signal was not blocked before the call. -/
theorem sigpause_restores_iff {signals : SignalState} {signo ender : Nat}
    (admitted : catchable signo = true) (caught : (signals.dispositions ender).caught = true)
    (unblocked : ender = signo ∨ signals.mask ender = false) :
    (∀ state, (machine signals signo).Reachable state → state.place = .returned →
        state.frames = [] → state.signals.mask = signals.mask) ↔
      signals.mask signo = false := by
  constructor
  · intro restored
    obtain ⟨state, reached, returned, main⟩ := exists_returned admitted caught unblocked
    rw [← restored state reached returned main, mask_after admitted reached returned main, opened]
    simp
  · intro free state reached returned main
    rw [mask_after admitted reached returned main]
    funext other
    by_cases same : other = signo
    · simp [opened, same, free]
    · simp [opened, same]

/-- SIGUSR1 has a handler, and is blocked or not. -/
def handling (blocked : Bool) : SignalState where
  mask := fun other => other == SIGUSR1 && blocked
  pending := sigemptyset
  dispositions := fun _ => ⟨100, sigemptyset, 0⟩

theorem sigpause_restores_open :
    (∀ state, (machine (handling false) SIGUSR1).Reachable state → state.place = .returned →
        state.frames = [] → state.signals.mask = (handling false).mask) ↔
      (handling false).mask SIGUSR1 = false :=
  sigpause_restores_iff (by decide) (show ((handling false).dispositions SIGUSR1).caught = true by
    decide) (.inl rfl)

/-- The signal that was held around the call is no longer blocked behind it. -/
theorem sigpause_not_restores : ¬ ∀ (signals : SignalState) (signo : Nat) (state : State),
    catchable signo = true → (machine signals signo).Reachable state → state.place = .returned →
      state.frames = [] → state.signals.mask = signals.mask := by
  intro restored
  obtain ⟨state, reached, returned, main⟩ :=
    @exists_returned (handling true) SIGUSR1 SIGUSR1 (by decide) (by decide) (.inl rfl)
  have same := restored (handling true) SIGUSR1 state (by decide) reached returned main
  rw [mask_after (by decide) reached returned main] at same
  have blocked := congrFun same SIGUSR1
  revert blocked
  decide

/-! One signal that arrives, and the process that waits for it. -/

/-- When the signal arrives: before the call, or during it. -/
inductive Arrival where
  | pending
  | beforeUnblocking
  | beforeSuspending
  | whileWaiting
  deriving DecidableEq, Repr

def Place.arrival : Place → Arrival
  | .calling => .beforeUnblocking
  | .unblocked _ => .beforeSuspending
  | .suspended _ | .interrupted | .returned => .whileWaiting

/-- The signal is sent once, at the moment given, and no other one is. -/
def arrives (signo : Nat) (arrival : Arrival) (state : State) : Action → Bool
  | .send other => other == signo && !state.sent.contains signo && state.place.arrival = arrival
  | .deliver _ | .handler _ _ | .handlerReturns | .sigpause => true

/-- The state at the call; a signal that arrived before is pending. -/
def atCall (signals : SignalState) (signo : Nat) (arrival : Arrival) : SignalState :=
  { signals with pending := Function.update signals.pending signo (arrival = .pending) }

def arriving (signals : SignalState) (signo : Nat) (arrival : Arrival) : Machine State Action :=
  (machine (atCall signals signo arrival) signo).guarded (arrives signo arrival)

/-- The process waits for a signal that has come already. -/
def Missed (signo : Nat) (state : State) : Prop :=
  (∃ saved, state.place = .suspended saved) ∧ signo ∈ state.ran

/-- The handler has not run unless a handler has ended the wait. -/
def Unhandled (signo : Nat) (state : State) : Prop :=
  match state.place with
  | .calling | .unblocked _ => state.signals.pending signo = false ∧ signo ∉ state.ran
  | .suspended _ => signo ∉ state.ran
  | .interrupted | .returned => True

theorem Unhandled.step {signo : Nat} {state next : State} {action : Action}
    (unhandled : Unhandled signo state) (admitted : arrives signo .whileWaiting state action = true)
    (taken : step signo state action = some next) : Unhandled signo next := by
  obtain ⟨current, place, frames, ran, sent⟩ := state
  cases action with
  | send other =>
    cases taken
    cases place with
    | calling | unblocked oset => simp [arrives, Place.arrival] at admitted
    | suspended saved => exact unhandled
    | interrupted | returned => trivial
  | deliver other =>
    simp only [Pause.step] at taken
    split at taken
    next delivered =>
      cases taken
      -- Before the wait the signal is not pending, so another one is delivered.
      have another : current.pending signo = false → other ≠ signo := by
        rintro nothing rfl
        simp [SignalState.deliverable, nothing] at delivered
      cases place with
      | calling | unblocked oset =>
        have different := another unhandled.1
        refine ⟨?_, ?_⟩
        · simpa [SignalState.take, Function.update_of_ne different.symm] using unhandled.1
        · simpa using ⟨different.symm, unhandled.2⟩
      | suspended saved | interrupted | returned => trivial
    next =>
      split at taken
      next =>
        cases taken
        cases place with
        | calling | unblocked oset =>
          refine ⟨?_, unhandled.2⟩
          by_cases same : signo = other
          · simp [SignalState.take, same]
          · simpa [SignalState.take, Function.update_of_ne same] using unhandled.1
        | suspended saved => exact unhandled
        | interrupted | returned => trivial
      next => cases taken
  | handler how set =>
    simp only [Pause.step] at taken
    split at taken
    next => cases taken
    next =>
      cases taken
      cases place <;> exact unhandled
  | handlerReturns =>
    cases frames with
    | nil => cases taken
    | cons mask frames =>
      cases taken
      cases place <;> exact unhandled
  | sigpause =>
    simp only [Pause.step] at taken
    split at taken
    next =>
      cases place with
      | calling =>
        cases taken
        exact unhandled
      | unblocked oset =>
        cases taken
        exact unhandled.2
      | interrupted =>
        cases taken
        trivial
      | suspended saved | returned => cases taken
    next => cases taken

/-- Between the two system calls the handler can run, and then the process waits. -/
theorem exists_missed {signals : SignalState} {signo : Nat} {arrival : Arrival}
    {state : State} (reached : (arriving signals signo arrival).Reachable state) {oset : SignalSet}
    (place : state.place = .unblocked oset) (main : state.frames = [])
    (deliverable : state.signals.deliverable signo = true)
    (caught : (state.signals.dispositions signo).caught = true) :
    ∃ next, (arriving signals signo arrival).Reachable next ∧ Missed signo next := by
  have free : ∀ action ∈ [Action.deliver signo, .handlerReturns], ∀ state,
      arrives signo arrival state action = true := by
    intro action member state
    simp only [List.mem_cons, List.not_mem_nil, or_false] at member
    rcases member with rfl | rfl <;> rfl
  have run := @exec_handled (atCall signals signo arrival) signo signo state main deliverable caught
  have handled := Machine.reachable_of_exec reached (Machine.exec_guarded free run)
  obtain ⟨next, suspends, waits, ran⟩ : ∃ next,
      step signo (state.handled signo) .sigpause = some next ∧
        (∃ saved, next.place = .suspended saved) ∧ next.ran = signo :: state.ran := by
    simp [step, sigpause, State.handled, Place.wake, place, main]
  have taken : (arriving signals signo arrival).step (state.handled signo) .sigpause = some next :=
    Machine.guarded_step.mpr ⟨rfl, suspends⟩
  exact ⟨next, handled.step taken, waits, by simp [ran]⟩

/-- The state between the two calls, if nothing was delivered. -/
def unblocking (signo : Nat) (current : SignalState) (sent : List Nat) : State where
  signals := (sigprocmask current .SIG_UNBLOCK (sigaddset sigemptyset signo)).1
  place := .unblocked current.mask
  frames := []
  ran := []
  sent := sent

theorem deliverable_unblocking {current : SignalState} {signo : Nat}
    (admitted : catchable signo = true) (pending : current.pending signo = true) (sent : List Nat) :
    (unblocking signo current sent).signals.deliverable signo = true := by
  have free := congrFun (@sigprocmask_opened current signo admitted) signo
  simp only [opened, bne_self_eq_false, Bool.and_false] at free
  simp only [SignalState.deliverable, unblocking, free, Bool.not_false, Bool.and_true]
  exact pending

/-- A signal that arrives before the process waits is there between the two calls. -/
theorem exists_deliverable {signals : SignalState} {signo : Nat} (admitted : catchable signo = true)
    (caught : (signals.dispositions signo).caught = true) {arrival : Arrival}
    (early : arrival ≠ .whileWaiting) :
    ∃ state oset, (arriving signals signo arrival).Reachable state ∧ state.place = .unblocked oset ∧
      state.frames = [] ∧ state.signals.deliverable signo = true ∧
      (state.signals.dispositions signo).caught = true := by
  have called_first : (arriving signals signo arrival).Reachable
    ⟨atCall signals signo arrival, .calling, [], [], []⟩ := .start
  have calls : ∀ current sent, (arriving signals signo arrival).step
      ⟨current, .calling, [], [], sent⟩ .sigpause = some (unblocking signo current sent) :=
    fun _ _ => Machine.guarded_step.mpr ⟨rfl, rfl⟩
  have sends : ∀ state : State, state.sent = [] → state.place.arrival = arrival →
      (arriving signals signo arrival).step state (.send signo) = some (state.receive signo) :=
    fun state first moment => Machine.guarded_step.mpr ⟨by simp [arrives, first, moment], rfl⟩
  have generated : ∀ current : SignalState, (current.dispositions signo).caught = true →
      (current.generate signo).pending signo = true := by
    intro current handler
    simp [generate_caught handler]
  cases arrival with
  | pending =>
    have pending : (atCall signals signo .pending).pending signo = true := by simp [atCall]
    exact ⟨_, _, called_first.step (calls _ _), rfl, rfl, deliverable_unblocking admitted pending _, caught⟩
  | beforeUnblocking =>
    have sent := called_first.step (sends _ rfl rfl)
    have pending := generated (atCall signals signo .beforeUnblocking) caught
    refine ⟨_, _, sent.step (calls _ _), rfl, rfl, deliverable_unblocking admitted pending _, ?_⟩
    simpa [unblocking, sigprocmask, atCall] using caught
  | beforeSuspending =>
    have called := called_first.step (calls _ _)
    have pending := generated (unblocking signo (atCall signals signo .beforeSuspending) []).signals
      caught
    have free := congrFun (@sigprocmask_opened (atCall signals signo .beforeSuspending) signo admitted)
      signo
    refine ⟨_, _, called.step (sends _ rfl rfl), rfl, rfl, ?_, ?_⟩
    · simp only [State.receive, SignalState.deliverable, pending, generate_mask, Bool.true_and]
      simp [unblocking, free, opened]
    · simpa [State.receive, unblocking, sigprocmask, atCall] using caught
  | whileWaiting => contradiction

/-- The wait cannot miss the signal exactly if the signal arrives when it has begun. -/
theorem sigpause_not_missed_iff {signals : SignalState} {signo : Nat} (admitted : catchable signo = true)
    (caught : (signals.dispositions signo).caught = true) (arrival : Arrival) :
    (∀ state, (arriving signals signo arrival).Reachable state → ¬ Missed signo state) ↔
      arrival = .whileWaiting := by
  constructor
  · intro never
    by_contra early
    obtain ⟨state, oset, reached, place, main, deliverable, handler⟩ :=
      exists_deliverable admitted caught early
    obtain ⟨next, missed_reached, missed⟩ := exists_missed reached place main deliverable handler
    exact never next missed_reached missed
  · rintro rfl state reached ⟨⟨saved, waiting⟩, ran⟩
    have start : Unhandled signo (arriving signals signo .whileWaiting).start := by
      simp [Unhandled, arriving, Machine.guarded, machine, atCall]
    have unhandled := Machine.invariant start (fun unhandled taken =>
      unhandled.step (Machine.guarded_step.mp taken).1 (Machine.guarded_step.mp taken).2) reached
    rw [Unhandled, waiting] at unhandled
    exact unhandled ran

theorem sigpause_not_missed_waiting :
    (∀ state, (arriving (handling true) SIGUSR1 .whileWaiting).Reachable state →
        ¬ Missed SIGUSR1 state) ↔
      Arrival.whileWaiting = .whileWaiting :=
  sigpause_not_missed_iff (by decide) (show ((handling true).dispositions SIGUSR1).caught = true by
    decide) .whileWaiting

/-- A signal that is pending at the call is handled before the process waits for it. -/
theorem sigpause_misses_pending : ¬ ∀ (signals : SignalState) (signo : Nat) (arrival : Arrival)
    (state : State), catchable signo = true → (signals.dispositions signo).caught = true →
      signals.mask signo = true → (arriving signals signo arrival).Reachable state →
        ¬ Missed signo state := by
  intro never
  have admitted : catchable SIGUSR1 = true := by decide
  have caught : ((handling true).dispositions SIGUSR1).caught = true := by decide
  obtain ⟨state, oset, reached, place, main, deliverable, handler⟩ :=
    exists_deliverable admitted caught (show Arrival.pending ≠ .whileWaiting by decide)
  obtain ⟨next, missed_reached, missed⟩ := exists_missed reached place main deliverable handler
  exact never (handling true) SIGUSR1 .pending next admitted caught (by decide) missed_reached missed

end LinuxProgramming.Signals.Pause
