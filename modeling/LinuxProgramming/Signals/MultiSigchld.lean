import LinuxProgramming.Foundation.Machine
import LinuxProgramming.Foundation.Signals
import LinuxProgramming.Foundation.Tally

/-! A parent that reaps its children in a SIGCHLD handler.

The signals of several children that end close together are merged, so the handler has
to reap whoever has ended. The signal is blocked outside `sigsuspend`: a child that ends
between the test of `numLiveChildren` and the wait is not missed. No other signal is sent
to the parent, and it has no children but those that it creates.
-/

set_option autoImplicit false

namespace LinuxProgramming.Signals.MultiSIGCHLD
open Foundation

/-- The address of `sigchldHandler`. -/
def sigchldHandler : Handler := 4096

def EXIT_SUCCESS : Nat := 0
def EXIT_FAILURE : Nat := 1

inductive Child where
  | unborn
  | running
  | zombie
  | reaped
  deriving DecidableEq, Repr

/-- The system call that the parent makes next in `main`; `suspended` is inside
`sigsuspend`, with the mask that it restores. -/
inductive Place where
  | installing
  | masking
  | forking (j : Nat)
  | testing
  | suspending
  | suspended (saved : SignalSet)
  | counting
  | exited (status : Nat)

namespace Place

def alive : Place → Bool
  | .exited _ => false
  | _ => true

/-- The first child that is still to be created. -/
def created : Place → Option Nat
  | .installing | .masking => some 0
  | .forking j => some j
  | .testing | .suspending | .suspended _ | .counting | .exited _ => none

/-- The signal is blocked here. -/
def armed : Place → Bool
  | .forking _ | .testing | .suspending | .counting => true
  | .installing | .masking | .suspended _ | .exited _ => false

end Place

inductive HandlerPlace where
  | reaping
  | returning
  deriving DecidableEq, Repr

/-- A handler that runs has the mask that its return restores. `reaped` lists the children
in its messages, the last one first, and `strays` bounds the signals that do not come
from the end of a child. -/
structure State (count : Nat) where
  place : Place
  handler : Option (HandlerPlace × SignalSet)
  signals : SignalState
  child : Fin count → Child
  numLiveChildren : Int
  sigCnt : Nat
  reaped : List (Fin count)
  strays : Nat

inductive Action (count : Nat) where
  | run
  | fail
  | deliver
  | reap (child : Fin count)
  | exit (child : Fin count)
  | stray
  deriving DecidableEq, Repr

variable {count : Nat}

def blockMask : SignalSet := sigaddset sigemptyset SIGCHLD
def emptyMask : SignalSet := sigemptyset

/-- A step of `main`; without a child to create it is not used rightly. -/
def mainStep (state : State count) : Option (State count) :=
  match state.place with
  | .installing =>
    if count = 0 then some { state with place := .exited EXIT_FAILURE }
    else (sigaction state.signals SIGCHLD ⟨sigchldHandler, sigemptyset, 0⟩).map fun installed =>
      { state with place := .masking, signals := installed.1 }
  | .masking => some { state with
      place := .forking 0
      signals := (sigprocmask state.signals .SIG_SETMASK blockMask).1 }
  | .forking j =>
    if inside : j < count then
      some { state with
        place := .forking (j + 1)
        child := Function.update state.child ⟨j, inside⟩ .running }
    else some { state with place := .testing }
  | .testing => some { state with
      place := if 0 < state.numLiveChildren then .suspending else .exited EXIT_SUCCESS }
  | .suspending => some { state with
      place := .suspended state.signals.mask
      signals := { state.signals with mask := emptyMask } }
  | .counting => some { state with place := .testing, sigCnt := state.sigCnt + 1 }
  | .suspended _ | .exited _ => none

/-- Where `main` goes on when the handler returns. -/
def Place.resumed : Place → Place
  | .suspended _ => .counting
  | place => place

/-- A step of `main`, or of the handler: `waitpid` returns 0, or fails with ECHILD, when no
child has ended. -/
def run (state : State count) : Option (State count) :=
  match state.handler with
  | none => mainStep state
  | some (.reaping, restored) =>
    if ∀ child, state.child child ≠ .zombie then
      some { state with handler := some (.returning, restored) }
    else none
  | some (.returning, restored) => some { state with
      handler := none
      place := state.place.resumed
      signals := { state.signals with mask := restored } }

/-- `waitpid` returns one of the children that have ended. -/
def reap (state : State count) (child : Fin count) : Option (State count) :=
  match state.handler with
  | some (.reaping, _) =>
    if state.child child = .zombie then
      some { state with
        child := Function.update state.child child .reaped
        numLiveChildren := state.numLiveChildren - 1
        reaped := child :: state.reaped }
    else none
  | _ => none

/-- The mask that the end of the handler restores: `sigsuspend` has kept its own. -/
def Place.restored (place : Place) (mask : SignalSet) : SignalSet :=
  match place with
  | .suspended saved => saved
  | _ => mask

/-- A handler blocks its own signal, so none is delivered while it runs. -/
def deliver (state : State count) : Option (State count) :=
  if state.place.alive && state.handler.isNone && state.signals.deliverable SIGCHLD then
    let taken := state.signals.take SIGCHLD
    if (state.signals.dispositions SIGCHLD).ignores SIGCHLD then some { state with signals := taken }
    else some { state with
      handler := some (.reaping, state.place.restored state.signals.mask)
      signals := { taken with mask := state.signals.handlerMask SIGCHLD } }
  else none

/-- The signals of the parent when one more SIGCHLD is sent to it. -/
def State.received (state : State count) : SignalState :=
  if state.place.alive then state.signals.generate SIGCHLD else state.signals

/-- A child that outlives the parent sends its signal to somebody else. -/
def step (state : State count) : Action count → Option (State count)
  | .run => run state
  | .deliver => deliver state
  | .reap child => reap state child
  | .exit child =>
    if state.child child = .running then
      some { state with
        signals := state.received
        child := Function.update state.child child .zombie }
    else none
  | .stray =>
    match state.strays with
    | 0 => none
    | strays + 1 => some { state with signals := state.received, strays := strays }
  | .fail =>
    match state.place, state.handler with
    | .installing, none | .masking, none => some { state with place := .exited EXIT_FAILURE }
    | .forking j, none =>
      if j < count then some { state with place := .exited EXIT_FAILURE } else none
    | _, _ => none

/-- What `execve` leaves: any mask, no handlers, and it may be that a SIGCHLD is pending. -/
def inherited (mask ignored : SignalSet) (pending : Bool) : SignalState :=
  ⟨mask, fun signo => pending && signo == SIGCHLD,
    fun signo => ⟨if ignored signo then SIG_IGN else SIG_DFL, sigemptyset, 0⟩⟩

def machine (count : Nat) (mask ignored : SignalSet) (pending : Bool) (strays : Nat) :
    Machine (State count) (Action count) where
  start := ⟨.installing, none, inherited mask ignored pending, fun _ => .unborn, count, 0, [], strays⟩
  step := step

/-- The signal arrives once more for each child that has not ended, and for each stray one. -/
def Child.owes : Child → Nat
  | .unborn | .running => 1
  | .zombie | .reaped => 0

def Place.owes : Place → Nat
  | .counting => 1
  | _ => 0

/-- The signals that `sigCnt` may still count. -/
def State.owed (state : State count) : Nat :=
  ∑ child, (state.child child).owes + state.strays + (state.signals.pending SIGCHLD).toNat +
    state.handler.isSome.toNat + state.place.owes

/-- A child that has ended and is not reaped is known to the handler, or its signal is
pending; and outside `sigsuspend` the handler does not run behind the first `fork`. -/
structure Sound (total : Nat) (state : State count) : Prop where
  later : ∀ j, state.place.created = some j → ∀ child : Fin count, j ≤ child →
    state.child child = .unborn
  unborn : ∀ child, state.child child = .unborn →
    (∃ j, state.place.created = some j ∧ j ≤ child) ∨ state.place = .exited EXIT_FAILURE
  live : state.numLiveChildren + state.reaped.length = count
  once : state.reaped.Nodup
  lines : ∀ child, child ∈ state.reaped ↔ state.child child = .reaped
  noticed : ∀ child, state.child child = .zombie → state.place.alive = true →
    state.signals.pending SIGCHLD = true ∨ ∃ mask, state.handler = some (.reaping, mask)
  fresh : state.place = .installing →
    (state.signals.dispositions SIGCHLD).ignores SIGCHLD = true
  caught : state.place ≠ .installing → state.place.alive = true →
    (state.signals.dispositions SIGCHLD).sa_handler = sigchldHandler
  masked : state.place.armed = true → state.signals.mask SIGCHLD = true
  opened : ∀ saved, state.place = .suspended saved →
    saved SIGCHLD = true ∧ (state.handler = none → state.signals.mask SIGCHLD = false)
  frame : ∀ place mask, state.handler = some (place, mask) →
    state.place = .masking ∨ state.place = .suspended mask
  busy : state.place = .suspending ∨
    (∃ saved, state.place = .suspended saved) ∧ state.handler = none → 0 < state.numLiveChildren
  finished : ∀ status, state.place = .exited status →
    status = EXIT_FAILURE ∨ status = EXIT_SUCCESS ∧ state.numLiveChildren ≤ 0
  most : state.sigCnt + state.owed ≤ total
  least : state.numLiveChildren < count →
    1 ≤ state.sigCnt ∨ state.handler.isSome = true ∨ state.place = .counting

variable {total : Nat} {state next : State count} {child : Fin count}

theorem received_mask (state : State count) : state.received.mask = state.signals.mask := by
  unfold State.received
  split
  next => rw [generate_mask]
  next => rfl

theorem received_dispositions (state : State count) :
    state.received.dispositions = state.signals.dispositions := by
  unfold State.received
  split
  next => rw [generate_dispositions]
  next => rfl

theorem received_pending (pending : state.signals.pending SIGCHLD = true) :
    state.received.pending SIGCHLD = true := by
  unfold State.received SignalState.generate
  split
  next =>
    split
    next => exact pending
    next => exact Function.update_self SIGCHLD true state.signals.pending
  next => exact pending

/-- A parent that has its handler is told. -/
theorem received_caught (alive : state.place.alive = true)
    (caught : (state.signals.dispositions SIGCHLD).sa_handler = sigchldHandler) :
    state.received.pending SIGCHLD = true := by
  have handled : (state.signals.dispositions SIGCHLD).caught = true := by
    simp [Sigaction.caught, caught, sigchldHandler, SIG_DFL, SIG_IGN]
  rw [State.received, if_pos alive, generate_caught handled]
  exact Function.update_self SIGCHLD true state.signals.pending

theorem Sound.born (sound : Sound total state) (child : Fin count)
    (born : state.child child ≠ .unborn) : state.place ≠ .installing ∧ state.place ≠ .masking := by
  constructor
  · intro place
    exact born (sound.later 0 (by rw [place]; rfl) child (Nat.zero_le _))
  · intro place
    exact born (sound.later 0 (by rw [place]; rfl) child (Nat.zero_le _))

theorem Sound.exit (sound : Sound total state) (running : state.child child = .running) :
    Sound total { state with
      signals := state.received
      child := Function.update state.child child .zombie } := by
  have moved := sum_update Child.owes state.child child .zombie
  rw [running, show Child.running.owes = 1 from rfl, show Child.zombie.owes = 0 from rfl] at moved
  have placed := (sound.born child (by simp [running])).1
  have small : (state.received.pending SIGCHLD).toNat ≤ 1 := Bool.toNat_le _
  have most := sound.most
  refine ⟨?_, ?_, sound.live, sound.once, ?_, ?_, ?_, ?_, ?_, ?_, sound.frame, sound.busy,
    sound.finished, ?_, sound.least⟩
  · intro j created other behind
    have unborn := sound.later j created other behind
    have apart : other ≠ child := by
      rintro rfl
      rw [running] at unborn
      cases unborn
    exact (Function.update_of_ne apart ..).trans unborn
  · intro other unborn
    by_cases same : other = child
    · subst same
      simp at unborn
    · exact sound.unborn other ((Function.update_of_ne same ..).symm.trans unborn)
  · intro other
    rw [sound.lines other]
    by_cases same : other = child
    · subst same
      simp [running]
    · simp only [Function.update_of_ne same]
  · intro other _ alive
    exact .inl (received_caught alive (sound.caught placed alive))
  · rw [received_dispositions]
    exact sound.fresh
  · rw [received_dispositions]
    exact sound.caught
  · rw [received_mask]
    exact sound.masked
  · rw [received_mask]
    exact sound.opened
  · simp only [State.owed] at most ⊢
    omega

theorem Sound.stray (sound : Sound total state) {strays : Nat}
    (some_stray : state.strays = strays + 1) :
    Sound total { state with signals := state.received, strays := strays } := by
  have small : (state.received.pending SIGCHLD).toNat ≤ 1 := Bool.toNat_le _
  have most := sound.most
  refine ⟨sound.later, sound.unborn, sound.live, sound.once, sound.lines, ?_, ?_, ?_, ?_, ?_,
    sound.frame, sound.busy, sound.finished, ?_, sound.least⟩
  · intro other zombie alive
    rcases sound.noticed other zombie alive with pending | reaping
    · exact .inl (received_pending pending)
    · exact .inr reaping
  · rw [received_dispositions]
    exact sound.fresh
  · rw [received_dispositions]
    exact sound.caught
  · rw [received_mask]
    exact sound.masked
  · rw [received_mask]
    exact sound.opened
  · simp only [State.owed, some_stray] at most ⊢
    omega

theorem Sound.reap (sound : Sound total state) {mask : SignalSet}
    (reaping : state.handler = some (.reaping, mask)) (zombie : state.child child = .zombie) :
    Sound total { state with
      child := Function.update state.child child .reaped
      numLiveChildren := state.numLiveChildren - 1
      reaped := child :: state.reaped } := by
  have moved := sum_update Child.owes state.child child .reaped
  rw [zombie, show Child.zombie.owes = 0 from rfl, show Child.reaped.owes = 0 from rfl] at moved
  have most := sound.most
  have live := sound.live
  refine ⟨?_, ?_, ?_, ?_, ?_, ?_, sound.fresh, sound.caught, sound.masked, sound.opened,
    sound.frame, ?_, ?_, ?_, ?_⟩
  · intro j created other behind
    have unborn := sound.later j created other behind
    have apart : other ≠ child := by
      rintro rfl
      rw [zombie] at unborn
      cases unborn
    exact (Function.update_of_ne apart ..).trans unborn
  · intro other unborn
    by_cases same : other = child
    · subst same
      simp at unborn
    · exact sound.unborn other ((Function.update_of_ne same ..).symm.trans unborn)
  · simp only [List.length_cons]
    omega
  · refine List.nodup_cons.mpr ⟨?_, sound.once⟩
    rw [sound.lines, zombie]
    simp
  · intro other
    rw [List.mem_cons, sound.lines other]
    by_cases same : other = child
    · simp [same]
    · simp [same]
  · intro _ _ _
    exact .inr ⟨mask, reaping⟩
  · rintro (suspending | ⟨_, idle⟩)
    · rcases sound.frame _ _ reaping with place | place
      · rw [place] at suspending
        cases suspending
      · rw [place] at suspending
        cases suspending
    · rw [reaping] at idle
      cases idle
  · intro status exited
    rcases sound.frame _ _ reaping with place | place
    · rw [place] at exited
      cases exited
    · rw [place] at exited
      cases exited
  · simp only [State.owed] at most ⊢
    omega
  · intro _
    exact .inr (.inl (by rw [reaping]; rfl))

/-- Behind the first `fork` only `sigsuspend` lets the handler run. -/
theorem Sound.deliver (sound : Sound total state)
    (taken : deliver state = some next) : Sound total next := by
  unfold MultiSIGCHLD.deliver at taken
  split at taken
  next enabled =>
    obtain ⟨⟨alive, idle⟩, pending, unmasked⟩ : (state.place.alive = true ∧
        state.handler.isNone = true) ∧ state.signals.pending SIGCHLD = true ∧
        state.signals.mask SIGCHLD = false := by
      simpa [SignalState.deliverable] using enabled
    have none_runs : state.handler = none := Option.isNone_iff_eq_none.mp idle
    have free : ¬state.place.armed = true := by
      intro armed
      have masked := sound.masked armed
      rw [unmasked] at masked
      cases masked
    have most := sound.most
    have gone : (state.signals.take SIGCHLD).pending SIGCHLD = false := by
      simp [SignalState.take]
    simp only at taken
    split at taken
    next ignores =>
      cases taken
      refine ⟨sound.later, sound.unborn, sound.live, sound.once, sound.lines, ?_, sound.fresh,
        sound.caught, sound.masked, sound.opened, sound.frame, sound.busy, sound.finished, ?_,
        sound.least⟩
      · intro child (zombie : state.child child = .zombie) _
        have placed := (sound.born child (by simp [zombie])).1
        have caught : (state.signals.dispositions SIGCHLD).caught = true := by
          simp [Sigaction.caught, sound.caught placed alive, sigchldHandler, SIG_DFL, SIG_IGN]
        rw [ignores_of_caught caught] at ignores
        cases ignores
      · simp only [State.owed, gone, pending, Bool.toNat_true, Bool.toNat_false] at most ⊢
        omega
    next handles =>
      cases taken
      refine ⟨sound.later, sound.unborn, sound.live, sound.once, sound.lines, ?_, sound.fresh,
        sound.caught, ?_, ?_, ?_, ?_, sound.finished, ?_, ?_⟩
      · intro child zombie _
        exact .inr ⟨_, rfl⟩
      · intro armed
        exact absurd armed free
      · intro saved suspended
        refine ⟨(sound.opened saved suspended).1, ?_⟩
        intro idle
        cases idle
      · intro place mask running
        cases running
        cases here : state.place with
        | masking => exact .inl rfl
        | suspended saved => exact .inr (by rw [Place.restored])
        | installing => exact absurd (sound.fresh here) handles
        | forking | testing | suspending | counting => exact absurd (by rw [here]; rfl) free
        | exited => simp [here, Place.alive] at alive
      · rintro (suspending | ⟨_, idle⟩)
        · exact absurd (by rw [suspending]; rfl) free
        · cases idle
      · simp only [State.owed, gone, pending, none_runs, Bool.toNat_true, Bool.toNat_false,
          Option.isSome_none, Option.isSome_some] at most ⊢
        omega
      · intro _
        exact .inr (.inl rfl)
  next => cases taken

/-- The handler of a parent without children finds nothing to reap. -/
theorem Sound.childless (sound : Sound total state) (place : state.place = .masking) :
    state.numLiveChildren = count := by
  have nobody : state.reaped = [] := by
    rw [List.eq_nil_iff_forall_not_mem]
    intro child member
    have unborn := sound.later 0 (by rw [place]; rfl) child (Nat.zero_le _)
    rw [(sound.lines child).mp member] at unborn
    cases unborn
  have live := sound.live
  rw [nobody, List.length_nil] at live
  omega

theorem Sound.returns (sound : Sound total state) {mask : SignalSet}
    (returning : state.handler = some (.returning, mask)) :
    Sound total { state with
      handler := none
      place := state.place.resumed
      signals := { state.signals with mask := mask } } := by
  have noticed : ∀ child, state.child child = .zombie → state.place.alive = true →
      state.signals.pending SIGCHLD = true := by
    intro child zombie alive
    rcases sound.noticed child zombie alive with pending | ⟨_, reaping⟩
    · exact pending
    · rw [returning] at reaping
      cases reaping
  have most := sound.most
  simp only [State.owed, returning, Option.isSome_some, Bool.toNat_true] at most
  rcases sound.frame _ _ returning with place | place
  · have childless := sound.childless place
    rw [place] at most
    rw [place, show Place.masking.resumed = .masking from rfl]
    refine ⟨fun j created => sound.later j (by rw [place]; exact created), ?_, sound.live,
      sound.once, sound.lines, ?_, by simp, ?_, by simp [Place.armed], by simp, by simp, by simp,
      by simp, ?_, ?_⟩
    · intro child unborn
      have before := sound.unborn child unborn
      rw [place] at before
      exact before
    · intro child zombie _
      exact .inl (noticed child zombie (by rw [place]; rfl))
    · intro _ _
      exact sound.caught (by simp [place]) (by rw [place]; rfl)
    · simp only [State.owed, Option.isSome_none, Bool.toNat_false]
      omega
    · simp only
      omega
  · have saved := (sound.opened mask place).1
    rw [place] at most
    rw [place, show (Place.suspended mask).resumed = .counting from rfl]
    refine ⟨fun j created => (by cases created), ?_, sound.live, sound.once, sound.lines, ?_,
      by simp, ?_, fun _ => saved, by simp, by simp, by simp, by simp, ?_, fun _ => .inr (.inr rfl)⟩
    · intro child unborn
      rcases sound.unborn child unborn with ⟨j, created, _⟩ | exited
      · rw [place] at created
        cases created
      · rw [place] at exited
        cases exited
    · intro child zombie _
      exact .inl (noticed child zombie (by rw [place]; rfl))
    · intro _ _
      exact sound.caught (by simp [place]) (by rw [place]; rfl)
    · simp only [State.owed, Option.isSome_none, Bool.toNat_false, Place.owes] at most ⊢
      omega

/-- The handler has seen that nobody is left to reap. -/
theorem Sound.empties (sound : Sound total state) {mask : SignalSet}
    (reaping : state.handler = some (.reaping, mask))
    (nobody : ∀ child, state.child child ≠ .zombie) :
    Sound total { state with handler := some (.returning, mask) } := by
  have most := sound.most
  refine ⟨sound.later, sound.unborn, sound.live, sound.once, sound.lines, ?_, sound.fresh,
    sound.caught, sound.masked, ?_, ?_, ?_, sound.finished, ?_, fun _ => .inr (.inl rfl)⟩
  · intro child zombie
    exact absurd zombie (nobody child)
  · intro saved suspended
    exact ⟨(sound.opened saved suspended).1, fun idle => by cases idle⟩
  · intro place other running
    cases running
    exact sound.frame .reaping mask reaping
  · rintro (suspending | ⟨_, idle⟩)
    · exact sound.busy (.inl suspending)
    · cases idle
  · simp only [State.owed, reaping, Option.isSome_some] at most ⊢
    exact most

/-- `main` moves between places without children to be created, and no handler runs. -/
theorem Sound.moves (sound : Sound total state) (idle : state.handler = none) (place : Place)
    {signals : SignalState} {sigCnt : Nat}
    (forked : ∀ child, state.child child ≠ .unborn) (settled : place.created = none)
    (pending : signals.pending = state.signals.pending)
    (dispositions : signals.dispositions = state.signals.dispositions)
    (before : state.place ≠ .installing) (alive : state.place.alive = true)
    (masked : place.armed = true → signals.mask SIGCHLD = true)
    (opened : ∀ saved, place = .suspended saved →
      saved SIGCHLD = true ∧ signals.mask SIGCHLD = false)
    (busy : place = .suspending ∨ (∃ saved, place = .suspended saved) → 0 < state.numLiveChildren)
    (finished : ∀ status, place = .exited status →
      status = EXIT_FAILURE ∨ status = EXIT_SUCCESS ∧ state.numLiveChildren ≤ 0)
    (most : sigCnt + place.owes ≤ state.sigCnt + state.place.owes)
    (least : state.numLiveChildren < count → 1 ≤ sigCnt) :
    Sound total { state with place := place, signals := signals, sigCnt := sigCnt } := by
  have installed : place ≠ .installing := by
    rintro rfl
    cases settled
  refine ⟨?_, ?_, sound.live, sound.once, sound.lines, ?_, ?_, ?_, masked, ?_, ?_, ?_, finished, ?_,
    fun fewer => .inl (least fewer)⟩
  · intro j created
    rw [settled] at created
    cases created
  · intro child unborn
    exact absurd unborn (forked child)
  · intro child zombie _
    rcases sound.noticed child zombie alive with kept | ⟨mask, reaping⟩
    · exact .inl (by rw [pending]; exact kept)
    · rw [idle] at reaping
      cases reaping
  · intro installing
    exact absurd installing installed
  · intro _ _
    rw [dispositions]
    exact sound.caught before alive
  · intro saved suspended
    exact ⟨(opened saved suspended).1, fun _ => (opened saved suspended).2⟩
  · intro _ _ running
    rw [idle] at running
    cases running
  · rintro (suspending | ⟨suspended, _⟩)
    · exact busy (.inl suspending)
    · exact busy (.inr suspended)
  · have before := sound.most
    simp only [State.owed, pending] at before ⊢
    omega

/-- Behind the loop of the forks every child is born. -/
theorem Sound.forked (sound : Sound total state) (settled : state.place.created = none)
    (alive : state.place.alive = true) (child : Fin count) : state.child child ≠ .unborn := by
  intro unborn
  rcases sound.unborn child unborn with ⟨j, created, _⟩ | exited
  · rw [settled] at created
    cases created
  · rw [exited] at alive
    cases alive

theorem Sound.counted (sound : Sound total state) (idle : state.handler = none)
    (outside : state.place ≠ .counting) (fewer : state.numLiveChildren < count) :
    1 ≤ state.sigCnt := by
  rcases sound.least fewer with counted | running | counting
  · exact counted
  · rw [idle] at running
    cases running
  · exact absurd counting outside

/-- Nothing that is pending is lost when the handler is installed. -/
theorem sigaction_sigchld (signals : SignalState) :
    sigaction signals SIGCHLD ⟨sigchldHandler, sigemptyset, 0⟩ =
      some ({ signals with
        dispositions := Function.update signals.dispositions SIGCHLD
          ⟨sigchldHandler, sigemptyset, 0⟩ }, signals.dispositions SIGCHLD) := rfl

theorem blockMask_sigchld : (blockMask SIGCHLD && catchable SIGCHLD) = true := by
  decide

/-- `main` goes on before it has created a child. -/
theorem Sound.prepares (sound : Sound total state) (idle : state.handler = none) {place : Place}
    {signals : SignalState} (before : state.place = .installing ∨ state.place = .masking)
    (after : place = .masking ∨ place = .forking 0)
    (pending : signals.pending = state.signals.pending)
    (caught : (signals.dispositions SIGCHLD).sa_handler = sigchldHandler)
    (masked : place = .forking 0 → signals.mask SIGCHLD = true) :
    Sound total { state with place := place, signals := signals } := by
  have unborn : ∀ child, state.child child = .unborn := by
    intro child
    refine sound.later 0 ?_ child (Nat.zero_le _)
    rcases before with here | here <;> rw [here] <;> rfl
  have created : place.created = some 0 := by
    rcases after with there | there <;> rw [there] <;> rfl
  have outside : state.place ≠ .counting := by
    rcases before with here | here <;> simp [here]
  refine ⟨fun _ _ child _ => unborn child, fun _ _ => .inl ⟨0, created, Nat.zero_le _⟩, sound.live,
    sound.once, sound.lines, ?_, ?_, fun _ _ => caught, ?_, ?_, ?_, ?_, ?_, ?_,
    fun fewer => .inl (sound.counted idle outside fewer)⟩
  · intro child zombie
    cases (unborn child).symm.trans zombie
  · intro installing
    rcases after with there | there <;> cases there.symm.trans installing
  · intro armed
    rcases after with there | there
    · rw [show place = .masking from there] at armed
      cases armed
    · exact masked there
  · intro saved suspended
    rcases after with there | there <;> cases there.symm.trans suspended
  · intro _ _ running
    cases idle.symm.trans running
  · rintro (suspending | ⟨⟨saved, suspended⟩, _⟩)
    · rcases after with there | there <;> cases there.symm.trans suspending
    · rcases after with there | there <;> cases there.symm.trans suspended
  · intro status exited
    rcases after with there | there <;> cases there.symm.trans exited
  · have most := sound.most
    have nothing : place.owes = 0 := by
      rcases after with there | there <;> rw [there] <;> rfl
    simp only [State.owed, pending, nothing] at most ⊢
    omega

/-- `fork` succeeds. -/
theorem Sound.forks (sound : Sound total state) (idle : state.handler = none) {j : Nat}
    (forking : state.place = .forking j) (inside : j < count) :
    Sound total { state with
      place := .forking (j + 1)
      child := Function.update state.child ⟨j, inside⟩ .running } := by
  have unborn := sound.later j (by rw [forking]; rfl) ⟨j, inside⟩ (Nat.le_refl j)
  have moved := sum_update Child.owes state.child ⟨j, inside⟩ .running
  rw [unborn, show Child.unborn.owes = 1 from rfl, show Child.running.owes = 1 from rfl] at moved
  refine ⟨?_, ?_, sound.live, sound.once, ?_, ?_, by simp, ?_, ?_, by simp, ?_, by simp, by simp, ?_,
    fun fewer => .inl (sound.counted idle (by simp [forking]) fewer)⟩
  · intro k created child behind
    cases created
    have apart : child ≠ ⟨j, inside⟩ := by
      rintro rfl
      exact Nat.not_succ_le_self j behind
    have before := sound.later j (by rw [forking]; rfl) child (Nat.le_of_succ_le behind)
    exact (Function.update_of_ne apart ..).trans before
  · intro child still
    by_cases same : child = ⟨j, inside⟩
    · subst same
      simp at still
    · rcases sound.unborn child ((Function.update_of_ne same ..).symm.trans still) with
        ⟨k, created, behind⟩ | exited
      · rw [forking] at created
        cases created
        have apart : child.val ≠ j := fun equal => same (Fin.ext equal)
        refine .inl ⟨j + 1, rfl, ?_⟩
        omega
      · rw [forking] at exited
        cases exited
  · intro child
    rw [sound.lines child]
    by_cases same : child = ⟨j, inside⟩
    · subst same
      simp [unborn]
    · simp only [Function.update_of_ne same]
  · intro child zombie _
    by_cases same : child = ⟨j, inside⟩
    · subst same
      simp at zombie
    · exact sound.noticed child ((Function.update_of_ne same ..).symm.trans zombie)
        (by rw [forking]; rfl)
  · intro _ _
    exact sound.caught (by simp [forking]) (by rw [forking]; rfl)
  · intro _
    exact sound.masked (by rw [forking]; rfl)
  · intro _ _ running
    cases idle.symm.trans running
  · have most := sound.most
    simp only [State.owed, forking, Place.owes] at most ⊢
    omega

theorem Sound.fails (sound : Sound total state) (idle : state.handler = none)
    (outside : state.place ≠ .counting) :
    Sound total { state with place := .exited EXIT_FAILURE } := by
  refine ⟨fun _ created => (by cases created), fun _ _ => .inr rfl, sound.live, sound.once,
    sound.lines, fun _ _ alive => (by cases alive), by simp, fun _ alive => (by cases alive),
    fun armed => (by cases armed), by simp, ?_, by simp, ?_, ?_,
    fun fewer => .inl (sound.counted idle outside fewer)⟩
  · intro _ _ running
    cases idle.symm.trans running
  · intro status exited
    cases exited
    exact .inl rfl
  · have most := sound.most
    simp only [State.owed, show (Place.exited EXIT_FAILURE).owes = 0 from rfl] at most ⊢
    omega

theorem Sound.mainStep (sound : Sound total state) (idle : state.handler = none)
    (taken : mainStep state = some next) : Sound total next := by
  unfold MultiSIGCHLD.mainStep at taken
  cases here : state.place with
  | installing =>
    simp only [here] at taken
    split at taken
    next =>
      cases taken
      exact sound.fails idle (by simp [here])
    next =>
      rw [sigaction_sigchld] at taken
      cases taken
      exact sound.prepares idle (.inl here) (.inl rfl) rfl (by simp) (by simp)
  | masking =>
    simp only [here] at taken
    cases taken
    exact sound.prepares idle (.inr here) (.inr rfl) rfl
      (sound.caught (by simp [here]) (by rw [here]; rfl)) (fun _ => blockMask_sigchld)
  | forking j =>
    simp only [here] at taken
    split at taken
    next inside =>
      cases taken
      exact sound.forks idle here inside
    next outside =>
      cases taken
      have forked : ∀ child, state.child child ≠ .unborn := by
        intro child unborn
        rcases sound.unborn child unborn with ⟨k, created, behind⟩ | exited
        · rw [here] at created
          cases created
          exact outside (Nat.lt_of_le_of_lt behind child.isLt)
        · rw [here] at exited
          cases exited
      have masked := sound.masked (by rw [here]; rfl)
      exact sound.moves idle .testing forked rfl rfl rfl (by simp [here]) (by rw [here]; rfl)
        (fun _ => masked) (by simp) (by simp) (by simp) (by rw [here]; rfl)
        (sound.counted idle (by simp [here]))
  | testing =>
    simp only [here] at taken
    cases taken
    have forked := sound.forked (by rw [here]; rfl) (by rw [here]; rfl)
    have masked := sound.masked (by rw [here]; rfl)
    by_cases more : 0 < state.numLiveChildren
    · rw [if_pos more]
      exact sound.moves idle .suspending forked rfl rfl rfl (by simp [here]) (by rw [here]; rfl)
        (fun _ => masked) (by simp) (fun _ => more) (by simp) (by rw [here]; rfl)
        (sound.counted idle (by simp [here]))
    · rw [if_neg more]
      exact sound.moves idle (.exited EXIT_SUCCESS) forked rfl rfl rfl (by simp [here])
        (by rw [here]; rfl) (fun _ => masked) (by simp) (by simp)
        (fun _ same => by cases same; exact .inr ⟨rfl, Int.not_lt.mp more⟩) (by rw [here]; rfl)
        (sound.counted idle (by simp [here]))
  | suspending =>
    simp only [here] at taken
    cases taken
    have forked := sound.forked (by rw [here]; rfl) (by rw [here]; rfl)
    have masked := sound.masked (by rw [here]; rfl)
    exact sound.moves idle (.suspended state.signals.mask) forked rfl rfl rfl (by simp [here])
      (by rw [here]; rfl) (by simp [Place.armed]) (fun _ same => by cases same; exact ⟨masked, rfl⟩)
      (fun _ => sound.busy (.inl here)) (by simp) (by rw [here]; rfl)
      (sound.counted idle (by simp [here]))
  | counting =>
    simp only [here] at taken
    cases taken
    have forked := sound.forked (by rw [here]; rfl) (by rw [here]; rfl)
    have masked := sound.masked (by rw [here]; rfl)
    exact sound.moves idle .testing forked rfl rfl rfl (by simp [here]) (by rw [here]; rfl)
      (fun _ => masked) (by simp) (by simp) (by simp) (by rw [here]; simp [Place.owes])
      (fun _ => Nat.succ_le_succ (Nat.zero_le _))
  | suspended | exited => simp [here] at taken

theorem Sound.run (sound : Sound total state) (taken : run state = some next) :
    Sound total next := by
  unfold MultiSIGCHLD.run at taken
  split at taken
  next idle => exact sound.mainStep idle taken
  next mask reaping =>
    split at taken
    next nobody =>
      cases taken
      exact sound.empties reaping nobody
    next => cases taken
  next mask returning =>
    cases taken
    exact sound.returns returning

theorem Sound.step (sound : Sound total state) {action : Action count}
    (taken : step state action = some next) : Sound total next := by
  cases action with
  | run => exact sound.run taken
  | deliver => exact sound.deliver taken
  | reap child =>
    simp only [MultiSIGCHLD.step, MultiSIGCHLD.reap] at taken
    split at taken
    next mask reaping =>
      split at taken
      next zombie =>
        cases taken
        exact sound.reap reaping zombie
      next => cases taken
    next => cases taken
  | exit child =>
    simp only [MultiSIGCHLD.step] at taken
    split at taken
    next running =>
      cases taken
      exact sound.exit running
    next => cases taken
  | stray =>
    simp only [MultiSIGCHLD.step] at taken
    split at taken
    next => cases taken
    next strays some_stray =>
      cases taken
      exact sound.stray some_stray
  | fail =>
    simp only [MultiSIGCHLD.step] at taken
    split at taken
    next here idle =>
      cases taken
      exact sound.fails idle (by simp [here])
    next here idle =>
      cases taken
      exact sound.fails idle (by simp [here])
    next here idle =>
      split at taken
      next =>
        cases taken
        exact sound.fails idle (by simp [here])
      next => cases taken
    next => cases taken

variable {mask ignored : SignalSet} {pending : Bool} {strays : Nat}

/-- Each child gives one signal, and one may be pending already. -/
theorem sound_start (count : Nat) (mask ignored : SignalSet) (pending : Bool) (strays : Nat) :
    Sound (count + strays + pending.toNat) (machine count mask ignored pending strays).start := by
  refine ⟨fun _ _ _ _ => rfl, fun _ _ => .inl ⟨0, rfl, Nat.zero_le _⟩, ?_, List.nodup_nil, ?_, ?_,
    ?_, ?_, ?_, ?_, ?_, ?_, ?_, ?_, ?_⟩
  · simp [machine]
  · simp [machine]
  · simp [machine]
  · intro _
    simp only [machine, inherited, Sigaction.ignores]
    split
    next => rfl
    next => rfl
  · simp [machine]
  · simp [machine, Place.armed]
  · simp [machine]
  · simp [machine]
  · simp [machine]
  · simp [machine]
  · simp [machine, State.owed, inherited, Child.owes, Place.owes]
  · simp [machine]

theorem sound_of_reachable
    (reached : (machine count mask ignored pending strays).Reachable state) :
    Sound (count + strays + pending.toNat) state :=
  Machine.invariant (sound_start count mask ignored pending strays)
    (fun sound taken => sound.step taken) reached

/-! ### Every run ends -/

def Child.work : Child → Nat
  | .unborn | .running => 10
  | .zombie => 1
  | .reaped => 0

def HandlerPlace.work : HandlerPlace → Nat
  | .reaping => 7
  | .returning => 6

def Place.work (count : Nat) : Place → Nat
  | .installing => count + 6
  | .masking => count + 5
  | .forking j => count - j + 4
  | .counting => 4
  | .testing => 3
  | .suspending => 2
  | .suspended _ => 1
  | .exited _ => 0

def handlerWork : Option (HandlerPlace × SignalSet) → Nat
  | none => 0
  | some (place, _) => place.work

def State.work (state : State count) : Nat :=
  ∑ child, (state.child child).work + 10 * state.strays + 8 * (state.signals.pending SIGCHLD).toNat +
    handlerWork state.handler + state.place.work count

theorem mainStep_work (sound : Sound total state) (taken : mainStep state = some next) :
    next.work < state.work := by
  unfold mainStep at taken
  cases here : state.place with
  | installing =>
    simp only [here] at taken
    split at taken
    next =>
      cases taken
      simp only [State.work, here, Place.work]
      omega
    next =>
      rw [sigaction_sigchld] at taken
      cases taken
      simp only [State.work, here, Place.work]
      omega
  | masking =>
    simp only [here] at taken
    cases taken
    simp only [State.work, sigprocmask, here, Place.work]
    omega
  | forking j =>
    simp only [here] at taken
    split at taken
    next inside =>
      cases taken
      have unborn := sound.later j (by rw [here]; rfl) ⟨j, inside⟩ (Nat.le_refl j)
      have moved := sum_update Child.work state.child ⟨j, inside⟩ .running
      rw [unborn, show Child.unborn.work = 10 from rfl, show Child.running.work = 10 from rfl]
        at moved
      simp only [State.work, here, Place.work]
      omega
    next =>
      cases taken
      simp only [State.work, here, Place.work]
      omega
  | testing =>
    simp only [here] at taken
    cases taken
    have small : (if 0 < state.numLiveChildren then Place.suspending
        else .exited EXIT_SUCCESS).work count ≤ 2 := by
      split
      next => exact Nat.le_refl 2
      next => exact Nat.zero_le 2
    simp only [State.work, here, show Place.testing.work count = 3 from rfl]
    omega
  | suspending | counting =>
    simp only [here] at taken
    cases taken
    simp only [State.work, here, Place.work]
    omega
  | suspended | exited => simp [here] at taken

theorem step_work (sound : Sound total state) {action : Action count}
    (taken : step state action = some next) : next.work < state.work := by
  have small : (state.received.pending SIGCHLD).toNat ≤ 1 := Bool.toNat_le _
  cases action with
  | run =>
    simp only [step, run] at taken
    split at taken
    next => exact mainStep_work sound taken
    next mask reaping =>
      split at taken
      next =>
        cases taken
        simp only [State.work, reaping, handlerWork, HandlerPlace.work]
        omega
      next => cases taken
    next mask returning =>
      cases taken
      rcases sound.frame _ _ returning with place | place
      · simp only [State.work, returning, handlerWork, HandlerPlace.work, place, Place.resumed]
        omega
      · simp only [State.work, returning, handlerWork, HandlerPlace.work, place, Place.resumed,
          Place.work]
        omega
  | deliver =>
    simp only [step, deliver] at taken
    split at taken
    next enabled =>
      obtain ⟨⟨_, idle⟩, pending, _⟩ : (state.place.alive = true ∧
          state.handler = none) ∧ state.signals.pending SIGCHLD = true ∧
          state.signals.mask SIGCHLD = false := by
        simpa [SignalState.deliverable] using enabled
      split at taken
      next =>
        cases taken
        simp only [State.work, SignalState.take, Function.update_self, pending, Bool.toNat_true,
          Bool.toNat_false]
        omega
      next =>
        cases taken
        simp only [State.work, SignalState.take, Function.update_self, pending, Bool.toNat_true,
          Bool.toNat_false, idle, handlerWork, HandlerPlace.work]
        omega
    next => cases taken
  | reap child =>
    simp only [step, reap] at taken
    split at taken
    next mask reaping =>
      split at taken
      next zombie =>
        cases taken
        have moved := sum_update Child.work state.child child .reaped
        rw [zombie, show Child.zombie.work = 1 from rfl, show Child.reaped.work = 0 from rfl] at moved
        simp only [State.work]
        omega
      next => cases taken
    next => cases taken
  | exit child =>
    simp only [step] at taken
    split at taken
    next running =>
      cases taken
      have moved := sum_update Child.work state.child child .zombie
      rw [running, show Child.running.work = 10 from rfl, show Child.zombie.work = 1 from rfl]
        at moved
      simp only [State.work]
      omega
    next => cases taken
  | stray =>
    simp only [step] at taken
    split at taken
    next => cases taken
    next strays some_stray =>
      cases taken
      simp only [State.work, some_stray]
      omega
  | fail =>
    simp only [step] at taken
    split at taken
    next here _ =>
      cases taken
      simp only [State.work, here, Place.work]
      omega
    next here _ =>
      cases taken
      simp only [State.work, here, Place.work]
      omega
    next j here _ =>
      split at taken
      next =>
        cases taken
        simp only [State.work, here, Place.work]
        omega
      next => cases taken
    next => cases taken

theorem Sound.all_reaped (sound : Sound total state) (none_live : state.numLiveChildren ≤ 0)
    (child : Fin count) : child ∈ state.reaped := by
  have live := sound.live
  have size := List.toFinset_card_of_nodup sound.once
  have most := Finset.card_le_univ state.reaped.toFinset
  rw [Fintype.card_fin] at most
  have whole : state.reaped.toFinset = Finset.univ := by
    apply Finset.eq_univ_of_card
    rw [Fintype.card_fin]
    omega
  rw [← List.mem_toFinset, whole]
  exact Finset.mem_univ child

/-- A parent in `sigsuspend` has a child that runs, or a signal to take. -/
theorem Sound.suspended (sound : Sound total state) {saved : SignalSet}
    (place : state.place = .suspended saved) (idle : state.handler = none)
    (quiet : ∀ child, state.child child ≠ .running) : (MultiSIGCHLD.deliver state).isSome = true := by
  have some_live := sound.busy (.inr ⟨⟨saved, place⟩, idle⟩)
  have alive : state.place.alive = true := by rw [place]; rfl
  have zombie : ∃ child, state.child child = .zombie := by
    by_contra none_ended
    have whole : ∀ child, child ∈ state.reaped := by
      intro child
      rw [sound.lines]
      cases here : state.child child with
      | reaped => rfl
      | running => exact absurd here (quiet child)
      | zombie => exact absurd ⟨child, here⟩ none_ended
      | unborn => exact absurd here (sound.forked (by rw [place]; rfl) alive child)
    have live := sound.live
    have size := List.toFinset_card_of_nodup sound.once
    have all : state.reaped.toFinset = Finset.univ := by
      rw [Finset.eq_univ_iff_forall]
      intro child
      exact List.mem_toFinset.mpr (whole child)
    rw [all, Finset.card_fin] at size
    omega
  obtain ⟨child, ended⟩ := zombie
  have pending : state.signals.pending SIGCHLD = true := by
    rcases sound.noticed child ended alive with pending | ⟨mask, reaping⟩
    · exact pending
    · cases idle.symm.trans reaping
  have unmasked := (sound.opened saved place).2 idle
  have enabled : (state.place.alive && state.handler.isNone &&
      state.signals.deliverable SIGCHLD) = true := by
    simp [alive, idle, SignalState.deliverable, pending, unmasked]
  rw [MultiSIGCHLD.deliver, if_pos enabled]
  split
  next => rfl
  next => rfl

theorem Sound.stuck (sound : Sound total state)
    (stuck : ∀ action, MultiSIGCHLD.step state action = none) :
    (∀ child, state.child child ≠ .running) ∧ state.place.alive = false := by
  have quiet : ∀ child, state.child child ≠ .running := by
    intro child running
    have blocked := stuck (.exit child)
    simp [MultiSIGCHLD.step, running] at blocked
  refine ⟨quiet, ?_⟩
  have runs : MultiSIGCHLD.run state = none := stuck .run
  unfold MultiSIGCHLD.run at runs
  split at runs
  next idle =>
    unfold MultiSIGCHLD.mainStep at runs
    cases here : state.place with
    | exited => rfl
    | suspended saved =>
      have delivers := sound.suspended here idle quiet
      rw [show MultiSIGCHLD.deliver state = none from stuck .deliver] at delivers
      cases delivers
    | installing =>
      simp only [here] at runs
      split at runs
      next => cases runs
      next =>
        rw [sigaction_sigchld] at runs
        cases runs
    | masking | testing | suspending | counting => simp [here] at runs
    | forking j =>
      simp only [here] at runs
      split at runs
      next => cases runs
      next => cases runs
  next mask reaping =>
    split at runs
    next => cases runs
    next some_zombie =>
      obtain ⟨child, zombie⟩ := not_forall.mp some_zombie
      have blocked := stuck (.reap child)
      simp [MultiSIGCHLD.step, MultiSIGCHLD.reap, reaping, not_not.mp zombie] at blocked
  next => cases runs

/-- Every run ends, with all children reaped, each of them once, unless a system call failed;
and `sigsuspend` returned at least once and at most as often as signals were sent. -/
theorem children_reaped (count : Nat) (mask ignored : SignalSet) (pending : Bool) (strays : Nat) :
    (machine count mask ignored pending strays).Terminates ∧
    ∀ state, (machine count mask ignored pending strays).Reachable state →
      state.reaped.Nodup ∧ state.numLiveChildren + state.reaped.length = count ∧
      state.sigCnt ≤ count + strays + pending.toNat ∧
      (state.place = .exited EXIT_SUCCESS →
        (∀ child, child ∈ state.reaped) ∧ (0 < count → 1 ≤ state.sigCnt)) ∧
      ((machine count mask ignored pending strays).Stuck state →
        (∀ child, state.child child ≠ .running) ∧
        (state.place = .exited EXIT_SUCCESS ∨ state.place = .exited EXIT_FAILURE)) := by
  refine ⟨?_, fun state reached => ?_⟩
  · have decreases : ∀ {state action next},
        (machine count mask ignored pending strays).Reachable state →
        (machine count mask ignored pending strays).step state action = some next →
        next.work < state.work :=
      fun reached taken => step_work (sound_of_reachable reached) taken
    exact Machine.terminates_of_measure decreases
  · have sound := sound_of_reachable reached
    refine ⟨sound.once, sound.live, Nat.le_trans (Nat.le_add_right _ _) sound.most, ?_, ?_⟩
    · intro exited
      have none_live : state.numLiveChildren ≤ 0 := by
        rcases sound.finished _ exited with failed | ⟨_, none_live⟩
        · cases failed
        · exact none_live
      refine ⟨sound.all_reaped none_live, fun some_children => ?_⟩
      rcases sound.least (by omega) with counted | running | counting
      · exact counted
      · obtain ⟨⟨place, mask⟩, runs⟩ := Option.isSome_iff_exists.mp running
        rcases sound.frame place mask runs with here | here <;> cases exited.symm.trans here
      · cases exited.symm.trans counting
    · intro stuck
      obtain ⟨quiet, dead⟩ := sound.stuck stuck
      refine ⟨quiet, ?_⟩
      cases here : state.place with
      | exited status =>
        rcases sound.finished status here with rfl | ⟨rfl, _⟩
        · exact .inr rfl
        · exact .inl rfl
      | installing | masking | forking | testing | suspending | suspended | counting =>
        rw [here] at dead
        cases dead

end LinuxProgramming.Signals.MultiSIGCHLD
