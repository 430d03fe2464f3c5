import LinuxProgramming.Foundation.Simulation
import LinuxProgramming.Signals.PingPong

/-! The same exchange of signals, with handlers that run inside `sigsuspend`.

The signal is blocked but for the time inside `sigsuspend`, which takes the empty
mask and waits in one step: a signal that is sent before stays pending until then.
The handler makes the call return, with the mask from before.
-/

set_option autoImplicit false

namespace LinuxProgramming.Signals.Suspend
open Foundation
open PingPong (Party TESTSIG handler EXIT_SUCCESS EXIT_FAILURE blockedMask)

/-- The system call that a process makes next; `suspended` is inside `sigsuspend`,
with the mask that it restores. -/
inductive Place where
  | unborn
  | installing
  | masking
  | forking
  | sending (scnt : Nat)
  | suspending (scnt : Nat)
  | suspended (scnt : Nat) (saved : SignalSet)
  | exited (status : Nat)
  | killed

def Place.alive : Place → Bool
  | .unborn | .exited _ | .killed => false
  | _ => true

/-- `handled` counts the runs of the handler; no step depends on it. -/
structure Process where
  place : Place
  signals : SignalState
  handled : Nat

abbrev State := Party → Process

inductive Action where
  | run (party : Party)
  | fail (party : Party)
  | deliver (party : Party)
  deriving DecidableEq, Repr

def loop (numSigs scnt : Nat) (body : Nat → Place) : Place :=
  if scnt < numSigs then body scnt else .exited EXIT_SUCCESS

/-- `kill(getppid(), TESTSIG)` and `kill(childPid, TESTSIG)`: a process that has
ended does not get the signal. -/
def Process.receive (process : Process) : Process :=
  if process.place.alive then { process with signals := process.signals.generate TESTSIG }
  else process

def emptyMask : SignalSet := sigemptyset

def run (numSigs : Nat) (state : State) (party : Party) : Option State :=
  let process := state party
  match process.place with
  | .installing =>
    (sigaction process.signals TESTSIG ⟨handler, sigemptyset, 0⟩).map fun installed =>
      Function.update state party { process with place := .masking, signals := installed.1 }
  | .masking =>
    some (Function.update state party { process with
      place := .forking, signals := (sigprocmask process.signals .SIG_SETMASK blockedMask).1 })
  | .forking =>
    some fun
      | .parent => { process with place := loop numSigs 0 .suspending }
      | .child => ⟨loop numSigs 0 .sending, process.signals.inherit, 0⟩
  | .sending scnt =>
    let place := match party with
      | .parent => loop numSigs (scnt + 1) .suspending
      | .child => .suspending scnt
    some (Function.update (Function.update state party.other (state party.other).receive) party
      { process with place := place })
  | .suspending scnt =>
    some (Function.update state party { process with
      place := .suspended scnt process.signals.mask
      signals := { process.signals with mask := emptyMask } })
  | .suspended _ _ | .unborn | .exited _ | .killed => none

/-- The system calls before the loops end the program by `errExit` when they fail. -/
def fail (state : State) (party : Party) : Option State :=
  match (state party).place with
  | .installing | .masking | .forking =>
    some (Function.update state party { state party with place := .exited EXIT_FAILURE })
  | _ => none

/-- A pending signal that is not blocked is delivered. Inside `sigsuspend` the handler
makes the call return with EINTR, and the process goes on in its loop. -/
def deliver (numSigs : Nat) (state : State) (party : Party) : Option State :=
  let process := state party
  if process.place.alive && process.signals.deliverable TESTSIG then
    let action := process.signals.dispositions TESTSIG
    let taken := process.signals.take TESTSIG
    if action.ignores TESTSIG then some (Function.update state party { process with signals := taken })
    else if action.sa_handler = SIG_DFL then
      some (Function.update state party { process with place := .killed, signals := taken })
    else
      let returned : Place × SignalState := match process.place, party with
        | .suspended scnt saved, .parent => (.sending scnt, { taken with mask := saved })
        | .suspended scnt saved, .child =>
          (loop numSigs (scnt + 1) .sending, { taken with mask := saved })
        | place, _ => (place, taken)
      some (Function.update state party
        { process with
          place := returned.1, signals := returned.2, handled := process.handled + 1 })
  else none

def step (numSigs : Nat) (state : State) : Action → Option State
  | .run party => run numSigs state party
  | .fail party => fail state party
  | .deliver party => deliver numSigs state party

/-- The program is started with any mask and dispositions and with nothing pending. -/
def machine (numSigs : Nat) (inherited : SignalState) : Machine State Action where
  start
    | .parent => ⟨.installing, inherited.inherit, 0⟩
    | .child => ⟨.unborn, inherited.inherit, 0⟩
  step := step numSigs

/-- The mask a process has outside `sigsuspend`. -/
def Process.restored (process : Process) : SignalSet :=
  match process.place with
  | .suspended _ saved => saved
  | _ => process.signals.mask

/-- Before and inside `sigsuspend`, a process waits for its signal. -/
def Place.view : Place → PingPong.Place
  | .unborn => .unborn
  | .installing => .installing
  | .masking => .masking
  | .forking => .forking
  | .sending scnt => .sending scnt
  | .suspending scnt => .waiting scnt
  | .suspended scnt _ => .waiting scnt
  | .exited status => .exited status
  | .killed => .killed

/-- The process that takes its signals out itself, where this one has them handled. -/
def Process.view (process : Process) : PingPong.Process where
  place := process.place.view
  signals := { process.signals with mask := process.restored }
  consumed := process.handled
  handled := 0

def view (state : State) : PingPong.State := fun party => (state party).view

/-- Once the handler is installed it stays so, and only `sigsuspend` takes the empty mask. -/
structure Ready (process : Process) : Prop where
  caught : process.place = .installing ∨ process.place = .unborn ∨
    process.place = .exited EXIT_FAILURE ∨
    (process.signals.dispositions TESTSIG).sa_handler = handler
  emptied : ∀ scnt saved, process.place = .suspended scnt saved →
    process.signals.mask = emptyMask

variable {numSigs : Nat} {state next : State} {party : Party} {inherited : SignalState}

theorem view_update (state : State) (party : Party) (process : Process) :
    view (Function.update state party process) =
      Function.update (view state) party process.view := by
  funext other
  by_cases same : other = party
  · subst same
    simp [view]
  · simp [view, Function.update_of_ne same]

/-- At the top of its loop a process is outside `sigsuspend`. -/
theorem view_sending (numSigs scnt : Nat) (signals : SignalState) (handled : Nat) :
    (⟨loop numSigs scnt .sending, signals, handled⟩ : Process).view =
      ⟨PingPong.loop numSigs scnt .sending, signals, handled, 0⟩ := by
  by_cases more : scnt < numSigs <;>
    simp [loop, PingPong.loop, more, Process.view, Place.view, Process.restored]

theorem view_suspending (numSigs scnt : Nat) (signals : SignalState) (handled : Nat) :
    (⟨loop numSigs scnt .suspending, signals, handled⟩ : Process).view =
      ⟨PingPong.loop numSigs scnt .waiting, signals, handled, 0⟩ := by
  by_cases more : scnt < numSigs <;>
    simp [loop, PingPong.loop, more, Process.view, Place.view, Process.restored]

/-- The signal arrives at both processes or at neither. -/
theorem view_receive (process : Process) (caught : process.place.alive = true →
      (process.signals.dispositions TESTSIG).sa_handler = handler)
    (masked : process.place.alive = true → process.restored TESTSIG = true) :
    process.receive.view = process.view.receive := by
  have same : process.place.view.alive = process.place.alive := by
    cases process.place <;> rfl
  by_cases alive : process.place.alive = true
  · have handled : (process.signals.dispositions TESTSIG).caught = true := by
      simp [Sigaction.caught, caught alive, handler, SIG_DFL, SIG_IGN]
    have viewed : process.view.signals.mask TESTSIG = true := masked alive
    have kept : process.view.place.alive = true := same.trans alive
    rw [PingPong.receive_alive _ kept viewed]
    simp only [Process.receive, alive, if_true, generate_caught handled]
    rfl
  · have dead : ¬process.view.place.alive = true := same ▸ alive
    simp [Process.receive, PingPong.Process.receive, alive, dead]

/-- The handler is installed before the program forks, and the masks are restored. -/
def AllReady (state : State) : Prop := ∀ party, Ready (state party)

theorem AllReady.update (ready : AllReady state) {party : Party} {process : Process}
    (caught : process.place = .installing ∨ process.place = .unborn ∨
      process.place = .exited EXIT_FAILURE ∨
      (process.signals.dispositions TESTSIG).sa_handler = handler)
    (emptied : ∀ scnt saved, process.place = .suspended scnt saved →
      process.signals.mask = emptyMask) : AllReady (Function.update state party process) := by
  intro other
  by_cases same : other = party
  · subst same
    rw [Function.update_self]
    exact ⟨caught, emptied⟩
  · rw [Function.update_of_ne same]
    exact ready other

theorem Ready.receive {process : Process} (ready : Ready process) : Ready process.receive := by
  unfold Process.receive
  split
  · refine ⟨?_, ?_⟩
    · simpa using ready.caught
    · simpa using ready.emptied
  · exact ready

theorem loop_ne_suspended {numSigs scnt : Nat} {body : Nat → Place}
    (outside : body = .sending ∨ body = .suspending) (count : Nat) (saved : SignalSet) :
    loop numSigs scnt body ≠ .suspended count saved := by
  by_cases more : scnt < numSigs
  · rcases outside with rfl | rfl <;> simp [loop, more]
  · simp [loop, more]

/-- Where the loop goes on after `sigsuspend`. -/
def returned (numSigs : Nat) (party : Party) (scnt : Nat) : Place :=
  match party with
  | .parent => .sending scnt
  | .child => loop numSigs (scnt + 1) .sending

/-- A delivery finds the process in `sigsuspend`, and its handler installed. -/
theorem deliver_suspended (ready : AllReady state) (sound : PingPong.Sound numSigs (view state))
    (taken : deliver numSigs state party = some next) :
    ∃ scnt saved, (state party).place = .suspended scnt saved ∧
      (state party).signals.pending TESTSIG = true ∧
      next = Function.update state party ⟨returned numSigs party scnt,
        { (state party).signals.take TESTSIG with mask := saved }, (state party).handled + 1⟩ := by
  obtain ⟨deliverable, taken⟩ := Option.ite_none_right_eq_some.mp taken
  obtain ⟨alive, pending, open_mask⟩ : (state party).place.alive = true ∧
      (state party).signals.pending TESTSIG = true ∧
      (state party).signals.mask TESTSIG = false := by
    simpa [SignalState.deliverable] using deliverable
  have inside : ∃ scnt saved, (state party).place = .suspended scnt saved := by
    rcases sound with alone | forked
    · have nothing : (state party).signals.pending TESTSIG = false := alone.nothing party
      cases pending.symm.trans nothing
    · have masked := forked.masked party
      cases place : (state party).place with
      | suspended scnt saved => exact ⟨scnt, saved, rfl⟩
      | _ => simp [view, Process.view, Process.restored, place, open_mask] at masked
  obtain ⟨scnt, saved, place⟩ := inside
  have caught : ((state party).signals.dispositions TESTSIG).sa_handler = handler := by
    have cases := (ready party).caught
    simpa [place] using cases
  have handles : ((state party).signals.dispositions TESTSIG).ignores TESTSIG = false := by
    apply ignores_of_caught
    simp [Sigaction.caught, caught, handler, SIG_DFL, SIG_IGN]
  refine ⟨scnt, saved, place, pending, ?_⟩
  simp only [handles, caught, place] at taken
  cases party <;> exact (Option.some.inj taken).symm

/-- Behind the fork, no process installs its handler. -/
theorem forked_ne_installing (forked : PingPong.Forked numSigs (view state)) (party : Party) :
    (state party).place ≠ .installing := by
  intro place
  have viewed : (view state party).place = .installing := by
    simp [view, Process.view, place, Place.view]
  have round := forked.round
  generalize child : (view state .child).place = childPlace,
    parent : (view state .parent).place = parentPlace,
    (view state .child).signals.pending TESTSIG = childBit,
    (view state .parent).signals.pending TESTSIG = parentBit,
    (view state .child).consumed = childCount, (view state .parent).consumed = parentCount at round
  cases party with
  | child =>
    cases viewed.symm.trans child
    cases round
  | parent =>
    cases viewed.symm.trans parent
    generalize atLoop : PingPong.Place.installing = other at round
    cases round with
    | answered scnt =>
      unfold PingPong.loop at atLoop
      split at atLoop <;> cases atLoop
    | _ => cases atLoop

theorem forked_of_sending (sound : PingPong.Sound numSigs (view state)) {scnt : Nat}
    (sending : (state party).place = .sending scnt) : PingPong.Forked numSigs (view state) := by
  refine sound.resolve_left fun alone => ?_
  have viewed : ((view state) party).place = .sending scnt := by
    simp [view, Process.view, sending, Place.view]
  cases party with
  | child => cases viewed.symm.trans alone.unborn
  | parent =>
    rcases alone.place with place | place | ⟨place, _⟩ | place <;> cases viewed.symm.trans place

theorem view_send (ready : AllReady state) (forked : PingPong.Forked numSigs (view state))
    (party : Party) : (state party).receive.view = (view state party).receive := by
  refine view_receive _ (fun alive => ?_) fun _ => forked.masked party
  rcases (ready party).caught with place | place | place | caught
  · exact absurd place (forked_ne_installing forked party)
  · simp [place, Place.alive] at alive
  · simp [place, Place.alive] at alive
  · exact caught

/-- Outside the loops the two programs do the same; inside, the signal that the handler
takes is the one that `sigwaitinfo` returns. -/
theorem run_simulated (ready : AllReady state) (sound : PingPong.Sound numSigs (view state))
    (taken : run numSigs state party = some next) :
    (view next = view state ∨ PingPong.run numSigs (view state) party = some (view next)) ∧
      AllReady next := by
  have here := ready party
  cases place : (state party).place with
  | installing =>
    simp only [run, place] at taken
    have caught : sigaction (state party).signals TESTSIG ⟨handler, sigemptyset, 0⟩ =
        some ({ (state party).signals with
          dispositions := Function.update (state party).signals.dispositions TESTSIG
            ⟨handler, sigemptyset, 0⟩ }, (state party).signals.dispositions TESTSIG) := rfl
    rw [caught] at taken
    obtain rfl := Option.some.inj taken
    refine ⟨.inr ?_, ready.update (.inr (.inr (.inr (by simp)))) (by simp)⟩
    rw [view_update]
    simp only [PingPong.run, view, Process.view, place, Place.view, Process.restored]
    rfl
  | masking =>
    simp only [run, place] at taken
    obtain rfl := Option.some.inj taken
    refine ⟨.inr ?_, ready.update ?_ (by simp)⟩
    · rw [view_update]
      simp only [PingPong.run, view, Process.view, place, Place.view, Process.restored]
    · simpa [place, sigprocmask] using here.caught
  | forking =>
    simp only [run, place] at taken
    obtain rfl := Option.some.inj taken
    have caught : ((state party).signals.dispositions TESTSIG).sa_handler = handler := by
      simpa [place] using here.caught
    refine ⟨.inr ?_, fun other => ?_⟩
    · simp only [PingPong.run, view, Process.view, place, Place.view]
      refine congrArg some (funext fun other => ?_)
      cases other with
      | parent =>
        refine Eq.trans ?_ (view_suspending numSigs 0 _ _).symm
        simp only [Process.restored, place]
      | child =>
        refine Eq.trans ?_ (view_sending numSigs 0 _ _).symm
        simp only [SignalState.inherit, Process.restored, place]
    · cases other with
      | parent =>
        exact ⟨.inr (.inr (.inr caught)), fun scnt saved inside =>
          absurd inside (loop_ne_suspended (.inr rfl) scnt saved)⟩
      | child =>
        exact ⟨.inr (.inr (.inr caught)), fun scnt saved inside =>
          absurd inside (loop_ne_suspended (.inl rfl) scnt saved)⟩
  | sending scnt =>
    have forked := forked_of_sending sound place
    have viewed : (view state party).place = .sending scnt := by
      simp [view, Process.view, place, Place.view]
    have caught : ((state party).signals.dispositions TESTSIG).sa_handler = handler := by
      simpa [place] using here.caught
    have received : AllReady (Function.update state party.other (state party.other).receive) :=
      ready.update (ready party.other).receive.caught (ready party.other).receive.emptied
    have restored : (view state party).signals = (state party).signals := by
      simp [view, Process.view, Process.restored, place]
    cases party with
    | parent =>
      simp only [run, place] at taken
      obtain rfl := Option.some.inj taken
      refine ⟨.inr ?_, received.update (.inr (.inr (.inr caught))) fun count saved inside =>
        absurd inside (loop_ne_suspended (.inr rfl) count saved)⟩
      rw [view_update, view_update, view_send ready forked, view_suspending]
      simp only [PingPong.run, viewed, restored]
      rfl
    | child =>
      simp only [run, place] at taken
      obtain rfl := Option.some.inj taken
      refine ⟨.inr ?_, received.update (.inr (.inr (.inr caught))) (by simp)⟩
      rw [view_update, view_update, view_send ready forked]
      simp only [PingPong.run, viewed, restored]
      rfl
  | suspending scnt =>
    simp only [run, place] at taken
    obtain rfl := Option.some.inj taken
    refine ⟨.inl ?_, ready.update ?_ (by simp)⟩
    · rw [view_update]
      refine Function.update_eq_self_iff.mpr ?_
      simp only [view, Process.view, place, Place.view, Process.restored]
    · simpa [place] using here.caught
  | suspended scnt saved => simp [run, place] at taken
  | unborn | exited _ | killed => simp [run, place] at taken

/-- The signal that the handler takes is the one that `sigwaitinfo` takes out. -/
theorem deliver_simulated (ready : AllReady state) (sound : PingPong.Sound numSigs (view state))
    (taken : deliver numSigs state party = some next) :
    PingPong.run numSigs (view state) party = some (view next) ∧ AllReady next := by
  obtain ⟨scnt, saved, place, pending, rfl⟩ := deliver_suspended ready sound taken
  have viewed : (view state party).place = .waiting scnt := by
    simp [view, Process.view, place, Place.view]
  have restored : (view state party).signals = { (state party).signals with mask := saved } := by
    simp [view, Process.view, Process.restored, place]
  have caught : ((state party).signals.dispositions TESTSIG).sa_handler = handler := by
    simpa [place] using (ready party).caught
  cases party with
  | parent =>
    refine ⟨?_, ready.update (.inr (.inr (.inr caught))) (by simp [returned])⟩
    rw [view_update]
    simp only [PingPong.run, viewed, restored, pending, if_true]
    rfl
  | child =>
    refine ⟨?_, ready.update (.inr (.inr (.inr caught))) fun count kept inside =>
      absurd inside (loop_ne_suspended (.inl rfl) count kept)⟩
    simp only [returned]
    rw [view_update, view_sending]
    simp only [PingPong.run, viewed, restored, pending, if_true]
    rfl

theorem fail_simulated (ready : AllReady state) (taken : fail state party = some next) :
    PingPong.fail (view state) party = some (view next) ∧ AllReady next := by
  cases place : (state party).place with
  | installing | masking | forking =>
    simp only [fail, place] at taken
    obtain rfl := Option.some.inj taken
    refine ⟨?_, ready.update (.inr (.inr (.inl rfl))) (by simp)⟩
    rw [view_update]
    simp only [PingPong.fail, view, Process.view, place, Place.view, Process.restored]
  | _ => simp [fail, place] at taken

/-- The program with handlers does what the other one can do. -/
theorem suspend_simulates (numSigs : Nat) (inherited : SignalState) :
    (machine numSigs inherited).Simulates (PingPong.machine numSigs inherited)
      fun state seen => seen = view state ∧ AllReady state := by
  refine ⟨⟨funext fun party => ?_, fun party => ?_⟩, ?_⟩
  · cases party <;> rfl
  · cases party
    · exact ⟨.inl rfl, by simp [machine]⟩
    · exact ⟨.inr (.inl rfl), by simp [machine]⟩
  · rintro state next action _ _ reached ⟨rfl, ready⟩ taken
    have sound := PingPong.sound_of_reachable reached
    cases action with
    | run party =>
      obtain ⟨same | run, after⟩ := run_simulated ready sound taken
      · exact ⟨[], _, rfl, same.symm, after⟩
      · exact ⟨[.run party], _, Machine.exec_cons.mpr ⟨_, run, rfl⟩, rfl, after⟩
    | fail party =>
      obtain ⟨failed, after⟩ := fail_simulated ready taken
      exact ⟨[.fail party], _, Machine.exec_cons.mpr ⟨_, failed, rfl⟩, rfl, after⟩
    | deliver party =>
      obtain ⟨run, after⟩ := deliver_simulated ready sound taken
      exact ⟨[.run party], _, Machine.exec_cons.mpr ⟨_, run, rfl⟩, rfl, after⟩

theorem view_reachable (reached : (machine numSigs inherited).Reachable state) :
    (PingPong.machine numSigs inherited).Reachable (view state) ∧ AllReady state := by
  obtain ⟨_, seen, rfl, ready⟩ := (suspend_simulates numSigs inherited).reachable reached
  exact ⟨seen, ready⟩

/-- The steps that are left to a process in its loop. -/
def Place.left (numSigs : Nat) : Party → Place → Nat
  | _, .installing => 6 * numSigs + 3
  | _, .masking => 6 * numSigs + 2
  | _, .forking => 6 * numSigs + 1
  | .parent, .suspending scnt => 3 * (numSigs - scnt)
  | .parent, .suspended scnt _ => 3 * (numSigs - scnt) - 1
  | .parent, .sending scnt => 3 * (numSigs - scnt) - 2
  | .child, .sending scnt => 3 * (numSigs - scnt)
  | .child, .suspending scnt => 3 * (numSigs - scnt) - 1
  | .child, .suspended scnt _ => 3 * (numSigs - scnt) - 2
  | _, .unborn | _, .exited _ | _, .killed => 0

def measure (numSigs : Nat) (state : State) : Nat :=
  (state .parent).place.left numSigs .parent + (state .child).place.left numSigs .child

theorem left_loop (numSigs scnt : Nat) :
    (loop numSigs scnt .sending).left numSigs .child ≤ 3 * (numSigs - scnt) ∧
      (loop numSigs scnt .suspending).left numSigs .parent ≤ 3 * (numSigs - scnt) := by
  unfold loop
  split <;> simp [Place.left]

/-- A process in its loop has a round to go. -/
theorem more_of_sound (sound : PingPong.Sound numSigs (view state)) (party : Party) {scnt : Nat}
    (inside : (state party).place.view = .sending scnt ∨ (state party).place.view = .waiting scnt) :
    scnt < numSigs := by
  have here : (view state party).place = .sending scnt ∨ (view state party).place = .waiting scnt :=
    inside
  rcases sound with alone | forked
  · cases party with
    | child => simp [alone.unborn] at here
    | parent => rcases alone.place with place | place | ⟨place, _⟩ | place <;> simp [place] at here
  · have round := forked.round
    generalize child : (view state .child).place = childPlace,
      parent : (view state .parent).place = parentPlace,
      (view state .child).signals.pending TESTSIG = childBit,
      (view state .parent).signals.pending TESTSIG = parentBit,
      (view state .child).consumed = childCount, (view state .parent).consumed = parentCount at round
    cases round with
    | asking count more | asked count more | answering count more =>
      cases party <;> simp [child, parent] at here <;> omega
    | answered count more =>
      cases party with
      | child => simp [child] at here; omega
      | parent =>
        unfold PingPong.loop at parent
        split at parent <;> simp [parent] at here
        omega
    | both_exited => cases party <;> simp [child, parent] at here

theorem measure_update {process : Process}
    (less : process.place.left numSigs party < (state party).place.left numSigs party) :
    measure numSigs (Function.update state party process) < measure numSigs state := by
  cases party with
  | parent => simpa [measure] using less
  | child => simpa [measure] using less

theorem receive_place (process : Process) : process.receive.place = process.place := by
  unfold Process.receive
  split <;> rfl

/-- The partner that gets the signal is where it was. -/
theorem measure_receive (state : State) (party : Party) :
    measure numSigs (Function.update state party (state party).receive) = measure numSigs state := by
  cases party <;> simp [measure, receive_place]

theorem run_decreases (sound : PingPong.Sound numSigs (view state))
    (taken : run numSigs state party = some next) : measure numSigs next < measure numSigs state := by
  have more : ∀ scnt, (state party).place = .sending scnt ∨ (state party).place = .suspending scnt →
      scnt < numSigs := by
    rintro scnt (place | place)
    · exact more_of_sound sound party (.inl (by rw [place]; rfl))
    · exact more_of_sound sound party (.inr (by rw [place]; rfl))
  have loops := fun scnt => left_loop numSigs scnt
  cases place : (state party).place with
  | installing =>
    simp only [run, place] at taken
    obtain ⟨installed, _, rfl⟩ := Option.map_eq_some_iff.mp taken
    exact measure_update (by simp [place, Place.left])
  | masking =>
    simp only [run, place] at taken
    obtain rfl := Option.some.inj taken
    exact measure_update (by simp [place, Place.left])
  | forking =>
    simp only [run, place] at taken
    obtain rfl := Option.some.inj taken
    have both := loops 0
    have here : (state party).place.left numSigs party = 6 * numSigs + 1 := by
      rw [place]
      rfl
    have whole : (state party).place.left numSigs party ≤ measure numSigs state := by
      cases party <;> simp [measure]
    simp only [measure] at whole ⊢
    omega
  | sending scnt =>
    have going := more scnt (.inl place)
    simp only [run, place] at taken
    obtain rfl := Option.some.inj taken
    rw [← measure_receive state party.other]
    apply measure_update
    cases party with
    | parent =>
      refine Nat.lt_of_le_of_lt (loops (scnt + 1)).2 ?_
      simp only [Party.other, ne_eq, reduceCtorEq, not_false_eq_true, Function.update_of_ne, place,
        Place.left]
      omega
    | child => simp [Party.other, place, Place.left]; omega
  | suspending scnt =>
    have going := more scnt (.inr place)
    simp only [run, place] at taken
    obtain rfl := Option.some.inj taken
    apply measure_update
    rw [place]
    cases party <;> simp [Place.left] <;> omega
  | suspended scnt saved => simp [run, place] at taken
  | unborn | exited _ | killed => simp [run, place] at taken

theorem deliver_decreases (ready : AllReady state) (sound : PingPong.Sound numSigs (view state))
    (taken : deliver numSigs state party = some next) :
    measure numSigs next < measure numSigs state := by
  obtain ⟨scnt, saved, place, _, rfl⟩ := deliver_suspended ready sound taken
  have going := more_of_sound sound party (.inr (by rw [place]; rfl))
  apply measure_update
  rw [place]
  cases party with
  | parent =>
    simp only [returned, Place.left]
    omega
  | child =>
    refine Nat.lt_of_le_of_lt (left_loop numSigs (scnt + 1)).1 ?_
    simp only [Place.left]
    omega

theorem fail_decreases (taken : fail state party = some next) :
    measure numSigs next < measure numSigs state := by
  cases place : (state party).place with
  | installing | masking | forking =>
    simp only [fail, place] at taken
    obtain rfl := Option.some.inj taken
    apply measure_update
    rw [place]
    cases party <;> simp [Place.left]
  | _ => simp [fail, place] at taken

theorem step_decreases {action : Action} (ready : AllReady state)
    (sound : PingPong.Sound numSigs (view state))
    (taken : step numSigs state action = some next) : measure numSigs next < measure numSigs state := by
  cases action with
  | run party => exact run_decreases sound taken
  | fail party => exact fail_decreases taken
  | deliver party => exact deliver_decreases ready sound taken

/-- A process that waits for a signal which is there goes on. -/
theorem waiting_enabled (ready : AllReady state) (party : Party) {scnt : Nat}
    (waits : (state party).place.view = .waiting scnt)
    (arrived : (state party).signals.pending TESTSIG = true) :
    ∃ action next, step numSigs state action = some next := by
  cases place : (state party).place with
  | suspending count => exact ⟨.run party, _, by simp only [step, run, place]; rfl⟩
  | suspended count saved =>
    have emptied := (ready party).emptied count saved place
    have caught : ((state party).signals.dispositions TESTSIG).sa_handler = handler := by
      simpa [place] using (ready party).caught
    have handles : ((state party).signals.dispositions TESTSIG).ignores TESTSIG = false := by
      apply ignores_of_caught
      simp [Sigaction.caught, caught, handler, SIG_DFL, SIG_IGN]
    have enabled : (deliver numSigs state party).isSome = true := by
      simp [deliver, place, Place.alive, SignalState.deliverable, arrived, emptied, emptyMask,
        sigemptyset, handles, caught, handler, SIG_DFL]
    obtain ⟨next, taken⟩ := Option.isSome_iff_exists.mp enabled
    exact ⟨.deliver party, next, taken⟩
  | _ => simp [place, Place.view] at waits

theorem sending_enabled (party : Party) {scnt : Nat} (sends : (state party).place.view = .sending scnt) :
    ∃ action next, step numSigs state action = some next := by
  cases place : (state party).place with
  | sending count => exact ⟨.run party, _, by simp only [step, run, place]; rfl⟩
  | _ => simp [place, Place.view] at sends

theorem view_exited {place : Place} {status : Nat} (same : place.view = .exited status) :
    place = .exited status := by
  cases place <;> simp_all [Place.view]

/-- Where the two programs are at their end. -/
inductive Over (numSigs : Nat) (state : State) : Prop where
  | failed : (state .parent).place = .exited EXIT_FAILURE → (state .child).place = .unborn →
      Over numSigs state
  | both : (∀ party, (state party).place = .exited EXIT_SUCCESS ∧ (state party).handled = numSigs) →
      Over numSigs state

theorem over_of_stuck (ready : AllReady state) (sound : PingPong.Sound numSigs (view state))
    (stuck : ∀ action, step numSigs state action = none) : Over numSigs state := by
  have idle : ¬∃ action next, step numSigs state action = some next := by
    rintro ⟨action, next, taken⟩
    cases (stuck action).symm.trans taken
  rcases sound with alone | forked
  · have unborn : (state .child).place = .unborn := by
      have seen : (state .child).place.view = .unborn := alone.unborn
      cases place : (state .child).place <;> simp_all [Place.view]
    have blocked : run numSigs state .parent = none := stuck (.run .parent)
    have cases : (state .parent).place.view = .installing ∨ (state .parent).place.view = .masking ∨
        (state .parent).place.view = .forking ∨
        (state .parent).place.view = .exited EXIT_FAILURE := by
      rcases alone.place with place | place | ⟨place, _⟩ | place
      · exact .inl place
      · exact .inr (.inl place)
      · exact .inr (.inr (.inl place))
      · exact .inr (.inr (.inr place))
    refine .failed ?_ unborn
    cases place : (state .parent).place with
    | installing =>
      exact absurd (stuck (.fail .parent)) (by simp [step, fail, place])
    | masking | forking => simp [run, place] at blocked
    | exited status =>
      rw [place] at cases
      simpa [Place.view] using cases
    | _ => simp [place, Place.view] at cases
  · have round := forked.round
    generalize child : (view state .child).place = childPlace,
      parent : (view state .parent).place = parentPlace,
      childPending : (view state .child).signals.pending TESTSIG = childBit,
      parentPending : (view state .parent).signals.pending TESTSIG = parentBit,
      childHandled : (view state .child).consumed = childCount,
      parentHandled : (view state .parent).consumed = parentCount at round
    cases round with
    | asking => exact absurd (sending_enabled .child child) idle
    | asked => exact absurd (waiting_enabled ready .parent parent parentPending) idle
    | answering => exact absurd (sending_enabled .parent parent) idle
    | answered => exact absurd (waiting_enabled ready .child child childPending) idle
    | both_exited =>
      refine .both fun party => ?_
      cases party with
      | parent => exact ⟨view_exited parent, parentHandled⟩
      | child => exact ⟨view_exited child, childHandled⟩

/-- Every run is finite; the program that uses handlers is matched by the one that does not,
so no signal is sent before the last one was taken, and where a run cannot go on, both
loops are over and every signal was handled, unless the program failed before its fork. -/
theorem suspend_completes (numSigs : Nat) (inherited : SignalState) :
    (machine numSigs inherited).Terminates ∧
    (∀ state, (machine numSigs inherited).Reachable state →
      (∀ party scnt, (state party).place = .sending scnt →
        (state party.other).signals.pending TESTSIG = false ∧
          (state party.other).place.alive = true) ∧
      ((machine numSigs inherited).Stuck state → Over numSigs state)) ∧
    (machine numSigs inherited).Simulates (PingPong.machine numSigs inherited)
      fun state seen => seen = view state ∧ AllReady state := by
  refine ⟨?_, fun state reached => ?_, suspend_simulates numSigs inherited⟩
  · have decreases : ∀ {state action next}, (machine numSigs inherited).Reachable state →
        (machine numSigs inherited).step state action = some next →
          measure numSigs next < measure numSigs state := by
      intro state action next reached taken
      obtain ⟨seen, ready⟩ := view_reachable reached
      exact step_decreases ready (PingPong.sound_of_reachable seen) taken
    exact Machine.terminates_of_measure decreases
  · obtain ⟨seen, ready⟩ := view_reachable reached
    refine ⟨fun party scnt sending => ?_, fun stuck =>
      over_of_stuck ready (PingPong.sound_of_reachable seen) stuck⟩
    have viewed : (view state party).place = .sending scnt := by
      simp [view, Process.view, sending, Place.view]
    obtain ⟨nothing, alive⟩ := (PingPong.pingpong_safe seen).1 party scnt viewed
    refine ⟨nothing, ?_⟩
    have seen_alive : (state party.other).place.view.alive = true := alive
    cases place : (state party.other).place <;>
      simp_all [Place.view, PingPong.Place.alive, Place.alive]

end LinuxProgramming.Signals.Suspend
