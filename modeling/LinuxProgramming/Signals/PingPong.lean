import LinuxProgramming.Foundation.Machine
import LinuxProgramming.Foundation.Signals

/-! A parent and a child that send each other one signal in turn.

The parent blocks the signal before it forks, so the child starts with it
blocked. Both loops count to `numSigs`; the child sends first and then waits,
the parent waits first and then sends.
-/

set_option autoImplicit false

namespace LinuxProgramming.Signals.PingPong
open Foundation

inductive Party where
  | parent
  | child
  deriving DecidableEq, Repr

def Party.other : Party → Party
  | .parent => .child
  | .child => .parent

def TESTSIG : Nat := SIGUSR1

/-- The address of the program's `handler`, whose body is empty. -/
def handler : Handler := 4096

def EXIT_SUCCESS : Nat := 0
def EXIT_FAILURE : Nat := 1

/-- The system call that a process makes next; `sending` and `waiting` carry `scnt`. -/
inductive Place where
  | unborn
  | installing
  | masking
  | forking
  | sending (scnt : Nat)
  | waiting (scnt : Nat)
  | exited (status : Nat)
  | killed
  deriving DecidableEq, Repr

def Place.alive : Place → Bool
  | .installing | .masking | .forking | .sending _ | .waiting _ => true
  | .unborn | .exited _ | .killed => false

/-- `consumed` counts what `sigwaitinfo` has returned and `handled` the runs of
the handler; no step depends on them. -/
structure Process where
  place : Place
  signals : SignalState
  consumed : Nat
  handled : Nat

abbrev State := Party → Process

inductive Action where
  | run (party : Party)
  | fail (party : Party)
  | deliver (party : Party)
  deriving DecidableEq, Repr

/-- The test of the loop, and the first call in the body if the test succeeds. -/
def loop (numSigs scnt : Nat) (body : Nat → Place) : Place :=
  if scnt < numSigs then body scnt else .exited EXIT_SUCCESS

/-- `kill(getppid(), TESTSIG)` and `kill(childPid, TESTSIG)`: a process that has
ended does not get the signal. -/
def Process.receive (process : Process) : Process :=
  if process.place.alive then { process with signals := process.signals.generate TESTSIG }
  else process

def blockedMask : SignalSet := sigaddset sigemptyset TESTSIG

def run (numSigs : Nat) (state : State) (party : Party) : Option State :=
  let process := state party
  match process.place with
  | .installing =>
    (sigaction process.signals TESTSIG ⟨handler, sigemptyset, 0⟩).map fun installed =>
      Function.update state party { process with place := .masking, signals := installed.1 }
  | .masking =>
    some (Function.update state party { process with
      place := .forking, signals := (sigprocmask process.signals .SIG_SETMASK blockedMask).1 })
  | .forking =>
    some fun
      | .parent => { process with place := loop numSigs 0 .waiting }
      | .child => ⟨loop numSigs 0 .sending, process.signals.inherit, 0, 0⟩
  | .sending scnt =>
    let place := match party with
      | .parent => loop numSigs (scnt + 1) .waiting
      | .child => .waiting scnt
    some (Function.update (Function.update state party.other (state party.other).receive) party
      { process with place := place })
  | .waiting scnt =>
    -- `sigwaitinfo` blocks until the signal is pending and takes it out itself.
    if process.signals.pending TESTSIG then
      let place := match party with
        | .parent => .sending scnt
        | .child => loop numSigs (scnt + 1) .sending
      some (Function.update state party
        { process with
          place := place
          signals := process.signals.take TESTSIG
          consumed := process.consumed + 1 })
    else none
  | .unborn | .exited _ | .killed => none

/-- The system calls before the loops end the program by `errExit` when they fail. -/
def fail (state : State) (party : Party) : Option State :=
  match (state party).place with
  | .installing | .masking | .forking =>
    some (Function.update state party { state party with place := .exited EXIT_FAILURE })
  | _ => none

/-- A pending signal that is not blocked is delivered: the handler runs, and
makes a `sigwaitinfo` it has interrupted fail. -/
def deliver (state : State) (party : Party) : Option State :=
  let process := state party
  if process.place.alive && process.signals.deliverable TESTSIG then
    let action := process.signals.dispositions TESTSIG
    let taken := process.signals.take TESTSIG
    if action.ignores TESTSIG then some (Function.update state party { process with signals := taken })
    else if action.sa_handler = SIG_DFL then
      some (Function.update state party { process with place := .killed, signals := taken })
    else
      let place := match process.place with
        | .waiting _ => .exited EXIT_FAILURE
        | place => place
      some (Function.update state party
        { process with place := place, signals := taken, handled := process.handled + 1 })
  else none

def step (numSigs : Nat) (state : State) : Action → Option State
  | .run party => run numSigs state party
  | .fail party => fail state party
  | .deliver party => deliver state party

/-- The program is started with any mask and dispositions and with nothing pending. -/
def machine (numSigs : Nat) (inherited : SignalState) : Machine State Action where
  start
    | .parent => ⟨.installing, inherited.inherit, 0, 0⟩
    | .child => ⟨.unborn, inherited.inherit, 0, 0⟩
  step := step numSigs

/-- Where the two loops can be together: places, pending signals and consumed
signals, of the child and of the parent. -/
inductive Round (numSigs : Nat) : Place → Place → Bool → Bool → Nat → Nat → Prop where
  | asking (scnt : Nat) (more : scnt < numSigs) :
      Round numSigs (.sending scnt) (.waiting scnt) false false scnt scnt
  | asked (scnt : Nat) (more : scnt < numSigs) :
      Round numSigs (.waiting scnt) (.waiting scnt) false true scnt scnt
  | answering (scnt : Nat) (more : scnt < numSigs) :
      Round numSigs (.waiting scnt) (.sending scnt) false false scnt (scnt + 1)
  | answered (scnt : Nat) (more : scnt < numSigs) :
      Round numSigs (.waiting scnt) (loop numSigs (scnt + 1) .waiting) true false scnt (scnt + 1)
  | both_exited : Round numSigs (.exited EXIT_SUCCESS) (.exited EXIT_SUCCESS) false false numSigs numSigs

/-- Before the fork nothing is pending, and the signal is blocked in time. -/
structure Alone (state : State) : Prop where
  unborn : (state .child).place = .unborn
  place : (state .parent).place = .installing ∨ (state .parent).place = .masking ∨
    (state .parent).place = .forking ∧ (state .parent).signals.mask TESTSIG = true ∨
    (state .parent).place = .exited EXIT_FAILURE
  nothing : ∀ party, (state party).signals.pending TESTSIG = false
  quiet : ∀ party, (state party).handled = 0
  unconsumed : (state .parent).consumed = 0

structure Forked (numSigs : Nat) (state : State) : Prop where
  masked : ∀ party, (state party).signals.mask TESTSIG = true
  quiet : ∀ party, (state party).handled = 0
  round : Round numSigs (state .child).place (state .parent).place
    ((state .child).signals.pending TESTSIG) ((state .parent).signals.pending TESTSIG)
    (state .child).consumed (state .parent).consumed

def Sound (numSigs : Nat) (state : State) : Prop := Alone state ∨ Forked numSigs state

variable {numSigs : Nat} {state next : State} {party : Party}

theorem deliver_none (held : (state party).signals.pending TESTSIG = false ∨
    (state party).signals.mask TESTSIG = true) : deliver state party = none := by
  have undeliverable : (state party).signals.deliverable TESTSIG = false := by
    rcases held with held | held <;> simp [SignalState.deliverable, held]
  simp [deliver, undeliverable]

/-- Both loops are at the same round: they start another one together or are over. -/
theorem round_loop (numSigs : Nat) (scnt : Nat) (within : scnt ≤ numSigs) :
    Round numSigs (loop numSigs scnt .sending) (loop numSigs scnt .waiting) false false scnt scnt := by
  unfold loop
  split
  next more => exact .asking scnt more
  next =>
    have last : scnt = numSigs := by omega
    subst last
    exact .both_exited

theorem receive_alive (process : Process) (alive : process.place.alive = true)
    (masked : process.signals.mask TESTSIG = true) : process.receive =
      { process with signals := { process.signals with
          pending := Function.update process.signals.pending TESTSIG true } } := by
  simp [Process.receive, alive, SignalState.generate, masked]

theorem Alone.run (alone : Alone state) (taken : run numSigs state party = some next) :
    Alone next ∨ Forked numSigs next := by
  obtain ⟨unborn, place, nothing, quiet, unconsumed⟩ := alone
  cases party with
  | child => simp [PingPong.run, unborn] at taken
  | parent =>
    rcases place with place | place | ⟨place, masked⟩ | place
    · have caught : sigaction (state .parent).signals TESTSIG ⟨handler, sigemptyset, 0⟩ =
          some ({ (state .parent).signals with
            dispositions := Function.update (state .parent).signals.dispositions TESTSIG
              ⟨handler, sigemptyset, 0⟩ }, (state .parent).signals.dispositions TESTSIG) := rfl
      simp only [PingPong.run, place, caught, Option.map_some, Option.some.injEq] at taken
      subst taken
      refine .inl ⟨unborn, .inr (.inl rfl), fun party => ?_, fun party => ?_, unconsumed⟩
      · cases party <;> exact nothing _
      · cases party <;> exact quiet _
    · simp only [PingPong.run, place, Option.some.injEq] at taken
      subst taken
      refine .inl ⟨unborn, .inr (.inr (.inl ⟨rfl, rfl⟩)), fun party => ?_, fun party => ?_, unconsumed⟩
      · cases party <;> exact nothing _
      · cases party <;> exact quiet _
    · -- The child's mask is the parent's, so the signal was blocked in it from the start.
      simp only [PingPong.run, place, Option.some.injEq] at taken
      subst taken
      refine .inr ⟨fun party => ?_, fun party => ?_, ?_⟩
      · cases party <;> exact masked
      · cases party
        · exact quiet .parent
        · rfl
      · have round := round_loop numSigs 0 (Nat.zero_le numSigs)
        simpa [nothing, unconsumed, SignalState.inherit, sigemptyset] using round
    · simp [PingPong.run, place] at taken

@[simp] theorem receive_mask (process : Process) :
    process.receive.signals.mask = process.signals.mask := by
  simp only [Process.receive, SignalState.generate]
  split
  · split <;> rfl
  · rfl

@[simp] theorem receive_handled (process : Process) : process.receive.handled = process.handled := by
  simp only [Process.receive]
  split <;> rfl

/-- In the loops no mask changes and no handler runs. -/
theorem run_frame {scnt : Nat}
    (looping : (state party).place = .sending scnt ∨ (state party).place = .waiting scnt)
    (taken : run numSigs state party = some next) (other : Party) :
    (next other).signals.mask = (state other).signals.mask ∧
      (next other).handled = (state other).handled := by
  rcases looping with sending | waiting
  · simp only [PingPong.run, sending, Option.some.injEq] at taken
    subst taken
    cases party <;> cases other <;> simp [Party.other]
  · simp only [PingPong.run, waiting] at taken
    split at taken
    next =>
      cases taken
      cases party <;> cases other <;> simp [SignalState.take]
    next => cases taken

theorem run_round (masked : ∀ party, (state party).signals.mask TESTSIG = true)
    (round : Round numSigs (state .child).place (state .parent).place
      ((state .child).signals.pending TESTSIG) ((state .parent).signals.pending TESTSIG)
      (state .child).consumed (state .parent).consumed)
    (taken : run numSigs state party = some next) :
    ∃ scnt, ((state party).place = .sending scnt ∨ (state party).place = .waiting scnt) ∧
      Round numSigs (next .child).place (next .parent).place
        ((next .child).signals.pending TESTSIG) ((next .parent).signals.pending TESTSIG)
        (next .child).consumed (next .parent).consumed := by
  generalize child : (state .child).place = childPlace, parent : (state .parent).place = parentPlace,
    childPending : (state .child).signals.pending TESTSIG = childBit,
    parentPending : (state .parent).signals.pending TESTSIG = parentBit,
    childConsumed : (state .child).consumed = scnt,
    parentConsumed : (state .parent).consumed = parentCount at round
  cases round with
  | asking _ more =>
    cases party with
    | parent => simp [PingPong.run, parent, parentPending] at taken
    | child =>
      simp only [PingPong.run, child, Party.other, Option.some.injEq] at taken
      subst taken
      refine ⟨scnt, .inl child, ?_⟩
      have received := receive_alive (state .parent) (by rw [parent]; rfl) (masked .parent)
      simpa [received, parent, childPending, childConsumed, parentConsumed] using Round.asked scnt more
  | asked _ more =>
    cases party with
    | child => simp [PingPong.run, child, childPending] at taken
    | parent =>
      simp only [PingPong.run, parent, parentPending, ↓reduceIte, Option.some.injEq] at taken
      subst taken
      refine ⟨scnt, .inr parent, ?_⟩
      simpa [SignalState.take, child, childPending, childConsumed, parentConsumed] using
        Round.answering scnt more
  | answering _ more =>
    cases party with
    | child => simp [PingPong.run, child, childPending] at taken
    | parent =>
      simp only [PingPong.run, parent, Party.other, Option.some.injEq] at taken
      subst taken
      refine ⟨scnt, .inl parent, ?_⟩
      have received := receive_alive (state .child) (by rw [child]; rfl) (masked .child)
      simpa [received, child, parentPending, childConsumed, parentConsumed] using
        Round.answered scnt more
  | answered _ more =>
    cases party with
    | parent =>
      -- The parent has the next round ahead of it or has ended: either way it cannot go on.
      unfold loop at parent
      split at parent <;> simp [PingPong.run, parent, parentPending] at taken
    | child =>
      simp only [PingPong.run, child, childPending, ↓reduceIte, Option.some.injEq] at taken
      subst taken
      refine ⟨scnt, .inr child, ?_⟩
      simpa [SignalState.take, parent, parentPending, childConsumed, parentConsumed] using
        round_loop numSigs (scnt + 1) more
  | both_exited => cases party <;> simp [PingPong.run, child, parent] at taken

theorem Forked.run (forked : Forked numSigs state) (taken : run numSigs state party = some next) :
    Forked numSigs next := by
  obtain ⟨masked, quiet, round⟩ := forked
  obtain ⟨scnt, looping, after⟩ := run_round masked round taken
  have frame := run_frame looping taken
  refine ⟨fun other => ?_, fun other => ?_, after⟩
  · rw [(frame other).1]
    exact masked other
  · rw [(frame other).2]
    exact quiet other

theorem Alone.fail (alone : Alone state) (taken : fail state party = some next) : Alone next := by
  obtain ⟨unborn, place, nothing, quiet, unconsumed⟩ := alone
  cases party with
  | child => simp [PingPong.fail, unborn] at taken
  | parent =>
    have ended : Function.update state .parent
        { state .parent with place := .exited EXIT_FAILURE } = next := by
      rcases place with place | place | ⟨place, -⟩ | place
      · simpa [PingPong.fail, place] using taken
      · simpa [PingPong.fail, place] using taken
      · simpa [PingPong.fail, place] using taken
      · simp [PingPong.fail, place] at taken
    subst ended
    refine ⟨unborn, .inr (.inr (.inr rfl)), fun party => ?_, fun party => ?_, unconsumed⟩
    · cases party <;> exact nothing _
    · cases party <;> exact quiet _

theorem Forked.not_fail (forked : Forked numSigs state) : fail state party = none := by
  obtain ⟨-, -, round⟩ := forked
  generalize child : (state .child).place = childPlace, parent : (state .parent).place = parentPlace,
    (state .child).signals.pending TESTSIG = childBit,
    (state .parent).signals.pending TESTSIG = parentBit,
    (state .child).consumed = childCount, (state .parent).consumed = parentCount at round
  cases round with
  | asking | asked | answering | both_exited => cases party <;> simp [PingPong.fail, child, parent]
  | answered scnt =>
    cases party with
    | child => simp [PingPong.fail, child]
    | parent =>
      unfold loop at parent
      split at parent <;> simp [PingPong.fail, parent]

theorem sound_step {action : Action} (sound : Sound numSigs state)
    (taken : step numSigs state action = some next) : Sound numSigs next := by
  cases action with
  | run party =>
    rcases sound with alone | forked
    · exact alone.run taken
    · exact .inr (forked.run taken)
  | fail party =>
    rcases sound with alone | forked
    · exact .inl (alone.fail taken)
    · rw [step, forked.not_fail] at taken
      cases taken
  | deliver party =>
    have held : (state party).signals.pending TESTSIG = false ∨
        (state party).signals.mask TESTSIG = true := by
      rcases sound with alone | forked
      · exact .inl (alone.nothing party)
      · exact .inr (forked.masked party)
    rw [step, deliver_none held] at taken
    cases taken

theorem sound_start (numSigs : Nat) (inherited : SignalState) :
    Sound numSigs (machine numSigs inherited).start := by
  refine .inl ⟨rfl, .inl rfl, fun party => ?_, fun party => ?_, rfl⟩
  · cases party <;> rfl
  · cases party <;> rfl

theorem sound_of_reachable {inherited : SignalState}
    (reached : (machine numSigs inherited).Reachable state) : Sound numSigs state :=
  Machine.invariant (sound_start numSigs inherited) (fun sound taken => sound_step sound taken)
    reached

/-- In `sigwaitinfo`, with nothing to return. -/
def Process.Blocked (process : Process) : Prop :=
  (∃ scnt, process.place = .waiting scnt) ∧ process.signals.pending TESTSIG = false

def Process.Ended (process : Process) : Prop := ∃ status, process.place = .exited status

theorem forall_party {property : Party → Prop} :
    (∀ party, property party) ↔ property .parent ∧ property .child :=
  ⟨fun all => ⟨all .parent, all .child⟩, fun both party => by
    cases party
    · exact both.1
    · exact both.2⟩

theorem Forked.round_facts (forked : Forked numSigs state) :
    (∀ party scnt, (state party).place = .sending scnt →
      (state party.other).signals.pending TESTSIG = false ∧
        (state party.other).place.alive = true) ∧
    ¬ (∀ party, (state party).Blocked) ∧
    ((∀ party, (state party).Ended) → ∀ party, (state party).consumed = numSigs) := by
  obtain ⟨-, -, round⟩ := forked
  generalize child : (state .child).place = childPlace, parent : (state .parent).place = parentPlace,
    childPending : (state .child).signals.pending TESTSIG = childBit,
    parentPending : (state .parent).signals.pending TESTSIG = parentBit,
    childConsumed : (state .child).consumed = scnt,
    parentConsumed : (state .parent).consumed = parentCount at round
  simp only [forall_party, Party.other, Process.Blocked, Process.Ended, child, parent, childPending,
    parentPending, childConsumed, parentConsumed]
  cases round with
  | asking | asked | answering | both_exited => simp [Place.alive]
  | answered =>
    unfold loop
    split <;> simp [Place.alive]

/-- In every reachable state: whoever sends next has a live partner with nothing
pending, no handler has run, the two do not wait for each other, and once both
have ended each has consumed as many signals as were asked for. -/
theorem pingpong_safe {inherited : SignalState}
    (reached : (machine numSigs inherited).Reachable state) :
    (∀ party scnt, (state party).place = .sending scnt →
      (state party.other).signals.pending TESTSIG = false ∧
        (state party.other).place.alive = true) ∧
    (∀ party, (state party).handled = 0) ∧
    ¬ (∀ party, (state party).Blocked) ∧
    ((∀ party, (state party).Ended) → ∀ party, (state party).consumed = numSigs) := by
  rcases sound_of_reachable reached with alone | forked
  · refine ⟨fun party scnt sending => ?_, alone.quiet, fun blocked => ?_, fun ended => ?_⟩
    · cases party with
      | child =>
        rw [alone.unborn] at sending
        cases sending
      | parent =>
        rcases alone.place with place | place | ⟨place, -⟩ | place <;>
          · rw [place] at sending
            cases sending
    · obtain ⟨⟨scnt, waiting⟩, -⟩ := blocked .child
      rw [alone.unborn] at waiting
      cases waiting
    · obtain ⟨status, ended⟩ := ended .child
      rw [alone.unborn] at ended
      cases ended
  · obtain ⟨sending, waiting, ended⟩ := forked.round_facts
    exact ⟨sending, forked.quiet, waiting, ended⟩

/-- Set up, fork, and play two rounds to the end. -/
def twoRounds : List Action :=
  [.run .parent, .run .parent, .run .parent, .run .child, .run .parent, .run .parent, .run .child,
    .run .child, .run .parent, .run .parent, .run .child]

theorem twoRounds_ends : ((machine 2 .initial).exec (machine 2 .initial).start twoRounds).map
    (fun state => ((state .parent).place, (state .child).place)) =
      some (.exited EXIT_SUCCESS, .exited EXIT_SUCCESS) := by decide

theorem pingpong_safe_twoRounds : ∃ state, (machine 2 .initial).Reachable state ∧
    (state .parent).consumed = 2 ∧ (state .child).consumed = 2 := by
  obtain ⟨state, reached, places⟩ := Machine.exists_reachable twoRounds_ends
  obtain ⟨parent, child⟩ := Prod.mk.inj places
  have consumed := (pingpong_safe reached).2.2.2
    (forall_party.mpr ⟨⟨EXIT_SUCCESS, parent⟩, ⟨EXIT_SUCCESS, child⟩⟩)
  exact ⟨state, reached, consumed .parent, consumed .child⟩

end LinuxProgramming.Signals.PingPong
