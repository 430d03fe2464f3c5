import LinuxProgramming.Foundation.Renaming
import LinuxProgramming.Foundation.Tally
import LinuxProgramming.SharedStack.Headcount
import LinuxProgramming.SharedStack.Linearizable

/-! Whether a wakeup of the shared stack can be lost.

A wakeup is lost when every process has finished or waits, although a waiting
call could go on. Five processes never reach such a state, six can.
-/

set_option autoImplicit false

namespace LinuxProgramming.SharedStack
open Foundation Foundation.Monitor

variable {Process : Type} [DecidableEq Process]

/-- Every action but a wakeup without a signal. -/
def regular : State Process Data Call (Option Int) → Action Process Call → Bool
  | _, .spurious _ => false
  | _, .call _ _ | _, .lock _ | _, .test _ | _, .relock _ | _, .update _ | _, .signal _ _
  | _, .unlock _ => true

/-- The process has made a call, or several, and is in none. -/
def Over (state : State Process Data Call (Option Int)) (process : Process) : Prop :=
  state.phase process = .idle ∧ ∃ entry ∈ state.history, entry.process = process

/-- The call could go on: the stack is not full for a push, not empty for a pop. -/
def CanProceed (globalStack : Data) : Call → Prop
  | .push _ => globalStack.index < STACK_SIZE
  | .pop => globalStack.index > 0

structure LostWakeup (state : State Process Data Call (Option Int)) : Prop where
  stopped : ∀ process, Over state process ∨ ∃ call, state.phase process = .waiting call
  waits : ∃ process call, state.phase process = .waiting call ∧ CanProceed state.shared call

/-! The numbers of calls in a state. -/

/-- What one process adds to the count of a side. -/
def share (side : Side) : Phase Call (Option Int) → Count
  | .locking call | .testing call | .relocking call | .updating call =>
    if call.side = side then ⟨0, 1⟩ else ⟨0, 0⟩
  | .waiting call => if call.side = side then ⟨1, 0⟩ else ⟨0, 0⟩
  | .idle | .signalling _ _ | .unlocking _ _ => ⟨0, 0⟩

def isSignalling : Phase Call (Option Int) → Bool
  | .signalling _ _ => true
  | .idle | .locking _ | .testing _ | .waiting _ | .relocking _ | .updating _
  | .unlocking _ _ => false

variable [Fintype Process]

def count (phase : Process → Phase Call (Option Int)) (side : Side) : Count where
  waiting := ∑ process, (share side (phase process)).waiting
  active := ∑ process, (share side (phase process)).active

def headcount (state : State Process Data Call (Option Int)) : Headcount where
  index := state.shared.index
  count := count state.phase
  signalling := (state.owner.map fun process => isSignalling (state.phase process)).getD false

theorem side_ne_other (side : Side) : side ≠ side.other := by cases side <;> decide

/-- A process that changes its phase changes the count by its own share. -/
theorem count_moved {phase : Process → Phase Call (Option Int)} {process : Process}
    {moved : Phase Call (Option Int)} {side : Side} {was becomes : Count}
    (before : share side (phase process) = was) (after : share side moved = becomes) :
    ∃ waiting active, count phase side = ⟨waiting + was.waiting, active + was.active⟩ ∧
      count (Function.update phase process moved) side =
        ⟨waiting + becomes.waiting, active + becomes.active⟩ := by
  obtain ⟨waiting, waiting_before, waiting_after⟩ :=
    sum_update_rest (fun phase => (share side phase).waiting) phase process moved
  obtain ⟨active, active_before, active_after⟩ :=
    sum_update_rest (fun phase => (share side phase).active) phase process moved
  refine ⟨waiting, active, ?_, ?_⟩
  · rw [count, waiting_before, active_before, before]
  · rw [count, waiting_after, active_after, after]

theorem count_same {phase : Process → Phase Call (Option Int)} {process : Process}
    {moved : Phase Call (Option Int)} {side : Side}
    (same : share side moved = share side (phase process)) :
    count (Function.update phase process moved) side = count phase side := by
  obtain ⟨waiting, active, before, after⟩ :=
    @count_moved Process _ _ phase process moved side _ _ rfl same
  rw [before, after]

omit [DecidableEq Process] in
/-- Every process adds at most one to the counts of the two sides. -/
theorem crowd_le (state : State Process Data Call (Option Int)) :
    (headcount state).crowd ≤ Fintype.card Process := by
  have single : ∀ phase : Phase Call (Option Int),
      (share .pushers phase).waiting + (share .pushers phase).active +
        ((share .poppers phase).waiting + (share .poppers phase).active) ≤ 1 := by
    intro phase
    cases phase with
    | idle | signalling | unlocking => exact Nat.zero_le 1
    | locking call | testing call | waiting call | relocking call | updating call =>
      cases call <;> simp [share, Call.side]
  calc (headcount state).crowd
    _ = ∑ process, ((share .pushers (state.phase process)).waiting +
          (share .pushers (state.phase process)).active +
          ((share .poppers (state.phase process)).waiting +
            (share .poppers (state.phase process)).active)) := by
        simp only [Finset.sum_add_distrib]
        rfl
    _ ≤ ∑ _process : Process, 1 := Finset.sum_le_sum fun process _ => single (state.phase process)
    _ = Fintype.card Process := by simp

/-! Every step of the monitor is a turn. -/

theorem blocked_iff (globalStack : Data) (call : Call) :
    blocked globalStack call = true ↔ supply globalStack.index call.side = 0 := by
  cases call with
  | push oneInt =>
    simp only [blocked, beq_iff_eq, Call.side, supply]
    omega
  | pop => simp [blocked, Call.side, supply]

/-- A call takes one from the supply of its own side. -/
theorem supply_update (globalStack : Data) (call : Call) :
    supply (update globalStack call).1.index call.side =
      supply globalStack.index call.side - 1 := by
  cases call with
  | push oneInt =>
    simp only [update, push, Call.side, supply]
    omega
  | pop => rfl

variable {cells : Int → Int} {state next : State Process Data Call (Option Int)}

omit [DecidableEq Process] in
theorem headcount_owner {process : Process} (owner : state.owner = some process) :
    (headcount state).signalling = isSignalling (state.phase process) := by
  simp [headcount, owner]

omit [DecidableEq Process] in
theorem headcount_free (free : state.owner = none) : (headcount state).signalling = false := by
  simp [headcount, free]

/-- A process that enters a call. -/
theorem turn_call {process : Process} {call : Call} (sound : Sound (monitor cells) state)
    (idle : state.phase process = .idle) :
    Turn (headcount state) (headcount (state.setPhase process (.locking call))) := by
  have own : share call.side (Phase.locking call : Phase Call (Option Int)) = ⟨0, 1⟩ := by
    simp [share]
  have other : share call.side.other (Phase.locking call : Phase Call (Option Int)) = ⟨0, 0⟩ := by
    simp [share, side_ne_other]
  obtain ⟨waiting, active, before, after⟩ :=
    count_moved (show share call.side (state.phase process) = ⟨0, 0⟩ by rw [idle]; rfl) own
  refine .call call.side waiting active rfl before after
    (count_same (by rw [other, idle]; rfl)) ?_
  -- The process is outside the mutex, so it is not the owner.
  cases owner : state.owner with
  | none =>
    rw [headcount_free owner]
    exact headcount_free owner
  | some holder =>
    have different : holder ≠ process := by
      rintro rfl
      have held := sound.held holder owner
      rw [idle] at held
      cases held
    rw [headcount_owner owner, headcount_owner (show (state.setPhase process _).owner = _ from owner),
      setPhase_other _ different]

/-- A process that takes the free mutex is as active as before. -/
theorem turn_acquire {process : Process} {call : Call}
    (outside : state.phase process = .locking call ∨ state.phase process = .relocking call)
    (taken : state.acquire process call = some next) : Turn (headcount state) (headcount next) := by
  unfold State.acquire at taken
  split at taken
  next => cases taken
  next free =>
    cases taken
    refine .stay rfl (fun side => count_same ?_) ?_
    · rcases outside with locking | relocking
      · rw [locking]
        rfl
      · rw [relocking]
        rfl
    · rw [headcount_free free]
      simp [headcount, State.setPhase, isSignalling]

/-- A process that tests and finds nothing left goes to wait. -/
theorem turn_wait {process : Process} {call : Call} (sound : Sound (monitor cells) state)
    (testing : state.phase process = .testing call) (none_left : blocked state.shared call = true)
    (waiters : List Process) :
    Turn (headcount state) (headcount { state.setPhase process (.waiting call) with
      owner := none, waiters := waiters }) := by
  have owner := sound.mutex process (by rw [testing]; rfl)
  have own : share call.side (Phase.waiting call : Phase Call (Option Int)) = ⟨1, 0⟩ := by
    simp [share]
  have other : share call.side.other (Phase.waiting call : Phase Call (Option Int)) =
      share call.side.other (state.phase process) := by
    simp [testing, share, side_ne_other]
  obtain ⟨waiting, active, before, after⟩ :=
    count_moved (show share call.side (state.phase process) = ⟨0, 1⟩ by simp [testing, share]) own
  refine .wait call.side waiting active ?_ ((blocked_iff _ _).mp none_left) rfl before after
    (count_same other) rfl
  rw [headcount_owner owner, testing]
  rfl

/-- A process that keeps the mutex and neither waits nor signals. -/
theorem turn_stay {process : Process} {phase : Phase Call (Option Int)}
    (sound : Sound (monitor cells) state) (holds : (state.phase process).holds = true)
    (same : ∀ side, share side phase = share side (state.phase process))
    (signals : isSignalling phase = isSignalling (state.phase process)) :
    Turn (headcount state) (headcount (state.setPhase process phase)) := by
  have owner := sound.mutex process holds
  refine .stay rfl (fun side => count_same (same side)) ?_
  rw [headcount_owner owner, headcount_owner (show (state.setPhase process phase).owner = _ from owner),
    setPhase_same, signals]

/-- The update of a call that is not blocked. -/
theorem turn_update {process : Process} {call : Call} (sound : Sound (monitor cells) state)
    (updating : state.phase process = .updating call) :
    Turn (headcount state) (headcount { state.setPhase process
        (.signalling call (update state.shared call).2) with
      shared := (update state.shared call).1 }) := by
  have owner := sound.mutex process (by rw [updating]; rfl)
  have admitted : blocked state.shared call = false := sound.ready process call updating
  have other : share call.side.other
        (Phase.signalling call (update state.shared call).2 : Phase Call (Option Int)) =
      share call.side.other (state.phase process) := by
    simp [updating, share, side_ne_other]
  obtain ⟨waiting, active, before, after⟩ :=
    count_moved (show share call.side (state.phase process) = ⟨0, 1⟩ by simp [updating, share])
      (show share call.side (.signalling call (update state.shared call).2) = ⟨0, 0⟩ from rfl)
  refine .finish call.side waiting active ?_ ?_ (supply_update state.shared call) before after
    (count_same other) ?_
  · rw [headcount_owner owner, updating]
    rfl
  · intro none_left
    rw [(blocked_iff _ _).mpr none_left] at admitted
    cases admitted
  · simp [headcount, State.setPhase, owner, isSignalling]

/-- A signal that finds nobody; the queue is then empty, and so are the counts. -/
theorem turn_nobody {process : Process} {call : Call} {result : Option Int}
    (sound : Sound (monitor cells) state) (queued : Queued state)
    (signalling : state.phase process = .signalling call result) (nobody : state.waiters = []) :
    Turn (headcount state) (headcount (state.setPhase process (.unlocking call result))) := by
  have owner := sound.mutex process (by rw [signalling]; rfl)
  refine .wakeNone ?_ rfl (fun side => ?_) (fun side => count_same (by rw [signalling]; rfl)) ?_
  · rw [headcount_owner owner, signalling]
    rfl
  · refine Finset.sum_eq_zero fun other _ => ?_
    cases phase : state.phase other with
    | waiting call =>
      have member := queued other call phase
      rw [nobody] at member
      cases member
    | idle | signalling | unlocking => rfl
    | locking call | testing call | relocking call | updating call =>
      simp only [share]
      split <;> rfl
  · rw [headcount_owner (show (state.setPhase process _).owner = _ from owner), setPhase_same]
    rfl

/-- A signal that wakes a call of either side. -/
theorem turn_wake {process woken : Process} {call other : Call} {result : Option Int}
    (sound : Sound (monitor cells) state) (signalling : state.phase process = .signalling call result)
    (waiting : state.phase woken = .waiting other) (waiters : List Process) :
    Turn (headcount state) (headcount
      { (state.setPhase process (.unlocking call result)).setPhase woken (.relocking other) with
        waiters := waiters }) := by
  have owner := sound.mutex process (by rw [signalling]; rfl)
  have different : process ≠ woken := by
    rintro rfl
    simp [signalling] at waiting
  have unlocked : ∀ side, count (state.setPhase process (.unlocking call result)).phase side =
      count state.phase side := fun side => count_same (by rw [signalling]; rfl)
  have still : (state.setPhase process (.unlocking call result)).phase woken = .waiting other := by
    rw [setPhase_other _ different.symm, waiting]
  have own : share other.side (Phase.relocking other : Phase Call (Option Int)) = ⟨0, 1⟩ := by
    simp [share]
  have theirs : share other.side.other (Phase.relocking other : Phase Call (Option Int)) =
      share other.side.other ((state.setPhase process (.unlocking call result)).phase woken) := by
    simp [still, share, side_ne_other]
  obtain ⟨waiting, active, before, after⟩ :=
    count_moved (show share other.side ((state.setPhase process (.unlocking call result)).phase woken) =
      ⟨1, 0⟩ by simp [still, share]) own
  refine .wake other.side waiting active ?_ rfl ((unlocked _).symm.trans before) after
    ((count_same theirs).trans (unlocked _)) ?_
  · rw [headcount_owner owner, signalling]
    rfl
  · have phase : ((state.setPhase process (.unlocking call result)).setPhase woken
        (.relocking other)).phase process = .unlocking call result := by
      rw [setPhase_other _ different, setPhase_same]
    simp only [headcount, setPhase_owner, owner, Option.map_some, Option.getD_some, phase]
    rfl

/-- Leaving the mutex. -/
theorem turn_unlock {process : Process} {call : Call} {result : Option Int}
    (sound : Sound (monitor cells) state) (unlocking : state.phase process = .unlocking call result)
    (history : List (Finished Process Call (Option Int))) :
    Turn (headcount state) (headcount { state.setPhase process .idle with
      owner := none, history := history }) := by
  have owner := sound.mutex process (by rw [unlocking]; rfl)
  refine .stay rfl (fun side => count_same (by rw [unlocking]; rfl)) ?_
  rw [headcount_owner owner, unlocking]
  rfl

theorem step_turn {action : Action Process Call} (sound : Sound (monitor cells) state)
    (queued : Queued state) (admitted : regular state action = true)
    (taken : (monitor cells).step state action = some next) :
    Turn (headcount state) (headcount next) := by
  cases effect_of_step taken with
  | call idle => exact turn_call sound idle
  | lock locking acquired => exact turn_acquire (.inl locking) acquired
  | relock relocking acquired => exact turn_acquire (.inr relocking) acquired
  | wait testing none_left => exact turn_wait sound testing none_left _
  | pass testing =>
    exact turn_stay sound (by rw [testing]; rfl) (fun side => by rw [testing]; rfl)
      (by rw [testing]; rfl)
  | spurious => cases admitted
  | update updating => exact turn_update sound updating
  | wakeNone signalling nobody => exact turn_nobody sound queued signalling nobody
  | wake signalling waiting => exact turn_wake sound signalling waiting _
  | unlock unlocking => exact turn_unlock sound unlocking _

/-! At most five processes. -/

/-- The invariant of the headcount, for a state. -/
def Balance (state : State Process Data Call (Option Int)) : Prop :=
  ∀ side, (headcount state).Kept side

theorem balance_start (cells : Int → Int) : Balance (shared Process cells).start := by
  intro side
  have nobody : ∀ side, (headcount (shared Process cells).start).count side = ⟨0, 0⟩ := by
    intro side
    simp [headcount, count, machine, share]
  have quiet : (headcount (shared Process cells).start).signalling = false := rfl
  have height : (headcount (shared Process cells).start).index = 0 := rfl
  unfold Headcount.Kept
  rw [nobody, nobody, quiet, height]
  cases side with
  | pushers => exact ⟨by decide, by decide, by simp, by simp, by simp⟩
  | poppers => exact ⟨by decide, by decide, by simp, by simp, by simp⟩

theorem balance_of_reachable (few : Fintype.card Process ≤ 5)
    (reached : ((shared Process cells).guarded regular).Reachable state) : Balance state := by
  refine Machine.guarded_invariant (fun always => And.intro (sound_of_reachable always)
    (queued_of_reachable always)) (balance_start cells)
    (fun known balance signalled taken => ?_) reached
  obtain ⟨sound, queued⟩ := known
  exact Headcount.kept_of_turn (step_turn sound queued signalled taken)
    ((crowd_le _).trans few) balance

omit [DecidableEq Process] [Fintype Process] in
/-- A state in which nobody is active has a free mutex. -/
theorem stopped_free (sound : Sound (monitor cells) state)
    (stopped : ∀ process, Over state process ∨ ∃ call, state.phase process = .waiting call) :
    state.owner = none := by
  cases owner : state.owner with
  | none => rfl
  | some holder =>
    have held := sound.held holder owner
    rcases stopped holder with ⟨idle, -⟩ | ⟨call, waiting⟩
    · rw [idle] at held
      cases held
    · rw [waiting] at held
      cases held

theorem supply_pos {globalStack : Data} {call : Call} (proceed : CanProceed globalStack call) :
    0 < supply globalStack.index call.side := by
  cases call with
  | push oneInt => exact Int.sub_pos_of_lt proceed
  | pop => exact proceed

theorem not_lost_of_few (few : Fintype.card Process ≤ 5)
    (reached : ((shared Process cells).guarded regular).Reachable state) : ¬LostWakeup state := by
  rintro ⟨stopped, process, call, waiting, proceed⟩
  have free := stopped_free (sound_of_reachable reached.of_guarded) stopped
  have inactive : ∀ side, ((headcount state).count side).active = 0 := by
    intro side
    refine Finset.sum_eq_zero fun other _ => ?_
    rcases stopped other with ⟨idle, -⟩ | ⟨call, waiting⟩
    · rw [idle]
      rfl
    · rw [waiting, share]
      split <;> rfl
  have waits : 0 < ((headcount state).count call.side).waiting := by
    refine Finset.sum_pos' (fun other _ => Nat.zero_le _) ⟨process, Finset.mem_univ process, ?_⟩
    rw [waiting]
    simp [share]
  have none_left := (balance_of_reachable few reached call.side).not_lost (headcount_free free)
    inactive waits
  exact absurd none_left (Int.not_le_of_gt (supply_pos proceed))

/-! Six processes, among any number. -/

/-- The first two push and the others pop; the third pushes as well. -/
inductive Six where
  | first
  | second
  | third
  | fourth
  | fifth
  | sixth
  deriving DecidableEq, Repr

instance : Fintype Six where
  elems := {.first, .second, .third, .fourth, .fifth, .sixth}
  complete process := by cases process <;> decide

/-- A call up to its test. -/
def attempt (process : Process) (call : Call) : List (Action Process Call) :=
  [.call process call, .lock process, .test process]

/-- A woken call up to its next test. -/
def retry (process : Process) : List (Action Process Call) := [.relock process, .test process]

/-- The rest of a call that is not blocked. -/
def complete (process woken : Process) : List (Action Process Call) :=
  [.update process, .signal process (some woken), .unlock process]

/-- Three pushes wake three of the waiting poppers. These pop, but each of their signals
wakes a pusher; a pusher fills the stack again, and its signal wakes one more pusher,
which can only wait. -/
def swallowed : List (Action Six Call) :=
  [attempt .third .pop, attempt .fourth .pop, attempt .fifth .pop, attempt .sixth .pop,
    attempt .first (.push 1), complete .first .third,
    attempt .first (.push 2), complete .first .fourth,
    attempt .first (.push 3), complete .first .fifth,
    attempt .first (.push 4), attempt .second (.push 5),
    retry .third, complete .third .first,
    retry .first, complete .first .second,
    retry .second, attempt .first (.push 6), attempt .third (.push 7),
    retry .fourth, complete .fourth .first,
    retry .first, complete .first .second, retry .second,
    retry .fifth, complete .fifth .second,
    retry .second, complete .second .third, retry .third].flatten

/-- The six processes under schedules without spurious wakeups. -/
abbrev six (cells : Int → Int) := (shared Six cells).guarded regular

set_option maxRecDepth 8000 in
theorem swallowed_runs (cells : Int → Int) :
    ((six cells).exec (six cells).start swallowed).map (fun state =>
      ([Six.first, .second, .third, .fourth, .fifth, .sixth].map state.phase,
        state.history.map Finished.process, state.shared.index)) =
      some ([.idle, .idle, .waiting (.push 7), .idle, .idle, .waiting .pop],
        [.first, .first, .first, .third, .first, .fourth, .first, .fifth, .second], 3) := by
  rfl

/-- The schedule ends in a lost wakeup of the sixth process. -/
theorem swallowed_lost {last : State Six Data Call (Option Int)}
    (run : (six cells).exec (six cells).start swallowed = some last) :
    LostWakeup last ∧ last.phase .sixth = .waiting .pop ∧ last.shared.index = 3 := by
  have outcome := swallowed_runs cells
  rw [run, Option.map_some, Option.some.injEq, Prod.mk.injEq, Prod.mk.injEq] at outcome
  obtain ⟨phases, finished, height⟩ := outcome
  simp only [List.map_cons, List.map_nil, List.cons.injEq, and_true] at phases
  obtain ⟨first, second, third, fourth, fifth, sixth⟩ := phases
  have ended : ∀ process ∈ [Six.first, .second, .fourth, .fifth],
      ∃ entry ∈ last.history, entry.process = process := by
    intro process member
    have listed : process ∈ last.history.map Finished.process := by
      rw [finished]
      revert process
      decide
    exact List.mem_map.mp listed
  refine ⟨⟨fun process => ?_, .sixth, .pop, sixth, ?_⟩, sixth, height⟩
  · cases process with
    | first => exact .inl ⟨first, ended .first (by decide)⟩
    | second => exact .inl ⟨second, ended .second (by decide)⟩
    | third => exact .inr ⟨_, third⟩
    | fourth => exact .inl ⟨fourth, ended .fourth (by decide)⟩
    | fifth => exact .inl ⟨fifth, ended .fifth (by decide)⟩
    | sixth => exact .inr ⟨_, sixth⟩
  · show last.shared.index > 0
    rw [height]
    decide

/-- No wakeup without a signal, and no signal without a process to wake. -/
def signalled : Action Process Call → Bool
  | .spurious _ | .signal _ none => false
  | .call _ _ | .lock _ | .test _ | .relock _ | .update _ | .signal _ (some _) | .unlock _ => true

omit [Fintype Process] in
/-- A schedule of this kind can be taken by any members of a larger family. -/
theorem renamed_exec {Small : Type} [DecidableEq Small] {name : Small → Process}
    {rest : Process → Phase Call (Option Int)} {small last : State Small Data Call (Option Int)}
    (injective : Function.Injective name) {schedule : List (Action Small Call)}
    (good : schedule.all signalled = true) (renames : Renames name rest small state)
    (reached : ((shared Process cells).guarded regular).Reachable state)
    (run : (shared Small cells).exec small schedule = some last) :
    ∃ after, ((shared Process cells).guarded regular).Reachable after ∧
      Renames name rest last after := by
  have each : ∀ action ∈ schedule, signalled action = true := List.all_eq_true.mp good
  refine renames.exec injective (fun action member process same => ?_)
    (fun action member state => ?_) reached run
  · have found := each action member
    rw [same] at found
    cases found
  · have found := each action member
    cases action with
    | spurious process => cases found
    | call | lock | test | relock | update | signal | unlock => rfl

omit [Fintype Process] in
/-- Any of the processes can wait to pop while the others have not begun. -/
theorem poppers_wait (cells : Int → Int) (poppers : Finset Process) :
    ∃ state, ((shared Process cells).guarded regular).Reachable state ∧ state.owner = none ∧
      state.shared = (monitor cells).start ∧
      ∀ process, state.phase process = if process ∈ poppers then .waiting .pop else .idle := by
  induction poppers using Finset.induction_on with
  | empty => exact ⟨_, .start, rfl, rfl, fun process => by simp [Machine.guarded, machine]⟩
  | insert popper poppers new ih =>
    obtain ⟨state, reached, free, start, phase⟩ := ih
    -- One process on its own takes the three steps.
    have alone : Renames (fun _ : Unit => popper) state.phase (shared Unit cells).start state :=
      { phase := fun _ => by simp [phase, new, machine]
        others := fun _ _ => rfl
        owner := free
        shared := start
        history := fun entry member => by cases member }
    have run : (shared Unit cells).exec (shared Unit cells).start (attempt () .pop) = some _ := rfl
    obtain ⟨after, later, waits⟩ := renamed_exec (fun _ _ _ => rfl) rfl alone reached run
    refine ⟨after, later, waits.owner, waits.shared, fun process => ?_⟩
    by_cases equal : process = popper
    · rw [equal, waits.phase ()]
      simp
    · rw [waits.others process fun _ => equal, phase]
      simp [equal]

/-- Six processes with names of their own lose a wakeup, and the others wait with them. -/
theorem lost_of_six {name : Six → Process} (injective : Function.Injective name)
    (cells : Int → Int) :
    ∃ state, ((shared Process cells).guarded regular).Reachable state ∧ LostWakeup state := by
  classical
  obtain ⟨state, reached, free, start, phase⟩ :=
    poppers_wait cells (Finset.univ.filter fun process => ∀ member, process ≠ name member)
  have members : Renames name (fun _ => .waiting .pop) (shared Six cells).start state :=
    { phase := fun member => by
        have named : ¬∀ other, name member ≠ name other := fun outside => outside member rfl
        simp [phase, named, machine]
      others := fun process outside => by simpa [phase] using outside
      owner := free
      shared := start
      history := fun entry member => by cases member }
  have run := swallowed_runs cells
  rw [Option.map_eq_some_iff] at run
  obtain ⟨last, run, -⟩ := run
  obtain ⟨⟨stopped, member, call, waits, proceed⟩, -⟩ := swallowed_lost run
  obtain ⟨after, later, same⟩ := renamed_exec injective rfl members reached
    (Machine.exec_of_guarded run)
  refine ⟨after, later, fun process => ?_, name member, call, ?_, ?_⟩
  · by_cases outside : ∀ member, process ≠ name member
    · exact .inr ⟨_, same.others process outside⟩
    · obtain ⟨member, named⟩ := not_forall_not.mp outside
      rw [named, Over, same.phase]
      rcases stopped member with ⟨idle, entry, known, own⟩ | waiting
      · obtain ⟨again, present, renamed⟩ := same.history entry known
        exact .inl ⟨idle, again, present, by rw [renamed, own]⟩
      · exact .inr waiting
  · rw [same.phase, waits]
  · rw [same.shared]
    exact proceed

/-- No wakeup is lost in any run of at most five processes; with six or more, some run
loses one. -/
theorem no_lost_wakeup_iff (Process : Type) [DecidableEq Process] [Fintype Process]
    (cells : Int → Int) :
    (∀ state, ((shared Process cells).guarded regular).Reachable state → ¬LostWakeup state) ↔
      Fintype.card Process ≤ 5 := by
  constructor
  · intro never
    by_contra many
    have six : Fintype.card Six = 6 := rfl
    obtain ⟨name⟩ : Nonempty (Six ↪ Process) :=
      Function.Embedding.nonempty_of_card_le (by omega)
    obtain ⟨state, reached, lost⟩ := lost_of_six name.injective cells
    exact never state reached lost
  · exact fun few state reached => not_lost_of_few few reached

/-- The sixth process waits to pop from a full stack, and nobody is left to wake it. -/
theorem sixth_loses_wakeup :
    ∃ state, (six fun _ => 0).exec (six fun _ => 0).start swallowed = some state ∧
      (six fun _ => 0).Reachable state ∧ LostWakeup state ∧
      state.phase .sixth = .waiting .pop ∧ state.shared.index = STACK_SIZE := by
  have run := swallowed_runs fun _ => 0
  rw [Option.map_eq_some_iff] at run
  obtain ⟨last, run, -⟩ := run
  exact ⟨last, run, Machine.reachable_of_exec .start run, swallowed_lost run⟩

end LinuxProgramming.SharedStack
