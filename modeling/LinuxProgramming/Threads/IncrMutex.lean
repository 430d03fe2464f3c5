import LinuxProgramming.Threads.Incr

/-! The same increments between a lock and an unlock.

Seen without its locks and unlocks the program makes the steps of the one without a mutex,
so the bounds of that one hold here, too. That nothing is lost comes from the mutex: what
its holder has loaded is still the value of `glob`.
-/

set_option autoImplicit false

namespace LinuxProgramming.Threads.Incr.Mutex
open Foundation

inductive LockedPlace where
  | unborn
  | looping (left : Nat)
  | loading (left : Nat)
  | adding (left loc : Nat)
  | storing (left loc : Nat)
  | unlocking (left : Nat)
  | returned
  deriving DecidableEq, Repr

namespace LockedPlace

def holds : LockedPlace → Bool
  | .loading _ | .adding _ _ | .storing _ _ | .unlocking _ => true
  | .unborn | .looping _ | .returned => false

def view : LockedPlace → Place
  | .unborn => .unborn
  | .looping left | .unlocking left => .looping left
  | .loading left => .looping (left + 1)
  | .adding left loc => .adding left loc
  | .storing left loc => .storing left loc
  | .returned => .returned

end LockedPlace

/-- `owner` holds the mutex. -/
structure LockedState extends State LockedPlace where
  owner : Option Thread

def threadStep (state : LockedState) (thread : Thread) : Option LockedState :=
  if state.main.ended then none
  else match state.place thread with
    | .unborn | .returned => none
    | .looping 0 => some { state with place := Function.update state.place thread .returned }
    | .looping (left + 1) =>
      if state.owner = none then
        some { state with
          place := Function.update state.place thread (.loading left)
          owner := some thread }
      else none
    | .loading left => some { state with
        place := Function.update state.place thread (.adding left state.glob) }
    | .adding left loc =>
      if loc < INT_MAX then
        some { state with place := Function.update state.place thread (.storing left (loc + 1)) }
      else some { state with main := .undefined }
    | .storing left loc => some { state with
        place := Function.update state.place thread (.unlocking left)
        glob := loc }
    | .unlocking left => some { state with
        place := Function.update state.place thread (.looping left)
        owner := none }

def step (loops : Nat) (state : LockedState) : Action → Option LockedState
  | .main =>
    (mainStep (.looping loops) (· = .returned) state.toState).map fun next =>
      { next with owner := state.owner }
  | .createFails => (createFails state.toState).map fun next => { next with owner := state.owner }
  | .thread thread => threadStep state thread

def machine (loops : Nat) : Machine LockedState Action where
  start := ⟨⟨.creating .t1, fun _ => .unborn, 0⟩, none⟩
  step := step loops

def LockedState.view (state : LockedState) : State Place :=
  state.toState.map LockedPlace.view

/-- Only the holder of the mutex is between a lock and an unlock, and `glob` counts all
stores made. -/
structure Exclusive (loops : Nat) (state : LockedState) : Prop where
  owner : ∀ thread, state.owner = some thread ↔ (state.place thread).holds = true
  all : state.glob + state.view.remaining loops = 2 * loops
  loaded : ∀ thread left loc, state.place thread = .adding left loc → loc = state.glob
  added : ∀ thread left loc, state.place thread = .storing left loc → loc = state.glob + 1

variable {loops : Nat} {state next : LockedState} {thread : Thread} {place : LockedPlace}

theorem view_update (main : MainPlace) (places : Thread → LockedPlace) (glob : Nat)
    (owner : Option Thread) :
    LockedState.view ⟨⟨main, Function.update places thread place, glob⟩, owner⟩ =
      ⟨main, Function.update (fun thread => (places thread).view) thread place.view, glob⟩ :=
  map_update main places thread place glob

/-- A step that only moves the mutex is not seen, every other one is a step without it. -/
theorem threadStep_view (taken : threadStep state thread = some next) :
    next.view = state.view ∨ Incr.threadStep state.view thread = some next.view := by
  unfold threadStep at taken
  split at taken
  next => cases taken
  next running =>
    have seen : state.view.main.ended = false := Bool.eq_false_of_not_eq_true running
    have unseen : ∀ place : LockedPlace, place.view = (state.place thread).view →
        Function.update (fun thread => (state.place thread).view) thread place.view =
          fun thread => (state.place thread).view := by
      intro place same
      rw [same]
      exact Function.update_eq_self thread fun thread => (state.place thread).view
    simp only [Incr.threadStep, seen, Bool.false_eq_true, if_false]
    cases here : state.place thread with
    | unborn | returned => simp [here] at taken
    | looping left =>
      cases left with
      | zero =>
        simp only [here] at taken
        cases taken
        refine .inr ?_
        rw [view_update]
        simp [LockedState.view, State.map, here, LockedPlace.view]
      | succ left =>
        simp only [here] at taken
        split at taken
        next =>
          cases taken
          refine .inl ?_
          rw [view_update, unseen _ (by rw [here]; rfl)]
          rfl
        next => cases taken
    | loading left =>
      simp only [here] at taken
      cases taken
      refine .inr ?_
      rw [view_update]
      simp [LockedState.view, State.map, here, LockedPlace.view]
    | adding left loc =>
      simp only [here] at taken
      refine .inr ?_
      split at taken
      next small =>
        cases taken
        rw [view_update]
        simp [LockedState.view, State.map, here, LockedPlace.view, small]
      next large =>
        cases taken
        simp [LockedState.view, State.map, here, LockedPlace.view, large]
    | storing left loc =>
      simp only [here] at taken
      cases taken
      refine .inr ?_
      rw [view_update]
      simp [LockedState.view, State.map, here, LockedPlace.view]
    | unlocking left =>
      simp only [here] at taken
      cases taken
      refine .inl ?_
      rw [view_update, unseen _ (by rw [here]; rfl)]
      rfl

theorem simulates (loops : Nat) :
    (machine loops).Simulates (Incr.machine loops) fun state view => view = state.view := by
  refine Machine.simulates_of_view rfl ?_
  intro state next action _ _ taken
  cases action with
  | thread thread =>
    rcases threadStep_view taken with same | matched
    · exact .inl same
    · exact .inr ⟨.thread thread, matched⟩
  | main =>
    refine .inr ⟨.main, ?_⟩
    obtain ⟨moved, main, rfl⟩ := Option.map_eq_some_iff.mp taken
    have same : ∀ place : LockedPlace,
        decide (place.view = .returned) = decide (place = .returned) := by
      intro place
      cases place with
      | unborn | looping | loading | adding | storing | unlocking | returned => rfl
    have mapped : mainStep (.looping loops) (· = .returned) state.view =
        (mainStep (.looping loops) (· = .returned) state.toState).map (State.map LockedPlace.view) :=
      mainStep_map LockedPlace.view (.looping loops) same state.toState
    exact mapped.trans (by rw [main]; rfl)
  | createFails =>
    refine .inr ⟨.createFails, ?_⟩
    obtain ⟨moved, fails, rfl⟩ := Option.map_eq_some_iff.mp taken
    exact (createFails_map state.toState).trans (by rw [fails]; rfl)

/-- What holds of every state of the program without a mutex holds of what is seen here. -/
theorem bounded_view (some_loops : 0 < loops) (reached : (machine loops).Reachable state) :
    Bounded loops state.view := by
  obtain ⟨view, seen, same⟩ := (simulates loops).reachable reached
  rw [← same]
  exact bounded_of_reachable some_loops seen

theorem view_unborn (seen : place.view = .unborn) : place = .unborn := by
  cases place with
  | unborn => rfl
  | looping | loading | adding | storing | unlocking | returned => cases seen

/-- A thread moves that does not hold the mutex, and does not take it. -/
theorem Exclusive.outside (exclusive : Exclusive loops state) (main : MainPlace)
    (before : (state.place thread).holds = false) (after : place.holds = false)
    (same : place.view.remaining loops = (state.place thread).view.remaining loops) :
    Exclusive loops
      ⟨⟨main, Function.update state.place thread place, state.glob⟩, state.owner⟩ := by
  refine ⟨?_, ?_, ?_, ?_⟩
  · intro other
    rw [exclusive.owner other]
    by_cases here : other = thread
    · subst here
      simp only [Function.update_self, before, after]
    · simp only [Function.update_of_ne here]
  · rw [view_update, remaining_update, same, ← exclusive.all, remaining_split loops _ thread]
    rfl
  · intro other left loc adding
    by_cases here : other = thread
    · subst here
      simp only [Function.update_self] at adding
      rw [adding] at after
      cases after
    · exact exclusive.loaded other left loc ((Function.update_of_ne here ..).symm.trans adding)
  · intro other left loc storing
    by_cases here : other = thread
    · subst here
      simp only [Function.update_self] at storing
      rw [storing] at after
      cases after
    · exact exclusive.added other left loc ((Function.update_of_ne here ..).symm.trans storing)

/-- A thread moves, and no other holds the mutex. -/
theorem Exclusive.inside (exclusive : Exclusive loops state) (place : LockedPlace) (glob : Nat)
    (others : ∀ other, other ≠ thread → (state.place other).holds = false)
    (all : glob + place.view.remaining loops =
      state.glob + (state.place thread).view.remaining loops)
    (loaded : ∀ left loc, place = .adding left loc → loc = glob)
    (added : ∀ left loc, place = .storing left loc → loc = glob + 1) :
    Exclusive loops ⟨⟨state.main, Function.update state.place thread place, glob⟩,
      if place.holds then some thread else none⟩ := by
  refine ⟨?_, ?_, ?_, ?_⟩
  · intro other
    by_cases here : other = thread
    · subst here
      simp
    · have apart : thread ≠ other := fun same => here same.symm
      simp [here, apart, others other here]
  · have before := exclusive.all
    rw [remaining_split loops _ thread] at before
    rw [view_update, remaining_update]
    simp only [LockedState.view, State.map] at before
    simp only
    omega
  · intro other left loc adding
    by_cases here : other = thread
    · subst here
      exact loaded left loc ((Function.update_self ..).symm.trans adding)
    · have free := others other here
      simp only [Function.update_of_ne here] at adding
      rw [adding] at free
      cases free
  · intro other left loc storing
    by_cases here : other = thread
    · subst here
      exact added left loc ((Function.update_self ..).symm.trans storing)
    · have free := others other here
      simp only [Function.update_of_ne here] at storing
      rw [storing] at free
      cases free

theorem Exclusive.alone (exclusive : Exclusive loops state)
    (holds : (state.place thread).holds = true) {other : Thread} (apart : other ≠ thread) :
    (state.place other).holds = false := by
  by_contra also
  have first := (exclusive.owner thread).mpr holds
  have second := (exclusive.owner other).mpr (Bool.eq_true_of_not_eq_false also)
  rw [first] at second
  exact apart (Option.some.inj second).symm

theorem Exclusive.free (exclusive : Exclusive loops state) (free : state.owner = none)
    (thread : Thread) : (state.place thread).holds = false := by
  by_contra holds
  have owner := (exclusive.owner thread).mpr (Bool.eq_true_of_not_eq_false holds)
  rw [free] at owner
  cases owner

theorem Exclusive.threadStep (exclusive : Exclusive loops state)
    (taken : threadStep state thread = some next) : Exclusive loops next := by
  unfold Mutex.threadStep at taken
  split at taken
  next => cases taken
  next =>
    cases here : state.place thread with
    | unborn | returned => simp [here] at taken
    | looping left =>
      cases left with
      | zero =>
        simp only [here] at taken
        cases taken
        exact exclusive.outside state.main (by rw [here]; rfl) rfl (by rw [here]; rfl)
      | succ left =>
        simp only [here] at taken
        split at taken
        next free =>
          cases taken
          have others := exclusive.free free
          exact exclusive.inside (.loading left) state.glob (fun other _ => others other)
            (by rw [here]; rfl) (by simp) (by simp)
        next => cases taken
    | loading left =>
      have holds : (state.place thread).holds = true := by rw [here]; rfl
      simp only [here] at taken
      cases taken
      rw [(exclusive.owner thread).mpr holds]
      refine exclusive.inside (.adding left state.glob) state.glob
        (fun other => exclusive.alone holds) (by rw [here]; rfl) ?_ (by simp)
      intro _ loc same
      cases same
      rfl
    | adding left loc =>
      have holds : (state.place thread).holds = true := by rw [here]; rfl
      have loaded := exclusive.loaded thread left loc here
      simp only [here] at taken
      split at taken
      next =>
        cases taken
        rw [(exclusive.owner thread).mpr holds]
        refine exclusive.inside (.storing left (loc + 1)) state.glob
          (fun other => exclusive.alone holds) (by rw [here]; rfl) (by simp) ?_
        intro _ _ same
        cases same
        rw [loaded]
      next =>
        cases taken
        exact ⟨exclusive.owner, exclusive.all, exclusive.loaded, exclusive.added⟩
    | storing left loc =>
      have holds : (state.place thread).holds = true := by rw [here]; rfl
      have added := exclusive.added thread left loc here
      simp only [here] at taken
      cases taken
      rw [(exclusive.owner thread).mpr holds]
      refine exclusive.inside (.unlocking left) loc (fun other => exclusive.alone holds) ?_
        (by simp) (by simp)
      rw [here, added]
      simp only [LockedPlace.view, Place.remaining]
      omega
    | unlocking left =>
      have holds : (state.place thread).holds = true := by rw [here]; rfl
      simp only [here] at taken
      cases taken
      exact exclusive.inside (.looping left) state.glob (fun other => exclusive.alone holds)
        (by rw [here]; rfl) (by simp) (by simp)

theorem Exclusive.mainStep {after : State LockedPlace} (exclusive : Exclusive loops state)
    (placed : Placed state.view)
    (taken : mainStep (.looping loops) (· = .returned) state.toState = some after) :
    Exclusive loops ⟨after, state.owner⟩ := by
  unfold Incr.mainStep at taken
  cases here : state.main with
  | creating thread =>
    have unborn := view_unborn (placed.creating here)
    simp only [here] at taken
    cases taken
    exact exclusive.outside (.created thread) (by rw [unborn]; rfl) rfl (by rw [unborn]; rfl)
  | joining thread =>
    simp only [here] at taken
    split at taken
    next =>
      cases taken
      exact ⟨exclusive.owner, exclusive.all, exclusive.loaded, exclusive.added⟩
    next => cases taken
  | printing =>
    simp only [here] at taken
    cases taken
    exact ⟨exclusive.owner, exclusive.all, exclusive.loaded, exclusive.added⟩
  | exited | failed | undefined => simp [here] at taken

theorem exclusive_of_reachable (some_loops : 0 < loops)
    (reached : (machine loops).Reachable state) : Exclusive loops state := by
  induction reached with
  | start =>
    refine ⟨by simp [machine, LockedPlace.holds], ?_, by simp [machine], by simp [machine]⟩
    simp only [machine, LockedState.view, State.map, State.remaining, LockedPlace.view,
      Place.remaining]
    omega
  | @step state next action reached taken ih =>
    cases action with
    | thread thread => exact ih.threadStep taken
    | main =>
      obtain ⟨moved, main, rfl⟩ := Option.map_eq_some_iff.mp taken
      exact ih.mainStep (bounded_view some_loops reached).placed main
    | createFails =>
      obtain ⟨moved, fails, rfl⟩ := Option.map_eq_some_iff.mp taken
      unfold createFails at fails
      split at fails
      next =>
        cases fails
        exact ⟨ih.owner, ih.all, ih.loaded, ih.added⟩
      next => cases fails

def LockedPlace.work (loops : Nat) : LockedPlace → Nat
  | .unborn => 5 * loops + 2
  | .looping left => 5 * left + 1
  | .loading left => 5 * left + 5
  | .adding left _ => 5 * left + 4
  | .storing left _ => 5 * left + 3
  | .unlocking left => 5 * left + 2
  | .returned => 0

theorem threadStep_work (taken : threadStep state thread = some next) :
    next.work (LockedPlace.work loops) < state.work (LockedPlace.work loops) := by
  unfold threadStep at taken
  split at taken
  next => cases taken
  next running =>
    have alive := MainPlace.work_pos (Bool.eq_false_of_not_eq_true running)
    have before := work_split (LockedPlace.work loops) state.toState thread
    cases here : state.place thread with
    | unborn | returned => simp [here] at taken
    | looping left =>
      rw [here] at before
      cases left with
      | zero =>
        simp only [here] at taken
        cases taken
        rw [work_update, before]
        simp only [LockedPlace.work]
        omega
      | succ left =>
        simp only [here] at taken
        split at taken
        next =>
          cases taken
          rw [work_update, before]
          simp only [LockedPlace.work]
          omega
        next => cases taken
    | loading left | storing left loc | unlocking left =>
      rw [here] at before
      simp only [here] at taken
      cases taken
      rw [work_update, before]
      simp only [LockedPlace.work]
      omega
    | adding left loc =>
      rw [here] at before
      simp only [here] at taken
      split at taken
      next =>
        cases taken
        rw [work_update, before]
        simp only [LockedPlace.work]
        omega
      next =>
        cases taken
        simp only [State.work, show MainPlace.undefined.work = 0 from rfl]
        omega

theorem incr_mutex_terminates (some_loops : 0 < loops) : (machine loops).Terminates := by
  have decreases : ∀ {state action next}, (machine loops).Reachable state →
      (machine loops).step state action = some next →
      next.work (LockedPlace.work loops) < state.work (LockedPlace.work loops) := by
    intro state action next reached taken
    have placed := (bounded_view some_loops reached).placed
    cases action with
    | thread thread => exact threadStep_work taken
    | createFails =>
      obtain ⟨moved, fails, rfl⟩ := Option.map_eq_some_iff.mp taken
      exact createFails_work fails
    | main =>
      obtain ⟨moved, main, rfl⟩ := Option.map_eq_some_iff.mp taken
      refine mainStep_work (fun thread creating => ?_) main
      rw [view_unborn (placed.creating creating)]
      simp only [LockedPlace.work]
      omega
  exact Machine.terminates_of_measure decreases

/-- Whoever holds the mutex can step. -/
theorem holder_steps (running : state.main.ended = false)
    (holds : (state.place thread).holds = true) : threadStep state thread ≠ none := by
  intro blocked
  simp only [threadStep, running, Bool.false_eq_true, if_false] at blocked
  cases here : state.place thread with
  | unborn | looping | returned =>
    rw [here] at holds
    cases holds
  | loading | storing | unlocking => simp [here] at blocked
  | adding left loc =>
    simp only [here] at blocked
    split at blocked
    next => cases blocked
    next => cases blocked

theorem Exclusive.stuck (exclusive : Exclusive loops state) (placed : Placed state.view)
    (stuck : (machine loops).Stuck state) : state.main.ended = true := by
  by_contra running
  have alive : state.main.ended = false := Bool.eq_false_of_not_eq_true running
  have free : state.owner = none := by
    cases owner : state.owner with
    | none => rfl
    | some thread =>
      have holds := (exclusive.owner thread).mp owner
      exact absurd (stuck (.thread thread)) (holder_steps alive holds)
  have main := Option.map_eq_none_iff.mp (stuck .main)
  simp only [Incr.mainStep] at main
  cases here : state.main with
  | creating thread | printing => simp [here] at main
  | exited | failed | undefined => simp [here, MainPlace.ended] at alive
  | joining thread =>
    simp only [here] at main
    split at main
    next => cases main
    next still =>
      have blocked : Mutex.threadStep state thread = none := stuck (.thread thread)
      have holds := exclusive.free free thread
      simp only [Mutex.threadStep, alive, Bool.false_eq_true, if_false] at blocked
      cases place : state.place thread with
      | unborn =>
        rcases placed.unborn thread (congrArg LockedPlace.view place) with awaits | ended
        · rw [show state.view.main = .joining thread from here] at awaits
          cases awaits
        · rw [show state.view.main.ended = false from alive] at ended
          cases ended
      | returned => exact still (decide_eq_true place)
      | looping left =>
        cases left with
        | zero | succ left => simp [place, free] at blocked
      | loading | adding | storing | unlocking =>
        rw [place] at holds
        cases holds

/-- Every run ends, is a run of the program without a mutex when the mutex is not looked at,
and prints the sum of both counts, unless that does not fit. -/
theorem incr_mutex_prints (some_loops : 0 < loops) :
    (machine loops).Terminates ∧
    ∀ state, (machine loops).Reachable state →
      (Incr.machine loops).Reachable state.view ∧
      (∀ thread other, (state.place thread).holds = true → (state.place other).holds = true →
        thread = other) ∧
      (∀ printed, state.main = .exited printed → printed = 2 * loops) ∧
      (state.main = .undefined → INT_MAX < 2 * loops) ∧
      ((machine loops).Stuck state → state.main.ended = true) := by
  refine ⟨incr_mutex_terminates some_loops, fun state reached => ?_⟩
  have bounded := bounded_view some_loops reached
  have exclusive := exclusive_of_reachable some_loops reached
  refine ⟨?_, ?_, fun printed exited => ?_, bounded.overflow, exclusive.stuck bounded.placed⟩
  · obtain ⟨view, seen, same⟩ := (simulates loops).reachable reached
    exact same ▸ seen
  · intro thread other holds also
    by_contra apart
    have alone := exclusive.alone holds fun same => apart same.symm
    rw [also] at alone
    cases alone
  · have returned : ∀ thread, state.view.place thread = .returned := by
      intro thread
      exact bounded.placed.past thread (by rw [show state.view.main = _ from exited]; rfl)
    have all := exclusive.all
    simp only [State.remaining, returned, Place.remaining, Nat.add_zero] at all
    rw [bounded.placed.printed printed exited]
    exact all

/-- One increment of the default loops is never lost. -/
theorem incr_mutex_prints_default :
    ¬∃ state, (machine 10000000).Reachable state ∧ state.main = .exited 19999999 := by
  rintro ⟨state, reached, exited⟩
  have sum := ((incr_mutex_prints (by decide)).2 state reached).2.2.1 19999999 exited
  exact absurd sum (by decide)

end LinuxProgramming.Threads.Incr.Mutex
