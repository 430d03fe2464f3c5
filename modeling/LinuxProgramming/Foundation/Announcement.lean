import LinuxProgramming.Foundation.Machine
import LinuxProgramming.Foundation.Tally

/-! One thread that waits for what others announce.

The workers change the data under a mutex and signal the condition variable only behind
the unlock. The main thread creates them, and then waits, round after round, until the
data is ready, and works on it under the mutex. Between the test and the wait no signal
is lost, since the mutex is released with the wait; and what a worker has published
behind the test is followed by its own signal.
-/

set_option autoImplicit false

namespace LinuxProgramming.Foundation

/-- What is particular to a program: the data under the mutex, how often a worker changes
it and how, whether the main thread goes into another round and stops waiting in it, and
the steps of its work, which may depend on the workers that have returned. -/
structure Announcement (count : Nat) (Data Body : Type) where
  start : Data
  rounds : Fin count → Nat
  publish : Fin count → Data → Data
  again : Data → Bool
  ready : Data → Bool
  enter : Body
  body : (Fin count → Bool) → Data → Body → Option (Data × Option Body)

namespace Announcement

/-- The call a worker makes next, with the number of rounds behind the one it is in. -/
inductive WorkerPlace where
  | unborn
  | resting (left : Nat)
  | publishing (left : Nat)
  | unlocking (left : Nat)
  | signalling (left : Nat)
  | returned
  deriving DecidableEq, Repr

namespace WorkerPlace

def holds : WorkerPlace → Bool
  | .publishing _ | .unlocking _ => true
  | .unborn | .resting _ | .signalling _ | .returned => false

/-- Something is published, and its signal is still to come. -/
def announcing : WorkerPlace → Bool
  | .unlocking _ | .signalling _ => true
  | .unborn | .resting _ | .publishing _ | .returned => false

/-- The changes that a worker is still going to make. -/
def left (rounds : Nat) : WorkerPlace → Nat
  | .unborn => rounds
  | .resting left | .unlocking left | .signalling left => left
  | .publishing left => left + 1
  | .returned => 0

end WorkerPlace

inductive MainPlace (Body : Type) where
  | creating (next : Nat)
  | looping
  | locking
  | testing
  | waiting
  | relocking
  | inside (body : Body)
  | unlocking
  | exited
  | failed
  deriving DecidableEq, Repr

namespace MainPlace

variable {Body : Type}

def holds : MainPlace Body → Bool
  | .testing | .inside _ | .unlocking => true
  | .creating _ | .looping | .locking | .waiting | .relocking | .exited | .failed => false

def body : MainPlace Body → Option Body
  | .inside body => some body
  | _ => none

/-- The main thread is in a round, and not yet at its work. -/
def entering : MainPlace Body → Bool
  | .locking | .testing | .waiting | .relocking => true
  | .creating _ | .looping | .inside _ | .unlocking | .exited | .failed => false

def woken : MainPlace Body → MainPlace Body
  | .waiting => .relocking
  | place => place

/-- The process is gone, and its threads with it. -/
def ended : MainPlace Body → Bool
  | .exited | .failed => true
  | _ => false

end MainPlace

inductive Holder (count : Nat) where
  | nobody
  | main
  | worker (worker : Fin count)
  deriving DecidableEq, Repr

structure State (count : Nat) (Data Body : Type) where
  main : MainPlace Body
  worker : Fin count → WorkerPlace
  owner : Holder count
  data : Data
  spurious : Nat

inductive Action (count : Nat) where
  | main
  | createFails
  | spurious
  | worker (worker : Fin count)
  deriving DecidableEq, Repr

variable {count : Nat} {Data Body : Type}

def State.returned (state : State count Data Body) (worker : Fin count) : Bool :=
  state.worker worker = .returned

def mainStep (program : Announcement count Data Body) (state : State count Data Body) :
    Option (State count Data Body) :=
  match state.main with
  | .creating next =>
    if inside : next < count then
      some { state with
        main := .creating (next + 1)
        worker := Function.update state.worker ⟨next, inside⟩
          (.resting (program.rounds ⟨next, inside⟩)) }
    else some { state with main := .looping }
  | .looping =>
    some { state with main := if program.again state.data then .locking else .exited }
  | .locking | .relocking =>
    if state.owner = .nobody then some { state with main := .testing, owner := .main } else none
  | .testing =>
    -- The wait releases the mutex in the same step, so no signal falls in between.
    if program.ready state.data then some { state with main := .inside program.enter }
    else some { state with main := .waiting, owner := .nobody }
  | .inside body =>
    match program.body state.returned state.data body with
    | none => none
    | some (data, some body) => some { state with main := .inside body, data := data }
    | some (data, none) => some { state with main := .unlocking, data := data }
  | .unlocking => some { state with main := .looping, owner := .nobody }
  | .waiting | .exited | .failed => none

def workerStep (program : Announcement count Data Body) (state : State count Data Body)
    (worker : Fin count) : Option (State count Data Body) :=
  if state.main.ended then none
  else match state.worker worker with
    | .unborn | .returned => none
    | .resting 0 => some { state with worker := Function.update state.worker worker .returned }
    | .resting (left + 1) =>
      if state.owner = .nobody then
        some { state with
          worker := Function.update state.worker worker (.publishing left)
          owner := .worker worker }
      else none
    | .publishing left => some { state with
        worker := Function.update state.worker worker (.unlocking left)
        data := program.publish worker state.data }
    | .unlocking left => some { state with
        worker := Function.update state.worker worker (.signalling left)
        owner := .nobody }
    | .signalling left => some { state with
        worker := Function.update state.worker worker (.resting left)
        main := state.main.woken }

/-- A thread that cannot be created ends the program. -/
def step (program : Announcement count Data Body) (state : State count Data Body) :
    Action count → Option (State count Data Body)
  | .main => mainStep program state
  | .worker worker => workerStep program state worker
  | .createFails =>
    match state.main with
    | .creating next => if next < count then some { state with main := .failed } else none
    | _ => none
  | .spurious =>
    match state.main, state.spurious with
    | .waiting, spurious + 1 => some { state with main := .relocking, spurious := spurious }
    | _, _ => none

/-- `spurious` bounds the wakeups without a signal. -/
def machine (program : Announcement count Data Body) (spurious : Nat) :
    Machine (State count Data Body) (Action count) where
  start := ⟨.creating 0, fun _ => .unborn, .nobody, program.start, spurious⟩
  step := step program

/-- What holds of the changes still to be made, the work of the main thread and the data,
and what a round of the main thread costs: `debt` is what the data gives it to do, of
which a change adds at most `load`. -/
structure Lawful (program : Announcement count Data Body)
    (law : (Fin count → Nat) → Option Body → Data → Prop) (debt : Option Body → Data → Nat)
    (load : Nat) : Prop where
  start : law program.rounds none program.start
  publish : ∀ {left data worker rest}, law left none data → left worker = rest + 1 →
    law (Function.update left worker rest) none (program.publish worker data) ∧
      program.again (program.publish worker data) = program.again data ∧
      debt none (program.publish worker data) ≤ debt none data + load
  enter : ∀ {left data}, law left none data → program.again data = true →
    program.ready data = true →
    law left (some program.enter) data ∧ debt (some program.enter) data ≤ debt none data + 1
  stays : ∀ {left returned data body next more}, law left (some body) data →
    program.body returned data body = some (next, some more) →
    law left (some more) next ∧ debt (some more) next < debt (some body) data
  leaves : ∀ {left returned data body next}, law left (some body) data →
    program.body returned data body = some (next, none) →
    law left none next ∧ debt none next + 6 ≤ debt (some body) data
  blocked : ∀ {left returned data body}, law left (some body) data →
    program.body returned data body = none →
    ∃ worker, left worker = 0 ∧ returned worker = false

def State.left (program : Announcement count Data Body) (state : State count Data Body)
    (worker : Fin count) : Nat :=
  (state.worker worker).left (program.rounds worker)

/-- The mutex is held by the thread that is between its lock and its unlock. A waiting main
thread that could go on will be woken. -/
structure Sound (program : Announcement count Data Body)
    (law : (Fin count → Nat) → Option Body → Data → Prop) (state : State count Data Body) :
    Prop where
  main : state.owner = .main ↔ state.main.holds = true
  worker : ∀ worker, state.owner = .worker worker ↔ (state.worker worker).holds = true
  law : law (state.left program) state.main.body state.data
  again : state.main.entering = true → program.again state.data = true
  exited : state.main = .exited → program.again state.data = false
  awake : state.main = .waiting → program.ready state.data = true →
    ∃ worker, (state.worker worker).announcing = true
  unborn : ∀ worker, state.worker worker = .unborn →
    state.main = .failed ∨ ∃ next, state.main = .creating next ∧ next ≤ worker.val
  later : ∀ next worker, state.main = .creating next → next ≤ worker.val →
    state.worker worker = .unborn

variable {program : Announcement count Data Body}
  {law : (Fin count → Nat) → Option Body → Data → Prop} {debt : Option Body → Data → Nat}
  {load : Nat} {state next : State count Data Body} {worker : Fin count} {place : WorkerPlace}

theorem left_update (main : MainPlace Body) (owner : Holder count) (data : Data) (spurious : Nat)
    (workers : Fin count → WorkerPlace) :
    State.left program ⟨main, Function.update workers worker place, owner, data, spurious⟩ =
      Function.update (State.left program ⟨main, workers, owner, data, spurious⟩) worker
        (place.left (program.rounds worker)) := by
  funext other
  by_cases same : other = worker
  · subst same
    simp [State.left]
  · simp [State.left, same]

/-- A worker that moves on without a change has as many left as before. -/
theorem left_same (same : place.left (program.rounds worker) =
    (state.worker worker).left (program.rounds worker)) (main : MainPlace Body)
    (owner : Holder count) (data : Data) (spurious : Nat) :
    State.left program ⟨main, Function.update state.worker worker place, owner, data, spurious⟩ =
      state.left program := by
  rw [left_update, same]
  exact Function.update_eq_self worker (state.left program)

theorem holds_update {owner : Holder count} {workers : Fin count → WorkerPlace}
    (before : ∀ other, owner = .worker other ↔ (workers other).holds = true)
    (same : place.holds = (workers worker).holds) (other : Fin count) :
    owner = .worker other ↔ (Function.update workers worker place other).holds = true := by
  rw [before]
  by_cases here : other = worker
  · subst here
    rw [Function.update_self, same]
  · rw [Function.update_of_ne here]

theorem sound_start (lawful : Lawful program law debt load) (spurious : Nat) :
    Sound program law (machine program spurious).start where
  main := by simp [machine, MainPlace.holds]
  worker := by simp [machine, WorkerPlace.holds]
  law := lawful.start
  again := by simp [machine, MainPlace.entering]
  exited := by simp [machine]
  awake := by simp [machine]
  unborn worker _ := .inr ⟨0, rfl, Nat.zero_le _⟩
  later _ _ _ _ := rfl

/-- The main thread moves and leaves the data and the workers as they are. -/
theorem Sound.moves (sound : Sound program law state) (main : MainPlace Body)
    {owner : Holder count} (born : ∀ next, state.main ≠ .creating next)
    (alive : state.main ≠ .failed)
    (holds : owner = .main ↔ main.holds = true)
    (others : ∀ worker, owner = .worker worker ↔ (state.worker worker).holds = true)
    (body : law (state.left program) main.body state.data)
    (again : main.entering = true → program.again state.data = true)
    (exited : main = .exited → program.again state.data = false)
    (awake : main = .waiting → program.ready state.data = true →
      ∃ worker, (state.worker worker).announcing = true)
    (settled : ∀ next, main ≠ .creating next) (spurious : Nat) :
    Sound program law ⟨main, state.worker, owner, state.data, spurious⟩ where
  main := holds
  worker := others
  law := body
  again := again
  exited := exited
  awake := awake
  unborn worker unborn := by
    rcases sound.unborn worker unborn with failed | ⟨next, creating, _⟩
    · exact absurd failed alive
    · exact absurd creating (born next)
  later next worker creating := absurd creating (settled next)

/-- Nobody else holds what the main thread holds. -/
theorem Sound.alone (sound : Sound program law state) (holds : state.main.holds = true)
    (worker : Fin count) : (state.worker worker).holds = false := by
  have owner := sound.main.mpr holds
  by_contra other
  have also := (sound.worker worker).mpr (Bool.eq_true_of_not_eq_false other)
  rw [owner] at also
  cases also

theorem Sound.created (sound : Sound program law state) {next : Nat}
    (creating : state.main = .creating next) (inside : next < count) :
    Sound program law { state with
      main := .creating (next + 1)
      worker := Function.update state.worker ⟨next, inside⟩
        (.resting (program.rounds ⟨next, inside⟩)) } := by
  have unborn := sound.later next ⟨next, inside⟩ creating (Nat.le_refl next)
  have law_now := sound.law
  rw [creating] at law_now
  refine ⟨?_, ?_, ?_, by simp [MainPlace.entering], by simp, by simp, ?_, ?_⟩
  · rw [sound.main, creating]
    rfl
  · exact holds_update sound.worker (by rw [unborn]; rfl)
  · rw [left_same (by rw [unborn]; rfl)]
    exact law_now
  · intro worker still
    by_cases same : worker = ⟨next, inside⟩
    · subst same
      simp at still
    · simp only [Function.update_of_ne same] at still
      rcases sound.unborn worker still with failed | ⟨other, also, behind⟩
      · rw [creating] at failed
        cases failed
      · rw [creating] at also
        cases also
        refine .inr ⟨next + 1, rfl, ?_⟩
        have apart : worker.val ≠ next := fun equal => same (Fin.ext equal)
        omega
  · intro other worker also behind
    cases also
    have apart : worker ≠ ⟨next, inside⟩ := by
      rintro rfl
      exact Nat.not_succ_le_self next behind
    simp only [Function.update_of_ne apart]
    exact sound.later next worker creating (Nat.le_of_succ_le behind)

theorem Sound.looping (sound : Sound program law state) {next : Nat}
    (creating : state.main = .creating next) (all : count ≤ next) :
    Sound program law { state with main := .looping } := by
  have law_now := sound.law
  rw [creating] at law_now
  refine ⟨?_, sound.worker, law_now, by simp [MainPlace.entering], by simp, by simp, ?_, by simp⟩
  · rw [sound.main, creating]
    rfl
  · intro worker still
    rcases sound.unborn worker still with failed | ⟨other, also, behind⟩
    · rw [creating] at failed
      cases failed
    · rw [creating] at also
      cases also
      exact absurd worker.isLt (Nat.not_lt.mpr (Nat.le_trans all behind))

theorem Sound.mainStep (lawful : Lawful program law debt load) (sound : Sound program law state)
    (taken : mainStep program state = some next) : Sound program law next := by
  have law_now := sound.law
  unfold Announcement.mainStep at taken
  cases here : state.main with
  | creating number =>
    simp only [here] at taken
    split at taken
    next inside =>
      cases taken
      exact sound.created here inside
    next outside =>
      cases taken
      exact sound.looping here (Nat.le_of_not_lt outside)
  | looping =>
    simp only [here] at taken
    cases taken
    rw [here] at law_now
    have free : state.owner = .main ↔ False := by rw [sound.main, here]; simp [MainPlace.holds]
    cases again : program.again state.data with
    | true =>
      exact sound.moves .locking (by simp [here]) (by simp [here]) (by simp [free, MainPlace.holds])
        sound.worker law_now (fun _ => again) (by simp) (by simp) (by simp) state.spurious
    | false =>
      exact sound.moves .exited (by simp [here]) (by simp [here]) (by simp [free, MainPlace.holds])
        sound.worker law_now (by simp [MainPlace.entering]) (fun _ => again) (by simp) (by simp)
        state.spurious
  | locking | relocking =>
    simp only [here] at taken
    split at taken
    next free =>
      cases taken
      rw [here] at law_now
      have again := sound.again (by rw [here]; rfl)
      have nobody : ∀ worker, (state.worker worker).holds = false := by
        intro worker
        by_contra holds
        have owner := (sound.worker worker).mpr (Bool.eq_true_of_not_eq_false holds)
        rw [free] at owner
        cases owner
      exact sound.moves .testing (by simp [here]) (by simp [here]) (by simp [MainPlace.holds])
        (by simp [nobody]) law_now (fun _ => again) (by simp) (by simp) (by simp) state.spurious
    next => cases taken
  | testing =>
    simp only [here] at taken
    rw [here] at law_now
    have again := sound.again (by rw [here]; rfl)
    have owner := sound.main.mpr (by rw [here]; rfl)
    have nobody := sound.alone (by rw [here]; rfl)
    cases ready : program.ready state.data with
    | true =>
      simp only [ready, if_true] at taken
      cases taken
      exact sound.moves (.inside program.enter) (by simp [here]) (by simp [here])
        (by simp [owner, MainPlace.holds]) sound.worker (lawful.enter law_now again ready).1
        (by simp [MainPlace.entering]) (by simp) (by simp) (by simp) state.spurious
    | false =>
      simp only [ready, Bool.false_eq_true, if_false] at taken
      cases taken
      exact sound.moves .waiting (by simp [here]) (by simp [here]) (by simp [MainPlace.holds])
        (by simp [nobody]) law_now (fun _ => again) (by simp) (by simp [ready]) (by simp)
        state.spurious
  | inside body =>
    simp only [here] at taken
    rw [here] at law_now
    have owner := sound.main.mpr (by rw [here]; rfl)
    have born : ∀ worker, state.worker worker ≠ .unborn := by
      intro worker unborn
      rcases sound.unborn worker unborn with failed | ⟨other, creating, _⟩
      · rw [here] at failed
        cases failed
      · rw [here] at creating
        cases creating
    cases work : program.body state.returned state.data body with
    | none => simp [work] at taken
    | some result =>
      obtain ⟨data, more⟩ := result
      cases more with
      | some more =>
        simp only [work] at taken
        cases taken
        exact ⟨by simp [owner, MainPlace.holds], sound.worker, (lawful.stays law_now work).1,
          by simp [MainPlace.entering], by simp, by simp,
          fun worker unborn => absurd unborn (born worker), by simp⟩
      | none =>
        simp only [work] at taken
        cases taken
        exact ⟨by simp [owner, MainPlace.holds], sound.worker, (lawful.leaves law_now work).1,
          by simp [MainPlace.entering], by simp, by simp,
          fun worker unborn => absurd unborn (born worker), by simp⟩
  | unlocking =>
    simp only [here] at taken
    cases taken
    rw [here] at law_now
    have nobody := sound.alone (by rw [here]; rfl)
    exact sound.moves .looping (by simp [here]) (by simp [here]) (by simp [MainPlace.holds])
      (by simp [nobody]) law_now (by simp [MainPlace.entering]) (by simp) (by simp) (by simp)
      state.spurious
  | waiting | exited | failed => simp [here] at taken

/-- A worker that is not unborn moves, and only what it may change is changed. -/
theorem Sound.works (sound : Sound program law state) (main : MainPlace Body)
    {owner : Holder count} {data : Data} (here : state.worker worker ≠ .unborn)
    (there : place ≠ .unborn) (kept : main = state.main ∨ state.main = .waiting ∧ main = .relocking)
    (held : owner = .main ↔ state.owner = .main)
    (others : ∀ other, owner = .worker other ↔
      (Function.update state.worker worker place other).holds = true)
    (law_now : law (Function.update (state.left program) worker
      (place.left (program.rounds worker))) main.body data)
    (again : program.again data = program.again state.data)
    (awake : main = .waiting → program.ready data = true →
      ∃ other, (Function.update state.worker worker place other).announcing = true) :
    Sound program law
      ⟨main, Function.update state.worker worker place, owner, data, state.spurious⟩ := by
  refine ⟨?_, others, ?_, ?_, ?_, awake, ?_, ?_⟩
  · rw [held, sound.main]
    rcases kept with rfl | ⟨waiting, rfl⟩
    · rfl
    · rw [waiting]
      rfl
  · rw [left_update]
    exact law_now
  · intro entering
    rw [again]
    rcases kept with rfl | ⟨waiting, rfl⟩
    · exact sound.again entering
    · exact sound.again (by rw [waiting]; rfl)
  · intro exited
    rw [again]
    rcases kept with rfl | ⟨waiting, rfl⟩
    · exact sound.exited exited
    · cases exited
  · intro other unborn
    by_cases same : other = worker
    · subst same
      exact absurd ((Function.update_self ..).symm.trans unborn) there
    · have before := sound.unborn other ((Function.update_of_ne same ..).symm.trans unborn)
      rcases kept with rfl | ⟨waiting, rfl⟩
      · exact before
      · rcases before with failed | ⟨next, creating, _⟩
        · rw [waiting] at failed
          cases failed
        · rw [waiting] at creating
          cases creating
  · intro next other creating behind
    rcases kept with rfl | ⟨waiting, rfl⟩
    · have unborn := sound.later next other creating behind
      have apart : other ≠ worker := by
        rintro rfl
        exact here unborn
      exact (Function.update_of_ne apart ..).trans unborn
    · cases creating

theorem woken_kept (main : MainPlace Body) :
    main.woken = main ∨ main = .waiting ∧ main.woken = .relocking := by
  cases main with
  | waiting => exact .inr ⟨rfl, rfl⟩
  | _ => exact .inl rfl

theorem woken_body (main : MainPlace Body) : main.woken.body = main.body := by
  cases main with
  | _ => rfl

/-- A worker that announces nothing may move without the main thread to wake. -/
theorem Sound.awake_update (sound : Sound program law state)
    (quiet : (state.worker worker).announcing = true → place.announcing = true)
    (waiting : state.main = .waiting) (ready : program.ready state.data = true) :
    ∃ other, (Function.update state.worker worker place other).announcing = true := by
  obtain ⟨other, announcing⟩ := sound.awake waiting ready
  refine ⟨other, ?_⟩
  by_cases same : other = worker
  · subst same
    rw [Function.update_self]
    exact quiet announcing
  · rw [Function.update_of_ne same]
    exact announcing

/-- Where the mutex is free, nobody is between lock and unlock. -/
theorem Sound.nobody (sound : Sound program law state) (free : state.owner = .nobody)
    (worker : Fin count) : (state.worker worker).holds = false := by
  by_contra holds
  have owner := (sound.worker worker).mpr (Bool.eq_true_of_not_eq_false holds)
  rw [free] at owner
  cases owner

/-- A worker that moves on without a change keeps the law. -/
theorem Sound.same_law (sound : Sound program law state)
    (same : place.left (program.rounds worker) =
      (state.worker worker).left (program.rounds worker)) :
    law (Function.update (state.left program) worker (place.left (program.rounds worker)))
      state.main.body state.data := by
  have kept : Function.update (state.left program) worker (place.left (program.rounds worker)) =
      state.left program := by
    rw [same]
    exact Function.update_eq_self worker (state.left program)
  rw [kept]
  exact sound.law

theorem Sound.workerStep (lawful : Lawful program law debt load)
    (sound : Sound program law state) (taken : workerStep program state worker = some next) :
    Sound program law next := by
  unfold Announcement.workerStep at taken
  split at taken
  next => cases taken
  next =>
  cases here : state.worker worker with
  | unborn | returned => simp [here] at taken
  | resting number =>
    cases number with
    | zero =>
      simp only [here] at taken
      cases taken
      apply sound.works state.main (by simp [here]) (by simp) (.inl rfl) Iff.rfl
      · exact holds_update sound.worker (by rw [here]; rfl)
      · exact sound.same_law (by rw [here]; rfl)
      · rfl
      · exact sound.awake_update (by simp [here, WorkerPlace.announcing])
    | succ number =>
      simp only [here] at taken
      split at taken
      next free =>
        cases taken
        apply sound.works state.main (by simp [here]) (by simp) (.inl rfl)
        · simp [free]
        · intro other
          by_cases same : other = worker
          · subst same
            simp [WorkerPlace.holds]
          · simp [same, Ne.symm same, sound.nobody free other]
        · exact sound.same_law (by rw [here]; rfl)
        · rfl
        · exact sound.awake_update (by simp [here, WorkerPlace.announcing])
      next => cases taken
  | publishing number =>
    simp only [here] at taken
    cases taken
    have left_here : state.left program worker = number + 1 := by
      rw [State.left, here]
      rfl
    have outside : state.main.body = none := by
      cases main : state.main with
      | inside body =>
        have alone := sound.alone (by rw [main]; rfl) worker
        rw [here] at alone
        cases alone
      | _ => rfl
    have law_now := sound.law
    rw [outside] at law_now
    obtain ⟨changed, again, _⟩ := lawful.publish law_now left_here
    apply sound.works state.main (by simp [here]) (by simp) (.inl rfl) Iff.rfl
    · exact holds_update sound.worker (by rw [here]; rfl)
    · rw [outside]
      exact changed
    · exact again
    · intro _ _
      exact ⟨worker, by rw [Function.update_self]; rfl⟩
  | unlocking number =>
    simp only [here] at taken
    cases taken
    have owner := (sound.worker worker).mpr (by rw [here]; rfl)
    apply sound.works state.main (by simp [here]) (by simp) (.inl rfl)
    · simp [owner]
    · intro other
      by_cases same : other = worker
      · subst same
        simp [WorkerPlace.holds]
      · have elsewhere := sound.worker other
        rw [owner] at elsewhere
        simp only [Function.update_of_ne same]
        rw [← elsewhere]
        simp [Ne.symm same]
    · exact sound.same_law (by rw [here]; rfl)
    · rfl
    · intro _ _
      exact ⟨worker, by rw [Function.update_self]; rfl⟩
  | signalling number =>
    simp only [here] at taken
    cases taken
    apply sound.works state.main.woken (by simp [here]) (by simp) (woken_kept _) Iff.rfl
    · exact holds_update sound.worker (by rw [here]; rfl)
    · rw [woken_body]
      exact sound.same_law (by rw [here]; rfl)
    · rfl
    · intro waiting
      cases main : state.main with
      | _ => simp [main, MainPlace.woken] at waiting

theorem Sound.step (lawful : Lawful program law debt load) (sound : Sound program law state)
    {action : Action count} (taken : step program state action = some next) :
    Sound program law next := by
  have law_now := sound.law
  cases action with
  | main => exact sound.mainStep lawful taken
  | worker worker => exact sound.workerStep lawful taken
  | createFails =>
    simp only [Announcement.step] at taken
    split at taken
    next number here =>
      split at taken
      next =>
        cases taken
        rw [here] at law_now
        have outside : state.owner = .main ↔ False := by
          rw [sound.main, here]
          simp [MainPlace.holds]
        exact ⟨by simp [outside, MainPlace.holds], sound.worker, law_now,
          by simp [MainPlace.entering], by simp, by simp, fun _ _ => .inl rfl, by simp⟩
      next => cases taken
    next => cases taken
  | spurious =>
    simp only [Announcement.step] at taken
    split at taken
    next spurious here _ =>
      cases taken
      rw [here] at law_now
      have outside : state.owner = .main ↔ False := by
        rw [sound.main, here]
        simp [MainPlace.holds]
      have again := sound.again (by rw [here]; rfl)
      exact sound.moves .relocking (by simp [here]) (by simp [here])
        (by simp [outside, MainPlace.holds]) sound.worker law_now (fun _ => again) (by simp)
        (by simp) (by simp) spurious
    next => cases taken

theorem sound_of_reachable (lawful : Lawful program law debt load) {spurious : Nat}
    (reached : (machine program spurious).Reachable state) : Sound program law state :=
  Machine.invariant (sound_start lawful spurious) (fun sound taken => sound.step lawful taken)
    reached

/-- What a step does to the data; a worker that has returned stays so. -/
inductive Effect (program : Announcement count Data Body) (state next : State count Data Body) :
    Prop where
  | keeps : next.data = state.data →
      (∀ worker, state.worker worker = .returned → next.worker worker = .returned) →
      Effect program state next
  | publishes (worker : Fin count) (left : Nat) : state.worker worker = .publishing left →
      next.data = program.publish worker state.data →
      (∀ worker, state.worker worker = .returned → next.worker worker = .returned) →
      Effect program state next
  | works (body : Body) (more : Option Body) :
      program.body state.returned state.data body = some (next.data, more) →
      next.worker = state.worker → Effect program state next

theorem returned_update (here : state.worker worker ≠ .returned) (other : Fin count)
    (returned : state.worker other = .returned) :
    Function.update state.worker worker place other = .returned := by
  have apart : other ≠ worker := by
    rintro rfl
    exact here returned
  rw [Function.update_of_ne apart]
  exact returned

theorem Sound.effect (sound : Sound program law state) {action : Action count}
    (taken : Announcement.step program state action = some next) : Effect program state next := by
  cases action with
  | main =>
    simp only [Announcement.step, Announcement.mainStep] at taken
    cases here : state.main with
    | creating number =>
      simp only [here] at taken
      split at taken
      next inside =>
        cases taken
        have unborn := sound.later number ⟨number, inside⟩ here (Nat.le_refl number)
        exact .keeps rfl (returned_update (by simp [unborn]))
      next =>
        cases taken
        exact .keeps rfl fun _ => id
    | inside body =>
      simp only [here] at taken
      split at taken
      next => cases taken
      next work =>
        cases taken
        exact .works body _ work rfl
      next work =>
        cases taken
        exact .works body _ work rfl
    | looping | unlocking =>
      simp only [here] at taken
      cases taken
      exact .keeps rfl fun _ => id
    | locking | relocking =>
      simp only [here] at taken
      split at taken
      next =>
        cases taken
        exact .keeps rfl fun _ => id
      next => cases taken
    | testing =>
      simp only [here] at taken
      split at taken
      all_goals
        cases taken
        exact .keeps rfl fun _ => id
    | waiting | exited | failed => simp [here] at taken
  | worker worker =>
    simp only [Announcement.step, Announcement.workerStep] at taken
    split at taken
    next => cases taken
    next =>
    cases here : state.worker worker with
    | unborn | returned => simp [here] at taken
    | resting number =>
      cases number with
      | zero =>
        simp only [here] at taken
        cases taken
        exact .keeps rfl (returned_update (by simp [here]))
      | succ number =>
        simp only [here] at taken
        split at taken
        next =>
          cases taken
          exact .keeps rfl (returned_update (by simp [here]))
        next => cases taken
    | publishing number =>
      simp only [here] at taken
      cases taken
      exact .publishes worker number here rfl (returned_update (by simp [here]))
    | unlocking number | signalling number =>
      simp only [here] at taken
      cases taken
      exact .keeps rfl (returned_update (by simp [here]))
  | createFails =>
    simp only [Announcement.step] at taken
    split at taken
    next =>
      split at taken
      next =>
        cases taken
        exact .keeps rfl fun _ => id
      next => cases taken
    next => cases taken
  | spurious =>
    simp only [Announcement.step] at taken
    split at taken
    next =>
      cases taken
      exact .keeps rfl fun _ => id
    next => cases taken

/-! The end of a run. -/

/-- A worker that cannot go on waits for the mutex, or has nothing left to do. -/
theorem worker_stuck (running : state.main.ended = false)
    (stuck : workerStep program state worker = none) :
    state.worker worker = .unborn ∨ state.worker worker = .returned ∨
      ∃ rest, state.worker worker = .resting (rest + 1) ∧ state.owner ≠ .nobody := by
  unfold workerStep at stuck
  rw [running] at stuck
  cases here : state.worker worker with
  | unborn => exact .inl rfl
  | returned => exact .inr (.inl rfl)
  | resting number =>
    cases number with
    | zero => simp [here] at stuck
    | succ number =>
      refine .inr (.inr ⟨number, rfl, ?_⟩)
      intro free
      simp [here, free] at stuck
  | publishing number | unlocking number | signalling number => simp [here] at stuck

/-- In a run that cannot go on, nobody holds the mutex but a main thread at its work. -/
theorem Sound.owner_stuck (sound : Sound program law state) (running : state.main.ended = false)
    (stuck : ∀ worker, Announcement.workerStep program state worker = none) :
    state.owner = .nobody ∨ state.owner = .main := by
  cases owner : state.owner with
  | nobody => exact .inl rfl
  | main => exact .inr rfl
  | worker worker =>
    have holds := (sound.worker worker).mp owner
    rcases worker_stuck running (stuck worker) with unborn | returned | ⟨rest, resting, _⟩
    · rw [unborn] at holds
      cases holds
    · rw [returned] at holds
      cases holds
    · rw [resting] at holds
      cases holds

/-- A run ends with the exit, or with a main thread that waits for what nobody is going to
announce any more. -/
theorem Sound.stuck (lawful : Lawful program law debt load) (sound : Sound program law state)
    (stuck : ∀ action, Announcement.step program state action = none) :
    state.main = .failed ∨ state.main = .exited ∨
      state.main = .waiting ∧ program.ready state.data = false ∧
        ∀ worker, state.worker worker = .returned := by
  have main : Announcement.mainStep program state = none := stuck .main
  have workers : ∀ worker, Announcement.workerStep program state worker = none :=
    fun worker => stuck (.worker worker)
  have law_now := sound.law
  unfold Announcement.mainStep at main
  cases here : state.main with
  | failed => exact .inl rfl
  | exited => exact .inr (.inl rfl)
  | creating next =>
    simp only [here] at main
    split at main <;> cases main
  | looping => simp [here] at main
  | unlocking => simp [here] at main
  | testing =>
    simp only [here] at main
    split at main <;> cases main
  | locking | relocking =>
    simp only [here] at main
    split at main
    next => cases main
    next taken =>
      rcases sound.owner_stuck (by rw [here]; rfl) workers with free | own
      · exact absurd free taken
      · have holds := sound.main.mp own
        rw [here] at holds
        cases holds
  | inside body =>
    exfalso
    rw [here] at law_now
    have running : state.main.ended = false := by rw [here]; rfl
    have work : program.body state.returned state.data body = none := by
      simp only [here] at main
      split at main
      next work => exact work
      next => cases main
      next => cases main
    obtain ⟨worker, done, still⟩ := lawful.blocked law_now work
    rcases worker_stuck running (workers worker) with unborn | returned | ⟨rest, resting, _⟩
    · rcases sound.unborn worker unborn with failed | ⟨next, creating, _⟩
      · rw [here] at failed
        cases failed
      · rw [here] at creating
        cases creating
    · rw [State.returned, returned] at still
      cases still
    · rw [State.left, resting] at done
      cases done
  | waiting =>
    have running : state.main.ended = false := by rw [here]; rfl
    have free : state.owner = .nobody := by
      refine (sound.owner_stuck running workers).resolve_right fun own => ?_
      have holds := sound.main.mp own
      rw [here] at holds
      cases holds
    have returned : ∀ worker, state.worker worker = .returned := by
      intro worker
      rcases worker_stuck running (workers worker) with unborn | returned | ⟨rest, _, taken⟩
      · rcases sound.unborn worker unborn with failed | ⟨next, creating, _⟩
        · rw [here] at failed
          cases failed
        · rw [here] at creating
          cases creating
      · exact returned
      · exact absurd free taken
    refine .inr (.inr ⟨rfl, ?_, returned⟩)
    by_contra ready
    obtain ⟨worker, announcing⟩ := sound.awake here (Bool.eq_true_of_not_eq_false ready)
    rw [returned worker] at announcing
    cases announcing

/-- What a worker still does, where each of its changes may cost the main thread a round. -/
def WorkerPlace.work (rounds load : Nat) : WorkerPlace → Nat
  | .unborn => rounds * (load + 8) + 2
  | .resting left => left * (load + 8) + 1
  | .publishing left => left * (load + 8) + load + 8
  | .unlocking left => left * (load + 8) + 7
  | .signalling left => left * (load + 8) + 4
  | .returned => 0

def MainPlace.work : MainPlace Body → Nat
  | .creating _ => 10
  | .unlocking => 5
  | .looping => 4
  | .locking | .relocking => 3
  | .testing => 2
  | .waiting => 1
  | .inside _ | .exited | .failed => 0

def State.work (program : Announcement count Data Body) (debt : Option Body → Data → Nat)
    (load : Nat) (state : State count Data Body) : Nat :=
  (∑ worker, (state.worker worker).work (program.rounds worker) load) + state.main.work +
    debt state.main.body state.data + 3 * state.spurious

/-- One worker's move in the sum over all of them. -/
theorem worker_work (program : Announcement count Data Body) (load : Nat)
    (workers : Fin count → WorkerPlace) (worker : Fin count) (place : WorkerPlace) :
    ∃ rest, ∑ other, (workers other).work (program.rounds other) load =
        rest + (workers worker).work (program.rounds worker) load ∧
      ∑ other, (Function.update workers worker place other).work (program.rounds other) load =
        rest + place.work (program.rounds worker) load := by
  refine ⟨∑ other ∈ Finset.univ.erase worker, (workers other).work (program.rounds other) load,
    ?_, ?_⟩
  · exact (Finset.sum_erase_add _ _ (Finset.mem_univ worker)).symm
  · rw [← Finset.sum_erase_add _ _ (Finset.mem_univ worker), Function.update_self]
    congr 1
    apply Finset.sum_congr rfl
    intro other member
    rw [Function.update_of_ne (Finset.ne_of_mem_erase member)]

theorem woken_work (main : MainPlace Body) : main.woken.work ≤ main.work + 2 := by
  cases main with
  | waiting => exact Nat.le_refl 3
  | _ => exact Nat.le_add_right _ 2

theorem mainStep_work (lawful : Lawful program law debt load) (sound : Sound program law state)
    (taken : mainStep program state = some next) :
    next.work program debt load < state.work program debt load := by
  have law_now := sound.law
  unfold mainStep at taken
  cases here : state.main with
  | creating number =>
    simp only [here] at taken
    split at taken
    next inside =>
      cases taken
      have unborn := sound.later number ⟨number, inside⟩ here (Nat.le_refl number)
      obtain ⟨rest, before, behind⟩ := worker_work program load
        state.worker ⟨number, inside⟩ (.resting (program.rounds ⟨number, inside⟩))
      rw [unborn] at before
      simp only [State.work, before, behind, here, MainPlace.body]
      simp only [MainPlace.work, WorkerPlace.work]
      omega
    next =>
      cases taken
      simp only [State.work, here, MainPlace.body, MainPlace.work]
      omega
  | looping =>
    simp only [here] at taken
    cases taken
    cases program.again state.data with
    | true | false => simp [State.work, here, MainPlace.body, MainPlace.work]
  | locking | relocking =>
    simp only [here] at taken
    split at taken
    next =>
      cases taken
      simp [State.work, here, MainPlace.body, MainPlace.work]
    next => cases taken
  | testing =>
    simp only [here] at taken
    rw [here] at law_now
    have again := sound.again (by rw [here]; rfl)
    cases ready : program.ready state.data with
    | true =>
      simp only [ready, if_true] at taken
      cases taken
      have cost := (lawful.enter law_now again ready).2
      simp only [State.work, here, MainPlace.body, MainPlace.work] at cost ⊢
      omega
    | false =>
      simp only [ready, Bool.false_eq_true, if_false] at taken
      cases taken
      simp [State.work, here, MainPlace.body, MainPlace.work]
  | inside body =>
    simp only [here] at taken
    rw [here] at law_now
    cases work : program.body state.returned state.data body with
    | none => simp [work] at taken
    | some result =>
      obtain ⟨data, more⟩ := result
      cases more with
      | some more =>
        simp only [work] at taken
        cases taken
        have cost := (lawful.stays law_now work).2
        simp only [State.work, here, MainPlace.body, MainPlace.work] at cost ⊢
        omega
      | none =>
        simp only [work] at taken
        cases taken
        have cost := (lawful.leaves law_now work).2
        simp only [State.work, here, MainPlace.body, MainPlace.work] at cost ⊢
        omega
  | unlocking =>
    simp only [here] at taken
    cases taken
    simp [State.work, here, MainPlace.body, MainPlace.work]
  | waiting | exited | failed => simp [here] at taken

theorem workerStep_work (lawful : Lawful program law debt load) (sound : Sound program law state)
    (taken : workerStep program state worker = some next) :
    next.work program debt load < state.work program debt load := by
  unfold workerStep at taken
  split at taken
  next => cases taken
  next =>
  have moves := fun place => worker_work program load state.worker worker place
  cases here : state.worker worker with
  | unborn | returned => simp [here] at taken
  | resting number =>
    cases number with
    | zero =>
      simp only [here] at taken
      cases taken
      obtain ⟨rest, before, behind⟩ := moves .returned
      rw [here] at before
      simp only [State.work, before, behind]
      simp only [WorkerPlace.work]
      omega
    | succ number =>
      simp only [here] at taken
      split at taken
      next =>
        cases taken
        obtain ⟨rest, before, behind⟩ := moves (.publishing number)
        rw [here] at before
        simp only [State.work, before, behind]
        simp only [WorkerPlace.work, Nat.succ_mul]
        omega
      next => cases taken
  | publishing number =>
    simp only [here] at taken
    cases taken
    have outside : state.main.body = none := by
      cases main : state.main with
      | inside body =>
        have alone := sound.alone (by rw [main]; rfl) worker
        rw [here] at alone
        cases alone
      | _ => rfl
    have law_now := sound.law
    rw [outside] at law_now
    have left_here : state.left program worker = number + 1 := by
      rw [State.left, here]
      rfl
    have cost := (lawful.publish law_now left_here).2.2
    obtain ⟨rest, before, behind⟩ := moves (.unlocking number)
    rw [here] at before
    simp only [State.work, before, behind, outside]
    simp only [WorkerPlace.work]
    omega
  | unlocking number =>
    simp only [here] at taken
    cases taken
    obtain ⟨rest, before, behind⟩ := moves (.signalling number)
    rw [here] at before
    simp only [State.work, before, behind]
    simp only [WorkerPlace.work]
    omega
  | signalling number =>
    simp only [here] at taken
    cases taken
    obtain ⟨rest, before, behind⟩ := moves (.resting number)
    rw [here] at before
    have woken := woken_work state.main
    simp only [State.work, before, behind, woken_body]
    simp only [WorkerPlace.work]
    omega

theorem terminates (lawful : Lawful program law debt load) (spurious : Nat) :
    (machine program spurious).Terminates := by
  have decreases : ∀ {state : State count Data Body} {action next},
      (machine program spurious).Reachable state →
      (machine program spurious).step state action = some next →
        next.work program debt load < state.work program debt load := by
    intro state action next reached taken
    have sound := sound_of_reachable lawful reached
    cases action with
    | main => exact mainStep_work lawful sound taken
    | worker worker => exact workerStep_work lawful sound taken
    | createFails =>
      simp only [machine, Announcement.step] at taken
      split at taken
      next here =>
        split at taken
        next =>
          cases taken
          simp only [State.work, here, MainPlace.body, MainPlace.work]
          omega
        next => cases taken
      next => cases taken
    | spurious =>
      simp only [machine, Announcement.step] at taken
      split at taken
      next here more =>
        cases taken
        simp only [State.work, here, more, MainPlace.body, MainPlace.work]
        omega
      next => cases taken
  exact Machine.terminates_of_measure decreases

end Announcement

end LinuxProgramming.Foundation
