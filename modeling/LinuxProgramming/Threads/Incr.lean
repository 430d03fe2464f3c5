import LinuxProgramming.Foundation.Simulation
import LinuxProgramming.GetNum.GetInt

/-! Two threads that increment one global variable, without a mutex and with it.

Without it a thread may store a value that it computed long ago, and so undo what the
other has counted since. With it every run is one of the runs without it, and nothing
is lost.
-/

set_option autoImplicit false

namespace LinuxProgramming.Threads.Incr
open Foundation

def INT_MAX : Nat := GetNum.INT_MAX.toNat

inductive Thread where
  | t1
  | t2
  deriving DecidableEq, Repr

def Thread.other : Thread → Thread
  | .t1 => .t2
  | .t2 => .t1

/-- The call the main thread makes next; `exited` has the value that it printed. A signed
overflow in one of the threads leaves the whole process undefined. -/
inductive MainPlace where
  | creating (thread : Thread)
  | joining (thread : Thread)
  | printing
  | exited (printed : Nat)
  | failed
  | undefined
  deriving DecidableEq, Repr

namespace MainPlace

def created : Thread → MainPlace
  | .t1 => .creating .t2
  | .t2 => .joining .t1

def joined : Thread → MainPlace
  | .t1 => .joining .t2
  | .t2 => .printing

def ended : MainPlace → Bool
  | .exited _ | .failed | .undefined => true
  | .creating _ | .joining _ | .printing => false

/-- The threads still to be created. -/
def awaits : MainPlace → Thread → Bool
  | .creating .t1, _ | .creating .t2, .t2 => true
  | _, _ => false

/-- The threads whose end the main thread has seen. -/
def past : MainPlace → Thread → Bool
  | .joining .t2, .t1 | .printing, _ | .exited _, _ => true
  | _, _ => false

end MainPlace

/-- `glob` and the places of the threads; the two programs differ in the places. -/
structure State (Place : Type) where
  main : MainPlace
  place : Thread → Place
  glob : Nat

inductive Action where
  | main
  | createFails
  | thread (thread : Thread)
  deriving DecidableEq, Repr

/-- The main thread, which is the same in both programs. -/
def mainStep {Place : Type} (begin : Place) (returned : Place → Bool) (state : State Place) :
    Option (State Place) :=
  match state.main with
  | .creating thread => some { state with
      main := .created thread
      place := Function.update state.place thread begin }
  | .joining thread =>
    if returned (state.place thread) then some { state with main := .joined thread } else none
  | .printing => some { state with main := .exited state.glob }
  | .exited _ | .failed | .undefined => none

def createFails {Place : Type} (state : State Place) : Option (State Place) :=
  match state.main with
  | .creating _ => some { state with main := .failed }
  | _ => none

/-- The same state with the places seen otherwise. -/
def State.map {Here There : Type} (see : Here → There) (state : State Here) : State There :=
  ⟨state.main, fun thread => see (state.place thread), state.glob⟩

section Maps

variable {Here There : Type} {see : Here → There}

theorem map_update (main : MainPlace) (places : Thread → Here) (thread : Thread) (place : Here)
    (glob : Nat) :
    State.map see ⟨main, Function.update places thread place, glob⟩ =
      ⟨main, Function.update (fun thread => see (places thread)) thread (see place), glob⟩ := by
  rw [State.map]
  congr 1
  funext other
  by_cases same : other = thread
  · subst same
    simp only [Function.update_self]
  · simp only [Function.update_of_ne same]

theorem mainStep_map (see : Here → There) (begin : Here) {returned : Here → Bool}
    {again : There → Bool} (same : ∀ place, again (see place) = returned place)
    (state : State Here) :
    mainStep (see begin) again (state.map see) =
      (mainStep begin returned state).map (State.map see) := by
  unfold mainStep
  cases here : state.main with
  | creating thread =>
    simp only [State.map, here, Option.map_some, Option.some.injEq]
    exact (map_update (.created thread) state.place thread begin state.glob).symm
  | joining thread =>
    simp only [State.map, here, same]
    split
    next => rfl
    next => rfl
  | printing | exited | failed | undefined => simp only [State.map, here, Option.map]

theorem createFails_map (state : State Here) :
    createFails (state.map see) = (createFails state).map (State.map see) := by
  unfold createFails
  cases here : state.main with
  | creating | joining | printing | exited | failed | undefined =>
    simp only [State.map, here, Option.map]

end Maps

/-- What a thread does next, and the iterations behind the one it is in. -/
inductive Place where
  | unborn
  | looping (left : Nat)
  | adding (left loc : Nat)
  | storing (left loc : Nat)
  | returned
  deriving DecidableEq, Repr

/-- The loads and the stores of `glob` are steps of their own. -/
def threadStep (state : State Place) (thread : Thread) : Option (State Place) :=
  if state.main.ended then none
  else match state.place thread with
    | .unborn | .returned => none
    | .looping 0 => some { state with place := Function.update state.place thread .returned }
    | .looping (left + 1) => some { state with
        place := Function.update state.place thread (.adding left state.glob) }
    | .adding left loc =>
      if loc < INT_MAX then
        some { state with place := Function.update state.place thread (.storing left (loc + 1)) }
      else some { state with main := .undefined }
    | .storing left loc => some { state with
        place := Function.update state.place thread (.looping left)
        glob := loc }

def step (loops : Nat) (state : State Place) : Action → Option (State Place)
  | .main => mainStep (.looping loops) (· = .returned) state
  | .createFails => createFails state
  | .thread thread => threadStep state thread

def machine (loops : Nat) : Machine (State Place) Action where
  start := ⟨.creating .t1, fun _ => .unborn, 0⟩
  step := step loops

namespace Place

/-- The stores that a thread has still to make. -/
def remaining (loops : Nat) : Place → Nat
  | .unborn => loops
  | .looping left => left
  | .adding left _ | .storing left _ => left + 1
  | .returned => 0

/-- What a thread has in `loc` while `total` stores are to come: no more than the stores
made, and behind its first iteration not less than the one of that iteration. -/
def Fits (loops total : Nat) : Place → Prop
  | .unborn | .returned => True
  | .looping left => left ≤ loops
  | .adding left loc => left < loops ∧ loc + total ≤ 2 * loops ∧ (left + 1 < loops → 1 ≤ loc)
  | .storing left loc =>
    left < loops ∧ loc ≤ INT_MAX ∧ loc + total ≤ 2 * loops + 1 ∧ 1 ≤ loc ∧
      (left + 1 < loops → 2 ≤ loc)

theorem Fits.fewer {loops total fewer : Nat} {place : Place} (fits : place.Fits loops total)
    (less : fewer ≤ total) : place.Fits loops fewer := by
  cases place with
  | unborn | returned => trivial
  | looping left => exact fits
  | adding left loc =>
    obtain ⟨inside, most, least⟩ := fits
    exact ⟨inside, by omega, least⟩
  | storing left loc =>
    obtain ⟨inside, range, most, least⟩ := fits
    exact ⟨inside, range, by omega, least⟩

theorem Fits.remaining_le {loops total : Nat} {place : Place} (fits : place.Fits loops total) :
    place.remaining loops ≤ loops := by
  cases place with
  | unborn => exact Nat.le_refl loops
  | returned => exact Nat.zero_le loops
  | looping left => exact fits
  | adding left loc | storing left loc => exact fits.1

end Place

def State.remaining (loops : Nat) (state : State Place) : Nat :=
  (state.place .t1).remaining loops + (state.place .t2).remaining loops

/-- Who is created and who is joined, as the main thread has it. -/
structure Placed (state : State Place) : Prop where
  later : ∀ thread, state.main.awaits thread = true → state.place thread = .unborn
  unborn : ∀ thread, state.place thread = .unborn →
    state.main.awaits thread = true ∨ state.main.ended = true
  past : ∀ thread, state.main.past thread = true → state.place thread = .returned
  printed : ∀ printed, state.main = .exited printed → printed = state.glob

/-- The bounds of `glob`. A value below 2 is overwritten by whoever has iterations left. -/
structure Bounded (loops : Nat) (state : State Place) : Prop where
  placed : Placed state
  fits : ∀ thread, (state.place thread).Fits loops (state.remaining loops)
  range : state.glob ≤ INT_MAX
  most : state.glob + state.remaining loops ≤ 2 * loops
  least : state.remaining loops < 2 * loops → 1 ≤ state.glob
  second : 2 ≤ loops → 2 ≤ state.glob ∨ ∃ thread, 0 < (state.place thread).remaining loops
  overflow : state.main = .undefined → INT_MAX < 2 * loops

variable {loops : Nat} {state next : State Place} {thread : Thread} {place : Place} {glob : Nat}

theorem Thread.other_ne (thread : Thread) : thread.other ≠ thread := by
  cases thread with
  | t1 | t2 => exact Thread.noConfusion

theorem Thread.eq_other {thread other : Thread} (apart : other ≠ thread) : other = thread.other := by
  cases thread with
  | t1 | t2 =>
    cases other with
    | t1 | t2 => first | rfl | exact absurd rfl apart

theorem remaining_split (loops : Nat) (state : State Place) (thread : Thread) :
    state.remaining loops = (state.place thread).remaining loops +
      (state.place thread.other).remaining loops := by
  cases thread with
  | t1 => rfl
  | t2 => exact Nat.add_comm _ _

theorem remaining_update (loops : Nat) (main : MainPlace) (places : Thread → Place)
    (thread : Thread) (place : Place) (glob : Nat) :
    State.remaining loops ⟨main, Function.update places thread place, glob⟩ =
      place.remaining loops + (places thread.other).remaining loops := by
  rw [remaining_split loops _ thread]
  simp only [Function.update_self, Function.update_of_ne thread.other_ne]

/-- A thread that runs is created, and not yet seen to have ended. -/
theorem Placed.moves (placed : Placed state) (alive : state.main.ended = false)
    (born : state.place thread ≠ .unborn) (runs : state.place thread ≠ .returned)
    (there : place ≠ .unborn) (glob : Nat) :
    Placed ⟨state.main, Function.update state.place thread place, glob⟩ where
  later other awaits := by
    have unborn := placed.later other awaits
    have apart : other ≠ thread := by
      rintro rfl
      exact born unborn
    exact (Function.update_of_ne apart ..).trans unborn
  unborn other unborn := by
    by_cases same : other = thread
    · subst same
      exact absurd ((Function.update_self ..).symm.trans unborn) there
    · exact placed.unborn other ((Function.update_of_ne same ..).symm.trans unborn)
  past other past := by
    have returned := placed.past other past
    have apart : other ≠ thread := by
      rintro rfl
      exact runs returned
    exact (Function.update_of_ne apart ..).trans returned
  printed printed exited := by
    rw [show state.main = .exited printed from exited] at alive
    cases alive

/-- A thread that moves on without a store. -/
theorem Bounded.keeps (bounded : Bounded loops state) {main : MainPlace}
    (placed : Placed ⟨main, Function.update state.place thread place, state.glob⟩)
    (same : place.remaining loops = (state.place thread).remaining loops)
    (fits : place.Fits loops (state.remaining loops)) (defined : main ≠ .undefined) :
    Bounded loops ⟨main, Function.update state.place thread place, state.glob⟩ := by
  have total : State.remaining loops
      ⟨main, Function.update state.place thread place, state.glob⟩ = state.remaining loops := by
    rw [remaining_update, remaining_split loops state thread, same]
  refine ⟨placed, ?_, bounded.range, ?_, ?_, ?_, ?_⟩
  · intro other
    rw [total]
    by_cases here : other = thread
    · subst here
      simp only [Function.update_self]
      exact fits
    · simp only [Function.update_of_ne here]
      exact bounded.fits other
  · rw [total]
    exact bounded.most
  · rw [total]
    exact bounded.least
  · intro twice
    rcases bounded.second twice with enough | ⟨other, more⟩
    · exact .inl enough
    · refine .inr ⟨other, ?_⟩
      by_cases here : other = thread
      · subst here
        simp only [Function.update_self, same]
        exact more
      · simp only [Function.update_of_ne here]
        exact more
  · intro undefined
    exact absurd undefined defined

/-- A store: the thread has one less to make, and `glob` is what it computed. -/
theorem Bounded.stores {left loc : Nat} (bounded : Bounded loops state)
    (alive : state.main.ended = false) (here : state.place thread = .storing left loc) :
    Bounded loops ⟨state.main, Function.update state.place thread (.looping left), loc⟩ := by
  have fits := bounded.fits thread
  have total := remaining_split loops state thread
  have after := remaining_update loops state.main state.place thread (.looping left) loc
  rw [here] at fits total
  obtain ⟨inside, range, most, least, second⟩ := fits
  simp only [Place.remaining] at total after
  refine ⟨?_, ?_, range, ?_, fun _ => least, ?_, bounded.overflow⟩
  · exact bounded.placed.moves alive (by simp [here]) (by simp [here]) (by simp) loc
  · intro other
    by_cases same : other = thread
    · subst same
      simp only [Function.update_self]
      exact Nat.le_of_lt inside
    · simp only [Function.update_of_ne same]
      exact (bounded.fits other).fewer (by omega)
  · simp only [after]
    omega
  · intro twice
    by_cases first : left + 1 < loops
    · exact .inl (second first)
    · refine .inr ⟨thread, ?_⟩
      simp only [Function.update_self, Place.remaining]
      omega

/-- There is no overflow unless both threads together count beyond the largest integer. -/
theorem Bounded.large {left loc : Nat} (bounded : Bounded loops state)
    (here : state.place thread = .adding left loc) (large : INT_MAX ≤ loc) :
    INT_MAX < 2 * loops := by
  have fits := bounded.fits thread
  have total := remaining_split loops state thread
  rw [here] at fits total
  rw [show (Place.adding left loc).remaining loops = left + 1 from rfl] at total
  have most := fits.2.1
  omega

theorem Bounded.threadStep (bounded : Bounded loops state)
    (taken : threadStep state thread = some next) : Bounded loops next := by
  unfold Incr.threadStep at taken
  split at taken
  next => cases taken
  next running =>
    have alive : state.main.ended = false := Bool.eq_false_of_not_eq_true running
    have defined : state.main ≠ .undefined := by
      intro undefined
      exact running (by rw [undefined]; rfl)
    have fits := bounded.fits thread
    have total := remaining_split loops state thread
    have others := (bounded.fits thread.other).remaining_le
    cases here : state.place thread with
    | unborn | returned => simp [here] at taken
    | looping left =>
      rw [here] at fits total
      cases left with
      | zero =>
        simp only [here] at taken
        cases taken
        refine bounded.keeps ?_ (by rw [here]; rfl) trivial defined
        exact bounded.placed.moves alive (by simp [here]) (by simp [here]) (by simp) state.glob
      | succ left =>
        simp only [here] at taken
        cases taken
        rw [show (Place.looping (left + 1)).remaining loops = left + 1 from rfl] at total
        refine bounded.keeps ?_ (by rw [here]; rfl) ⟨fits, bounded.most, fun later => ?_⟩ defined
        · exact bounded.placed.moves alive (by simp [here]) (by simp [here]) (by simp) state.glob
        · exact bounded.least (by omega)
    | adding left loc =>
      rw [here] at fits
      simp only [here] at taken
      split at taken
      next small =>
        cases taken
        obtain ⟨inside, most, least⟩ := fits
        refine bounded.keeps ?_ (by rw [here]; rfl) ⟨inside, small, by omega, by omega, ?_⟩ defined
        · exact bounded.placed.moves alive (by simp [here]) (by simp [here]) (by simp) state.glob
        · intro later
          exact Nat.succ_le_succ (least later)
      next large =>
        cases taken
        exact ⟨⟨by simp [MainPlace.awaits], fun _ _ => .inr rfl, by simp [MainPlace.past], by simp⟩,
          bounded.fits, bounded.range, bounded.most, bounded.least, bounded.second,
          fun _ => bounded.large here (Nat.le_of_not_lt large)⟩
    | storing left loc =>
      simp only [here] at taken
      cases taken
      exact bounded.stores alive here

/-- The thread that is created is unborn. -/
theorem Placed.creating (placed : Placed state) (creating : state.main = .creating thread) :
    state.place thread = .unborn := by
  refine placed.later thread ?_
  rw [creating]
  cases thread with
  | t1 | t2 => rfl

theorem Placed.created (placed : Placed state) (creating : state.main = .creating thread) :
    Placed ⟨.created thread, Function.update state.place thread (.looping loops), state.glob⟩ := by
  refine ⟨?_, ?_, ?_, ?_⟩
  · intro other awaits
    have apart : other ≠ thread := by
      rintro rfl
      cases other with
      | t1 | t2 => cases awaits
    refine (Function.update_of_ne apart ..).trans (placed.later other ?_)
    rw [creating]
    cases thread with
    | t1 => rfl
    | t2 =>
      cases other with
      | t1 => cases awaits
      | t2 => rfl
  · intro other unborn
    by_cases same : other = thread
    · subst same
      simp at unborn
    · have before := placed.unborn other ((Function.update_of_ne same ..).symm.trans unborn)
      rw [creating] at before
      cases Thread.eq_other same
      cases thread with
      | t1 => exact .inl rfl
      | t2 => rcases before with before | before <;> cases before
  · intro other past
    cases thread with
    | t1 | t2 => cases past
  · intro printed exited
    cases thread with
    | t1 | t2 => cases exited

theorem Placed.joined (placed : Placed state) (joining : state.main = .joining thread)
    (returned : state.place thread = .returned) : Placed { state with main := .joined thread } := by
  refine ⟨?_, ?_, ?_, ?_⟩
  · intro other awaits
    cases thread with
    | t1 | t2 => cases awaits
  · intro other unborn
    have before := placed.unborn other unborn
    rw [joining] at before
    rcases before with before | before <;> cases before
  · intro other past
    by_cases same : other = thread
    · rw [same]
      exact returned
    · refine placed.past other ?_
      rw [joining]
      cases Thread.eq_other same
      cases thread with
      | t1 => cases past
      | t2 => rfl
  · intro printed exited
    cases thread with
    | t1 | t2 => cases exited

theorem Placed.exits (placed : Placed state) (printing : state.main = .printing) :
    Placed { state with main := .exited state.glob } := by
  have all : ∀ thread, state.place thread = .returned := by
    intro thread
    exact placed.past thread (by rw [printing]; rfl)
  refine ⟨fun _ awaits => (by cases awaits), fun _ _ => .inr rfl, fun other _ => all other, ?_⟩
  intro printed exited
  cases exited
  rfl

theorem Bounded.mainStep (bounded : Bounded loops state)
    (taken : mainStep (.looping loops) (· = .returned) state = some next) :
    Bounded loops next := by
  unfold Incr.mainStep at taken
  cases here : state.main with
  | creating thread =>
    simp only [here] at taken
    cases taken
    have unborn := bounded.placed.creating here
    refine bounded.keeps (bounded.placed.created here) (by rw [unborn]; rfl) (Nat.le_refl loops) ?_
    cases thread with
    | t1 | t2 => exact MainPlace.noConfusion
  | joining thread =>
    simp only [here] at taken
    split at taken
    next returned =>
      cases taken
      have placed := bounded.placed.joined here (of_decide_eq_true returned)
      refine ⟨placed, bounded.fits, bounded.range, bounded.most, bounded.least, bounded.second, ?_⟩
      cases thread with
      | t1 | t2 => exact MainPlace.noConfusion
    next => cases taken
  | printing =>
    simp only [here] at taken
    cases taken
    exact ⟨bounded.placed.exits here, bounded.fits, bounded.range, bounded.most, bounded.least,
      bounded.second, MainPlace.noConfusion⟩
  | exited | failed | undefined => simp [here] at taken

theorem Bounded.step (bounded : Bounded loops state) {action : Action}
    (taken : step loops state action = some next) : Bounded loops next := by
  cases action with
  | main => exact bounded.mainStep taken
  | thread thread => exact bounded.threadStep taken
  | createFails =>
    simp only [Incr.step, Incr.createFails] at taken
    split at taken
    next =>
      cases taken
      exact ⟨⟨fun _ awaits => (by cases awaits), fun _ _ => .inr rfl, fun _ past => (by cases past),
        fun _ exited => (by cases exited)⟩,
        bounded.fits, bounded.range, bounded.most, bounded.least, bounded.second,
        MainPlace.noConfusion⟩
    next => cases taken

theorem bounded_start (some_loops : 0 < loops) : Bounded loops (machine loops).start := by
  refine ⟨⟨fun _ _ => rfl, ?_, fun _ past => (by cases past), fun _ exited => (by cases exited)⟩,
    fun _ => trivial, Nat.zero_le INT_MAX, ?_, ?_, ?_, MainPlace.noConfusion⟩
  · intro thread _
    cases thread with
    | t1 | t2 => exact .inl rfl
  · simp only [machine, State.remaining, Place.remaining]
    omega
  · simp only [machine, State.remaining, Place.remaining]
    omega
  · intro _
    exact .inr ⟨.t1, some_loops⟩

theorem bounded_of_reachable (some_loops : 0 < loops) (reached : (machine loops).Reachable state) :
    Bounded loops state :=
  Machine.invariant (bounded_start some_loops) (fun bounded taken => bounded.step taken) reached

/-- What is printed lies between the bounds. -/
theorem Bounded.printed (bounded : Bounded loops state) {printed : Nat}
    (exited : state.main = .exited printed) : min loops 2 ≤ printed ∧ printed ≤ 2 * loops := by
  have all : ∀ thread, state.place thread = .returned := by
    intro thread
    exact bounded.placed.past thread (by rw [exited]; rfl)
  have nothing_left : state.remaining loops = 0 := by
    simp only [State.remaining, all, Place.remaining]
  have least := bounded.least
  have most := bounded.most
  have second := bounded.second
  simp only [all, Place.remaining] at second
  rw [bounded.placed.printed printed exited]
  omega

/-! ### Every run ends -/

def Place.work (loops : Nat) : Place → Nat
  | .unborn => 3 * loops + 2
  | .looping left => 3 * left + 1
  | .adding left _ => 3 * left + 3
  | .storing left _ => 3 * left + 2
  | .returned => 0

def MainPlace.work : MainPlace → Nat
  | .creating .t1 => 6
  | .creating .t2 => 5
  | .joining .t1 => 4
  | .joining .t2 => 3
  | .printing => 2
  | .exited _ | .failed | .undefined => 0

def State.work {Here : Type} (weight : Here → Nat) (state : State Here) : Nat :=
  state.main.work + weight (state.place .t1) + weight (state.place .t2)

theorem MainPlace.work_pos {main : MainPlace} (alive : main.ended = false) : 0 < main.work := by
  cases main with
  | creating thread | joining thread =>
    cases thread with
    | t1 | t2 => exact Nat.succ_pos _
  | printing => exact Nat.succ_pos _
  | exited | failed | undefined => cases alive

section Work

variable {Here : Type} {weight : Here → Nat} {before after : State Here}

theorem work_split (weight : Here → Nat) (state : State Here) (thread : Thread) :
    state.work weight =
      state.main.work + weight (state.place thread) + weight (state.place thread.other) := by
  cases thread with
  | t1 => rfl
  | t2 => exact Nat.add_right_comm _ _ _

theorem work_update (weight : Here → Nat) (main : MainPlace) (places : Thread → Here)
    (thread : Thread) (place : Here) (glob : Nat) :
    State.work weight ⟨main, Function.update places thread place, glob⟩ =
      main.work + weight place + weight (places thread.other) := by
  cases thread with
  | t1 => rfl
  | t2 => exact Nat.add_right_comm _ _ _

theorem mainStep_work {begin : Here} {returned : Here → Bool}
    (unborn : ∀ thread, before.main = .creating thread →
      weight begin ≤ weight (before.place thread))
    (taken : mainStep begin returned before = some after) :
    after.work weight < before.work weight := by
  unfold mainStep at taken
  cases here : before.main with
  | creating thread =>
    simp only [here] at taken
    cases taken
    have light := unborn thread here
    rw [work_update, work_split weight before thread, here]
    cases thread with
    | t1 | t2 =>
      simp only [MainPlace.created, MainPlace.work]
      omega
  | joining thread =>
    simp only [here] at taken
    split at taken
    next =>
      cases taken
      simp only [State.work, here]
      cases thread with
      | t1 | t2 =>
        simp only [MainPlace.joined, MainPlace.work]
        omega
    next => cases taken
  | printing =>
    simp only [here] at taken
    cases taken
    simp only [State.work, here, MainPlace.work]
    omega
  | exited | failed | undefined => simp [here] at taken

theorem createFails_work (taken : createFails before = some after) :
    after.work weight < before.work weight := by
  unfold createFails at taken
  split at taken
  next thread here =>
    cases taken
    have alive : 0 < before.main.work := MainPlace.work_pos (by rw [here]; rfl)
    simp only [State.work, show MainPlace.failed.work = 0 from rfl]
    omega
  next => cases taken

end Work

theorem threadStep_work (taken : threadStep state thread = some next) :
    next.work (Place.work loops) < state.work (Place.work loops) := by
  unfold threadStep at taken
  split at taken
  next => cases taken
  next running =>
    have alive := MainPlace.work_pos (Bool.eq_false_of_not_eq_true running)
    have before := work_split (Place.work loops) state thread
    cases here : state.place thread with
    | unborn | returned => simp [here] at taken
    | looping left =>
      rw [here] at before
      cases left with
      | zero | succ left =>
        simp only [here] at taken
        cases taken
        rw [work_update, before]
        simp only [Place.work]
        omega
    | adding left loc =>
      rw [here] at before
      simp only [here] at taken
      split at taken
      next =>
        cases taken
        rw [work_update, before]
        simp only [Place.work]
        omega
      next =>
        cases taken
        simp only [State.work, show MainPlace.undefined.work = 0 from rfl]
        omega
    | storing left loc =>
      simp only [here] at taken
      cases taken
      rw [work_update, before, here]
      simp only [Place.work]
      omega

theorem incr_terminates (some_loops : 0 < loops) : (machine loops).Terminates := by
  have decreases : ∀ {state action next}, (machine loops).Reachable state →
      (machine loops).step state action = some next →
      next.work (Place.work loops) < state.work (Place.work loops) := by
    intro state action next reached taken
    have placed := (bounded_of_reachable some_loops reached).placed
    cases action with
    | thread thread => exact threadStep_work taken
    | createFails => exact createFails_work taken
    | main =>
      have main : mainStep (.looping loops) (· = .returned) state = some next := taken
      refine mainStep_work (fun thread creating => ?_) main
      rw [placed.creating creating]
      simp only [Place.work]
      omega
  exact Machine.terminates_of_measure decreases

/-- Main is stuck at the join of a thread, and that thread can step. -/
theorem Bounded.stuck (bounded : Bounded loops state) (stuck : (machine loops).Stuck state) :
    state.main.ended = true := by
  by_contra running
  have alive : state.main.ended = false := Bool.eq_false_of_not_eq_true running
  have main := stuck .main
  simp only [machine, Incr.step, Incr.mainStep] at main
  cases here : state.main with
  | creating thread | printing => simp [here] at main
  | exited | failed | undefined => simp [here, MainPlace.ended] at alive
  | joining thread =>
    simp only [here] at main
    split at main
    next => cases main
    next still =>
      have blocked := stuck (.thread thread)
      simp only [machine, Incr.step, Incr.threadStep, alive, Bool.false_eq_true, if_false] at blocked
      cases place : state.place thread with
      | unborn =>
        rcases bounded.placed.unborn thread place with awaits | ended
        · rw [here] at awaits
          cases awaits
        · rw [alive] at ended
          cases ended
      | returned => exact still (decide_eq_true place)
      | looping left =>
        cases left with
        | zero | succ left => simp [place] at blocked
      | storing left loc => simp [place] at blocked
      | adding left loc =>
        simp only [place] at blocked
        split at blocked
        next => cases blocked
        next => cases blocked

/-! ### Schedules -/

section Schedules

variable {places : Thread → Place} {left loc : Nat}

theorem loads (thread : Thread) (left : Nat)
    (reached : (machine loops).Reachable ⟨.joining .t1, places, glob⟩)
    (here : places thread = .looping (left + 1)) :
    (machine loops).Reachable
      ⟨.joining .t1, Function.update places thread (.adding left glob), glob⟩ := by
  have taken : (machine loops).step ⟨.joining .t1, places, glob⟩ (.thread thread) =
      some ⟨.joining .t1, Function.update places thread (.adding left glob), glob⟩ := by
    simp [machine, step, threadStep, MainPlace.ended, here]
  exact reached.step taken

theorem computes (thread : Thread)
    (reached : (machine loops).Reachable ⟨.joining .t1, places, glob⟩)
    (here : places thread = .adding left loc) (small : loc < INT_MAX) :
    (machine loops).Reachable
      ⟨.joining .t1, Function.update places thread (.looping left), loc + 1⟩ := by
  have added : (machine loops).step ⟨.joining .t1, places, glob⟩ (.thread thread) =
      some ⟨.joining .t1, Function.update places thread (.storing left (loc + 1)), glob⟩ := by
    simp [machine, step, threadStep, MainPlace.ended, here, small]
  have stored : (machine loops).step
      ⟨.joining .t1, Function.update places thread (.storing left (loc + 1)), glob⟩
      (.thread thread) =
      some ⟨.joining .t1, Function.update places thread (.looping left), loc + 1⟩ := by
    simp [machine, step, threadStep, MainPlace.ended]
  exact (reached.step added).step stored

/-- Iterations of one thread that the other does not disturb. -/
theorem rounds (thread : Thread) (count left : Nat)
    (reached : (machine loops).Reachable ⟨.joining .t1, places, glob⟩)
    (here : places thread = .looping (count + left)) (small : glob + count ≤ INT_MAX) :
    (machine loops).Reachable
      ⟨.joining .t1, Function.update places thread (.looping left), glob + count⟩ := by
  induction count generalizing places glob with
  | zero =>
    rw [Nat.zero_add] at here
    rw [← here, Function.update_eq_self]
    exact reached
  | succ count ih =>
    rw [Nat.succ_add] at here
    have loaded := loads thread (count + left) reached here
    have stored := computes thread loaded (Function.update_self ..) (by omega)
    rw [Function.update_idem] at stored
    have later := ih stored (Function.update_self ..) (by omega)
    rw [Function.update_idem, Nat.add_assoc, Nat.add_comm 1] at later
    exact later

theorem returns (thread : Thread)
    (reached : (machine loops).Reachable ⟨.joining .t1, places, glob⟩)
    (here : places thread = .looping 0) :
    (machine loops).Reachable
      ⟨.joining .t1, Function.update places thread .returned, glob⟩ := by
  have taken : (machine loops).step ⟨.joining .t1, places, glob⟩ (.thread thread) =
      some ⟨.joining .t1, Function.update places thread .returned, glob⟩ := by
    simp [machine, step, threadStep, MainPlace.ended, here]
  exact reached.step taken

/-- The main thread prints what the threads have left in `glob`. -/
theorem prints (reached : (machine loops).Reachable ⟨.joining .t1, places, glob⟩)
    (through : ∀ thread, places thread = .looping 0) :
    ∃ state, (machine loops).Reachable state ∧ state.main = .exited glob := by
  have first := returns .t1 reached (through .t1)
  have both := returns .t2 first
    ((Function.update_of_ne Thread.noConfusion ..).trans (through .t2))
  have joined : (machine loops).exec
      ⟨.joining .t1, Function.update (Function.update places .t1 .returned) .t2 .returned, glob⟩
      [.main, .main, .main] =
      some ⟨.exited glob, Function.update (Function.update places .t1 .returned) .t2 .returned,
        glob⟩ := by
    rfl
  exact ⟨_, Machine.reachable_of_exec both joined, rfl⟩

def pair (first second : Place) : Thread → Place
  | .t1 => first
  | .t2 => second

theorem update_pair_t1 (first second place : Place) :
    Function.update (pair first second) .t1 place = pair place second := by
  funext thread
  cases thread with
  | t1 | t2 => rfl

theorem update_pair_t2 (first second place : Place) :
    Function.update (pair first second) .t2 place = pair first place := by
  funext thread
  cases thread with
  | t1 | t2 => rfl

theorem begun_reachable (loops : Nat) :
    (machine loops).Reachable ⟨.joining .t1, pair (.looping loops) (.looping loops), 0⟩ := by
  have run : (machine loops).exec (machine loops).start [.main, .main] =
      some ⟨.joining .t1, pair (.looping loops) (.looping loops), 0⟩ := by
    rw [← update_pair_t2 (.looping loops) .unborn, ← update_pair_t1 .unborn .unborn]
    have unborn : pair .unborn .unborn = fun _ => Place.unborn := by
      funext thread
      cases thread with
      | t1 | t2 => rfl
    rw [unborn]
    rfl
  exact Machine.reachable_of_exec .start run

/-- One thread loads 0, and stores behind `early` iterations of the other; of its own
iterations `late` come before the other loads again, which then stores behind the last. -/
theorem lost_updates {early late : Nat} (early_lt : early < loops) (late_lt : late < loops)
    (small : loops ≤ INT_MAX) (result : loops + 1 + late - early ≤ INT_MAX) :
    ∃ state, (machine loops).Reachable state ∧
      state.main = .exited (loops + 1 + late - early) := by
  obtain ⟨rest, loops_eq⟩ := Nat.exists_eq_add_of_lt early_lt
  obtain ⟨others, also_eq⟩ := Nat.exists_eq_add_of_lt late_lt
  have begun := begun_reachable loops
  have loaded := loads .t1 (late + others) begun (by rw [pair, also_eq])
  rw [update_pair_t1] at loaded
  have counted := rounds .t2 early (rest + 1) loaded
    (by rw [pair, loops_eq, Nat.add_assoc]) (by omega)
  rw [update_pair_t2] at counted
  have undone := computes .t1 counted rfl (by omega)
  rw [update_pair_t1] at undone
  have again := rounds .t1 late others undone rfl (by omega)
  rw [update_pair_t1] at again
  have seen := loads .t2 rest again rfl
  rw [update_pair_t2] at seen
  have ended := rounds .t1 others 0 seen rfl (by omega)
  rw [update_pair_t1] at ended
  have overwritten := computes .t2 ended rfl (by omega)
  rw [update_pair_t2] at overwritten
  have through := rounds .t2 rest 0 overwritten rfl (by omega)
  rw [update_pair_t2] at through
  have value : loops + 1 + late - early = 0 + 1 + late + 1 + rest := by omega
  rw [value]
  refine prints through fun thread => ?_
  cases thread with
  | t1 | t2 => rfl

/-- Both threads load 0, and both store 1. -/
theorem lost_update : ∃ state, (machine 1).Reachable state ∧ state.main = .exited 1 := by
  have begun := begun_reachable 1
  have first := loads .t1 0 begun rfl
  rw [update_pair_t1] at first
  have second := loads .t2 0 first rfl
  rw [update_pair_t2] at second
  have stored := computes .t1 second rfl (by decide)
  rw [update_pair_t1] at stored
  have also := computes .t2 stored rfl (by decide)
  rw [update_pair_t2] at also
  refine prints also fun thread => ?_
  cases thread with
  | t1 | t2 => rfl

/-- One thread after the other, up to the largest integer and beyond. -/
theorem overflows (small : loops ≤ INT_MAX) (large : INT_MAX < 2 * loops) :
    ∃ state, (machine loops).Reachable state ∧ state.main = .undefined := by
  obtain ⟨rest, loops_eq⟩ := Nat.exists_eq_add_of_lt (show INT_MAX - loops < loops by omega)
  have begun := begun_reachable loops
  have first := rounds .t1 loops 0 begun rfl (by omega)
  rw [update_pair_t1] at first
  have counted := rounds .t2 (INT_MAX - loops) (rest + 1) first
    (congrArg Place.looping loops_eq) (by omega)
  rw [update_pair_t2] at counted
  have largest : 0 + loops + (INT_MAX - loops) = INT_MAX := by omega
  have loaded := loads .t2 rest counted rfl
  rw [update_pair_t2, largest] at loaded
  have taken : (machine loops).step
      ⟨.joining .t1, pair (.looping 0) (.adding rest INT_MAX), INT_MAX⟩ (.thread .t2) =
      some ⟨.undefined, pair (.looping 0) (.adding rest INT_MAX), INT_MAX⟩ := by
    simp [machine, step, threadStep, MainPlace.ended, pair]
  exact ⟨_, loaded.step taken, rfl⟩

end Schedules

/-- Every run ends, and what it can print is exactly what lies between 2, or 1 for a single
iteration, and the sum of both counts; an overflow needs counts that do not fit. -/
theorem incr_prints (some_loops : 0 < loops) (small : loops ≤ INT_MAX) :
    (machine loops).Terminates ∧
    (∀ state, (machine loops).Reachable state → (machine loops).Stuck state →
      state.main.ended = true) ∧
    (∀ printed, (∃ state, (machine loops).Reachable state ∧ state.main = .exited printed) ↔
      min loops 2 ≤ printed ∧ printed ≤ 2 * loops ∧ printed ≤ INT_MAX) ∧
    ((∃ state, (machine loops).Reachable state ∧ state.main = .undefined) ↔
      INT_MAX < 2 * loops) := by
  refine ⟨incr_terminates some_loops, fun state reached => ?_, fun printed => ?_, ?_, ?_⟩
  · exact (bounded_of_reachable some_loops reached).stuck
  · constructor
    · rintro ⟨state, reached, exited⟩
      have bounded := bounded_of_reachable some_loops reached
      obtain ⟨least, most⟩ := bounded.printed exited
      exact ⟨least, most, bounded.placed.printed printed exited ▸ bounded.range⟩
    · rintro ⟨least, most, fits⟩
      by_cases one : printed = 1
      · have single : loops = 1 := by omega
        subst single one
        exact lost_update
      · by_cases below : printed ≤ loops
        · have value : loops + 1 + 0 - (loops + 1 - printed) = printed := by omega
          rw [← value]
          exact lost_updates (by omega) some_loops small (by omega)
        · have value : loops + 1 + (printed - (loops + 1)) - 0 = printed := by omega
          rw [← value]
          exact lost_updates some_loops (by omega) small (by omega)
  · rintro ⟨state, reached, undefined⟩
    exact (bounded_of_reachable some_loops reached).overflow undefined
  · exact overflows small

/-- Twenty million increments of the default loops can leave 2. -/
theorem incr_prints_default :
    ∃ state, (machine 10000000).Reachable state ∧ state.main = .exited 2 :=
  ((incr_prints (by decide) (by decide)).2.2.1 2).mpr ⟨by decide, by decide, by decide⟩

end LinuxProgramming.Threads.Incr
