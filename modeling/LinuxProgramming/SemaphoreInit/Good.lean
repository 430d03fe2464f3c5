import LinuxProgramming.Foundation.Machine
import Mathlib.Algebra.Group.Nat.Defs
import Mathlib.Algebra.Ring.Int.Defs
import Mathlib.Logic.Function.Basic
import Mathlib.Tactic.SplitIfs

/-! Many processes that create and initialise one semaphore among them.

The process that creates the set initialises it and makes a `semop` that changes
nothing but `sem_otime`. The others look at `sem_otime` before they use the set, and
give up if it stays 0 for too long.
-/

set_option autoImplicit false

namespace LinuxProgramming.SemaphoreInit
open Foundation

/-- The largest value of a semaphore. -/
def SEMVMX : Nat := 32767

/-- What `sem_op` holds of an `int`: it is a `short`. -/
def short (value : Int) : Int := value.bmod (2 ^ 16)

/-- One semaphore, and whether a `semop` was made on its set. -/
structure Semid where
  semval : Nat
  sem_otime : Bool
  deriving DecidableEq, Repr

inductive Semop where
  | done (semval : Nat)
  | blocks
  | fails
  deriving DecidableEq, Repr

/-- What `semop` does to a value: 0 waits for the value to be 0, and the value goes
neither below 0 nor above its largest. -/
def semop (semval : Nat) (sem_op : Int) : Semop :=
  if sem_op = 0 then (if semval = 0 then .done semval else .blocks)
  else if semval + sem_op < 0 then .blocks
  else if SEMVMX < semval + sem_op then .fails
  else .done (semval + sem_op).toNat

theorem semop_done {semval after : Nat} {sem_op : Int} (made : semop semval sem_op = .done after) :
    (after : Int) = semval + sem_op := by
  unfold semop at made
  split_ifs at made with none zero least most
  · cases made
    omega
  · cases made
    omega

namespace Good

def MAX_TRIES : Nat := 10

/-- The call that a process makes next; `trying` has looked at `sem_otime` for `count` times. -/
inductive Place where
  | creating
  | setting
  | touching
  | getting
  | trying (count : Nat)
  | operating
  | done
  | failed
  deriving DecidableEq, Repr

/-- `applied` lists the processes whose operation was made; no step depends on it. -/
structure State (Process : Type) where
  place : Process → Place
  semaphore : Option Semid
  applied : List Process

/-- A process can be killed at any place, and so leave a set that it has not initialised. -/
inductive Action (Process : Type) where
  | run (process : Process)
  | kill (process : Process)
  deriving DecidableEq

section Program

variable {Process : Type} [DecidableEq Process]

def State.goto (state : State Process) (process : Process) (place : Place) : State Process :=
  { state with place := Function.update state.place process place }

/-- The last operation. -/
def operate (state : State Process) (process : Process) (sem_op : Int) : Option (State Process) :=
  match state.semaphore with
  | none => some (state.goto process .failed)
  | some semaphore =>
    match semop semaphore.semval sem_op with
    | .done semval => some { state.goto process .done with
        semaphore := some ⟨semval, true⟩, applied := process :: state.applied }
    | .blocks => none
    | .fails => some (state.goto process .failed)

/-- `fresh` is the value of a new semaphore, which POSIX leaves open. -/
def run (sem_op : Process → Int) (fresh : Nat) (state : State Process) (process : Process) :
    Option (State Process) :=
  match state.place process with
  | .creating =>
    match state.semaphore with
    | none => some { state.goto process .setting with semaphore := some ⟨fresh, false⟩ }
    | some _ => some (state.goto process .getting)
  | .setting => some { state.goto process .touching with
      semaphore := state.semaphore.map fun semaphore => { semaphore with semval := 0 } }
  | .touching =>
    match state.semaphore with
    | none => some (state.goto process .failed)
    | some semaphore =>
      match semop semaphore.semval 0 with
      | .done semval => some { state.goto process .operating with semaphore := some ⟨semval, true⟩ }
      | .blocks => none
      | .fails => some (state.goto process .failed)
  | .getting =>
    some (state.goto process (if state.semaphore.isSome then .trying 0 else .failed))
  | .trying count =>
    if count < MAX_TRIES then
      match state.semaphore with
      | none => some (state.goto process .failed)
      | some semaphore =>
        some (state.goto process (if semaphore.sem_otime then .operating else .trying (count + 1)))
    else some (state.goto process .failed)
  | .operating => operate state process (sem_op process)
  | .done | .failed => none

def step (sem_op : Process → Int) (fresh : Nat) (state : State Process) :
    Action Process → Option (State Process)
  | .run process => run sem_op fresh state process
  | .kill process =>
    if state.place process = .done ∨ state.place process = .failed then none
    else some (state.goto process .failed)

/-- The operation that a process is asked for by its argument. -/
def sops (argument : Process → Int) (process : Process) : Int := short (argument process)

/-- A set can be left from earlier processes, with or without its initialisation. -/
def machine (argument : Process → Int) (fresh : Nat) (left : Option Semid) :
    Machine (State Process) (Action Process) where
  start := ⟨fun _ => .creating, left, []⟩
  step := step (sops argument) fresh

/-- The value that the operations start from. -/
def base : Option Semid → Nat
  | some ⟨semval, true⟩ => semval
  | _ => 0

/-- The process uses the set as one that is initialised. -/
def Place.uses : Place → Bool
  | .operating | .done => true
  | _ => false

/-- The process is to initialise the set. -/
def Place.creator : Place → Bool
  | .setting | .touching => true
  | _ => false

/-- Before there is a set, nobody is past its creation; until it is initialised at most
one process works on it; and from then on its value is the sum of all operations. -/
inductive Phase (sem_op : Process → Int) (left : Option Semid) (state : State Process) : Prop where
  | absent : state.semaphore = none → state.applied = [] → base left = 0 →
      (∀ process, state.place process = .creating ∨ state.place process = .failed) →
      Phase sem_op left state
  | unset (semval : Nat) : state.semaphore = some ⟨semval, false⟩ → state.applied = [] →
      base left = 0 → (∀ process, (state.place process).uses = false) →
      (∀ first second, (state.place first).creator = true → (state.place second).creator = true →
        first = second) →
      (∀ process, state.place process = .touching → semval = 0) → Phase sem_op left state
  | set (semval : Nat) : state.semaphore = some ⟨semval, true⟩ →
      (∀ process, (state.place process).creator = false) → state.applied.Nodup →
      (∀ process, process ∈ state.applied ↔ state.place process = .done) →
      (semval : Int) = base left + (state.applied.map sem_op).sum → Phase sem_op left state

variable {sem_op argument : Process → Int} {fresh : Nat} {left : Option Semid} {state next : State Process}
  {process : Process} {place : Place}

theorem goto_place (state : State Process) (process other : Process) (place : Place) :
    (state.goto process place).place other = if other = process then place else state.place other :=
  Function.update_apply ..

/-- A process that neither uses the set nor works on it may go anywhere of this kind. -/
theorem Phase.idle (phase : Phase sem_op left state) (present : state.semaphore.isSome = true)
    (undone : state.place process ≠ .done) (quiet : place.uses = false)
    (outside : place.creator = false) : Phase sem_op left (state.goto process place) := by
  have creators : ∀ other, ((state.goto process place).place other).creator = true →
      (state.place other).creator = true := by
    intro other works
    rw [goto_place] at works
    split at works
    · rw [outside] at works
      cases works
    · exact works
  cases phase with
  | absent absent => simp [absent] at present
  | unset semval semaphore none start unused single zero =>
    refine .unset semval semaphore none start (fun other => ?_) (fun first second one two =>
      single first second (creators first one) (creators second two)) fun other touching => ?_
    · rw [goto_place]
      split
      · exact quiet
      · exact unused other
    · rw [goto_place] at touching
      split at touching
      · rw [touching] at outside
        cases outside
      · exact zero other touching
  | set semval semaphore none distinct applied sum =>
    refine .set semval semaphore (fun other => ?_) distinct (fun other => ?_) sum
    · rw [goto_place]
      split
      · exact outside
      · exact none other
    · rw [goto_place]
      split
      next same =>
        subst same
        refine iff_of_false (fun member => undone ((applied other).mp member)) ?_
        rintro rfl
        cases quiet
      next => exact applied other

theorem Phase.kill (phase : Phase sem_op left state) (undone : state.place process ≠ .done) :
    Phase sem_op left (state.goto process .failed) := by
  cases semaphore : state.semaphore with
  | some _ => exact phase.idle (by rw [semaphore]; rfl) undone rfl rfl
  | none =>
    cases phase with
    | absent absent none start places =>
      refine .absent absent none start fun other => ?_
      rw [goto_place]
      split
      · exact .inr rfl
      · exact places other
    | unset semval present => cases semaphore.symm.trans present
    | set semval present => cases semaphore.symm.trans present

/-- The set is made by the first process that comes, and only by it. -/
theorem Phase.create (phase : Phase sem_op left state) (fresh : Nat)
    (absent : state.semaphore = none) : Phase sem_op left
      { state.goto process .setting with semaphore := some ⟨fresh, false⟩ } := by
  cases phase with
  | unset semval present => cases absent.symm.trans present
  | set semval present => cases absent.symm.trans present
  | absent _ none start places =>
    have outside : ∀ other, other ≠ process → (state.place other).creator = false ∧
        (state.place other).uses = false ∧ state.place other ≠ .touching := by
      intro other _
      rcases places other with place | place <;> simp [place, Place.creator, Place.uses]
    refine .unset fresh rfl none start (fun other => ?_) (fun first second one two => ?_)
      fun other touching => ?_
    · simp only [goto_place]
      split
      · rfl
      next different => exact (outside other different).2.1
    · have single : ∀ other, ((state.goto process .setting).place other).creator = true →
          other = process := by
        intro other works
        by_contra different
        rw [goto_place, if_neg different, (outside other different).1] at works
        cases works
      rw [single first one, single second two]
    · simp only [goto_place] at touching
      split at touching
      · cases touching
      next different => exact absurd touching (outside other different).2.2

omit [DecidableEq Process] in
/-- While a process initialises the set, nobody has used it. -/
theorem Phase.creating (phase : Phase sem_op left state)
    (works : (state.place process).creator = true) :
    ∃ semval, state.semaphore = some ⟨semval, false⟩ ∧ state.applied = [] ∧ base left = 0 ∧
      (∀ other, (state.place other).uses = false) ∧
      (∀ other, (state.place other).creator = true → other = process) ∧
      (state.place process = .touching → semval = 0) := by
  cases phase with
  | absent _ _ _ places =>
    rcases places process with place | place <;> simp [place, Place.creator] at works
  | unset semval semaphore none start unused single zero =>
    exact ⟨semval, semaphore, none, start, unused, fun other too => single other process too works,
      zero process⟩
  | set _ _ none => simp [none process] at works

theorem Phase.setting (phase : Phase sem_op left state) (here : state.place process = .setting) :
    Phase sem_op left { state.goto process .touching with
      semaphore := state.semaphore.map fun semaphore => { semaphore with semval := 0 } } := by
  obtain ⟨semval, semaphore, none, start, unused, single, _⟩ := phase.creating (by rw [here]; rfl)
  refine .unset 0 (by rw [semaphore]; rfl) none start (fun other => ?_)
    (fun first second one two => ?_) fun _ _ => rfl
  · simp only [goto_place]
    split
    · rfl
    · exact unused other
  · have only : ∀ other, ((state.goto process .touching).place other).creator = true →
        other = process := by
      intro other works
      rw [goto_place] at works
      split at works
      next same => exact same
      next => exact single other works
    rw [only first one, only second two]

/-- The value is 0 when the process waits for it to be 0, so it does not wait. -/
theorem Phase.touching (phase : Phase sem_op left state) (fresh : Nat)
    (here : state.place process = .touching) :
    ∃ touched, run sem_op fresh state process = some touched ∧ Phase sem_op left touched := by
  obtain ⟨semval, semaphore, none, start, unused, single, zero⟩ :=
    phase.creating (by rw [here]; rfl)
  obtain rfl := zero here
  refine ⟨_, by simp only [run, here, semaphore]; rfl, ?_⟩
  refine .set 0 rfl (fun other => ?_) (by simp [none, State.goto]) (fun other => ?_)
    (by simp [none, start, State.goto])
  · simp only [goto_place]
    split
    · rfl
    next different =>
      by_contra works
      exact different (single other (by simpa using works))
  · have nobody : (state.goto process .operating).place other ≠ .done := by
      rw [goto_place]
      split
      · exact Place.noConfusion
      · intro done
        have unused := unused other
        rw [done] at unused
        cases unused
    exact iff_of_false (by simp [none, State.goto]) nobody

/-- An operation on the initialised set is counted once. -/
theorem Phase.operating (phase : Phase sem_op left state) (here : state.place process = .operating)
    (made : operate state process (sem_op process) = some next) : Phase sem_op left next := by
  cases phase with
  | absent _ _ _ places =>
    rcases places process with place | place <;> cases here.symm.trans place
  | unset _ _ _ _ unused =>
    have unused := unused process
    rw [here] at unused
    cases unused
  | set semval semaphore none distinct applied sum =>
    have phase : Phase sem_op left state := .set semval semaphore none distinct applied sum
    simp only [operate, semaphore] at made
    split at made
    next after done =>
      obtain rfl := Option.some.inj made
      have fresh : process ∉ state.applied := by
        intro member
        cases here.symm.trans ((applied process).mp member)
      refine .set after rfl (fun other => ?_) (List.nodup_cons.mpr ⟨fresh, distinct⟩)
        (fun other => ?_) ?_
      · simp only [goto_place]
        split
        · rfl
        · exact none other
      · simp only [goto_place, List.mem_cons]
        split
        next same => exact iff_of_true (.inl same) rfl
        next different => rw [or_iff_right different, applied other]
      · have value := semop_done done
        rw [List.map_cons, List.sum_cons]
        omega
    next => cases made
    next =>
      obtain rfl := Option.some.inj made
      exact phase.kill (by simp [here])

omit [DecidableEq Process] in
theorem Phase.present (phase : Phase sem_op left state) (process : Process)
    (begun : state.place process ≠ .creating) (running : state.place process ≠ .failed) :
    ∃ semaphore, state.semaphore = some semaphore := by
  cases phase with
  | absent _ _ _ places => exact absurd (places process) (by simp [begun, running])
  | unset semval present => exact ⟨_, present⟩
  | set semval present => exact ⟨_, present⟩

/-- A process uses the set once it has seen that it is initialised. -/
theorem Phase.enter (phase : Phase sem_op left state) {semval : Nat}
    (initialised : state.semaphore = some ⟨semval, true⟩) (undone : state.place process ≠ .done) :
    Phase sem_op left (state.goto process .operating) := by
  cases phase with
  | absent absent => cases absent.symm.trans initialised
  | unset _ unset => cases unset.symm.trans initialised
  | set semval semaphore none distinct applied sum =>
    refine .set semval semaphore (fun other => ?_) distinct (fun other => ?_) sum
    · rw [goto_place]
      split
      · rfl
      · exact none other
    · rw [goto_place]
      split
      next same =>
        subst same
        exact iff_of_false (fun member => undone ((applied other).mp member)) Place.noConfusion
      next => exact applied other

theorem Phase.trying (phase : Phase sem_op left state) {count : Nat}
    (here : state.place process = .trying count) (taken : run sem_op fresh state process = some next) :
    Phase sem_op left next := by
  have undone : state.place process ≠ .done := by simp [here]
  obtain ⟨⟨semval, sem_otime⟩, present⟩ := phase.present process (by simp [here]) (by simp [here])
  simp only [run, here, present] at taken
  split at taken
  · obtain rfl := Option.some.inj taken
    cases sem_otime with
    | true => exact phase.enter present undone
    | false => exact phase.idle (by rw [present]; rfl) undone rfl rfl
  · obtain rfl := Option.some.inj taken
    exact phase.kill undone

theorem phase_step {action : Action Process} (phase : Phase sem_op left state)
    (taken : step sem_op fresh state action = some next) : Phase sem_op left next := by
  cases action with
  | kill process =>
    obtain ⟨running, same⟩ := Option.ite_none_left_eq_some.mp taken
    obtain rfl := Option.some.inj same
    exact phase.kill fun done => running (.inl done)
  | run process =>
    change run sem_op fresh state process = some next at taken
    cases here : state.place process with
    | creating =>
      cases semaphore : state.semaphore with
      | none =>
        simp only [run, here, semaphore] at taken
        obtain rfl := Option.some.inj taken
        exact phase.create fresh semaphore
      | some _ =>
        simp only [run, here, semaphore] at taken
        obtain rfl := Option.some.inj taken
        exact phase.idle (by rw [semaphore]; rfl) (by simp [here]) rfl rfl
    | setting =>
      simp only [run, here] at taken
      obtain rfl := Option.some.inj taken
      exact phase.setting here
    | touching =>
      obtain ⟨touched, same, after⟩ := phase.touching fresh here
      cases taken.symm.trans same
      exact after
    | getting =>
      obtain ⟨semaphore, present⟩ := phase.present process (by simp [here]) (by simp [here])
      simp only [run, here, present, Option.isSome_some, if_true] at taken
      obtain rfl := Option.some.inj taken
      exact phase.idle (by rw [present]; rfl) (by simp [here]) rfl rfl
    | trying count => exact phase.trying here taken
    | operating =>
      simp only [run, here] at taken
      exact phase.operating here taken
    | done => simp [run, here] at taken
    | failed => simp [run, here] at taken

theorem phase_start (argument : Process → Int) (fresh : Nat) (left : Option Semid) :
    Phase (sops argument) left (machine argument fresh left).start := by
  cases left with
  | none => exact .absent rfl rfl rfl fun _ => .inl rfl
  | some semaphore =>
    obtain ⟨semval, sem_otime⟩ := semaphore
    cases sem_otime with
    | false =>
      refine .unset semval rfl rfl rfl (fun _ => rfl) (fun _ _ works => ?_) fun _ touching => ?_
      · cases works
      · cases touching
    | true =>
      exact .set semval rfl (fun _ => rfl) List.nodup_nil (by simp [machine]) (by simp [machine, base])

theorem phase_reachable (reached : (machine argument fresh left).Reachable state) :
    Phase (sops argument) left state :=
  Machine.invariant (phase_start argument fresh left) (fun phase taken => phase_step phase taken) reached

/-- The process waits for the value of the semaphore to admit its operation. -/
def Waits (sem_op : Process → Int) (state : State Process) (process : Process) : Prop :=
  state.place process = .operating ∧
    ∃ semval, state.semaphore = some ⟨semval, true⟩ ∧ semop semval (sem_op process) = .blocks

theorem run_enabled (phase : Phase sem_op left state)
    (stuck : run sem_op fresh state process = none) : state.place process = .done ∨
      state.place process = .failed ∨ Waits sem_op state process := by
  cases here : state.place process with
  | creating => cases semaphore : state.semaphore <;> simp [run, here, semaphore] at stuck
  | setting => simp [run, here] at stuck
  | touching =>
    obtain ⟨touched, taken, _⟩ := phase.touching fresh here
    cases stuck.symm.trans taken
  | getting => simp [run, here] at stuck
  | trying count =>
    simp only [run, here] at stuck
    split_ifs at stuck
    cases semaphore : state.semaphore <;> simp [semaphore] at stuck
  | operating =>
    refine .inr (.inr ⟨here, ?_⟩)
    cases phase with
    | absent _ _ _ places =>
      rcases places process with place | place <;> cases here.symm.trans place
    | unset _ _ _ _ unused =>
      have unused := unused process
      rw [here] at unused
      cases unused
    | set semval semaphore =>
      refine ⟨semval, semaphore, ?_⟩
      simp only [run, here, operate, semaphore] at stuck
      split at stuck
      next => cases stuck
      next blocks => exact blocks
      next => cases stuck
  | done => exact .inl rfl
  | failed => exact .inr (.inl rfl)

/-- No operation is made before the set is initialised, and none is lost: the value is that
of all operations together, each process making its own once. The process that
initialises the set is never blocked, and a process that cannot go on has ended or waits
for the value that its own operation needs. -/
theorem good_init (reached : (machine argument fresh left).Reachable state) :
    (∀ process, (state.place process).uses = true →
      ∃ semval, state.semaphore = some ⟨semval, true⟩) ∧
    state.applied.Nodup ∧ (∀ process, process ∈ state.applied ↔ state.place process = .done) ∧
    (∀ semval, state.semaphore = some ⟨semval, true⟩ →
      (semval : Int) = base left + (state.applied.map (sops argument)).sum) ∧
    (∀ process, (state.place process).creator = true →
      (run (sops argument) fresh state process).isSome = true) ∧
    (∀ process, run (sops argument) fresh state process = none →
      state.place process = .done ∨ state.place process = .failed ∨
        Waits (sops argument) state process) := by
  have phase := phase_reachable reached
  have works : ∀ process, (state.place process).creator = true →
      (run (sops argument) fresh state process).isSome = true := by
    intro process works
    cases here : state.place process with
    | setting => simp [run, here]
    | touching =>
      obtain ⟨touched, taken, _⟩ := phase.touching fresh here
      rw [taken]
      rfl
    | _ => simp [here, Place.creator] at works
  refine ⟨fun process uses => ?_, ?_, fun process => ?_, fun semval present => ?_, works,
    fun process => run_enabled phase⟩
  · cases phase with
    | absent _ _ _ places =>
      rcases places process with place | place <;> simp [place, Place.uses] at uses
    | unset _ _ _ _ unused => simp [unused process] at uses
    | set semval semaphore => exact ⟨semval, semaphore⟩
  · cases phase with
    | absent _ none => exact none ▸ List.nodup_nil
    | unset _ _ none => exact none ▸ List.nodup_nil
    | set _ _ _ distinct => exact distinct
  · cases phase with
    | absent _ none _ places =>
      rcases places process with place | place <;> simp [none, place]
    | unset _ _ none _ unused =>
      refine iff_of_false (by simp [none]) fun done => ?_
      have unused := unused process
      rw [done] at unused
      cases unused
    | set _ _ _ _ applied => exact applied process
  · cases phase with
    | absent absent => cases absent.symm.trans present
    | unset _ unset => cases unset.symm.trans present
    | set _ semaphore _ _ _ sum =>
      cases semaphore.symm.trans present
      exact sum

end Program

/-- Two processes, of which one adds 2, what a `short` has of its argument, and the other
takes 1. -/
def opOf : Bool → Int
  | true => 65538
  | false => -1

/-- The second process is early, and waits for the first. -/
def early : List (Action Bool) :=
  [.run true, .run false, .run false, .run false, .run true, .run false, .run true, .run false,
    .run true, .run false]

theorem early_runs : ((machine opOf 7 none).exec (machine opOf 7 none).start early).map
    (fun state => (state.semaphore, state.applied)) = some (some ⟨1, true⟩, [false, true]) := by
  decide

theorem good_init_early : ∃ state, (machine opOf 7 none).Reachable state ∧
    state.place true = .done ∧ state.place false = .done := by
  obtain ⟨state, reached, facts⟩ := Machine.exists_reachable early_runs
  obtain ⟨semaphore, applied⟩ := Prod.mk.inj facts
  have done := (good_init reached).2.2.1
  exact ⟨state, reached, (done true).mp (by simp [applied]), (done false).mp (by simp [applied])⟩

end Good

end LinuxProgramming.SemaphoreInit
