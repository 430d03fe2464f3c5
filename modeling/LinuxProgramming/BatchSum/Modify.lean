import LinuxProgramming.Foundation.Machine

/-! The parent that has its children add up the elements of an array, batch by batch.

A batch is announced by one signal and acknowledged by another. The parent has no
handler for the acknowledgement. All its batches are within the first round of the loop
that forks, and this round returns.
-/

set_option autoImplicit false

namespace LinuxProgramming.BatchSum
open Foundation

structure Data where
  seg : Nat
  data : Int
  deriving DecidableEq, Repr

/-- The arguments of the program, the results of `rand`, and what is in memory that the
program does not write: the array `data`, and whom the other `pids` name. After stores
behind the array, `data` has the values `overflow`, if the program goes on at all. -/
structure Run where
  n : Nat
  k : Nat
  data_num : Nat
  rand : Nat → Nat
  memory : Nat → Data
  overflow : Option (Nat → Data)
  strays : Nat → List (Option Nat)

/-- The array has `k` elements, and `data_num` are stored. -/
def generator (run : Run) : Option (Nat → Data) :=
  if run.data_num ≤ run.k then
    some fun i => if i < run.data_num then ⟨i, run.rand i % 9 + 1⟩ else run.memory i
  else run.overflow

/-- The statement of a process that comes next. In `calling` it has seen that `received`
is not set, and in `paused` it is in `pause`. -/
inductive Wait where
  | testing
  | calling
  | paused
  deriving DecidableEq, Repr

inductive ParentPlace where
  | undefined
  | forking
  | failed
  | outer
  | copying (j : Nat)
  | killing (i : Nat)
  | waiting (i : Nat) (wait : Wait)
  | adding (i : Nat) (sum : Int)
  | returned (sum : Option Int)
  | killed
  deriving DecidableEq, Repr

inductive ChildPlace where
  | unborn
  | outer
  | waiting (wait : Wait)
  | adding (j : Nat)
  | resetting
  | acknowledging
  | exited
  deriving DecidableEq, Repr

/-- `added` has the elements that the child has added. -/
structure Child where
  place : ChildPlace
  count : Nat
  received : Bool
  child_sum : Int
  usr1 : Bool
  added : List Nat

/-- `usr1` and `usr2` are the signals that are pending for the parent. -/
structure State where
  parent : ParentPlace
  count : Nat
  received : Bool
  usr1 : Bool
  usr2 : Bool
  data : Nat → Data
  shared_data : Nat → Data
  child : Nat → Child

inductive Action where
  | forkFails
  | parent
  | child (i : Nat)
  | deliver (i : Nat)
  | deliverUsr1
  | deliverUsr2
  deriving DecidableEq, Repr

def ParentPlace.alive : ParentPlace → Bool
  | .undefined | .failed | .returned _ | .killed => false
  | .forking | .outer | .copying _ | .killing _ | .waiting _ _ | .adding _ _ => true

def ChildPlace.alive : ChildPlace → Bool
  | .unborn | .exited => false
  | .outer | .waiting _ | .adding _ | .resetting | .acknowledging => true

/-- SIGUSR1 is sent to one process: a child, or the parent itself. -/
def State.kill (state : State) : Option Nat → State
  | none => { state with usr1 := true }
  | some i =>
    if (state.child i).place.alive then
      { state with child := Function.update state.child i { state.child i with usr1 := true } }
    else state

/-- `while (!received) pause();`, up to the next statement. -/
def Wait.next (received : Bool) : Wait → Option (Option Wait)
  | .testing => if received then some none else some (some .calling)
  | .calling => some (some .paused)
  | .paused => none

/-- What a handler does to the wait that it interrupts. -/
def Wait.interrupted : Wait → Wait
  | .paused => .testing
  | .testing => .testing
  | .calling => .calling

/-- The next statement of the parent. -/
def parentStep (run : Run) (state : State) : Option State :=
  match state.parent with
  | .forking =>
    -- The round of the loop over `i` returns, so it is the only one and the child is child 0.
    if 0 < run.n then
      some { state with
        parent := .outer
        child := Function.update state.child 0
          { place := .outer, count := state.count, received := state.received,
            child_sum := 0, usr1 := false, added := [] } }
    else some { state with parent := .returned none }
  | .outer =>
    some { state with parent := if state.count < run.data_num then .copying 0 else .adding 0 0 }
  | .copying j =>
    if j < run.k ∧ state.count < run.data_num then
      some { state with
        parent := .copying (j + 1)
        count := state.count + 1
        shared_data := Function.update state.shared_data j (state.data state.count) }
    else some { state with parent := .killing 0 }
  | .killing i =>
    if i < run.n then
      -- Of `pids` only the first one has been stored.
      let named := if i = 0 then [some 0] else run.strays i
      some { named.foldl State.kill state with parent := .killing (i + 1) }
    else some { state with parent := .waiting 0 .testing }
  | .waiting i wait =>
    if i < run.n then
      match wait.next state.received with
      | none => none
      | some none => some { state with parent := .waiting (i + 1) .testing, received := false }
      | some (some wait) => some { state with parent := .waiting i wait }
    else some { state with parent := .outer }
  | .adding i sum =>
    if i < run.k then some { state with parent := .adding (i + 1) (sum + (state.data i).data) }
    else some { state with parent := .returned (some sum) }
  | .undefined | .failed | .returned _ | .killed => none

/-- The next statement of a child, which has its own `count`. -/
def childStep (run : Run) (state : State) (i : Nat) : Option State :=
  let child := state.child i
  let goes (child : Child) : Option State :=
    some { state with child := Function.update state.child i child }
  match child.place with
  | .outer =>
    goes { child with place := if child.count < run.data_num then .waiting .testing else .exited }
  | .waiting wait =>
    match wait.next child.received with
    | none => none
    | some none => goes { child with place := .adding 0 }
    | some (some wait) => goes { child with place := .waiting wait }
  | .adding j =>
    if j < run.k ∧ j < run.data_num then
      goes { child with
        place := .adding (j + 1)
        child_sum := child.child_sum + (state.shared_data j).data
        added := child.added ++ [(state.shared_data j).seg] }
    else goes { child with place := .resetting }
  | .resetting => goes { child with place := .acknowledging, received := false }
  | .acknowledging =>
    -- If the parent has ended, the signal goes to a process that is not the program's.
    some { state with
      usr2 := state.usr2 || state.parent.alive
      child := Function.update state.child i { child with place := .outer } }
  | .unborn | .exited => none

/-- The handler of a child runs. -/
def deliver (state : State) (i : Nat) : Option State :=
  let child := state.child i
  if child.usr1 ∧ child.place.alive then
    let place := match child.place with
      | .waiting wait => .waiting wait.interrupted
      | place => place
    some { state with
      child := Function.update state.child i
        { child with place := place, received := true, usr1 := false } }
  else none

def step (run : Run) (state : State) : Action → Option State
  | .forkFails =>
    if state.parent = .forking ∧ 0 < run.n then some { state with parent := .failed } else none
  | .parent => parentStep run state
  | .child i => childStep run state i
  | .deliver i => deliver state i
  | .deliverUsr1 =>
    if state.usr1 ∧ state.parent.alive then
      let parent := match state.parent with
        | .waiting i wait => .waiting i wait.interrupted
        | place => place
      some { state with parent := parent, received := true, usr1 := false }
    else none
  | .deliverUsr2 =>
    -- There is no handler for this one.
    if state.usr2 ∧ state.parent.alive then
      some { state with parent := .killed, usr2 := false }
    else none

/-- The file is empty and mapped with zeros. -/
def machine (run : Run) : Machine State Action where
  start :=
    { parent := if (generator run).isSome then .forking else .undefined
      count := 0
      received := false
      usr1 := false
      usr2 := false
      data := (generator run).getD run.memory
      shared_data := fun _ => ⟨0, 0⟩
      child := fun _ => ⟨.unborn, 0, false, 0, false, []⟩ }
  step := step run

/-- The sum of the first elements. -/
def total (data : Nat → Data) : Nat → Int
  | 0 => 0
  | count + 1 => total data count + (data count).data

/-- What the protocol promises, unless no child could be made. The parent prints what it
returns. -/
structure Correct (run : Run) : Prop where
  awake : ∀ state, (machine run).Reachable state → ∀ i < run.n,
    ¬ ((state.child i).place = .waiting .paused ∧ (state.child i).received = true)
  alive : ∀ state, (machine run).Reachable state → state.parent ≠ .killed
  once : ∀ state, (machine run).Reachable state → (machine run).Stuck state →
    state.parent ≠ .failed → ∀ i < run.n,
      (state.child i).added.Perm (List.range run.data_num)
  sums : ∀ state, (machine run).Reachable state → (machine run).Stuck state →
    state.parent ≠ .failed → ∀ i < run.n,
      state.parent = .returned (some (state.child i).child_sum) ∧
        (state.child i).child_sum = total state.data run.data_num

/-- The parent copies its first batch, and the child has not begun. -/
structure Copying (j : Nat) (state : State) : Prop where
  parent : state.parent = .copying j
  count : state.count = j
  place : (state.child 0).place = .outer
  own_count : (state.child 0).count = 0
  received : (state.child 0).received = false

/-- The parent has announced the batch to the child, which has not begun. -/
structure Announced (state : State) : Prop where
  parent : state.parent = .killing 1
  place : (state.child 0).place = .outer
  own_count : (state.child 0).count = 0
  received : (state.child 0).received = false
  usr1 : (state.child 0).usr1 = true

variable {run : Run}

/-- How many elements there are in the first batch. -/
def batch (run : Run) : Nat := min run.k run.data_num

/-- The parent comes to copy the whole batch. -/
theorem copying (some_child : 0 < run.n) (some_data : 0 < run.data_num)
    (started : (generator run).isSome = true) {j : Nat} (inside : j ≤ batch run) :
    ∃ state, (machine run).Reachable state ∧ Copying j state := by
  induction j with
  | zero =>
    have runs : ((machine run).exec (machine run).start [.parent, .parent]).map
        (fun state => (state.parent, state.count, (state.child 0).place, (state.child 0).count,
          (state.child 0).received)) = some (.copying 0, 0, .outer, 0, false) := by
      simp [Machine.exec, machine, step, parentStep, started, some_child, some_data]
    obtain ⟨state, reached, facts⟩ := Machine.exists_reachable runs
    simp only [Prod.mk.injEq] at facts
    obtain ⟨parent, count, place, own_count, received⟩ := facts
    exact ⟨state, reached, parent, count, place, own_count, received⟩
  | succ j ih =>
    obtain ⟨state, reached, copies⟩ := ih (Nat.le_of_succ_le inside)
    have more : j < run.k ∧ state.count < run.data_num := by
      rw [copies.count]
      exact Nat.lt_min.mp inside
    have taken : (machine run).step state .parent = some { state with
        parent := .copying (j + 1)
        count := state.count + 1
        shared_data := Function.update state.shared_data j (state.data state.count) } := by
      simp only [machine, step, parentStep, copies.parent]
      rw [if_pos more]
    exact ⟨_, reached.step taken, rfl, congrArg Nat.succ copies.count, copies.place,
      copies.own_count, copies.received⟩

theorem announced (some_child : 0 < run.n) (some_data : 0 < run.data_num)
    (started : (generator run).isSome = true) :
    ∃ state, (machine run).Reachable state ∧ Announced state := by
  obtain ⟨state, reached, copies⟩ := copying some_child some_data started (Nat.le_refl (batch run))
  have whole : ¬ (batch run < run.k ∧ batch run < run.data_num) :=
    fun more => Nat.lt_irrefl _ (Nat.lt_min.mpr more)
  have runs : ((machine run).exec state [.parent, .parent]).map
      (fun state => (state.parent, (state.child 0).place, (state.child 0).count,
        (state.child 0).received, (state.child 0).usr1)) =
          some (.killing 1, .outer, 0, false, true) := by
    simp [Machine.exec, machine, step, parentStep, State.kill, ChildPlace.alive, copies.parent,
      copies.count, copies.place, copies.own_count, copies.received, some_child, whole]
  obtain ⟨next, exec, facts⟩ := Option.map_eq_some_iff.mp runs
  simp only [Prod.mk.injEq] at facts
  obtain ⟨parent, place, own_count, received, usr1⟩ := facts
  exact ⟨next, Machine.reachable_of_exec reached exec, parent, place, own_count, received, usr1⟩

/-- The signal comes between the test of the child and its `pause`. -/
theorem wakeup_lost (some_child : 0 < run.n) (some_data : 0 < run.data_num)
    (started : (generator run).isSome = true) :
    ∃ state, (machine run).Reachable state ∧ (state.child 0).place = .waiting .paused ∧
      (state.child 0).received = true := by
  obtain ⟨state, reached, told⟩ := announced some_child some_data started
  have runs : ((machine run).exec state [.child 0, .child 0, .deliver 0, .child 0]).map
      (fun state => ((state.child 0).place, (state.child 0).received)) =
        some (.waiting .paused, true) := by
    simp [Machine.exec, machine, step, childStep, deliver, Wait.next, Wait.interrupted,
      ChildPlace.alive, told.place, told.own_count, told.received, told.usr1, some_data]
  obtain ⟨next, exec, facts⟩ := Option.map_eq_some_iff.mp runs
  simp only [Prod.mk.injEq] at facts
  exact ⟨next, Machine.reachable_of_exec reached exec, facts⟩

/-- The child adds up the batch. -/
theorem adding (some_child : 0 < run.n) (some_data : 0 < run.data_num)
    (started : (generator run).isSome = true) {j : Nat} (inside : j ≤ batch run) :
    ∃ state, (machine run).Reachable state ∧ state.parent = .killing 1 ∧
      (state.child 0).place = .adding j := by
  induction j with
  | zero =>
    obtain ⟨state, reached, told⟩ := announced some_child some_data started
    have runs : ((machine run).exec state [.deliver 0, .child 0, .child 0]).map
        (fun state => (state.parent, (state.child 0).place)) = some (.killing 1, .adding 0) := by
      simp [Machine.exec, machine, step, childStep, deliver, Wait.next, ChildPlace.alive,
        told.parent, told.place, told.own_count, told.usr1, some_data]
    obtain ⟨next, exec, facts⟩ := Option.map_eq_some_iff.mp runs
    simp only [Prod.mk.injEq] at facts
    exact ⟨next, Machine.reachable_of_exec reached exec, facts⟩
  | succ j ih =>
    obtain ⟨state, reached, parent, place⟩ := ih (Nat.le_of_succ_le inside)
    have more : j < run.k ∧ j < run.data_num := Nat.lt_min.mp inside
    have runs : ((machine run).exec state [.child 0]).map
        (fun state => (state.parent, (state.child 0).place)) =
          some (.killing 1, .adding (j + 1)) := by
      simp [Machine.exec, machine, step, childStep, parent, place, more]
    obtain ⟨next, exec, facts⟩ := Option.map_eq_some_iff.mp runs
    simp only [Prod.mk.injEq] at facts
    exact ⟨next, Machine.reachable_of_exec reached exec, facts⟩

/-- The first acknowledgement ends the parent. -/
theorem parent_killed (some_child : 0 < run.n) (some_data : 0 < run.data_num)
    (started : (generator run).isSome = true) :
    ∃ state, (machine run).Reachable state ∧ state.parent = .killed := by
  obtain ⟨state, reached, parent, place⟩ :=
    adding some_child some_data started (Nat.le_refl (batch run))
  have whole : ¬ (batch run < run.k ∧ batch run < run.data_num) :=
    fun more => Nat.lt_irrefl _ (Nat.lt_min.mpr more)
  have runs : ((machine run).exec state [.child 0, .child 0, .child 0, .deliverUsr2]).map
      State.parent = some .killed := by
    simp [Machine.exec, machine, step, childStep, ParentPlace.alive, parent, place, whole]
  obtain ⟨next, exec, facts⟩ := Option.map_eq_some_iff.mp runs
  exact ⟨next, Machine.reachable_of_exec reached exec, facts⟩

/-- Where the stores behind the array end the program, they do so from the start. -/
theorem undefined_start (ended : generator run = none) :
    (machine run).start.parent = .undefined ∧ (machine run).Stuck (machine run).start := by
  refine ⟨by simp [machine, ended], fun action => ?_⟩
  cases action <;>
    simp [machine, ended, step, parentStep, childStep, deliver, ParentPlace.alive]

/-- The protocol keeps its promise for no arguments. -/
theorem never_correct (some_child : 1 ≤ run.n) (some_data : 1 ≤ run.data_num) : ¬ Correct run := by
  intro correct
  cases stored : generator run with
  | none =>
    obtain ⟨undefined, stuck⟩ := undefined_start stored
    have unfailed : (machine run).start.parent ≠ .failed := by
      rw [undefined]
      decide
    have length := (correct.once _ .start stuck unfailed 0 some_child).length_eq
    rw [List.length_range] at length
    exact absurd length (Nat.ne_of_lt some_data)
  | some data =>
    obtain ⟨state, reached, killed⟩ := parent_killed some_child some_data (by rw [stored]; rfl)
    exact correct.alive state reached killed

/-- One child, and one element for an array of one. -/
def smallest : Run where
  n := 1
  k := 1
  data_num := 1
  rand := fun _ => 0
  memory := fun _ => ⟨0, 0⟩
  overflow := none
  strays := fun _ => []

theorem never_correct_smallest : (1 ≤ smallest.n ∧ 1 ≤ smallest.data_num) ∧ ¬ Correct smallest :=
  ⟨⟨by decide, by decide⟩, never_correct (by decide) (by decide)⟩

theorem smallest_killed :
    ¬ ∀ run : Run, 1 ≤ run.n → 1 ≤ run.k → 1 ≤ run.data_num → Correct run := by
  intro always
  have correct := always smallest (by decide) (by decide) (by decide)
  obtain ⟨state, reached, killed⟩ :=
    parent_killed (show 0 < smallest.n by decide) (by decide) (by decide)
  exact correct.alive state reached killed

end LinuxProgramming.BatchSum
