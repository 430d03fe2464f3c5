import LinuxProgramming.Foundation.Caller
import LinuxProgramming.SharedStack.Linearizable

/-! The program that makes one child for every operation on the stack.

The parent waits for each child before it makes the next one. A call that has to wait
for another call waits for a child that is not there yet.
-/

set_option autoImplicit false

namespace LinuxProgramming.SharedStack.Processes
open Foundation

/-- The loop of `main`: it forks child `i`, or is in `wait`. -/
inductive Parent where
  | forking (i : Nat)
  | waiting (i : Nat)
  | returned
  | failed
  deriving DecidableEq, Repr

inductive Place where
  | unborn
  | born
  | inside
  | done
  | exited
  | reaped
  deriving DecidableEq, Repr

def Place.live : Place → Bool
  | .born | .inside | .done => true
  | .unborn | .exited | .reaped => false

/-- The children are numbered by the rounds of the loop. -/
structure State where
  parent : Parent
  place : Nat → Place
  stack : Monitor.State Nat Data Call (Option Int)

inductive Action where
  | fork
  | forkFails
  | finish
  | call (child : Nat)
  | operate (action : Monitor.Action Nat Call)
  | exit (child : Nat)
  | wait (child : Nat)
  deriving DecidableEq

/-- `operations` has the random choices of the rounds, and `cells` is what the mapped file
holds. -/
def step (cells : Int → Int) (operations : List Call) (state : State) : Action → Option State
  | .fork =>
    match state.parent with
    | .forking i =>
      if i < operations.length then
        some { state with parent := .waiting i, place := Function.update state.place i .born }
      else none
    | _ => none
  | .forkFails =>
    match state.parent with
    | .forking i => if i < operations.length then some { state with parent := .failed } else none
    | _ => none
  | .finish =>
    match state.parent with
    | .forking i => if i < operations.length then none else some { state with parent := .returned }
    | _ => none
  | .call child =>
    match state.place child, operations[child]? with
    | .born, some call =>
      ((monitor cells).step state.stack (.call child call)).map fun stack =>
        { state with place := Function.update state.place child .inside, stack := stack }
    | _, _ => none
  | .operate (.call _ _) => none
  | .operate (.unlock child) =>
    ((monitor cells).step state.stack (.unlock child)).map fun stack =>
      { state with place := Function.update state.place child .done, stack := stack }
  | .operate action =>
    ((monitor cells).step state.stack action).map fun stack => { state with stack := stack }
  | .exit child =>
    if state.place child = .done then
      some { state with place := Function.update state.place child .exited }
    else none
  | .wait child =>
    match state.parent, state.place child with
    | .waiting i, .exited =>
      some { state with
        parent := .forking (i + 1)
        place := Function.update state.place child .reaped }
    | _, _ => none

def machine (cells : Int → Int) (operations : List Call) : Machine State Action where
  start := ⟨.forking 0, fun _ => .unborn, (shared Nat cells).start⟩
  step := step cells operations

/-- The parent is blocked in `wait` and every live child in `pthread_cond_wait`, before all
operations have completed. -/
structure Hung (operations : List Call) (state : State) : Prop where
  parent : ∃ i, state.parent = .waiting i
  nobody : ∀ child, state.place child ≠ .exited
  blocked : ∀ child, (state.place child).live = true →
    ∃ call, state.stack.phase child = .waiting call
  incomplete : state.stack.history.length < operations.length

/-- The pushes that some operations make, less their pops. -/
def net : List Call → Int
  | [] => 0
  | .push _ :: operations => 1 + net operations
  | .pop :: operations => net operations - 1

/-- The stack has room for so many values. -/
def Fits (height : Int) : Prop := 0 ≤ height ∧ height ≤ STACK_SIZE

/-- The calls that are through. -/
def completed (state : State) : List Call := state.stack.history.map Monitor.Finished.call

/-- Child `i` is the only one that is not reaped, and the calls before it are through. -/
inductive Child (cells : Int → Int) (operations : List Call) (i : Nat) (state : State) : Prop where
  | forking (parent : state.parent = .forking i) (place : state.place i = .unborn)
    (quiet : Monitor.Quiet state.stack) (through : completed state = operations.take i)
  | born (parent : state.parent = .waiting i) (place : state.place i = .born)
    (inside : i < operations.length)
    (quiet : Monitor.Quiet state.stack) (through : completed state = operations.take i)
  | inside {call : Call} (parent : state.parent = .waiting i) (place : state.place i = .inside)
    (own : operations[i]? = some call) (alone : Monitor.Alone (monitor cells) i call state.stack)
    (through : completed state = operations.take i)
  | left (parent : state.parent = .waiting i)
    (place : state.place i = .done ∨ state.place i = .exited)
    (quiet : Monitor.Quiet state.stack) (through : completed state = operations.take (i + 1))
  | ended (parent : state.parent = .returned ∨ state.parent = .failed)
    (place : state.place i = .unborn) (quiet : Monitor.Quiet state.stack)

structure OneByOne (cells : Int → Int) (operations : List Call) (i : Nat) (state : State) : Prop where
  earlier : ∀ child, child < i → state.place child = .reaped
  later : ∀ child, i < child → state.place child = .unborn
  child : Child cells operations i state

/-- There is a round that the state belongs to. -/
def InRounds (cells : Int → Int) (operations : List Call) (state : State) : Prop :=
  ∃ i, OneByOne cells operations i state

variable {cells : Int → Int} {operations : List Call} {i : Nat} {state next : State}

/-- A child of which something is seen is the one of this round. -/
theorem OneByOne.this (one : OneByOne cells operations i state) {child : Nat} {place : Place}
    (seen : state.place child = place) (here : place ≠ .reaped ∧ place ≠ .unborn) : child = i := by
  rcases Nat.lt_trichotomy child i with before | same | behind
  · exact absurd (seen.symm.trans (one.earlier child before)) here.1
  · exact same
  · exact absurd (seen.symm.trans (one.later child behind)) here.2

theorem OneByOne.put (one : OneByOne cells operations i state) {place : Place}
    (same : next.place = Function.update state.place i place)
    (child : Child cells operations i next) : OneByOne cells operations i next where
  earlier other before := by
    rw [same, Function.update_of_ne (Nat.ne_of_lt before)]
    exact one.earlier other before
  later other behind := by
    rw [same, Function.update_of_ne (Nat.ne_of_gt behind)]
    exact one.later other behind
  child := child

theorem one_start : OneByOne cells operations 0 (machine cells operations).start where
  earlier _ before := absurd before (Nat.not_lt_zero _)
  later _ _ := rfl
  child := .forking rfl rfl ⟨fun _ => rfl, rfl, rfl⟩ rfl

/-- Where the parent is about to fork, the calls before are through and nobody is in one. -/
theorem OneByOne.at_fork (one : OneByOne cells operations i state) {j : Nat}
    (parent : state.parent = .forking j) :
    j = i ∧ state.place i = .unborn ∧ Monitor.Quiet state.stack ∧
      completed state = operations.take i := by
  cases one.child with
  | forking forking place quiet through =>
    exact ⟨Parent.forking.inj (parent.symm.trans forking), place, quiet, through⟩
  | born other | inside other | left other => cases parent.symm.trans other
  | ended other => rcases other with other | other <;> cases parent.symm.trans other

theorem OneByOne.fork (one : OneByOne cells operations i state)
    (taken : step cells operations state .fork = some next) :
    OneByOne cells operations i next := by
  simp only [step] at taken
  split at taken
  next j parent =>
    obtain ⟨inside, same⟩ := Option.ite_none_right_eq_some.mp taken
    obtain rfl := Option.some.inj same
    obtain ⟨rfl, _, quiet, through⟩ := one.at_fork parent
    exact one.put rfl (.born rfl (Function.update_self _ _ _) inside quiet through)
  next => cases taken

theorem OneByOne.ends (one : OneByOne cells operations i state) {j : Nat}
    (parent : state.parent = .forking j) {ended : Parent}
    (kind : ended = .returned ∨ ended = .failed) :
    OneByOne cells operations i { state with parent := ended } := by
  obtain ⟨_, place, quiet, _⟩ := one.at_fork parent
  exact ⟨one.earlier, one.later, .ended kind place quiet⟩

theorem OneByOne.call (one : OneByOne cells operations i state) {child : Nat}
    (taken : step cells operations state (.call child) = some next) :
    OneByOne cells operations i next := by
  simp only [step] at taken
  split at taken
  next call place own =>
    obtain rfl := one.this place (by decide)
    obtain ⟨stack, entered, rfl⟩ := Option.map_eq_some_iff.mp taken
    cases one.child with
    | born parent _ _ quiet through =>
      cases Monitor.effect_of_step entered with
      | call _ =>
        exact one.put rfl (.inside parent (Function.update_self _ _ _) own
          (quiet.enter (monitor cells) child call) through)
    | forking _ other | inside _ other | ended _ other => cases place.symm.trans other
    | left _ other => rcases other with other | other <;> cases place.symm.trans other
  next => cases taken

/-- A step on the stack belongs to the one child. -/
theorem OneByOne.inside (one : OneByOne cells operations i state)
    {action : Monitor.Action Nat Call} {stack : Monitor.State Nat Data Call (Option Int)}
    (taken : (monitor cells).step state.stack action = some stack)
    (going : ∀ child call, action ≠ .call child call) :
    ∃ call, state.parent = .waiting i ∧ state.place i = .inside ∧ operations[i]? = some call ∧
      Monitor.Alone (monitor cells) i call state.stack ∧
      completed state = operations.take i := by
  have busy : ¬ Monitor.Quiet state.stack := by
    intro quiet
    obtain ⟨child, call, same⟩ := quiet.idle_step taken
    exact going child call same
  cases one.child with
  | inside parent place own alone through => exact ⟨_, parent, place, own, alone, through⟩
  | forking _ _ quiet _ | born _ _ _ quiet _ | left _ _ quiet _ | ended _ _ quiet =>
    exact absurd quiet busy

theorem OneByOne.goes_on (one : OneByOne cells operations i state)
    {action : Monitor.Action Nat Call} {stack : Monitor.State Nat Data Call (Option Int)}
    (taken : (monitor cells).step state.stack action = some stack)
    (going : ∀ child call, action ≠ .call child call) (holding : ∀ child, action ≠ .unlock child) :
    OneByOne cells operations i { state with stack := stack } := by
  obtain ⟨call, parent, place, own, alone, through⟩ := one.inside taken going
  rcases alone.step taken going with ⟨kept, same, _⟩ | ⟨_, unlocks, _⟩
  · refine ⟨one.earlier, one.later, .inside parent place own kept ?_⟩
    rw [completed, same]
    exact through
  · exact absurd unlocks (holding i)

theorem OneByOne.unlock (one : OneByOne cells operations i state) {child : Nat}
    {stack : Monitor.State Nat Data Call (Option Int)}
    (taken : (monitor cells).step state.stack (.unlock child) = some stack) :
    OneByOne cells operations i
      { state with place := Function.update state.place child .done, stack := stack } := by
  obtain ⟨call, parent, place, own, alone, through⟩ := one.inside taken (by simp)
  rcases alone.step taken (by simp) with ⟨_, _, holds⟩ | ⟨quiet, unlocks, more⟩
  · exact absurd rfl (holds child)
  · obtain rfl := Monitor.Action.unlock.inj unlocks
    refine one.put rfl (.left parent (.inl (Function.update_self _ _ _)) quiet ?_)
    rw [completed, more, ← completed, through, List.take_add_one, own, Option.toList_some]

theorem OneByOne.exit (one : OneByOne cells operations i state) {child : Nat}
    (done : state.place child = .done) :
    OneByOne cells operations i
      { state with place := Function.update state.place child .exited } := by
  obtain rfl := one.this done (by decide)
  cases one.child with
  | left parent _ quiet through =>
    exact one.put rfl (.left parent (.inr (Function.update_self _ _ _)) quiet through)
  | forking _ other | born _ other | inside _ other | ended _ other => cases done.symm.trans other

theorem OneByOne.wait (one : OneByOne cells operations i state) {child j : Nat}
    (parent : state.parent = .waiting j) (exited : state.place child = .exited) :
    OneByOne cells operations (i + 1)
      { state with
        parent := .forking (j + 1), place := Function.update state.place child .reaped } := by
  obtain rfl := one.this exited (by decide)
  cases one.child with
  | left waiting _ quiet through =>
    obtain rfl := Parent.waiting.inj (parent.symm.trans waiting)
    refine ⟨fun other before => ?_, fun other behind => ?_, .forking rfl ?_ quiet through⟩
    · by_cases same : other = j
      · rw [same]
        exact Function.update_self _ _ _
      · simp only [Function.update_of_ne same]
        exact one.earlier other (by omega)
    · simp only [Function.update_of_ne (show other ≠ j by omega)]
      exact one.later other (by omega)
    · simp only [Function.update_of_ne (show j + 1 ≠ j by omega)]
      exact one.later (j + 1) (Nat.lt_succ_self j)
  | forking _ other | born _ other | inside _ other | ended _ other => cases exited.symm.trans other

theorem inRounds_step {action : Action} (one : InRounds cells operations state)
    (taken : step cells operations state action = some next) : InRounds cells operations next := by
  obtain ⟨i, one⟩ := one
  cases action with
  | fork => exact ⟨i, one.fork taken⟩
  | forkFails =>
    simp only [step] at taken
    split at taken
    next j parent =>
      obtain rfl := Option.some.inj (Option.ite_none_right_eq_some.mp taken).2
      exact ⟨i, one.ends parent (.inr rfl)⟩
    next => cases taken
  | finish =>
    simp only [step] at taken
    split at taken
    next j parent =>
      obtain rfl := Option.some.inj (Option.ite_none_left_eq_some.mp taken).2
      exact ⟨i, one.ends parent (.inl rfl)⟩
    next => cases taken
  | call child => exact ⟨i, one.call taken⟩
  | operate action =>
    cases action with
    | call child call => cases taken
    | unlock child =>
      obtain ⟨stack, made, rfl⟩ := Option.map_eq_some_iff.mp taken
      exact ⟨i, one.unlock made⟩
    | lock | test | spurious | relock | update | signal =>
      obtain ⟨stack, made, rfl⟩ := Option.map_eq_some_iff.mp taken
      exact ⟨i, one.goes_on made (by simp) (by simp)⟩
  | exit child =>
    obtain ⟨done, same⟩ := Option.ite_none_right_eq_some.mp taken
    obtain rfl := Option.some.inj same
    exact ⟨i, one.exit done⟩
  | wait child =>
    simp only [step] at taken
    split at taken
    next j parent exited =>
      obtain rfl := Option.some.inj taken
      exact ⟨i + 1, one.wait parent exited⟩
    next => cases taken

theorem inRounds_start : InRounds cells operations (machine cells operations).start :=
  ⟨0, one_start⟩

theorem inRounds_of_reachable (reached : (machine cells operations).Reachable state) :
    InRounds cells operations state :=
  Machine.invariant inRounds_start inRounds_step reached

/-- What a step makes of the stack is a step of the monitor, or nothing. -/
theorem stack_step {action : Action} (taken : step cells operations state action = some next) :
    next.stack = state.stack ∨
      ∃ made, (monitor cells).step state.stack made = some next.stack := by
  cases action with
  | call child =>
    simp only [step] at taken
    split at taken
    next =>
      obtain ⟨stack, made, rfl⟩ := Option.map_eq_some_iff.mp taken
      exact .inr ⟨_, made⟩
    next => cases taken
  | operate action =>
    cases action with
    | call child call => cases taken
    | unlock | lock | test | spurious | relock | update | signal =>
      obtain ⟨stack, made, rfl⟩ := Option.map_eq_some_iff.mp taken
      exact .inr ⟨_, made⟩
  | exit child =>
    obtain ⟨_, same⟩ := Option.ite_none_right_eq_some.mp taken
    obtain rfl := Option.some.inj same
    exact .inl rfl
  | fork | forkFails =>
    simp only [step] at taken
    split at taken
    next =>
      obtain rfl := Option.some.inj (Option.ite_none_right_eq_some.mp taken).2
      exact .inl rfl
    next => cases taken
  | finish =>
    simp only [step] at taken
    split at taken
    next =>
      obtain rfl := Option.some.inj (Option.ite_none_left_eq_some.mp taken).2
      exact .inl rfl
    next => cases taken
  | wait child =>
    simp only [step] at taken
    split at taken
    next =>
      obtain rfl := Option.some.inj taken
      exact .inl rfl
    next => cases taken

/-- What the children do to the stack is a run of the monitor. -/
theorem stack_reachable (reached : (machine cells operations).Reachable state) :
    (shared Nat cells).Reachable state.stack := by
  induction reached with
  | start => exact .start
  | step _ taken ih =>
    rcases stack_step taken with same | ⟨action, made⟩
    · rw [same]
      exact ih
    · exact ih.step made

theorem net_concat (calls : List Call) (call : Call) :
    net (calls ++ [call]) = net calls + net [call] := by
  induction calls with
  | nil => simp [net]
  | cons first calls ih =>
    rw [List.cons_append]
    cases first with
    | push value =>
      rw [net, net, ih]
      omega
    | pop =>
      rw [net, net, ih]
      omega

/-- A call that is not blocked leaves the stack within its bounds, and the others would not. -/
theorem blocked_iff {globalStack : Data} (fits : Fits globalStack.index) (call : Call) :
    blocked globalStack call = false ↔ Fits (globalStack.index + net [call]) := by
  obtain ⟨lower, upper⟩ := fits
  cases call with
  | push value =>
    simp only [blocked, net, Fits, beq_eq_false_iff_ne]
    omega
  | pop =>
    simp only [blocked, net, Fits, beq_eq_false_iff_ne]
    omega

theorem update_index (globalStack : Data) (call : Call) :
    (update globalStack call).1.index = globalStack.index + net [call] := by
  cases call with
  | push value => rfl
  | pop => rfl

/-- In a serial run the stack holds the balance of the calls, and always has. -/
theorem serial_net {history : List (Call × Option Int)} {globalStack : Data}
    (serial : (monitor cells).Serial history globalStack) :
    globalStack.index = net (history.map Prod.fst) ∧
      ∀ front, front <+: history.map Prod.fst → Fits (net front) := by
  induction serial with
  | nil =>
    refine ⟨rfl, fun front early => ?_⟩
    rw [List.prefix_nil.mp early]
    exact ⟨Int.le_refl 0, by decide⟩
  | @snoc history globalStack call _ admitted ih =>
    obtain ⟨index, fits⟩ := ih
    have height : Fits globalStack.index := index ▸ fits _ (List.prefix_refl _)
    have after : (update globalStack call).1.index = net (history.map Prod.fst ++ [call]) := by
      rw [update_index, net_concat, index]
    rw [List.map_append]
    refine ⟨after, fun front early => ?_⟩
    rcases List.prefix_concat_iff.mp early with whole | shorter
    · have kept : Fits (net (history.map Prod.fst ++ [call])) := by
        rw [← after, update_index]
        exact (blocked_iff height call).mp admitted
      rw [whole]
      exact kept
    · exact fits front shorter

/-- A round in which the child goes through its call. -/
theorem round_runs {call : Call} (parent : state.parent = .forking i)
    (quiet : Monitor.Quiet state.stack) (own : operations[i]? = some call)
    (admitted : blocked state.stack.shared call = false) :
    ((machine cells operations).exec state
      [.fork, .call i, .operate (.lock i), .operate (.test i), .operate (.update i),
        .operate (.signal i none), .operate (.unlock i), .exit i, .wait i]).map State.parent =
          some (.forking (i + 1)) := by
  obtain ⟨inside, same⟩ := List.getElem?_eq_some_iff.mp own
  simp [Machine.exec, machine, step, Monitor.step, Monitor.State.setPhase, Monitor.State.acquire,
    monitor, parent, inside, same, quiet.idle, quiet.free, quiet.nobody, admitted]

/-- A round in which the child has to wait for another one. -/
theorem blocked_runs {call : Call} (parent : state.parent = .forking i)
    (quiet : Monitor.Quiet state.stack) (own : operations[i]? = some call)
    (waits : blocked state.stack.shared call = true) :
    ((machine cells operations).exec state
      [.fork, .call i, .operate (.lock i), .operate (.test i)]).map
        (fun state => (state.parent, state.place i, state.stack.phase i)) =
          some (.waiting i, .inside, .waiting call) := by
  obtain ⟨inside, same⟩ := List.getElem?_eq_some_iff.mp own
  simp [Machine.exec, machine, step, Monitor.step, Monitor.State.setPhase, Monitor.State.acquire,
    monitor, parent, inside, same, quiet.idle, quiet.free, quiet.nobody, waits]

/-- With a free mutex the stack is what the calls that are through have made of it. -/
theorem serial_completed (reached : (machine cells operations).Reachable state)
    (free : state.stack.owner = none) :
    state.stack.shared.index = net (completed state) ∧
      ∀ front, front <+: completed state → Fits (net front) := by
  have sound := Monitor.sound_of_reachable (stack_reachable reached)
  have serial := serial_net (sound.published free)
  have calls : (state.stack.history.map Monitor.Finished.operation).map Prod.fst =
      completed state := by
    rw [List.map_map]
    rfl
  rwa [calls] at serial

/-- Where everybody is blocked, some operations are too much for the stack. -/
theorem hung_overflows (reached : (machine cells operations).Reachable state)
    (hung : Hung operations state) : ∃ front, front <+: operations ∧ ¬ Fits (net front) := by
  obtain ⟨i, one⟩ := inRounds_of_reachable reached
  obtain ⟨j, parent⟩ := hung.parent
  cases one.child with
  | forking other => cases parent.symm.trans other
  | ended other => rcases other with other | other <;> cases parent.symm.trans other
  | born _ place _ quiet _ =>
    obtain ⟨call, waiting⟩ := hung.blocked i (by rw [place]; rfl)
    cases (quiet.idle i).symm.trans waiting
  | left _ place quiet _ =>
    have done : state.place i = .done := place.resolve_right (hung.nobody i)
    obtain ⟨call, waiting⟩ := hung.blocked i (by rw [done]; rfl)
    cases (quiet.idle i).symm.trans waiting
  | @inside call _ place own alone through =>
    obtain ⟨other, waiting⟩ := hung.blocked i (by rw [place]; rfl)
    have free : state.stack.owner = none :=
      alone.free (Monitor.sound_of_reachable (stack_reachable reached)) waiting
    obtain ⟨index, fits⟩ := serial_completed reached free
    have height : Fits state.stack.shared.index := index ▸ fits _ (List.prefix_refl _)
    have waits : blocked state.stack.shared call = true := alone.blocked other waiting
    refine ⟨operations.take (i + 1), List.take_prefix _ _, fun room => ?_⟩
    rw [List.take_add_one, own, Option.toList_some, net_concat, ← through, ← index] at room
    rw [(blocked_iff height call).mpr room] at waits
    cases waits

/-- A child that waits hangs the program, as its parent waits for it. -/
theorem hung_of_waiting {call : Call} (reached : (machine cells operations).Reachable state)
    (inside : i < operations.length)
    (facts : (state.parent, state.place i, state.stack.phase i) =
      (.waiting i, .inside, .waiting call)) : Hung operations state := by
  simp only [Prod.mk.injEq] at facts
  obtain ⟨parent, place, waiting⟩ := facts
  obtain ⟨j, one⟩ := inRounds_of_reachable reached
  obtain rfl := one.this place (by decide)
  refine ⟨⟨i, parent⟩, fun child exited => ?_, fun child live => ?_, ?_⟩
  · obtain rfl := one.this exited (by decide)
    cases place.symm.trans exited
  · have same : child = i := by
      refine one.this rfl ⟨fun reaped => ?_, fun unborn => ?_⟩
      · rw [reaped] at live
        cases live
      · rw [unborn] at live
        cases live
    exact ⟨call, same ▸ waiting⟩
  · cases one.child with
    | inside _ _ _ _ through =>
      have count := congrArg List.length through
      rw [completed, List.length_map, List.length_take] at count
      omega
    | forking _ other | born _ other | ended _ other => cases place.symm.trans other
    | left _ other => rcases other with other | other <;> cases place.symm.trans other

/-- Where nobody hangs, every round comes to its end. -/
theorem round_ends (calm : ∀ state, (machine cells operations).Reachable state →
      ¬ Hung operations state)
    (reached : (machine cells operations).Reachable state) (parent : state.parent = .forking i)
    (inside : i < operations.length) :
    ∃ next, (machine cells operations).Reachable next ∧ next.parent = .forking (i + 1) := by
  obtain ⟨j, one⟩ := inRounds_of_reachable reached
  have own : operations[i]? = some operations[i] := List.getElem?_eq_getElem inside
  obtain ⟨_, _, quiet, _⟩ := one.at_fork parent
  cases waits : blocked state.stack.shared operations[i] with
  | false =>
    obtain ⟨next, run, same⟩ :=
      Option.map_eq_some_iff.mp (round_runs parent quiet own waits)
    exact ⟨next, Machine.reachable_of_exec reached run, same⟩
  | true =>
    obtain ⟨next, run, facts⟩ :=
      Option.map_eq_some_iff.mp (blocked_runs parent quiet own waits)
    have later := Machine.reachable_of_exec reached run
    exact absurd (hung_of_waiting later inside facts) (calm next later)

theorem rounds_end (calm : ∀ state, (machine cells operations).Reachable state →
      ¬ Hung operations state) {i : Nat} (inside : i ≤ operations.length) :
    ∃ state, (machine cells operations).Reachable state ∧ state.parent = .forking i := by
  induction i with
  | zero => exact ⟨_, .start, rfl⟩
  | succ i ih =>
    obtain ⟨state, reached, parent⟩ := ih (Nat.le_of_succ_le inside)
    exact round_ends calm reached parent inside

/-- The program cannot hang exactly if no operations from the first one on are too many
pops or too many pushes. -/
theorem cannot_hang_iff (cells : Int → Int) (operations : List Call) :
    (∀ state, (machine cells operations).Reachable state → ¬ Hung operations state) ↔
      ∀ front, front <+: operations → 0 ≤ net front ∧ net front ≤ STACK_SIZE := by
  constructor
  · intro calm
    obtain ⟨state, reached, parent⟩ := rounds_end calm (Nat.le_refl operations.length)
    obtain ⟨i, one⟩ := inRounds_of_reachable reached
    obtain ⟨rfl, _, quiet, through⟩ := one.at_fork parent
    rw [List.take_length] at through
    obtain ⟨_, fits⟩ := serial_completed reached quiet.free
    rwa [through] at fits
  · intro fits state reached hung
    obtain ⟨front, early, overflows⟩ := hung_overflows reached hung
    exact overflows (fits front early)

/-- The first child pops, and the one that would push is not made. -/
theorem pop_first_hangs :
    (0 ≤ net [.pop, .push 7] ∧ net [.pop, .push 7] ≤ STACK_SIZE) ∧
      ¬ ∀ state, (machine (fun _ => 0) [.pop, .push 7]).Reachable state →
        ¬ Hung [.pop, .push 7] state := by
  refine ⟨by decide, fun calm => ?_⟩
  obtain ⟨state, reached, facts⟩ := Machine.exists_reachable
    (show ((machine (fun _ => 0) [.pop, .push 7]).exec
      (machine (fun _ => 0) [.pop, .push 7]).start
        [.fork, .call 0, .operate (.lock 0), .operate (.test 0)]).map
          (fun state => (state.parent, state.place 0, state.stack.phase 0)) =
            some (.waiting 0, .inside, .waiting .pop) by decide)
  exact calm state reached (hung_of_waiting reached (by decide) facts)

end LinuxProgramming.SharedStack.Processes
