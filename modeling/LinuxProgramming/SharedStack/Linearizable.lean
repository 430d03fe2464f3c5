import LinuxProgramming.SharedStack.Texts

/-! The shared stack is linearizable under every schedule.

The processes are an arbitrary type, a process may call `push` and `pop` any number of
times, and a schedule is any list of monitor actions: it chooses who takes a free mutex,
which waiter a signal wakes and which waiter wakes up without one. The values that are
pushed are those whose texts have room.
-/

set_option autoImplicit false

namespace LinuxProgramming.SharedStack
open Foundation Foundation.Monitor

/-- A finished operation acquired the mutex last when its update was made, so
the list of finished operations is sorted by that acquisition and replays as a
last-in-first-out history; with a free mutex it accounts for every cell in use. -/
theorem stack_linearizable {Process : Type} [DecidableEq Process]
    {overrun : List Byte → Data × Option Int → Data × Option Int} {cells : Int → Int}
    {state : State Process Data Call (Option Int)}
    (reached : ((talkative Process overrun cells).guarded fits).Reachable state) :
    (state.owner = none → 0 ≤ state.shared.index ∧ state.shared.index ≤ STACK_SIZE) ∧
    (∀ cell ∈ state.shared.accesses, 0 ≤ cell ∧ cell < STACK_SIZE) ∧
    (state.history.Pairwise fun first later => first.acquired < later.acquired) ∧
    (replay (state.history.map Finished.operation)).isSome = true ∧
    (state.owner = none →
      replay (state.history.map Finished.operation) = some state.shared.contents) := by
  obtain ⟨plain, -⟩ := plain_of_fits reached
  have sound := sound_of_reachable plain
  obtain ⟨bounds, -⟩ := serial_legal sound.serial
  obtain ⟨before, finished⟩ := sound.finished
  obtain ⟨-, legal⟩ := serial_legal finished
  refine ⟨fun _ => ⟨bounds.lower, bounds.upper⟩, bounds.accessed, sound.ordered, ?_, fun free => ?_⟩
  · simp [legal]
  · exact (serial_legal (sound.published free)).2

/-- Two processes. -/
inductive Pair where
  | pusher
  | popper
  deriving DecidableEq, Repr

/-- A popper that waits, is woken by the push of another process and pops its value. -/
def handover (oneInt : Int) : List (Action Pair Call) :=
  [.call .popper .pop, .lock .popper, .test .popper,
    .call .pusher (.push oneInt), .lock .pusher, .test .pusher, .update .pusher,
    .signal .pusher (some .popper), .unlock .pusher,
    .relock .popper, .test .popper, .update .popper, .signal .popper none, .unlock .popper]

/-- The value to return lies three bytes behind the array: characters that reach it
overwrite it from its lowest byte on. -/
def adjacent (spilled : List Byte) (made : Data × Option Int) : Data × Option Int :=
  match made with
  | (globalStack, none) => (globalStack, none)
  | (globalStack, some toReturn) =>
    let bytes := littleEndian 4 (toReturn % 2 ^ 32).toNat
    let reached := (spilled.drop 3).take 4
    (globalStack, some (Int.bmod (ofLittleEndian (reached ++ bytes.drop reached.length)) (2 ^ 32)))

theorem handover_runs :
    (((talkative Pair adjacent fun _ => 0).guarded fits).exec
        ((talkative Pair adjacent fun _ => 0).guarded fits).start (handover 42)).map
      (fun state => state.history.map Finished.operation) =
        some [(.push 42, none), (.pop, some 42)] := by
  decide +kernel

/-- The theorem at the state after that run. -/
theorem stack_linearizable_handover :
    ∃ state : State Pair Data Call (Option Int),
      ((talkative Pair adjacent fun _ => 0).guarded fits).Reachable state ∧
      state.history.map Finished.operation = [(.push 42, none), (.pop, some 42)] ∧
      (replay (state.history.map Finished.operation)).isSome = true := by
  obtain ⟨state, reached, history⟩ := Machine.exists_reachable handover_runs
  exact ⟨state, reached, history, (stack_linearizable reached).2.2.2.1⟩

theorem handover_overruns :
    (((talkative Pair adjacent fun _ => 0).exec
        (talkative Pair adjacent fun _ => 0).start (handover 123456789)).map
      fun state => state.history.map Finished.operation) =
        some [(.push 123456789, none), (.pop, some 123456768)] := by
  decide +kernel

/-- The NUL of the text `Pop: ... 123456789 ...` is stored into the value to return. -/
theorem stack_not_linearizable :
    ∃ state : State Pair Data Call (Option Int),
      (talkative Pair adjacent fun _ => 0).Reachable state ∧
      state.history.map Finished.operation =
        [(.push 123456789, none), (.pop, some 123456768)] ∧
      replay (state.history.map Finished.operation) = none := by
  obtain ⟨state, reached, history⟩ := Machine.exists_reachable handover_overruns
  refine ⟨state, reached, history, ?_⟩
  rw [history]
  rfl

end LinuxProgramming.SharedStack
