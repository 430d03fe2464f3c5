import LinuxProgramming.Foundation.Decimal
import LinuxProgramming.Foundation.Records
import LinuxProgramming.SharedStack.Operations

/-! The texts that `push` and `pop` print.

Both store their text without a bound into an array of 25 characters. What does not fit
goes to whatever is behind the array, and there the source promises nothing: the value
that `pop` returns is a local variable as well.
-/

set_option autoImplicit false

namespace LinuxProgramming.SharedStack
open Foundation Foundation.Monitor

/-- `char string[25]` -/
def stringSize : Nat := 25

/-- What `sprintf` stores, with its NUL. -/
def stored (globalStack : Data) : Call → List Byte
  | .push oneInt => ascii "Pushed:\tInt: " ++ decimal oneInt ++ ascii "\tindex " ++
      decimal ((push globalStack oneInt).index - 1) ++ [newline, NUL]
  | .pop => ascii "Pop:\tInt: " ++ decimal (pop globalStack).2 ++ ascii "\tindex " ++
      decimal (pop globalStack).1.index ++ [newline, NUL]

/-- The statement on the buffer, and behind it the text. -/
def printed (overrun : List Byte → Data × Option Int → Data × Option Int) (globalStack : Data)
    (call : Call) : Data × Option Int :=
  match (stored globalStack call).drop stringSize with
  | [] => update globalStack call
  | spilled => overrun spilled (update globalStack call)

/-- The operations with their texts; `overrun` says what characters behind the array do to
the structure and to the value that is returned. -/
def printing (overrun : List Byte → Data × Option Int → Data × Option Int) (cells : Int → Int) :
    Monitor Data Call (Option Int) :=
  { monitor cells with update := printed overrun }

/-- The stack that all processes of one type share, with the texts. -/
abbrev talkative (Process : Type) [DecidableEq Process]
    (overrun : List Byte → Data × Option Int → Data × Option Int) (cells : Int → Int) :=
  Monitor.machine Process (printing overrun cells)

/-- A value that is pushed is stored only where its text has room. -/
def fits {Process : Type} (state : State Process Data Call (Option Int)) :
    Action Process Call → Bool
  | .update process =>
    match state.phase process with
    | .updating (.push oneInt) => (stored state.shared (.push oneInt)).length ≤ stringSize
    | _ => true
  | _ => true

/-- The values on the stack are written with two characters at most. -/
def Data.Short (globalStack : Data) : Prop :=
  ∀ value ∈ globalStack.contents, -9 ≤ value ∧ value ≤ 99

section Lengths

variable {globalStack : Data}

/-- The index of a cell is a single character. -/
theorem decimal_cell {cell : Int} (lower : 0 ≤ cell) (upper : cell < STACK_SIZE) :
    (decimal cell).length = 1 := by
  have cells : cell = 0 ∨ cell = 1 ∨ cell = 2 := by
    simp only [STACK_SIZE] at upper
    omega
  rcases cells with rfl | rfl | rfl <;> rfl

theorem decimal_short_iff (value : Int) :
    (decimal value).length ≤ 2 ↔ -9 ≤ value ∧ value ≤ 99 := by
  by_cases negative : value < 0
  · have digits : (Nat.toDigits 10 value.natAbs).length ≤ 1 ↔ value.natAbs < 10 ^ 1 :=
      Nat.length_toDigits_le_iff (by decide) (by decide)
    simp only [decimal, if_pos negative, List.length_append, List.length_map, List.length_singleton]
    omega
  · have digits : (Nat.toDigits 10 value.natAbs).length ≤ 2 ↔ value.natAbs < 10 ^ 2 :=
      Nat.length_toDigits_le_iff (by decide) (by decide)
    simp only [decimal, if_neg negative, List.length_append, List.length_map, List.length_nil]
    omega

/-- The values that can be pushed are those from -9 to 99. -/
theorem push_fits_iff (lower : 0 ≤ globalStack.index) (upper : globalStack.index < STACK_SIZE)
    (oneInt : Int) :
    (stored globalStack (.push oneInt)).length ≤ stringSize ↔ -9 ≤ oneInt ∧ oneInt ≤ 99 := by
  have same : (push globalStack oneInt).index - 1 = globalStack.index := by
    simp only [push]
    omega
  have before : (ascii "Pushed:\tInt: ").length = 13 := rfl
  have between : (ascii "\tindex ").length = 7 := rfl
  rw [← decimal_short_iff]
  simp only [stored, same, List.length_append, List.length_cons, List.length_nil, before, between,
    decimal_cell lower upper, stringSize]
  omega

/-- What a push has room for, a pop has room for. -/
theorem pop_fits (lower : 0 < globalStack.index) (upper : globalStack.index ≤ STACK_SIZE)
    (short : -9 ≤ (pop globalStack).2 ∧ (pop globalStack).2 ≤ 99) :
    (stored globalStack .pop).length ≤ stringSize := by
  have characters := (decimal_short_iff _).mpr short
  have index : (decimal (pop globalStack).1.index).length = 1 := by
    apply decimal_cell <;> simp only [pop] <;> omega
  have before : (ascii "Pop:\tInt: ").length = 10 := rfl
  have between : (ascii "\tindex ").length = 7 := rfl
  simp only [stored, List.length_append, List.length_cons, List.length_nil, before, between, index,
    stringSize]
  omega

theorem printed_of_fits (overrun : List Byte → Data × Option Int → Data × Option Int) {call : Call}
    (room : (stored globalStack call).length ≤ stringSize) :
    printed overrun globalStack call = update globalStack call := by
  rw [printed, List.drop_eq_nil_of_le room]

end Lengths

section Runs

variable {Process : Type} [DecidableEq Process] {cells : Int → Int}
  {overrun : List Byte → Data × Option Int → Data × Option Int}
  {state next : State Process Data Call (Option Int)}

/-- An update with room for the text of its value has room for its own text. -/
theorem printed_of_short (reached : (shared Process cells).Reachable state)
    (short : state.shared.Short) {process : Process} {call : Call}
    (updating : state.phase process = .updating call)
    (room : fits state (.update process) = true) :
    printed overrun state.shared call = update state.shared call := by
  have sound := sound_of_reachable reached
  have admitted := sound.ready process call updating
  obtain ⟨bounds, -⟩ := serial_legal sound.serial
  apply printed_of_fits
  cases call with
  | push oneInt => simpa [fits, updating] using room
  | pop =>
    have filled := bounds.filled admitted
    apply pop_fits filled bounds.upper
    apply short
    rw [pop_contents state.shared filled]
    exact List.mem_cons_self

/-- Only an update changes the values on the stack. -/
theorem Data.Short.step (reached : (shared Process cells).Reachable state)
    (short : state.shared.Short) {action : Action Process Call} (room : fits state action = true)
    (taken : (monitor cells).step state action = some next) : next.shared.Short := by
  cases effect_of_step taken with
  | call | wait | pass | spurious | wakeNone | wake | unlock => exact short
  | lock _ acquired | relock _ acquired =>
    unfold State.acquire at acquired
    split at acquired
    next => cases acquired
    next =>
      cases acquired
      exact short
  | @update process call updating =>
    have sound := sound_of_reachable reached
    have admitted := sound.ready process call updating
    obtain ⟨bounds, -⟩ := serial_legal sound.serial
    cases call with
    | push oneInt =>
      have small : (stored state.shared (.push oneInt)).length ≤ stringSize := by
        simpa [fits, updating] using room
      intro value member
      have pushed : value ∈ (push state.shared oneInt).contents := member
      rw [push_contents state.shared oneInt bounds.lower] at pushed
      rcases List.mem_cons.mp pushed with rfl | below
      · have free := @Data.InBounds.free _ bounds value admitted
        exact (push_fits_iff bounds.lower free value).mp small
      · exact short value below
    | pop =>
      intro value member
      apply short value
      rw [pop_contents state.shared (bounds.filled admitted)]
      exact List.mem_cons_of_mem _ member

/-- Without a value whose text has no room, the texts change nothing. -/
theorem plain_of_fits
    (reached : ((talkative Process overrun cells).guarded fits).Reachable state) :
    (shared Process cells).Reachable state ∧ state.shared.Short := by
  induction reached with
  | start => exact ⟨.start, fun value member => by cases member⟩
  | @step state next action _ taken ih =>
    obtain ⟨plain, short⟩ := ih
    obtain ⟨room, taken⟩ := Machine.guarded_step.mp taken
    -- The texts in the cells and the new one fit, so the overrun plays no part in this step.
    have same : (printing overrun cells).step state action = (monitor cells).step state action := by
      refine step_congr (show (printing overrun cells).blocked = (monitor cells).blocked from rfl) ?_
      rintro process call rfl updating
      exact printed_of_short plain short updating room
    have stepped : (monitor cells).step state action = some next := same ▸ taken
    exact ⟨plain.step stepped, short.step plain room stepped⟩

end Runs

end LinuxProgramming.SharedStack
