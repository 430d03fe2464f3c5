import LinuxProgramming.Foundation.CString
import LinuxProgramming.Foundation.Machine
import Mathlib.Algebra.Group.Nat.Defs

/-! The transfer from standard input to standard output, between two threads.

The reader fills the shared segment with one `read`, and the semaphore tells the
writer that it is full. The semaphore has a name, so its value can be left from an
earlier run: `sem_open` creates it at 0 only if it does not exist.
-/

set_option autoImplicit false

namespace LinuxProgramming.Transfer
open Foundation

def BUF_SIZE : Nat := 1024

/-- A semaphore counts no further. -/
def SEM_VALUE_MAX : Nat := 2 ^ 31 - 1

/-- Standard input, and how many of its bytes the `read` takes. -/
structure Input where
  content : List Byte
  bytes : Nat
  room : bytes ≤ BUF_SIZE
  inside : bytes ≤ content.length
  progress : bytes = 0 → content = []

inductive Reader where
  | started
  | filled
  | counted
  | posted
  deriving DecidableEq, Repr

/-- The writer takes `data.cnt` first, and `write` takes the bytes, all that it is given. -/
inductive Writer where
  | started
  | waited
  | loaded (cnt : Nat)
  | written
  deriving DecidableEq, Repr

/-- `buf`, `cnt` and `sem_write` are in the shared segment. -/
structure State where
  reader : Reader
  writer : Writer
  buf : Buffer BUF_SIZE
  cnt : Nat
  sem_write : Nat
  output : List Byte
  failed : Bool

inductive Action where
  | read
  | readFails
  | count
  | post
  | wait
  | load
  | write
  deriving DecidableEq, Repr

/-- One step of one of the threads, unless a `read` that failed has ended the process. -/
def step (input : Input) (state : State) : Action → Option State
  | .read =>
    if state.failed = false ∧ state.reader = .started then
      some { state with
        reader := .filled, buf := state.buf.overwrite (input.content.take input.bytes) }
    else none
  | .readFails =>
    if state.failed = false ∧ state.reader = .started then some { state with failed := true }
    else none
  | .count =>
    if state.failed = false ∧ state.reader = .filled then
      some { state with reader := .counted, cnt := input.bytes }
    else none
  | .post =>
    if state.failed = false ∧ state.reader = .counted then
      some { state with
        reader := .posted, sem_write := min (state.sem_write + 1) SEM_VALUE_MAX }
    else none
  | .wait =>
    if state.failed = false ∧ state.writer = .started ∧ 0 < state.sem_write then
      some { state with writer := .waited, sem_write := state.sem_write - 1 }
    else none
  | .load =>
    if state.failed = false ∧ state.writer = .waited then
      some { state with writer := .loaded state.cnt }
    else none
  | .write =>
    match state.failed, state.writer with
    | false, .loaded cnt =>
      some { state with writer := .written, output := state.buf.bytes.take cnt }
    | _, _ => none

/-- The segment is a global variable; the semaphore has what is left of an earlier run. -/
def machine (input : Input) (initial : Nat) : Machine State Action where
  start :=
    { reader := .started
      writer := .started
      buf := Buffer.zero
      cnt := 0
      sem_write := initial
      output := []
      failed := false }
  step := step input

/-- The reader has filled the segment. -/
def Filled (state : State) : Prop := state.reader = .counted ∨ state.reader = .posted

/-- The writer has begun to read the segment. -/
def Reads (state : State) : Prop := (∃ cnt, state.writer = .loaded cnt) ∨ state.writer = .written

/-- The writer is never early, and where the run is over everything has come through. -/
structure Transferred (input : Input) (initial : Nat) : Prop where
  not_early : ∀ state, (machine input initial).Reachable state → Reads state → Filled state
  whole : ∀ state, (machine input initial).Reachable state → (machine input initial).Stuck state →
    state.failed = true ∨ state.output = input.content

/-- What holds in every state if the semaphore starts at 0. -/
structure Handed (input : Input) (state : State) : Prop where
  waiting : state.writer = .started → state.sem_write = if state.reader = .posted then 1 else 0
  signalled : state.writer ≠ .started → state.reader = .posted
  filled : state.reader ≠ .started →
    state.buf.bytes.take input.bytes = input.content.take input.bytes
  counted : Filled state → state.cnt = input.bytes
  loaded : ∀ cnt, state.writer = .loaded cnt → cnt = input.bytes
  written : state.writer = .written → state.output = input.content.take input.bytes

variable {input : Input} {initial : Nat}

/-- While the writer waits, the reader alone counts. -/
theorem handed_of_waits {state : State} (waits : state.writer = .started)
    (free : state.sem_write = if state.reader = .posted then 1 else 0)
    (filled : state.reader ≠ .started →
      state.buf.bytes.take input.bytes = input.content.take input.bytes)
    (counted : Filled state → state.cnt = input.bytes) : Handed input state where
  waiting _ := free
  signalled other := absurd waits other
  filled := filled
  counted := counted
  loaded _ same := by cases waits.symm.trans same
  written same := by cases waits.symm.trans same

/-- Behind the semaphore, the writer finds the segment full. -/
theorem handed_of_past {state : State} (past : state.writer ≠ .started)
    (posted : state.reader = .posted)
    (full : state.buf.bytes.take input.bytes = input.content.take input.bytes)
    (size : state.cnt = input.bytes) (loaded : ∀ cnt, state.writer = .loaded cnt → cnt = input.bytes)
    (written : state.writer = .written → state.output = input.content.take input.bytes) :
    Handed input state where
  waiting waits := absurd waits past
  signalled _ := posted
  filled _ := full
  counted _ := size
  loaded := loaded
  written := written

theorem handed_start : Handed input (machine input 0).start :=
  handed_of_waits rfl rfl (absurd rfl) (by rintro (same | same) <;> cases same)

/-- The writer does not come past the semaphore before the reader has posted it. -/
theorem Handed.waits {state : State} (handed : Handed input state)
    (early : state.reader ≠ .posted) : state.writer = .started := by
  by_contra other
  exact early (handed.signalled other)

theorem Handed.full {state : State} (handed : Handed input state)
    (posted : state.reader = .posted) :
    state.buf.bytes.take input.bytes = input.content.take input.bytes ∧ state.cnt = input.bytes :=
  ⟨handed.filled (by simp [posted]), handed.counted (.inr posted)⟩

theorem handed_step {state next : State} {action : Action} (handed : Handed input state)
    (taken : step input state action = some next) : Handed input next := by
  cases action with
  | read =>
    obtain ⟨⟨_, started⟩, same⟩ := Option.ite_none_right_eq_some.mp taken
    obtain rfl := Option.some.inj same
    have waits := handed.waits (by simp [started])
    have free := handed.waiting waits
    rw [started] at free
    have length : input.bytes = (input.content.take input.bytes).length := by
      rw [List.length_take, Nat.min_eq_left input.inside]
    have fits : (input.content.take input.bytes).length ≤ BUF_SIZE := length ▸ input.room
    refine handed_of_waits waits free (fun _ => ?_) (by rintro (same | same) <;> cases same)
    simp only [Buffer.bytes_overwrite fits]
    rw [List.take_left' length.symm]
  | readFails =>
    obtain ⟨_, same⟩ := Option.ite_none_right_eq_some.mp taken
    obtain rfl := Option.some.inj same
    exact ⟨handed.waiting, handed.signalled, handed.filled, handed.counted, handed.loaded,
      handed.written⟩
  | count =>
    obtain ⟨⟨_, filled⟩, same⟩ := Option.ite_none_right_eq_some.mp taken
    obtain rfl := Option.some.inj same
    have waits := handed.waits (by simp [filled])
    have free := handed.waiting waits
    rw [filled] at free
    exact handed_of_waits waits free (fun _ => handed.filled (by simp [filled])) fun _ => rfl
  | post =>
    obtain ⟨⟨_, counted⟩, same⟩ := Option.ite_none_right_eq_some.mp taken
    obtain rfl := Option.some.inj same
    have waits := handed.waits (by simp [counted])
    have free := handed.waiting waits
    rw [counted] at free
    refine handed_of_waits waits ?_ (fun _ => handed.filled (by simp [counted])) fun _ =>
      handed.counted (.inl counted)
    simp only [free]
    decide
  | wait =>
    obtain ⟨⟨_, waits, positive⟩, same⟩ := Option.ite_none_right_eq_some.mp taken
    obtain rfl := Option.some.inj same
    have posted : state.reader = .posted := by
      by_contra other
      rw [handed.waiting waits, if_neg other] at positive
      exact Nat.lt_irrefl 0 positive
    obtain ⟨full, size⟩ := handed.full posted
    refine handed_of_past (by simp) posted full size (fun cnt same => ?_) fun same => ?_
    · cases same
    · cases same
  | load =>
    obtain ⟨⟨_, waited⟩, same⟩ := Option.ite_none_right_eq_some.mp taken
    obtain rfl := Option.some.inj same
    have posted : state.reader = .posted := handed.signalled (by simp [waited])
    obtain ⟨full, size⟩ := handed.full posted
    refine handed_of_past (by simp) posted full size (fun cnt same => ?_) fun same => ?_
    · rw [← Writer.loaded.inj same, size]
    · cases same
  | write =>
    simp only [step] at taken
    split at taken
    next cnt _ loaded =>
      obtain rfl := Option.some.inj taken
      have posted : state.reader = .posted := handed.signalled (by simp [loaded])
      obtain ⟨full, size⟩ := handed.full posted
      refine handed_of_past (by simp) posted full size (fun cnt same => ?_) fun _ => ?_
      · cases same
      · rw [handed.loaded cnt loaded, full]
    next => cases taken

theorem handed_reachable {state : State} (reached : (machine input 0).Reachable state) :
    Handed input state :=
  Machine.invariant handed_start handed_step reached

/-- Nothing is left to do once both threads are through, and not before. -/
theorem Handed.ended {state : State} (handed : Handed input state) (running : state.failed = false)
    (stuck : (machine input 0).Stuck state) : state.writer = .written := by
  have blocked : ∀ action, step input state action = none := stuck
  have posted : state.reader = .posted := by
    cases reader : state.reader with
    | started => simpa [step, running, reader] using blocked .read
    | filled => simpa [step, running, reader] using blocked .count
    | counted => simpa [step, running, reader] using blocked .post
    | posted => rfl
  cases writer : state.writer with
  | started =>
    have free := handed.waiting writer
    rw [if_pos posted] at free
    simpa [step, running, writer, free] using blocked .wait
  | waited => simpa [step, running, writer] using blocked .load
  | loaded cnt => simpa [step, running, writer] using blocked .write
  | written => rfl

/-- One run of both threads, the reader first. -/
theorem runs_through (input : Input) :
    ((machine input 0).exec (machine input 0).start
      [.read, .count, .post, .wait, .load, .write]).map
        (fun state => (state.reader, state.writer, state.failed)) =
          some (.posted, .written, false) := by
  rfl

theorem stuck_written {state : State} (posted : state.reader = .posted)
    (written : state.writer = .written) : (machine input initial).Stuck state := by
  intro action
  cases action <;> simp [machine, step, posted, written]

/-- Without an own value of the semaphore, the writer can be first. -/
theorem early_run (input : Input) (initial : Nat) :
    ((machine input (initial + 1)).exec (machine input (initial + 1)).start [.wait, .load]).map
      (fun state => (state.reader, state.writer)) = some (.started, .loaded 0) := by
  rfl

/-- Everything comes through exactly if the semaphore starts at 0 and one `read` takes the
whole input. -/
theorem transferred_iff (input : Input) (initial : Nat) :
    Transferred input initial ↔ initial = 0 ∧ input.bytes = input.content.length := by
  constructor
  · intro transferred
    have clean : initial = 0 := by
      cases initial with
      | zero => rfl
      | succ left =>
        obtain ⟨state, reached, facts⟩ := Machine.exists_reachable (early_run input left)
        obtain ⟨reader, writer⟩ := Prod.mk.inj facts
        have filled := transferred.not_early state reached (.inl ⟨0, writer⟩)
        rcases filled with same | same <;> cases reader.symm.trans same
    subst clean
    refine ⟨rfl, ?_⟩
    obtain ⟨state, reached, facts⟩ := Machine.exists_reachable (runs_through input)
    obtain ⟨posted, rest⟩ := Prod.mk.inj facts
    obtain ⟨written, running⟩ := Prod.mk.inj rest
    have output := (handed_reachable reached).written written
    have whole := (transferred.whole state reached (stuck_written posted written)).resolve_left
      (by simp [running])
    have length := congrArg List.length (output.symm.trans whole)
    rwa [List.length_take, Nat.min_eq_left input.inside] at length
  · rintro ⟨rfl, whole⟩
    constructor
    · intro state reached reads
      refine .inr ((handed_reachable reached).signalled ?_)
      rcases reads with ⟨cnt, loaded⟩ | written
      · simp [loaded]
      · simp [written]
    · intro state reached stuck
      cases running : state.failed with
      | true => exact .inl rfl
      | false =>
        have handed := handed_reachable reached
        refine .inr ?_
        rw [handed.written (handed.ended running stuck), whole, List.take_length]

/-- One byte comes in, and a run before has left the semaphore at 1. -/
def oneByte : Input where
  content := ['x'.toUInt8]
  bytes := 1
  room := by decide
  inside := by decide
  progress := by decide

theorem transferred_left_over : ¬ Transferred oneByte 1 := by
  intro transferred
  obtain ⟨state, reached, facts⟩ := Machine.exists_reachable (early_run oneByte 0)
  obtain ⟨reader, writer⟩ := Prod.mk.inj facts
  rcases transferred.not_early state reached (.inl ⟨0, writer⟩) with same | same <;>
    cases reader.symm.trans same

end LinuxProgramming.Transfer
