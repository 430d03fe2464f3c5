import LinuxProgramming.Foundation.CString
import LinuxProgramming.Foundation.Machine

/-! The transfer of a file in blocks, through one shared segment and two binary semaphores.

Whoever holds the turn uses the segment. The writer releases the semaphore of the
reader and looks at `cnt` only afterwards, while the reader may be at work. The
two programs are started on their own, in either order, and a set of semaphores
can be left from an earlier run; the writer initialises it before it makes the segment.
-/

set_option autoImplicit false

namespace LinuxProgramming.BlockTransfer
open Foundation

def BUF_SIZE : Nat := 1024

/-- The semaphores of the set, by their number. -/
inductive SemNum where
  | WRITE_SEM
  | READ_SEM
  deriving DecidableEq, Repr

/-- The values of the set. -/
structure Semaphores where
  write : Nat
  read : Nat
  deriving DecidableEq, Repr

def Semaphores.value (semaphores : Semaphores) : SemNum → Nat
  | .WRITE_SEM => semaphores.write
  | .READ_SEM => semaphores.read

/-- `semctl` with SETVAL. -/
def Semaphores.set (semaphores : Semaphores) : SemNum → Nat → Semaphores
  | .WRITE_SEM, value => { semaphores with write := value }
  | .READ_SEM, value => { semaphores with read := value }

def initSemAvailable (semaphores : Semaphores) (semNum : SemNum) : Semaphores :=
  semaphores.set semNum 1

def initSemInUse (semaphores : Semaphores) (semNum : SemNum) : Semaphores :=
  semaphores.set semNum 0

/-- What one `semop` does: with a removed set it fails, and it blocks rather than
take a value below 0. -/
inductive Semop where
  | done (semaphores : Semaphores)
  | blocks
  | removed
  deriving DecidableEq, Repr

/-- `semop` with -1. An interrupted call is made again. -/
def reserveSem (semaphores : Option Semaphores) (semNum : SemNum) : Semop :=
  match semaphores with
  | none => .removed
  | some values =>
    if 0 < values.value semNum then .done (values.set semNum (values.value semNum - 1))
    else .blocks

/-- `semop` with 1. -/
def releaseSem (semaphores : Option Semaphores) (semNum : SemNum) : Semop :=
  match semaphores with
  | none => .removed
  | some values => .done (values.set semNum (values.value semNum + 1))

/-- The call the writer is about to make, or what it is about to do. At `store` the
`read` has returned `count`, which is not in `cnt` yet. -/
inductive Writer where
  | semget
  | initSemAvailable
  | initSemInUse
  | shmget
  | reserve
  | read
  | store (count : Nat)
  | release
  | test
  | add
  | finish
  | removeSet
  | removeSegment
  | exited
  | failed
  deriving DecidableEq, Repr

inductive Reader where
  | semget
  | shmget
  | reserve
  | test
  | add
  | write
  | release
  | detach
  | finish
  | exited
  | failed
  deriving DecidableEq, Repr

/-- The shared segment. -/
structure Shmseg where
  cnt : Int
  buf : Buffer BUF_SIZE

/-- The counters that a program prints at its end; an `int` goes around. -/
@[ext] structure Totals where
  bytes : BitVec 32
  xfrs : BitVec 32
  deriving DecidableEq, Repr

/-- `remaining` is what standard input still has; `segment` tells if the key of the
segment is in use. `signals` are handled by a program that blocks. -/
structure State where
  writer : Writer
  reader : Reader
  semaphores : Option Semaphores
  segment : Bool
  shmp : Shmseg
  remaining : List Byte
  output : List Byte
  sent : Totals
  received : Totals
  signals : Nat

/-- `read` is the `read` of the writer, with what it returns. A program may end early at
any place, because a call fails or a signal kills it; a `read` that fails leaves its -1 in
`cnt`, and the `write` of the reader may have taken a part of the block by then. -/
inductive Action where
  | writer
  | read (count : Nat)
  | readFails
  | writerFails
  | writerInterrupted
  | reader
  | partialWrite (count : Nat)
  | readerFails
  | readerInterrupted
  deriving DecidableEq, Repr

/-- What a run starts with: standard input, the set an earlier run has left, the values
a new set has, and the signals that will come. -/
structure Input where
  content : List Byte
  left : Option Semaphores
  created : Semaphores
  signals : Nat

/-- Go on after a `semop`, or exit because the set is gone. -/
def writerSemop (state : State) (next : Writer) : Semop → Option State
  | .done semaphores => some { state with writer := next, semaphores := some semaphores }
  | .blocks => none
  | .removed => some { state with writer := .failed }

def readerSemop (state : State) (next : Reader) : Semop → Option State
  | .done semaphores => some { state with reader := next, semaphores := some semaphores }
  | .blocks => none
  | .removed => some { state with reader := .failed }

/-- The program of the writer, its `read` apart. -/
def writerStep (input : Input) (state : State) : Option State :=
  match state.writer with
  | .semget =>
    some { state with
      writer := .initSemAvailable, semaphores := some (state.semaphores.getD input.created) }
  | .initSemAvailable =>
    some { state with
      writer := .initSemInUse
      semaphores := state.semaphores.map fun values => initSemAvailable values .WRITE_SEM }
  | .initSemInUse =>
    some { state with
      writer := .shmget
      semaphores := state.semaphores.map fun values => initSemInUse values .READ_SEM }
  | .shmget => some { state with writer := .reserve, segment := true }
  | .reserve => writerSemop state .read (reserveSem state.semaphores .WRITE_SEM)
  | .read => none
  | .store count => some { state with writer := .release, shmp := { state.shmp with cnt := count } }
  | .release => writerSemop state .test (releaseSem state.semaphores .READ_SEM)
  | .test => some { state with writer := if state.shmp.cnt = 0 then .finish else .add }
  | .add =>
    some { state with
      writer := .reserve
      sent := ⟨state.sent.bytes + BitVec.ofInt 32 state.shmp.cnt, state.sent.xfrs + 1⟩ }
  | .finish => writerSemop state .removeSet (reserveSem state.semaphores .WRITE_SEM)
  | .removeSet => some { state with writer := .removeSegment, semaphores := none }
  | .removeSegment => some { state with writer := .exited, segment := false }
  | .exited => none
  | .failed => none

/-- The program of the reader. It needs both keys in use when it starts. -/
def readerStep (state : State) : Option State :=
  match state.reader with
  | .semget =>
    some { state with reader := if state.semaphores.isSome then .shmget else .failed }
  | .shmget => some { state with reader := if state.segment then .reserve else .failed }
  | .reserve => readerSemop state .test (reserveSem state.semaphores .READ_SEM)
  | .test => some { state with reader := if state.shmp.cnt = 0 then .detach else .add }
  | .add =>
    some { state with
      reader := .write
      received := { state.received with
        bytes := state.received.bytes + BitVec.ofInt 32 state.shmp.cnt } }
  | .write =>
    some { state with
      reader := .release, output := state.output ++ state.shmp.buf.bytes.take state.shmp.cnt.toNat }
  | .release =>
    let counted := { state.received with xfrs := state.received.xfrs + 1 }
    readerSemop { state with received := counted } .reserve
      (releaseSem state.semaphores .WRITE_SEM)
  | .detach => some { state with reader := .finish }
  | .finish => readerSemop state .exited (releaseSem state.semaphores .WRITE_SEM)
  | .exited => none
  | .failed => none

/-- A `read` from a file takes at least one byte if there is one. -/
def Takes (state : State) (count : Nat) : Prop :=
  count ≤ BUF_SIZE ∧ count ≤ state.remaining.length ∧ (count = 0 → state.remaining = [])

instance (state : State) (count : Nat) : Decidable (Takes state count) :=
  inferInstanceAs (Decidable (_ ∧ _ ∧ _))

/-- The program waits in `reserveSem`. -/
def WriterBlocks (state : State) : Prop :=
  (state.writer = .reserve ∨ state.writer = .finish) ∧
    reserveSem state.semaphores .WRITE_SEM = .blocks

instance (state : State) : Decidable (WriterBlocks state) :=
  inferInstanceAs (Decidable (_ ∧ _))

def ReaderBlocks (state : State) : Prop :=
  state.reader = .reserve ∧ reserveSem state.semaphores .READ_SEM = .blocks

instance (state : State) : Decidable (ReaderBlocks state) :=
  inferInstanceAs (Decidable (_ ∧ _))

def step (input : Input) (state : State) : Action → Option State
  | .writer => writerStep input state
  | .read count =>
    if state.writer = .read ∧ Takes state count then
      some { state with
        writer := .store count
        shmp := { state.shmp with
          buf := state.shmp.buf.overwrite (state.remaining.take count) }
        remaining := state.remaining.drop count }
    else none
  | .readFails =>
    if state.writer = .read then
      some { state with writer := .failed, shmp := { state.shmp with cnt := -1 } }
    else none
  | .writerFails =>
    if state.writer ≠ .exited ∧ state.writer ≠ .failed then some { state with writer := .failed }
    else none
  | .writerInterrupted =>
    if 0 < state.signals ∧ WriterBlocks state then
      some { state with signals := state.signals - 1 }
    else none
  | .reader => readerStep state
  | .partialWrite count =>
    if state.reader = .write ∧ count < state.shmp.cnt then
      some { state with
        reader := .failed, output := state.output ++ state.shmp.buf.bytes.take count }
    else none
  | .readerFails =>
    if state.reader ≠ .exited ∧ state.reader ≠ .failed then some { state with reader := .failed }
    else none
  | .readerInterrupted =>
    if 0 < state.signals ∧ ReaderBlocks state then
      some { state with signals := state.signals - 1 }
    else none

/-- Standard input is unread, and no segment is left from an earlier run. -/
def machine (input : Input) : Machine State Action where
  start :=
    { writer := .semget
      reader := .semget
      semaphores := input.left
      segment := false
      shmp := ⟨0, Buffer.zero⟩
      remaining := input.content
      output := []
      sent := ⟨0, 0⟩
      received := ⟨0, 0⟩
      signals := input.signals }
  step := step input

end LinuxProgramming.BlockTransfer
