import LinuxProgramming.Foundation.Machine
import Mathlib.Algebra.Group.Nat.Defs
import Mathlib.Data.Finset.Basic

/-! The producer and its consumers, as one machine.

The parent fills the mapped buffer batch by batch and signals every consumer
with SIGUSR1; the consumers print the buffer in their handler and add what they
printed to the shared counter. A signal sent while one of its kind is pending
is merged with it. Each access to the shared memory is a step of its own, so
the load and the store of the counter can be separated by any other step.

The file behind the counter has room for one `int`, and `shared_count[1]` is the second.
What lies behind the end of a file is zeroed when its page is written back.
-/

set_option autoImplicit false

namespace LinuxProgramming.ProducerConsumer
open Foundation

/-- The arguments of the program. An empty buffer would never send anything. -/
structure Arguments where
  M : Nat
  N : Nat
  B : Nat
  buffer : 0 < B

/-- The value an `int` holds after an addition, in two's complement. -/
def int (value : Int) : Int := value.bmod (2 ^ 32)

/-- `data[i].message` is "This is message i"; a message is its number here. -/
def generator (data_num : Nat) : List Nat := List.range data_num

/-- Program points of `sig_handler_data`, one for each access to shared memory. -/
inductive Handler where
  | entered
  | printing (num_batch i count : Nat)
  | storing (count : Nat) (loaded : Int)
  deriving DecidableEq, Repr

/-- What a consumer executes: its `pause` loop, a handler over it, or the second
handler over the first. `exiting` remembers whether SIGUSR1 was blocked when
SIGTERM was delivered, which is the case inside `sig_handler_data`. -/
inductive Mode where
  | running
  | handling (handler : Handler)
  | exiting (blocked : Bool)
  | exitingHandling (handler : Handler)
  | exited
  deriving DecidableEq, Repr

/-- The handler that runs, if it is `sig_handler_data` that runs. -/
def Mode.handler : Mode → Option Handler
  | .handling handler | .exitingHandling handler => some handler
  | .running | .exiting _ | .exited => none

/-- Continue the running `sig_handler_data`, or return from it. -/
def Mode.resume : Mode → Option Handler → Mode
  | .handling _, some next => .handling next
  | .handling _, none => .running
  | .exitingHandling _, some next => .exitingHandling next
  | .exitingHandling _, none => .exiting false
  | mode, _ => mode

/-- `usr1` and `term` are the pending signals; `printed` lists the messages of
the print events, an unfilled buffer slot being `none`. -/
structure Consumer where
  usr1 : Bool
  term : Bool
  mode : Mode
  printed : List (Option Nat)
  deriving DecidableEq, Repr

/-- Program points of the parent after it has forked the consumers. -/
inductive Parent where
  | batch (num_of_data : Nat)
  | copy (num_of_data batch_size j : Nat)
  | kill (num_of_data batch_size i : Nat)
  | terminate (i : Nat)
  | waitpid (i : Nat)
  | report
  | finished (receivedMessage : Int)
  deriving DecidableEq, Repr

/-- `received` is `shared_count[0]`. `batch` was stored last to `shared_count[1]`, and
`zeroed` tells whether that has been zeroed since. `sent` lists the batch size of every
SIGUSR1 sent so far and `stored` adds up the counts that handlers have stored; no step
depends on these two. -/
structure State (N : Nat) where
  parent : Parent
  received : Int
  batch : Nat
  zeroed : Bool
  addr : Nat → Option Nat
  consumer : Fin N → Consumer
  sent : List Nat
  stored : Nat

/-- `shared_count[1]` -/
def State.advertised {N : Nat} (state : State N) : Nat := if state.zeroed then 0 else state.batch

/-- A step of the parent or of a consumer, or of the system: the page is written back. -/
inductive Action (N : Nat) where
  | parent
  | writeback
  | deliverData (c : Fin N)
  | deliverTerm (c : Fin N)
  | handler (c : Fin N)
  | exit (c : Fin N)
  deriving DecidableEq, Repr

variable {N : Nat}

def State.setConsumer (state : State N) (c : Fin N) (consumer : Consumer) : State N :=
  { state with consumer := Function.update state.consumer c consumer }

/-- The consumers wait in `pause`; the buffer is still the zero bytes of the new file. -/
def start (arguments : Arguments) : State arguments.N where
  parent := .batch 0
  received := 0
  batch := arguments.B
  zeroed := false
  addr := fun _ => none
  consumer := fun _ => ⟨false, false, .running, []⟩
  sent := []
  stored := 0

def batch_size (arguments : Arguments) (num_of_data : Nat) : Nat :=
  if arguments.M - num_of_data > arguments.B then arguments.B else arguments.M - num_of_data

/-- The send loop, the terminations and the final report of `main`. -/
def parentStep (arguments : Arguments) (state : State arguments.N) : Option (State arguments.N) :=
  match state.parent with
  | .batch num_of_data =>
    if num_of_data < arguments.M then
      let size := batch_size arguments num_of_data
      some { state with
        -- The advertised size is written for a smaller batch only.
        batch := if size < arguments.B then size else state.batch
        zeroed := if size < arguments.B then false else state.zeroed
        parent := .copy num_of_data size 0 }
    else some { state with parent := .terminate 0 }
  | .copy num_of_data size j =>
    if j < size then
      some { state with
        addr := Function.update state.addr j (generator arguments.M)[num_of_data + j]?
        parent := .copy num_of_data size (j + 1) }
    else some { state with parent := .kill (num_of_data + size) size 0 }
  | .kill num_of_data size i =>
    if bound : i < arguments.N then
      some { state.setConsumer ⟨i, bound⟩ { state.consumer ⟨i, bound⟩ with usr1 := true } with
        sent := state.sent ++ [size]
        parent := .kill num_of_data size (i + 1) }
    else some { state with parent := .batch num_of_data }
  | .terminate i =>
    if bound : i < arguments.N then
      some { state.setConsumer ⟨i, bound⟩ { state.consumer ⟨i, bound⟩ with term := true } with
        parent := .waitpid i }
    else some { state with parent := .report }
  | .waitpid i =>
    if bound : i < arguments.N then
      if (state.consumer ⟨i, bound⟩).mode = .exited then
        some { state with parent := .terminate (i + 1) }
      else none
    else none
  | .report => some { state with parent := .finished state.received }
  | .finished _ => none

/-- One access of `sig_handler_data` to shared memory. -/
def sig_handler_data (state : State N) (c : Fin N) : Handler → State N
  | .entered =>
    let consumer := state.consumer c
    state.setConsumer c { consumer with
      mode := consumer.mode.resume (some (.printing state.advertised 0 0)) }
  | .printing num_batch i count =>
    let consumer := state.consumer c
    if i < num_batch then
      state.setConsumer c { consumer with
        printed := consumer.printed ++ [state.addr i]
        mode := consumer.mode.resume (some (.printing num_batch (i + 1) (count + 1))) }
    else
      -- The load of `shared_count[0] += count`; the store is the next step of this handler.
      state.setConsumer c { consumer with
        mode := consumer.mode.resume (some (.storing count state.received)) }
  | .storing count loaded =>
    let consumer := state.consumer c
    { state.setConsumer c { consumer with mode := consumer.mode.resume none } with
      received := int (loaded + count)
      stored := state.stored + count }

def step (arguments : Arguments) (state : State arguments.N) :
    Action arguments.N → Option (State arguments.N)
  | .parent => parentStep arguments state
  | .writeback => some { state with zeroed := true }
  | .deliverData c =>
    let consumer := state.consumer c
    if consumer.usr1 then
      match consumer.mode with
      | .running => some (state.setConsumer c { consumer with
          usr1 := false, mode := .handling .entered })
      -- SIGUSR1 is not blocked in the handler of SIGTERM, unless that interrupted its own handler.
      | .exiting false => some (state.setConsumer c { consumer with
          usr1 := false, mode := .exitingHandling .entered })
      | _ => none
    else none
  | .deliverTerm c =>
    let consumer := state.consumer c
    if consumer.term then
      match consumer.mode with
      | .running => some (state.setConsumer c { consumer with term := false, mode := .exiting false })
      | .handling _ => some (state.setConsumer c { consumer with term := false, mode := .exiting true })
      | _ => none
    else none
  | .handler c =>
    match (state.consumer c).mode.handler with
    | some handler => some (sig_handler_data state c handler)
    | none => none
  | .exit c =>
    let consumer := state.consumer c
    match consumer.mode with
    | .exiting _ => some (state.setConsumer c { consumer with mode := .exited })
    | _ => none

def machine (arguments : Arguments) : Machine (State arguments.N) (Action arguments.N) where
  start := start arguments
  step := step arguments

end LinuxProgramming.ProducerConsumer
