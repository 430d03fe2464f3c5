import LinuxProgramming.Foundation.Machine
import LinuxProgramming.MessageQueue.Servers

/-! A server with the clients that send it their numbers.

The one that comes first makes the queue. The server takes the queue away when it stops,
and a client that comes later makes a new one, which nobody reads. A System V queue is
gone with its identifier, and a POSIX queue stays for those who have it open.
-/

set_option autoImplicit false

namespace LinuxProgramming.MessageQueue
open Foundation

def MAX_TEXT : Nat := 512

inductive Kind where
  | systemV
  | posix
  deriving DecidableEq, Repr

def Kind.turn : Kind → Buffer BUFSIZ → Int → Option Message → Turn
  | .systemV => msgrcvTurn
  | .posix => mqReceiveTurn

/-- The argument of a client. -/
structure Argument where
  text : List Byte
  plain : NUL ∉ text

/-- `strcpy` into an array that is sent as a whole; it runs over the end with a long text. -/
def msgsndMessage (argument : Argument) (memory : Buffer MAX_TEXT) : Option Message :=
  if fits : argument.text.length < MAX_TEXT then
    some { argument with
      behind := memory.bytes.drop (argument.text.length + 1)
      fits := by
        rw [List.length_drop, memory.length_eq]
        unfold MAX_TEXT BUFSIZ at *
        omega }
  else none

/-- `strncpy`, and a NUL at the end of the array in any case. -/
def mqSendMessage (argument : Argument) : Message where
  text := argument.text.take (MAX_TEXT - 1)
  plain member := argument.plain (List.mem_of_mem_take member)
  behind := []
  fits := by
    rw [List.length_take, List.length_nil]
    unfold MAX_TEXT BUFSIZ
    omega

def Kind.message : Kind → Argument → Buffer MAX_TEXT → Option Message
  | .systemV, argument, memory => msgsndMessage argument memory
  | .posix, argument, _ => some (mqSendMessage argument)

/-- A message, and the client that sent it. -/
structure Entry (Client : Type) where
  sender : Client
  message : Message

/-- The queues by their numbers, none of which is used twice, and the one that the key or
the name leads to. -/
structure Ipc (Client : Type) where
  name : Option Nat
  queue : Nat → Option (List (Entry Client))
  fresh : Nat

inductive ClientPlace where
  | opening
  | sending (msqid : Nat) (message : Message)
  | sent
  | failed
  | undefined

inductive ServerPlace where
  | opening
  | receiving (msqid : Nat)
  | removing (msqid : Nat)
  | exited
  | failed
  | undefined
  deriving DecidableEq, Repr

/-- `sent` and `receipts` are kept for the statements only, no step depends on them. -/
structure State (Client : Type) where
  ipc : Ipc Client
  client : Client → ClientPlace
  server : ServerPlace
  data : Buffer BUFSIZ
  count : Int
  turns : List Turn
  signals : Nat
  sent : List (Entry Client)
  receipts : List (Option (Entry Client))

/-- A call that fails ends a client. It ends the server that has no queue yet, and the
one that removes its queue leaves it behind. -/
inductive Action (Client : Type) where
  | client (client : Client)
  | clientFails (client : Client)
  | server
  | serverFails
  | interrupt
  deriving DecidableEq, Repr

/-- The arguments of the clients, what their arrays and that of the server held before,
the room in a queue, and the number of receives that may fail. -/
structure Program (Client : Type) where
  kind : Kind
  argument : Client → Argument
  array : Client → Buffer MAX_TEXT
  memory : Buffer BUFSIZ
  capacity : Nat
  positive : 0 < capacity
  signals : Nat

section Program

variable {Client : Type}

def Program.message (program : Program Client) (client : Client) : Option Message :=
  program.kind.message (program.argument client) (program.array client)

/-- `msgget` and `mq_open`, with the flag that lets them make a queue. -/
def Ipc.get (ipc : Ipc Client) : Nat × Ipc Client :=
  match ipc.name with
  | some msqid => (msqid, ipc)
  | none => (ipc.fresh,
      { name := some ipc.fresh
        queue := Function.update ipc.queue ipc.fresh (some [])
        fresh := ipc.fresh + 1 })

def Ipc.put (ipc : Ipc Client) (msqid : Nat) (queued : List (Entry Client)) : Ipc Client :=
  { ipc with queue := Function.update ipc.queue msqid (some queued) }

/-- `msgctl` with `IPC_RMID`, and `mq_unlink`. -/
def Kind.remove : Kind → Ipc Client → Nat → Ipc Client
  | .systemV, ipc, msqid =>
    { ipc with
      name := if ipc.name = some msqid then none else ipc.name
      queue := Function.update ipc.queue msqid none }
  | .posix, ipc, _ => { ipc with name := none }

/-- A round of the server's loop. -/
def State.round (program : Program Client) (state : State Client) (msqid : Nat)
    (received : Option (Entry Client)) : State Client :=
  let turn := program.kind.turn state.data state.count (received.map Entry.message)
  { state with
    data := receive state.data (received.map Entry.message)
    turns := state.turns ++ [turn]
    receipts := state.receipts ++ [received]
    count := match turn.next with
      | .counts count => count
      | _ => state.count
    server := match turn.next with
      | .counts _ => .receiving msqid
      | .stops => .removing msqid
      | .undefined => .undefined }

def serverStep (program : Program Client) (state : State Client) : Option (State Client) :=
  match state.server with
  | .opening => some { state with
      ipc := state.ipc.get.2
      server := .receiving state.ipc.get.1 }
  | .receiving msqid =>
    match state.ipc.queue msqid with
    | none => some (state.round program msqid none)
    | some [] => none
    | some (entry :: queued) =>
      some ({ state with ipc := state.ipc.put msqid queued }.round program msqid (some entry))
  | .removing msqid => some { state with
      ipc := program.kind.remove state.ipc msqid
      server := .exited }
  | .exited | .failed | .undefined => none

variable [DecidableEq Client]

def State.goto (state : State Client) (client : Client) (place : ClientPlace) : State Client :=
  { state with client := Function.update state.client client place }

def clientStep (program : Program Client) (state : State Client) (client : Client) :
    Option (State Client) :=
  match state.client client with
  | .opening =>
    let opened := state.ipc.get
    match program.message client with
    | some message => some { state.goto client (.sending opened.1 message) with ipc := opened.2 }
    | none => some { state.goto client .undefined with ipc := opened.2 }
  | .sending msqid message =>
    match state.ipc.queue msqid with
    | none => some (state.goto client .failed)
    | some queued =>
      if queued.length < program.capacity then
        some { state.goto client .sent with
          ipc := state.ipc.put msqid (queued ++ [⟨client, message⟩])
          sent := state.sent ++ [⟨client, message⟩] }
      else none
  | .sent | .failed | .undefined => none

def step (program : Program Client) (state : State Client) : Action Client → Option (State Client)
  | .client client => clientStep program state client
  | .clientFails client =>
    match state.client client with
    | .opening | .sending _ _ => some (state.goto client .failed)
    | .sent | .failed | .undefined => none
  | .server => serverStep program state
  | .serverFails =>
    match state.server with
    | .opening => some { state with server := .failed }
    | .removing _ => some { state with server := .exited }
    | .receiving _ | .exited | .failed | .undefined => none
  | .interrupt =>
    match state.server, state.signals with
    | .receiving msqid, signals + 1 =>
      some ({ state with signals := signals }.round program msqid none)
    | _, _ => none

/-- Nobody has made a queue yet. -/
def machine (program : Program Client) : Machine (State Client) (Action Client) where
  start := {
    ipc := ⟨none, fun _ => none, 0⟩
    client := fun _ => .opening
    server := .opening
    data := program.memory
    count := 0
    turns := []
    signals := program.signals
    sent := []
    receipts := [] }
  step := step program

end Program

end LinuxProgramming.MessageQueue
