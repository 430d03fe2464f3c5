import LinuxProgramming.Foundation.CString
import LinuxProgramming.Foundation.Machine
import Mathlib.Algebra.Group.Nat.Defs

/-! The server that polls its FIFO, with its clients.

A client writes its message in one piece, but a FIFO keeps no boundaries. A read takes
as much as the array of the server has room for, and what it takes is shown as one
string: the messages behind the first one are lost.
-/

set_option autoImplicit false

namespace LinuxProgramming.FifoServer
open Foundation

/-- What a client writes: a string, and the NUL behind it. -/
structure Message where
  text : List Byte
  plain : NUL ∉ text
  length_eq : text.length = 35

def Message.bytes (message : Message) : List Byte := message.text ++ [NUL]

/-- A line of the output. A string that does not end in the array would not be one. -/
structure ReceivedData where
  req_num : Int
  text : Option (List Byte)
  deriving DecidableEq, Repr

inductive Place where
  | started
  | opened
  | written
  | closed
  deriving DecidableEq, Repr

/-- `written` has the messages in the order in which they went into the FIFO. -/
structure State (Client : Type) where
  place : Client → Place
  written : List Message
  fifo : List Byte
  buffer : Buffer 100
  req_num : Int
  output : List ReceivedData

inductive Action (Client : Type) where
  | openFifo (client : Client)
  | write (client : Client)
  | close (client : Client)
  | read
  deriving DecidableEq

/-- The capacity of a FIFO. A client waits until there is room for all it writes. -/
def CAPACITY : Nat := 65536

variable {Client : Type}

/-- A round of the loop of the server. The FIFO is open for writing in the server itself,
so an empty one means EAGAIN. -/
def read (state : State Client) : State Client :=
  if state.fifo = [] then state
  else
    let buffer := state.buffer.overwrite (state.fifo.take 100)
    { state with
      fifo := state.fifo.drop 100
      buffer := buffer
      req_num := (state.req_num + 1).bmod (2 ^ 32)
      output := state.output ++ [⟨state.req_num, buffer.string⟩] }

/-- Whether a round keeps up: there is nothing, or one message, and a number for it. -/
def keepsUp (state : State Client) : Action Client → Bool
  | .read => state.fifo = [] || state.fifo.length = 36 && state.output.length + 2 < 2 ^ 31
  | _ => true

/-- The lines that are due for some messages. -/
def lines : Int → List Message → List ReceivedData
  | _, [] => []
  | req_num, message :: messages => ⟨req_num, some message.text⟩ :: lines (req_num + 1) messages

/-- The messages that are no longer in the FIFO have been reported one by one, and the
others are in the FIFO. -/
structure Reports (state : State Client) (reported waiting : List Message) : Prop where
  written : state.written = reported ++ waiting
  output : state.output = lines 1 reported
  fifo : state.fifo = waiting.flatMap Message.bytes
  req_num : state.req_num = reported.length + 1

def Reported (state : State Client) : Prop := ∃ reported waiting, Reports state reported waiting

@[simp] theorem Message.bytes_length (message : Message) : message.bytes.length = 36 := by
  simp [Message.bytes, message.length_eq]

@[simp] theorem lines_length (req_num : Int) (messages : List Message) :
    (lines req_num messages).length = messages.length := by
  induction messages generalizing req_num with
  | nil => rfl
  | cons message messages ih => rw [lines, List.length_cons, ih, List.length_cons]

theorem lines_concat (req_num : Int) (messages : List Message) (message : Message) :
    lines req_num (messages ++ [message]) =
      lines req_num messages ++ [⟨req_num + messages.length, some message.text⟩] := by
  induction messages generalizing req_num with
  | nil => simp [lines]
  | cons first messages ih =>
    rw [List.cons_append, lines, ih, lines, List.cons_append, List.length_cons]
    have place : req_num + 1 + (messages.length : Int) = req_num + (messages.length + 1 : Nat) := by
      omega
    rw [place]

theorem waiting_length (waiting : List Message) :
    (waiting.flatMap Message.bytes).length = 36 * waiting.length := by
  induction waiting with
  | nil => rfl
  | cons message waiting ih =>
    rw [List.flatMap_cons, List.length_append, Message.bytes_length, ih, List.length_cons]
    omega

theorem reported_read {state : State Client} (reports : Reported state)
    (keeps : keepsUp state .read = true) : Reported (read state) := by
  unfold read
  split
  next => exact reports
  next some_bytes =>
    obtain ⟨reported, waiting, reports⟩ := reports
    have one : state.fifo.length = 36 ∧ state.output.length + 2 < 2 ^ 31 := by
      simpa [keepsUp, some_bytes] using keeps
    have size := waiting_length waiting
    rw [← reports.fifo] at size
    obtain ⟨message, rfl⟩ := List.length_eq_one_iff.mp (show waiting.length = 1 by omega)
    have held : state.fifo = message.bytes := by simpa using reports.fifo
    have whole : state.fifo.take 100 = message.bytes := by
      rw [List.take_of_length_le (by omega), held]
    have string : (state.buffer.overwrite message.bytes).string = some message.text := by
      have bytes : (state.buffer.overwrite message.bytes).bytes =
          message.text ++ NUL :: state.buffer.bytes.drop message.bytes.length := by
        rw [Buffer.bytes_overwrite (by simp)]
        simp [Message.bytes]
      exact Buffer.string_of_bytes message.plain bytes
    have count := congrArg List.length reports.output
    rw [lines_length] at count
    refine ⟨reported ++ [message], [], ?_, ?_, ?_, ?_⟩
    · rw [reports.written, List.append_nil]
    · rw [lines_concat]
      simp only [whole, string, reports.output, reports.req_num]
      rw [Int.add_comm]
    · rw [List.drop_of_length_le (by omega)]
      rfl
    · simp only [reports.req_num, List.length_append, List.length_singleton]
      rw [Int.bmod_eq_of_le (by omega) (by omega)]
      omega

/-- A read that takes more than one message takes too much. -/
theorem keepsUp_of_reported {state : State Client} (before : Reported state)
    (after : Reported (read state)) : keepsUp state .read = true := by
  by_cases some_bytes : state.fifo = []
  · simp [keepsUp, some_bytes]
  · obtain ⟨reported, waiting, reports⟩ := before
    obtain ⟨shown, left, later⟩ := after
    unfold read at later
    rw [if_neg some_bytes] at later
    have written := congrArg List.length (reports.written.symm.trans later.written)
    have held := congrArg List.length reports.fifo
    have rest := congrArg List.length later.fifo
    have printed := congrArg List.length reports.output
    have more := congrArg List.length later.output
    have number := later.req_num
    simp only [List.length_append, List.length_drop, waiting_length, lines_length,
      List.length_singleton, reports.req_num] at written held rest printed more number
    have filled : 0 < state.fifo.length := List.length_pos_iff.mpr some_bytes
    have below : ((reported.length + 1 + 1 : Int)).bmod (2 ^ 32) < 2 ^ 31 :=
      Int.bmod_lt (by decide)
    rw [number] at below
    have one : state.fifo.length = 36 := by omega
    have room : state.output.length + 2 < 2 ^ 31 := by omega
    rw [keepsUp, decide_eq_true one, decide_eq_true room, Bool.and_self, Bool.or_true]

section Server

variable [DecidableEq Client] {message : Client → Message}

def step (message : Client → Message) (state : State Client) : Action Client → Option (State Client)
  | .openFifo client =>
    if state.place client = .started then
      some { state with place := Function.update state.place client .opened }
    else none
  | .write client =>
    if state.place client = .opened ∧ state.fifo.length + 36 ≤ CAPACITY then
      some { state with
        place := Function.update state.place client .written
        written := state.written ++ [message client]
        fifo := state.fifo ++ (message client).bytes }
    else none
  | .close client =>
    if state.place client = .written then
      some { state with place := Function.update state.place client .closed }
    else none
  | .read => some (read state)

/-- The array of the server holds whatever was in memory. -/
def machine (message : Client → Message) (memory : Buffer 100) :
    Machine (State Client) (Action Client) where
  start :=
    { place := fun _ => .started
      written := []
      fifo := []
      buffer := memory
      req_num := 1
      output := [] }
  step := step message

theorem decides {state next : State Client} {action : Action Client} (reports : Reported state)
    (taken : step message state action = some next) :
    Reported next ↔ keepsUp state action = true := by
  cases action with
  | openFifo client =>
    simp only [step] at taken
    split at taken
    next =>
      cases taken
      obtain ⟨reported, waiting, same⟩ := reports
      exact iff_of_true ⟨reported, waiting, same.written, same.output, same.fifo, same.req_num⟩ rfl
    next => cases taken
  | write client =>
    simp only [step] at taken
    split at taken
    next =>
      cases taken
      obtain ⟨reported, waiting, reports⟩ := reports
      refine iff_of_true ⟨reported, waiting ++ [message client], ?_, reports.output, ?_,
        reports.req_num⟩ rfl
      · simp [reports.written]
      · simp [reports.fifo]
    next => cases taken
  | close client =>
    simp only [step] at taken
    split at taken
    next =>
      cases taken
      obtain ⟨reported, waiting, same⟩ := reports
      exact iff_of_true ⟨reported, waiting, same.written, same.output, same.fifo, same.req_num⟩ rfl
    next => cases taken
  | read =>
    cases taken
    exact ⟨keepsUp_of_reported reports, reported_read reports⟩

/-- The messages of a run are reported all along exactly if every read that finds something
finds one message. -/
theorem reported_always_iff (message : Client → Message) (memory : Buffer 100)
    {schedule : List (Action Client)} {final : State Client}
    (run : (machine message memory).exec (machine message memory).start schedule = some final) :
    (machine message memory).Always Reported (machine message memory).start schedule ↔
      ((machine message memory).guarded keepsUp).exec (machine message memory).start schedule =
        some final := by
  have start : Reported (machine message memory).start := ⟨[], [], rfl, rfl, rfl, rfl⟩
  exact Machine.always_iff_guarded decides start run

end Server

/-- The message that the clients write. -/
def hasOpened : Message where
  text := "Client has opened FIFO for reading.".toList.map Char.toUInt8
  plain := by decide
  length_eq := by decide

def clients (Client : Type) [DecidableEq Client] : Machine (State Client) (Action Client) :=
  machine (fun _ => hasOpened) Buffer.zero

/-- The server reads between the two clients that write. -/
def inTurns : List (Action Bool) :=
  [.openFifo true, .openFifo false, .write true, .read, .write false, .close true, .read, .read]

theorem reported_always_iff_inTurns :
    ∃ final, (clients Bool).exec (clients Bool).start inTurns = some final ∧
      ((clients Bool).Always Reported (clients Bool).start inTurns ↔
        ((clients Bool).guarded keepsUp).exec (clients Bool).start inTurns = some final) :=
  ⟨_, rfl, reported_always_iff (fun _ => hasOpened) Buffer.zero rfl⟩

/-- Two clients write before the server reads again. -/
theorem report_lost : ¬ ∀ state, (clients Bool).Reachable state → Reported state := by
  intro always
  obtain ⟨state, reached, facts⟩ := Machine.exists_reachable
    (show ((clients Bool).exec (clients Bool).start
      [.openFifo true, .openFifo false, .write true, .write false, .read]).map (fun state =>
        (state.output.length, state.written.length, state.fifo)) = some (1, 2, []) by decide)
  obtain ⟨reported, waiting, reports⟩ := always state reached
  have output := congrArg List.length reports.output
  have written := congrArg List.length reports.written
  have held := congrArg List.length reports.fifo
  simp only [Prod.mk.injEq] at facts
  rw [facts.1, lines_length] at output
  rw [facts.2.1, List.length_append] at written
  rw [facts.2.2, waiting_length, List.length_nil] at held
  omega

end LinuxProgramming.FifoServer
