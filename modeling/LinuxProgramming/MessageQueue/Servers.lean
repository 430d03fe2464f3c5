import LinuxProgramming.Foundation.Numerals
import LinuxProgramming.Foundation.Splits

/-! The servers that add up the numbers in the messages of a queue.

The array for the message lives as long as the loop. After a receive that fails, the
server with the System V queue goes on with what the array has held before, and the
one with the POSIX queue starts over.
-/

set_option autoImplicit false

namespace LinuxProgramming.MessageQueue
open Foundation

def BUFSIZ : Nat := 8192

/-- A message as a client sends it: a string, and the rest of the client's array. -/
structure Message where
  text : List Byte
  plain : NUL ∉ text
  behind : List Byte
  fits : text.length + 1 + behind.length ≤ BUFSIZ

def Message.bytes (message : Message) : List Byte := message.text ++ NUL :: message.behind

def MSG_STOP : List Byte := ['e', 'n', 'd'].map Char.toUInt8

/-- Equality of the first three characters, as `strncmp` has it. -/
def ends (text : List Byte) : Bool := strcmp (text.take 3) MSG_STOP = .eq

/-- The values of an `int`. -/
def InInt (value : Int) : Prop := -2 ^ 31 ≤ value ∧ value < 2 ^ 31

instance (value : Int) : Decidable (InInt value) :=
  inferInstanceAs (Decidable (_ ∧ _))

/-- How a round of the loop ends. -/
inductive Next where
  | counts (count : Int)
  | stops
  | undefined
  deriving DecidableEq, Repr

/-- A round: what was received, if anything was, the count before, the number that was
printed, and how it went on. -/
structure Turn where
  received : Option Message
  count : Int
  response : Option Int
  next : Next

/-- `count += atoi(data.text)`. -/
def add (count : Int) (data : Buffer BUFSIZ) : Next :=
  match data.string with
  | none => .undefined
  | some text => if InInt (count + atoi text) then .counts (count + atoi text) else .undefined

/-- The rest of a round, after the receive. -/
def respond (data : Buffer BUFSIZ) (count : Int) (received : Option Message) : Turn :=
  ⟨received, count, some count, if ends data.text then .stops else add count data⟩

/-- A receive that succeeds stores the message; any other one leaves the array alone. -/
def receive (data : Buffer BUFSIZ) : Option Message → Buffer BUFSIZ
  | none => data
  | some message => data.overwrite message.bytes

/-- The round of the server with the System V queue. -/
def msgrcvTurn (data : Buffer BUFSIZ) (count : Int) (received : Option Message) : Turn :=
  respond (receive data received) count received

/-- The round of the server with the POSIX queue. -/
def mqReceiveTurn (data : Buffer BUFSIZ) (count : Int) (received : Option Message) : Turn :=
  match received with
  | none => ⟨none, count, none, .counts count⟩
  | some _ => respond (receive data received) count received

/-- The loop, over the results of the receives. -/
def serve (turn : Buffer BUFSIZ → Int → Option Message → Turn) (data : Buffer BUFSIZ)
    (count : Int) : List (Option Message) → List Turn
  | [] => []
  | received :: later =>
    let round := turn data count received
    match round.next with
    | .counts count => round :: serve turn (receive data received) count later
    | _ => [round]

/-! What the servers are for. -/

def total : List Message → Int
  | [] => 0
  | message :: messages => atoi message.text + total messages

/-- Behind the messages before, a message is answered with their sum, and no message
leads to nowhere; a receive that fails changes nothing. -/
def Turn.Sound (before : List Message) (turn : Turn) : Prop :=
  match turn.received with
  | some _ => turn.response = some (total before) ∧ turn.next ≠ .undefined
  | none => turn.next = .counts turn.count

/-- Every round of a run is sound. -/
def CountsOnce (turns : List Turn) : Prop :=
  ∀ before turn after, turns = before ++ turn :: after →
    turn.Sound (before.filterMap Turn.received)

/-- What the array holds after some messages. -/
def held (memory : Buffer BUFSIZ) (messages : List Message) : Buffer BUFSIZ :=
  messages.foldl (fun data message => data.overwrite message.bytes) memory

theorem total_concat (messages : List Message) (message : Message) :
    total (messages ++ [message]) = total messages + atoi message.text := by
  induction messages with
  | nil => simp [total]
  | cons first messages ih => rw [List.cons_append, total, total, ih, Int.add_assoc]

theorem held_concat (memory : Buffer BUFSIZ) (messages : List Message) (message : Message) :
    held memory (messages ++ [message]) = (held memory messages).overwrite message.bytes := by
  rw [held, List.foldl_append]
  rfl

theorem string_overwrite (data : Buffer BUFSIZ) (message : Message) :
    (data.overwrite message.bytes).string = some message.text := by
  have fits : message.bytes.length ≤ BUFSIZ := by
    have := message.fits
    simp [Message.bytes]
    omega
  have bytes : (data.overwrite message.bytes).bytes =
      message.text ++ NUL :: (message.behind ++ data.bytes.drop message.bytes.length) := by
    rw [Buffer.bytes_overwrite fits]
    simp [Message.bytes]
  exact Buffer.string_of_bytes message.plain bytes

theorem text_overwrite (data : Buffer BUFSIZ) (message : Message) :
    (data.overwrite message.bytes).text = message.text := by
  have string := string_overwrite data message
  rw [Buffer.string] at string
  split at string
  next => exact Option.some.inj string
  next => cases string

theorem respond_message (data : Buffer BUFSIZ) (count : Int) (message : Message) :
    respond (data.overwrite message.bytes) count (some message) =
      ⟨some message, count, some count,
        if ends message.text then .stops
        else if InInt (count + atoi message.text) then .counts (count + atoi message.text)
        else .undefined⟩ := by
  rw [respond, text_overwrite, add, string_overwrite]

section Loop

variable {turn : Buffer BUFSIZ → Int → Option Message → Turn} {Quiet : Buffer BUFSIZ → Prop}

/-- The rounds of a server. It may lose a failed receive on what the array holds only. -/
structure Treats (turn : Buffer BUFSIZ → Int → Option Message → Turn)
    (Quiet : Buffer BUFSIZ → Prop) : Prop where
  message : ∀ data count message, turn data count (some message) =
    respond (data.overwrite message.bytes) count (some message)
  received : ∀ data count, (turn data count none).received = none
  count : ∀ data count, (turn data count none).count = count
  failed : ∀ data count, InInt count →
    ((turn data count none).next = .counts count ↔ Quiet data)

/-- A receive may fail while the array is quiet, and a message may come that stops the
server or that the sum has room for. -/
def Admits (Quiet : Buffer BUFSIZ → Prop) (memory : Buffer BUFSIZ) (before : List Message) :
    Option Message → Prop
  | none => Quiet (held memory before)
  | some message => ends message.text = true ∨ InInt (total before + atoi message.text)

/-- No message is among them that stops the server. -/
def Open (receipts : List (Option Message)) : Prop :=
  ∀ message, some message ∈ receipts → ends message.text = false

theorem open_cons_none {receipts : List (Option Message)} :
    Open (none :: receipts) ↔ Open receipts := by
  simp [Open]

theorem open_cons_some {message : Message} {receipts : List (Option Message)} :
    Open (some message :: receipts) ↔ ends message.text = false ∧ Open receipts := by
  simp [Open]

theorem serve_counts {data : Buffer BUFSIZ} {count more : Int} {received : Option Message}
    (next : (turn data count received).next = .counts more) (later : List (Option Message)) :
    serve turn data count (received :: later) =
      turn data count received :: serve turn (receive data received) more later := by
  rw [serve]
  simp only [next]

theorem serve_ends {data : Buffer BUFSIZ} {count : Int} {received : Option Message}
    (next : ∀ more, (turn data count received).next ≠ .counts more)
    (later : List (Option Message)) :
    serve turn data count (received :: later) = [turn data count received] := by
  rw [serve]
  cases ended : (turn data count received).next with
  | counts more => exact absurd ended (next more)
  | stops | undefined => rfl

theorem serve_cons (data : Buffer BUFSIZ) (count : Int) (received : Option Message)
    (later : List (Option Message)) :
    ∃ rounds, serve turn data count (received :: later) = turn data count received :: rounds := by
  cases next : (turn data count received).next with
  | counts more => exact ⟨_, serve_counts next later⟩
  | stops | undefined =>
    refine ⟨[], serve_ends (fun more same => ?_) later⟩
    rw [next] at same
    cases same

theorem Treats.sound_failed (treats : Treats turn Quiet) {data : Buffer BUFSIZ} {count : Int}
    (inside : InInt count) (before : List Message) :
    (turn data count none).Sound before ↔ Quiet data := by
  rw [← treats.failed data count inside, Turn.Sound, treats.received]
  simp only [treats.count]

/-- A message that the server admits is the last one, or the sum goes on with it. -/
theorem Treats.sound_message (treats : Treats turn Quiet) (data : Buffer BUFSIZ)
    (before : List Message) (message : Message) :
    (turn data (total before) (some message)).Sound before ↔
      ends message.text = true ∨ InInt (total before + atoi message.text) := by
  rw [treats.message, respond_message, Turn.Sound]
  simp only [true_and]
  cases stops : ends message.text with
  | true => simp
  | false => by_cases room : InInt (total before + atoi message.text) <;> simp [room]

/-- Every round behind some messages is sound. -/
def SoundBehind (earlier : List Message) (turns : List Turn) : Prop :=
  ∀ before turn after, turns = before ++ turn :: after →
    turn.Sound (earlier ++ before.filterMap Turn.received)

/-- Behind some messages every receive is admitted, up to the one that stops the server. -/
def AdmitsBehind (Quiet : Buffer BUFSIZ → Prop) (memory : Buffer BUFSIZ) (earlier : List Message)
    (receipts : List (Option Message)) : Prop :=
  ∀ before received after, receipts = before ++ received :: after → Open before →
    Admits Quiet memory (earlier ++ before.filterMap id) received

theorem soundBehind_cons {earlier : List Message} {turn : Turn} {turns : List Turn} :
    SoundBehind earlier (turn :: turns) ↔
      turn.Sound earlier ∧ SoundBehind (earlier ++ turn.received.toList) turns := by
  rw [SoundBehind, splits_cons_iff, SoundBehind, List.filterMap_nil, List.append_nil]
  cases received : turn.received with
  | none => simp only [List.filterMap_cons, received, Option.toList_none, List.append_nil]
  | some message =>
    simp only [List.filterMap_cons, received, Option.toList_some, List.append_assoc,
      List.singleton_append]

theorem admitsBehind_none {memory : Buffer BUFSIZ} {earlier : List Message}
    {receipts : List (Option Message)} :
    AdmitsBehind Quiet memory earlier (none :: receipts) ↔
      Admits Quiet memory earlier none ∧ AdmitsBehind Quiet memory earlier receipts := by
  have nothing : Open [] := fun message member => by cases member
  rw [AdmitsBehind, splits_cons_iff, AdmitsBehind, List.filterMap_nil, List.append_nil,
    forall_prop_of_true nothing]
  simp only [open_cons_none, List.filterMap_cons, id]

theorem admitsBehind_some {memory : Buffer BUFSIZ} {earlier : List Message} {message : Message}
    {receipts : List (Option Message)} :
    AdmitsBehind Quiet memory earlier (some message :: receipts) ↔
      Admits Quiet memory earlier (some message) ∧ (ends message.text = false →
        AdmitsBehind Quiet memory (earlier ++ [message]) receipts) := by
  have nothing : Open [] := fun message member => by cases member
  rw [AdmitsBehind, splits_cons_iff, List.filterMap_nil, List.append_nil,
    forall_prop_of_true nothing]
  refine and_congr_right fun _ => ?_
  cases stops : ends message.text with
  | true =>
    refine iff_of_true (fun before received after split goes_on => ?_) fun same => by cases same
    rw [(open_cons_some.mp goes_on).1] at stops
    cases stops
  | false =>
    simp only [AdmitsBehind, open_cons_some, stops, true_and, List.filterMap_cons, id,
      List.append_assoc, List.singleton_append, forall_const]

/-- A message after which the server goes on is added to the sum. -/
theorem Treats.counts_message (treats : Treats turn Quiet) (memory : Buffer BUFSIZ)
    {earlier : List Message} {message : Message} (goes_on : ends message.text = false)
    (room : InInt (total (earlier ++ [message]))) :
    (turn (held memory earlier) (total earlier) (some message)).next =
      .counts (total (earlier ++ [message])) := by
  rw [total_concat] at room ⊢
  simp [treats.message, respond_message, goes_on, room]

/-- The rounds behind some messages are sound where the receives are admitted. -/
theorem serve_sound_iff (treats : Treats turn Quiet) (memory : Buffer BUFSIZ)
    {earlier : List Message} (inside : InInt (total earlier)) (receipts : List (Option Message)) :
    SoundBehind earlier (serve turn (held memory earlier) (total earlier) receipts) ↔
      AdmitsBehind Quiet memory earlier receipts := by
  induction receipts generalizing earlier with
  | nil => exact iff_of_true (splits_nil (P := _)) (splits_nil (P := _))
  | cons received receipts ih =>
    obtain ⟨rounds, first⟩ : ∃ rounds, serve turn (held memory earlier) (total earlier)
        (received :: receipts) = turn (held memory earlier) (total earlier) received :: rounds :=
      serve_cons _ _ _ _
    cases received with
    | none =>
      rw [admitsBehind_none]
      by_cases quiet : Quiet (held memory earlier)
      · have next := (treats.failed (held memory earlier) (total earlier) inside).mpr quiet
        rw [serve_counts next, soundBehind_cons, treats.received, Option.toList_none,
          List.append_nil]
        exact and_congr (treats.sound_failed inside earlier) (ih inside)
      · rw [first, soundBehind_cons, treats.sound_failed inside earlier]
        exact iff_of_false (fun sound => quiet sound.1) fun admits => quiet admits.1
    | some message =>
      have here := treats.sound_message (held memory earlier) earlier message
      have same : (turn (held memory earlier) (total earlier) (some message)).received =
          some message := by
        rw [treats.message, respond_message]
      rw [admitsBehind_some]
      cases stops : ends message.text with
      | true =>
        have last : ∀ more, (turn (held memory earlier) (total earlier) (some message)).next ≠
            .counts more := by
          simp [treats.message, respond_message, stops]
        rw [serve_ends last, soundBehind_cons]
        exact iff_of_true ⟨here.mpr (.inl stops), splits_nil⟩
          ⟨.inl stops, fun goes_on => absurd goes_on Bool.noConfusion⟩
      | false =>
        by_cases room : InInt (total (earlier ++ [message]))
        · have stored : receive (held memory earlier) (some message) =
              held memory (earlier ++ [message]) := (held_concat memory earlier message).symm
          rw [serve_counts (treats.counts_message memory stops room), stored, soundBehind_cons, same,
            Option.toList_some, forall_prop_of_true rfl]
          exact and_congr here (ih room)
        · have refused : ¬ Admits Quiet memory earlier (some message) := by
            rw [total_concat] at room
            exact fun admitted => room (admitted.resolve_left (by simp [stops]))
          rw [first, soundBehind_cons]
          exact iff_of_false (fun sound => refused (here.mp sound.1)) fun admits => refused admits.1

theorem counts_once_iff (treats : Treats turn Quiet) (memory : Buffer BUFSIZ)
    (receipts : List (Option Message)) :
    CountsOnce (serve turn memory 0 receipts) ↔
      ∀ before received after, receipts = before ++ received :: after → Open before →
        Admits Quiet memory (before.filterMap id) received := by
  have zero : InInt (total []) := by decide
  exact serve_sound_iff treats memory zero receipts

end Loop

/-- What `strncmp` and `atoi` make nothing of. -/
def Quiet (data : Buffer BUFSIZ) : Prop :=
  ends data.text = false ∧ ∃ text, data.string = some text ∧ atoi text = 0

theorem treats_msgrcv : Treats msgrcvTurn Quiet where
  message _ _ _ := rfl
  received _ _ := rfl
  count _ _ := rfl
  failed data count inside := by
    have next : (msgrcvTurn data count none).next =
        if ends data.text = true then .stops else add count data := rfl
    rw [next, Quiet]
    by_cases stops : ends data.text = true
    · simp [stops]
    · rw [if_neg stops, and_iff_right (Bool.eq_false_iff.mpr stops)]
      cases string : data.string with
      | none => simp [add, string]
      | some text =>
        simp only [add, string, Option.some.injEq, exists_eq_left']
        constructor
        · intro same
          split at same
          next =>
            have sum := Next.counts.inj same
            omega
          next => cases same
        · intro zero
          rw [zero, Int.add_zero, if_pos inside]

theorem treats_mq_receive : Treats mqReceiveTurn fun _ => True where
  message _ _ _ := rfl
  received _ _ := rfl
  count _ _ := rfl
  failed _ _ _ := iff_of_true rfl trivial

/-- What the array holds after some messages adds nothing: the last message has the value
zero, or there was none, and so has the memory that the array was made of. -/
def Harmless (memory : Buffer BUFSIZ) (messages : List Message) : Prop :=
  match messages.getLast? with
  | some message => atoi message.text = 0
  | none => Quiet memory

theorem quiet_held {memory : Buffer BUFSIZ} {messages : List Message}
    (goes_on : ∀ message ∈ messages, ends message.text = false) :
    Quiet (held memory messages) ↔ Harmless memory messages := by
  cases last : messages.getLast? with
  | none =>
    rw [List.getLast?_eq_none_iff.mp last]
    exact Iff.rfl
  | some message =>
    obtain ⟨front, rfl⟩ := List.getLast?_eq_some_iff.mp last
    have open_last := goes_on message (List.mem_append_right front (List.mem_singleton_self _))
    rw [Quiet, held_concat, text_overwrite, string_overwrite, Harmless, List.getLast?_concat]
    simp [open_last]

theorem goes_on_of_open {receipts : List (Option Message)} (goes_on : Open receipts)
    {message : Message} (member : message ∈ receipts.filterMap id) :
    ends message.text = false := by
  obtain ⟨received, inside, same⟩ := List.mem_filterMap.mp member
  rw [id] at same
  exact goes_on message (same ▸ inside)

/-- The server with the System V queue counts right as long as every receive that fails
meets an array that adds nothing, and the sums are values of an `int`. -/
theorem msgrcv_counts_once_iff (memory : Buffer BUFSIZ) (receipts : List (Option Message)) :
    CountsOnce (serve msgrcvTurn memory 0 receipts) ↔
      ∀ before received after, receipts = before ++ received :: after → Open before →
        match received with
        | none => Harmless memory (before.filterMap id)
        | some message => ends message.text = true ∨
            InInt (total (before.filterMap id) + atoi message.text) := by
  rw [counts_once_iff treats_msgrcv]
  refine forall_congr' fun before => forall_congr' fun received => forall_congr' fun after =>
    forall_congr' fun _ => forall_congr' fun goes_on => ?_
  cases received with
  | none => exact quiet_held fun message => goes_on_of_open goes_on
  | some message => exact Iff.rfl

/-- The server with the POSIX queue needs room for the sums only. -/
theorem mq_receive_counts_once_iff (memory : Buffer BUFSIZ) (receipts : List (Option Message)) :
    CountsOnce (serve mqReceiveTurn memory 0 receipts) ↔
      ∀ before message after, receipts = before ++ some message :: after → Open before →
        ends message.text = true ∨ InInt (total (before.filterMap id) + atoi message.text) := by
  rw [counts_once_iff treats_mq_receive]
  constructor
  · intro admits before message after split goes_on
    exact admits before (some message) after split goes_on
  · intro room before received after split goes_on
    cases received with
    | none => trivial
    | some message => exact room before message after split goes_on

def five : Message := ⟨['5'.toUInt8], by decide, [], by decide⟩

/-- A signal interrupts the receive after the first message. -/
theorem msgrcv_counts_twice :
    ¬ CountsOnce (serve msgrcvTurn Buffer.zero 0 [some five, none, some five]) := by
  rw [counts_once_iff treats_msgrcv]
  intro admits
  have goes_on : Open [some five] := by
    rw [open_cons_some]
    exact ⟨by decide, fun message member => by cases member⟩
  have quiet := admits [some five] none [some five] rfl goes_on
  have goes_on_five : ∀ message ∈ [five], ends message.text = false := by decide
  have zero : atoi five.text = 0 := (quiet_held goes_on_five).mp quiet
  revert zero
  decide

end LinuxProgramming.MessageQueue
