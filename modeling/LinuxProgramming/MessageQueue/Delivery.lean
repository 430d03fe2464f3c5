import LinuxProgramming.MessageQueue.Program
import LinuxProgramming.MessageQueue.Rounds
import Mathlib.Data.List.Nodup

/-! Nothing that is sent to the server is lost, doubled or miscounted.

Up to the removal of the queue all clients and the server use one queue, and what was
sent is what was received and then what the queue holds.
-/

set_option autoImplicit false

namespace LinuxProgramming.MessageQueue
open Foundation

def Kind.Quiet : Kind → Buffer BUFSIZ → Prop
  | .systemV => MessageQueue.Quiet
  | .posix => fun _ => True

theorem Kind.treats (kind : Kind) : Treats kind.turn kind.Quiet := by
  cases kind with
  | systemV => exact treats_msgrcv
  | posix => exact treats_mq_receive

variable {Client : Type}

/-- The messages that the server has received, in their order. -/
def State.taken (state : State Client) : List (Entry Client) :=
  state.receipts.filterMap id

def State.received (state : State Client) : List (Option Message) :=
  state.receipts.map (Option.map Entry.message)

/-- No receive has failed where the server goes on with what the array has held before. -/
def Steady (program : Program Client) (state : State Client) : Prop :=
  program.kind = .posix ∨ none ∉ state.receipts

/-- The name leads to the queue with what was sent and not received yet, and so do the
identifiers of those who send. -/
structure Holds (state : State Client) (msqid : Nat) : Prop where
  name : state.ipc.name = some msqid
  queue : ∃ queued, state.ipc.queue msqid = some queued ∧ state.taken ++ queued = state.sent
  senders : ∀ client other message, state.client client = .sending other message → other = msqid

structure Unnamed (state : State Client) : Prop where
  name : state.ipc.name = none
  taken : state.taken = []
  sent : state.sent = []
  senders : ∀ client msqid message, state.client client ≠ .sending msqid message

/-- The last message told the server to stop, and none before it. -/
def Stopped (state : State Client) : Prop :=
  ∃ front last, state.receipts = front ++ [some last] ∧ ends last.message.text = true ∧
    Open (front.map (Option.map Entry.message))

/-- What is known at each place of the server. -/
inductive Serving (program : Program Client) (state : State Client) : Prop where
  | opening : state.server = .opening → state.receipts = [] → state.data = program.memory →
      state.count = 0 → Unnamed state ∨ (∃ msqid, Holds state msqid) → Serving program state
  | receiving (msqid : Nat) : state.server = .receiving msqid → Holds state msqid →
      after program.kind.turn program.memory 0 state.received = some (state.data, state.count) →
      Serving program state
  | removing (msqid : Nat) : state.server = .removing msqid → Holds state msqid →
      (Steady program state → Stopped state) → Serving program state
  | exited : state.server = .exited → state.taken <+: state.sent →
      (Steady program state → Stopped state) → Serving program state
  | failed : state.server = .failed → state.receipts = [] → Serving program state
  | undefined : state.server = .undefined → state.taken <+: state.sent →
      (Steady program state → ¬ InInt (total (state.taken.map Entry.message))) →
      Serving program state

/-- A client sends its own message, once. -/
structure Sending (program : Program Client) (state : State Client) : Prop where
  nodup : (state.sent.map Entry.sender).Nodup
  places : ∀ client, client ∈ state.sent.map Entry.sender ↔ state.client client = .sent
  texts : ∀ entry ∈ state.sent, program.message entry.sender = some entry.message
  pending : ∀ client msqid message, state.client client = .sending msqid message →
    program.message client = some message

variable {program : Program Client} {state next : State Client} {client : Client}
  {place : ClientPlace} {msqid : Nat}

theorem taken_of_receipts (same : next.receipts = state.receipts) : next.taken = state.taken := by
  rw [State.taken, same, State.taken]

theorem received_of_receipts (same : next.receipts = state.receipts) :
    next.received = state.received := by
  rw [State.received, same, State.received]

theorem filterMap_received (state : State Client) :
    state.received.filterMap id = state.taken.map Entry.message := by
  simp [State.received, State.taken, List.filterMap_map, List.map_filterMap]

/-- What does not touch the server keeps what is known, when it keeps the queue. -/
theorem Serving.keep (serving : Serving program state) (server : next.server = state.server)
    (receipts : next.receipts = state.receipts) (data : next.data = state.data)
    (count : next.count = state.count)
    (unnamed : Unnamed state → Unnamed next ∨ ∃ msqid, Holds next msqid)
    (holds : ∀ {msqid}, Holds state msqid → Holds next msqid)
    (grows : state.sent <+: next.sent) : Serving program next := by
  have steady : Steady program next → Steady program state := by
    unfold Steady
    rw [receipts]
    exact id
  have stopped : (Steady program state → Stopped state) → Steady program next → Stopped next := by
    intro known calm
    unfold Stopped
    rw [receipts]
    exact known (steady calm)
  cases serving with
  | opening place none memory zero queue =>
    apply Serving.opening (server.trans place) (receipts.trans none) (data.trans memory)
      (count.trans zero)
    rcases queue with absent | ⟨msqid, present⟩
    · exact unnamed absent
    · exact .inr ⟨msqid, holds present⟩
  | receiving msqid place queue goes_on =>
    apply Serving.receiving msqid (server.trans place) (holds queue)
    rw [received_of_receipts receipts, data, count]
    exact goes_on
  | removing msqid place queue known =>
    exact .removing msqid (server.trans place) (holds queue) (stopped known)
  | exited place before known =>
    apply Serving.exited (server.trans place) _ (stopped known)
    rw [taken_of_receipts receipts]
    exact before.trans grows
  | failed place none => exact .failed (server.trans place) (receipts.trans none)
  | undefined place before known =>
    apply Serving.undefined (server.trans place)
    · rw [taken_of_receipts receipts]
      exact before.trans grows
    · rw [taken_of_receipts receipts]
      exact fun calm => known (steady calm)

theorem Holds.get (holds : Holds state msqid) : state.ipc.get = (msqid, state.ipc) := by
  rw [Ipc.get, holds.name]

/-- Whoever comes first makes the queue. -/
theorem Unnamed.get (unnamed : Unnamed state) :
    Holds { state with ipc := state.ipc.get.2 } state.ipc.get.1 := by
  have made : state.ipc.get = (state.ipc.fresh,
      { name := some state.ipc.fresh
        queue := Function.update state.ipc.queue state.ipc.fresh (some [])
        fresh := state.ipc.fresh + 1 }) := by
    rw [Ipc.get, unnamed.name]
  rw [made]
  refine ⟨rfl, ⟨[], Function.update_self .., ?_⟩, ?_⟩
  · exact (List.append_nil _).trans (unnamed.taken.trans unnamed.sent.symm)
  · intro client msqid message sending
    exact absurd sending (unnamed.senders client msqid message)

theorem Holds.opened (holds : Holds state msqid) :
    Holds { state with ipc := state.ipc.get.2 } msqid := by
  rw [holds.get]
  exact holds

theorem Holds.taken_prefix (holds : Holds state msqid) : state.taken <+: state.sent := by
  obtain ⟨queued, _, order⟩ := holds.queue
  exact ⟨queued, order⟩

/-- A receive that fails leaves the queue alone. -/
theorem Holds.failed (holds : Holds state msqid) :
    Holds (state.round program msqid none) msqid := by
  obtain ⟨queued, present, order⟩ := holds.queue
  have taken : (state.round program msqid none).taken = state.taken := by
    simp [State.taken, State.round]
  exact ⟨holds.name, ⟨queued, present, by rw [taken]; exact order⟩, holds.senders⟩

/-- The first message of the queue is received. -/
theorem Holds.received (holds : Holds state msqid) {entry : Entry Client}
    {queued : List (Entry Client)} (present : state.ipc.queue msqid = some (entry :: queued)) :
    Holds ({ state with ipc := state.ipc.put msqid queued }.round program msqid (some entry))
      msqid := by
  obtain ⟨all, same, order⟩ := holds.queue
  cases present.symm.trans same
  refine ⟨holds.name, ⟨queued, Function.update_self .., ?_⟩, holds.senders⟩
  simp [State.taken, State.round] at order ⊢
  exact order

theorem received_round (received : Option (Entry Client)) :
    (state.round program msqid received).received =
      state.received ++ [received.map Entry.message] := by
  simp [State.received, State.round]

theorem Steady.quiet (steady : Steady program state) (member : none ∈ state.received)
    (data : Buffer BUFSIZ) : program.kind.Quiet data := by
  rcases steady with posix | calm
  · rw [posix]
    trivial
  · obtain ⟨received, inside, same⟩ := List.mem_map.mp member
    cases received with
    | none => exact absurd inside calm
    | some entry => cases same

/-- The count is the sum of what was received. -/
theorem count_eq_total (steady : Steady program state)
    (goes_on : after program.kind.turn program.memory 0 state.received =
      some (state.data, state.count)) :
    state.count = total (state.taken.map Entry.message) := by
  have zero : InInt (total []) := by decide
  have sum := (program.kind.treats.held_total zero steady.quiet goes_on).2.1
  rwa [List.nil_append, filterMap_received] at sum

/-- What ended a loop without a receive that failed was its last message. -/
theorem Steady.last {received : Option (Entry Client)}
    (steady : Steady program (state.round program msqid received))
    (ended : ∀ count, (program.kind.turn state.data state.count
      (received.map Entry.message)).next ≠ .counts count) :
    ∃ entry, received = some entry := by
  cases received with
  | some entry => exact ⟨entry, rfl⟩
  | none =>
    rcases steady with posix | calm
    · rw [posix] at ended
      exact absurd rfl (ended state.count)
    · simp [State.round] at calm

theorem Steady.earlier {received : Option (Entry Client)}
    (steady : Steady program (state.round program msqid received)) : Steady program state := by
  rcases steady with posix | calm
  · exact .inl posix
  · exact .inr fun member => calm (List.mem_append_left _ member)

/-- A round ends at one of three places. -/
theorem Serving.round {received : Option (Entry Client)}
    (goes_on : after program.kind.turn program.memory 0 state.received =
      some (state.data, state.count))
    (holds : Holds (state.round program msqid received) msqid) :
    Serving program (state.round program msqid received) := by
  have answer := program.kind.treats.message state.data state.count
  have later := after_concat (received.map Entry.message) goes_on
  have rounds : state.received ++ [received.map Entry.message] =
      (state.round program msqid received).received := (received_round received).symm
  rw [rounds] at later
  cases next : (program.kind.turn state.data state.count (received.map Entry.message)).next with
  | counts count =>
    apply Serving.receiving msqid (by simp [State.round, next]) holds
    rw [later]
    simp [next, State.round]
  | stops =>
    apply Serving.removing msqid (by simp [State.round, next]) holds
    intro steady
    obtain ⟨entry, rfl⟩ := steady.last (by simp [next])
    refine ⟨state.receipts, entry, rfl, ?_, program.kind.treats.open_of_goes_on goes_on⟩
    rw [Option.map_some, answer, respond_message] at next
    by_contra goes
    rw [if_neg goes] at next
    split at next <;> cases next
  | undefined =>
    apply Serving.undefined (by simp [State.round, next]) holds.taken_prefix
    intro steady
    obtain ⟨entry, rfl⟩ := steady.last (by simp [next])
    have taken : (state.round program msqid (some entry)).taken = state.taken ++ [entry] := by
      simp [State.taken, State.round]
    rw [taken, List.map_append, List.map_singleton, total_concat,
      ← count_eq_total steady.earlier goes_on]
    rw [Option.map_some, answer, respond_message] at next
    intro room
    rw [if_pos room] at next
    split at next <;> cases next

variable [DecidableEq Client]

theorem Holds.goto (holds : Holds state msqid)
    (sends : ∀ other message, place = .sending other message → other = msqid) :
    Holds (state.goto client place) msqid := by
  refine ⟨holds.name, holds.queue, ?_⟩
  intro other number message sending
  by_cases same : other = client
  · subst same
    exact sends number message ((Function.update_self ..).symm.trans sending)
  · exact holds.senders other number message ((Function.update_of_ne same ..).symm.trans sending)

theorem Unnamed.goto (unnamed : Unnamed state)
    (sends : ∀ msqid message, place ≠ .sending msqid message) :
    Unnamed (state.goto client place) := by
  refine ⟨unnamed.name, unnamed.taken, unnamed.sent, ?_⟩
  intro other number message sending
  by_cases same : other = client
  · subst same
    exact sends number message ((Function.update_self ..).symm.trans sending)
  · exact unnamed.senders other number message ((Function.update_of_ne same ..).symm.trans sending)

/-- A message that is put into the queue is behind all others. -/
theorem Holds.put (holds : Holds state msqid) {queued : List (Entry Client)}
    (present : state.ipc.queue msqid = some queued) (entry : Entry Client) :
    Holds { state.goto client .sent with
      ipc := state.ipc.put msqid (queued ++ [entry])
      sent := state.sent ++ [entry] } msqid := by
  have moved : Holds (state.goto client .sent) msqid :=
    holds.goto fun other message same => by cases same
  obtain ⟨other, same, order⟩ := holds.queue
  cases present.symm.trans same
  refine ⟨holds.name, ⟨queued ++ [entry], Function.update_self .., ?_⟩, moved.senders⟩
  rw [← order, List.append_assoc]
  rfl

theorem Sending.goto (sending : Sending program state) (before : state.client client ≠ .sent)
    (quiet : place ≠ .sent)
    (pending : ∀ msqid message, place = .sending msqid message →
      program.message client = some message) : Sending program (state.goto client place) := by
  refine ⟨sending.nodup, fun other => ?_, sending.texts, fun other number message here => ?_⟩
  · rw [State.goto, sending.places]
    by_cases same : other = client
    · subst same
      simp [before, quiet]
    · simp only [Function.update_of_ne same]
  · by_cases same : other = client
    · subst same
      exact pending number message ((Function.update_self ..).symm.trans here)
    · exact sending.pending other number message ((Function.update_of_ne same ..).symm.trans here)

theorem Sending.put (sending : Sending program state) {message : Message}
    (here : state.client client = .sending msqid message) (ipc : Ipc Client) :
    Sending program { state.goto client .sent with
      ipc := ipc
      sent := state.sent ++ [⟨client, message⟩] } := by
  have fresh : client ∉ state.sent.map Entry.sender := by
    rw [sending.places, here]
    simp
  refine ⟨?_, fun other => ?_, fun entry member => ?_, fun other number text there => ?_⟩
  · rw [List.map_append, List.map_singleton]
    rw [← List.concat_eq_append]
    exact sending.nodup.concat fresh
  · rw [List.map_append, List.map_singleton, List.mem_append, List.mem_singleton, sending.places,
      State.goto]
    by_cases same : other = client
    · subst same
      simp
    · simp only [Function.update_of_ne same, same, or_false]
  · rcases List.mem_append.mp member with earlier | last
    · exact sending.texts entry earlier
    · rw [List.mem_singleton.mp last]
      exact sending.pending client msqid message here
  · by_cases same : other = client
    · subst same
      exact absurd ((Function.update_self ..).symm.trans there) (by simp)
    · exact sending.pending other number text ((Function.update_of_ne same ..).symm.trans there)

structure Sound (program : Program Client) (state : State Client) : Prop where
  serving : Serving program state
  sending : Sending program state
  turns : state.turns = serve program.kind.turn program.memory 0 state.received

theorem sound_start : Sound program (machine program).start where
  serving := .opening rfl rfl rfl rfl (.inl ⟨rfl, rfl, rfl, by simp [machine]⟩)
  sending := ⟨.nil, by simp [machine], by simp [machine], by simp [machine]⟩
  turns := rfl

/-- A client that makes or finds the queue, and one that goes elsewhere. -/
theorem Sound.opened (sound : Sound program state) (before : state.client client ≠ .sent)
    (quiet : place ≠ .sent)
    (sends : ∀ msqid message, place = .sending msqid message →
      msqid = state.ipc.get.1 ∧ program.message client = some message) :
    Sound program { state.goto client place with ipc := state.ipc.get.2 } := by
  refine ⟨sound.serving.keep rfl rfl rfl rfl ?_ ?_ (List.prefix_refl _), ?_, sound.turns⟩
  · intro unnamed
    exact .inr ⟨_, unnamed.get.goto fun other message same => (sends other message same).1⟩
  · intro msqid holds
    apply holds.opened.goto
    intro other message same
    rw [(sends other message same).1, holds.get]
  · have moved : Sending program (state.goto client place) :=
      sound.sending.goto before quiet fun msqid message same => (sends msqid message same).2
    exact ⟨moved.nodup, moved.places, moved.texts, moved.pending⟩

theorem Sound.stays (sound : Sound program state) (before : state.client client ≠ .sent) :
    Sound program (state.goto client .failed) := by
  refine ⟨sound.serving.keep rfl rfl rfl rfl ?_ ?_ (List.prefix_refl _), ?_, sound.turns⟩
  · exact fun unnamed => .inl (unnamed.goto (by simp))
  · exact fun holds => holds.goto (by simp)
  · exact sound.sending.goto before (by simp) (by simp)

theorem Sound.put (sound : Sound program state) {message : Message}
    (here : state.client client = .sending msqid message) {queued : List (Entry Client)}
    (present : state.ipc.queue msqid = some queued) :
    Sound program { state.goto client .sent with
      ipc := state.ipc.put msqid (queued ++ [⟨client, message⟩])
      sent := state.sent ++ [⟨client, message⟩] } := by
  refine ⟨sound.serving.keep rfl rfl rfl rfl ?_ ?_ (List.prefix_append ..),
    sound.sending.put here _, sound.turns⟩
  · exact fun unnamed => absurd here (unnamed.senders client msqid message)
  · intro other holds
    cases holds.senders client msqid message here
    exact holds.put present ⟨client, message⟩

theorem Sound.clientStep (sound : Sound program state)
    (taken : clientStep program state client = some next) : Sound program next := by
  unfold MessageQueue.clientStep at taken
  cases here : state.client client with
  | opening =>
    have before : state.client client ≠ .sent := by simp [here]
    simp only [here] at taken
    cases text : program.message client with
    | some message =>
      rw [text] at taken
      cases taken
      apply sound.opened before (by simp)
      intro msqid other same
      cases same
      exact ⟨rfl, text⟩
    | none =>
      rw [text] at taken
      cases taken
      exact sound.opened before (by simp) (by simp)
  | sending msqid message =>
    simp only [here] at taken
    cases present : state.ipc.queue msqid with
    | none =>
      rw [present] at taken
      cases taken
      exact sound.stays (by simp [here])
    | some queued =>
      simp only [present] at taken
      split at taken
      next =>
        cases taken
        exact sound.put here present
      next => cases taken
  | sent | failed | undefined => simp [here] at taken

omit [DecidableEq Client] in
/-- A round adds what it answers to the run of the loop. -/
theorem Sound.round {received : Option (Entry Client)} (sending : Sending program state)
    (turns : state.turns = serve program.kind.turn program.memory 0 state.received)
    (goes_on : after program.kind.turn program.memory 0 state.received =
      some (state.data, state.count))
    (holds : Holds (state.round program msqid received) msqid) :
    Sound program (state.round program msqid received) where
  serving := Serving.round goes_on holds
  sending := ⟨sending.nodup, sending.places, sending.texts, sending.pending⟩
  turns := by
    rw [received_round, serve_concat _ goes_on, ← turns]
    rfl

omit [DecidableEq Client] in
theorem Sound.serverStep (sound : Sound program state)
    (taken : serverStep program state = some next) : Sound program next := by
  have sending := sound.sending
  unfold MessageQueue.serverStep at taken
  cases sound.serving with
  | opening place none memory zero queue =>
    simp only [place] at taken
    cases taken
    have start : after program.kind.turn program.memory 0 state.received =
        some (state.data, state.count) := by
      rw [State.received, none, memory, zero]
      rfl
    refine ⟨.receiving state.ipc.get.1 rfl ?_ start,
      ⟨sending.nodup, sending.places, sending.texts, sending.pending⟩, sound.turns⟩
    rcases queue with unnamed | ⟨msqid, holds⟩
    · have made := unnamed.get
      exact ⟨made.name, made.queue, made.senders⟩
    · have found := holds.opened
      rw [holds.get] at found ⊢
      exact ⟨found.name, found.queue, found.senders⟩
  | receiving msqid place holds goes_on =>
    obtain ⟨queued, present, order⟩ := holds.queue
    simp only [place, present] at taken
    cases queued with
    | nil => cases taken
    | cons entry queued =>
      cases taken
      exact Sound.round ⟨sending.nodup, sending.places, sending.texts, sending.pending⟩
        sound.turns goes_on (holds.received present)
  | removing msqid place holds known =>
    simp only [place] at taken
    cases taken
    exact ⟨.exited rfl holds.taken_prefix known,
      ⟨sending.nodup, sending.places, sending.texts, sending.pending⟩, sound.turns⟩
  | exited place | failed place | undefined place => simp [place] at taken

theorem Sound.step (sound : Sound program state) {action : Action Client}
    (taken : (machine program).step state action = some next) : Sound program next := by
  have sending := sound.sending
  cases action with
  | client client => exact sound.clientStep taken
  | clientFails client =>
    simp only [machine, MessageQueue.step] at taken
    split at taken
    next here =>
      cases taken
      exact sound.stays (by simp [here])
    next here =>
      cases taken
      exact sound.stays (by simp [here])
    all_goals cases taken
  | server => exact sound.serverStep taken
  | serverFails =>
    simp only [machine, MessageQueue.step] at taken
    cases sound.serving with
    | opening place none memory zero queue =>
      simp only [place] at taken
      cases taken
      exact ⟨.failed rfl none, ⟨sending.nodup, sending.places, sending.texts, sending.pending⟩,
        sound.turns⟩
    | removing msqid place holds known =>
      simp only [place] at taken
      cases taken
      exact ⟨.exited rfl holds.taken_prefix known,
        ⟨sending.nodup, sending.places, sending.texts, sending.pending⟩, sound.turns⟩
    | receiving msqid place | exited place | failed place | undefined place =>
      simp [place] at taken
  | interrupt =>
    simp only [machine, MessageQueue.step] at taken
    cases sound.serving with
    | receiving msqid place holds goes_on =>
      cases left : state.signals with
      | zero => simp [place, left] at taken
      | succ signals =>
        simp only [place, left] at taken
        cases taken
        have before : Holds { state with signals := signals } msqid :=
          ⟨holds.name, holds.queue, holds.senders⟩
        exact Sound.round ⟨sending.nodup, sending.places, sending.texts, sending.pending⟩
          sound.turns goes_on before.failed
    | opening place | removing msqid place | exited place | failed place | undefined place =>
      simp [place] at taken

theorem sound_of_reachable (reached : (machine program).Reachable state) : Sound program state :=
  Machine.invariant sound_start (fun sound => sound.step) reached

/-- The server takes the messages in the order in which they were sent, each once and
none of them from elsewhere; while it waits none is lost; and each one is answered with
the sum of those before it. -/
theorem messages_counted (reached : (machine program).Reachable state) :
    state.taken <+: state.sent ∧ (state.sent.map Entry.sender).Nodup ∧
    (∀ client, client ∈ state.sent.map Entry.sender ↔ state.client client = .sent) ∧
    (∀ entry ∈ state.sent, program.message entry.sender = some entry.message) ∧
    (∀ msqid, state.server = .receiving msqid →
      ∃ queued, state.ipc.queue msqid = some queued ∧ state.taken ++ queued = state.sent) ∧
    state.turns = serve program.kind.turn program.memory 0 state.received ∧
    (Steady program state → Answered [] state.turns) := by
  have sound := sound_of_reachable reached
  have sending := sound.sending
  refine ⟨?_, sending.nodup, sending.places, sending.texts, ?_, sound.turns, ?_⟩
  · cases sound.serving with
    | opening _ none | failed _ none => simp [State.taken, none]
    | receiving _ _ holds | removing _ _ holds => exact holds.taken_prefix
    | exited _ before | undefined _ before => exact before
  · intro msqid place
    cases sound.serving with
    | receiving other here holds =>
      cases here.symm.trans place
      exact holds.queue
    | opening here | removing _ here | exited here | failed here | undefined here =>
      rw [here] at place
      cases place
  · intro steady
    rw [sound.turns]
    have zero : InInt (total []) := by decide
    exact program.kind.treats.answered program.memory zero steady.quiet

def fiveThenEnd : Program Bool where
  kind := .posix
  argument first := if first then ⟨five.text, five.plain⟩ else ⟨MSG_STOP, by decide⟩
  array _ := Buffer.zero
  memory := Buffer.zero
  capacity := 1
  positive := Nat.zero_lt_one
  signals := 0

/-- The second client has to wait until the server has received the first message. -/
theorem fiveThenEnd_runs : ((machine fiveThenEnd).exec (machine fiveThenEnd).start
    [.client true, .client false, .client true, .server, .server, .client false, .server,
      .server]).map (fun state => (state.server, state.taken.map Entry.sender,
        state.turns.map Turn.response)) =
      some (.exited, [true, false], [some 0, some 5]) := by
  rfl

theorem messages_counted_fiveThenEnd : ∃ state, (machine fiveThenEnd).Reachable state ∧
    state.taken <+: state.sent ∧ state.taken.length = 2 ∧ Answered [] state.turns := by
  obtain ⟨state, reached, facts⟩ := Machine.exists_reachable fiveThenEnd_runs
  have senders := (Prod.mk.inj (Prod.mk.inj facts).2).1
  have all := congrArg List.length senders
  rw [List.length_map] at all
  have counted := messages_counted reached
  exact ⟨state, reached, counted.1, all, counted.2.2.2.2.2.2 (.inl rfl)⟩

end LinuxProgramming.MessageQueue
