import LinuxProgramming.Dictionary.Conversation
import LinuxProgramming.Dictionary.LinearLookup

/-! A server that ends at any moment of a conversation.

At the end of the stream `recv` returns 0, which the client takes for data as
well: it then reads its answer off its own record, which was the request. The
text in it is what the calls before have left there.
-/

set_option autoImplicit false

namespace LinuxProgramming.Dictionary.Vanished
open Foundation
open Connection (onlyX wordZ)

/-- A conversation with its history: the queries, the bytes of them that the server has
received, what it has sent, each with the query that it replies to, and the bytes of
that which the client has received. A call returns with a code, and with or without
the reply to its query. -/
structure Dialogue where
  conversation : Conversation
  queries : List Dictrec
  received : Nat
  sent : List (Option Nat × Dictrec)
  taken : Nat
  returned : List (Code × Bool)

/-- `vanish n`: the server ends, or closes the connection, having received `n` more
bytes that it does not answer. A call that fails ends the client, and so the run. -/
inductive Action where
  | send (word : Word)
  | serverRecv (n : Nat)
  | vanish (n : Nat)
  | clientRecv (n : Nat)

/-- A `recv` of `n` bytes returns the record that the server has sent as the reply to the
last query, and nothing else. -/
def Dialogue.reply (state : Dialogue) (n : Nat) : Bool :=
  (recordAt state.taken n).any fun index =>
    (state.sent[index]?.bind Prod.fst).any fun query => query + 1 = state.queries.length

def step (connection : Connection) (state : Dialogue) : Action → Option Dialogue
  | .send word => do
    let conversation ← Connection.ask state.conversation word
    some { state with
      conversation := conversation
      queries := state.queries ++ [conversation.sought] }
  | .serverRecv n => do
    let conversation ← connection.serve state.conversation n
    some { state with
      conversation := conversation
      received := state.received + n
      sent :=
        if conversation.serving then
          state.sent ++ [(recordAt state.received n, conversation.tryit)]
        else state.sent }
  | .vanish n =>
    if state.conversation.serving ∧ n ≤ state.conversation.requests.length then
      some { state with
        conversation := { state.conversation with
          serving := false
          requests := state.conversation.requests.drop n }
        received := state.received + n }
    else none
  | .clientRecv n => do
    let conversation ← Connection.receive state.conversation n
    let answer ← conversation.answers.getLast?
    some { state with
      conversation := conversation
      taken := state.taken + n
      returned := state.returned ++ [(answer.2.1, state.reply n)] }

def machine (connection : Connection) : Machine Dialogue Action where
  start := ⟨connection.machine.start, [], 0, [], 0, []⟩
  step := step connection

/-- No call has returned a hit without the reply to its query. -/
def Honest (state : Dialogue) : Prop := ∀ call ∈ state.returned, call.1 = .found → call.2 = true

/-- The record before the call, with the `n` bytes in it that `recv` returns. -/
def Dialogue.left (state : Dialogue) (n : Nat) : Dictrec :=
  state.conversation.sought.overwrite (state.conversation.replies.take n)

/-- What `recv` returns behind the word, for the text. -/
def Dialogue.incoming (state : Dialogue) (n : Nat) : List Byte :=
  (state.conversation.replies.take n).drop WORD

/-- How the client reads the text of its record. -/
def reading (text : List Byte) : Code := if text = XXXX then .notfound else .found

/-- The characters of a miss and their NUL have come, as many as the text has received, and
the others stood in the record before. -/
def missAhead (incoming before : List Byte) : Bool :=
  (XXXX ++ [NUL]).take incoming.length <+: incoming ∧
    (XXXX ++ [NUL]).drop incoming.length <+: before.drop incoming.length

/-- The `recv` returns the reply, or what it brings and the text before it are a miss. -/
def complete (state : Dialogue) : Action → Bool
  | .clientRecv n =>
    state.reply n || missAhead (state.incoming n) state.conversation.sought.text.bytes
  | .send _ | .serverRecv _ | .vanish _ => true

/-- A `recv` of no more than the word, as at the end of the stream, brings no text. -/
theorem incoming_nil (state : Dialogue) {n : Nat} (few : n ≤ WORD) : state.incoming n = [] := by
  rw [Dialogue.incoming, List.drop_eq_nil_iff, List.length_take]
  omega

theorem left_text (state : Dialogue) {n : Nat} (few : n ≤ WORD) :
    (state.left n).text = state.conversation.sought.text := by
  have nothing := incoming_nil state few
  rw [Dialogue.incoming] at nothing
  rw [Dialogue.left, Dictrec.overwrite, nothing, Buffer.overwrite_nil]

theorem text_miss_iff (buffer : Buffer TEXT) :
    buffer.text = XXXX ↔ XXXX ++ [NUL] <+: buffer.bytes :=
  cstr_eq_iff (by decide) (by rw [buffer.length_eq]; decide)

/-- Where no text comes, as at the end of the stream, it is the text before that decides. -/
theorem complete_without_text (state : Dialogue) {n : Nat} (few : n ≤ WORD) :
    complete state (.clientRecv n) = true ↔ state.conversation.sought.text.text = XXXX := by
  have part : n ≠ sizeof := by
    rintro rfl
    exact absurd few (by decide)
  have unreplied : state.reply n = false := by simp [Dialogue.reply, recordAt, part]
  rw [complete, unreplied, Bool.false_or, incoming_nil state few, text_miss_iff, missAhead,
    decide_eq_true_iff]
  simp

/-- What the record holds is a miss exactly if what was ahead makes it one. -/
theorem left_miss_iff (state : Dialogue) (n : Nat) :
    (state.left n).text.text = XXXX ↔
      missAhead (state.incoming n) state.conversation.sought.text.bytes = true := by
  have small : (XXXX ++ [NUL]).length ≤ TEXT := by decide
  have stored : (state.left n).text.bytes =
      (state.incoming n ++
        state.conversation.sought.text.bytes.drop (state.incoming n).length).take TEXT := rfl
  rw [text_miss_iff, stored, List.prefix_take_iff, prefix_append_iff, missAhead, decide_eq_true_iff]
  exact and_iff_left small

theorem decode_spec {record decoded : Dictrec} {code : Code}
    (read : decode record = some (code, decoded)) :
    decoded = record ∧ code = reading record.text.text := by
  unfold decode Buffer.string at read
  split at read
  next =>
    simp only [Option.bind_eq_bind, Option.bind_some, ne_eq, strcmp_eq_iff, ite_not] at read
    split at read
    next same =>
      cases read
      exact ⟨rfl, (if_pos same).symm⟩
    next different =>
      cases read
      exact ⟨rfl, (if_neg different).symm⟩
  next => cases read

theorem receive_spec {state next : Conversation} {n : Nat}
    (taken : Connection.receive state n = some next) :
    ∃ word code, state.waiting = some word ∧ n ≤ state.replies.length ∧
      decode (state.sought.overwrite (state.replies.take n)) = some (code, next.sought) ∧
      next = { state with
        sought := next.sought
        waiting := none
        replies := state.replies.drop n
        answers := state.answers ++ [(word, observed (code, next.sought))] } := by
  unfold Connection.receive at taken
  split at taken
  next => cases taken
  next word waiting =>
    split at taken
    next enabled =>
      split at taken
      next code sought decoded =>
        cases taken
        exact ⟨word, code, waiting, enabled.2.1, decoded, rfl⟩
      next => cases taken
    next => cases taken

variable {connection : Connection} {state next : Dialogue}

/-- A call returns what its record says, whether a reply has come or not. -/
theorem clientRecv_spec {n : Nat} (taken : step connection state (.clientRecv n) = some next) :
    ∃ conversation, Connection.receive state.conversation n = some conversation ∧
      conversation.sought = state.left n ∧
      next = { state with
        conversation := conversation
        taken := state.taken + n
        returned := state.returned ++ [(reading (state.left n).text.text, state.reply n)] } := by
  obtain ⟨conversation, received, taken⟩ := Option.bind_eq_some_iff.mp taken
  obtain ⟨word, code, -, -, decoded, same⟩ := receive_spec received
  obtain ⟨kept, read⟩ := decode_spec decoded
  obtain ⟨answer, last, taken⟩ := Option.bind_eq_some_iff.mp taken
  rw [same, List.getLast?_concat] at last
  cases last
  cases taken
  refine ⟨conversation, received, kept, ?_⟩
  rw [observed, read]
  rfl

theorem send_spec {word : Word} (taken : step connection state (.send word) = some next) :
    ∃ sought, sought = state.conversation.sought.ask word ∧
      next = { state with
        conversation := { state.conversation with
          sought := sought
          waiting := some word
          requests := state.conversation.requests ++ sought.bytes }
        queries := state.queries ++ [sought] } := by
  obtain ⟨conversation, asked, taken⟩ := Option.bind_eq_some_iff.mp taken
  unfold Connection.ask at asked
  split at asked
  next => cases asked
  next =>
    cases asked
    cases taken
    exact ⟨_, rfl, rfl⟩

/-- The server replies to what its record holds after the `recv`, or it ends. -/
theorem serverRecv_spec {n : Nat} (taken : step connection state (.serverRecv n) = some next) :
    n ≤ state.conversation.requests.length ∧
      ((∃ mapped reply, connection.transport.server connection.bytes state.conversation.static
          (state.conversation.tryit.overwrite (state.conversation.requests.take n)) =
            some (mapped, reply) ∧
        next = { state with
          conversation := { state.conversation with
            static := some mapped
            tryit := reply
            requests := state.conversation.requests.drop n
            replies := state.conversation.replies ++ reply.bytes }
          received := state.received + n
          sent := state.sent ++ [(recordAt state.received n, reply)] }) ∨
      next = { state with
        conversation := { state.conversation with
          serving := false
          requests := state.conversation.requests.drop n }
        received := state.received + n }) := by
  obtain ⟨conversation, served, taken⟩ := Option.bind_eq_some_iff.mp taken
  unfold Connection.serve at served
  split at served
  next enabled =>
    obtain ⟨alive, -, -, available⟩ := enabled
    refine ⟨available, ?_⟩
    dsimp only at served
    split at served
    next mapped reply responded =>
      cases served
      refine .inl ⟨mapped, reply, responded, ?_⟩
      simpa [alive] using (Option.some.inj taken).symm
    next =>
      cases served
      right
      simpa using (Option.some.inj taken).symm
  next => cases served

theorem vanish_spec {n : Nat} (taken : step connection state (.vanish n) = some next) :
    n ≤ state.conversation.requests.length ∧
      next = { state with
        conversation := { state.conversation with
          serving := false
          requests := state.conversation.requests.drop n }
        received := state.received + n } := by
  simp only [step] at taken
  split at taken
  next enabled => exact ⟨enabled.2, (Option.some.inj taken).symm⟩
  next => cases taken

/-- One step keeps the calls honest exactly if it is complete. -/
theorem Honest.step_iff {action : Action} (taken : step connection state action = some next) :
    Honest next ↔ Honest state ∧ complete state action = true := by
  cases action with
  | clientRecv n =>
    obtain ⟨conversation, -, -, rfl⟩ := clientRecv_spec taken
    have last : (reading (state.left n).text.text = .found → state.reply n = true) ↔
        complete state (.clientRecv n) = true := by
      rw [complete, Bool.or_eq_true, ← left_miss_iff, reading]
      by_cases miss : (state.left n).text.text = XXXX
      · simp [miss]
      · simp [miss]
    rw [← last]
    constructor
    · intro honest
      exact ⟨fun call member => honest call (List.mem_append_left _ member),
        honest _ (List.mem_append_right _ List.mem_cons_self)⟩
    · rintro ⟨honest, here⟩ call member
      rcases List.mem_append.mp member with earlier | now
      · exact honest call earlier
      · cases List.mem_singleton.mp now
        exact here
  | send word =>
    obtain ⟨sought, -, rfl⟩ := send_spec taken
    simp [Honest, complete]
  | serverRecv n =>
    obtain ⟨-, ⟨mapped, reply, -, rfl⟩ | rfl⟩ := serverRecv_spec taken
    · simp [Honest, complete]
    · simp [Honest, complete]
  | vanish n =>
    obtain ⟨-, rfl⟩ := vanish_spec taken
    simp [Honest, complete]

/-- The bytes in flight are the rest of what was sent, and the replies are those to the
queries they are noted for. -/
structure Consistent (connection : Connection) (state : Dialogue) : Prop where
  requests : state.conversation.requests = (file state.queries).drop state.received
  received : state.received ≤ (file state.queries).length
  replies : state.conversation.replies = (file (state.sent.map Prod.snd)).drop state.taken
  taken : state.taken ≤ (file (state.sent.map Prod.snd)).length
  asked : state.conversation.waiting ≠ none →
    state.queries.getLast? = some state.conversation.sought
  answered : ∀ query record, (some query, record) ∈ state.sent →
    ∃ sought static mapped, state.queries[query]? = some sought ∧
      connection.transport.server connection.bytes static sought = some (mapped, record)

/-- A `recv` takes the next bytes of those that are in flight. -/
theorem drop_received {records : List Dictrec} {flight : List Byte} {position n : Nat}
    (rest : flight = (file records).drop position) (inside : position ≤ (file records).length)
    (available : n ≤ flight.length) :
    flight.drop n = (file records).drop (position + n) ∧
      position + n ≤ (file records).length := by
  subst rest
  rw [List.length_drop] at available
  exact ⟨List.drop_drop, by omega⟩

/-- A record that is sent comes behind the bytes that are in flight. -/
theorem append_sent {records : List Dictrec} {flight : List Byte} {position : Nat}
    (rest : flight = (file records).drop position) (inside : position ≤ (file records).length)
    (dr : Dictrec) :
    flight ++ dr.bytes = (file (records ++ [dr])).drop position ∧
      position ≤ (file (records ++ [dr])).length := by
  have single : file [dr] = dr.bytes := List.append_nil dr.bytes
  rw [file_append, single, List.drop_append_of_le_length inside, rest, List.length_append]
  exact ⟨rfl, by omega⟩

theorem Consistent.send (consistent : Consistent connection state) {word : Word}
    (taken : step connection state (.send word) = some next) : Consistent connection next := by
  obtain ⟨sought, -, rfl⟩ := send_spec taken
  obtain ⟨requests, received⟩ := append_sent consistent.requests consistent.received sought
  refine ⟨requests, received, consistent.replies, consistent.taken, ?_, ?_⟩
  · intro _
    exact List.getLast?_concat
  · intro query record member
    obtain ⟨asked, static, mapped, present, responded⟩ := consistent.answered query record member
    obtain ⟨inside, -⟩ := List.getElem?_eq_some_iff.mp present
    exact ⟨asked, static, mapped, (List.getElem?_append_left inside).trans present, responded⟩

theorem Consistent.serverRecv (consistent : Consistent connection state) {n : Nat}
    (taken : step connection state (.serverRecv n) = some next) : Consistent connection next := by
  obtain ⟨available, outcome⟩ := serverRecv_spec taken
  obtain ⟨requests, received⟩ :=
    drop_received consistent.requests consistent.received available
  rcases outcome with ⟨mapped, reply, responded, rfl⟩ | rfl
  · obtain ⟨replies, behind⟩ := append_sent consistent.replies consistent.taken reply
    refine ⟨requests, received, ?_, ?_, consistent.asked, ?_⟩
    · simpa using replies
    · simpa using behind
    · intro query record member
      rcases List.mem_append.mp member with earlier | now
      · exact consistent.answered query record earlier
      · obtain ⟨whole, same⟩ := Prod.mk.inj (List.mem_singleton.mp now)
        have inside := recordAt_inside whole.symm received
        have present := List.getElem?_eq_getElem inside
        rw [consistent.requests, file_recordAt whole.symm present, Dictrec.overwrite_bytes]
          at responded
        exact ⟨_, _, mapped, present, same ▸ responded⟩
  · exact ⟨requests, received, consistent.replies, consistent.taken, consistent.asked,
      consistent.answered⟩

theorem Consistent.step (consistent : Consistent connection state) {action : Action}
    (taken : step connection state action = some next) : Consistent connection next := by
  cases action with
  | send word => exact consistent.send taken
  | serverRecv n => exact consistent.serverRecv taken
  | vanish n =>
    obtain ⟨available, rfl⟩ := vanish_spec taken
    obtain ⟨requests, received⟩ :=
      drop_received consistent.requests consistent.received available
    exact ⟨requests, received, consistent.replies, consistent.taken, consistent.asked,
      consistent.answered⟩
  | clientRecv n =>
    obtain ⟨conversation, read, -, rfl⟩ := clientRecv_spec taken
    obtain ⟨word, code, -, available, -, same⟩ := receive_spec read
    obtain ⟨replies, behind⟩ := drop_received consistent.replies consistent.taken available
    rw [same]
    exact ⟨consistent.requests, consistent.received, replies, behind, fun waits => absurd rfl waits,
      consistent.answered⟩

theorem consistent_of_reachable (reached : (machine connection).Reachable state) :
    Consistent connection state := by
  have start : Consistent connection (machine connection).start :=
    ⟨rfl, Nat.zero_le 0, rfl, Nat.zero_le 0, fun waits => absurd rfl waits,
      fun _ _ member => by cases member⟩
  exact Machine.invariant start (fun consistent taken => consistent.step taken) reached

/-- A call that has received the reply has in its record what the server's lookup makes
of the query. -/
theorem reply_received (reached : (machine connection).Reachable state)
    (waiting : state.conversation.waiting ≠ none) {n : Nat} (reply : state.reply n = true) :
    ∃ static mapped, connection.transport.server connection.bytes static
      state.conversation.sought = some (mapped, state.left n) := by
  have consistent := consistent_of_reachable reached
  obtain ⟨index, whole, here⟩ := (Option.any_eq_true _ _).mp reply
  obtain ⟨query, noted, last⟩ := (Option.any_eq_true _ _).mp here
  obtain ⟨⟨replied, record⟩, present, same⟩ := Option.bind_eq_some_iff.mp noted
  cases same
  obtain ⟨sought, static, mapped, asked, responded⟩ :=
    consistent.answered query record (List.mem_of_getElem? present)
  -- The query that the record is noted for is the one that the client holds.
  have current : sought = state.conversation.sought := by
    have end_of_list := consistent.asked waiting
    rw [List.getLast?_eq_getElem?, ← of_decide_eq_true last, Nat.add_sub_cancel, asked]
      at end_of_list
    exact Option.some.inj end_of_list
  have stored : (state.sent.map Prod.snd)[index]? = some record := by
    rw [List.getElem?_map, present]
    rfl
  have kept : state.left n = record := by
    rw [Dialogue.left, consistent.replies, file_recordAt whole stored, Dictrec.overwrite_bytes]
  exact ⟨static, mapped, by rw [kept, ← current, responded]⟩

/-- The client's record says what the last call has returned. -/
def Remembers (state : Dialogue) : Prop :=
  ∀ call, state.returned.getLast? = some call →
    call.1 = reading state.conversation.sought.text.text

theorem Remembers.step (remembers : Remembers state) {action : Action}
    (taken : step connection state action = some next) : Remembers next := by
  cases action with
  | send word =>
    obtain ⟨sought, asked, rfl⟩ := send_spec taken
    rw [asked]
    exact remembers
  | serverRecv n =>
    obtain ⟨-, ⟨mapped, reply, -, rfl⟩ | rfl⟩ := serverRecv_spec taken
    · exact remembers
    · exact remembers
  | vanish n =>
    obtain ⟨-, rfl⟩ := vanish_spec taken
    exact remembers
  | clientRecv n =>
    obtain ⟨conversation, -, kept, rfl⟩ := clientRecv_spec taken
    intro call last
    rw [List.getLast?_concat] at last
    cases last
    exact congrArg (fun record => reading record.text.text) kept.symm

/-- At the end of the stream a call returns, without a reply, what the call before it
has returned. -/
theorem vanished_repeats (reached : (machine connection).Reachable state) {last : Code × Bool}
    (before : state.returned.getLast? = some last)
    (taken : step connection state (.clientRecv 0) = some next) :
    next.returned = state.returned ++ [(last.1, false)] := by
  have start : Remembers (machine connection).start := fun call last => by cases last
  have remembers := Machine.invariant start (fun remembers taken => remembers.step taken) reached
  obtain ⟨conversation, -, -, rfl⟩ := clientRecv_spec taken
  have nothing : state.reply 0 = false := rfl
  rw [left_text state (Nat.zero_le WORD), nothing, remembers last before]

/-- A run returns no hit without the reply to its query exactly if each `recv` brings
this reply, or makes a miss of the text that was in the record. -/
theorem hits_received_iff {schedule : List Action} {final : Dialogue}
    (run : (machine connection).exec (machine connection).start schedule = some final) :
    Honest final ↔
      ((machine connection).guarded complete).exec (machine connection).start schedule =
        some final := by
  have start : Honest (machine connection).start := fun call member => by cases member
  exact Machine.holds_iff_guarded Honest.step_iff start run

/-- A call with its reply. -/
def answered (word : Word) : List Action := [.send word, .serverRecv sizeof, .clientRecv sizeof]

/-- A call whose query the server receives, and ends. -/
def unanswered (word : Word) : List Action := [.send word, .vanish sizeof, .clientRecv 0]

theorem missed_runs :
    ((machine onlyX).exec (machine onlyX).start
      (answered wordA ++ answered wordZ ++ unanswered wordA)).map Dialogue.returned =
        some [(.found, true), (.notfound, true), (.notfound, false)] := by
  decide +kernel

/-- The server ends after a miss. -/
theorem hits_received_missed : ∃ final,
    (machine onlyX).exec (machine onlyX).start
      (answered wordA ++ answered wordZ ++ unanswered wordA) = some final ∧
    final.returned = [(.found, true), (.notfound, true), (.notfound, false)] ∧
      (Honest final ↔ ((machine onlyX).guarded complete).exec (machine onlyX).start
        (answered wordA ++ answered wordZ ++ unanswered wordA) = some final) := by
  obtain ⟨final, run, returned⟩ := Option.map_eq_some_iff.mp missed_runs
  exact ⟨final, run, returned, hits_received_iff run⟩

theorem vanished_runs :
    ((machine onlyX).exec (machine onlyX).start
      (answered wordA ++ unanswered wordZ)).map Dialogue.returned =
        some [(.found, true), (.found, false)] := by
  decide +kernel

/-- The server ends after a hit, and the next word is a hit as well. -/
theorem vanished_hit : ¬ ∀ (connection : Connection) (schedule : List Action) (final : Dialogue),
    (machine connection).exec (machine connection).start schedule = some final → Honest final := by
  intro always
  obtain ⟨final, run, returned⟩ := Option.map_eq_some_iff.mp vanished_runs
  have honest := always onlyX _ final run
  rw [Honest, returned] at honest
  revert honest
  decide

end LinuxProgramming.Dictionary.Vanished
