import LinuxProgramming.Dictionary.Server
import LinuxProgramming.Foundation.Channel
import LinuxProgramming.Foundation.Machine

/-! A client that asks the datagram server, over a network that keeps no promises.

A reply does not say which request it answers, and the client takes the next
datagram for the answer. With a datagram that is delivered twice, the answer to
one word arrives while another one is asked.
-/

set_option autoImplicit false

namespace LinuxProgramming.Dictionary
open Foundation

/-- A call of `lookup` that has returned, with the caller's record. -/
structure Returned where
  word : Word
  code : Code
  record : Dictrec
  deriving DecidableEq

/-- With each datagram in flight goes the word that was asked when the request
behind it was sent; no step but the statements look at it. -/
structure Exchange where
  server : Option Server
  sought : Dictrec
  waiting : Option Word
  requests : List (Word × Datagram)
  replies : List (Word × Reply)
  returned : List Returned

inductive DatagramAction where
  | ask (word : Word)
  | serve (index : Nat)
  | receive (index : Nat)
  | requestFault (fault : Channel.Fault)
  | replyFault (fault : Channel.Fault)
  deriving DecidableEq

namespace Exchange

/-- `main` puts the word into its record, and `lookup` sends the record. -/
def ask (state : Exchange) (word : Word) : Option Exchange :=
  match state.waiting with
  | some _ => none
  | none => some { state with
      sought := state.sought.ask word
      waiting := some word
      requests := state.requests ++ [(word, wholeRecord (state.sought.ask word))] }

def serve (bytes : List Byte) (state : Exchange) (index : Nat) : Option Exchange :=
  match state.server, Channel.deliver state.requests index with
  | some server, some ((asked, datagram), requests) =>
    match Dictionary.serve bytes server datagram with
    | some (server, reply) => some { state with
        server := some server
        requests := requests
        replies := state.replies ++ [(asked, reply)] }
    | none => some { state with server := none, requests := requests }
  | _, _ => none

/-- `recvfrom` returns one datagram, whichever it is. -/
def receive (state : Exchange) (index : Nat) : Option Exchange :=
  match state.waiting, Channel.deliver state.replies index with
  | some word, some ((_, reply), replies) =>
    match decode (state.sought.overwrite reply.bytes) with
    | some (code, sought) => some { state with
        sought := sought
        waiting := none
        replies := replies
        returned := state.returned ++ [⟨word, code, sought⟩] }
    | none => none
  | _, _ => none

def step (bytes : List Byte) (state : Exchange) : DatagramAction → Option Exchange
  | .ask word => state.ask word
  | .serve index => serve bytes state index
  | .receive index => state.receive index
  | .requestFault fault =>
    (Channel.fault state.requests fault).map fun requests => { state with requests := requests }
  | .replyFault fault =>
    (Channel.fault state.replies fault).map fun replies => { state with replies := replies }

/-- The server's record and the client's hold anything before the first call. -/
def machine (bytes : List Byte) (dr sought : Dictrec) : Machine Exchange DatagramAction where
  start := ⟨some ⟨none, dr, 0⟩, sought, none, [], [], []⟩
  step := step bytes

/-- The reply that is taken goes back to a request for the word that is asked, and
no word is asked whose text is that of a miss. -/
def fresh (records : List Dictrec) (state : Exchange) : DatagramAction → Bool
  | .ask word => answer records word.chars ≠ (.found, some XXXX)
  | .receive index => state.replies[index]?.map Prod.fst = state.waiting
  | .serve _ | .requestFault _ | .replyFault _ => true

/-- No datagram is duplicated, and no word is asked whose text is that of a miss. -/
def once (records : List Dictrec) (_ : Exchange) : DatagramAction → Bool
  | .ask word => answer records word.chars ≠ (.found, some XXXX)
  | .requestFault (.duplicate _) | .replyFault (.duplicate _) => false
  | .serve _ | .receive _ | .requestFault (.lose _) | .replyFault (.lose _) => true

/-- Every call has left the word as it was, and has returned what the dictionary has for it. -/
def Right (records : List Dictrec) (state : Exchange) : Prop :=
  ∀ call ∈ state.returned, call.record.word.text = call.word.chars ∧
    observed (call.code, call.record) = answer records call.word.chars

/-- A record in which a word is asked that the server can answer unmistakably. -/
structure Asks (records : List Dictrec) (word : Word) (sought : Dictrec) : Prop where
  same : sought.word.text = word.chars
  terminated : sought.word.Terminated
  distinct : answer records word.chars ≠ (.found, some XXXX)

/-- Every datagram in flight is a request or a reply for the word it goes with. -/
structure Honest (records : List Dictrec) (state : Exchange) : Prop where
  requests : ∀ packet ∈ state.requests, ∃ sought,
    packet.2 = wholeRecord sought ∧ Asks records packet.1 sought
  replies : ∀ packet ∈ state.replies, ∃ sought,
    packet.2.bytes = (replyTo records sought).bytes ∧ Asks records packet.1 sought
  maps : ∀ server, state.server = some server → Maps server.static records
  right : state.Right records

end Exchange

variable {records : List Dictrec}

/-- A whole record is answered as by the servers that have a connection. -/
theorem serve_whole (sorted : Sorted records) {state : Server} (maps : Maps state.static records)
    {sought : Dictrec} (terminated : sought.word.Terminated) :
    serve (file records) state (wholeRecord sought) =
      if state.static = none ∧ records = [] then none
      else some (⟨some records, replyTo records sought, 0⟩, ⟨0, (replyTo records sought).bytes⟩) := by
  have received : state.dr.overwrite (wholeRecord sought).bytes = sought :=
    Dictrec.overwrite_bytes _ _
  rw [serve]
  simp only [received, lookupReceived_terminated _ _ terminated, lookup5_file sorted maps terminated]
  split
  next => rfl
  next =>
    cases found : entry records sought.word.text with
    | some dr => simp [replyTo, found, wholeRecord]
    | none =>
      simp [replyTo, found, missing, wholeRecord, Buffer.strcpy_fits _ (by decide : XXXX.length < TEXT)]

/-- A reply for a word tells what the dictionary has for it. -/
theorem decode_asked (sorted : Sorted records) {word : Word} {sought : Dictrec}
    (asks : Exchange.Asks records word sought) : ∃ code,
      decode (replyTo records sought) = some (code, replyTo records sought) ∧
      (replyTo records sought).word.text = word.chars ∧
      observed (code, replyTo records sought) = answer records word.chars := by
  obtain ⟨same, -, distinct⟩ := asks
  refine ⟨_, decode_reply sorted, ?_, ?_⟩
  · rw [← same]
    unfold replyTo
    split <;> rfl
  · rw [answer, ← same] at distinct ⊢
    cases found : entry records sought.word.text with
    | none => simp [observed, replyTo, found, missing_text]
    | some dr =>
      have whole := (sorted.wellFormed dr (mem_of_entry found).1).text
      have different : dr.text.text ≠ XXXX := by simpa [found] using distinct
      simp [observed, replyTo, found, fill_text sought whole, different]

namespace Exchange

variable {state next : Exchange}

/-- A call returns with a reply from the network, decoded over the record. -/
theorem receive_spec {index : Nat} (taken : state.receive index = some next) :
    ∃ word asked reply replies code sought, state.waiting = some word ∧
      Channel.deliver state.replies index = some ((asked, reply), replies) ∧
      decode (state.sought.overwrite reply.bytes) = some (code, sought) ∧
      next = { state with
        sought := sought
        waiting := none
        replies := replies
        returned := state.returned ++ [⟨word, code, sought⟩] } := by
  unfold Exchange.receive at taken
  split at taken
  next word asked reply replies waiting delivered =>
    split at taken
    next code sought decoded =>
      exact ⟨word, asked, reply, replies, code, sought, waiting, delivered, decoded,
        (Option.some.inj taken).symm⟩
    next => cases taken
  next => cases taken

theorem Honest.ask (honest : Honest records state) {word : Word}
    (distinct : answer records word.chars ≠ (.found, some XXXX))
    (taken : state.ask word = some next) : Honest records next := by
  unfold Exchange.ask at taken
  split at taken
  next => cases taken
  next =>
    cases taken
    refine ⟨fun packet member => ?_, honest.replies, honest.maps, honest.right⟩
    rcases List.mem_append.mp member with member | member
    · exact honest.requests packet member
    · rw [List.mem_singleton.mp member]
      exact ⟨_, rfl, Dictrec.ask_word_text _ _, Dictrec.ask_terminated _ _, distinct⟩

theorem Honest.serve (sorted : Sorted records) (honest : Honest records state) {index : Nat}
    (taken : serve (file records) state index = some next) : Honest records next := by
  unfold Exchange.serve at taken
  split at taken
  next server asked datagram requests serving delivered =>
    obtain ⟨member, rest⟩ := Channel.mem_of_deliver delivered
    have left : ∀ packet ∈ requests, ∃ sought,
        packet.2 = wholeRecord sought ∧ Asks records packet.1 sought :=
      fun packet inside => honest.requests packet (rest packet inside)
    obtain ⟨sought, whole, asks⟩ := honest.requests _ member
    rw [show datagram = wholeRecord sought from whole,
      serve_whole sorted (honest.maps server serving) asks.terminated] at taken
    by_cases unmapped : server.static = none ∧ records = []
    · rw [if_pos unmapped] at taken
      cases taken
      exact ⟨left, honest.replies, fun server ended => (by cases ended), honest.right⟩
    · rw [if_neg unmapped] at taken
      cases taken
      refine ⟨left, fun packet inside => ?_, fun server served => ?_, honest.right⟩
      · rcases List.mem_append.mp inside with inside | inside
        · exact honest.replies packet inside
        · rw [List.mem_singleton.mp inside]
          exact ⟨sought, rfl, asks⟩
      · cases served
        exact fun mapped same => (Option.some.inj same).symm
  next => cases taken

theorem Honest.receive (sorted : Sorted records) (honest : Honest records state) {index : Nat}
    (admitted : state.replies[index]?.map Prod.fst = state.waiting)
    (taken : state.receive index = some next) : Honest records next := by
  obtain ⟨word, asked, reply, replies, code, after, waiting, delivered, decoded, rfl⟩ :=
    receive_spec taken
  obtain ⟨member, rest⟩ := Channel.mem_of_deliver delivered
  obtain ⟨sought, content, asks⟩ := honest.replies _ member
  -- The guard says that the reply goes with the word that is waited for.
  have own : asked = word := by
    obtain ⟨found, at_index, same⟩ := Option.map_eq_some_iff.mp delivered
    cases same
    rw [at_index, waiting, Option.map_some] at admitted
    exact Option.some.inj admitted
  obtain ⟨told, tells, same, observes⟩ := decode_asked sorted asks
  rw [show reply.bytes = (replyTo records sought).bytes from content, Dictrec.overwrite_bytes,
    tells] at decoded
  cases decoded
  refine ⟨honest.requests, fun packet inside => honest.replies packet (rest packet inside),
    honest.maps, fun call inside => ?_⟩
  rcases List.mem_append.mp inside with inside | inside
  · exact honest.right call inside
  · rw [List.mem_singleton.mp inside, ← own]
    exact ⟨same, observes⟩

theorem Honest.step (sorted : Sorted records) (honest : Honest records state)
    {action : DatagramAction} (admitted : fresh records state action = true)
    (taken : step (file records) state action = some next) : Honest records next := by
  cases action with
  | ask word => exact honest.ask (of_decide_eq_true admitted) taken
  | serve index => exact honest.serve sorted taken
  | receive index => exact honest.receive sorted (of_decide_eq_true admitted) taken
  | requestFault fault =>
    obtain ⟨requests, happened, rfl⟩ := Option.map_eq_some_iff.mp taken
    exact ⟨fun packet member => honest.requests packet (Channel.mem_of_fault happened packet member),
      honest.replies, honest.maps, honest.right⟩
  | replyFault fault =>
    obtain ⟨replies, happened, rfl⟩ := Option.map_eq_some_iff.mp taken
    exact ⟨honest.requests, fun packet member =>
      honest.replies packet (Channel.mem_of_fault happened packet member), honest.maps, honest.right⟩

theorem honest_of_reachable (sorted : Sorted records) {dr sought : Dictrec}
    (reached : ((machine (file records) dr sought).guarded (fresh records)).Reachable state) :
    Honest records state := by
  have start : Honest records (machine (file records) dr sought).start := by
    refine ⟨fun _ member => ?_, fun _ member => ?_, fun server serving => ?_, fun _ member => ?_⟩
    · exact (List.not_mem_nil member).elim
    · exact (List.not_mem_nil member).elim
    · cases serving
      exact fun mapped same => by cases same
    · exact (List.not_mem_nil member).elim
  exact Machine.guarded_invariant (fun _ => trivial) start
    (fun _ honest admitted taken => honest.step sorted admitted taken) reached

/-- In a run in which each reply that is taken goes back to a request for the same
word, every call returns what the dictionary has for its word. -/
theorem answers_belong (sorted : Sorted records) (dr sought : Dictrec)
    (reached : ((machine (file records) dr sought).guarded (fresh records)).Reachable state) :
    state.Right records := (honest_of_reachable sorted reached).right

/-- The word "y", which the dictionary below does not have. -/
def wordY : Word := ⟨['y'.toUInt8], by decide, by decide⟩

/-- The word "a", which it has. -/
def wordInside : Word := ⟨[97], by decide, by decide⟩

/-- The request for "y" is delivered twice, and the second reply to it is lost. -/
def answeredTwice : List DatagramAction :=
  [.ask wordY, .requestFault (.duplicate 0), .serve 0, .serve 0, .receive 0, .replyFault (.lose 0),
    .ask wordInside, .serve 0, .replyFault (.duplicate 0), .receive 1]

theorem answered_runs :
    (((machine (file (defining ['x'.toUInt8])) askA askA).guarded
      (fresh (defining ['x'.toUInt8]))).exec (machine (file (defining ['x'.toUInt8])) askA askA).start
        answeredTwice).map (fun state => state.returned.map fun call => (call.word, call.code)) =
          some [(wordY, .notfound), (wordInside, .found)] := by
  decide +kernel

/-- A miss and a hit, though datagrams are duplicated and lost. -/
theorem answers_belong_answered : ∃ state : Exchange,
    ((machine (file (defining ['x'.toUInt8])) askA askA).guarded
        (fresh (defining ['x'.toUInt8]))).Reachable state ∧
      state.returned.map (fun call => (call.word, call.code)) =
        [(wordY, .notfound), (wordInside, .found)] ∧
      state.Right (defining ['x'.toUInt8]) := by
  obtain ⟨state, reached, returned⟩ := Machine.exists_reachable answered_runs
  exact ⟨state, reached, returned, answers_belong (defining_sorted (by decide)) askA askA reached⟩

theorem stale_runs :
    ((machine (file (defining ['x'.toUInt8])) askA askA).exec
      (machine (file (defining ['x'.toUInt8])) askA askA).start
        [.ask wordY, .requestFault (.duplicate 0), .serve 0, .serve 0, .receive 0, .ask wordInside,
          .receive 0]).map (fun state => state.returned.map fun call =>
            (call.word, call.code, call.record.word.text)) =
              some [(wordY, .notfound, wordY.chars), (wordInside, .notfound, wordY.chars)] := by
  decide +kernel

/-- The request for "y" is delivered twice, and the second reply to it is taken for
the answer to "a". -/
theorem stale_reply_not_right : ¬ ∀ (records : List Dictrec) (dr sought : Dictrec)
    (state : Exchange), Sorted records →
      (machine (file records) dr sought).Reachable state → state.Right records := by
  intro always
  obtain ⟨state, reached, returned⟩ := Machine.exists_reachable stale_runs
  have right := always _ askA askA state (defining_sorted (by decide)) reached
  have second : (wordInside, Code.notfound, wordY.chars) ∈ state.returned.map fun call =>
      (call.word, call.code, call.record.word.text) := by
    rw [returned]
    simp
  obtain ⟨call, member, same⟩ := List.mem_map.mp second
  obtain ⟨word, -, text⟩ := Prod.mk.inj same |>.imp_right Prod.mk.inj
  have kept := (right call member).1
  rw [text, word] at kept
  revert kept
  decide

/-- Without duplicates there is at most one datagram, and it goes with the word that
is waited for. -/
structure Single (state : Exchange) : Prop where
  requests : ∀ packet ∈ state.requests, state.waiting = some packet.1
  replies : ∀ packet ∈ state.replies, state.waiting = some packet.1
  single : state.requests.length + state.replies.length ≤ 1

theorem Single.ask (single : Single state) {word : Word} (taken : state.ask word = some next) :
    Single next := by
  unfold Exchange.ask at taken
  split at taken
  next => cases taken
  next idle =>
    cases taken
    have none_sent : state.requests = [] := List.eq_nil_iff_forall_not_mem.mpr fun packet member => by
      simpa [idle] using single.requests packet member
    have none_answered : state.replies = [] :=
      List.eq_nil_iff_forall_not_mem.mpr fun packet member => by
        simpa [idle] using single.replies packet member
    exact ⟨by simp [none_sent], by simp [none_answered], by simp [none_sent, none_answered]⟩

theorem Single.serve (single : Single state) {bytes : List Byte} {index : Nat}
    (taken : serve bytes state index = some next) : Single next := by
  obtain ⟨asked, waited, few⟩ := single
  unfold Exchange.serve at taken
  split at taken
  next server word datagram requests serving delivered =>
    obtain ⟨member, rest⟩ := Channel.mem_of_deliver delivered
    have shorter := Channel.length_of_deliver delivered
    split at taken
    next =>
      cases taken
      refine ⟨fun packet inside => asked packet (rest packet inside), fun packet inside => ?_, ?_⟩
      · rcases List.mem_append.mp inside with inside | inside
        · exact waited packet inside
        · rw [List.mem_singleton.mp inside]
          exact asked _ member
      · simp only [List.length_append, List.length_singleton]
        omega
    next =>
      cases taken
      exact ⟨fun packet inside => asked packet (rest packet inside), waited, by dsimp only; omega⟩
  next => cases taken

theorem Single.receive (single : Single state) {index : Nat}
    (taken : state.receive index = some next) : Single next := by
  obtain ⟨asked, waited, few⟩ := single
  obtain ⟨_, _, _, replies, _, _, -, delivered, -, rfl⟩ := receive_spec taken
  have shorter := Channel.length_of_deliver delivered
  -- The one datagram is taken out, so nothing is left to go with a word.
  have no_requests : state.requests = [] := List.length_eq_zero_iff.mp (by omega)
  have no_replies : replies = [] := List.length_eq_zero_iff.mp (by omega)
  exact ⟨by simp [no_requests], by simp [no_replies], by simp [no_requests, no_replies]⟩

theorem Single.step (single : Single state) {bytes : List Byte} {action : DatagramAction}
    (admitted : once records state action = true) (taken : step bytes state action = some next) :
    Single next := by
  obtain ⟨asked, waited, few⟩ := id single
  cases action with
  | ask word => exact single.ask taken
  | serve index => exact single.serve taken
  | receive index => exact single.receive taken
  | requestFault fault =>
    obtain ⟨requests, happened, rfl⟩ := Option.map_eq_some_iff.mp taken
    cases fault with
    | duplicate index => cases admitted
    | lose index =>
      have shorter := Channel.length_of_lose happened
      exact ⟨fun packet member => asked packet (Channel.mem_of_fault happened packet member), waited,
        by dsimp only; omega⟩
  | replyFault fault =>
    obtain ⟨replies, happened, rfl⟩ := Option.map_eq_some_iff.mp taken
    cases fault with
    | duplicate index => cases admitted
    | lose index =>
      have shorter := Channel.length_of_lose happened
      exact ⟨asked, fun packet member => waited packet (Channel.mem_of_fault happened packet member),
        by dsimp only; omega⟩

/-- A network that may lose and delay datagrams but does not duplicate them never
brings a reply to another word. -/
theorem fresh_of_once {bytes : List Byte} {dr sought : Dictrec}
    (reached : ((machine bytes dr sought).guarded (once records)).Reachable state) :
    ((machine bytes dr sought).guarded (fresh records)).Reachable state ∧ Single state := by
  induction reached with
  | start => exact ⟨.start, by simp [machine, Machine.guarded], by simp [machine, Machine.guarded],
      Nat.zero_le 1⟩
  | @step before after action _ taken ih =>
    obtain ⟨reached, single⟩ := ih
    obtain ⟨admitted, stepped⟩ := Machine.guarded_step.mp taken
    refine ⟨reached.step (Machine.guarded_step.mpr ⟨?_, stepped⟩), single.step admitted stepped⟩
    cases action with
    | ask word => exact admitted
    | serve | requestFault | replyFault => rfl
    | receive index =>
      obtain ⟨_, _, _, _, _, _, -, delivered, -⟩ := receive_spec stepped
      obtain ⟨packet, at_index, -⟩ := Option.map_eq_some_iff.mp delivered
      apply decide_eq_true
      rw [at_index, single.replies packet (List.mem_of_getElem? at_index)]
      rfl

/-- Every call that returns is right if no datagram is duplicated. -/
theorem answers_belong_once (sorted : Sorted records) (dr sought : Dictrec)
    (reached : ((machine (file records) dr sought).guarded (once records)).Reachable state) :
    state.Right records := (honest_of_reachable sorted (fresh_of_once reached).1).right

end Exchange

end LinuxProgramming.Dictionary
